import ParamStore.Proofs.Loader.Load
import ParamStore.Proofs.Loader.Unload

/-!
# Runs of a container

A container as a machine on which threads act one after the other, by
requests to one of its stores, on all stores at once, or through a loader.
Every container that can be reached from an empty one is sound
(`Reachable.sound`); which groups may write changes only by registrations
and by the end of loads and unloads (`isAuthorized_step`).
-/

namespace ParamStore

namespace Container

/-- What a thread may do. -/
inductive Action where
  | ask (k : Kind) (r : Store.Request)
  | flush
  | clearFrozen (group : Group)
  | push
  | pop
  | register (group : Group)
  | unregister (group : Group)
  | load (l : Loader) (snapshot : Snapshot)
  | reload (l : Loader) (snapshot : Snapshot)
  | unload (l : Loader)

/-- Ask one store. -/
def ask (c : Container) (thread : Nat) (k : Kind) (r : Store.Request) : Store.Answer × Container :=
  let (answer, s) := (c.store k).serve k (c.caller thread) r
  (answer, c.withStore k s)

/-- The container after an action, whether that is refused or not. -/
def step (c : Container) (thread : Nat) : Action → Container
  | .ask k r => (c.ask thread k r).2
  | .flush => (c.flush thread).2
  | .clearFrozen group => (c.clearFrozen group).2
  | .push => (c.push thread).2
  | .pop => (c.pop thread).2
  | .register group => (c.register group).2
  | .unregister group => c.unregister group
  | .load l snapshot => (l.load thread snapshot c).2
  | .reload l snapshot => (l.reload thread snapshot c).2
  | .unload l => (l.unload thread c).2

@[simp] theorem step_set (c : Container) (thread : Nat) (k : Kind) (text : String) (input : Input)
    (o : SetOptions) :
    c.step thread (.ask k (.set text input o)) = (c.set thread k text input o).2 := rfl

@[simp] theorem step_unset (c : Container) (thread : Nat) (k : Kind) (text : String)
    (o : UnsetOptions) :
    c.step thread (.ask k (.unset text o)) = (c.unset thread k text o).2 := rfl

@[simp] theorem step_clearKind (c : Container) (thread : Nat) (k : Kind) (group : Group) :
    c.step thread (.ask k (.clearFrozen group)) = (c.clearKind k group).2 := rfl

/-- The container after actions, each of the thread beside it. -/
def run (c : Container) (acts : List (Nat × Action)) : Container :=
  acts.foldl (fun c a => c.step a.1 a.2) c

theorem run_append (c : Container) (acts more : List (Nat × Action)) :
    c.run (acts ++ more) = (c.run acts).run more :=
  List.foldl_append

/-- The containers that actions can make of an empty one. -/
def Reachable (c : Container) : Prop :=
  ∃ config acts, c = (ofConfig config).run acts

variable {c c' : Container} {k : Kind} {thread : Nat} {g : Group}

/-! ## Walks over all stores -/

/-- What flushing one store preserves, flushing several does. -/
theorem flushKinds_induction {P : Container → Prop}
    (hstep : ∀ c k, P c → P (c.flushKind thread k).2) (ks : List Kind) (h : P c) :
    P (flushKinds thread ks c).2 := by
  induction ks generalizing c with
  | nil => exact h
  | cons k ks ih => exact ih (hstep c k h)

/-- What clearing one store preserves, clearing several does. -/
theorem clearKinds_induction {P : Container → Prop}
    (hstep : ∀ c k, P c → P (c.clearKind k g).2) (ks : List Kind) (h : P c) :
    P (clearKinds g ks c).2 := by
  induction ks generalizing c with
  | nil => exact h
  | cons k ks ih =>
    have hone := hstep c k h
    unfold clearKinds
    split
    · next heq => rwa [heq] at hone
    · next heq =>
      rw [heq] at hone
      exact ih hone

/-! ## Soundness -/

theorem store_push (c : Container) (thread : Nat) (k : Kind) :
    (c.push thread).2.store k = c.store k := by
  cases k <;> rfl

theorem registry_flush (c : Container) (thread : Nat) : (c.flush thread).2.registry = c.registry :=
  flushKinds_induction (P := fun c' => c'.registry = c.registry)
    (fun c' k h => (registry_withStore c' k _).trans h) Kind.all rfl

theorem registry_clearFrozen (c : Container) (g : Group) :
    (c.clearFrozen g).2.registry = c.registry :=
  clearKinds_induction (P := fun c' => c'.registry = c.registry)
    (fun c' k h => (registry_withStore c' k _).trans h) Kind.all rfl

/-- Leaving a frame flushes the stores or leaves them alone, and of the
registry it changes the frames. -/
theorem pop_cases (c : Container) (thread : Nat) :
    ∃ c₁ frames, (c₁ = c ∨ c₁ = (c.flush thread).2)
      ∧ (∀ k, (c.pop thread).2.store k = c₁.store k)
      ∧ (c.pop thread).2.registry = { c.registry with frames := frames } := by
  unfold pop
  split
  · exact ⟨c, c.registry.frames, .inl rfl, fun _ => rfl, rfl⟩
  have hflush : ∃ c₁, (c₁ = c ∨ c₁ = (c.flush thread).2) ∧ c₁.registry = c.registry ∧
      (if c.registry.mode = .threadAndFrame then (c.flush thread).2 else c) = c₁ := by
    split
    · exact ⟨_, .inr rfl, registry_flush c thread, rfl⟩
    · exact ⟨c, .inl rfl, rfl, rfl⟩
  obtain ⟨c₁, hc₁, hregistry, heq⟩ := hflush
  simp only [heq]
  rw [← hregistry]
  unfold Registry.pop
  split
  · exact ⟨c₁, c₁.registry.frames, hc₁, fun _ => rfl, rfl⟩
  · next r hpop =>
    split at hpop
    · cases hpop
    · cases hpop
      exact ⟨c₁, _, hc₁, fun k => by cases k <;> rfl, rfl⟩
    · cases hpop
      exact ⟨c₁, _, hc₁, fun k => by cases k <;> rfl, rfl⟩

theorem Sound.ask (h : c.Sound) (thread : Nat) (k : Kind) (r : Store.Request) :
    (c.ask thread k r).2.Sound :=
  h.withStore (Store.sound_serve (h k) (c.caller thread) r)

theorem Sound.flush (h : c.Sound) (thread : Nat) : (c.flush thread).2.Sound :=
  flushKinds_induction (fun _ k h => (h.turns_flushKind thread k).sound) Kind.all h

theorem Sound.clearFrozen (h : c.Sound) (g : Group) : (c.clearFrozen g).2.Sound :=
  clearKinds_induction (fun _ k h => (h.turns_clearKind k g).2.sound) Kind.all h

theorem Sound.load (h : c.Sound) (l : Loader) (thread : Nat) (snapshot : Snapshot) :
    (l.load thread snapshot c).2.Sound := by
  cases hload : l.load thread snapshot c with
  | mk answer c' =>
    cases answer with
    | ok count =>
      obtain ⟨ws, hstanding⟩ := Loader.load_ok h hload
      exact hstanding.sound
    | error e =>
      obtain ⟨_, _, _, _, _, -, -, -, hturns⟩ := Loader.load_error h hload
      exact hturns.sound

theorem Sound.clearKind (h : c.Sound) (k : Kind) (g : Group) : (c.clearKind k g).2.Sound :=
  (h.turns_clearKind k g).2.sound

theorem reload_eq (h : c.Sound) (l : Loader) (thread : Nat) (snapshot : Snapshot) :
    l.reload thread snapshot c = l.load thread snapshot (c.clearKind l.kind l.group).2 := by
  obtain ⟨⟨count, hcount⟩, -⟩ := h.turns_clearKind l.kind l.group
  have hpair : c.clearKind l.kind l.group = (.ok count, (c.clearKind l.kind l.group).2) :=
    Prod.ext hcount rfl
  unfold Loader.reload
  rw [hpair]

/-- An unload is refused and changes nothing, or it goes through. -/
theorem unload_cases (h : c.Sound) (l : Loader) (thread : Nat) :
    (l.unload thread c = (.error (.unauthorized l.group l.kind), c)
      ∧ c.registry.isAuthorized l.group = false ∧ ∃ p, l.Untouched c p) ∨
    ∃ report c', l.pending thread c = .ok report
      ∧ l.unload thread c = (.ok report, c'.unregister l.group)
      ∧ Turns l.kind c c' fun p =>
          (c.at? l.kind p).bind fun n => (n.unloadedFor l.group).kept := by
  by_cases hright : c.registry.isAuthorized l.group = true ∨ ∀ p, ¬ l.Untouched c p
  · exact .inr (Loader.unload_ok h thread hright)
  · obtain ⟨ha, hp⟩ := not_or.1 hright
    obtain ⟨p, hp⟩ := not_forall_not.1 hp
    rw [Bool.not_eq_true] at ha
    exact .inl ⟨Loader.unload_error h thread ha hp, ha, p, hp⟩

/-- What an unload that goes through answers and leaves. -/
theorem unload_eq_ok (h : c.Sound) {l : Loader} {report : Report}
    (hunload : l.unload thread c = (.ok report, c')) :
    l.pending thread c = .ok report
      ∧ (∀ p, c'.at? l.kind p = (c.at? l.kind p).bind fun n => (n.unloadedFor l.group).kept)
      ∧ (∀ k, k ≠ l.kind → c'.store k = c.store k)
      ∧ c'.registry = c.registry.unregister l.group := by
  obtain ⟨heq, -⟩ | ⟨report', c₁, hpending, heq, hturns⟩ := unload_cases h l thread
  · cases heq.symm.trans hunload
  cases heq.symm.trans hunload
  refine ⟨hpending, fun p => ?_, fun k hk => ?_, congrArg (·.unregister l.group) hturns.registry_eq⟩
  · exact (at?_unregister c₁ l.group l.kind p).trans (hturns.at?_eq p)
  · exact (store_unregister c₁ l.group k).trans (hturns.store_eq k hk)

theorem Sound.unload (h : c.Sound) (l : Loader) (thread : Nat) : (l.unload thread c).2.Sound := by
  obtain ⟨heq, -⟩ | ⟨report, c', -, heq, hturns⟩ := unload_cases h l thread
  · rw [heq]
    exact h
  · rw [heq]
    exact hturns.sound.unregister l.group

theorem Sound.step (h : c.Sound) (thread : Nat) (a : Action) : (c.step thread a).Sound := by
  cases a with
  | ask k r => exact h.ask thread k r
  | flush => exact h.flush thread
  | clearFrozen g => exact h.clearFrozen g
  | push => exact h.congr (store_push c thread)
  | pop =>
    obtain ⟨c₁, frames, rfl | rfl, hstore, -⟩ := pop_cases c thread
    · exact h.congr hstore
    · exact (h.flush thread).congr hstore
  | register g => exact h.register g
  | unregister g => exact h.unregister g
  | load l snapshot => exact h.load l thread snapshot
  | reload l snapshot =>
    change (l.reload thread snapshot c).2.Sound
    rw [reload_eq h]
    exact (h.clearKind l.kind l.group).load l thread snapshot
  | unload l => exact h.unload l thread

theorem Sound.run (h : c.Sound) (acts : List (Nat × Action)) : (c.run acts).Sound := by
  induction acts generalizing c with
  | nil => exact h
  | cons a acts ih => exact ih (h.step a.1 a.2)

theorem Reachable.sound (h : Reachable c) : c.Sound := by
  obtain ⟨config, acts, rfl⟩ := h
  exact (Sound.ofConfig config).run acts

theorem Reachable.run (h : Reachable c) (acts : List (Nat × Action)) : Reachable (c.run acts) := by
  obtain ⟨config, before, rfl⟩ := h
  exact ⟨config, before ++ acts, (run_append _ _ _).symm⟩

/-! ## Who may write -/

/-- The actions that may take the right to write from a group. -/
def Action.Resigns (g : Group) : Action → Prop
  | .unregister group => group = g
  | .unload l => l.group = g
  | _ => False

theorem registry_load (h : c.Sound) (l : Loader) (thread : Nat) (snapshot : Snapshot) :
    (l.load thread snapshot c).2.registry = c.registry ∨
      (l.load thread snapshot c).2.registry = (c.registry.register l.group).2 := by
  cases hload : l.load thread snapshot c with
  | mk answer c' =>
    cases answer with
    | ok count =>
      obtain ⟨ws, hstanding⟩ := Loader.load_ok h hload
      exact .inr hstanding.registry_eq
    | error e =>
      obtain ⟨_, _, _, _, _, -, -, -, hturns⟩ := Loader.load_error h hload
      exact .inl hturns.registry_eq

/-- What an action makes of the registry. -/
theorem registry_step (h : c.Sound) (thread : Nat) (a : Action) :
    (∃ frames, (c.step thread a).registry = { c.registry with frames := frames })
      ∨ (∃ g, (c.step thread a).registry = (c.registry.register g).2)
      ∨ ∃ g, a.Resigns g ∧ (c.step thread a).registry = c.registry.unregister g := by
  have hload : ∀ c₁ : Container, c₁.Sound → c₁.registry = c.registry → ∀ l : Loader, ∀ snapshot,
      (∃ frames, (l.load thread snapshot c₁).2.registry = { c.registry with frames := frames })
        ∨ (∃ g, (l.load thread snapshot c₁).2.registry = (c.registry.register g).2)
        ∨ ∃ g, a.Resigns g ∧ (l.load thread snapshot c₁).2.registry = c.registry.unregister g := by
    intro c₁ h₁ heq l snapshot
    obtain hr | hr := registry_load h₁ l thread snapshot
    · exact .inl ⟨c.registry.frames, hr.trans heq⟩
    · exact .inr (.inl ⟨l.group, by rw [hr, heq]⟩)
  cases a with
  | ask k r => exact .inl ⟨c.registry.frames, registry_withStore c k _⟩
  | flush => exact .inl ⟨c.registry.frames, registry_flush c thread⟩
  | clearFrozen g => exact .inl ⟨c.registry.frames, registry_clearFrozen c g⟩
  | push => exact .inl ⟨_, rfl⟩
  | pop =>
    obtain ⟨c₁, frames, -, -, hregistry⟩ := pop_cases c thread
    exact .inl ⟨frames, hregistry⟩
  | register g => exact .inr (.inl ⟨g, rfl⟩)
  | unregister g => exact .inr (.inr ⟨g, rfl, rfl⟩)
  | load l snapshot => exact hload c h rfl l snapshot
  | reload l snapshot =>
    have hclear := hload (c.clearKind l.kind l.group).2 (h.clearKind l.kind l.group)
      (registry_withStore c l.kind _) l snapshot
    rw [← reload_eq h] at hclear
    exact hclear
  | unload l =>
    change (∃ frames, (l.unload thread c).2.registry = _) ∨ _
    obtain ⟨heq, -⟩ | ⟨report, c', -, heq, hturns⟩ := unload_cases h l thread
    · exact .inl ⟨c.registry.frames, by rw [heq]⟩
    · refine .inr (.inr ⟨l.group, rfl, ?_⟩)
      change (l.unload thread c).2.registry = _
      rw [heq, ← hturns.registry_eq]
      rfl

/-- Only an action that resigns for the group can take its right to write. -/
theorem isAuthorized_step (h : c.Sound) {a : Action} (ha : ¬ a.Resigns g)
    (hg : c.registry.isAuthorized g = true) :
    (c.step thread a).registry.isAuthorized g = true := by
  obtain ⟨frames, hr⟩ | ⟨g', hr⟩ | ⟨g', hresigns, hr⟩ := registry_step h thread a
  · rw [hr]
    exact hg
  · rw [hr]
    exact Registry.isAuthorized_of_register hg g'
  · have hne : g' ≠ g := fun h => ha (h ▸ hresigns)
    rw [hr, Registry.isAuthorized_unregister hne]
    exact hg

theorem isAuthorized_run (h : c.Sound) {acts : List (Nat × Action)}
    (hacts : ∀ a ∈ acts, ¬ a.2.Resigns g) (hg : c.registry.isAuthorized g = true) :
    (c.run acts).registry.isAuthorized g = true := by
  induction acts generalizing c with
  | nil => exact hg
  | cons a acts ih =>
    exact ih (h.step a.1 a.2) (fun b hb => hacts b (List.mem_cons_of_mem _ hb))
      (isAuthorized_step h (hacts a List.mem_cons_self) hg)

theorem defaultGroup_step (h : c.Sound) (thread : Nat) (a : Action) :
    (c.step thread a).registry.defaultGroup = c.registry.defaultGroup := by
  obtain ⟨frames, hr⟩ | ⟨g, hr⟩ | ⟨g, -, hr⟩ := registry_step h thread a
  · rw [hr]
  · rw [hr]
    unfold Registry.register
    split <;> rfl
  · rw [hr]
    rfl

end Container

end ParamStore
