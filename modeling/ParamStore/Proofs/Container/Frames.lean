import ParamStore.Proofs.Container.Slots

/-!
# Frames

Where scopes are frames, a thread writes to the scope of the frame that it
is in, and to no other (`inScope?_step`); it leaves a frame only after that
scope was flushed. So no value stands in a frame deeper than its thread is
(`Framed`), a frame that is entered is empty, and what a thread does in a
frame and in those that it enters from there is never seen in the frames
around it (`frames_kept`).
-/

namespace ParamStore

namespace Registry

variable (r : Registry) (thread t : Nat)

theorem depth_push :
    (r.push thread).2.depth t = if thread = t then r.depth thread + 1 else r.depth t := by
  unfold push depth
  rw [Table.find?_insert]
  split <;> rfl

theorem depth_pop {d : Nat} {r' : Registry} (h : r.pop thread = .ok (d, r')) :
    r.depth thread = d + 1 ∧ r'.depth t = if thread = t then d else r.depth t := by
  unfold pop at h
  split at h
  · cases h
  · next hd =>
    cases h
    refine ⟨hd, ?_⟩
    unfold depth
    rw [Table.find?_erase]
    split <;> rfl
  · next hd =>
    cases h
    refine ⟨hd, ?_⟩
    unfold depth
    rw [Table.find?_insert]
    split <;> rfl

theorem pop_of_depth {d : Nat} (h : r.depth thread = d + 1) :
    ∃ frames, r.pop thread = .ok (d, { r with frames := frames }) := by
  unfold pop
  rw [h]
  cases d <;> exact ⟨_, rfl⟩

end Registry

namespace Container

variable {c c' : Container} {k : Kind} {p : Path} {thread t : Nat} {key : ScopeKey}

/-- The value of a scope at a path. -/
def inScope? (c : Container) (k : Kind) (p : Path) (key : ScopeKey) : Option Parameter :=
  (c.store k).inScope? p key

theorem inScope?_congr (h : c'.store k = c.store k) : c'.inScope? k p key = c.inScope? k p key :=
  slot?_congr h

theorem Turns.inScope?_eq {k' : Kind} {view : Path → Option Node} (h : Turns k' c c' view)
    (hview : ∀ q, ((view q).bind fun n => n.inScope? key) = c.inScope? k' q key) (k : Kind)
    (p : Path) : c'.inScope? k p key = c.inScope? k p key :=
  h.slot?_eq (i := .scope key) hview k p

/-! ## Whose values an action touches -/

/-- Flushing empties the slots of the thread's scope. -/
theorem inScope?_flush (h : c.Sound) :
    (c.flush thread).2.inScope? k p key =
      if key = (c.caller thread).scope then none else c.inScope? k p key := by
  refine (slot?_flush h).trans ?_
  simp only [Slot.scope.injEq]
  rfl

/-- Loaders store shared values only. -/
theorem inScope?_load (h : c.Sound) (l : Loader) (thread : Nat) (snapshot : Snapshot) :
    (l.load thread snapshot c).2.inScope? k p key = c.inScope? k p key := by
  cases hload : l.load thread snapshot c with
  | mk answer c' =>
    cases answer with
    | error e =>
      obtain ⟨_, _, _, _, _, -, -, -, hturns⟩ := Loader.load_error h hload
      refine hturns.inScope?_eq (fun q => ?_) k p
      split
      · change ((c.at? l.kind q).map Node.repinned).bind _ = (c.at? l.kind q).bind _
        cases c.at? l.kind q <;> rfl
      · rfl
    | ok count =>
      obtain ⟨ws, hstanding⟩ := Loader.load_ok h hload
      by_cases hk : k = l.kind
      · subst hk
        have hold : (c.register l.group).2.inScope? l.kind p key = c.inScope? l.kind p key :=
          inScope?_congr (store_register c l.group l.kind)
        rw [← hold]
        by_cases hp : ∀ e ∈ snapshot.entries, Store.readPath e.1 ≠ .ok p
        · exact congrArg (fun n? => n?.bind fun n => n.inScope? key) (hstanding.rest p hp)
        · simp only [not_forall, Classical.not_not] at hp
          obtain ⟨e, he, hread⟩ := hp
          obtain ⟨q, hq, -, hat⟩ := hstanding.entry e he
          cases hread.symm.trans hq
          exact (congrArg (fun n? => n?.bind fun n => n.inScope? key) hat).trans
            (Store.slot?_getD _ p (.scope key))
      · exact inScope?_congr ((hstanding.store_eq k hk).trans (store_register c _ k))

theorem inScope?_unload (h : c.Sound) (l : Loader) (thread : Nat) :
    (l.unload thread c).2.inScope? k p key = c.inScope? k p key := by
  obtain ⟨heq, -⟩ | ⟨report, c', -, heq, hturns⟩ := unload_cases h l thread
  · rw [heq]
  rw [heq]
  refine (inScope?_congr (store_unregister c' l.group k)).trans
    (hturns.inScope?_eq (fun q => ?_) k p)
  change ((c.at? l.kind q).bind _).bind _ = (c.at? l.kind q).bind _
  cases c.at? l.kind q with
  | none => rfl
  | some n =>
    refine (Node.slot?_kept (n.unloadedFor l.group) (.scope key)).trans ?_
    unfold Node.unloadedFor
    split
    · split <;> rfl
    · rfl

/-- Whatever a thread does, the values of other scopes than its own stay. -/
theorem inScope?_step (h : c.Sound) (a : Action) (hkey : key ≠ (c.caller thread).scope) :
    (c.step thread a).inScope? k p key = c.inScope? k p key := by
  have hscope : Slot.scope key ≠ .scope (c.caller thread).scope := fun heq =>
    hkey (Slot.scope.inj heq)
  cases a with
  | ask k' r => exact slot?_step h fun hr => r.not_reaches_scope hkey hr.2
  | flush => exact slot?_step (a := .flush) h hscope
  | pop => exact slot?_step (a := .pop) h hscope
  | clearFrozen | push | register | unregister => exact slot?_step h id
  | load l snapshot => exact inScope?_load h l thread snapshot
  | reload l snapshot =>
    change (l.reload thread snapshot c).2.inScope? k p key = _
    rw [reload_eq h, inScope?_load (h.clearKind l.kind l.group)]
    exact slot?_clearKind h l.kind l.group
  | unload l => exact inScope?_unload h l thread

/-! ## How deep threads are -/

/-- How deep a thread is after its action, if it was `d` deep before. -/
def Action.deepens : Action → Nat → Nat
  | .push, d => d + 1
  | .pop, d => d - 1
  | _, d => d

theorem mode_step (h : c.Sound) (thread : Nat) (a : Action) :
    (c.step thread a).registry.mode = c.registry.mode := by
  obtain ⟨frames, hr⟩ | ⟨g, hr⟩ | ⟨g, -, hr⟩ := registry_step h thread a
  · rw [hr]
  · rw [hr]
    unfold Registry.register
    split <;> rfl
  · rw [hr]
    rfl

theorem frames_register (r : Registry) (g : Group) : (r.register g).2.frames = r.frames := by
  unfold Registry.register
  split <;> rfl

theorem frames_load (h : c.Sound) (l : Loader) (thread : Nat) (snapshot : Snapshot) :
    (l.load thread snapshot c).2.registry.frames = c.registry.frames := by
  obtain hr | hr := registry_load h l thread snapshot
  · rw [hr]
  · rw [hr, frames_register]

/-- A pop is refused and changes nothing, or it flushes the scope that it
leaves, where that is a frame's, and leaves the frame. -/
theorem pop_frames (c : Container) (thread : Nat) :
    (c.registry.depth thread = 0 ∧ (c.pop thread).2 = c) ∨
    ∃ d frames, c.registry.depth thread = d + 1
      ∧ c.registry.pop thread = .ok (d, { c.registry with frames := frames })
      ∧ (c.pop thread).1 = .ok d
      ∧ (c.pop thread).2.registry = { c.registry with frames := frames }
      ∧ ∀ k, (c.pop thread).2.store k =
          (if c.registry.mode = .threadAndFrame then (c.flush thread).2 else c).store k := by
  unfold pop
  by_cases h0 : c.registry.depth thread = 0
  · exact .inl ⟨h0, by rw [if_pos h0]⟩
  obtain ⟨d, hd⟩ := Nat.exists_eq_succ_of_ne_zero h0
  obtain ⟨frames, hpop⟩ := c.registry.pop_of_depth thread hd
  refine .inr ⟨d, frames, hd, hpop, ?_⟩
  have hregistry : (if c.registry.mode = .threadAndFrame then (c.flush thread).2 else c).registry
      = c.registry := by
    split
    · exact registry_flush c thread
    · rfl
  rw [if_neg h0]
  simp only [hregistry, hpop]
  exact ⟨trivial, trivial, fun k => by cases k <;> rfl⟩

/-- Only entering and leaving frames changes how deep a thread is, and only
that of the thread itself. -/
theorem depth_step (h : c.Sound) (thread t : Nat) (a : Action) :
    (c.step thread a).registry.depth t =
      if thread = t then a.deepens (c.registry.depth t) else c.registry.depth t := by
  have hsame : ∀ c' : Container, c'.registry.frames = c.registry.frames →
      c'.registry.depth t = if thread = t then c.registry.depth t else c.registry.depth t := by
    intro c' hframes
    unfold Registry.depth
    rw [hframes, ite_self]
  cases a with
  | ask k r => exact hsame _ (congrArg Registry.frames (registry_withStore c k _))
  | flush => exact hsame _ (congrArg Registry.frames (registry_flush c thread))
  | clearFrozen g => exact hsame _ (congrArg Registry.frames (registry_clearFrozen c g))
  | push =>
    refine (c.registry.depth_push thread t).trans ?_
    split
    · next ht => rw [← ht]; rfl
    · rfl
  | pop =>
    change (c.pop thread).2.registry.depth t = _
    obtain ⟨hd, heq⟩ | ⟨d, frames, hd, hpop, -, hregistry, -⟩ := pop_frames c thread
    · rw [heq]
      split
      · next ht =>
        subst ht
        rw [hd]
        rfl
      · rfl
    · rw [hregistry, (c.registry.depth_pop thread t hpop).2]
      split
      · next ht =>
        subst ht
        rw [hd]
        rfl
      · rfl
  | register g => exact hsame _ (frames_register c.registry g)
  | unregister g => exact hsame _ rfl
  | load l snapshot => exact hsame _ (frames_load h l thread snapshot)
  | reload l snapshot =>
    refine hsame (l.reload thread snapshot c).2 ?_
    rw [reload_eq h, frames_load (h.clearKind l.kind l.group)]
    exact congrArg Registry.frames (registry_withStore c l.kind _)
  | unload l =>
    refine hsame (l.unload thread c).2 ?_
    obtain ⟨heq, -⟩ | ⟨report, c', -, heq, hturns⟩ := unload_cases h l thread
    · rw [heq]
    · rw [heq, ← hturns.registry_eq]
      rfl

theorem scope_of_frames (hmode : c.registry.mode = .threadAndFrame) (thread : Nat) :
    (c.caller thread).scope = ⟨thread, c.registry.depth thread⟩ := by
  change c.registry.scope thread = _
  unfold Registry.scope
  rw [hmode]

/-! ## No value in a frame that nobody is in -/

/-- No value stands in a frame deeper than its thread is. -/
def Framed (c : Container) : Prop :=
  ∀ k p t f, c.registry.depth t < f → c.inScope? k p ⟨t, f⟩ = none

theorem Framed.ofConfig (config : Config) : (ofConfig config).Framed := by
  intro k p t f _
  cases k <;> exact Store.inScope?_empty p ⟨t, f⟩

theorem Framed.step (hs : c.Sound) (hmode : c.registry.mode = .threadAndFrame) (h : c.Framed)
    (thread : Nat) (a : Action) : (c.step thread a).Framed := by
  intro k p t f hf
  rw [depth_step hs] at hf
  by_cases hkey : (⟨t, f⟩ : ScopeKey) = (c.caller thread).scope
  · -- the scope of the thread is left behind by a pop only, and is empty then
    rw [scope_of_frames hmode, ScopeKey.mk.injEq] at hkey
    obtain ⟨rfl, rfl⟩ := hkey
    rw [if_pos rfl] at hf
    cases a with
    | pop =>
      obtain ⟨hd, -⟩ | ⟨d, frames, -, -, -, -, hstore⟩ := pop_frames c t
      · rw [hd] at hf
        exact absurd hf (Nat.lt_irrefl 0)
      · refine (inScope?_congr (hstore k)).trans ?_
        rw [if_pos hmode, inScope?_flush hs, if_pos (scope_of_frames hmode t).symm]
    | push => exact absurd hf (by simp [Action.deepens])
    | _ => exact absurd hf (Nat.lt_irrefl _)
  · rw [inScope?_step hs a hkey]
    refine h k p t f ?_
    split at hf
    · next ht =>
      subst ht
      rw [scope_of_frames hmode, ScopeKey.mk.injEq] at hkey
      cases a with
      | pop =>
        simp only [Action.deepens] at hf
        omega
      | push => exact Nat.lt_of_succ_lt hf
      | _ => exact hf
    · exact hf

theorem mode_run (h : c.Sound) (acts : List (Nat × Action)) :
    (c.run acts).registry.mode = c.registry.mode := by
  induction acts generalizing c with
  | nil => rfl
  | cons a acts ih => exact (ih (h.step a.1 a.2)).trans (mode_step h a.1 a.2)

theorem Framed.run (hs : c.Sound) (hmode : c.registry.mode = .threadAndFrame) (h : c.Framed)
    (acts : List (Nat × Action)) : (c.run acts).Framed := by
  induction acts generalizing c with
  | nil => exact h
  | cons a acts ih =>
    exact ih (hs.step a.1 a.2) ((mode_step hs a.1 a.2).trans hmode) (h.step hs hmode a.1 a.2)

theorem Reachable.framed (hc : c.Reachable) (hmode : c.registry.mode = .threadAndFrame) :
    c.Framed := by
  obtain ⟨config, acts, rfl⟩ := hc
  have hs := Sound.ofConfig config
  exact (Framed.ofConfig config).run hs ((mode_run hs acts).symm.trans hmode) acts

/-! ## The frames around a call -/

/-- As long as a thread is deeper than `d`, its values in the frames up to
`d` stay, whatever it and others do. -/
theorem inScope?_run (hs : c.Sound) (hmode : c.registry.mode = .threadAndFrame) {d f : Nat}
    (hf : f ≤ d) {acts : List (Nat × Action)}
    (hdeep : ∀ earlier a later, acts = earlier ++ a :: later →
      d < (c.run earlier).registry.depth t) :
    (c.run acts).inScope? k p ⟨t, f⟩ = c.inScope? k p ⟨t, f⟩ := by
  induction acts generalizing c with
  | nil => rfl
  | cons a acts ih =>
    have hkey : (⟨t, f⟩ : ScopeKey) ≠ (c.caller a.1).scope := by
      rw [scope_of_frames hmode, ne_eq, ScopeKey.mk.injEq]
      rintro ⟨rfl, rfl⟩
      exact absurd (hdeep [] a acts rfl) (Nat.not_lt.2 hf)
    refine (ih (hs.step a.1 a.2) ((mode_step hs a.1 a.2).trans hmode)
      fun earlier b later hacts => ?_).trans (inScope?_step hs a.2 hkey)
    exact hdeep (a :: earlier) b later (by rw [hacts]; rfl)

/-- Where scopes are frames: no value stands in a frame deeper than its
thread is, so a frame that is entered is empty. And when a thread enters a
frame, is not back before its last action and leaves the frame then, its
values in all frames around this one are what they were, whatever it did
inside and others did meanwhile. -/
theorem frames_kept (hc : c.Reachable) (hmode : c.registry.mode = .threadAndFrame) :
    (∀ k p t f, c.registry.depth t < f → c.inScope? k p ⟨t, f⟩ = none)
      ∧ (∀ t k p, (c.step t .push).inScope? k p ((c.step t .push).caller t).scope = none)
      ∧ ∀ t body, (∀ earlier later, body = earlier ++ later →
            c.registry.depth t < (c.run ((t, .push) :: earlier)).registry.depth t) →
          ∀ k p f, f ≤ c.registry.depth t →
            (c.run ((t, .push) :: body ++ [(t, .pop)])).inScope? k p ⟨t, f⟩
              = c.inScope? k p ⟨t, f⟩ := by
  have hs : c.Sound := hc.sound
  have hframed : c.Framed := hc.framed hmode
  have hpush : ∀ t k p key, (c.step t .push).inScope? k p key = c.inScope? k p key :=
    fun t k p key => inScope?_congr (store_push c t k)
  refine ⟨hframed, fun t k p => ?_, fun t body hbody k p f hf => ?_⟩
  · rw [scope_of_frames ((mode_step hs t .push).trans hmode), hpush, depth_step hs, if_pos rfl]
    exact hframed k p t _ (Nat.lt_succ_self _)
  · refine (inScope?_run (hs.step t .push) ((mode_step hs t .push).trans hmode) hf ?_).trans
      (hpush t k p ⟨t, f⟩)
    intro earlier a later hacts
    have hbefore : body = earlier ++ (a :: later).dropLast := by
      simpa using congrArg List.dropLast hacts
    exact hbody earlier _ hbefore

/-- A thread in a frame where it has set a value. -/
def inCall : Container :=
  (ofConfig {}).run
    [(0, .push), (0, .ask .var (.set "depth" (.bare (.text "1")) {}))]

/-- A call that sets the same value in its own frame and in one further in,
while another thread sets it, too. -/
def calls : List (Nat × Action) :=
  [(0, .ask .var (.set "depth" (.bare (.text "2")) {})),
    (1, .ask .var (.set "depth" (.bare (.text "0")) {})),
    (0, .push),
    (0, .ask .var (.set "depth" (.bare (.text "3")) {})),
    (0, .pop),
    (1, .push)]

theorem frames_kept_nested : inCall.Reachable ∧ inCall.registry.mode = .threadAndFrame
    ∧ (∀ earlier later, calls = earlier ++ later →
        inCall.registry.depth 0 < (inCall.run ((0, .push) :: earlier)).registry.depth 0)
    ∧ ∃ p : Path, Store.readPath "depth" = .ok p
      ∧ (inCall.run ((0, .push) :: calls ++ [(0, .pop)])).inScope? .var p ⟨0, 1⟩
        = some (.plain .var (.text "1")) := by
  have hc : inCall.Reachable := ⟨{}, _, rfl⟩
  have hmode : inCall.registry.mode = .threadAndFrame := by decide +kernel
  have hdeep : ∀ n ≤ calls.length, inCall.registry.depth 0 <
      (inCall.run ((0, .push) :: calls.take n)).registry.depth 0 := by decide +kernel
  have hcalls : ∀ earlier later, calls = earlier ++ later →
      inCall.registry.depth 0 < (inCall.run ((0, .push) :: earlier)).registry.depth 0 := by
    intro earlier later h
    have htake := hdeep earlier.length (by simp [h])
    rwa [h, List.take_left] at htake
  have hvalue : (Store.readPath "depth").toOption.bind (inCall.inScope? .var · ⟨0, 1⟩)
      = some (.plain .var (.text "1")) := by decide +kernel
  obtain ⟨p, hp, hq⟩ := Option.bind_eq_some_iff.1 hvalue
  refine ⟨hc, hmode, hcalls, p, ?_, ?_⟩
  · cases hread : Store.readPath "depth" with
    | error e => simp [hread, Except.toOption] at hp
    | ok p' =>
      rw [hread] at hp
      exact congrArg Except.ok (Option.some.inj hp)
  · rw [(frames_kept hc hmode).2.2 0 calls hcalls .var p 1 (by decide +kernel)]
    exact hq

end Container

end ParamStore
