import ParamStore.Proofs.Container.Run

/-!
# Loaders that share a group

A group has one registration for the stores of all kinds. The load of a
loader makes it, and the unload of any loader of the group gives it up, so
the first one to unload may keep the others from taking their entries away.
An unload goes through iff the group may write or there is nothing to take
away (`unload_ok_iff`), and leaves nothing behind then (`untouched_gone`).
-/

namespace ParamStore

open Container (Action)

namespace Loader

variable {l : Loader} {thread count : Nat} {snapshot : Snapshot} {c c₁ c₂ : Container}

/-- An unload that went through has emptied the shared slot of every value
that it found untouched. -/
theorem untouched_gone (h : c.Sound) {report : Report} (hok : (l.unload thread c).1 = .ok report)
    {p : Path} (hp : l.Untouched c p) :
    ((l.unload thread c).2.at? l.kind p).bind Node.shared = none := by
  obtain ⟨n, hn, howner, huntouched⟩ := hp
  obtain ⟨-, hat, -⟩ := Container.unload_eq_ok h (Prod.ext hok rfl)
  rw [hat, hn, Option.bind_some, Node.unloadedFor_of_untouched howner huntouched]
  cases hk : n.stripped.kept with
  | none => rfl
  | some m =>
    obtain ⟨-, rfl⟩ := Node.kept_eq_some.1 hk
    rfl

theorem unload_ok_iff (h : c.Sound) (l : Loader) (thread : Nat) :
    (∃ report, (l.unload thread c).1 = .ok report) ↔
      c.registry.isAuthorized l.group = true ∨ ∀ p, ¬ l.Untouched c p := by
  constructor
  · rintro ⟨report, hok⟩
    obtain ⟨heq, -⟩ | ⟨report', c', -, heq, -⟩ := Container.unload_cases h l thread
    · rw [heq] at hok
      cases hok
    · by_contra hright
      obtain ⟨ha, hp⟩ := not_or.1 hright
      obtain ⟨p, hp⟩ := not_forall_not.1 hp
      have herror := unload_error h thread (by simpa using ha) hp
      cases heq.symm.trans herror
  · intro hright
    obtain ⟨report, c', -, heq, -⟩ := unload_ok h thread hright
    exact ⟨report, by rw [heq]⟩

/-- After a load that went through the group may write, and as long as it may
and nobody has unregistered it and no loader of it has unloaded since, an
unload goes through. After any other actions it goes through iff the group
may write then or the loader has nothing to take away. And when it goes
through, none of what it found untouched is left. -/
theorem unload_after_load (hc : c.Reachable)
    (hload : l.load thread snapshot c = (.ok count, c₁)) (acts : List (Nat × Action))
    (unloader : Nat) :
    c₁.registry.isAuthorized l.group = true
      ∧ (∀ earlier later, acts = earlier ++ later →
          (c₁.run earlier).registry.isAuthorized l.group = true →
          (∀ a ∈ later, ¬ a.2.Resigns l.group) →
          ∃ report, (l.unload unloader (c₁.run acts)).1 = .ok report)
      ∧ ((∃ report, (l.unload unloader (c₁.run acts)).1 = .ok report) ↔
          (c₁.run acts).registry.isAuthorized l.group = true
            ∨ ∀ p, ¬ l.Untouched (c₁.run acts) p)
      ∧ ((∃ report, (l.unload unloader (c₁.run acts)).1 = .ok report) →
          ∀ p, l.Untouched (c₁.run acts) p →
            ((l.unload unloader (c₁.run acts)).2.at? l.kind p).bind Node.shared = none) := by
  have h₁ : c₁.Sound := by
    have h := hc.sound.load l thread snapshot
    rwa [hload] at h
  have h₂ : (c₁.run acts).Sound := h₁.run acts
  have hok := unload_ok_iff h₂ l unloader
  refine ⟨?_, fun earlier later hacts hgranted hlater => hok.2 (.inl ?_), hok,
    fun ⟨report, hreport⟩ p hp => untouched_gone h₂ hreport hp⟩
  · obtain ⟨ws, hstanding⟩ := load_ok hc.sound hload
    rw [hstanding.registry_eq]
    exact Registry.isAuthorized_register _ _
  · rw [hacts, Container.run_append]
    exact Container.isAuthorized_run (h₁.run earlier) hlater hgranted

/-- The loaders of an add-on that keeps values of two kinds. -/
def menuEnv : Loader := ⟨"addon.menu", .env⟩

def menuVar : Loader := ⟨"addon.menu", .var⟩

def width : Snapshot := .ofList [("width", .text "80")]

/-- A container in which the first of the loaders has loaded. -/
def menuLoaded : Container := (menuEnv.load 0 width (.ofConfig {})).2

theorem unload_after_sibling_load :
    menuEnv.load 0 width (.ofConfig {}) = (.ok 1, menuLoaded)
      ∧ (∃ report, (menuEnv.unload 0 (menuLoaded.run [(0, .load menuVar width)])).1 = .ok report)
      ∧ ∀ p, menuEnv.Untouched (menuLoaded.run [(0, .load menuVar width)]) p →
          ((menuEnv.unload 0 (menuLoaded.run [(0, .load menuVar width)])).2.at? .env p).bind
            Node.shared = none := by
  have hload : menuEnv.load 0 width (.ofConfig {}) = (.ok 1, menuLoaded) :=
    Prod.ext (by decide +kernel) rfl
  obtain ⟨hgranted, hok, -, hgone⟩ :=
    unload_after_load ⟨{}, [], rfl⟩ hload [(0, .load menuVar width)] 0
  have hreport := hok [] _ rfl hgranted fun a ha => by
    obtain rfl := List.mem_singleton.1 ha
    exact id
  exact ⟨hload, hreport, hgone hreport⟩

/-- A loader that has loaded and not unloaded may be kept from unloading
although nobody has unregistered its group. -/
theorem unload_blocks_sibling : ¬ ∀ (l : Loader) (snapshot : Snapshot) (c c₁ : Container)
    (acts : List (Nat × Action)) thread unloader count,
    c.Reachable → l.load thread snapshot c = (.ok count, c₁) →
    (∀ a ∈ acts, a.2 ≠ .unregister l.group ∧ a.2 ≠ .unload l) →
    ∃ report, (l.unload unloader (c₁.run acts)).1 = .ok report := by
  intro hall
  have hload : menuEnv.load 0 width (.ofConfig {}) = (.ok 1, menuLoaded) :=
    Prod.ext (by decide +kernel) rfl
  have hrefused : (menuEnv.unload 0
      (menuLoaded.run [(0, .load menuVar width), (0, .unload menuVar)])).1.toOption = none := by
    decide +kernel
  obtain ⟨report, hok⟩ := hall menuEnv width (.ofConfig {}) menuLoaded
    [(0, .load menuVar width), (0, .unload menuVar)] 0 0 1 ⟨{}, [], rfl⟩ hload fun a ha => by
      rcases List.mem_cons.1 ha with rfl | ha
      · exact ⟨nofun, nofun⟩
      · obtain rfl := List.mem_singleton.1 ha
        exact ⟨nofun, nofun⟩
  rw [hok] at hrefused
  cases hrefused

end Loader

end ParamStore
