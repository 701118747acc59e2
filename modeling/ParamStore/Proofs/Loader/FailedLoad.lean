import ParamStore.Proofs.Container.Run

/-!
# Loads that fail

A load that fails gives everything back but for one thing: a value that it
had replaced already when it failed comes back as a new write, and so is
pinned to its own identity. Where that value had been changed under an
earlier freeze, its pin was the one of the freeze, and the report of the
group named it as changed; after the failed load the report does not, and
the next unload takes the value away. A failed load cannot be noticed iff
none of the values that it replaced was such a one.
-/

namespace ParamStore

open Json (Value)

/-- Nothing that the stores, the loaders and the registry show tells the
containers apart. -/
structure Container.LooksLike (c c' : Container) : Prop where
  at?_eq : ∀ k p, c.at? k p = c'.at? k p
  groupPaths_eq : ∀ k g, (c.store k).groupPaths g = (c'.store k).groupPaths g
  scopePaths_eq : ∀ k key, (c.store k).scopePaths key = (c'.store k).scopePaths key
  pending_eq : ∀ (l : Loader) thread, l.pending thread c = l.pending thread c'
  isAuthorized_eq : ∀ g, c.registry.isAuthorized g = c'.registry.isAuthorized g

/-- Listings and reports follow from the nodes at the paths. -/
theorem Container.Sound.looksLike_iff {c c' : Container} (h : c.Sound) (h' : c'.Sound)
    (hr : c.registry = c'.registry) : c.LooksLike c' ↔ ∀ k p, c.at? k p = c'.at? k p := by
  refine ⟨LooksLike.at?_eq, fun hat => ⟨hat, fun k g => ?_, fun k key => ?_, fun l thread => ?_,
    fun g => by rw [hr]⟩⟩
  · exact (h k).groupPaths_congr (h' k).toConsistent (hat k) g
  · refine (h k).scopePaths_congr (h' k).toConsistent fun p => ?_
    exact congrArg (Option.bind · fun n => n.inScope? key) (hat k p)
  · exact Loader.pending_congr h h' (hat l.kind)

namespace Node

theorem withPin_identity_iff {q : Parameter} (hq : q.isShared = true) :
    q.withPin q.identity = q ↔ q.isPinned = true := by
  rw [Parameter.isPinned_iff]
  constructor
  · intro h
    rw [← h, Parameter.pin_withPin hq, Parameter.identity_withPin]
  · exact Parameter.withPin_of_pin

/-- Pinning a shared value anew changes nothing iff it was pinned to its own
identity. -/
theorem WellFormed.repinned_iff {k : Kind} {n : Node} (hn : n.WellFormed k) :
    n.repinned = n ↔ ∀ q, n.shared = some q → q.isPinned = true := by
  rw [repinned_eq_self]
  refine forall_congr' fun q => forall_congr' fun hq => ?_
  exact withPin_identity_iff (hn.shared_shape q hq).1

end Node

namespace Loader

variable {l : Loader} {thread : Nat} {snapshot : Snapshot} {c c' : Container} {e : StoreError}

/-- The load of the snapshot stores the entries `done` and is refused at the
next one. -/
def StopsAfter (l : Loader) (thread : Nat) (snapshot : Snapshot) (c : Container)
    (e : StoreError) (done : List (String × Value)) : Prop :=
  ∃ text v rest c₁, snapshot.entries = done ++ (text, v) :: rest
    ∧ l.loadEntries thread [] done (c.register l.group).2 = (.ok (), c₁)
    ∧ (l.loadEntry thread text v c₁).1 = .error e

/-- After a load that failed the registry is as it was, and so is every node
but for the pins of the values that the load had replaced. So the load can
be noticed iff one of these was not pinned to its own identity. -/
theorem failed_load (hc : c.Reachable) (hload : l.load thread snapshot c = (.error e, c')) :
    ∃ done, l.StopsAfter thread snapshot c e done
      ∧ c'.registry = c.registry
      ∧ (∀ k p, c'.at? k p =
          if k = l.kind ∧ p ∈ readPaths (done.map Prod.fst) then (c.at? k p).map Node.repinned
          else c.at? k p)
      ∧ (c'.LooksLike c ↔ ∀ p ∈ readPaths (done.map Prod.fst), ∀ n q,
          c.at? l.kind p = some n → n.shared = some q → q.isPinned = true) := by
  have h : c.Sound := hc.sound
  obtain ⟨done, text, v, rest, c₁, hes, hdone, hfail, hturns⟩ := load_error h hload
  have hat : ∀ k p, c'.at? k p =
      if k = l.kind ∧ p ∈ readPaths (done.map Prod.fst) then (c.at? k p).map Node.repinned
      else c.at? k p := by
    intro k p
    by_cases hk : k = l.kind
    · subst hk
      simp only [true_and]
      exact hturns.at?_eq p
    · rw [if_neg fun h => hk h.1]
      unfold Container.at?
      rw [hturns.store_eq k hk]
  refine ⟨done, ⟨text, v, rest, c₁, hes, hdone, hfail⟩, hturns.registry_eq, hat, ?_⟩
  rw [hturns.sound.looksLike_iff h hturns.registry_eq]
  constructor
  · intro heq p hp n q hn hq
    have hp' := heq l.kind p
    rw [hat, if_pos ⟨rfl, hp⟩, hn, Option.map_some] at hp'
    exact (h.wellFormed hn).repinned_iff.1 (Option.some.inj hp') q hq
  · intro hpinned k p
    rw [hat]
    split
    · next hk =>
      obtain ⟨rfl, hp⟩ := hk
      cases hn : c.at? l.kind p with
      | none => rfl
      | some n =>
        have hself : n.repinned = n := (h.wellFormed hn).repinned_iff.2 fun q hq =>
          hpinned p hp n q hn hq
        rw [Option.map_some, hself]
    · rfl

/-- The loader of an add-on's environment. -/
def promptEnv : Loader := ⟨"addon.prompt", .env⟩

/-- A container in which the value of an entry was changed after it had been
loaded, and then released. -/
def edited : Container :=
  (Container.ofConfig {}).run
    [(0, .load promptEnv (.ofList [("left", .text "> ")])),
      (0, .ask .env (.set "left" (.bare (.text "$ "))
        { shared := true, group := some "addon.prompt" })),
      (0, .clearFrozen "addon.prompt")]

/-- A snapshot whose second entry has no path. -/
def broken : Snapshot := .ofList [("left", .text "% "), ("left right", .text "% ")]

theorem failed_load_edited : ∃ e c', edited.Reachable
    ∧ promptEnv.load 0 broken edited = (.error e, c')
    ∧ ∃ done, promptEnv.StopsAfter 0 broken edited e done
      ∧ c'.registry = edited.registry
      ∧ (∀ k p, c'.at? k p =
          if k = .env ∧ p ∈ readPaths (done.map Prod.fst)
          then (edited.at? k p).map Node.repinned else edited.at? k p)
      ∧ (c'.LooksLike edited ↔ ∀ p ∈ readPaths (done.map Prod.fst), ∀ n q,
          edited.at? .env p = some n → n.shared = some q → q.isPinned = true) := by
  have hc : edited.Reachable := ⟨{}, _, rfl⟩
  have hfails : (promptEnv.load 0 broken edited).1.toOption = none := by decide +kernel
  cases hload : promptEnv.load 0 broken edited with
  | mk answer c' =>
    cases answer with
    | ok count => simp [hload, Except.toOption] at hfails
    | error e => exact ⟨e, c', hc, rfl, failed_load hc hload⟩

/-- A failed load can be noticed: a value that was changed is not reported
any more. -/
theorem failed_load_forgets_edit : ¬ ∀ (l : Loader) thread snapshot (c c' : Container) e,
    c.Reachable → l.load thread snapshot c = (.error e, c') → c'.LooksLike c := by
  intro hall
  have hc : edited.Reachable := ⟨{}, _, rfl⟩
  have hfails : (promptEnv.load 0 broken edited).1.toOption = none := by decide +kernel
  have hreport : (promptEnv.pending 0 (promptEnv.load 0 broken edited).2).toOption ≠
      (promptEnv.pending 0 edited).toOption := by decide +kernel
  cases hload : promptEnv.load 0 broken edited with
  | mk answer c' =>
    cases answer with
    | ok count => simp [hload, Except.toOption] at hfails
    | error e =>
      rw [hload] at hreport
      exact hreport (by rw [(hall _ _ _ _ _ _ hc hload).pending_eq])

end Loader

end ParamStore
