import ParamStore.Proofs.Container.Run
import ParamStore.Proofs.Store.Sweep
import Mathlib.Algebra.GroupWithZero.Nat

/-!
# Flushing and clearing in every store

A flush of a container flushes the stores one after the other, and clearing
clears them so. Neither looks at one store while it works on another, so each
store is flushed or cleared as it was found, and the reply is the sum of what
the stores reply (`flushKinds_eq`, `clearKinds_eq`).
-/

namespace ParamStore

namespace Container

open Store (Request Flushes Clears)

variable {c : Container} {thread : Nat} {g : Group}

/-! ## One store after the other -/

section Walk

variable {c' : Container} {F : Store → Store} {k₀ : Kind} {ks : List Kind}

/-- Work on one store leaves the others as they were found. -/
theorem map_store_tail {α : Type} (hk₀ : k₀ ∉ ks)
    (hone : ∀ k, c'.store k = if k₀ = k then F (c.store k₀) else c.store k) (f : Store → α) :
    ks.map (fun k => f (c'.store k)) = ks.map fun k => f (c.store k) := by
  refine List.map_congr_left fun k hk => ?_
  have hne : k₀ ≠ k := fun heq => hk₀ (heq ▸ hk)
  rw [hone, if_neg hne]

theorem store_cons {c'' : Container} (hk₀ : k₀ ∉ ks)
    (hone : ∀ k, c'.store k = if k₀ = k then F (c.store k₀) else c.store k)
    (hrest : ∀ k, c''.store k = if k ∈ ks then F (c'.store k) else c'.store k) (k : Kind) :
    c''.store k = if k ∈ k₀ :: ks then F (c.store k) else c.store k := by
  rw [hrest, hone]
  by_cases hk : k₀ = k
  · subst hk
    simp [hk₀]
  · simp [hk, Ne.symm hk]

end Walk

theorem flushKinds_eq (c : Container) {ks : List Kind} (hks : ks.Nodup) :
    (flushKinds thread ks c).1
        = (ks.map fun k => ((c.store k).flush (c.caller thread).scope).1).sum
      ∧ ∀ k, (flushKinds thread ks c).2.store k
        = if k ∈ ks then ((c.store k).flush (c.caller thread).scope).2 else c.store k := by
  induction ks generalizing c with
  | nil => exact ⟨rfl, fun k => rfl⟩
  | cons k₀ ks ih =>
    obtain ⟨hk₀, hks⟩ := List.nodup_cons.1 hks
    have hcaller : (c.flushKind thread k₀).2.caller thread = c.caller thread :=
      congrArg (fun r => Registry.caller r thread) (registry_withStore c k₀ _)
    have hone : ∀ k, (c.flushKind thread k₀).2.store k =
        if k₀ = k then ((c.store k₀).flush (c.caller thread).scope).2 else c.store k :=
      fun k => store_withStore c k₀ k _
    -- the other stores are flushed as they were found, and for the same scope
    obtain ⟨hcount, hrest⟩ := ih (c.flushKind thread k₀).2 hks
    rw [hcaller] at hcount hrest
    constructor
    · show ((c.store k₀).flush (c.caller thread).scope).1
        + (flushKinds thread ks (c.flushKind thread k₀).2).1 = _
      rw [hcount, List.map_cons, List.sum_cons,
        map_store_tail (F := fun s => (s.flush (c.caller thread).scope).2) hk₀ hone
          fun s => (s.flush (c.caller thread).scope).1]
    · exact store_cons (F := fun s => (s.flush (c.caller thread).scope).2) hk₀ hone hrest

theorem clearKinds_eq (h : c.Sound) {ks : List Kind} (hks : ks.Nodup) :
    (clearKinds g ks c).1 = .ok (ks.map fun k => (c.store k).countFrozen g).sum
      ∧ ∀ k, (clearKinds g ks c).2.store k
        = if k ∈ ks then ((c.store k).clearFrozen g).2 else c.store k := by
  induction ks generalizing c with
  | nil => exact ⟨rfl, fun k => rfl⟩
  | cons k₀ ks ih =>
    obtain ⟨hk₀, hks⟩ := List.nodup_cons.1 hks
    have hreply : c.clearKind k₀ g = (.ok ((c.store k₀).countFrozen g), (c.clearKind k₀ g).2) :=
      Prod.ext ((h k₀).toConsistent.fst_clearFrozen g) rfl
    have hone : ∀ k, (c.clearKind k₀ g).2.store k =
        if k₀ = k then ((c.store k₀).clearFrozen g).2 else c.store k :=
      fun k => store_withStore c k₀ k _
    obtain ⟨hcount, hrest⟩ := ih (h.clearKind k₀ g) hks
    unfold clearKinds
    rw [hreply]
    dsimp only
    constructor
    · rw [hcount, map_store_tail (F := fun s => (s.clearFrozen g).2) hk₀ hone
        fun s => s.countFrozen g]
      rfl
    · exact store_cons (F := fun s => (s.clearFrozen g).2) hk₀ hone hrest

/-! ## In every store -/

theorem store_flush (c : Container) (thread : Nat) (k : Kind) :
    (c.flush thread).2.store k = ((c.store k).flush (c.caller thread).scope).2 := by
  rw [flush, (flushKinds_eq c (by decide)).2, if_pos (Kind.mem_all k)]

theorem store_clearFrozen (h : c.Sound) (g : Group) (k : Kind) :
    (c.clearFrozen g).2.store k = ((c.store k).clearFrozen g).2 := by
  rw [clearFrozen, (clearKinds_eq h (by decide)).2, if_pos (Kind.mem_all k)]

theorem fst_flush (h : c.Sound) (thread : Nat) :
    (c.flush thread).1 =
      (Kind.all.map fun k => (c.store k).countHeld (c.caller thread).scope).sum := by
  refine (flushKinds_eq c (by decide)).1.trans ?_
  exact congrArg List.sum (List.map_congr_left fun k _ => (h k).toConsistent.fst_flush _)

theorem fst_clearFrozen (h : c.Sound) (g : Group) :
    (c.clearFrozen g).1 = .ok (Kind.all.map fun k => (c.store k).countFrozen g).sum :=
  (clearKinds_eq h (by decide)).1

/-- A second clearing finds no freeze in any store. -/
theorem clearFrozen_again (h : c.Sound) (g : Group) :
    (c.clearFrozen g).2.clearFrozen g = (.ok 0, (c.clearFrozen g).2) := by
  have hc := h.clearFrozen g
  have hcount : ∀ k, ((c.clearFrozen g).2.store k).countFrozen g = 0 := fun k => by
    rw [store_clearFrozen h]
    exact Store.countFrozen_clearFrozen (h k).toConsistent g
  refine Prod.ext ((fst_clearFrozen hc g).trans ?_) (eq_of_stores ?_ fun k => ?_)
  · simp [hcount]
  · exact registry_clearFrozen _ g
  · rw [store_clearFrozen hc, Store.clearFrozen_of_unfrozen (hc k).toConsistent (hcount k)]

/-- A flush takes away the values of its caller's scope, however many there
are, and leaves everything else: in one store, and in all stores of a
container. -/
theorem flush_drops_scope :
    (∀ (kind : Kind) (calls : List (Caller × Request)) (caller : Caller),
      let s := Store.run kind .empty calls
      ∃ s', s.flush caller.scope = (s.countHeld caller.scope, s')
        ∧ Flushes caller.scope s s')
    ∧ ∀ (config : Config) (acts : List (Nat × Action)) (thread : Nat),
      let c := (ofConfig config).run acts
      let key := (c.caller thread).scope
      ∃ c', c.flush thread = ((Kind.all.map fun k => (c.store k).countHeld key).sum, c')
        ∧ c'.registry = c.registry
        ∧ ∀ k, Flushes key (c.store k) (c'.store k) := by
  constructor
  · intro kind calls caller s
    have h : s.Consistent := (Store.consistent_run .empty kind calls).1
    exact ⟨_, Prod.ext (h.fst_flush _) rfl, h.flushes _⟩
  · intro config acts thread c key
    have h : c.Sound := (Sound.ofConfig config).run acts
    refine ⟨_, Prod.ext (fst_flush h thread) rfl, registry_flush c thread, fun k => ?_⟩
    rw [store_flush]
    exact (h k).toConsistent.flushes key

/-- Clearing is never refused. It releases the freezes of the group, however
many there are, and leaves everything else: in one store, and in all stores of
a container. -/
theorem clearFrozen_releases (g : Group) :
    (∀ (kind : Kind) (calls : List (Caller × Request)),
      let s := Store.run kind .empty calls
      ∃ s', s.clearFrozen g = (.ok (s.countFrozen g), s') ∧ Clears g s s')
    ∧ ∀ (config : Config) (acts : List (Nat × Action)),
      let c := (ofConfig config).run acts
      ∃ c', c.clearFrozen g = (.ok (Kind.all.map fun k => (c.store k).countFrozen g).sum, c')
        ∧ c'.registry = c.registry
        ∧ (∀ k, Clears g (c.store k) (c'.store k))
        ∧ c'.clearFrozen g = (.ok 0, c') := by
  constructor
  · intro kind calls s
    have h : s.Consistent := (Store.consistent_run .empty kind calls).1
    exact ⟨_, Prod.ext (h.fst_clearFrozen g) rfl, h.clears g⟩
  · intro config acts c
    have h : c.Sound := (Sound.ofConfig config).run acts
    refine ⟨_, Prod.ext (fst_clearFrozen h g) rfl, registry_clearFrozen c g, fun k => ?_,
      clearFrozen_again h g⟩
    rw [store_clearFrozen h]
    exact (h k).toConsistent.clears g

/-- Of two frozen nodes the one that still has its value stays. -/
example :
    let addon : Caller := ⟨⟨0, 0⟩, "addon", fun _ => true⟩
    let frozen : SetOptions := { shared := true, freeze := true }
    let s := Store.run .var .empty
      [(addon, .set "dir" (.bare (.text "/")) frozen),
        (addon, .set "prompt" (.bare (.text "$")) frozen),
        (addon, .unset "dir" { shared := true })]
    (s.nodes.values.map fun n => n.path.tokens) = [["dir"], ["prompt"]]
      ∧ (s.clearFrozen "addon").1.toOption = some 2
      ∧ ((s.clearFrozen "addon").2.nodes.values.map fun n => n.path.tokens) = [["prompt"]] := by
  decide +kernel

end Container

end ParamStore
