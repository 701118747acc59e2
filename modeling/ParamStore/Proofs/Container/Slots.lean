import ParamStore.Proofs.Container.Sweep

/-!
# The slots of a container

Which slots an operation on a container leaves as they are follows from what
its requests reach: a request reaches slots of its own store only
(`slot?_ask`), a flush empties the slots of its scope in every store
(`slot?_flush`), and clearing freezes leaves every value where it is
(`slot?_clearFrozen`). All other slots stay (`slot?_step`).
-/

namespace ParamStore

namespace Container

variable {c c' : Container} {k : Kind} {p : Path} {thread : Nat} {i : Slot}

/-- The value of kind `k` in a slot at a path. -/
def slot? (c : Container) (k : Kind) (p : Path) (i : Slot) : Option Parameter :=
  (c.store k).slot? p i

theorem slot?_congr (h : c'.store k = c.store k) : c'.slot? k p i = c.slot? k p i := by
  unfold slot?
  rw [h]

theorem Turns.slot?_eq {k' : Kind} {view : Path → Option Node} (h : Turns k' c c' view)
    (hview : ∀ q, ((view q).bind fun n => n.slot? i) = c.slot? k' q i) (k : Kind) (p : Path) :
    c'.slot? k p i = c.slot? k p i := by
  by_cases hk : k = k'
  · subst hk
    exact (congrArg (fun n? => n?.bind fun n => n.slot? i) (h.at?_eq p)).trans (hview p)
  · exact slot?_congr (h.store_eq k hk)

theorem slot?_ask (h : c.Sound) {k' : Kind} {r : Store.Request}
    (hi : k' = k → ¬ r.Reaches (c.caller thread) i) :
    (c.ask thread k' r).2.slot? k p i = c.slot? k p i := by
  unfold slot? ask
  rw [store_withStore]
  split
  · next hk =>
    subst hk
    exact Store.slot?_serve (h k').toConsistent (hi rfl) p
  · rfl

/-- Flushing empties the slots of the thread's scope. -/
theorem slot?_flush (h : c.Sound) :
    (c.flush thread).2.slot? k p i =
      if i = .scope (c.caller thread).scope then none else c.slot? k p i := by
  unfold slot?
  rw [store_flush, Store.slot?_flush (h k).toConsistent]

theorem slot?_clearKind (h : c.Sound) (k' : Kind) (g : Group) :
    (c.clearKind k' g).2.slot? k p i = c.slot? k p i := by
  unfold slot? clearKind
  rw [store_withStore]
  split
  · next hk =>
    subst hk
    exact Store.slot?_clearFrozen (h k').toConsistent g i p
  · rfl

theorem slot?_clearFrozen (h : c.Sound) (g : Group) :
    (c.clearFrozen g).2.slot? k p i = c.slot? k p i := by
  unfold slot?
  rw [store_clearFrozen h, Store.slot?_clearFrozen (h k).toConsistent]

/-! ## One action -/

/-- Whether an action of a caller may write to a slot of kind `k`. Loaders,
which write to many slots, are not told apart. -/
def Action.Reaches (caller : Caller) (k : Kind) (i : Slot) : Action → Prop
  | .ask k' r => k' = k ∧ r.Reaches caller i
  | .flush | .pop => i = .scope caller.scope
  | .load _ _ | .reload _ _ | .unload _ => True
  | _ => False

/-- Whatever a thread does, the slots that it does not reach stay. -/
theorem slot?_step (h : c.Sound) {a : Action} (hi : ¬ a.Reaches (c.caller thread) k i) :
    (c.step thread a).slot? k p i = c.slot? k p i := by
  cases a with
  | ask k' r => exact slot?_ask h fun hk hr => hi ⟨hk, hr⟩
  | flush => exact (slot?_flush h).trans (if_neg hi)
  | clearFrozen g => exact slot?_clearFrozen h g
  | push => exact slot?_congr (store_push c thread k)
  | pop =>
    obtain ⟨c₁, frames, rfl | rfl, hstore, -⟩ := pop_cases c thread
    · exact slot?_congr (hstore k)
    · exact (slot?_congr (hstore k)).trans ((slot?_flush h).trans (if_neg hi))
  | register g => exact slot?_congr (store_register c g k)
  | unregister g => exact slot?_congr (store_unregister c g k)
  | load | reload | unload => exact absurd trivial hi

end Container

end ParamStore
