import ParamStore.Proofs.Container.Slots
import ParamStore.Proofs.Loader.Calls

/-!
# Who may change a shared value

A shared value appears, is replaced or disappears by a set or an unset, and
by nothing else. Who sets or unsets does so as a group that may write at that
moment; who sets it, moreover, as the group that owns the node, if any does
(`warranted_of_call`). Whether the group has a right is judged by the registry
and the node that the call meets, and both may have changed since the last
one. So it is judged call by call, also within the work of a loader
(`warranted_run`).
-/

namespace ParamStore

namespace Store

variable {k : Kind} {caller : Caller} {n n' : Node}

/-- An unset leaves the shared value alone, or it takes it away for a group
that may write. -/
theorem shared_of_unsetNode {o : UnsetOptions} {removed : Option Parameter}
    (h : unsetNode k caller o n = .ok (removed, n')) :
    n'.shared = n.shared ∨ caller.authorized (caller.actingGroup o.group) = true
      ∧ removed = n.shared ∧ n'.shared = none := by
  obtain ⟨shared, -, hpermits, rfl, rfl⟩ := unsetNode_eq_ok.1 h
  cases shared with
  | false => exact .inl rfl
  | true => exact .inr ⟨hpermits.right rfl, rfl, rfl⟩

end Store

namespace Container

open Store (Request)

variable {c : Container} {k : Kind} {p : Path} {thread : Nat} {a : Action}

/-- The shared value at a path. -/
def shared? (c : Container) (k : Kind) (p : Path) : Option Parameter := c.slot? k p .shared

/-- The group that owns the node at a path. -/
def owner? (c : Container) (k : Kind) (p : Path) : Option Group := (c.at? k p).bind Node.owner

/-- The group as which a thread acts: the one named, or the default. -/
def actingGroup (c : Container) (named : Option Group) : Group :=
  named.getD c.registry.defaultGroup

/-- The right by which a call changes the shared value at a path. -/
inductive Warranted (c : Container) (thread : Nat) (k : Kind) (p : Path) : Action → Prop where
  /-- A value is stored for a group that may write and that owns the node, if
  any group does. It owns the node afterwards. -/
  | set {text : String} {input : Input} {o : SetOptions} {q : Parameter}
      (path : Store.readPath text = .ok p) (shared : o.shared = true)
      (authorized : c.registry.isAuthorized (c.actingGroup o.group) = true)
      (owned : ∀ g, c.owner? k p = some g → g = c.actingGroup o.group)
      (answer : (c.set thread k text input o).1 = .ok q)
      (stored : (c.set thread k text input o).2.shared? k p = some q)
      (owner : (c.set thread k text input o).2.owner? k p = some (c.actingGroup o.group)) :
      Warranted c thread k p (.ask k (.set text input o))
  /-- The value is taken away for a group that may write. -/
  | unset {text : String} {o : UnsetOptions}
      (path : Store.readPath text = .ok p)
      (authorized : c.registry.isAuthorized (c.actingGroup o.group) = true)
      (answer : (c.unset thread k text o).1 = .ok (c.shared? k p))
      (gone : (c.unset thread k text o).2.shared? k p = none) :
      Warranted c thread k p (.ask k (.unset text o))

/-! ## One call -/

theorem shared?_eq_bind (c : Container) (k : Kind) (p : Path) :
    c.shared? k p = (c.at? k p).bind Node.shared := rfl

theorem warranted_set (h : c.Sound) {text : String} {input : Input} {o : SetOptions}
    (hne : (c.set thread k text input o).2.shared? k p ≠ c.shared? k p) :
    c.Warranted thread k p (.ask k (.set text input o)) := by
  have ho : o.shared = true := by
    by_contra ho
    rw [Bool.not_eq_true] at ho
    have hreaches : ¬ Request.Reaches (c.caller thread) .shared (.set text input o) := by
      simp [Request.Reaches, ho, Slot.of]
    have hkept : (c.ask thread k (.set text input o)).2.slot? k p .shared
        = c.slot? k p .shared := slot?_ask h fun _ => hreaches
    exact hne hkept
  rcases h.turns_set thread k text input o with ⟨e, -, heq⟩ | ⟨p', q, n', hplan, hok, hturns⟩
  · rw [heq] at hne
    exact absurd rfl hne
  obtain ⟨_, -, -, hpath, hnode⟩ := Store.planSet_eq_ok.1 hplan
  have hat := hturns.at?_eq p
  by_cases hp : p' = p
  · subst hp
    rw [if_pos rfl] at hat
    obtain ⟨hauth, hset⟩ := (Store.setNode_shared ho).1 hnode
    obtain ⟨-, -, -, howner, hq, hn'⟩ := Node.setShared_eq_ok.1 hset
    refine .set hpath ho hauth (fun g hg => ?_) hok ?_ ?_
    · obtain ⟨n, hn, hg⟩ := Option.bind_eq_some_iff.1 hg
      refine howner g ?_
      rw [show (c.store k).at? p' = some n from hn]
      exact hg
    · rw [shared?_eq_bind, hat, hn', hq]
      rfl
    · rw [owner?, hat, hn']
      rfl
  · rw [if_neg hp] at hat
    exact absurd (by rw [shared?_eq_bind, hat, shared?_eq_bind]) hne

theorem warranted_unset (h : c.Sound) {text : String} {o : UnsetOptions}
    (hne : (c.unset thread k text o).2.shared? k p ≠ c.shared? k p) :
    c.Warranted thread k p (.ask k (.unset text o)) := by
  rcases h.turns_unset thread k text o with ⟨e, -, heq⟩ | ⟨p', removed, n', hplan, hok, hturns⟩
  · rw [heq] at hne
    exact absurd rfl hne
  obtain ⟨-, hpath, n, hn, hnode⟩ := (Store.planUnset_eq_ok (h k).toTraced).1 hplan
  have hat := hturns.at?_eq p
  by_cases hp : p' = p
  · subst hp
    have hbefore : c.shared? k p' = n.shared := by
      rw [shared?_eq_bind, show c.at? k p' = some n from hn, Option.bind_some]
    have hafter : (c.unset thread k text o).2.shared? k p' = n'.shared := by
      rw [shared?_eq_bind, hat, if_pos rfl]
      exact n'.slot?_kept .shared
    rcases Store.shared_of_unsetNode hnode with hsame | ⟨hauth, hremoved, hgone⟩
    · exact absurd (by rw [hafter, hsame, hbefore]) hne
    · exact .unset hpath hauth (by rw [hok, hremoved, hbefore]) (hafter.trans hgone)
  · rw [if_neg hp] at hat
    exact absurd (by rw [shared?_eq_bind, hat, shared?_eq_bind]) hne

/-- Only a set or an unset changes a shared value, and only by right. -/
theorem warranted_of_call (h : c.Sound) (ha : a.IsCall)
    (hne : (c.step thread a).shared? k p ≠ c.shared? k p) : c.Warranted thread k p a := by
  have hreaches : a.Reaches (c.caller thread) k .shared := by
    by_contra hr
    exact hne (slot?_step h hr)
  cases a with
  | ask k' r =>
    obtain ⟨rfl, hr⟩ := hreaches
    cases r with
    | set text input o => exact warranted_set h hne
    | unset text o => exact warranted_unset h hne
    | flush => cases hr
    | clearFrozen | get | has | dictionary | owner | isFrozen | groupPaths | scopePaths | hasScope
    | groupNames | paths | size => exact hr.elim
  | flush | pop => cases hreaches
  | clearFrozen | push | register | unregister => exact hreaches.elim
  | load | reload | unload => exact ha.elim

/-- Whoever does not unset it, and does not set it as the group that owns its
node, leaves a shared value as it is. -/
theorem shared?_kept (h : c.Sound) (ha : a.IsCall)
    (hunset : ∀ text o, a ≠ .ask k (.unset text o))
    (hset : ∀ text input o, a = .ask k (.set text input o) →
      ∃ g, c.owner? k p = some g ∧ g ≠ c.actingGroup o.group) :
    (c.step thread a).shared? k p = c.shared? k p := by
  by_contra hne
  cases warranted_of_call h ha hne with
  | set _ _ _ owned =>
    obtain ⟨g, howner, hother⟩ := hset _ _ _ rfl
    exact hother (owned g howner)
  | unset => exact hunset _ _ rfl

/-! ## Many calls -/

/-- In a run of calls, every change is made by right. -/
theorem warranted_run (h : c.Sound) {acts earlier later : List (Nat × Action)}
    (hcalls : ∀ a ∈ acts, a.2.IsCall) (hsplit : acts = earlier ++ (thread, a) :: later)
    (hne : (c.run (earlier ++ [(thread, a)])).shared? k p ≠ (c.run earlier).shared? k p) :
    (c.run earlier).Warranted thread k p a := by
  rw [run_append] at hne
  refine warranted_of_call (h.run earlier) (hcalls (thread, a) ?_) hne
  rw [hsplit]
  exact List.mem_append_right _ List.mem_cons_self

/-- A run that leaves another shared value than it found has a call that
changed it. -/
theorem exists_change {acts : List (Nat × Action)}
    (hne : (c.run acts).shared? k p ≠ c.shared? k p) :
    ∃ earlier thread a later, acts = earlier ++ (thread, a) :: later
      ∧ (c.run (earlier ++ [(thread, a)])).shared? k p ≠ (c.run earlier).shared? k p := by
  induction acts generalizing c with
  | nil => exact absurd rfl hne
  | cons act acts ih =>
    by_cases hfirst : (c.step act.1 act.2).shared? k p = c.shared? k p
    · rw [← hfirst] at hne
      obtain ⟨earlier, thread, a, later, hsplit, hchange⟩ := ih hne
      exact ⟨act :: earlier, thread, a, later, by rw [hsplit, List.cons_append], hchange⟩
    · exact ⟨[], act.1, act.2, acts, rfl, hfirst⟩

end Container

end ParamStore
