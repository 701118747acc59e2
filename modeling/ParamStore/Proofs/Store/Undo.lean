import ParamStore.Proofs.Store.Contents
import ParamStore.Proofs.Store.InPlace

/-!
# Taking back what was set

A set that fills an empty slot can be taken back. At the node this is a law of
the two operations: the unset gives what was stored and leaves the node that
the set started from (`unsetNode_setNode`). For a node that the set took up
this is a fresh one, which the store lets go again; so the unset leaves what
there was at every path, and with it the very tables from before the set. What
remains is the identifier that a new node has used up, which no caller can see
(`unset_undoes_set`).
-/

namespace ParamStore

/-- There is no value in the slot, and for the shared slot nobody owns the
node either. -/
def Node.Vacant (n : Node) : Slot → Prop
  | .shared => n.shared = none ∧ n.owner = none
  | .scope key => n.inScope? key = none

namespace Store

variable {s s' s'' : Store} {kind : Kind} {caller taker : Caller} {text : String} {path : Path}
  {input : Input} {o : SetOptions} {u : UnsetOptions} {p stored : Parameter} {n n' : Node}

/-- There is no node at the path, or one in which the slot is vacant. -/
def Vacant (s : Store) (path : Path) (i : Slot) : Prop :=
  ∀ n, s.at? path = some n → n.Vacant i

theorem Vacant.getD {i : Slot} (h : s.Vacant path i) :
    ((s.at? path).getD (.fresh path)).Vacant i := by
  cases hat : s.at? path with
  | none =>
    cases i <;>
      simp [Node.Vacant, Node.inScope?, Node.fresh, EmptyCollection.emptyCollection]
  | some n => exact h n hat

/-- The unset takes back what the set stores: it asks for the same slot, by
force, and for the shared one under the same group, with the right to it. It
releases the freeze if the set made one. -/
structure Reverts (taker : Caller) (u : UnsetOptions) (caller : Caller) (o : SetOptions) :
    Prop where
  slot : Slot.of taker.scope u.shared = .of caller.scope o.shared
  force : u.force = true
  unfreeze : u.unfreeze = o.freeze
  group : o.shared = true → taker.actingGroup u.group = caller.actingGroup o.group
  right : o.shared = true → taker.authorized (caller.actingGroup o.group) = true

theorem Reverts.shared (h : Reverts taker u caller o) : u.shared = o.shared := by
  have hslot := h.slot
  cases hu : u.shared <;> cases ho : o.shared <;> simp [Slot.of, hu, ho] at hslot ⊢

/-! ## The node -/

theorem unsetsShared?_of_holds {key : ScopeKey} (h : (n.slot? (.of key u.shared)).isSome = true) :
    unsetsShared? n key u = some u.shared :=
  unsetsShared?_eq_some.2 ⟨.inl rfl, .inl h⟩

theorem unsetNode_setLocal (hv : n.Vacant (.scope caller.scope)) (hu : u.shared = false)
    (hscope : taker.scope = caller.scope) (hforce : u.force = true)
    (hset : n.setLocal caller.scope p = .ok (stored, n')) :
    unsetNode kind taker u n' = .ok (some stored, n) := by
  obtain ⟨-, rfl, rfl⟩ := Node.setLocal_eq_ok.1 hset
  have hstored : { n with locals := n.locals.insert caller.scope p.toScope }.inScope? caller.scope
      = some p.toScope := (Table.find?_insert _ _ _ _).trans (if_pos rfl)
  unfold unsetNode
  rw [unsetsShared?_of_holds (by rw [hu, hscope]; exact Option.isSome_of_eq_some hstored), hu,
    hscope]
  refine Node.unsetLocal_eq_ok.2 ⟨fun _ _ => .inl hforce, hstored.symm, ?_⟩
  rw [Table.erase_insert hv]

theorem unsetNode_setShared {g : Group} (ho : n.Owned) (hv : n.Vacant .shared)
    (hu : u.shared = true) (hforce : u.force = true) (hgroup : taker.actingGroup u.group = g)
    (hright : taker.authorized g = true)
    (hset : n.setShared p g u.unfreeze = .ok (stored, n')) :
    unsetNode kind taker u n' = .ok (some stored, n) := by
  obtain ⟨-, -, -, -, rfl, rfl⟩ := Node.setShared_eq_ok.1 hset
  obtain ⟨hshared, howner⟩ := hv
  have hpin : n.pin = none := by simpa [Node.Owned, hshared, howner] using ho
  unfold unsetNode
  rw [unsetsShared?_of_holds (by rw [hu]; rfl), hu, hgroup]
  dsimp only
  rw [Caller.authorize_eq_ok.2 hright]
  refine emptyShared_eq_ok.2 ⟨fun _ => rfl, _, Node.unsetShared_eq_ok.2
    ⟨fun _ _ => .inl hforce, rfl, rfl⟩, ?_⟩
  obtain ⟨path, shared, locals, owner, pin⟩ := n
  cases hshared
  cases howner
  cases hpin
  cases u.unfreeze <;> rfl

/-- Taking back what a set has stored in a vacant slot leaves the node as it was
before the set. -/
theorem unsetNode_setNode (ho : n.Owned) (hv : n.Vacant (.of caller.scope o.shared))
    (hu : Reverts taker u caller o) (hset : setNode kind caller o p n = .ok (stored, n')) :
    unsetNode kind taker u n' = .ok (some stored, n) := by
  obtain ⟨hs, -, hset⟩ | ⟨hs, hset⟩ := setNode_cases hset
  · rw [hs] at hv
    refine unsetNode_setShared (p := p) ho hv (hu.shared.trans hs) hu.force (hu.group hs)
      (hu.right hs) ?_
    rw [hu.unfreeze]
    exact hset
  · have hslot := hu.slot
    rw [hu.shared, hs] at hslot
    rw [hs] at hv
    exact unsetNode_setLocal hv (hu.shared.trans hs) (Slot.scope.inj hslot) hu.force hset

/-! ## The store -/

/-- A store keeps the node at a path, and lets go of one that it takes up
without anything in it. -/
theorem Consistent.kept_getD (h : s.Consistent) (path : Path) :
    ((s.at? path).getD (.fresh path)).kept = s.at? path := by
  cases hat : s.at? path with
  | none => rfl
  | some n => exact Node.kept_of_not_removable (h.at?_kept hat)

section Undo

variable (h : s.Consistent) (hset : s.set kind caller text input o = (.ok stored, s'))
  (hpath : readPath text = .ok path) (hv : s.Vacant path (.of caller.scope o.shared))
  (hu : Reverts taker u caller o) {text' : String} (htext' : readPath text' = .ok path)

include h hset hpath hv hu htext'

/-- The unset gives what was stored and brings every node back. -/
theorem unset_set : (s'.unset kind taker text' u).1 = .ok (some stored)
    ∧ s'.Yields (s'.unset kind taker text' u).2 s.at? := by
  obtain ⟨p, path', n', -, hfreeze, hpath', hnode, hy⟩ := set_eq_ok h hset
  cases hpath.symm.trans hpath'
  have hself : s'.at? path = some n' := by rw [hy.at?_eq, if_pos rfl]
  have hplan : s'.planUnset kind taker text' u = .ok (path, some stored,
      (s.at? path).getD (.fresh path)) := by
    refine (planUnset_eq_ok hy.consistent.toTraced).2 ⟨fun hf => ?_, htext', n', hself,
      unsetNode_setNode (h.owned_getD path) hv.getD hu hnode⟩
    rw [hu.shared]
    exact hfreeze (hu.unfreeze ▸ hf)
  obtain ⟨hok, hy'⟩ := unset_of_plan_ok hy.consistent hplan
  refine ⟨hok, hy'.consistent, hy'.precedes, fun q => ?_⟩
  rw [hy'.at?_eq, h.kept_getD, hy.at?_eq]
  split
  · next hq => rw [hq]
  · rfl

/-- No identifier is left that the set has given out. -/
theorem old_unset_set (id : NodeId) (m : Node)
    (hm : (s'.unset kind taker text' u).2.nodes.find? id = some m) : id < s.nextId := by
  obtain ⟨-, hy⟩ := unset_set h hset hpath hv hu htext'
  have hlt : id < s'.nextId := by
    have hfresh := hy.consistent.fresh id m hm
    rwa [nextId_unset] at hfresh
  have hnext := nextId_set hpath hset
  cases hat : s.at? path with
  | some n =>
    rw [hat, Option.isSome_some, if_pos rfl] at hnext
    exact hnext ▸ hlt
  | none =>
    rw [hat, if_neg (by simp)] at hnext
    rw [hnext] at hlt
    refine Nat.lt_of_le_of_ne (Nat.le_of_lt_succ hlt) fun hid => ?_
    subst hid
    -- the new node had this identifier, and there is none at its path any more
    obtain ⟨n, hn, hp⟩ := find?_nextId_set h hpath hset hat
    obtain ⟨l, hl, hlp⟩ := hy.precedes.same_path s.nextId m (hnext ▸ Nat.lt_succ_self _) hm
    cases hn.symm.trans hl
    have hback := hy.consistent.at?_eq_some.2 ⟨s.nextId, hm, hlp.symm.trans hp⟩
    rw [hy.at?_eq, hat] at hback
    cases hback

end Undo

theorem run_congr (h : s.Consistent) (h' : s'.Consistent) (hat : ∀ p, s.at? p = s'.at? p)
    (kind : Kind) (calls : List (Caller × Request)) (p : Path) :
    (run kind s calls).at? p = (run kind s' calls).at? p := by
  obtain ⟨as, hruns⟩ := exists_runs kind s calls
  obtain ⟨as', hruns'⟩ := exists_runs kind s' calls
  exact (hruns.congr h h' hat hruns').2 p

/-- An unset undoes a set that filled a vacant slot. It gives what was stored,
and the trie, the nodes and both indices are those from before the set. So
whatever is asked later is answered as if there had been neither. -/
theorem unset_undoes_set (calls : List (Caller × Request))
    (hset : (run kind .empty calls).set kind caller text input o = (.ok stored, s'))
    (hpath : readPath text = .ok path)
    (hv : (run kind .empty calls).Vacant path (.of caller.scope o.shared))
    (hu : Reverts taker u caller o) {text' : String} (htext' : readPath text' = .ok path) :
    ∃ s'', s'.unset kind taker text' u = (.ok (some stored), s'')
      ∧ s'' = { run kind .empty calls with nextId := s''.nextId }
      ∧ ∀ later asker r, ((run kind s'' later).serve kind asker r).1
        = ((run kind (run kind .empty calls) later).serve kind asker r).1 := by
  have h := (consistent_run .empty kind calls).1
  obtain ⟨hok, hy⟩ := unset_set h hset hpath hv hu htext'
  have hprecedes : (run kind .empty calls).Precedes s' := by
    obtain ⟨_, _, _, -, -, -, -, hyields⟩ := set_eq_ok h hset
    exact hyields.precedes
  refine ⟨_, Prod.ext hok rfl, h.eq_of_at? hy.consistent hy.at?_eq
    (hprecedes.trans hy.precedes) (old_unset_set h hset hpath hv hu htext'),
    fun later asker r => ?_⟩
  exact (serve_congr (consistent_run hy.consistent kind later).1 (consistent_run h kind later).1
    (run_congr hy.consistent h hy.at?_eq kind later) kind asker r).1

/-- A thread has a value that `prom` stands for. -/
def unprompted : Store := run .var .empty [sets 1 "prompter" "yes"]

/-- A group freezes a value at `prompt`. -/
def freezer : Caller := ⟨⟨2, 0⟩, "addon.theme", fun g => g == "addon.theme"⟩

/-- Another thread takes it away in the name of the group. -/
def thawer : Caller := ⟨⟨3, 1⟩, "", fun g => g == "addon.theme"⟩

def promptPath : Path :=
  ⟨["prompt"], by simp,
    isToken_of_readTokens (show readTokens "prompt" = .ok ["prompt"] by decide +kernel)⟩

/-- While there is a value at `prompt`, `prom` may stand for that as well. -/
theorem unset_undoes_set_frozen :
    ∃ s' stored s'', unprompted.set .var freezer "prompt" (.bare (.text "$"))
          { shared := true, freeze := true } = (.ok stored, s')
      ∧ (s'.get (guest 1) "prom" {}).toOption ≠ (unprompted.get (guest 1) "prom" {}).toOption
      ∧ s'.unset .var thawer " prompt. "
          { shared := true, force := true, unfreeze := true, group := some "addon.theme" }
        = (.ok (some stored), s'')
      ∧ s'' = { unprompted with nextId := s''.nextId }
      ∧ ∀ later asker r, ((run .var s'' later).serve .var asker r).1
        = ((run .var unprompted later).serve .var asker r).1 := by
  let stored : Parameter := (Parameter.plain .var (.text "$")).toShared.withPin
    (Parameter.plain .var (.text "$")).identity
  have hset : unprompted.set .var freezer "prompt" (.bare (.text "$"))
      { shared := true, freeze := true } = (.ok stored, _) := Prod.ext (by decide +kernel) rfl
  have hpath : readPath "prompt" = .ok promptPath := by decide +kernel
  have htext : readPath " prompt. " = .ok promptPath := by decide +kernel
  have hnone : unprompted.at? promptPath = none := by decide +kernel
  have hreverts : Reverts thawer
      { shared := true, force := true, unfreeze := true, group := some "addon.theme" } freezer
      { shared := true, freeze := true } :=
    ⟨rfl, rfl, rfl, fun _ => rfl, fun _ => by decide⟩
  obtain ⟨s'', hunset, hback, hsame⟩ := unset_undoes_set _ hset hpath
    (fun n hn => by cases hnone.symm.trans hn) hreverts htext
  exact ⟨_, stored, s'', hset, by decide +kernel, hunset, hback, hsame⟩

end Store

end ParamStore
