import ParamStore.Proofs.Store.Consistent
import ParamStore.Store.Write

/-!
# What setting and unsetting do

Both are taken apart into a decision and its effect. The decision
(`planSet`, `planUnset`) reads the node at one path and says what is
answered and which node is to stand there; it knows nothing of
identifiers, the trie or the indices. The effect is the same for all: the
store then has that node at that path, and every other node as before.

`set_of_plan_ok` and `unset_of_plan_ok` say so for a decision that goes
through, `set_of_plan_error` and `unset_of_plan_error` say that any other
leaves the store as it was.
-/

namespace ParamStore

theorem bind_eq_ok {ε α β : Type} {x : Except ε α} {f : α → Except ε β} {b : β} :
    (x >>= f) = .ok b ↔ ∃ a, x = .ok a ∧ f a = .ok b := by
  cases x <;> simp [bind, Except.bind]

theorem map_eq_ok {ε α β : Type} {x : Except ε α} {f : α → β} {b : β} :
    x.map f = .ok b ↔ ∃ a, x = .ok a ∧ f a = b := by
  cases x <;> simp [Except.map]

theorem map_eq_error {ε α β : Type} {x : Except ε α} {f : α → β} {e : ε} :
    x.map f = .error e ↔ x = .error e := by
  cases x <;> simp [Except.map]

theorem Caller.authorize_eq_ok {c : Caller} {k : Kind} {g : Group} :
    c.authorize k g = .ok () ↔ c.authorized g = true := by
  unfold Caller.authorize
  cases h : c.authorized g <;> simp

namespace Store

variable {s s' : Store} {kind : Kind} {caller : Caller} {text : String} {α : Type}

/-! ## Writing to a node -/

theorem writeNode_error {path : Path} {write : Node → Except StoreError (α × Node)}
    {e : StoreError} (hw : write ((s.at? path).getD (.fresh path)) = .error e) :
    s.writeNode path write = (.error e, s) := by
  unfold writeNode
  cases hn : s.node? path.tokens with
  | none =>
    simp only [at?, hn, Option.map_none, Option.getD_none] at hw
    simp [hw]
  | some r =>
    simp only [at?, hn, Option.map_some, Option.getD_some] at hw
    simp [hw]

/-- A step that puts `n'` in the place of a node, or nothing where a store
would not keep `n'`, and brings both indices in line with it. -/
theorem Consistent.settle (h : s.Consistent) {id : NodeId} {n n' : Node}
    (hn : s.nodes.find? id = some n) (hp : n'.path = n.path) (ho : n'.Owned)
    {sc : Index ScopeKey} {gr : Index Group} (hix : s.Relists id n' sc gr) :
    s.Yields (prune { s.update id n' with scopes := sc, groups := gr } id) fun q =>
      if n.path = q then n'.kept else s.at? q := by
  refine h.change (((h.toTraced.update hn hp).reindex sc gr).prune id) ho hp ?_
    (fun _ => ⟨n, hn⟩) (fun id' m hm => ?_) (fun id' => ?_) ?_
  · rw [nextId_prune]
    exact Nat.le_refl _
  · constructor
    · exact fun hmp => h.id_unique hn hm hmp.symm
    · rintro rfl
      cases hn.symm.trans hm
      rfl
  · rw [nodes_prune]
    simp only [update, Table.find?_insert]
    by_cases hid : id = id' <;> simp [hid]
  · simpa using hix

theorem Consistent.yields_update (h : s.Consistent) {id : NodeId} {n n' : Node}
    (hn : s.nodes.find? id = some n) (hp : n'.path = n.path) (ho : n'.Owned)
    (hr : n'.isRemovable = false) {sc : Index ScopeKey} {gr : Index Group}
    (hix : s.Relists id n' sc gr) :
    s.Yields { s.update id n' with scopes := sc, groups := gr } fun q =>
      if n.path = q then some n' else s.at? q := by
  have hy := h.settle hn hp ho hix
  have hfind : (s.update id n').nodes.find? id = some n' := by
    rw [update, Table.find?_insert, if_pos rfl]
  have hprune : prune { s.update id n' with scopes := sc, groups := gr } id =
      { s.update id n' with scopes := sc, groups := gr } := prune_of_kept hfind hr
  rwa [hprune, Node.kept_of_not_removable hr] at hy

theorem Traced.nodes_nextId (h : s.Traced) : s.nodes.find? s.nextId = none := by
  rw [Option.eq_none_iff_forall_ne_some]
  exact fun n hn => Nat.lt_irrefl _ (h.fresh _ n hn)

theorem Consistent.yields_attach (h : s.Consistent) {n' : Node}
    (hn : s.node? n'.path.tokens = none) (ho : n'.Owned) (hr : n'.isRemovable = false)
    {sc : Index ScopeKey} {gr : Index Group} (hix : s.Relists s.nextId n' sc gr) :
    s.Yields { s.attach n' with scopes := sc, groups := gr } fun q =>
      if n'.path = q then some n' else s.at? q := by
  have hkept := Node.kept_of_not_removable hr
  rw [← hkept]
  refine h.change ((h.toTraced.attach hn).reindex sc gr) ho rfl (Nat.le_succ _)
    (fun hlt => absurd hlt (Nat.lt_irrefl _)) (fun id' m hm => ?_) (fun id' => ?_) hix
  · -- neither is the new identifier in use nor the path taken
    constructor
    · intro hmp
      have hnode := h.node?_eq_some.2 ⟨hm, congrArg Path.tokens hmp⟩
      rw [hn] at hnode
      cases hnode
    · rintro rfl
      rw [h.nodes_nextId] at hm
      cases hm
  · simp only [attach, Table.find?_insert, hkept]

theorem Consistent.lists_fresh (h : s.Consistent) (path : Path) :
    s.Relists s.nextId (.fresh path) s.scopes s.groups where
  scopes := .refl fun key => by
    rw [h.scopes_iff]
    simp [h.nodes_nextId, Node.inScope?, Node.fresh, EmptyCollection.emptyCollection]
  groups := .refl fun g => by
    rw [h.groups_iff]
    simp [h.nodes_nextId, Node.fresh]
  scopes_filled := h.scopes_filled
  groups_filled := h.groups_filled

/-- A write that goes through changes the node at its path or takes a new
one up; `sc` and `gr` stand for what is made of the indices afterwards. -/
theorem writeNode_ok (h : s.Consistent) {path : Path}
    (write : Node → Except StoreError (α × Node)) {a : α} {n' : Node}
    (hw : write ((s.at? path).getD (.fresh path)) = .ok (a, n'))
    (hp : n'.path = path) (ho : n'.Owned) (hr : n'.isRemovable = false) :
    ∃ id s', s.writeNode path write = (.ok (id, a), s')
      ∧ s'.scopes = s.scopes ∧ s'.groups = s.groups
      ∧ s.Relists id ((s.at? path).getD (.fresh path)) s.scopes s.groups
      ∧ ∀ sc gr, s.Relists id n' sc gr →
        s.Yields { s' with scopes := sc, groups := gr } fun q =>
          if path = q then some n' else s.at? q := by
  unfold writeNode
  cases hn : s.node? path.tokens with
  | none =>
    have hat : s.at? path = none := by simp [at?, hn]
    rw [hat, Option.getD_none] at hw ⊢
    refine ⟨s.nextId, s.attach n', by simp [hw], rfl, rfl, h.lists_fresh path,
      fun sc gr hix => ?_⟩
    subst hp
    exact h.yields_attach hn ho hr hix
  | some r =>
    obtain ⟨id, n⟩ := r
    obtain ⟨hfind, hts⟩ := h.node?_eq_some.1 hn
    have hat : s.at? path = some n := by simp [at?, hn]
    have hnp : n.path = path := Path.eq_of_tokens hts
    rw [hat, Option.getD_some] at hw ⊢
    refine ⟨id, s.update id n', by simp [hw], rfl, rfl, h.lists hfind, fun sc gr hix => ?_⟩
    subst hnp
    exact h.yields_update hfind hp ho hr hix

theorem Consistent.path_getD (h : s.Consistent) (path : Path) :
    ((s.at? path).getD (.fresh path)).path = path := by
  cases hat : s.at? path with
  | none => rfl
  | some n => exact h.path_at? hat

theorem Consistent.owned_getD (h : s.Consistent) (path : Path) :
    ((s.at? path).getD (.fresh path)).Owned := by
  cases hat : s.at? path with
  | none => exact .fresh path
  | some n => exact h.at?_owned hat

theorem setLocal_error {key : ScopeKey} {path : Path} {p : Parameter} {e : StoreError}
    (hw : ((s.at? path).getD (.fresh path)).setLocal key p = .error e) :
    s.setLocal key path p = (.error e, s) := by
  unfold setLocal
  rw [writeNode_error hw]

theorem setLocal_ok (h : s.Consistent) {key : ScopeKey} {path : Path} {p stored : Parameter}
    {n' : Node} (hw : ((s.at? path).getD (.fresh path)).setLocal key p = .ok (stored, n')) :
    (s.setLocal key path p).1 = .ok stored ∧
      s.Yields (s.setLocal key path p).2 fun q => if path = q then some n' else s.at? q := by
  obtain ⟨-, -, hn'⟩ := Node.setLocal_eq_ok.1 hw
  have hscope : ∀ key', n'.inScope? key' = if key = key' then some p.toScope
      else ((s.at? path).getD (.fresh path)).inScope? key' := fun key' => by
    rw [hn']
    exact Table.find?_insert _ key key' _
  have hr : n'.isRemovable = false := by
    refine Bool.eq_false_iff.2 fun hr => ?_
    have hnone := (Node.isRemovable_iff.1 hr).2.1 key
    rw [hscope, if_pos rfl] at hnone
    cases hnone
  have hp : n'.path = path := by rw [hn']; exact h.path_getD path
  have ho : n'.Owned := by rw [hn']; exact h.owned_getD path
  obtain ⟨id, s₁, heq, hs₁, hg₁, hlists, hyields⟩ :=
    writeNode_ok h (·.setLocal key p) hw hp ho hr
  unfold setLocal
  rw [heq]
  refine ⟨rfl, ?_⟩
  simp only [hs₁]
  refine hyields (s.scopes.add key id) s₁.groups (hg₁ ▸
    ⟨hlists.scopes.add key fun key' => ?_, hlists.groups.congr fun g => ?_,
      h.scopes_filled.add key id, h.groups_filled⟩)
  · rw [hscope]
    by_cases hk : key = key' <;> simp [hk]
  · rw [hn']

theorem setShared_error {g : Group} {path : Path} {p : Parameter} {freeze : Bool}
    {e : StoreError} (hw : ((s.at? path).getD (.fresh path)).setShared p g freeze = .error e) :
    s.setShared g path p freeze = (.error e, s) := by
  unfold setShared
  rw [writeNode_error (map_eq_error.2 hw)]

theorem setShared_ok (h : s.Consistent) {g : Group} {path : Path} {p stored : Parameter}
    {freeze : Bool} {n' : Node}
    (hw : ((s.at? path).getD (.fresh path)).setShared p g freeze = .ok (stored, n')) :
    (s.setShared g path p freeze).1 = .ok stored ∧
      s.Yields (s.setShared g path p freeze).2 fun q => if path = q then some n' else s.at? q := by
  obtain ⟨-, -, -, howner, -, hn'⟩ := Node.setShared_eq_ok.1 hw
  have hr : n'.isRemovable = false := by simp [hn', Node.isRemovable]
  have hp : n'.path = path := by rw [hn']; exact h.path_getD path
  obtain ⟨id, s₁, heq, hs₁, hg₁, hlists, hyields⟩ :=
    writeNode_ok h (fun n => (n.setShared p g freeze).map fun r => ((r.1, n.owner), r.2))
      (map_eq_ok.2 ⟨_, hw, rfl⟩) hp (Node.Owned.setShared hw) hr
  -- a node of another owner refuses the write, so there is none to be dropped
  have hnone : ((s.at? path).getD (.fresh path)).owner.filter (· ≠ g) = none :=
    Option.filter_eq_none_iff.2 fun o ho => by simp [howner o ho]
  unfold setShared
  rw [heq]
  refine ⟨rfl, ?_⟩
  simp only [hg₁, hnone]
  refine hyields s₁.scopes (s.groups.add g id) (hs₁ ▸
    ⟨hlists.scopes.congr fun key => ?_, hlists.groups.add g fun g' => ?_,
      h.scopes_filled, h.groups_filled.add g id⟩)
  · rw [hn']
    rfl
  · -- before the write only `g` itself can have owned the node
    rw [hn']
    constructor
    · intro ho
      exact .inl (Option.some.inj ho)
    · rintro (rfl | ho)
      · rfl
      · exact congrArg some (howner g' ho).symm

/-! ## Setting -/

/-- What a set makes of the node that it writes to. -/
def setNode (kind : Kind) (caller : Caller) (o : SetOptions) (p : Parameter) (n : Node) :
    Except StoreError (Parameter × Node) :=
  if o.shared then
    match caller.authorize kind (caller.actingGroup o.group) with
    | .error e => .error e
    | .ok () => n.setShared p (caller.actingGroup o.group) o.freeze
  else n.setLocal caller.scope p

/-- The path that a set writes to, what it stores and the node that results. -/
def planSet (s : Store) (kind : Kind) (caller : Caller) (text : String) (input : Input)
    (o : SetOptions) : Except StoreError (Path × Parameter × Node) :=
  match kind.coerce input with
  | .error e => .error e
  | .ok p =>
    if !o.shared && o.freeze then .error .freezeInScope
    else match readPath text with
      | .error e => .error e
      | .ok path =>
        (setNode kind caller o p ((s.at? path).getD (.fresh path))).map fun r => (path, r)

theorem setNode_shared {o : SetOptions} {p stored : Parameter} {n n' : Node}
    (ho : o.shared = true) :
    setNode kind caller o p n = .ok (stored, n') ↔
      caller.authorized (caller.actingGroup o.group) = true
        ∧ n.setShared p (caller.actingGroup o.group) o.freeze = .ok (stored, n') := by
  unfold setNode
  rw [if_pos ho, ← Caller.authorize_eq_ok (k := kind)]
  cases caller.authorize kind (caller.actingGroup o.group) <;> simp

theorem setNode_scope {o : SetOptions} (ho : o.shared = false) (p : Parameter) (n : Node) :
    setNode kind caller o p n = n.setLocal caller.scope p := if_neg (by simp [ho])

/-- A set that goes through writes to the shared slot, for a group that may do
so, or to that of the caller's scope. -/
theorem setNode_cases {o : SetOptions} {p stored : Parameter} {n n' : Node}
    (h : setNode kind caller o p n = .ok (stored, n')) :
    (o.shared = true ∧ caller.authorized (caller.actingGroup o.group) = true
      ∧ n.setShared p (caller.actingGroup o.group) o.freeze = .ok (stored, n')) ∨
    (o.shared = false ∧ n.setLocal caller.scope p = .ok (stored, n')) := by
  cases ho : o.shared with
  | true => exact .inl ⟨rfl, (setNode_shared ho).1 h⟩
  | false =>
    rw [setNode_scope ho] at h
    exact .inr ⟨rfl, h⟩

theorem planSet_eq_ok {input : Input} {o : SetOptions} {path : Path} {stored : Parameter}
    {n' : Node} :
    s.planSet kind caller text input o = .ok (path, stored, n') ↔
      ∃ p, kind.coerce input = .ok p ∧ (o.freeze = true → o.shared = true)
        ∧ readPath text = .ok path
        ∧ setNode kind caller o p ((s.at? path).getD (.fresh path)) = .ok (stored, n') := by
  have hfreeze : (!o.shared && o.freeze) = true ↔ ¬ (o.freeze = true → o.shared = true) := by
    cases o.shared <;> cases o.freeze <;> simp
  unfold planSet
  cases kind.coerce input with
  | error e => simp
  | ok p =>
    by_cases hf : (!o.shared && o.freeze) = true
    · simp only [hf, if_true, reduceCtorEq, false_iff]
      rintro ⟨q, -, hq, -⟩
      exact hfreeze.1 hf hq
    · rw [hfreeze, Classical.not_not] at hf
      have hf' : (!o.shared && o.freeze) = false := by
        cases ho : o.freeze <;> simp_all
      cases readPath text with
      | error e => simp [hf']
      | ok q =>
        simp only [hf', Bool.false_eq_true, if_false, map_eq_ok, Except.ok.injEq,
          Prod.mk.injEq, exists_eq_left']
        constructor
        · rintro ⟨r, hm, rfl, rfl⟩
          exact ⟨hf, rfl, hm⟩
        · rintro ⟨-, rfl, hm⟩
          exact ⟨_, hm, rfl, rfl⟩

theorem set_of_plan_error {input : Input} {o : SetOptions} {e : StoreError}
    (hplan : s.planSet kind caller text input o = .error e) :
    s.set kind caller text input o = (.error e, s) := by
  unfold set
  unfold planSet at hplan
  cases hc : kind.coerce input with
  | error e' => simpa [hc] using hplan
  | ok p =>
    cases hf : !o.shared && o.freeze with
    | true => simpa [hc, hf] using hplan
    | false =>
      cases hr : readPath text with
      | error e' => simpa [hc, hf, hr] using hplan
      | ok path =>
        simp only [hc, hf, hr, Bool.false_eq_true, if_false, map_eq_error] at hplan ⊢
        unfold setNode at hplan
        cases hs : o.shared with
        | false =>
          simp only [hs, Bool.false_eq_true, if_false] at hplan ⊢
          exact setLocal_error hplan
        | true =>
          simp only [hs, if_true] at hplan ⊢
          cases ha : caller.authorize kind (caller.actingGroup o.group) with
          | error e' => simpa [ha] using hplan
          | ok u =>
            simp only [ha] at hplan ⊢
            exact setShared_error hplan

theorem set_of_plan_ok (h : s.Consistent) {input : Input} {o : SetOptions} {path : Path}
    {stored : Parameter} {n' : Node}
    (hplan : s.planSet kind caller text input o = .ok (path, stored, n')) :
    (s.set kind caller text input o).1 = .ok stored ∧
      s.Yields (s.set kind caller text input o).2 fun q =>
        if path = q then some n' else s.at? q := by
  obtain ⟨p, hc, hf, hr, hnode⟩ := planSet_eq_ok.1 hplan
  have hf' : (!o.shared && o.freeze) = false := by
    cases ho : o.freeze <;> simp_all
  unfold set
  simp only [hc, hf', hr, Bool.false_eq_true, if_false]
  unfold setNode at hnode
  cases hs : o.shared with
  | false =>
    simp only [hs, Bool.false_eq_true, if_false] at hnode ⊢
    exact setLocal_ok h hnode
  | true =>
    simp only [hs, if_true] at hnode ⊢
    cases ha : caller.authorize kind (caller.actingGroup o.group) with
    | error e' => simp [ha] at hnode
    | ok u =>
      simp only [ha] at hnode ⊢
      exact setShared_ok h hnode

/-! ## Locating -/

theorem locate_eq_ok {id : NodeId} {n : Node} :
    s.locate text = .ok (id, n) ↔
      ∃ p, readPath text = .ok p ∧ s.node? p.tokens = some (id, n) := by
  unfold locate node?
  cases hp : readPath text with
  | error e => simp [bind, Except.bind]
  | ok p =>
    simp only [bind, Except.bind, Trie.value_walk_exact, Except.ok.injEq, exists_eq_left']
    split
    · next found hfound => simp [hfound, pure, Except.pure]
    · next hnone => simp [hnone, throw, throwThe, MonadExceptOf.throw]

theorem Traced.locate (h : s.Traced) {id : NodeId} {n : Node}
    (hl : s.locate text = .ok (id, n)) :
    s.nodes.find? id = some n ∧ readPath text = .ok n.path ∧ s.at? n.path = some n := by
  obtain ⟨p, hp, hn⟩ := locate_eq_ok.1 hl
  obtain ⟨hfind, hts⟩ := h.node?_eq_some.1 hn
  obtain rfl := Path.eq_of_tokens hts
  exact ⟨hfind, hp, by simp [at?, hn]⟩

theorem locate_of_at? {p : Path} {n : Node} (hp : readPath text = .ok p)
    (hn : s.at? p = some n) : ∃ id, s.locate text = .ok (id, n) := by
  obtain ⟨r, hr, hrn⟩ := Option.map_eq_some_iff.1 hn
  refine ⟨r.1, locate_eq_ok.2 ⟨p, hp, ?_⟩⟩
  rw [hr, ← hrn]

/-- Where there is no node, it is told how far the keys of the trie go along with
the path. -/
theorem locate_of_none {p : Path} (hp : readPath text = .ok p) (hn : s.at? p = none) :
    s.locate text = .error (.unknownPath (stoppedAt p.tokens (s.trie.walk true p.tokens))
      (s.trie.walk true p.tokens).matched) := by
  have hnode : s.node? p.tokens = none := Option.map_eq_none_iff.1 hn
  unfold node? at hnode
  unfold locate
  simp only [hp, bind, Except.bind, Trie.value_walk_exact, hnode]
  rfl

/-! ## Unsetting -/

/-- What an unset of the shared slot takes away and leaves. -/
def emptyShared (g : Group) (force unfreeze : Bool) (n : Node) :
    Except StoreError (Option Parameter × Node) :=
  if unfreeze && n.owner != some g then .error (.wrongGroup n.path g n.owner)
  else match n.unsetShared force with
    | .error e => .error e
    | .ok (removed, emptied) => .ok (removed, if unfreeze then emptied.released else emptied)

/-- What an unset takes away from the node that it finds, and the node that
results. -/
def unsetNode (kind : Kind) (caller : Caller) (o : UnsetOptions) (n : Node) :
    Except StoreError (Option Parameter × Node) :=
  match unsetsShared? n caller.scope o with
  | none => .error (.unknownPath (n.path.tokens.getLastD "") n.path.tokens)
  | some false => n.unsetLocal caller.scope o.force
  | some true =>
    match caller.authorize kind (caller.actingGroup o.group) with
    | .error e => .error e
    | .ok () => emptyShared (caller.actingGroup o.group) o.force o.unfreeze n

/-- The path at which an unset takes something away, what that is and the
node that results. -/
def planUnset (s : Store) (kind : Kind) (caller : Caller) (text : String) (o : UnsetOptions) :
    Except StoreError (Path × Option Parameter × Node) :=
  if !o.shared && o.unfreeze then .error .unfreezeInScope
  else match s.locate text with
    | .error e => .error e
    | .ok (_, n) => (unsetNode kind caller o n).map fun r => (n.path, r)

/-- A plan depends on the node that is located, and not on its identifier. -/
theorem planUnset_eq (s : Store) (kind : Kind) (caller : Caller) (text : String)
    (o : UnsetOptions) :
    s.planUnset kind caller text o =
      if !o.shared && o.unfreeze then .error .unfreezeInScope
      else ((s.locate text).map Prod.snd).bind fun n =>
        (unsetNode kind caller o n).map fun r => (n.path, r) := by
  unfold planUnset
  split
  · rfl
  · cases s.locate text <;> rfl

theorem emptyShared_eq_ok {g : Group} {force unfreeze : Bool} {n n' : Node}
    {removed : Option Parameter} :
    emptyShared g force unfreeze n = .ok (removed, n') ↔
      (unfreeze = true → n.owner = some g)
        ∧ ∃ emptied, n.unsetShared force = .ok (removed, emptied)
          ∧ n' = if unfreeze then emptied.released else emptied := by
  have howner : (unfreeze && n.owner != some g) = true ↔
      ¬ (unfreeze = true → n.owner = some g) := by
    cases unfreeze <;> simp
  unfold emptyShared
  by_cases ho : (unfreeze && n.owner != some g) = true
  · rw [if_pos ho]
    exact ⟨fun h => (by cases h), fun h => absurd h.1 (howner.1 ho)⟩
  · rw [if_neg ho]
    rw [howner, Classical.not_not] at ho
    cases n.unsetShared force with
    | error e => simp
    | ok r =>
      obtain ⟨removed', emptied⟩ := r
      simp only [Except.ok.injEq, Prod.mk.injEq]
      constructor
      · rintro ⟨rfl, rfl⟩
        exact ⟨ho, _, ⟨rfl, rfl⟩, rfl⟩
      · rintro ⟨-, m, ⟨rfl, rfl⟩, rfl⟩
        exact ⟨rfl, rfl⟩

theorem unsetLocal_ok (h : s.Consistent) {key : ScopeKey} {id : NodeId} {n n' : Node}
    {force : Bool} {removed : Option Parameter} (hn : s.nodes.find? id = some n)
    (hw : n.unsetLocal key force = .ok (removed, n')) :
    (s.unsetLocal key id n force).1 = .ok removed ∧
      s.Yields (s.unsetLocal key id n force).2 fun q =>
        if n.path = q then n'.kept else s.at? q := by
  obtain ⟨-, -, hn'⟩ := Node.unsetLocal_eq_ok.1 hw
  have hscope : ∀ key', n'.inScope? key' = if key = key' then none else n.inScope? key' :=
    fun key' => by
      rw [hn']
      exact Table.find?_erase _ key key'
  unfold unsetLocal
  rw [hw]
  have hlists := h.lists hn
  refine ⟨rfl, h.settle hn (by rw [hn']) ?_
    ⟨hlists.scopes.drop key fun key' => ?_, hlists.groups.congr fun g => ?_,
      h.scopes_filled.drop key id, h.groups_filled⟩⟩
  · rw [hn']
    exact h.owned id n hn
  · rw [hscope]
    by_cases hk : key = key' <;> simp [hk]
  · rw [hn']

theorem unsetShared_error {g : Group} {id : NodeId} {n : Node} {force unfreeze : Bool}
    {e : StoreError} (hw : emptyShared g force unfreeze n = .error e) :
    s.unsetShared g id n force unfreeze = (.error e, s) := by
  unfold emptyShared at hw
  unfold unsetShared
  cases ho : unfreeze && n.owner != some g with
  | true => simpa [ho] using hw
  | false =>
    cases hu : n.unsetShared force with
    | error e' => simpa [ho, hu] using hw
    | ok r => simp [ho, hu] at hw

/-- The owner stays with a node that stays frozen, and with no other. -/
theorem emptyShared_leaves {g : Group} {force unfreeze : Bool} {n n' : Node}
    {removed : Option Parameter} (ho : n.Owned)
    (hw : emptyShared g force unfreeze n = .ok (removed, n')) :
    n'.path = n.path ∧ n'.Owned ∧ (∀ key, n'.inScope? key = n.inScope? key)
      ∧ n'.owner = if n'.isFrozen then n.owner else none := by
  obtain ⟨-, emptied, hu, rfl⟩ := emptyShared_eq_ok.1 hw
  have hemptied : emptied.Owned := ho.unsetShared hu
  obtain ⟨-, -, rfl⟩ := Node.unsetShared_eq_ok.1 hu
  cases unfreeze with
  | false => exact ⟨rfl, hemptied, fun key => rfl, rfl⟩
  | true => exact ⟨rfl, hemptied.released, fun key => rfl, rfl⟩

/-- The freeze is released by the group that owns the node, so nothing
refuses it. -/
theorem unfreeze_of_emptyShared {g : Group} {force unfreeze : Bool} {n n' : Node}
    {removed : Option Parameter} (ho : n.Owned)
    (hw : emptyShared g force unfreeze n = .ok (removed, n')) :
    ∃ emptied, n.unsetShared force = .ok (removed, emptied)
      ∧ (if unfreeze then emptied.unfreeze g else .ok emptied) = .ok n' := by
  obtain ⟨howner, emptied, hu, rfl⟩ := emptyShared_eq_ok.1 hw
  refine ⟨emptied, hu, ?_⟩
  cases unfreeze with
  | false => rfl
  | true =>
    refine Node.unfreeze_of_owner (ho.unsetShared hu) fun hp => ?_
    obtain ⟨-, -, rfl⟩ := Node.unsetShared_eq_ok.1 hu
    have hf : n.isFrozen = true := hp
    simp only [hf, if_true]
    exact howner rfl

theorem Consistent.unsetShared_eq (h : s.Consistent) {g : Group} {id : NodeId} {n n' : Node}
    {force unfreeze : Bool} {removed : Option Parameter} (hn : s.nodes.find? id = some n)
    (hw : emptyShared g force unfreeze n = .ok (removed, n')) :
    ∃ gr, s.unsetShared g id n force unfreeze =
        (.ok removed, prune { s.update id n' with groups := gr } id)
      ∧ s.Relists id n' s.scopes gr := by
  obtain ⟨emptied, hu, hrelease⟩ := unfreeze_of_emptyShared (h.owned id n hn) hw
  obtain ⟨-, -, hlocal, howner⟩ := emptyShared_leaves (h.owned id n hn) hw
  have hlists := h.lists hn
  have hscopes := hlists.scopes.congr fun key => by rw [← hlocal key]
  have hguard : (unfreeze && n.owner != some g) = false := by
    have hgroup := (emptyShared_eq_ok.1 hw).1
    cases hf : unfreeze <;> simp [hf, hgroup]
  unfold unsetShared
  simp only [hguard, Bool.false_eq_true, if_false, hu, hrelease]
  cases hno : n.owner with
  | none =>
    refine ⟨s.groups, rfl, hscopes, hlists.groups.congr fun g' => ?_, h.scopes_filled,
      h.groups_filled⟩
    simp [howner, hno]
  | some o =>
    cases hf : n'.isFrozen with
    | true =>
      refine ⟨s.groups, rfl, hscopes, hlists.groups.congr fun g' => ?_, h.scopes_filled,
        h.groups_filled⟩
      simp [howner, hf]
    | false =>
      refine ⟨s.groups.drop o id, rfl, hscopes, hlists.groups.drop o fun g' => ?_,
        h.scopes_filled, h.groups_filled.drop o id⟩
      simp [howner, hf, hno]

theorem unsetShared_ok (h : s.Consistent) {g : Group} {id : NodeId} {n n' : Node}
    {force unfreeze : Bool} {removed : Option Parameter} (hn : s.nodes.find? id = some n)
    (hw : emptyShared g force unfreeze n = .ok (removed, n')) :
    (s.unsetShared g id n force unfreeze).1 = .ok removed ∧
      s.Yields (s.unsetShared g id n force unfreeze).2 fun q =>
        if n.path = q then n'.kept else s.at? q := by
  obtain ⟨hp, ho, -, -⟩ := emptyShared_leaves (h.owned id n hn) hw
  obtain ⟨gr, heq, hix⟩ := h.unsetShared_eq hn hw
  rw [heq]
  exact ⟨rfl, h.settle hn hp ho hix⟩

theorem planUnset_eq_ok (h : s.Traced) {o : UnsetOptions} {p : Path}
    {removed : Option Parameter} {n' : Node} :
    s.planUnset kind caller text o = .ok (p, removed, n') ↔
      (o.unfreeze = true → o.shared = true) ∧ readPath text = .ok p
        ∧ ∃ n, s.at? p = some n ∧ unsetNode kind caller o n = .ok (removed, n') := by
  have hguard : (!o.shared && o.unfreeze) = true ↔ ¬ (o.unfreeze = true → o.shared = true) := by
    cases o.shared <;> cases o.unfreeze <;> simp
  unfold planUnset
  by_cases hg : (!o.shared && o.unfreeze) = true
  · rw [if_pos hg]
    exact ⟨fun he => (by cases he), fun he => absurd he.1 (hguard.1 hg)⟩
  rw [if_neg hg]
  rw [hguard, Classical.not_not] at hg
  cases hl : s.locate text with
  | error e =>
    simp only [reduceCtorEq, false_iff]
    rintro ⟨-, hp, n, hn, -⟩
    obtain ⟨id, hid⟩ := locate_of_at? hp hn
    rw [hl] at hid
    cases hid
  | ok r =>
    obtain ⟨id, n⟩ := r
    obtain ⟨-, hp, hat⟩ := h.locate hl
    simp only [map_eq_ok, Prod.mk.injEq]
    constructor
    · rintro ⟨r, hr, rfl, rfl⟩
      exact ⟨hg, hp, n, hat, hr⟩
    · rintro ⟨-, hp', m, hm, hr⟩
      cases hp.symm.trans hp'
      cases hat.symm.trans hm
      exact ⟨_, hr, rfl, rfl⟩

theorem unset_of_plan_error {o : UnsetOptions} {e : StoreError}
    (hplan : s.planUnset kind caller text o = .error e) :
    s.unset kind caller text o = (.error e, s) := by
  unfold planUnset at hplan
  unfold unset
  cases hg : !o.shared && o.unfreeze with
  | true => simpa [hg] using hplan
  | false =>
    cases hl : s.locate text with
    | error e' => simpa [hg, hl] using hplan
    | ok r =>
      obtain ⟨id, n⟩ := r
      simp only [hg, hl, Bool.false_eq_true, if_false] at hplan ⊢
      have hnode : unsetNode kind caller o n = .error e := by
        cases hn : unsetNode kind caller o n with
        | error e' => simpa [hn, Except.map] using hplan
        | ok r => simp [hn, Except.map] at hplan
      unfold unsetNode at hnode
      cases hs : unsetsShared? n caller.scope o with
      | none => simpa [hs] using hnode
      | some sh =>
        cases sh with
        | false =>
          simp only [hs] at hnode ⊢
          unfold unsetLocal
          rw [hnode]
        | true =>
          simp only [hs] at hnode ⊢
          cases ha : caller.authorize kind (caller.actingGroup o.group) with
          | error e' => simpa [ha] using hnode
          | ok u =>
            simp only [ha] at hnode ⊢
            exact unsetShared_error hnode

theorem unset_of_plan_ok (h : s.Consistent) {o : UnsetOptions} {p : Path}
    {removed : Option Parameter} {n' : Node}
    (hplan : s.planUnset kind caller text o = .ok (p, removed, n')) :
    (s.unset kind caller text o).1 = .ok removed ∧
      s.Yields (s.unset kind caller text o).2 fun q =>
        if p = q then n'.kept else s.at? q := by
  obtain ⟨hg, hp, n, hat, hnode⟩ := (planUnset_eq_ok h.toTraced).1 hplan
  obtain ⟨id, hl⟩ := locate_of_at? hp hat
  obtain ⟨hn, hpath, -⟩ := h.locate hl
  obtain rfl : n.path = p := by
    rw [hp] at hpath
    exact (Except.ok.inj hpath).symm
  have hguard : (!o.shared && o.unfreeze) = false := by
    cases hu : o.unfreeze <;> simp_all
  unfold unset
  simp only [hguard, hl, Bool.false_eq_true, if_false]
  unfold unsetNode at hnode
  cases hs : unsetsShared? n caller.scope o with
  | none => simp [hs] at hnode
  | some sh =>
    cases sh with
    | false =>
      simp only [hs] at hnode ⊢
      exact unsetLocal_ok h hn hnode
    | true =>
      simp only [hs] at hnode ⊢
      cases ha : caller.authorize kind (caller.actingGroup o.group) with
      | error e' => simp [ha] at hnode
      | ok u =>
        simp only [ha] at hnode ⊢
        exact unsetShared_ok h hn hnode

/-! ## Refused or carried out -/

/-- A set that is refused changes nothing, and any other one puts a node at
one path. -/
theorem set_cases (kind : Kind) (caller : Caller) (h : s.Consistent) (text : String)
    (input : Input) (o : SetOptions) :
    (∃ e, s.planSet kind caller text input o = .error e
      ∧ s.set kind caller text input o = (.error e, s)) ∨
    ∃ p stored n', s.planSet kind caller text input o = .ok (p, stored, n')
      ∧ (s.set kind caller text input o).1 = .ok stored
      ∧ s.Yields (s.set kind caller text input o).2 fun q =>
          if p = q then some n' else s.at? q := by
  cases hplan : s.planSet kind caller text input o with
  | error e => exact .inl ⟨e, rfl, set_of_plan_error hplan⟩
  | ok r =>
    obtain ⟨p, stored, n'⟩ := r
    exact .inr ⟨p, stored, n', rfl, set_of_plan_ok h hplan⟩

/-- What a set that goes through asks for, and makes of the store. -/
theorem set_eq_ok (h : s.Consistent) {input : Input} {o : SetOptions} {stored : Parameter}
    (hset : s.set kind caller text input o = (.ok stored, s')) :
    ∃ p path n', kind.coerce input = .ok p ∧ (o.freeze = true → o.shared = true)
      ∧ readPath text = .ok path
      ∧ setNode kind caller o p ((s.at? path).getD (.fresh path)) = .ok (stored, n')
      ∧ s.Yields s' fun q => if path = q then some n' else s.at? q := by
  obtain ⟨e, -, heq⟩ | ⟨path, stored', n', hplan, hok, hy⟩ := set_cases kind caller h text input o
  · cases heq.symm.trans hset
  rw [hset] at hok hy
  cases hok
  obtain ⟨p, hp, hfreeze, hpath, hnode⟩ := planSet_eq_ok.1 hplan
  exact ⟨p, path, n', hp, hfreeze, hpath, hnode, hy⟩

/-- An unset that is refused changes nothing, and any other one changes the
node at one path, which goes if it is of no more use. -/
theorem unset_cases (kind : Kind) (caller : Caller) (h : s.Consistent) (text : String)
    (o : UnsetOptions) :
    (∃ e, s.planUnset kind caller text o = .error e
      ∧ s.unset kind caller text o = (.error e, s)) ∨
    ∃ p removed n', s.planUnset kind caller text o = .ok (p, removed, n')
      ∧ (s.unset kind caller text o).1 = .ok removed
      ∧ s.Yields (s.unset kind caller text o).2 fun q =>
          if p = q then n'.kept else s.at? q := by
  cases hplan : s.planUnset kind caller text o with
  | error e => exact .inl ⟨e, rfl, unset_of_plan_error hplan⟩
  | ok r =>
    obtain ⟨p, removed, n'⟩ := r
    exact .inr ⟨p, removed, n', rfl, unset_of_plan_ok h hplan⟩

end Store

end ParamStore
