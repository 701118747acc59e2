import ParamStore.Proofs.Store.Slots

/-!
# What an unset removes

An unset takes the value out of one slot at one path. Which slot that is, and
whether anything stands in the way, is a matter of the node alone
(`unsetNode_eq_ok`); with it the unset of a store is told by what there was at
the path (`unset_eq_ok`): it takes a value (`Takes`), or it releases a frozen
node that has none (`Releases`), or it is refused. What it leaves alone is the
same for all of them (`Spares`).
-/

namespace ParamStore

namespace Store

variable {s : Store} {kind : Kind} {caller : Caller} {text : String} {o : UnsetOptions}
  {n : Node} {path : Path} {i : Slot} {p : Parameter}
  {removed : Option Parameter}

/-! ## Which slot, at which path -/

/-- An unset finds the node `n` at `path`, and goes through with the slot `i`. -/
structure Empties (s : Store) (caller : Caller) (text : String) (o : UnsetOptions) (path : Path)
    (n : Node) (i : Slot) : Prop where
  asked : o.unfreeze = true → o.shared = true
  path_eq : readPath text = .ok path
  node : s.at? path = some n
  slot : ∃ shared, i = .of caller.scope shared ∧ unsetsShared? n caller.scope o = some shared
  permits : o.Permits caller n i

theorem Empties.unset (h : s.Consistent) (he : s.Empties caller text o path n i) :
    (s.unset kind caller text o).1 = .ok (n.slot? i) ∧
      ∀ q, (s.unset kind caller text o).2.at? q =
        if path = q then (n.emptied o.unfreeze i).kept else s.at? q := by
  obtain ⟨hasked, hpath, hn, ⟨shared, rfl, hslot⟩, hpermits⟩ := he
  have hplan : s.planUnset kind caller text o = .ok (path, n.slot? (.of caller.scope shared),
      n.emptied o.unfreeze (.of caller.scope shared)) :=
    (planUnset_eq_ok h.toTraced).2
      ⟨hasked, hpath, n, hn, unsetNode_eq_ok.2 ⟨shared, hslot, hpermits, rfl, rfl⟩⟩
  obtain ⟨hok, hy⟩ := unset_of_plan_ok h hplan
  exact ⟨hok, hy.at?_eq⟩

/-- An unset that is refused changes nothing, and any other one empties a slot. -/
theorem unset_empties (kind : Kind) (caller : Caller) (h : s.Consistent) (text : String)
    (o : UnsetOptions) :
    (∃ e, s.unset kind caller text o = (.error e, s)) ∨
      ∃ path n i, s.Empties caller text o path n i := by
  obtain ⟨e, -, heq⟩ | ⟨path, removed, n', hplan, -, -⟩ := unset_cases kind caller h text o
  · exact .inl ⟨e, heq⟩
  · obtain ⟨hasked, hpath, n, hn, hnode⟩ := (planUnset_eq_ok h.toTraced).1 hplan
    obtain ⟨shared, hslot, hpermits, -, -⟩ := unsetNode_eq_ok.1 hnode
    exact .inr ⟨path, n, _, hasked, hpath, hn, ⟨shared, rfl, hslot⟩, hpermits⟩

theorem unset_eq_ok (h : s.Consistent) :
    (s.unset kind caller text o).1 = .ok removed ↔
      ∃ path n i, s.Empties caller text o path n i ∧ removed = n.slot? i := by
  constructor
  · intro hok
    obtain ⟨e, heq⟩ | ⟨path, n, i, he⟩ := unset_empties kind caller h text o
    · rw [heq] at hok
      cases hok
    · exact ⟨path, n, i, he, Except.ok.inj (hok.symm.trans (he.unset h).1)⟩
  · rintro ⟨path, n, i, he, rfl⟩
    exact (he.unset h).1

/-- The slot is empty afterwards, and every other slot as it was. -/
theorem Empties.slot?_unset (h : s.Consistent) (he : s.Empties caller text o path n i)
    (q : Path) (j : Slot) :
    (s.unset kind caller text o).2.slot? q j =
      if q = path ∧ j = i then none else s.slot? q j := by
  unfold slot?
  rw [(he.unset h).2]
  by_cases hq : path = q
  · subst hq
    rw [if_pos rfl, Node.slot?_kept, Node.slot?_emptied, he.node, Option.bind_some]
    simp only [true_and, eq_comm (a := i)]
  · rw [if_neg hq, if_neg fun hboth => hq hboth.1.symm]

/-! ## Taking and releasing -/

/-- An unset takes `p` from the slot `i` at `path`: the slot that it asks for,
or the one that it falls back to. -/
def Takes (s : Store) (caller : Caller) (text : String) (o : UnsetOptions) (path : Path)
    (i : Slot) (p : Parameter) : Prop :=
  (o.unfreeze = true → o.shared = true) ∧ readPath text = .ok path ∧
    ∃ n, s.at? path = some n ∧ n.slot? i = some p
      ∧ o.Picks caller.scope n i ∧ o.Permits caller n i

/-- An unset of the shared slot has the owner release the node at `path`, which
is frozen without a shared value. -/
def Releases (s : Store) (caller : Caller) (text : String) (o : UnsetOptions) (path : Path) :
    Prop :=
  o.shared = true ∧ o.unfreeze = true ∧ readPath text = .ok path ∧
    ∃ n, s.at? path = some n ∧ n.isFrozen = true ∧ n.shared = none
      ∧ n.owner = some (caller.actingGroup o.group)
      ∧ caller.authorized (caller.actingGroup o.group) = true

theorem takes_iff :
    s.Takes caller text o path i p ↔
      ∃ n, s.Empties caller text o path n i ∧ n.slot? i = some p := by
  constructor
  · rintro ⟨hasked, hpath, n, hn, hp, hpick, hpermits⟩
    obtain ⟨shared, rfl⟩ : ∃ shared, i = .of caller.scope shared := by
      rcases hpick with rfl | ⟨-, -, -, rfl⟩
      · exact ⟨_, rfl⟩
      · exact ⟨_, rfl⟩
    exact ⟨n, ⟨hasked, hpath, hn,
      ⟨shared, rfl, unsetsShared?_eq_some.2 ⟨hpick, .inl (by rw [hp]; rfl)⟩⟩, hpermits⟩, hp⟩
  · rintro ⟨n, ⟨hasked, hpath, hn, ⟨shared, rfl, hslot⟩, hpermits⟩, hp⟩
    exact ⟨hasked, hpath, n, hn, hp, (unsetsShared?_eq_some.1 hslot).1, hpermits⟩

theorem Releases.empties (hr : s.Releases caller text o path) :
    ∃ n, s.Empties caller text o path n .shared ∧ n.shared = none := by
  obtain ⟨hshared, hunfreeze, hpath, n, hn, hfrozen, hempty, howner, hright⟩ := hr
  refine ⟨n, ⟨fun _ => hshared, hpath, hn, ⟨true, rfl, unsetsShared?_eq_some.2
    ⟨.inl (by rw [hshared]), .inr ⟨rfl, hshared, hunfreeze, hfrozen⟩⟩⟩, ?_⟩, hempty⟩
  refine ⟨fun p hp => ?_, fun _ => hright, fun _ _ => howner⟩
  cases hempty.symm.trans hp

theorem releases_iff :
    s.Releases caller text o path ↔
      ∃ n i, s.Empties caller text o path n i ∧ n.slot? i = none := by
  constructor
  · intro hr
    obtain ⟨n, he, hempty⟩ := hr.empties
    exact ⟨n, .shared, he, hempty⟩
  · rintro ⟨n, i, ⟨-, hpath, hn, ⟨shared, rfl, hslot⟩, hpermits⟩, hempty⟩
    obtain ⟨-, hheld | ⟨rfl, hshared, hunfreeze, hfrozen⟩⟩ := unsetsShared?_eq_some.1 hslot
    · rw [hempty] at hheld
      cases hheld
    · exact ⟨hshared, hunfreeze, hpath, n, hn, hfrozen, hempty, hpermits.owner rfl hunfreeze,
        hpermits.right rfl⟩

/-- A release leaves no trace of the freeze. -/
theorem Releases.released (h : s.Consistent) (hr : s.Releases caller text o path)
    (hn : (s.unset kind caller text o).2.at? path = some n) :
    n.isFrozen = false ∧ n.owner = none := by
  obtain ⟨m, he, -⟩ := hr.empties
  rw [(he.unset h).2, if_pos rfl, Node.kept_eq_some] at hn
  obtain ⟨-, rfl⟩ := hn
  simp [Node.emptied, Node.isFrozen, hr.2.1]

/-! ## What is left alone -/

/-- What an unset from the store `s` to `s'` leaves alone. -/
structure Spares (caller : Caller) (text : String) (o : UnsetOptions) (s s' : Store) : Prop where
  /-- A release changes no value of a scope. -/
  locals : o.unfreeze = true → ∀ q key, s'.inScope? q key = s.inScope? q key
  /-- Without force, what is not removable stays. -/
  lasting : o.force = false → ∀ q i p, s.slot? q i = some p → p.removable = false →
    s'.slot? q i = some p
  /-- Unless it is released, a frozen node stays frozen and owned. -/
  frozen : o.unfreeze = false → ∀ q n, s.at? q = some n → n.isFrozen = true →
    ∃ n', s'.at? q = some n' ∧ n'.pin = n.pin ∧ n'.owner = n.owner ∧ n'.owner.isSome = true
  paths : ∀ q, readPath text ≠ .ok q → s'.at? q = s.at? q
  scopes : ∀ q key, key ≠ caller.scope → s'.inScope? q key = s.inScope? q key

theorem Spares.refl (h : s.Consistent) : Spares caller text o s s where
  locals := fun _ _ _ => rfl
  lasting := fun _ _ _ _ hp _ => hp
  frozen := fun _ _ n hn hfrozen => ⟨n, hn, rfl, rfl, (h.at?_owned hn).isSome_owner hfrozen⟩
  paths := fun _ _ => rfl
  scopes := fun _ _ _ => rfl

theorem Empties.spares (h : s.Consistent) (he : s.Empties caller text o path n i) :
    Spares caller text o s (s.unset kind caller text o).2 where
  locals := fun hunfreeze q key => by
    obtain ⟨shared, rfl, hslot⟩ := he.slot
    have hshared : shared = true := by
      rcases (unsetsShared?_eq_some.1 hslot).1 with hpick | ⟨-, -, hf, -⟩
      · exact (Slot.of_inj.1 hpick).trans (he.asked hunfreeze)
      · rw [hunfreeze] at hf
        cases hf
    subst hshared
    exact (he.slot?_unset h q _).trans (if_neg fun hboth => nomatch hboth.2)
  lasting := fun hforce q j p hp hlasting => by
    refine (he.slot?_unset h q j).trans ((if_neg ?_).trans hp)
    rintro ⟨rfl, rfl⟩
    have hheld : n.slot? j = some p := by simpa [slot?, he.node] using hp
    rcases he.permits.removable p hheld with hf | hr
    · rw [hforce] at hf
      cases hf
    · rw [hlasting] at hr
      cases hr
  frozen := fun hunfreeze q m hm hfrozen => by
    by_cases hq : path = q
    · subst hq
      cases he.node.symm.trans hm
      obtain ⟨hkept, hpin, howner⟩ := Node.emptied_of_frozen hfrozen i
      refine ⟨_, ?_, hpin, howner, ?_⟩
      · rw [(he.unset h).2, if_pos rfl, hunfreeze, hkept]
      · rw [howner]
        exact (h.at?_owned hm).isSome_owner hfrozen
    · refine ⟨m, ?_, rfl, rfl, (h.at?_owned hm).isSome_owner hfrozen⟩
      rw [(he.unset h).2, if_neg hq, hm]
  paths := fun q hq => by
    refine ((he.unset h).2 q).trans (if_neg ?_)
    rintro rfl
    exact hq he.path_eq
  scopes := fun q key hkey => by
    obtain ⟨shared, rfl, -⟩ := he.slot
    exact (he.slot?_unset h q _).trans
      (if_neg fun hboth => Slot.scope_ne_of hkey shared hboth.2)

theorem spares_unset (h : s.Consistent) :
    Spares caller text o s (s.unset kind caller text o).2 := by
  obtain ⟨e, heq⟩ | ⟨path, n, i, he⟩ := unset_empties kind caller h text o
  · rw [heq]
    exact .refl h
  · exact he.spares h

/-- An unset takes at most one value: it gives what it took out of one slot,
or nothing if it released a frozen node that had no shared value. -/
theorem unset_takes_one (kind : Kind) (calls : List (Caller × Request)) (caller : Caller)
    (text : String) (o : UnsetOptions) :
    let s := run kind .empty calls
    let r := s.unset kind caller text o
    (∀ p, r.1 = .ok (some p) ↔ ∃ path i, s.Takes caller text o path i p)
      ∧ (∀ path i p, s.Takes caller text o path i p → ∀ q j,
          r.2.slot? q j = if q = path ∧ j = i then none else s.slot? q j)
      ∧ (r.1 = .ok none ↔ ∃ path, s.Releases caller text o path)
      ∧ (∀ path, s.Releases caller text o path → (∀ q j, r.2.slot? q j = s.slot? q j)
          ∧ ∀ n, r.2.at? path = some n → n.isFrozen = false ∧ n.owner = none)
      ∧ Spares caller text o s r.2 := by
  intro s r
  have h : s.Consistent := (consistent_run .empty kind calls).1
  refine ⟨fun p => ?_, fun path i p ht q j => ?_, ?_, fun path hr => ⟨fun q j => ?_, ?_⟩,
    spares_unset h⟩
  · simp only [r, unset_eq_ok h, takes_iff, eq_comm (a := some p)]
    constructor
    · rintro ⟨path, n, i, he⟩
      exact ⟨path, i, n, he⟩
    · rintro ⟨path, i, n, he⟩
      exact ⟨path, n, i, he⟩
  · obtain ⟨n, he, -⟩ := takes_iff.1 ht
    exact he.slot?_unset h q j
  · simp only [r, unset_eq_ok h, releases_iff, eq_comm (a := (none : Option Parameter))]
  · obtain ⟨n, i, he, hempty⟩ := releases_iff.1 hr
    refine (he.slot?_unset h q j).trans ?_
    split
    · next hboth => rw [hboth.1, hboth.2, slot?, he.node, Option.bind_some, hempty]
    · rfl
  · exact fun n => hr.released h

/-- Taking a frozen value leaves a placeholder, which gives nothing more. -/
example :
    let addon : Caller := ⟨⟨0, 0⟩, "addon", fun _ => true⟩
    let s := run .var .empty
      [(addon, .set "dir" (.bare (.text "/")) { shared := true, freeze := true }),
        (addon, .unset "dir" { shared := true })]
    (s.unset .var addon "dir" { shared := true }).1.toOption = none
      ∧ (s.unset .var addon "dir" { shared := true, unfreeze := true }).1.toOption = some none := by
  decide +kernel

end Store

end ParamStore
