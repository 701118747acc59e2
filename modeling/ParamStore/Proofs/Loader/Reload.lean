import ParamStore.Proofs.Loader.Cycle
import ParamStore.Proofs.Store.InPlace

/-!
# Loading anew

A reload releases every freeze of the group, which lets go of its placeholders,
and stores the snapshot on what is left. So what is frozen afterwards is the
snapshot and nothing else (`at?_reload_entry`, `at?_reload_rest`), whatever the
group had loaded, changed or taken away before.

A second reload finds every entry at its node already. It releases these nodes
and fills them again with the same values under the same pins, and it takes no
identifier, so the container is the same as before it (`reload_rebases`).
-/

namespace ParamStore

open Json (Value)

/-- The snapshot has an entry for the path. -/
def Snapshot.Mentions (snapshot : Snapshot) (p : Path) : Prop :=
  ∃ text v, snapshot.find? text = some v ∧ Store.readPath text = .ok p

namespace Container

variable {c : Container}

theorem register_of_authorized {g : Group} (h : c.registry.isAuthorized g = true) :
    c.register g = (false, c) := by
  unfold register Registry.register
  rw [if_pos h]

end Container

namespace Loader

variable {l : Loader} {thread again count : Nat} {snapshot : Snapshot} {c c₀ c₁ : Container}
  {ws : List Written} {text : String} {v : Value} {p : Path} {n : Node}

/-! ## Storing in place -/

theorem inPlace_loadEntry (h : c.Sound) {w : Written}
    (hentry : l.loadEntry thread text v c = (.ok w, c₁))
    (hat : ∀ p, Store.readPath text = .ok p → (c.at? l.kind p).isSome = true) :
    (c.store l.kind).InPlace (c₁.store l.kind) := by
  unfold loadEntry at hentry
  rw [get_lookup] at hentry
  cases hp : Store.readPath text with
  | error e => simp [hp, Except.map] at hentry
  | ok p =>
    rw [hp] at hentry
    simp only [Except.map, Container.set] at hentry
    cases hset : (c.store l.kind).set l.kind (c.caller thread) text (.bare v) l.deposit with
    | mk answer s =>
      rw [hset] at hentry
      cases answer with
      | error e => simp at hentry
      | ok stored =>
        cases hentry
        rw [Container.store_withStore, if_pos rfl]
        exact Store.inPlace_set (h l.kind).toConsistent hp hset (hat p hp)

/-- Entries whose paths have nodes already are stored in place. -/
theorem Deposits.inPlace (h₀ : c₀.Sound) {es : List (String × Value)}
    (h : l.Deposits thread c₀ es ws c)
    (hes : ∀ e ∈ es, ∀ p, Store.readPath e.1 = .ok p → (c₀.at? l.kind p).isSome = true) :
    (c₀.store l.kind).InPlace (c.store l.kind) := by
  induction h with
  | none => exact .refl _
  | @more es ws c c' text v w before hentry ih =>
    have hstanding := before.standing h₀
    refine (ih fun e he => hes e (List.mem_append_left _ he)).trans
      (inPlace_loadEntry hstanding.sound hentry fun p hp => ?_)
    by_cases hnew : ∀ e ∈ es, Store.readPath e.1 ≠ .ok p
    · rw [hstanding.rest p hnew]
      exact hes (text, v) (by simp) p hp
    · simp only [not_forall, Classical.not_not] at hnew
      obtain ⟨e, he, hread⟩ := hnew
      obtain ⟨p', hp', -, hat⟩ := hstanding.entry e he
      cases hread.symm.trans hp'
      exact Option.isSome_of_eq_some hat

/-! ## What a reload leaves -/

theorem filled_releasedFor (g : Group) (v : Value) (n : Node) :
    l.filled v (Store.releasedFor g n) = l.filled v n := by
  unfold Store.releasedFor
  split <;> rfl

theorem releasedFor_filled (v : Value) (n : Node) :
    Store.releasedFor l.group (l.filled v n) = (l.filled v n).released := if_pos rfl

theorem filled_filled (v : Value) (n : Node) : l.filled v (l.filled v n) = l.filled v n := rfl

/-- The node that a store has left of one that was released, or a fresh one. -/
theorem getD_released (h : c.Sound) (k : Kind) (g : Group) (p : Path) :
    ((c.at? k p).bind fun n => (Store.releasedFor g n).kept).getD (.fresh p)
      = Store.releasedFor g ((c.at? k p).getD (.fresh p)) := by
  cases hn : c.at? k p with
  | none => rfl
  | some n =>
    have hkept := Node.getD_kept (Store.owned_releasedFor (g := g) (h.wellFormed hn).owned)
    rwa [Store.path_releasedFor, h.path_at? hn] at hkept

theorem kept_released_other (h : c.Sound) {k : Kind} {g : Group} (hn : c.at? k p = some n)
    (howner : n.owner ≠ some g) : (Store.releasedFor g n).kept = some n := by
  rw [Store.releasedFor, if_neg howner]
  exact Node.kept_of_not_removable (h.kept_at? hn)

section Reload

variable (h : c.Sound) (hreload : l.reload thread snapshot c = (.ok count, c₁))

include h hreload

theorem reload_deposits : count = snapshot.size ∧
    ∃ ws, l.Deposits thread ((c.clearKind l.kind l.group).2.register l.group).2
      snapshot.entries ws c₁ := by
  rw [Container.reload_eq h] at hreload
  exact load_deposits hreload

theorem reload_standing :
    ∃ ws, l.Standing ((c.clearKind l.kind l.group).2.register l.group).2 c₁
      snapshot.entries ws := by
  obtain ⟨-, ws, hd⟩ := reload_deposits h hreload
  exact ⟨ws, hd.standing ((h.clearKind l.kind l.group).register l.group)⟩

/-- At the path of an entry a reload fills the node that was there, which nobody
else can have owned. -/
theorem at?_reload_entry (hv : snapshot.find? text = some v) (hp : Store.readPath text = .ok p) :
    (∀ g, ((c.at? l.kind p).getD (.fresh p)).owner = some g → g = l.group)
      ∧ c₁.at? l.kind p = some (l.filled v ((c.at? l.kind p).getD (.fresh p))) := by
  obtain ⟨ws, hstanding⟩ := reload_standing h hreload
  obtain ⟨p', hp', haccepts, hat⟩ := hstanding.entry _ (Table.find?_eq_some_iff.1 hv)
  cases hp.symm.trans hp'
  rw [Container.at?_register, (h.turns_clearKind l.kind l.group).2.at?_eq, getD_released h]
    at haccepts hat
  rw [filled_releasedFor] at hat
  refine ⟨fun g ho => ?_, hat⟩
  by_contra hne
  exact hne (haccepts.owner_eq g
    (Store.owner_releasedFor.2 ⟨ho, fun hgone => hne hgone.1.symm⟩))

/-- At any other path a reload releases the node that the group owned. -/
theorem at?_reload_rest (hp : ¬ snapshot.Mentions p) :
    c₁.at? l.kind p = (c.at? l.kind p).bind fun n => (Store.releasedFor l.group n).kept := by
  obtain ⟨ws, hstanding⟩ := reload_standing h hreload
  rw [hstanding.rest p fun e he hread => hp ⟨e.1, e.2, Table.find?_eq_some_iff.2 he, hread⟩,
    Container.at?_register, (h.turns_clearKind l.kind l.group).2.at?_eq]

end Reload

/-- What a reload makes of a container. The group has frozen the entries of the
snapshot, each pinned to its own identity, and nothing else; what it shared
elsewhere is its own still, and no freeze of an earlier load is left. -/
structure Rebases (l : Loader) (snapshot : Snapshot) (c c₁ : Container) : Prop where
  frozen_iff : ∀ p, (∃ n, c₁.at? l.kind p = some n ∧ n.owner = some l.group
    ∧ n.isFrozen = true) ↔ snapshot.Mentions p
  entries : ∀ text v, snapshot.find? text = some v → ∃ p n q, Store.readPath text = .ok p
    ∧ c₁.at? l.kind p = some n ∧ n.owner = some l.group
    ∧ n.shared = some q ∧ q.kind = l.kind ∧ q.value = v
    ∧ n.pin = some q.identity ∧ q.pin = some q.identity
    ∧ q.identity = (Parameter.plain l.kind v).identity
  no_placeholder : ∀ p n, c₁.at? l.kind p = some n → n.owner = some l.group →
    n.shared.isSome = true
  kept : ∀ p, ¬ snapshot.Mentions p → ∀ n q, c.at? l.kind p = some n →
    n.owner = some l.group → n.shared = some q → ∃ n', c₁.at? l.kind p = some n'
      ∧ n'.shared = some q ∧ n'.owner = some l.group ∧ n'.pin = none
  rest : ∀ p, ¬ snapshot.Mentions p →
    (∀ n, c.at? l.kind p = some n → n.owner ≠ some l.group) →
    c₁.at? l.kind p = c.at? l.kind p
  others : ∀ p n g, n.owner = some g → g ≠ l.group →
    (c₁.at? l.kind p = some n ↔ c.at? l.kind p = some n)
  scopes : ∀ k p key, c₁.inScope? k p key = c.inScope? k p key
  kinds : ∀ k, k ≠ l.kind → c₁.store k = c.store k

section Rebase

variable (h : c.Sound) (hreload : l.reload thread snapshot c = (.ok count, c₁))

include h hreload

theorem frozen_iff_of_reload (p : Path) :
    (∃ n, c₁.at? l.kind p = some n ∧ n.owner = some l.group ∧ n.isFrozen = true) ↔
      snapshot.Mentions p := by
  constructor
  · rintro ⟨n, hn, howner, hfrozen⟩
    by_contra hp
    rw [at?_reload_rest h hreload hp] at hn
    obtain ⟨m, -, hk⟩ := Option.bind_eq_some_iff.1 hn
    obtain ⟨-, rfl⟩ := Node.kept_eq_some.1 hk
    have hm := (Store.owner_releasedFor.1 howner).1
    rw [Store.releasedFor, if_pos hm] at hfrozen
    cases hfrozen
  · rintro ⟨text, v, hv, hp⟩
    exact ⟨_, (at?_reload_entry h hreload hv hp).2, rfl, rfl⟩

theorem no_placeholder_of_reload (hn : c₁.at? l.kind p = some n)
    (howner : n.owner = some l.group) : n.shared.isSome = true := by
  by_cases hp : snapshot.Mentions p
  · obtain ⟨text, v, hv, hread⟩ := hp
    rw [(at?_reload_entry h hreload hv hread).2] at hn
    cases hn
    rfl
  · rw [at?_reload_rest h hreload hp] at hn
    obtain ⟨m, -, hk⟩ := Option.bind_eq_some_iff.1 hn
    obtain ⟨-, rfl⟩ := Node.kept_eq_some.1 hk
    obtain ⟨hm, hshared⟩ := Store.owner_releasedFor.1 howner
    rw [Store.releasedFor, if_pos hm]
    exact Option.isSome_iff_ne_none.2 fun hnone => hshared ⟨rfl, hnone⟩

/-- A node with a value is not let go. -/
theorem kept_of_reload {q : Parameter} (hp : ¬ snapshot.Mentions p)
    (hn : c.at? l.kind p = some n) (howner : n.owner = some l.group) (hq : n.shared = some q) :
    c₁.at? l.kind p = some n.released := by
  rw [at?_reload_rest h hreload hp, hn, Option.bind_some, Store.releasedFor, if_pos howner]
  exact Node.kept_of_not_removable (by simp [Node.isRemovable, Node.released, hq])

theorem rest_of_reload (hp : ¬ snapshot.Mentions p)
    (howner : ∀ n, c.at? l.kind p = some n → n.owner ≠ some l.group) :
    c₁.at? l.kind p = c.at? l.kind p := by
  rw [at?_reload_rest h hreload hp]
  cases hn : c.at? l.kind p with
  | none => rfl
  | some n => exact kept_released_other h hn (howner n hn)

theorem others_of_reload {g : Group} (howner : n.owner = some g) (hne : g ≠ l.group) :
    c₁.at? l.kind p = some n ↔ c.at? l.kind p = some n := by
  by_cases hp : snapshot.Mentions p
  · -- an entry stands neither on such a node nor is it one
    obtain ⟨text, v, hv, hread⟩ := hp
    obtain ⟨hfree, hat⟩ := at?_reload_entry h hreload hv hread
    refine iff_of_false (fun hn => ?_) fun hn => ?_
    · cases hat.symm.trans hn
      exact hne (Option.some.inj howner).symm
    · exact hne (hfree g (by rw [hn]; exact howner))
  · have hrest := at?_reload_rest h hreload hp
    constructor
    · intro hn
      rw [hrest] at hn
      obtain ⟨m, hm, hk⟩ := Option.bind_eq_some_iff.1 hn
      obtain ⟨-, rfl⟩ := Node.kept_eq_some.1 hk
      have hother : m.owner ≠ some l.group := fun ho =>
        hne (Option.some.inj ((Store.owner_releasedFor.1 howner).1.symm.trans ho))
      rw [hm, Store.releasedFor, if_neg hother]
    · intro hn
      have hother : n.owner ≠ some l.group := fun ho => hne (Option.some.inj (howner.symm.trans ho))
      rw [hrest, hn, Option.bind_some, kept_released_other h hn hother]

theorem rebases_of_reload : l.Rebases snapshot c c₁ := by
  have hload := hreload
  rw [Container.reload_eq h] at hload
  have hloads := load_loads (h.clearKind l.kind l.group) hload
  have hturns := (h.turns_clearKind l.kind l.group).2
  refine ⟨frozen_iff_of_reload h hreload, fun text v hv => ?_,
    fun p n => no_placeholder_of_reload h hreload, fun p hp n q hn howner hq => ?_,
    fun p => rest_of_reload h hreload, fun p n g => others_of_reload h hreload,
    fun k p key => ?_, fun k hk => ?_⟩
  · obtain ⟨p, -, -, hp, -⟩ := hloads.entries text v hv
    refine ⟨p, _, l.stored v, hp, (at?_reload_entry h hreload hv hp).2, rfl, rfl, rfl, rfl, ?_, ?_,
      identity_stored l v⟩
    · rw [identity_stored]
      rfl
    · rw [identity_stored, pin_stored]
  · refine ⟨_, kept_of_reload h hreload hp hn howner hq, hq, ?_, rfl⟩
    simp [Node.released, hq, howner]
  · exact (hloads.scopes k p key).trans (Container.slot?_clearKind h l.kind l.group)
  · exact (hloads.kinds k hk).trans (hturns.store_eq k hk)

end Rebase

/-! ## A second reload -/

theorem accepts_released (hg : l.group ≠ "") (v : Value) (n : Node) :
    l.Accepts (l.filled v n).released where
  named := hg
  unfrozen := rfl
  owner_eq := fun _ ho => (Option.some.inj ho).symm
  writable := fun _ hq => Option.some.inj hq ▸ rfl

section Again

variable {c₂ : Container} (h : c.Sound) (hreload : l.reload thread snapshot c = (.ok count, c₁))

include h hreload

/-- The nodes that a reload leaves to the group stay when they are released. -/
theorem at?_clear_reload (p : Path) : (c₁.clearKind l.kind l.group).2.at? l.kind p =
    (c₁.at? l.kind p).map (Store.releasedFor l.group) := by
  obtain ⟨ws, hstanding⟩ := reload_standing h hreload
  rw [(hstanding.sound.turns_clearKind l.kind l.group).2.at?_eq]
  cases hn : c₁.at? l.kind p with
  | none => rfl
  | some n =>
    refine Node.kept_of_not_removable ?_
    unfold Store.releasedFor
    split
    · next howner =>
      have hvalue := no_placeholder_of_reload h hreload hn howner
      simp [Node.isRemovable, Node.released, Option.isNone_eq_false_iff.2 hvalue]
    · exact hstanding.sound.kept_at? hn

/-- Each entry of the snapshot is accepted again where it stands. -/
theorem accepts_again (hv : snapshot.find? text = some v) :
    l.kind.Admits (.plain l.kind v) ∧ ∃ p, Store.readPath text = .ok p
      ∧ l.Accepts (((c₁.clearKind l.kind l.group).2.at? l.kind p).getD (.fresh p)) := by
  obtain ⟨ws, hstanding⟩ := reload_standing h hreload
  obtain ⟨p, hp, -⟩ := hstanding.entry _ (Table.find?_eq_some_iff.1 hv)
  obtain ⟨-, hat⟩ := at?_reload_entry h hreload hv hp
  have hwf := hstanding.sound.wellFormed hat
  refine ⟨hwf.admitted (l.stored v) (.inl rfl), p, hp, ?_⟩
  rw [at?_clear_reload h hreload, hat, Option.map_some, Option.getD_some, releasedFor_filled]
  exact accepts_released (fun hg => hwf.named (congrArg some hg)) v _

theorem at?_reload_again (hreload' : l.reload again snapshot c₁ = (.ok count, c₂)) (p : Path) :
    c₂.at? l.kind p = c₁.at? l.kind p := by
  obtain ⟨ws, hstanding⟩ := reload_standing h hreload
  by_cases hp : snapshot.Mentions p
  · obtain ⟨text, v, hv, hread⟩ := hp
    rw [(at?_reload_entry hstanding.sound hreload' hv hread).2,
      (at?_reload_entry h hreload hv hread).2]
    exact congrArg some (filled_filled v _)
  · -- what the group owns here is not frozen, so that there is nothing to release
    rw [at?_reload_rest hstanding.sound hreload' hp]
    cases hn : c₁.at? l.kind p with
    | none => rfl
    | some n =>
      have hsame : Store.releasedFor l.group n = n := by
        unfold Store.releasedFor
        split
        · next howner =>
          refine Node.released_of_not_frozen (hstanding.sound.wellFormed hn).owned ?_
          rw [← Option.not_isSome_iff_eq_none]
          exact fun hfrozen =>
            hp ((frozen_iff_of_reload h hreload p).1 ⟨n, hn, howner, hfrozen⟩)
        · rfl
      rw [Option.bind_some, hsame]
      exact Node.kept_of_not_removable (hstanding.sound.kept_at? hn)

/-- A second reload goes through and takes no identifier. -/
theorem exists_reload_again (again : Nat) : ∃ c₂, l.reload again snapshot c₁ = (.ok count, c₂)
    ∧ c₂.Sound ∧ c₂.registry = c₁.registry ∧ (∀ k, k ≠ l.kind → c₂.store k = c₁.store k)
    ∧ (c₁.store l.kind).InPlace (c₂.store l.kind) := by
  obtain ⟨rfl, -⟩ := reload_deposits h hreload
  obtain ⟨ws, hstanding⟩ := reload_standing h hreload
  have h₁ : c₁.Sound := hstanding.sound
  have hturns := (h₁.turns_clearKind l.kind l.group).2
  have ha : (c₁.clearKind l.kind l.group).2.registry.isAuthorized l.group = true := by
    rw [hturns.registry_eq, hstanding.registry_eq]
    exact Registry.isAuthorized_register _ _
  have hregister := Container.register_of_authorized ha
  obtain ⟨ws', c₂, hd⟩ := exists_deposits again hturns.sound ha
    (fun e he => accepts_again h hreload (Table.find?_eq_some_iff.2 he)) hstanding.distinct_entries
  have hdone := hd.standing hturns.sound
  have hload : l.load again snapshot (c₁.clearKind l.kind l.group).2 = (.ok snapshot.size, c₂) :=
    Deposits.load (by rw [hregister]; exact hd)
  refine ⟨c₂, (Container.reload_eq h₁ l again snapshot).trans hload, hdone.sound,
    hdone.registry_eq.trans hturns.registry_eq,
    fun k hk => (hdone.store_eq k hk).trans (hturns.store_eq k hk), ?_⟩
  have hclear : (c₁.store l.kind).InPlace ((c₁.clearKind l.kind l.group).2.store l.kind) := by
    unfold Container.clearKind
    rw [Container.store_withStore, if_pos rfl]
    exact Store.inPlace_clearFrozen (h₁ l.kind).toConsistent l.group
  refine hclear.trans (hd.inPlace hturns.sound fun e he p hp => ?_)
  rw [at?_clear_reload h hreload, Option.isSome_map,
    (at?_reload_entry h hreload (Table.find?_eq_some_iff.2 he) hp).2]
  rfl

end Again

/-- A reload that goes through re-bases the freezes of its group on the
snapshot, whatever the group had loaded, changed and taken away before. A
second reload right after it goes through, too, and changes nothing at all. -/
theorem reload_rebases (hc : c.Reachable)
    (hreload : l.reload thread snapshot c = (.ok count, c₁)) :
    l.Rebases snapshot c c₁ ∧ ∀ again, l.reload again snapshot c₁ = (.ok count, c₁) := by
  have h : c.Sound := hc.sound
  refine ⟨rebases_of_reload h hreload, fun again => ?_⟩
  obtain ⟨c₂, hagain, h₂, hregistry, hstores, hplace⟩ := exists_reload_again h hreload again
  obtain ⟨ws, hstanding⟩ := reload_standing h hreload
  have hsame : c₂ = c₁ := Container.eq_of_stores hregistry fun k => by
    by_cases hk : k = l.kind
    · subst hk
      exact hplace.eq_of_at? (hstanding.sound _).toConsistent (h₂ _).toConsistent
        (at?_reload_again h hreload hagain)
    · exact hstores k hk
  rw [hagain, hsame]

/-- The theme has a changed value, a placeholder and one that is as it was
loaded; another group has a value, too. -/
def rehung : Container :=
  worn.run [(2, .ask .env (.set "wall" (.bare (.text "brick")) { shared := true }))]

/-- A snapshot with a new value for the one that was changed, a new entry, and
none of the others. -/
def dark : Snapshot := .ofList [("colour", .text "grey"), (" frame. width ", .text "2")]

theorem reload_rebases_rehung :
    ∃ c₁, theme.reload 0 dark rehung = (.ok 2, c₁)
      ∧ rehung.Reachable
      ∧ (rehung.env.nodes.values.any fun n =>
          n.owner == some "addon.theme" && n.shared.isNone) = true
      ∧ theme.Rebases dark rehung c₁
      ∧ ∀ again, theme.reload again dark c₁ = (.ok 2, c₁) := by
  have hc : rehung.Reachable := Container.Reachable.run ⟨{}, _, rfl⟩ _
  have hreload : theme.reload 0 dark rehung = (.ok 2, (theme.reload 0 dark rehung).2) :=
    Prod.ext (by decide +kernel) rfl
  exact ⟨_, hreload, hc, by decide +kernel, reload_rebases hc hreload⟩

end Loader

end ParamStore
