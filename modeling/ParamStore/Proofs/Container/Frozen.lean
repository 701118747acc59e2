import ParamStore.Proofs.Container.Run
import ParamStore.Proofs.Store.Slots

/-!
# How long a freeze lasts

A frozen node keeps its owner and its pin, whoever writes to it, unsets it
or ends a scope, until the freeze is released: by an unset that says so, by
clearing the freezes of its group, or by the loader that holds it
(`frozenAt_step`, and for whole runs `frozenAt_run`). Every shared value that
is stored there meanwhile takes that pin (`freeze_kept`).
-/

namespace ParamStore

namespace Store

variable {k : Kind} {caller : Caller} {n n' : Node} {g : Group} {pin : UInt64}

/-- A node that `g` has frozen with this pin. -/
def HeldBy (g : Group) (pin : UInt64) (n : Node) : Prop := n.owner = some g ∧ n.pin = some pin

theorem HeldBy.kept (h : HeldBy g pin n) : n.kept = some n :=
  Node.kept_of_not_removable (by simp [Node.isRemovable, h.2])

/-- Writing to a frozen node leaves the freeze alone. -/
theorem HeldBy.setNode {o : SetOptions} {p stored : Parameter} (h : HeldBy g pin n)
    (hset : setNode k caller o p n = .ok (stored, n')) : HeldBy g pin n' := by
  obtain ⟨howner, hpin⟩ := h
  obtain ⟨-, -, hset⟩ | ⟨-, hset⟩ := setNode_cases hset
  · obtain ⟨-, hfreeze, -, hgroup, -, hn'⟩ := Node.setShared_eq_ok.1 hset
    have hno : o.freeze = false := by
      refine Bool.eq_false_iff.2 fun hf => ?_
      cases hpin.symm.trans (hfreeze hf)
    rw [hn']
    exact ⟨congrArg some (hgroup g howner).symm, by simp [hno, hpin]⟩
  · obtain ⟨-, -, hn'⟩ := Node.setLocal_eq_ok.1 hset
    rw [hn']
    exact ⟨howner, hpin⟩

/-- Taking a value away from a frozen node leaves the freeze alone, unless
the owner asks to release it. -/
theorem HeldBy.unsetNode {o : UnsetOptions} {removed : Option Parameter} (h : HeldBy g pin n)
    (hunset : unsetNode k caller o n = .ok (removed, n'))
    (hkeep : ¬ (o.unfreeze = true ∧ caller.actingGroup o.group = g)) : HeldBy g pin n' := by
  obtain ⟨howner, hpin⟩ := h
  obtain ⟨shared, -, hpermits, -, rfl⟩ := unsetNode_eq_ok.1 hunset
  cases shared with
  | false => exact ⟨howner, hpin⟩
  | true =>
    have hno : o.unfreeze = false := by
      refine Bool.eq_false_iff.2 fun hu => hkeep ⟨hu, ?_⟩
      exact (Option.some.inj (howner.symm.trans (hpermits.owner rfl hu))).symm
    have hfrozen : n.isFrozen = true := by simp [Node.isFrozen, hpin]
    obtain ⟨-, hpin', howner'⟩ := Node.emptied_of_frozen hfrozen .shared
    rw [hno]
    exact ⟨howner'.trans howner, hpin'.trans hpin⟩

end Store

namespace Container

open Store (HeldBy)

variable {c c' : Container} {k : Kind} {p : Path} {g : Group} {pin : UInt64} {thread : Nat}

/-- `g` has frozen the node at a path with this pin. -/
def FrozenAt (c : Container) (k : Kind) (p : Path) (g : Group) (pin : UInt64) : Prop :=
  ∃ n, c.at? k p = some n ∧ HeldBy g pin n

theorem FrozenAt.congr (h : c.FrozenAt k p g pin) (heq : c'.store k = c.store k) :
    c'.FrozenAt k p g pin := by
  unfold FrozenAt at?
  rw [heq]
  exact h

/-- An operation on one store leaves the freeze alone if its view does, in
case it is on this store. -/
theorem FrozenAt.turns (h : c.FrozenAt k p g pin) {k' : Kind} {view : Path → Option Node}
    (hturns : Turns k' c c' view)
    (hview : k' = k → ∀ n, c.at? k p = some n → HeldBy g pin n →
      ∃ n', view p = some n' ∧ HeldBy g pin n') : c'.FrozenAt k p g pin := by
  by_cases hk : k' = k
  · subst hk
    obtain ⟨n, hn, hheld⟩ := h
    obtain ⟨n', hn', hheld'⟩ := hview rfl n hn hheld
    exact ⟨n', (hturns.at?_eq p).trans hn', hheld'⟩
  · exact h.congr (hturns.store_eq k (Ne.symm hk))

/-- The actions that release a freeze of `g` at a path of kind `k`, where
`default` is the group of those who name none. -/
def Action.Releases (default : Group) (k : Kind) (g : Group) (p : Path) : Action → Prop
  | .ask k' (.unset text o) => k' = k ∧ Store.readPath text = .ok p ∧ o.unfreeze = true
      ∧ o.group.getD default = g
  | .ask k' (.clearFrozen group) => k' = k ∧ group = g
  | .clearFrozen group => group = g
  | .reload l _ => l = ⟨g, k⟩
  | .unload l => l = ⟨g, k⟩
  | _ => False

/-! ## One action -/

theorem FrozenAt.set (hs : c.Sound) (h : c.FrozenAt k p g pin) (thread : Nat) (k' : Kind)
    (text : String) (input : Input) (o : SetOptions) :
    (c.set thread k' text input o).2.FrozenAt k p g pin := by
  obtain ⟨e, -, heq⟩ | ⟨q, stored, n', hplan, -, hturns⟩ := hs.turns_set thread k' text input o
  · rw [heq]
    exact h
  refine h.turns hturns fun hk n hn hheld => ?_
  subst hk
  obtain ⟨_, -, -, -, hnode⟩ := Store.planSet_eq_ok.1 hplan
  by_cases hq : q = p
  · subst hq
    rw [show (c.store k').at? q = some n from hn] at hnode
    exact ⟨n', if_pos rfl, hheld.setNode hnode⟩
  · exact ⟨n, (if_neg hq).trans hn, hheld⟩

theorem FrozenAt.unset (hs : c.Sound) (h : c.FrozenAt k p g pin) (thread : Nat) {k' : Kind}
    {text : String} {o : UnsetOptions}
    (hkeep : ¬ (k' = k ∧ Store.readPath text = .ok p ∧ o.unfreeze = true
      ∧ o.group.getD c.registry.defaultGroup = g)) :
    (c.unset thread k' text o).2.FrozenAt k p g pin := by
  obtain ⟨e, -, heq⟩ | ⟨q, removed, n', hplan, -, hturns⟩ := hs.turns_unset thread k' text o
  · rw [heq]
    exact h
  refine h.turns hturns fun hk n hn hheld => ?_
  subst hk
  obtain ⟨-, hp, m, hm, hnode⟩ := (Store.planUnset_eq_ok (hs k').toTraced).1 hplan
  by_cases hq : q = p
  · subst hq
    cases hm.symm.trans hn
    have hheld' : HeldBy g pin n' := hheld.unsetNode hnode fun hu => hkeep ⟨rfl, hp, hu⟩
    exact ⟨n', (if_pos rfl).trans hheld'.kept, hheld'⟩
  · exact ⟨n, (if_neg hq).trans hn, hheld⟩

theorem FrozenAt.flushKind (hs : c.Sound) (h : c.FrozenAt k p g pin) (thread : Nat) (k' : Kind) :
    (c.flushKind thread k').2.FrozenAt k p g pin := by
  refine h.turns (hs.turns_flushKind thread k') fun hk n hn hheld => ?_
  subst hk
  have hheld' : HeldBy g pin (Store.withoutScope (c.caller thread).scope n) := hheld
  exact ⟨_, by rw [hn]; exact hheld'.kept, hheld'⟩

theorem FrozenAt.flush (hs : c.Sound) (h : c.FrozenAt k p g pin) (thread : Nat) :
    (c.flush thread).2.FrozenAt k p g pin :=
  (flushKinds_induction (P := fun c => c.Sound ∧ c.FrozenAt k p g pin)
    (fun _ k' hc => ⟨(hc.1.turns_flushKind thread k').sound, hc.2.flushKind hc.1 thread k'⟩)
    Kind.all ⟨hs, h⟩).2

theorem FrozenAt.clearKind (hs : c.Sound) (h : c.FrozenAt k p g pin) {k' : Kind} {g' : Group}
    (hkeep : ¬ (k' = k ∧ g' = g)) : (c.clearKind k' g').2.FrozenAt k p g pin := by
  refine h.turns (hs.turns_clearKind k' g').2 fun hk n hn hheld => ?_
  subst hk
  have hother : n.owner ≠ some g' := fun ho =>
    hkeep ⟨rfl, Option.some.inj (ho.symm.trans hheld.1)⟩
  have hsame : Store.releasedFor g' n = n := if_neg hother
  exact ⟨n, by rw [hn, Option.bind_some, hsame]; exact hheld.kept, hheld⟩

theorem FrozenAt.clearFrozen (hs : c.Sound) (h : c.FrozenAt k p g pin) {g' : Group}
    (hkeep : g' ≠ g) : (c.clearFrozen g').2.FrozenAt k p g pin :=
  (clearKinds_induction (P := fun c => c.Sound ∧ c.FrozenAt k p g pin)
    (fun _ k' hc => ⟨hc.1.clearKind k' g', hc.2.clearKind hc.1 fun hk => hkeep hk.2⟩)
    Kind.all ⟨hs, h⟩).2

/-- A load does not touch what is frozen: it is refused there, and what it
takes back it has stored itself. -/
theorem FrozenAt.load (hs : c.Sound) (h : c.FrozenAt k p g pin) (l : Loader) (thread : Nat)
    (snapshot : Snapshot) : (l.load thread snapshot c).2.FrozenAt k p g pin := by
  cases hload : l.load thread snapshot c with
  | mk answer c' =>
    cases answer with
    | ok count =>
      obtain ⟨ws, hstanding⟩ := Loader.load_ok hs hload
      obtain ⟨n, hn, hheld⟩ := h
      by_cases hk : k = l.kind
      · subst hk
        have hnew : ∀ e ∈ snapshot.entries, Store.readPath e.1 ≠ .ok p := by
          intro e he hp
          obtain ⟨q, hq, haccepts, -⟩ := hstanding.entry e he
          cases hp.symm.trans hq
          have hunfrozen := haccepts.unfrozen
          rw [at?_register, hn, Option.getD_some, hheld.2] at hunfrozen
          cases hunfrozen
        exact ⟨n, (hstanding.rest p hnew).trans ((at?_register c _ _ p).trans hn), hheld⟩
      · exact FrozenAt.congr ⟨n, hn, hheld⟩
          ((hstanding.store_eq k hk).trans (store_register c _ k))
    | error e =>
      obtain ⟨done, _, _, _, _, -, -, -, hturns⟩ := Loader.load_error hs hload
      refine h.turns hturns fun hk n hn hheld => ?_
      subst hk
      by_cases hp : p ∈ Loader.readPaths (done.map Prod.fst)
      · exact ⟨n.repinned, by rw [if_pos hp, hn]; rfl, hheld⟩
      · exact ⟨n, by rw [if_neg hp, hn], hheld⟩

theorem FrozenAt.unload (hs : c.Sound) (h : c.FrozenAt k p g pin) {l : Loader}
    (hkeep : l ≠ ⟨g, k⟩) (thread : Nat) : (l.unload thread c).2.FrozenAt k p g pin := by
  obtain ⟨heq, -⟩ | ⟨report, c', -, heq, hturns⟩ := unload_cases hs l thread
  · rw [heq]
    exact h
  rw [heq]
  refine FrozenAt.congr (h.turns hturns fun hk n hn hheld => ?_) (store_unregister c' _ k)
  have hother : n.owner ≠ some l.group := by
    intro ho
    have hgroup : l.group = g := Option.some.inj (ho.symm.trans hheld.1)
    exact hkeep (by rw [← hk, ← hgroup])
  have hsame : n.unloadedFor l.group = n := Node.unloadedFor_of_ne hother
  exact ⟨n, by rw [hk, hn, Option.bind_some, hsame]; exact hheld.kept, hheld⟩

theorem frozenAt_step (hs : c.Sound) (h : c.FrozenAt k p g pin) {a : Action}
    (ha : ¬ a.Releases c.registry.defaultGroup k g p) (thread : Nat) :
    (c.step thread a).FrozenAt k p g pin := by
  cases a with
  | ask k' r =>
    cases r with
    | set text input o => exact h.set hs thread k' text input o
    | unset text o => exact h.unset hs thread ha
    | flush => exact h.flushKind hs thread k'
    | clearFrozen g' => exact h.clearKind hs ha
    | get | has | dictionary | owner | isFrozen | groupPaths | scopePaths | hasScope | groupNames
    | paths | size =>
      change (c.withStore k' (c.store k')).FrozenAt k p g pin
      rw [withStore_store]
      exact h
  | flush => exact h.flush hs thread
  | clearFrozen g' => exact h.clearFrozen hs ha
  | push => exact h.congr (store_push c thread k)
  | pop =>
    obtain ⟨c₁, frames, rfl | rfl, hstore, -⟩ := pop_cases c thread
    · exact h.congr (hstore k)
    · exact (h.flush hs thread).congr (hstore k)
  | register g' => exact h.congr (store_register c g' k)
  | unregister g' => exact h.congr (store_unregister c g' k)
  | load l snapshot => exact h.load hs l thread snapshot
  | reload l snapshot =>
    change (l.reload thread snapshot c).2.FrozenAt k p g pin
    have hkeep : ¬ (l.kind = k ∧ l.group = g) := fun ⟨hk, hg⟩ => ha (by
      obtain ⟨group, kind⟩ := l
      cases hk
      cases hg
      rfl)
    rw [reload_eq hs]
    exact (h.clearKind hs hkeep).load (hs.clearKind l.kind l.group) l thread snapshot
  | unload l => exact h.unload hs ha thread

/-! ## Many actions -/

theorem frozenAt_run (hs : c.Sound) (h : c.FrozenAt k p g pin) {acts : List (Nat × Action)}
    (hacts : ∀ a ∈ acts, ¬ a.2.Releases c.registry.defaultGroup k g p) :
    (c.run acts).FrozenAt k p g pin := by
  induction acts generalizing c with
  | nil => exact h
  | cons a acts ih =>
    refine ih (hs.step a.1 a.2) (frozenAt_step hs h (hacts a List.mem_cons_self) a.1) fun b hb => ?_
    rw [defaultGroup_step hs]
    exact hacts b (List.mem_cons_of_mem _ hb)

/-- The shared value of a frozen node counts as untouched iff the pin of the
node is its identity. -/
theorem FrozenAt.value (hs : c.Sound) (h : c.FrozenAt k p g pin) :
    ∃ n, c.at? k p = some n ∧ n.isFrozen = true ∧ n.owner = some g ∧ n.pin = some pin
      ∧ ∀ q, n.shared = some q → q.pin = some pin ∧ (q.isPinned = true ↔ q.identity = pin) := by
  obtain ⟨n, hn, howner, hpin⟩ := h
  refine ⟨n, hn, by simp [Node.isFrozen, hpin], howner, hpin, fun q hq => ?_⟩
  have hq : q.pin = some pin := (hs.wellFormed hn).pinned pin q hpin hq
  exact ⟨hq, Parameter.isPinned_iff_of_pin hq⟩

/-- What a set stores at a frozen node takes the pin of the node, whatever
pin it came with. -/
theorem FrozenAt.stored (hs : c.Sound) (h : c.FrozenAt k p g pin) {text : String} {input : Input}
    {o : SetOptions} {q : Parameter} (hp : Store.readPath text = .ok p) (ho : o.shared = true)
    (hset : (c.set thread k text input o).1 = .ok q) : q.pin = some pin := by
  rcases hs.turns_set thread k text input o with ⟨e, -, heq⟩ | ⟨p', stored, n', hplan, hok, -⟩
  · rw [heq] at hset
    cases hset
  obtain ⟨_, -, -, hp', hnode⟩ := Store.planSet_eq_ok.1 hplan
  cases hp.symm.trans hp'
  cases hok.symm.trans hset
  obtain ⟨n, hn, -, hpin⟩ := h
  obtain ⟨-, -, -, -, hq, -⟩ := Node.setShared_eq_ok.1 ((Store.setNode_shared ho).1 hnode).2
  rw [hq, Node.pin_pinned, show (c.store k).at? p = some n from hn, Option.getD_some, hpin,
    Option.getD_some]

/-- As long as a group does not release what it has frozen, the node stays
in the store with the owner and the pin that it was frozen with, through
whatever is done by anyone; and every shared value that is stored there
meanwhile takes that pin, so that it counts as untouched iff the pin is its
identity. -/
theorem freeze_kept (hc : c.Reachable) (h : c.FrozenAt k p g pin) (acts : List (Nat × Action))
    (hacts : ∀ a ∈ acts, ¬ a.2.Releases c.registry.defaultGroup k g p) :
    (∀ earlier later, acts = earlier ++ later →
      ∃ n, (c.run earlier).at? k p = some n ∧ n.isFrozen = true ∧ n.owner = some g
        ∧ n.pin = some pin
        ∧ ∀ q, n.shared = some q → q.pin = some pin ∧ (q.isPinned = true ↔ q.identity = pin))
    ∧ ∀ earlier thread text input o later q,
      acts = earlier ++ (thread, .ask k (.set text input o)) :: later →
      Store.readPath text = .ok p → o.shared = true →
      ((c.run earlier).set thread k text input o).1 = .ok q →
      q.pin = some pin ∧ (q.isPinned = true ↔ q.identity = pin) := by
  have hrun : ∀ earlier later, acts = earlier ++ later →
      (c.run earlier).Sound ∧ (c.run earlier).FrozenAt k p g pin := by
    rintro earlier later rfl
    refine ⟨hc.sound.run earlier, frozenAt_run hc.sound h fun a ha => ?_⟩
    exact hacts a (List.mem_append_left _ ha)
  constructor
  · intro earlier later hsplit
    obtain ⟨hs, hfrozen⟩ := hrun earlier later hsplit
    exact hfrozen.value hs
  · intro earlier thread text input o later q hsplit hp ho hset
    obtain ⟨hs, hfrozen⟩ := hrun earlier _ hsplit
    have hq : q.pin = some pin := hfrozen.stored hs hp ho hset
    exact ⟨hq, Parameter.isPinned_iff_of_pin hq⟩

/-- How users of an add-on write its values. -/
def onAddon : SetOptions := { shared := true, group := some "addon" }

/-- An add-on has frozen a colour. -/
def frosted : Container :=
  (ofConfig {}).run [(0, .register "addon"),
    (0, .ask .env (.set "colour" (.bare (.text "white")) { onAddon with freeze := true }))]

/-- The colour is overwritten, taken away and filled again with a parameter
that brings a pin of its own; another group tries to overwrite and to release
it, a thread shadows it and flushes, and a load of the add-on fails on it. -/
def pestered : List (Nat × Action) :=
  [(1, .ask .env (.set "colour" (.bare (.text "grey")) onAddon)),
    (1, .ask .env (.unset "colour" { shared := true, group := some "addon" })),
    (2, .ask .env (.set "colour" (.made ⟨.env, .text "black", .shared ⟨false, true, false, some 7⟩⟩)
      onAddon)),
    (2, .ask .env (.set "colour" (.bare (.text "red")) { shared := true })),
    (2, .ask .env (.unset "colour" { shared := true, unfreeze := true })),
    (1, .ask .env (.set "colour" (.bare (.text "blue")) {})),
    (1, .flush),
    (0, .load ⟨"addon", .env⟩ (.ofList [("background", .text "white"), ("colour", .text "red")]))]

theorem freeze_kept_pestered : ∃ p pin,
    Store.readPath "colour" = .ok p ∧ frosted.FrozenAt .env p "addon" pin
      ∧ (∀ a ∈ pestered, ¬ a.2.Releases frosted.registry.defaultGroup .env "addon" p)
      ∧ ((frosted.run pestered).at? .env p).bind (·.shared.map Parameter.value)
        = some (.text "black")
      ∧ ∃ n, (frosted.run pestered).at? .env p = some n ∧ n.isFrozen = true
        ∧ n.owner = some "addon" ∧ n.pin = some pin
        ∧ ∀ q, n.shared = some q → q.pin = some pin ∧ (q.isPinned = true ↔ q.identity = pin) := by
  have hlook : (Store.readPath "colour").toOption.bind (fun p =>
      (frosted.at? .env p).map fun n => (n.owner, n.pin.isSome)) = some (some "addon", true) := by
    decide +kernel
  have hlook' : (Store.readPath "colour").toOption.bind (fun p =>
      ((frosted.run pestered).at? .env p).map fun n => n.shared.map Parameter.value)
        = some (some (.text "black")) := by
    decide +kernel
  obtain ⟨p, hread, n, hn, hfields⟩ := at?_of_look hlook
  obtain ⟨howner, hfrozen⟩ := Prod.ext_iff.1 hfields
  obtain ⟨pin, hpin⟩ := Option.isSome_iff_exists.1 hfrozen
  have hheld : frosted.FrozenAt .env p "addon" pin := ⟨n, hn, howner, hpin⟩
  have hacts : ∀ a ∈ pestered, ¬ a.2.Releases frosted.registry.defaultGroup .env "addon" p := by
    have hdefault : frosted.registry.defaultGroup ≠ "addon" := by decide +kernel
    simp [pestered, Action.Releases, hdefault]
  obtain ⟨p', hread', n', hn', hvalue⟩ := at?_of_look hlook'
  cases hread.symm.trans hread'
  have hkept := freeze_kept ⟨{}, _, rfl⟩ hheld pestered hacts
  exact ⟨p, pin, hread, hheld, hacts, by rw [hn', Option.bind_some, hvalue],
    hkept.1 pestered [] (List.append_nil _).symm⟩

end Container

end ParamStore
