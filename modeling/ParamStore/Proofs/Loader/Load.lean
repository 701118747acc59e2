import ParamStore.Proofs.Loader.Steps

/-!
# Loading and rolling back

The entries that a load has stored stand at different paths: the first one
freezes its path, and a second one would be refused. So each of them can be
taken back by itself, and the order in which that happens does not matter
(`rollBack_turns`). What comes back is the node as it was before, except
that a value that was replaced is pinned to its own identity afterwards,
whatever it was pinned to before (`Node.repinned`).
-/

namespace ParamStore

open Json (Value)

namespace Node

/-- The node with its shared value pinned to its own identity. -/
def repinned (n : Node) : Node :=
  { n with shared := n.shared.map fun q => q.withPin q.identity }

theorem repinned_eq_self {n : Node} :
    n.repinned = n ↔ ∀ q, n.shared = some q → q.withPin q.identity = q := by
  obtain ⟨path, shared, locals, owner, pin⟩ := n
  cases shared <;> simp [repinned]

end Node

namespace Loader

variable {l : Loader} {thread : Nat} {c c₀ c₁ c₂ : Container}

/-! ## Storing entries one after the other -/

/-- From `c₀`, the loader has stored these entries, each for what `written`
says of it, and come to the container. -/
inductive Deposits (l : Loader) (thread : Nat) (c₀ : Container) :
    List (String × Value) → List Written → Container → Prop where
  | none : Deposits l thread c₀ [] [] c₀
  | more {es : List (String × Value)} {ws : List Written} {c c' : Container} {text : String}
      {v : Value} {w : Written} (before : Deposits l thread c₀ es ws c)
      (entry : l.loadEntry thread text v c = (.ok w, c')) :
      Deposits l thread c₀ (es ++ [(text, v)]) (w :: ws) c'

/-- Storing entries goes through, or stops at one that fails and rolls back
those before it. -/
theorem loadEntries_cases {es₀ : List (String × Value)} {ws : List Written}
    (h : Deposits l thread c₀ es₀ ws c) (es : List (String × Value)) :
    (∃ ws' c', l.loadEntries thread ws es c = (.ok (), c')
      ∧ Deposits l thread c₀ (es₀ ++ es) ws' c') ∨
    ∃ e done text v rest ws' c₁ c₂, es = done ++ (text, v) :: rest
      ∧ Deposits l thread c₀ (es₀ ++ done) ws' c₁
      ∧ l.loadEntry thread text v c₁ = (.error e, c₂)
      ∧ l.loadEntries thread ws es c = (.error e, l.rollBack thread ws' c₂) := by
  induction es generalizing es₀ ws c with
  | nil => exact .inl ⟨ws, c, rfl, by simpa using h⟩
  | cons entry es ih =>
    obtain ⟨text, v⟩ := entry
    unfold loadEntries
    cases hentry : l.loadEntry thread text v c with
    | mk answer c₁ =>
      cases answer with
      | error e =>
        exact .inr ⟨e, [], text, v, es, ws, c, c₁, rfl, by simpa using h, hentry, rfl⟩
      | ok w =>
        rw [List.append_cons]
        obtain hok | ⟨e, done, text', v', rest, ws', c₂, c₃, rfl, hd, hfail, heq⟩ :=
          ih (h.more hentry)
        · exact .inl hok
        · refine .inr ⟨e, (text, v) :: done, text', v', rest, ws', c₂, c₃, rfl, ?_, hfail, heq⟩
          rw [List.append_cons]
          exact hd

/-- One entry is refused and changes nothing, or it fills the node at its
path and remembers the value that was there. -/
theorem loadEntry_cases (h : c.Sound) (l : Loader) (thread : Nat) (text : String) (v : Value) :
    (∃ e, l.loadEntry thread text v c = (.error e, c)) ∨
    ∃ p c', Store.readPath text = .ok p ∧ l.Accepts ((c.at? l.kind p).getD (.fresh p))
      ∧ l.loadEntry thread text v c = (.ok ⟨text, (c.at? l.kind p).bind Node.shared⟩, c')
      ∧ Container.Turns l.kind c c' fun q =>
          if p = q then some (l.filled v ((c.at? l.kind p).getD (.fresh p)))
          else c.at? l.kind q := by
  unfold loadEntry
  rw [get_lookup]
  obtain ⟨e, heq⟩ | ⟨p, hp, haccepts, hok, hturns⟩ := deposit_cases h l thread text v
  · rw [heq]
    cases Store.readPath text with
    | error e' => exact .inl ⟨e', rfl⟩
    | ok p => exact .inl ⟨e, rfl⟩
  · refine .inr ⟨p, _, hp, haccepts, ?_, hturns⟩
    rw [hp]
    simp only [Except.map, hok]

/-- A loader that may write stores an entry wherever that is accepted. -/
theorem loadEntry_ok (thread : Nat) (h : c.Sound)
    (ha : c.registry.isAuthorized l.group = true) {text : String} {v : Value} {p : Path}
    (hv : l.kind.Admits (.plain l.kind v))
    (hp : Store.readPath text = .ok p) (haccepts : l.Accepts ((c.at? l.kind p).getD (.fresh p))) :
    ∃ w c', l.loadEntry thread text v c = (.ok w, c') := by
  have hnode : Store.setNode l.kind (c.caller thread) l.deposit (.plain l.kind v)
      ((c.at? l.kind p).getD (.fresh p)) = .ok (l.stored v, _) :=
    (Store.setNode_shared rfl).2 ⟨ha, haccepts.setShared v⟩
  have hplan := Store.planSet_eq_ok.2 ⟨_, Kind.coerce_plain hv, fun _ => rfl, hp, hnode⟩
  obtain ⟨e, he, -⟩ | ⟨p', q, n', -, hok, -⟩ :=
    h.turns_set thread l.kind text (.bare v) l.deposit
  · cases he.symm.trans hplan
  · unfold loadEntry
    rw [get_lookup, hp]
    simp only [Except.map, hok]
    exact ⟨_, _, rfl⟩

/-- What has come of a container in which entries were stored. -/
structure Standing (l : Loader) (c₀ c : Container) (es : List (String × Value))
    (ws : List Written) : Prop where
  sound : c.Sound
  registry_eq : c.registry = c₀.registry
  store_eq : ∀ k, k ≠ l.kind → c.store k = c₀.store k
  paths : ws.map Written.path = (es.map Prod.fst).reverse
  distinct : ws.Pairwise fun w w' => Store.readPath w.path ≠ Store.readPath w'.path
  entry : ∀ e ∈ es, ∃ p, Store.readPath e.1 = .ok p
    ∧ l.Accepts ((c₀.at? l.kind p).getD (.fresh p))
    ∧ c.at? l.kind p = some (l.filled e.2 ((c₀.at? l.kind p).getD (.fresh p)))
  previous : ∀ w ∈ ws, ∀ p, Store.readPath w.path = .ok p →
    w.previous = (c₀.at? l.kind p).bind Node.shared
  rest : ∀ p, (∀ e ∈ es, Store.readPath e.1 ≠ .ok p) → c.at? l.kind p = c₀.at? l.kind p

namespace Standing

variable {es : List (String × Value)} {ws : List Written}

theorem refl (h : c₀.Sound) : l.Standing c₀ c₀ [] [] where
  sound := h
  registry_eq := rfl
  store_eq := fun _ _ => rfl
  paths := rfl
  distinct := .nil
  entry := fun e he => by cases he
  previous := fun w hw => by cases hw
  rest := fun _ _ => rfl

/-- A path that was stored to is frozen, so what is accepted is another. -/
theorem unused (h : l.Standing c₀ c es ws) {p : Path}
    (haccepts : l.Accepts ((c.at? l.kind p).getD (.fresh p))) :
    ∀ e ∈ es, Store.readPath e.1 ≠ .ok p := by
  intro e he hep
  obtain ⟨q, hq, -, hat⟩ := h.entry e he
  cases hep.symm.trans hq
  have hpin := haccepts.unfrozen
  rw [hat] at hpin
  cases hpin

theorem more (h : l.Standing c₀ c es ws) {c' : Container} {text : String} {v : Value}
    {w : Written} (hentry : l.loadEntry thread text v c = (.ok w, c')) :
    l.Standing c₀ c' (es ++ [(text, v)]) (w :: ws) := by
  obtain ⟨e, he⟩ | ⟨p, c'', hp, haccepts, heq, hturns⟩ :=
    loadEntry_cases h.sound l thread text v
  · cases he.symm.trans hentry
  cases heq.symm.trans hentry
  have hnew := h.unused haccepts
  have hsame : c.at? l.kind p = c₀.at? l.kind p := h.rest p hnew
  rw [hsame] at haccepts hturns
  refine ⟨hturns.sound, hturns.registry_eq.trans h.registry_eq,
    fun k hk => (hturns.store_eq k hk).trans (h.store_eq k hk), ?_, ?_, ?_, ?_, ?_⟩
  · simp [h.paths]
  · refine List.pairwise_cons.2 ⟨fun w hw => ?_, h.distinct⟩
    have hmem : w.path ∈ (es.map Prod.fst).reverse := h.paths ▸ List.mem_map_of_mem hw
    obtain ⟨e, he, hpath⟩ := List.mem_map.1 (List.mem_reverse.1 hmem)
    rw [← hpath]
    exact fun heq => hnew e he (heq.symm.trans hp)
  · intro e he
    rcases List.mem_append.1 he with he | he
    · obtain ⟨q, hq, hacc, hat⟩ := h.entry e he
      refine ⟨q, hq, hacc, ?_⟩
      have hne : p ≠ q := fun h => hnew e he (h ▸ hq)
      rw [hturns.at?_eq, if_neg hne]
      exact hat
    · obtain rfl := List.mem_singleton.1 he
      exact ⟨p, hp, haccepts, by rw [hturns.at?_eq, if_pos rfl]⟩
  · intro w hw q hq
    rcases List.mem_cons.1 hw with rfl | hw
    · cases hp.symm.trans hq
      rw [hsame]
    · exact h.previous w hw q hq
  · intro q hq
    have hne : p ≠ q := fun h => hq (text, v) (by simp) (h ▸ hp)
    rw [hturns.at?_eq, if_neg hne]
    exact h.rest q fun e he => hq e (List.mem_append_left _ he)

end Standing

theorem Deposits.standing {es : List (String × Value)} {ws : List Written} (h₀ : c₀.Sound)
    (h : Deposits l thread c₀ es ws c) : l.Standing c₀ c es ws := by
  induction h with
  | none => exact .refl h₀
  | more _ hentry ih => exact ih.more hentry

/-- Entries at different paths are stored if each of them is accepted. -/
theorem exists_deposits (thread : Nat) (h₀ : c₀.Sound)
    (ha : c₀.registry.isAuthorized l.group = true) {es : List (String × Value)}
    (hes : ∀ e ∈ es, l.kind.Admits (.plain l.kind e.2) ∧ ∃ p, Store.readPath e.1 = .ok p
      ∧ l.Accepts ((c₀.at? l.kind p).getD (.fresh p)))
    (hdistinct : es.Pairwise fun e e' => Store.readPath e.1 ≠ Store.readPath e'.1) :
    ∃ ws c, l.Deposits thread c₀ es ws c := by
  obtain ⟨ws, c, -, hd⟩ | ⟨e, done, text, v, rest, ws, c₁, c₂, rfl, hd, hfail, -⟩ :=
    loadEntries_cases (@Deposits.none l thread c₀) es
  · exact ⟨ws, c, hd⟩
  · -- none can be the first to fail, since those before it are at other paths
    have hstanding := hd.standing h₀
    obtain ⟨hv, p, hp, haccepts⟩ := hes (text, v) (by simp)
    have hsame : c₁.at? l.kind p = c₀.at? l.kind p := hstanding.rest p fun e' he' hp' =>
      (List.pairwise_append.1 hdistinct).2.2 e' he' (text, v) (by simp) (hp'.trans hp.symm)
    obtain ⟨w, c', hentry⟩ := loadEntry_ok thread hstanding.sound (hstanding.registry_eq ▸ ha) hv hp
      (hsame ▸ haccepts)
    cases hentry.symm.trans hfail

theorem Standing.distinct_entries {es : List (String × Value)} {ws : List Written}
    (h : l.Standing c₀ c es ws) :
    es.Pairwise fun e e' => Store.readPath e.1 ≠ Store.readPath e'.1 := by
  have hpaths : (ws.map Written.path).Pairwise fun text text' =>
      Store.readPath text ≠ Store.readPath text' := List.pairwise_map.2 h.distinct
  rw [h.paths, List.pairwise_reverse, List.pairwise_map] at hpaths
  exact hpaths.imp Ne.symm

/-! ## Taking entries back -/

/-- The paths that these texts stand for. -/
def readPaths (texts : List String) : List Path :=
  texts.filterMap fun text => (Store.readPath text).toOption

theorem mem_readPaths {texts : List String} {p : Path} :
    p ∈ readPaths texts ↔ ∃ text ∈ texts, Store.readPath text = .ok p := by
  unfold readPaths
  rw [List.mem_filterMap]
  refine exists_congr fun text => and_congr_right fun _ => ?_
  cases Store.readPath text <;> simp [Except.toOption]

theorem stripped_filled (l : Loader) (v : Value) (n : Node) :
    (l.filled v n).stripped = n.stripped := rfl

/-- What is left when an entry is taken back from a node that nobody owned. -/
theorem kept_unowned {p : Path} (h₀ : c₀.Sound)
    (hfree : ∀ n, c₀.at? l.kind p = some n → n.owner = none) :
    ((c₀.at? l.kind p).getD (.fresh p)).stripped.kept = c₀.at? l.kind p := by
  cases hn : c₀.at? l.kind p with
  | none => rfl
  | some n =>
    rw [Option.getD_some, Node.stripped_of_unowned (h₀.wellFormed hn).owned (hfree n hn)]
    exact Node.kept_of_not_removable (h₀.kept_at? hn)

/-- What is left when an entry is taken back that had replaced nothing. -/
theorem kept_stripped {p : Path} (h₀ : c₀.Sound)
    (hnone : (c₀.at? l.kind p).bind Node.shared = none)
    (hacc : l.Accepts ((c₀.at? l.kind p).getD (.fresh p))) :
    ((c₀.at? l.kind p).getD (.fresh p)).stripped.kept = (c₀.at? l.kind p).map Node.repinned := by
  rw [kept_unowned h₀ fun n hn => ?_]
  · cases hn : c₀.at? l.kind p with
    | none => rfl
    | some n =>
      rw [hn] at hnone
      exact congrArg some (Node.repinned_eq_self.2 fun q hq => by cases hnone.symm.trans hq).symm
  · rw [hn] at hnone hacc
    have hs : n.shared = none := hnone
    have hp : n.pin = none := hacc.unfrozen
    simpa [Node.Owned, hs, hp] using (h₀.wellFormed hn).owned

/-- Taking back one entry. -/
theorem rollBack_one (h₀ : c₀.Sound) (h : c.Sound) (thread : Nat)
    (ha : c.registry.isAuthorized l.group = true) {w : Written} {p : Path} {v : Value}
    (hp : Store.readPath w.path = .ok p)
    (hprevious : w.previous = (c₀.at? l.kind p).bind Node.shared)
    (hacc : l.Accepts ((c₀.at? l.kind p).getD (.fresh p)))
    (hat : c.at? l.kind p = some (l.filled v ((c₀.at? l.kind p).getD (.fresh p)))) :
    Container.Turns l.kind c (l.rollBack thread [w] c) fun q =>
      if p = q then (c₀.at? l.kind p).map Node.repinned else c.at? l.kind q := by
  obtain ⟨hok, hturns⟩ := withdrawal_ok h thread ha hp hat rfl
  rw [stripped_filled] at hturns
  unfold rollBack rollBack
  cases hw : w.previous with
  | none =>
    simp only [hok]
    rw [← kept_stripped h₀ (hprevious.symm.trans hw) hacc]
    exact hturns
  | some q =>
    rw [hw] at hprevious
    obtain ⟨n, hn, hs⟩ := Option.bind_eq_some_iff.1 hprevious.symm
    have hwf := h₀.wellFormed hn
    rw [hn] at hacc hturns ⊢
    simp only [Option.getD_some] at hacc hturns
    -- the node is now the one that the value is put back on, or was let go as that
    have hback : ((c.unset thread l.kind w.path l.withdrawal).2.at? l.kind p).getD (.fresh p) =
        n.stripped := by
      rw [hturns.at?_eq, if_pos rfl, ← h₀.path_at? hn]
      exact Node.getD_kept n.owned_stripped
    have hset := restoration_ok hturns.sound thread (q := q) (hturns.registry_eq ▸ ha) hp
      hacc.named (hwf.admitted q (.inl hs)) hback
    have howner : n.owner = some l.group := by
      have hsome : n.owner.isSome = true := by
        rw [hwf.owned, hs]
        rfl
      obtain ⟨g, hg⟩ := Option.isSome_iff_exists.1 hsome
      rw [hg, hacc.owner_eq g hg]
    have hrepinned : n.repinned = { n with
        shared := some (q.toShared.withPin q.identity)
        owner := some l.group
        pin := none } := by
      unfold Node.repinned
      rw [hs, Parameter.toShared_of_isShared (hwf.shared_shape q hs).1, ← howner,
        ← hacc.unfrozen]
      rfl
    simp only [hok, Option.map_some, hrepinned]
    refine (hturns.trans hset).congr fun r => ?_
    split
    · rfl
    · next hne => rw [hturns.at?_eq, if_neg hne]

/-- Taking back what was stored brings every node back, with a value that had
been replaced pinned to its own identity. -/
theorem rollBack_turns (h₀ : c₀.Sound) (h : c.Sound) (thread : Nat)
    (ha : c.registry.isAuthorized l.group = true) {ws : List Written}
    (hdistinct : ws.Pairwise fun w w' => Store.readPath w.path ≠ Store.readPath w'.path)
    (hws : ∀ w ∈ ws, ∃ p v, Store.readPath w.path = .ok p
      ∧ w.previous = (c₀.at? l.kind p).bind Node.shared
      ∧ l.Accepts ((c₀.at? l.kind p).getD (.fresh p))
      ∧ c.at? l.kind p = some (l.filled v ((c₀.at? l.kind p).getD (.fresh p)))) :
    Container.Turns l.kind c (l.rollBack thread ws c) fun p =>
      if p ∈ readPaths (ws.map Written.path) then (c₀.at? l.kind p).map Node.repinned
      else c.at? l.kind p := by
  induction ws generalizing c with
  | nil => exact h.turns_self l.kind
  | cons w ws ih =>
    obtain ⟨hw, hdistinct⟩ := List.pairwise_cons.1 hdistinct
    obtain ⟨p, v, hp, hprevious, hacc, hat⟩ := hws w List.mem_cons_self
    have hone := rollBack_one h₀ h thread ha hp hprevious hacc hat
    have hne : ∀ w' ∈ ws, ∀ q, Store.readPath w'.path = .ok q → p ≠ q := by
      rintro w' hw' q hq rfl
      exact hw w' hw' (hp.trans hq.symm)
    have htail := ih hone.sound (hone.registry_eq ▸ ha) hdistinct fun w' hw' => by
      obtain ⟨q, v', hq, hprevious', hacc', hat'⟩ := hws w' (List.mem_cons_of_mem _ hw')
      refine ⟨q, v', hq, hprevious', hacc', ?_⟩
      rw [hone.at?_eq, if_neg (hne w' hw' q hq)]
      exact hat'
    refine (hone.trans htail).congr fun q => ?_
    have hmem : q ∈ readPaths ((w :: ws).map Written.path) ↔
        p = q ∨ q ∈ readPaths (ws.map Written.path) := by
      simp [mem_readPaths, hp]
    by_cases hq : q ∈ readPaths (ws.map Written.path)
    · rw [if_pos hq, if_pos (hmem.2 (.inr hq))]
    · rw [if_neg hq, hone.at?_eq]
      by_cases hpq : p = q
      · subst hpq
        rw [if_pos rfl, if_pos (hmem.2 (.inl rfl))]
      · rw [if_neg hpq, if_neg fun h => (hmem.1 h).elim hpq hq]

/-! ## Whole loads -/

theorem Deposits.loadEntries_append {es : List (String × Value)} {ws : List Written}
    (h : Deposits l thread c₀ es ws c) (ws₀ : List Written) (more : List (String × Value)) :
    l.loadEntries thread ws₀ (es ++ more) c₀ = l.loadEntries thread (ws ++ ws₀) more c := by
  induction h generalizing more with
  | none => rfl
  | @more es ws c c' text v w _ hentry ih =>
    rw [List.append_assoc, ih]
    simp only [List.singleton_append, loadEntries, hentry]
    rfl

theorem Deposits.loadEntries {es : List (String × Value)} {ws : List Written}
    (h : Deposits l thread c₀ es ws c) : l.loadEntries thread [] es c₀ = (.ok (), c) := by
  have happend := h.loadEntries_append [] []
  rw [List.append_nil] at happend
  exact happend

variable {snapshot : Snapshot} {e : StoreError} {c' : Container}

/-- A load that goes through has registered its group and stored every
entry. -/
theorem load_deposits {count : Nat} (hload : l.load thread snapshot c = (.ok count, c')) :
    count = snapshot.size
      ∧ ∃ ws, l.Deposits thread (c.register l.group).2 snapshot.entries ws c' := by
  unfold load at hload
  obtain ⟨ws, c₁, heq, hd⟩ | ⟨e, done, text, v, rest, ws, c₁, c₂, -, -, -, heq⟩ :=
    loadEntries_cases (@Deposits.none l thread (c.register l.group).2) snapshot.entries
  · simp only [heq] at hload
    cases hload
    exact ⟨rfl, ws, hd⟩
  · simp only [heq] at hload
    cases hload

theorem Deposits.load {ws : List Written}
    (h : l.Deposits thread (c.register l.group).2 snapshot.entries ws c') :
    l.load thread snapshot c = (.ok snapshot.size, c') := by
  unfold Loader.load
  simp only [h.loadEntries]

theorem load_ok (h : c.Sound) {count : Nat}
    (hload : l.load thread snapshot c = (.ok count, c')) :
    ∃ ws, l.Standing (c.register l.group).2 c' snapshot.entries ws := by
  obtain ⟨-, ws, hd⟩ := load_deposits hload
  exact ⟨ws, hd.standing (h.register l.group)⟩

theorem Standing.rollBack {es : List (String × Value)} {ws : List Written} (h₀ : c₀.Sound)
    (h : l.Standing c₀ c es ws) (ha : c₀.registry.isAuthorized l.group = true) (thread : Nat) :
    Container.Turns l.kind c (l.rollBack thread ws c) fun p =>
      if p ∈ readPaths (es.map Prod.fst) then (c₀.at? l.kind p).map Node.repinned
      else c₀.at? l.kind p := by
  have hturns := rollBack_turns h₀ h.sound thread (h.registry_eq ▸ ha) h.distinct
    fun w hw => by
      have hmem : w.path ∈ (es.map Prod.fst).reverse := h.paths ▸ List.mem_map_of_mem hw
      obtain ⟨e, he, hpath⟩ := List.mem_map.1 (List.mem_reverse.1 hmem)
      obtain ⟨p, hp, hacc, hat⟩ := h.entry e he
      rw [hpath] at hp
      exact ⟨p, e.2, hp, h.previous w hw p hp, hacc, hat⟩
  have hmem : ∀ p, p ∈ readPaths (ws.map Written.path) ↔ p ∈ readPaths (es.map Prod.fst) := by
    intro p
    rw [h.paths, mem_readPaths, mem_readPaths]
    simp only [List.mem_reverse]
  refine hturns.congr fun p => ?_
  by_cases hp : p ∈ readPaths (es.map Prod.fst)
  · rw [if_pos hp, if_pos ((hmem p).2 hp)]
  · rw [if_neg hp, if_neg fun h => hp ((hmem p).1 h)]
    refine h.rest p fun e he hpe => hp (mem_readPaths.2 ⟨e.1, List.mem_map_of_mem he, hpe⟩)

/-- A load that fails does so at some entry. Every entry before that was
stored and taken back. -/
theorem load_error (h : c.Sound) (hload : l.load thread snapshot c = (.error e, c')) :
    ∃ done text v rest c₁, snapshot.entries = done ++ (text, v) :: rest
      ∧ l.loadEntries thread [] done (c.register l.group).2 = (.ok (), c₁)
      ∧ (l.loadEntry thread text v c₁).1 = .error e
      ∧ Container.Turns l.kind c c' fun p =>
          if p ∈ readPaths (done.map Prod.fst) then (c.at? l.kind p).map Node.repinned
          else c.at? l.kind p := by
  have h₀ : (c.register l.group).2.Sound := h.register l.group
  unfold load at hload
  obtain ⟨ws, c₁, heq, -⟩ | ⟨e', done, text, v, rest, ws, c₁, c₂, hes, hd, hfail, heq⟩ :=
    loadEntries_cases (@Deposits.none l thread (c.register l.group).2) snapshot.entries
  · simp only [heq] at hload
    cases hload
  simp only [heq] at hload
  cases hload
  have hstanding := hd.standing h₀
  obtain rfl : c₂ = c₁ := by
    obtain ⟨e', he'⟩ | ⟨p, c'', -, -, hok, -⟩ := loadEntry_cases hstanding.sound l thread text v
    · cases he'.symm.trans hfail
      rfl
    · cases hok.symm.trans hfail
  have hturns := hstanding.rollBack h₀ (Registry.isAuthorized_register _ _) thread
  refine ⟨done, text, v, rest, c₂, hes, hd.loadEntries, by rw [hfail], ?_⟩
  have hstores : ∀ k, k ≠ l.kind → (l.rollBack thread ws c₂).store k = c.store k := fun k hk =>
    (hturns.store_eq k hk).trans ((hstanding.store_eq k hk).trans (c.store_register _ k))
  have hregistry := hturns.registry_eq.trans hstanding.registry_eq
  have hat : ∀ p, (l.rollBack thread ws c₂).at? l.kind p =
      if p ∈ readPaths (done.map Prod.fst) then (c.at? l.kind p).map Node.repinned
      else c.at? l.kind p := fun p => by
    rw [hturns.at?_eq, c.at?_register]
    rfl
  -- the registration goes again if the load made it
  cases hr : (c.register l.group).1 with
  | true =>
    refine ⟨hturns.sound.unregister l.group, ?_, fun k hk => ?_, fun p => ?_⟩
    · change (l.rollBack thread ws c₂).registry.unregister l.group = c.registry
      rw [hregistry]
      exact Registry.unregister_register hr
    · exact (Container.store_unregister _ _ _).trans (hstores k hk)
    · exact (Container.at?_unregister _ _ _ _).trans (hat p)
  | false =>
    refine ⟨hturns.sound, ?_, hstores, hat⟩
    refine hregistry.trans ?_
    exact Registry.register_of_not_added hr

end Loader

end ParamStore
