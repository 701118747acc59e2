import ParamStore.Proofs.Store.Diagnosis
import ParamStore.Proofs.Store.Sweep

/-!
# What a store is to its callers

Callers see the nodes at their paths and nothing else: not the identifiers,
not what was stored once and is gone, and not the order in which an index is
visited. Two stores with the same contents give the same answer to every
request, and have the same contents afterwards (`serve_congr`); visiting the
nodes of an index in another order changes neither (`Serves.eq_serve`). So
nothing that is asked of them later tells them apart (`contents_suffice`).
-/

namespace ParamStore

namespace Store

variable {s s' t t' : Store} {kind : Kind} {caller : Caller} {text : String}

/-! ## Contents -/

/-- The stores have nodes at the same paths, and the nodes at a path hold the
same values, under the same owner and the same pin. -/
structure SameContents (s s' : Store) : Prop where
  paths : ∀ p, (s.at? p).isSome = (s'.at? p).isSome
  nodes : ∀ p n n', s.at? p = some n → s'.at? p = some n' →
    n.shared = n'.shared ∧ n.owner = n'.owner ∧ n.pin = n'.pin
      ∧ ∀ key, n.inScope? key = n'.inScope? key

theorem sameContents_iff (h : s.Traced) (h' : s'.Traced) :
    s.SameContents s' ↔ ∀ p, s.at? p = s'.at? p := by
  constructor
  · intro hsame p
    have hp := hsame.paths p
    cases hn : s.at? p with
    | none =>
      rw [hn] at hp
      exact (Option.isSome_eq_false_iff.1 hp.symm |> Option.isNone_iff_eq_none.1).symm
    | some n =>
      rw [hn] at hp
      obtain ⟨n', hn'⟩ := Option.isSome_iff_exists.1 hp.symm
      obtain ⟨hshared, howner, hpin, hlocals⟩ := hsame.nodes p n n' hn hn'
      have hpath : n.path = n'.path := (h.path_at? hn).trans (h'.path_at? hn').symm
      have htable : n.locals = n'.locals := Table.ext hlocals
      rw [hn']
      obtain ⟨path, shared, locals, owner, pin⟩ := n
      obtain ⟨path', shared', locals', owner', pin'⟩ := n'
      cases hshared
      cases howner
      cases hpin
      cases hpath
      cases htable
      rfl
  · intro hat
    refine ⟨fun p => by rw [hat], fun p n n' hn hn' => ?_⟩
    obtain rfl : n = n' := Option.some.inj (hn.symm.trans ((hat p).trans hn'))
    exact ⟨rfl, rfl, rfl, fun _ => rfl⟩

/-! ## Listings of the nodes -/

/-- The nodes of a store tell its contents, whatever their identifiers are. -/
theorem Traced.sameContents (h : s.Traced) (h' : s'.Traced)
    (hns : s.nodes.values.Perm s'.nodes.values) : s.SameContents s' :=
  (sameContents_iff h h').2 fun p => Option.ext fun n => by rw [h.at?_iff, h'.at?_iff, hns.mem_iff]

theorem Traced.nodup_values (h : s.Traced) : s.nodes.values.Nodup := by
  refine List.pairwise_map.2 (s.nodes.ascending.imp_of_mem fun {e e'} he he' hlt heq => ?_)
  have hid := h.id_unique (Table.find?_eq_some_iff.2 he) (Table.find?_eq_some_iff.2 he')
    (congrArg Node.path heq)
  exact Nat.lt_irrefl _ (hid ▸ hlt)

theorem Consistent.mem_groupNames (h : s.Consistent) {g : Group} :
    g ∈ s.groupNames ↔ ∃ p n, s.at? p = some n ∧ n.owner = some g := by
  rw [groupNames, Table.mem_keys, h.groups_filled.contains_iff]
  constructor
  · rintro ⟨id, hid⟩
    obtain ⟨n, hn, ho⟩ := (h.groups_iff g id).1 hid
    exact ⟨n.path, n, h.at?_eq_some.2 ⟨id, hn, rfl⟩, ho⟩
  · rintro ⟨p, n, hn, ho⟩
    obtain ⟨id, hid, -⟩ := h.at?_eq_some.1 hn
    exact ⟨id, (h.groups_iff g id).2 ⟨n, hid, ho⟩⟩

/-! ## The same contents -/

section Alike

variable (h : s.Consistent) (h' : s'.Consistent) (hat : ∀ p, s.at? p = s'.at? p)

include hat

theorem begins_congr (start : List String) : s.Begins start ↔ s'.Begins start := by
  simp only [Begins, hat]

theorem resolvedAlike (start tokens : List String) : ResolvedAlike s s' start tokens := by
  induction tokens generalizing start with
  | nil => trivial
  | cons token tokens ih =>
    refine ⟨fun k => ?_, fun k _ => ih _⟩
    simp only [Means, begins_congr hat]

theorem seenAlike (key : ScopeKey) : SeenAlike key s s' := fun p shared => by
  unfold slot?
  rw [hat]

theorem planSet_congr (kind : Kind) (caller : Caller) (text : String) (input : Input)
    (o : SetOptions) :
    s.planSet kind caller text input o = s'.planSet kind caller text input o := by
  unfold planSet
  simp only [hat]

include h h'

theorem locate_congr : (s.locate text).map Prod.snd = (s'.locate text).map Prod.snd := by
  cases hp : readPath text with
  | error e =>
    unfold locate
    rw [hp]
    rfl
  | ok p =>
    cases hn : s.at? p with
    | none =>
      obtain ⟨start, token, hr, he⟩ := h.toTraced.locate_none hp hn
      obtain ⟨start', token', hr', he'⟩ := h'.toTraced.locate_none hp (hat p ▸ hn)
      obtain ⟨rfl, rfl⟩ := hr.unique (hr'.congr fun start => (begins_congr hat start).symm)
      rw [he, he']
    | some n =>
      obtain ⟨id, hid⟩ := locate_of_at? hp hn
      obtain ⟨id', hid'⟩ := locate_of_at? hp (hat p ▸ hn)
      rw [hid, hid']
      rfl

/-- What is asked about the node at exactly a path. -/
theorem look_congr {α : Type} (text : String) (f : Node → α) :
    (fun found => f found.2) <$> s.locate text = (fun found => f found.2) <$> s'.locate text := by
  have hmap (s : Store) :
      (fun found => f found.2) <$> s.locate text = ((s.locate text).map Prod.snd).map f := by
    cases s.locate text <;> rfl
  rw [hmap, hmap, locate_congr h h' hat]

theorem set_congr (kind : Kind) (caller : Caller) (text : String) (input : Input)
    (o : SetOptions) :
    (s.set kind caller text input o).1 = (s'.set kind caller text input o).1
      ∧ ∀ p, (s.set kind caller text input o).2.at? p
        = (s'.set kind caller text input o).2.at? p := by
  have heq := planSet_congr hat kind caller text input o
  cases hplan : s.planSet kind caller text input o with
  | error e =>
    rw [set_of_plan_error hplan, set_of_plan_error (heq ▸ hplan)]
    exact ⟨rfl, hat⟩
  | ok r =>
    obtain ⟨hok, hy⟩ := set_of_plan_ok h hplan
    obtain ⟨hok', hy'⟩ := set_of_plan_ok h' (heq ▸ hplan)
    exact ⟨hok.trans hok'.symm, fun p => by rw [hy.at?_eq, hy'.at?_eq, hat]⟩

theorem unset_congr (kind : Kind) (caller : Caller) (text : String) (o : UnsetOptions) :
    (s.unset kind caller text o).1 = (s'.unset kind caller text o).1
      ∧ ∀ p, (s.unset kind caller text o).2.at? p = (s'.unset kind caller text o).2.at? p := by
  have heq : s.planUnset kind caller text o = s'.planUnset kind caller text o := by
    rw [planUnset_eq, planUnset_eq, locate_congr h h' hat]
  cases hplan : s.planUnset kind caller text o with
  | error e =>
    rw [unset_of_plan_error hplan, unset_of_plan_error (heq ▸ hplan)]
    exact ⟨rfl, hat⟩
  | ok r =>
    obtain ⟨hok, hy⟩ := unset_of_plan_ok h hplan
    obtain ⟨hok', hy'⟩ := unset_of_plan_ok h' (heq ▸ hplan)
    exact ⟨hok.trans hok'.symm, fun p => by rw [hy.at?_eq, hy'.at?_eq, hat]⟩

theorem scopePaths_eq (key : ScopeKey) : s.scopePaths key = s'.scopePaths key :=
  h.scopePaths_congr h' fun p => by rw [hat]

theorem values_perm : s.nodes.values.Perm s'.nodes.values := by
  refine (List.perm_ext_iff_of_nodup h.nodup_values h'.nodup_values).2 fun n => ?_
  rw [h.mem_values, h'.mem_values, hat]

theorem groupNames_congr : s.groupNames = s'.groupNames := by
  refine Trie.eq_of_mem_iff (List.pairwise_map.2 s.groups.ascending)
    (List.pairwise_map.2 s'.groups.ascending) fun g => ?_
  change g ∈ s.groupNames ↔ g ∈ s'.groupNames
  rw [h.mem_groupNames, h'.mem_groupNames]
  simp only [hat]

/-- Stores with the same contents give every request the same answer, and
have the same contents afterwards. -/
theorem serve_congr (kind : Kind) (caller : Caller) (r : Request) :
    (s.serve kind caller r).1 = (s'.serve kind caller r).1
      ∧ ∀ p, (s.serve kind caller r).2.at? p = (s'.serve kind caller r).2.at? p := by
  have hresolved (text : String) (tokens : List String) (_ : readTokens text = .ok tokens) :=
    resolvedAlike hat [] tokens
  cases r with
  | set text input o =>
    obtain ⟨hanswer, hat'⟩ := set_congr h h' hat kind caller text input o
    exact ⟨congrArg (Answer.ofExcept .stored) hanswer, hat'⟩
  | unset text o =>
    obtain ⟨hanswer, hat'⟩ := unset_congr h h' hat kind caller text o
    exact ⟨congrArg (Answer.ofExcept .found) hanswer, hat'⟩
  | flush =>
    have hcount : (s.flush caller.scope).1 = (s'.flush caller.scope).1 := by
      rw [h.fst_flush, h'.fst_flush]
      exact (values_perm h h' hat).countP_eq _
    refine ⟨congrArg Answer.count hcount, fun p => ?_⟩
    change (s.flush caller.scope).2.at? p = (s'.flush caller.scope).2.at? p
    rw [(yields_flush h _).at?_eq, (yields_flush h' _).at?_eq, hat]
  | clearFrozen g =>
    have hcount : (s.clearFrozen g).1 = (s'.clearFrozen g).1 := by
      rw [h.fst_clearFrozen, h'.fst_clearFrozen]
      exact congrArg Except.ok ((values_perm h h' hat).countP_eq _)
    refine ⟨congrArg (Answer.ofExcept .count) hcount, fun p => ?_⟩
    change (s.clearFrozen g).2.at? p = (s'.clearFrozen g).2.at? p
    rw [(yields_clearFrozen h g).2.at?_eq, (yields_clearFrozen h' g).2.at?_eq, hat]
  | get text o =>
    exact ⟨congrArg (Answer.ofExcept .found) (get_congr (seenAlike hat _) h.toTraced h'.toTraced
      (hresolved text) o), hat⟩
  | has text o =>
    exact ⟨congrArg (Answer.ofExcept .flag) (has_congr (seenAlike hat _) h.toTraced h'.toTraced
      (hresolved text) o), hat⟩
  | dictionary start shared fallback =>
    exact ⟨congrArg (Answer.ofExcept .table) (dictionary_congr (seenAlike hat _) h.toTraced
      h'.toTraced (hresolved start) shared fallback), hat⟩
  | owner text =>
    exact ⟨congrArg (Answer.ofExcept .owner) (look_congr h h' hat text Node.owner), hat⟩
  | isFrozen text =>
    exact ⟨congrArg (Answer.ofExcept .flag) (look_congr h h' hat text Node.isFrozen), hat⟩
  | groupPaths g => exact ⟨congrArg Answer.paths (h.groupPaths_congr h' hat g), hat⟩
  | scopePaths key => exact ⟨congrArg Answer.paths (scopePaths_eq h h' hat key), hat⟩
  | hasScope key =>
    refine ⟨congrArg Answer.flag (Bool.eq_iff_iff.2 ?_), hat⟩
    rw [h.hasScope_iff, h'.hasScope_iff]
    simp only [inScope?, slot?, hat]
  | groupNames => exact ⟨congrArg Answer.groups (groupNames_congr h h' hat), hat⟩
  | paths => exact ⟨congrArg Answer.paths (sortPaths_perm ((values_perm h h' hat).map _)), hat⟩
  | size =>
    refine ⟨congrArg Answer.count ?_, hat⟩
    simpa [Store.size, Table.size, Table.values] using (values_perm h h' hat).length_eq

end Alike

/-! ## Indices visited in any order -/

/-- What a request may be answered, and what store it may leave, if the nodes
that an index lists are visited in any order. -/
inductive Serves (kind : Kind) (caller : Caller) (s : Store) : Request → Answer → Store → Prop where
  | inOrder (r : Request) :
    Serves kind caller s r (s.serve kind caller r).1 (s.serve kind caller r).2
  | flush {ids : List NodeId} (h : ids.Perm (s.scopes.ids caller.scope)) :
    Serves kind caller s .flush
      (.count (flushNodes caller.scope ids { s with scopes := s.scopes.erase caller.scope }).1)
      (flushNodes caller.scope ids { s with scopes := s.scopes.erase caller.scope }).2
  | clearFrozen {g : Group} {ids : List NodeId} (h : ids.Perm (s.groups.ids g)) :
    Serves kind caller s (.clearFrozen g) (.ofExcept .count (releaseNodes g ids s).1)
      (releaseNodes g ids s).2
  | groupPaths {g : Group} {ids : List NodeId} (h : ids.Perm (s.groups.ids g)) :
    Serves kind caller s (.groupPaths g) (.paths (s.pathsOf ids)) s
  | scopePaths {key : ScopeKey} {ids : List NodeId} (h : ids.Perm (s.scopes.ids key)) :
    Serves kind caller s (.scopePaths key) (.paths (s.pathsOf ids)) s
  | paths {ns : List Node} (h : ns.Perm s.nodes.values) :
    Serves kind caller s .paths (.paths (sortPaths (ns.map Node.path))) s

/-- In whatever order the nodes are visited, the answer is the same, and so
are the contents afterwards. -/
theorem Serves.eq_serve (h : s.Consistent) {r : Request} {a : Answer}
    (hserves : s.Serves kind caller r a t) :
    a = (s.serve kind caller r).1 ∧ t.Consistent
      ∧ ∀ p, t.at? p = (s.serve kind caller r).2.at? p := by
  cases hserves with
  | inOrder => exact ⟨rfl, (consistent_serve h kind caller r).1, fun _ => rfl⟩
  | @flush ids hids =>
    rw [flushNodes_perm h caller.scope hids]
    exact ⟨rfl, (yields_flush h caller.scope).consistent, fun _ => rfl⟩
  | @clearFrozen g ids hids =>
    rw [releaseNodes_perm h g hids]
    exact ⟨rfl, (yields_clearFrozen h g).2.consistent, fun _ => rfl⟩
  | groupPaths hids | scopePaths hids =>
    exact ⟨congrArg Answer.paths (sortPaths_perm (hids.filterMap _)), h, fun _ => rfl⟩
  | paths hns => exact ⟨congrArg Answer.paths (sortPaths_perm (hns.map _)), h, fun _ => rfl⟩

/-! ## Many requests -/

/-- What requests, each from the caller beside it, may be answered one after
the other, and what store they may leave. -/
inductive Runs (kind : Kind) : Store → List (Caller × Request) → List Answer → Store → Prop where
  | nil (s : Store) : Runs kind s [] [] s
  | cons {s t u : Store} {c : Caller × Request} {calls : List (Caller × Request)} {a : Answer}
      {as : List Answer} (first : s.Serves kind c.1 c.2 a t) (rest : Runs kind t calls as u) :
    Runs kind s (c :: calls) (a :: as) u

variable {calls calls' : List (Caller × Request)} {as as' : List Answer}

theorem exists_runs (kind : Kind) (s : Store) (calls : List (Caller × Request)) :
    ∃ as, Runs kind s calls as (run kind s calls) := by
  induction calls generalizing s with
  | nil => exact ⟨[], .nil s⟩
  | cons c calls ih =>
    obtain ⟨as, has⟩ := ih (s.serve kind c.1 c.2).2
    exact ⟨_, .cons (.inOrder c.2) has⟩

theorem Runs.consistent (h : s.Consistent) (hruns : Runs kind s calls as t) : t.Consistent := by
  induction hruns with
  | nil => exact h
  | cons first _ ih => exact ih (first.eq_serve h).2.1

theorem Runs.congr (h : s.Consistent) (h' : s'.Consistent) (hat : ∀ p, s.at? p = s'.at? p)
    (hruns : Runs kind s calls as t) (hruns' : Runs kind s' calls as' t') :
    as = as' ∧ ∀ p, t.at? p = t'.at? p := by
  induction hruns generalizing s' as' with
  | nil =>
    cases hruns'
    exact ⟨rfl, hat⟩
  | @cons s _ _ c _ _ _ first _ ih =>
    cases hruns' with | cons first' rest' =>
    obtain ⟨hanswer, hnext, hafter⟩ := first.eq_serve h
    obtain ⟨hanswer', hnext', hafter'⟩ := first'.eq_serve h'
    obtain ⟨hsame, halike⟩ := serve_congr h h' hat kind c.1 c.2
    obtain ⟨hrest, hlast⟩ := ih hnext hnext'
      (fun p => (hafter p).trans ((halike p).trans (hafter' p).symm)) rest'
    exact ⟨congrArg₂ List.cons (hanswer.trans (hsame.trans hanswer'.symm)) hrest, hlast⟩

/-- What a store answers is decided by its contents. Whatever was asked of
two stores that were empty, and in whatever order they visited the nodes of
their indices: if they have the same contents now, they give the same answers
to all that is asked of them later, and have the same contents after it. -/
theorem contents_suffice (kind : Kind) (hs : Runs kind .empty calls as s)
    (hs' : Runs kind .empty calls' as' s') (hsame : s.SameContents s')
    (later : List (Caller × Request)) :
    (∃ bs t, Runs kind s later bs t)
      ∧ ∀ bs t bs' t', Runs kind s later bs t → Runs kind s' later bs' t' →
        bs = bs' ∧ t.SameContents t' := by
  have h := hs.consistent .empty
  have h' := hs'.consistent .empty
  have hat := (sameContents_iff h.toTraced h'.toTraced).1 hsame
  refine ⟨(exists_runs kind s later).elim fun bs hbs => ⟨bs, _, hbs⟩, ?_⟩
  intro bs t bs' t' hruns hruns'
  obtain ⟨hanswers, hafter⟩ := hruns.congr h h' hat hruns'
  exact ⟨hanswers, (sameContents_iff (hruns.consistent h).toTraced
    (hruns'.consistent h').toTraced).2 hafter⟩

/-- Thread 0 sets a value. -/
def direct : List (Caller × Request) := [sets 0 "dir" "/"]

/-- Two values of thread 1 come and go before it does. -/
def detour : List (Caller × Request) :=
  [sets 1 "dim" "x", sets 1 "dot" "y", (guest 1, .flush)] ++ direct

/-- The store after the detour, if the flush visits `dot` first. -/
def detoured : Store :=
  let s := run .var .empty (detour.take 2)
  run .var (flushNodes ⟨1, 0⟩ [1, 0] { s with scopes := s.scopes.erase ⟨1, 0⟩ }).2 direct

theorem contents_suffice_detoured :
    (run .var .empty direct).nextId ≠ detoured.nextId
      ∧ (∃ as, Runs .var .empty direct as (run .var .empty direct))
      ∧ (∃ as, Runs .var .empty detour as detoured)
      ∧ (run .var .empty direct).SameContents detoured
      ∧ ∀ bs t bs' t', Runs .var (run .var .empty direct) [(guest 0, .get "d" {})] bs t →
        Runs .var detoured [(guest 0, .get "d" {})] bs' t' → bs = bs' ∧ t.SameContents t' := by
  obtain ⟨as, hdirect⟩ := exists_runs .var .empty direct
  have hvisits : [1, 0].Perm ((run .var .empty (detour.take 2)).scopes.ids ⟨1, 0⟩) := by
    decide +kernel
  have hdetour : Runs .var .empty detour _ detoured :=
    .cons (.inOrder _) (.cons (.inOrder _) (.cons (.flush hvisits) (.cons (.inOrder _) (.nil _))))
  have hsame : (run .var .empty direct).SameContents detoured :=
    (hdirect.consistent .empty).toTraced.sameContents (hdetour.consistent .empty).toTraced
      (by decide +kernel)
  exact ⟨by decide +kernel, ⟨as, hdirect⟩, ⟨_, hdetour⟩, hsame,
    (contents_suffice .var hdirect hdetour hsame _).2⟩

end Store

end ParamStore
