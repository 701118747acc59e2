import ParamStore.Proofs.Store.Resolution

/-!
# Scopes side by side

All scopes share the nodes, the trie and the indices, and whoever writes may
make or take away the very node that another scope uses. None of this can be
seen from a scope that keeps to its own slots (`Request.KeepsTo`): what such
a request is answered, and what it makes of the slots, is decided by the
values of the scope alone (`seen_planSet`, `seen_planUnset`, `count_flush`,
`hasScope_iff`), and requests of others leave these as they are. So among
any others the scope is answered as if it were alone with the store
(`answers_alone`).

Only the refusal of an unknown path tells more, namely how much of the path
is known because of other nodes; it is compared by its cause.
-/

namespace ParamStore

/-- The cause of refusal, without what an unknown path tells of the paths
around it. -/
def StoreError.coarse : StoreError → StoreError
  | unknownPath _ _ => unknownPath "" []
  | e => e

namespace Store

/-- The answer, with a refusal told by its cause alone if a path is unknown. -/
def Answer.coarse : Answer → Answer
  | refused e => refused e.coarse
  | a => a

theorem Answer.coarse_congr {α : Type} {f : α → Answer} (hf : ∀ a, (f a).coarse = f a)
    {x y : Except StoreError α} (h : x.mapError StoreError.coarse = y.mapError StoreError.coarse) :
    (ofExcept f x).coarse = (ofExcept f y).coarse := by
  have hmap (x : Except StoreError α) :
      (ofExcept f x).coarse = ofExcept f (x.mapError StoreError.coarse) := by
    cases x with
    | error e => rfl
    | ok a => exact hf a
  rw [hmap, hmap, h]

variable {s s' : Store} {kind : Kind} {caller : Caller} {key : ScopeKey} {text : String}

/-! ## Listings of a scope -/

theorem isSome_inScope? {p : Path} :
    (s.inScope? p key).isSome = true ↔
      ∃ n, s.at? p = some n ∧ (n.inScope? key).isSome = true := by
  unfold inScope? slot?
  cases s.at? p with
  | none => simp
  | some n => simp [Node.slot?]

theorem Consistent.hasScope_iff (h : s.Consistent) :
    s.hasScope key = true ↔ ∃ p, (s.inScope? p key).isSome = true := by
  rw [hasScope, h.scopes_filled.contains_iff]
  constructor
  · rintro ⟨id, hid⟩
    obtain ⟨n, hn, hkey⟩ := (h.scopes_iff key id).1 hid
    exact ⟨n.path, isSome_inScope?.2 ⟨n, h.at?_eq_some.2 ⟨id, hn, rfl⟩, hkey⟩⟩
  · rintro ⟨p, hp⟩
    obtain ⟨n, hn, hkey⟩ := isSome_inScope?.1 hp
    obtain ⟨id, hid, -⟩ := h.at?_eq_some.1 hn
    exact ⟨id, (h.scopes_iff key id).2 ⟨n, hid, hkey⟩⟩

/-- The value of a scope at the node `id`. -/
def heldAt? (s : Store) (key : ScopeKey) (id : NodeId) : Option Parameter :=
  (s.nodes.find? id).bind fun n => n.inScope? key

/-- A walk that visits no node twice drops what it finds. -/
theorem count_flushNodes (key : ScopeKey) {ids : List NodeId} (hids : ids.Nodup) (s : Store) :
    (flushNodes key ids s).1 = (ids.filterMap (s.heldAt? key)).length := by
  induction ids generalizing s with
  | nil => rfl
  | cons id₀ ids ih =>
    obtain ⟨hid₀, hids⟩ := List.nodup_cons.1 hids
    obtain ⟨s₁, hcount, hnodes⟩ : ∃ s₁ : Store,
        (flushNodes key (id₀ :: ids) s).1
            = (flushNodes key ids (s₁.prune id₀)).1 + (s.heldAt? key id₀).toList.length
          ∧ ∀ id, id₀ ≠ id → s₁.nodes.find? id = s.nodes.find? id := by
      unfold heldAt?
      cases hn : s.nodes.find? id₀ with
      | none => exact ⟨s, by simp [flushNodes, hn], fun _ _ => rfl⟩
      | some n =>
        refine ⟨s.update id₀ (withoutScope key n), ?_, fun id hid => ?_⟩
        · simp [flushNodes, hn, withoutScope, Node.clearLocal]
        · rw [update, Table.find?_insert, if_neg hid]
    have hrest : ids.filterMap ((s₁.prune id₀).heldAt? key) = ids.filterMap (s.heldAt? key) := by
      refine List.filterMap_congr fun id hid => ?_
      have hne : id₀ ≠ id := fun heq => hid₀ (heq ▸ hid)
      rw [heldAt?, nodes_prune, if_neg hne, hnodes id hne, heldAt?]
    rw [hcount, ih hids, hrest, List.filterMap_cons]
    cases s.heldAt? key id₀ <;> simp

/-- A flush drops one value for each node that the index lists. -/
theorem Consistent.length_ids_flush (h : s.Consistent) (key : ScopeKey) :
    (s.flush key).1 = (s.scopes.ids key).length := by
  refine (count_flushNodes key (Index.nodup_ids s.scopes key) _).trans ?_
  refine List.filterMap_length_eq_length.2 fun id hid => ?_
  obtain ⟨n, hn, hkey⟩ := (h.scopes_iff key id).1 (Index.mem_ids.1 hid)
  simpa [heldAt?, hn] using hkey

/-- A flush drops one value for each path that the scope lists. -/
theorem Consistent.count_flush (h : s.Consistent) (key : ScopeKey) :
    (s.flush key).1 = (s.scopePaths key).length := by
  rw [h.length_ids_flush, scopePaths, pathsOf, sortPaths, List.length_mergeSort]
  refine (List.filterMap_length_eq_length.2 fun id hid => ?_).symm
  obtain ⟨n, hn, -⟩ := (h.scopes_iff key id).1 (Index.mem_ids.1 hid)
  simp [hn]

/-! ## What a request sees of its scope -/

theorem setLocal_seen (n : Node) (key : ScopeKey) (p : Parameter) :
    (n.setLocal key p).map (fun r => (r.1, r.2.inScope? key)) =
      if (n.inScope? key).any Parameter.readOnly then .error (.readOnly n.path)
      else .ok (p.toScope, some p.toScope) := by
  have hnew : (n.locals.insert key p.toScope).find? key = some p.toScope := by
    rw [Table.find?_insert, if_pos rfl]
  unfold Node.setLocal
  split
  · rfl
  · simp only [Except.map, Node.inScope?, hnew]

theorem unsetLocal_seen (n : Node) (key : ScopeKey) (force : Bool) :
    (n.unsetLocal key force).map (fun r => (r.1, r.2.inScope? key)) =
      if (n.inScope? key).any fun q => !force && !q.removable then .error (.notRemovable n.path)
      else .ok (n.inScope? key, none) := by
  have hgone : (n.locals.erase key).find? key = none := by
    rw [Table.find?_erase, if_pos rfl]
  unfold Node.unsetLocal
  split
  · rfl
  · simp only [Except.map, Node.inScope?, hgone]

/-- What a scope sees of a plan: why it is refused, or its path, its answer
and the value of the scope in the node that results. -/
def seen {α : Type} (key : ScopeKey) (plan : Except StoreError (Path × α × Node)) :
    Except StoreError (Path × α × Option Parameter) :=
  (plan.map fun r => (r.1, r.2.1, r.2.2.inScope? key)).mapError .coarse

theorem seen_map {α : Type} (key : ScopeKey) (path : Path) (x : Except StoreError (α × Node)) :
    seen key (x.map fun r => (path, r)) =
      ((x.map fun r => (r.1, r.2.inScope? key)).map (path, ·)).mapError .coarse := by
  cases x <;> rfl

/-- A set in a scope sees the value of the scope at its path, and nothing
else of the store. -/
theorem seen_planSet (h : s.Consistent) {o : SetOptions} (ho : o.shared = false) (input : Input) :
    seen caller.scope (s.planSet kind caller text input o) =
      match kind.coerce input with
      | .error e => .error e.coarse
      | .ok p =>
        if o.freeze then .error .freezeInScope
        else match readPath text with
          | .error e => .error e.coarse
          | .ok path =>
            if (s.inScope? path caller.scope).any Parameter.readOnly then .error (.readOnly path)
            else .ok (path, p.toScope, some p.toScope) := by
  unfold planSet
  rw [ho]
  cases kind.coerce input with
  | error e => rfl
  | ok p =>
    cases o.freeze with
    | true => rfl
    | false =>
      cases readPath text with
      | error e => rfl
      | ok path =>
        have hvalue : ((s.at? path).getD (.fresh path)).inScope? caller.scope
            = s.inScope? path caller.scope := slot?_getD s path (.scope caller.scope)
        simp only [Bool.not_false, Bool.and_false, Bool.false_eq_true, if_false, seen_map,
          setNode, ho, setLocal_seen, hvalue, h.path_getD]
        split <;> rfl

/-- An unset in a scope that does not fall back sees the value of the scope
at its path, and nothing else of the store. -/
theorem seen_planUnset (h : s.Consistent) {o : UnsetOptions} (ho : o.shared = false)
    (hf : o.fallback = false) :
    seen caller.scope (s.planUnset kind caller text o) =
      if o.unfreeze then .error .unfreezeInScope
      else match readPath text with
        | .error e => .error e.coarse
        | .ok path =>
          match s.inScope? path caller.scope with
          | none => .error (.unknownPath "" [])
          | some q =>
            if !o.force && !q.removable then .error (.notRemovable path)
            else .ok (path, some q, none) := by
  have hslot (n : Node) : unsetsShared? n caller.scope o
      = if (n.inScope? caller.scope).isSome then some false else none := by
    simp [unsetsShared?, ho, hf]
  unfold planUnset
  rw [ho]
  cases o.unfreeze with
  | true => rfl
  | false =>
    simp only [Bool.not_false, Bool.and_false, Bool.false_eq_true, if_false]
    cases hread : readPath text with
    | error e => simp [locate, hread, bind, Except.bind, seen, Except.map, Except.mapError]
    | ok path =>
      cases hn : s.at? path with
      | none =>
        simp [locate_of_none hread hn, inScope?, slot?, hn, seen, Except.map, Except.mapError,
          StoreError.coarse]
      | some n =>
        obtain ⟨id, hid⟩ := locate_of_at? hread hn
        have hvalue : s.inScope? path caller.scope = n.inScope? caller.scope := by
          rw [inScope?, slot?, hn]
          rfl
        simp only [hid, hvalue, unsetNode, hslot, seen_map, h.path_at? hn]
        cases hq : n.inScope? caller.scope with
        | none => rfl
        | some q =>
          simp only [Option.isSome_some, if_true, unsetLocal_seen, hq, h.path_at? hn]
          simp only [Option.any_some]
          split <;> rfl

/-! ## What a request does to its scope -/

/-- The reply answers what was planned and, in a scope, changes the value at
the path of the plan and no other. -/
structure CarriesOut {α : Type} (key : ScopeKey) (s : Store)
    (plan : Except StoreError (Path × α × Node)) (reply : Reply Store α) : Prop where
  answer : reply.1 = plan.map (·.2.1)
  values : ∀ q, reply.2.inScope? q key =
    match seen key plan with
    | .ok (p, _, v) => if p = q then v else s.inScope? q key
    | .error _ => s.inScope? q key

section CarriesOut

variable {α : Type} {plan plan' : Except StoreError (Path × α × Node)}
  {reply reply' : Reply Store α}

theorem CarriesOut.of_error {e : StoreError} (hplan : plan = .error e) :
    CarriesOut key s plan (.error e, s) := by
  subst hplan
  exact ⟨rfl, fun _ => rfl⟩

theorem CarriesOut.of_ok {p : Path} {a : α} {n' : Node} {m : Option Node}
    (hplan : plan = .ok (p, a, n')) (hok : reply.1 = .ok a)
    (hat : ∀ q, reply.2.at? q = if p = q then m else s.at? q)
    (hm : (m.bind fun n => n.inScope? key) = n'.inScope? key) : CarriesOut key s plan reply := by
  subst hplan
  refine ⟨hok, fun q => ?_⟩
  change (reply.2.at? q).bind (fun n => n.inScope? key) = if p = q then n'.inScope? key else _
  rw [hat]
  split
  · exact hm
  · rfl

/-- Where the plans look alike to a scope, so do the replies. -/
theorem CarriesOut.congr (h : CarriesOut key s plan reply) (h' : CarriesOut key s' plan' reply')
    (hseen : seen key plan = seen key plan') (hin : ∀ q, s.inScope? q key = s'.inScope? q key) :
    reply.1.mapError StoreError.coarse = reply'.1.mapError StoreError.coarse
      ∧ ∀ q, reply.2.inScope? q key = reply'.2.inScope? q key := by
  have hanswer (plan : Except StoreError (Path × α × Node)) :
      (plan.map (·.2.1)).mapError StoreError.coarse = (seen key plan).map (·.2.1) := by
    cases plan <;> rfl
  refine ⟨?_, fun q => ?_⟩
  · rw [h.answer, h'.answer, hanswer, hanswer, hseen]
  · rw [h.values, h'.values, hseen, hin]

end CarriesOut

theorem carriesOut_set (h : s.Consistent) (key : ScopeKey) (kind : Kind) (caller : Caller)
    (text : String) (input : Input) (o : SetOptions) :
    CarriesOut key s (s.planSet kind caller text input o) (s.set kind caller text input o) := by
  obtain ⟨e, hplan, heq⟩ | ⟨p, stored, n', hplan, hok, hy⟩ := set_cases kind caller h text input o
  · rw [heq]
    exact .of_error hplan
  · exact .of_ok hplan hok hy.at?_eq rfl

theorem carriesOut_unset (h : s.Consistent) (key : ScopeKey) (kind : Kind) (caller : Caller)
    (text : String) (o : UnsetOptions) :
    CarriesOut key s (s.planUnset kind caller text o) (s.unset kind caller text o) := by
  obtain ⟨e, hplan, heq⟩ | ⟨p, removed, n', hplan, hok, hy⟩ := unset_cases kind caller h text o
  · rw [heq]
    exact .of_error hplan
  · exact .of_ok hplan hok hy.at?_eq (n'.slot?_kept (.scope key))

/-! ## One request -/

/-- The requests of a scope that are about its own slots alone. -/
def Request.KeepsTo (key : ScopeKey) : Request → Prop
  | .set _ _ o => o.shared = false
  | .unset _ o => o.shared = false ∧ o.fallback = false
  | .get _ o | .has _ o => o.exact = true ∧ o.shared = false ∧ o.fallback = false
  | .dictionary start shared fallback =>
    readTokens start = .ok [] ∧ shared = false ∧ fallback = false
  | .flush => True
  | .scopePaths key' | .hasScope key' => key' = key
  | _ => False

section Alike

variable (h : s.Consistent) (h' : s'.Consistent)
  (hin : ∀ p, s.inScope? p caller.scope = s'.inScope? p caller.scope)

include h h' hin

theorem scopePaths_alike : s.scopePaths caller.scope = s'.scopePaths caller.scope :=
  h.scopePaths_congr h' hin

omit h h' in
theorem seen?_alike (p : Path) :
    s.seen? caller.scope false false p = s'.seen? caller.scope false false p := by
  rw [seen?_eq, seen?_eq]
  exact congrArg (·.or none) (hin p)

omit h h' in
theorem get_alike {o : LookupOptions} (he : o.exact = true) (ho : o.shared = false)
    (hf : o.fallback = false) : s.get caller text o = s'.get caller text o := by
  rw [get_exact s caller text he, get_exact s' caller text he, ho, hf]
  exact congrArg (Except.map · (readPath text)) (funext (seen?_alike hin))

theorem dictionary_alike (hstart : readTokens text = .ok []) :
    s.dictionary caller text false false = s'.dictionary caller text false false := by
  rw [dictionary_eq s caller hstart, dictionary_eq s' caller hstart]
  exact congrArg Except.ok (h.table_entriesFrom h'.toTraced (seen?_alike hin) [])

/-- A request that keeps to its scope is answered by the values of the scope,
and changes them by these alone. -/
theorem serve_alike (kind : Kind) {r : Request} (hr : r.KeepsTo caller.scope) :
    (s.serve kind caller r).1.coarse = (s'.serve kind caller r).1.coarse
      ∧ ∀ p, (s.serve kind caller r).2.inScope? p caller.scope
        = (s'.serve kind caller r).2.inScope? p caller.scope := by
  cases r with
  | set text input o =>
    have hseen : seen caller.scope (s.planSet kind caller text input o)
        = seen caller.scope (s'.planSet kind caller text input o) := by
      rw [seen_planSet h hr, seen_planSet h' hr]
      simp only [hin]
    obtain ⟨hanswer, hvalues⟩ := (carriesOut_set h _ kind caller text input o).congr
      (carriesOut_set h' _ kind caller text input o) hseen hin
    exact ⟨Answer.coarse_congr (fun _ => rfl) hanswer, hvalues⟩
  | unset text o =>
    have hseen : seen caller.scope (s.planUnset kind caller text o)
        = seen caller.scope (s'.planUnset kind caller text o) := by
      rw [seen_planUnset h hr.1 hr.2, seen_planUnset h' hr.1 hr.2]
      simp only [hin]
    obtain ⟨hanswer, hvalues⟩ := (carriesOut_unset h _ kind caller text o).congr
      (carriesOut_unset h' _ kind caller text o) hseen hin
    exact ⟨Answer.coarse_congr (fun _ => rfl) hanswer, hvalues⟩
  | flush =>
    have hcount : (s.flush caller.scope).1 = (s'.flush caller.scope).1 := by
      rw [h.count_flush, h'.count_flush, scopePaths_alike h h' hin]
    refine ⟨congrArg (fun n => (Answer.count n).coarse) hcount, fun p => ?_⟩
    exact (slot?_flush h caller.scope _ p).trans
      ((if_pos rfl).trans ((slot?_flush h' caller.scope _ p).trans (if_pos rfl)).symm)
  | get text o =>
    refine ⟨congrArg (fun x => (Answer.ofExcept .found x).coarse) ?_, hin⟩
    exact get_alike hin hr.1 hr.2.1 hr.2.2
  | has text o =>
    refine ⟨congrArg (fun x => (Answer.ofExcept .flag (Option.isSome <$> x)).coarse) ?_, hin⟩
    exact get_alike hin hr.1 hr.2.1 hr.2.2
  | dictionary start shared fallback =>
    obtain ⟨hstart, rfl, rfl⟩ := hr
    refine ⟨congrArg (fun x => (Answer.ofExcept .table x).coarse) ?_, hin⟩
    exact dictionary_alike h h' hin hstart
  | scopePaths key =>
    obtain rfl := hr
    exact ⟨congrArg (fun ps => (Answer.paths ps).coarse) (scopePaths_alike h h' hin), hin⟩
  | hasScope key =>
    obtain rfl := hr
    refine ⟨congrArg (fun b => (Answer.flag b).coarse) (Bool.eq_iff_iff.2 ?_), hin⟩
    rw [h.hasScope_iff, h'.hasScope_iff]
    simp only [hin]
  | clearFrozen | owner | isFrozen | groupPaths | groupNames | paths | size => exact hr.elim

end Alike

/-! ## Many requests -/

/-- What the callers of one scope are answered, among the answers to all. -/
def answersTo (kind : Kind) (key : ScopeKey) : Store → List (Caller × Request) → List Answer
  | _, [] => []
  | s, c :: calls =>
    let (answer, s) := s.serve kind c.1 c.2
    if c.1.scope = key then answer :: answersTo kind key s calls else answersTo kind key s calls

theorem answersTo_alike (h : s.Consistent) (h' : s'.Consistent) (kind : Kind)
    (hin : ∀ p, s.inScope? p key = s'.inScope? p key) {calls : List (Caller × Request)}
    (hkeeps : ∀ c ∈ calls, c.1.scope = key → c.2.KeepsTo key) :
    (answersTo kind key s calls).map Answer.coarse
      = (answersTo kind key s' (calls.filter fun c => c.1.scope = key)).map Answer.coarse := by
  induction calls generalizing s s' with
  | nil => rfl
  | cons c calls ih =>
    obtain ⟨hc, hrest⟩ := List.forall_mem_cons.1 hkeeps
    have hnext := (consistent_serve h kind c.1 c.2).1
    by_cases hkey : c.1.scope = key
    · obtain ⟨hanswer, hvalues⟩ := serve_alike h h' (hkey ▸ hin) kind (hkey ▸ hc hkey)
      rw [List.filter_cons_of_pos (by simpa using hkey)]
      simp only [answersTo, if_pos hkey, List.map_cons]
      rw [hanswer, ih hnext (consistent_serve h' kind c.1 c.2).1 (hkey ▸ hvalues) hrest]
    · have hvalues : ∀ p, (s.serve kind c.1 c.2).2.inScope? p key = s'.inScope? p key := fun p =>
        (inScope?_serve h c.2 (Ne.symm hkey) p).trans (hin p)
      rw [List.filter_cons_of_neg (by simpa using hkey)]
      simp only [answersTo, if_neg hkey]
      exact ih hnext h' hvalues hrest

/-- A scope that keeps to its own slots is answered as if it were alone with
the store, whatever other scopes ask for in between: it gets the answers,
one after the other, that it gets when nobody else asks for anything. -/
theorem answers_alone (kind : Kind) (key : ScopeKey) (calls : List (Caller × Request))
    (hkeeps : ∀ c ∈ calls, c.1.scope = key → c.2.KeepsTo key) :
    (answersTo kind key .empty calls).map Answer.coarse
      = (answersTo kind key .empty (calls.filter fun c => c.1.scope = key)).map Answer.coarse :=
  answersTo_alike .empty .empty kind (fun _ => rfl) hkeeps

/-- A thread that may share under any group. -/
def sharer (thread : Nat) : Caller := ⟨⟨thread, 0⟩, "shell", fun _ => true⟩

/-- Thread 0 keeps to its scope, while thread 1 makes the node that both use
before it, freezes and releases it, and makes another one that thread 0 then
asks for. -/
def inBetween : List (Caller × Request) :=
  [(sharer 1, .set "dir" (.bare (.text "/")) { shared := true, freeze := true }),
    sets 0 "dir" "/home",
    (sharer 1, .unset "dir" { shared := true, unfreeze := true }),
    (guest 0, .get "dir" { exact := true, fallback := false }),
    (sharer 1, .set "prompt.left" (.bare (.text ">")) { shared := true }),
    sets 1 "dir" "/tmp",
    (guest 0, .unset "prompt.left" { fallback := false }),
    (guest 0, .dictionary "" false false),
    (guest 0, .scopePaths ⟨0, 0⟩),
    (sharer 1, .clearFrozen "shell"),
    (guest 0, .flush),
    (sharer 1, .flush),
    (guest 0, .hasScope ⟨0, 0⟩)]

theorem answers_alone_in_between :
    (∀ c ∈ inBetween, c.1.scope = ⟨0, 0⟩ → c.2.KeepsTo ⟨0, 0⟩)
      ∧ (answersTo .var ⟨0, 0⟩ .empty inBetween).length = 7
      ∧ (answersTo .var ⟨0, 0⟩ .empty inBetween).map Answer.coarse
        = (answersTo .var ⟨0, 0⟩ .empty
            (inBetween.filter fun c => c.1.scope = ⟨0, 0⟩)).map Answer.coarse := by
  have hroot : readTokens "" = .ok [] := rfl
  have hkeeps : ∀ c ∈ inBetween, c.1.scope = ⟨0, 0⟩ → c.2.KeepsTo ⟨0, 0⟩ := by
    simp [inBetween, sets, guest, sharer, Request.KeepsTo, hroot]
  exact ⟨hkeeps, by decide +kernel, answers_alone .var ⟨0, 0⟩ inBetween hkeeps⟩

end Store

end ParamStore
