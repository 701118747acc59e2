import ParamStore.Proofs.Store.Lookup
import ParamStore.Proofs.Store.Slots
import ParamStore.Proofs.Trie.Refinement

/-!
# What abbreviations depend on

All scopes share one trie, so what a token may stand for depends on the paths
of all nodes, also of those at which the caller sees nothing. This is the
only way in which a look-up depends on what its caller does not see: where
two stores show a scope the same values, and the tokens of a text may stand
for the same keys in both, one after the other (`ResolvedAlike`), they give
the same answers (`get_congr`, `dictionary_congr`). What other scopes write
changes an answer at most by making a key appear or disappear where a token
is resolved (`lookups_kept`), and never where a path is written out
(`get_dotted_kept`).
-/

namespace ParamStore

namespace Table

variable {κ α : Type} [LT κ] [DecidableEq κ] [DecidableLT κ] [StrictOrder κ]

theorem find?_foldl_insert {l : List (κ × α)} (hl : ∀ e ∈ l, ∀ e' ∈ l, e.1 = e'.1 → e = e')
    (t : Table κ α) (k : κ) (a : α) :
    (l.foldl (fun t e => t.insert e.1 e.2) t).find? k = some a ↔
      (k, a) ∈ l ∨ (∀ e ∈ l, e.1 ≠ k) ∧ t.find? k = some a := by
  induction l generalizing t with
  | nil => simp
  | cons e l ih =>
    have htail : ∀ e' ∈ l, ∀ e'' ∈ l, e'.1 = e''.1 → e' = e'' := fun e' he' e'' he'' =>
      hl e' (List.mem_cons_of_mem _ he') e'' (List.mem_cons_of_mem _ he'')
    rw [List.foldl_cons, ih htail, find?_insert, List.mem_cons, List.forall_mem_cons]
    by_cases hk : e.1 = k
    · rw [if_pos hk, Option.some.injEq]
      constructor
      · rintro (hmem | ⟨-, rfl⟩)
        · exact .inl (.inr hmem)
        · exact .inl (.inl (by rw [← hk]))
      · rintro ((rfl | hmem) | ⟨⟨hne, -⟩, -⟩)
        · by_cases hlater : ∃ e' ∈ l, e'.1 = k
          · obtain ⟨e', he', hk'⟩ := hlater
            have heq := hl (k, a) List.mem_cons_self e' (List.mem_cons_of_mem _ he') hk'.symm
            exact .inl (heq ▸ he')
          · exact .inr ⟨fun e' he' hk' => hlater ⟨e', he', hk'⟩, rfl⟩
        · exact .inl hmem
        · exact absurd hk hne
    · have hne : (k, a) ≠ e := fun heq => hk (by rw [← heq])
      rw [if_neg hk]
      simp [hk, hne]

/-- A table made of pairs of which no two differ in the value alone holds
exactly these pairs. -/
theorem find?_ofList {l : List (κ × α)} (hl : ∀ e ∈ l, ∀ e' ∈ l, e.1 = e'.1 → e = e') (k : κ)
    (a : α) : (ofList l).find? k = some a ↔ (k, a) ∈ l := by
  unfold ofList
  rw [find?_foldl_insert hl]
  simp

theorem ofList_entries (t : Table κ α) : ofList t.entries = t := by
  refine Table.ext fun k => Option.ext fun a => ?_
  rw [find?_ofList (fun e he e' he' hk => ?_), find?_eq_some_iff]
  have hfind : t.find? e.1 = some e.2 := find?_eq_some_iff.2 he
  rw [hk, find?_eq_some_iff.2 he', Option.some.injEq] at hfind
  exact Prod.ext hk hfind.symm

end Table

namespace Store

variable {s s' : Store} {key : ScopeKey}

/-! ## Values -/

theorem readPath_eq_ok_iff {text : String} {p : Path} :
    readPath text = .ok p ↔ readTokens text = .ok p.tokens := by
  rw [← Path.read_eq_ok_iff, readPath]
  cases Path.read text <;> simp [Except.mapError]

/-- The value that a scope sees at a path. -/
def seen? (s : Store) (key : ScopeKey) (shared fallback : Bool) (p : Path) : Option Parameter :=
  (s.at? p).bind (visible key shared fallback)

/-- Two stores hold the same in all slots that a scope can look into. -/
def SeenAlike (key : ScopeKey) (s s' : Store) : Prop :=
  ∀ p shared, s.slot? p (.of key shared) = s'.slot? p (.of key shared)

theorem seen?_eq (s : Store) (key : ScopeKey) (shared fallback : Bool) (p : Path) :
    s.seen? key shared fallback p = (s.slot? p (.of key shared)).or
      (if fallback then s.slot? p (.of key !shared) else none) := by
  unfold seen? slot?
  cases s.at? p with
  | none => cases fallback <;> rfl
  | some n => cases shared <;> cases fallback <;> rfl

theorem SeenAlike.seen?_eq (h : SeenAlike key s s') (shared fallback : Bool) (p : Path) :
    s.seen? key shared fallback p = s'.seen? key shared fallback p := by
  rw [Store.seen?_eq, Store.seen?_eq, h p, h p]

/-- What a scope sees under the keys that a walk took. -/
theorem SeenAlike.visible_eq (hseen : SeenAlike key s s') (h : s.Traced) (h' : s'.Traced)
    (shared fallback : Bool) (ks : List String) :
    ((s.trie.get? ks).bind s.nodes.find?).bind (visible key shared fallback)
      = ((s'.trie.get? ks).bind s'.nodes.find?).bind (visible key shared fallback) := by
  by_cases hpath : ∃ p : Path, p.tokens = ks
  · obtain ⟨p, rfl⟩ := hpath
    rw [← at?_eq_bind, ← at?_eq_bind]
    exact hseen.seen?_eq shared fallback p
  · -- nothing is stored under tokens that make no path
    have hnone {s : Store} (h : s.Traced) : s.trie.get? ks = none := by
      rw [Option.eq_none_iff_forall_ne_some]
      intro id hid
      obtain ⟨n, -, hn⟩ := (h.leads ks id).1 hid
      exact hpath ⟨n.path, hn⟩
    rw [hnone h, hnone h']
    rfl

/-! ## Keys -/

/-- Whether the path of some node starts with these tokens. -/
def Begins (s : Store) (start : List String) : Prop :=
  ∃ p, (s.at? p).isSome = true ∧ start <+: p.tokens

/-- Whether a token may stand for a key after `start`: for itself, if that
is a key there, and otherwise for every key that it abbreviates. -/
def Means (s : Store) (start : List String) (token key : String) : Prop :=
  s.Begins (start ++ [key])
    ∧ (key = token ∨ Trie.abbreviates token key = true ∧ ¬ s.Begins (start ++ [token]))

/-- After `start`, each of the tokens may stand for the same keys in both
stores; those that follow one that is not resolved do not matter. -/
def ResolvedAlike (s s' : Store) : List String → List String → Prop
  | _, [] => True
  | start, token :: tokens =>
    (∀ k, s.Means start token k ↔ s'.Means start token k)
      ∧ ∀ k, (∀ k', s.Means start token k' ↔ k' = k) → ResolvedAlike s s' (start ++ [k]) tokens

/-- Some path starts with these tokens iff they lead to a level. -/
theorem Traced.begins_iff_find? (h : s.Traced) {start : List String} (hne : start ≠ []) :
    s.Begins start ↔ (s.trie.find? start).isSome = true := by
  rw [Option.isSome_iff_exists]
  constructor
  · rintro ⟨p, hp, rest, hrest⟩
    obtain ⟨n, hn⟩ := Option.isSome_iff_exists.1 hp
    obtain ⟨id, hid, rfl⟩ := h.at?_eq_some.1 hn
    have hget := (h.leads n.path.tokens id).2 ⟨n, hid, rfl⟩
    rw [← hrest, Trie.get?_append] at hget
    obtain ⟨c, hc, -⟩ := Option.bind_eq_some_iff.1 hget
    exact ⟨c, hc⟩
  · rintro ⟨c, hc⟩
    obtain ⟨rest, id, hget⟩ := h.proper.filled hne hc
    have hid : s.trie.get? (start ++ rest) = some id := by
      rw [Trie.get?_append, hc, Option.bind_some, hget]
    obtain ⟨n, hn, htokens⟩ := (h.leads _ id).1 hid
    refine ⟨n.path, ?_, rest, htokens.symm⟩
    rw [h.at?_eq_some.2 ⟨id, hn, rfl⟩]
    rfl

theorem Traced.begins_iff (h : s.Traced) {start : List String} {c : Trie NodeId}
    (hc : s.trie.find? start = some c) {k : String} : s.Begins (start ++ [k]) ↔ k ∈ c.keys := by
  rw [h.begins_iff_find? (by simp), Trie.find?_append, hc, Option.bind_some, Trie.find?_singleton,
    Trie.mem_keys, Option.isSome_iff_exists]

theorem Traced.mem_meant (h : s.Traced) {start : List String} {c : Trie NodeId}
    (hc : s.trie.find? start = some c) {token k : String} :
    k ∈ c.meant token ↔ s.Means start token k := by
  rw [Trie.mem_meant, Means, h.begins_iff hc, h.begins_iff hc]

/-- A walk goes on through the key that its first token stands for. -/
theorem Traced.walk_only (h : s.Traced) {start : List String} {c : Trie NodeId}
    (hc : s.trie.find? start = some c) {token k : String}
    (honly : ∀ k', s.Means start token k' ↔ k' = k) :
    ∃ d, s.trie.find? (start ++ [k]) = some d
      ∧ ∀ tokens, c.walk false (token :: tokens) = (d.walk false tokens).through k := by
  have hp := h.proper.find? hc
  have hmeant : c.meant token = [k] :=
    Trie.eq_of_mem_iff (hp.pairwise_meant token) (List.pairwise_singleton _ _) fun k' => by
      rw [h.mem_meant hc, honly, List.mem_singleton]
  have hk : k ∈ c.meant token := hmeant ▸ List.mem_singleton_self k
  obtain ⟨d, hd⟩ := Trie.mem_keys.1 (Trie.mem_meant.1 hk).1
  refine ⟨d, ?_, fun tokens => ?_⟩
  · rw [Trie.find?_append, hc, Option.bind_some, Trie.find?_singleton, hd]
  · rw [Trie.walk_cons hp, hmeant, Trie.Walk.choose, hd, Option.getD_some]

/-- A walk stops at a token that stands for no key. -/
theorem Traced.walk_none (h : s.Traced) {start : List String} {c : Trie NodeId}
    (hc : s.trie.find? start = some c) {token : String} (hnone : ∀ k, ¬ s.Means start token k)
    (tokens : List String) :
    c.walk false (token :: tokens) = { matched := [], candidates := [], value := none } := by
  have hmeant : c.meant token = [] := List.eq_nil_iff_forall_not_mem.2 fun k hk =>
    hnone k ((h.mem_meant hc).1 hk)
  rw [Trie.walk_cons (h.proper.find? hc), hmeant]
  rfl

/-- Where tokens are resolved alike, walks along them take the same keys and
stop at the same ones. -/
theorem ResolvedAlike.walk_eq (h : s.Traced) (h' : s'.Traced) {start tokens : List String}
    {c c' : Trie NodeId} (hc : s.trie.find? start = some c) (hc' : s'.trie.find? start = some c')
    (halike : ResolvedAlike s s' start tokens) :
    (c.walk false tokens).matched = (c'.walk false tokens).matched
      ∧ (c.walk false tokens).candidates = (c'.walk false tokens).candidates := by
  induction tokens generalizing start c c' with
  | nil => exact ⟨rfl, rfl⟩
  | cons token tokens ih =>
    obtain ⟨hmeans, hrest⟩ := halike
    have hp := h.proper.find? hc
    have hp' := h'.proper.find? hc'
    have hmeant : c.meant token = c'.meant token :=
      Trie.eq_of_mem_iff (hp.pairwise_meant token) (hp'.pairwise_meant token) fun k => by
        rw [h.mem_meant hc, h'.mem_meant hc', hmeans]
    by_cases hone : ∃ k, c.meant token = [k]
    · obtain ⟨k, hk⟩ := hone
      have honly (k' : String) : s.Means start token k' ↔ k' = k := by
        rw [← h.mem_meant hc, hk, List.mem_singleton]
      obtain ⟨d, hd, hwalk⟩ := h.walk_only hc honly
      obtain ⟨d', hd', hwalk'⟩ := h'.walk_only hc' fun k' => (hmeans k').symm.trans (honly k')
      obtain ⟨hmatched, hcand⟩ := ih hd hd' (hrest k honly)
      rw [hwalk, hwalk']
      exact ⟨congrArg (k :: ·) hmatched, hcand⟩
    · -- no key to go on through
      rw [Trie.walk_cons hp, Trie.walk_cons hp', ← hmeant]
      rcases hm : c.meant token with _ | ⟨k, _ | ⟨k', ks⟩⟩
      · exact ⟨rfl, rfl⟩
      · exact absurd ⟨k, hm⟩ hone
      · exact ⟨rfl, rfl⟩

/-! ## Dictionaries -/

/-- What a dictionary is made of: the values that a scope sees at the paths
that start with these keys. -/
def entriesFrom (s : Store) (key : ScopeKey) (shared fallback : Bool) (start : List String) :
    List (String × Parameter) :=
  (s.trie.listFrom start).filterMap fun e => do
    let n ← s.nodes.find? e.2
    let p ← visible key shared fallback n
    return (n.path.dotted, p)

theorem Traced.mem_entriesFrom (h : s.Traced) {shared fallback : Bool} {start : List String}
    {text : String} {q : Parameter} : (text, q) ∈ s.entriesFrom key shared fallback start ↔
      ∃ p, start <+: p.tokens ∧ p.dotted = text ∧ s.seen? key shared fallback p = some q := by
  simp only [entriesFrom, List.mem_filterMap, Prod.exists, h.proper.mem_listFrom, h.leads,
    Option.bind_eq_bind, Option.bind_eq_some_iff, Option.pure_def, Option.some.injEq,
    Prod.mk.injEq]
  constructor
  · rintro ⟨ts, id, ⟨hstart, n, hn, rfl⟩, m, hm, p, hp, rfl, rfl⟩
    cases hn.symm.trans hm
    refine ⟨n.path, hstart, rfl, ?_⟩
    rw [seen?, h.at?_eq_some.2 ⟨id, hn, rfl⟩, Option.bind_some, hp]
  · rintro ⟨p, hstart, rfl, hq⟩
    obtain ⟨n, hn, hvisible⟩ := Option.bind_eq_some_iff.1 hq
    obtain ⟨id, hid, rfl⟩ := h.at?_eq_some.1 hn
    exact ⟨n.path.tokens, id, ⟨hstart, n, hid, rfl⟩, n, hid, q, hvisible, rfl, rfl⟩

/-- A dictionary holds each value that the scope sees from `start` on, by
the dotted text of its path. -/
theorem Traced.find?_entriesFrom (h : s.Traced) {shared fallback : Bool} {start : List String}
    {text : String} {q : Parameter} :
    (Table.ofList (s.entriesFrom key shared fallback start)).find? text = some q ↔
      ∃ p, start <+: p.tokens ∧ p.dotted = text ∧ s.seen? key shared fallback p = some q := by
  rw [Table.find?_ofList, h.mem_entriesFrom]
  rintro ⟨text, q⟩ he ⟨text', q'⟩ he' htext
  obtain ⟨p, -, rfl, hq⟩ := h.mem_entriesFrom.1 he
  obtain ⟨p', -, rfl, hq'⟩ := h.mem_entriesFrom.1 he'
  cases Path.dotted_injective htext
  rw [Option.some.inj (hq.symm.trans hq')]

/-- A dictionary is told by what the scope sees. -/
theorem Traced.table_entriesFrom (h : s.Traced) (h' : s'.Traced) {shared fallback : Bool}
    (heq : ∀ p, s.seen? key shared fallback p = s'.seen? key shared fallback p)
    (start : List String) :
    Table.ofList (s.entriesFrom key shared fallback start)
      = Table.ofList (s'.entriesFrom key shared fallback start) := by
  refine Table.ext fun text => Option.ext fun q => ?_
  rw [h.find?_entriesFrom, h'.find?_entriesFrom]
  simp only [heq]

theorem dictionary_eq (s : Store) (caller : Caller) {text : String} {tokens : List String}
    (htokens : readTokens text = .ok tokens) (shared fallback : Bool) :
    s.dictionary caller text shared fallback =
      if (s.trie.walk false tokens).ambiguous then
        .error (ambiguity tokens (s.trie.walk false tokens))
      else if (s.trie.walk false tokens).count < tokens.length then .ok ∅
      else .ok (.ofList (s.entriesFrom caller.scope shared fallback
        (s.trie.walk false tokens).matched)) := by
  unfold dictionary
  simp only [htokens, Except.mapError, bind, Except.bind]
  split
  · rfl
  · split <;> rfl

/-! ## Look-ups -/

theorem ambiguity_congr {tokens : List String} {w w' : Trie.Walk NodeId}
    (hmatched : w.matched = w'.matched) (hcand : w.candidates = w'.candidates) :
    ambiguity tokens w = ambiguity tokens w' := by
  simp only [ambiguity, stoppedAt, Trie.Walk.count, hmatched, hcand]

theorem get_eq (s : Store) (caller : Caller) {text : String} {p : Path}
    (hpath : readPath text = .ok p) {o : LookupOptions} (ho : o.exact = false) :
    s.get caller text o =
      if (o.strict && (s.trie.walk false p.tokens).ambiguous) = true then
        .error (ambiguity p.tokens (s.trie.walk false p.tokens))
      else .ok (((s.trie.walk false p.tokens).value.bind s.nodes.find?).bind
        (visible caller.scope o.shared o.fallback)) := by
  unfold get
  simp only [hpath, ho, bind, Except.bind]
  split <;> rfl

/-- Where there is a node at the path of a text, that node is looked at, also if
the text abbreviates other paths. -/
theorem get_of_at? (s : Store) (caller : Caller) {text : String} {p : Path}
    (hpath : readPath text = .ok p) (hp : (s.at? p).isSome = true) (o : LookupOptions) :
    s.get caller text o = .ok (s.seen? caller.scope o.shared o.fallback p) := by
  obtain ⟨n, hn⟩ := Option.isSome_iff_exists.1 hp
  rw [at?_eq_bind] at hn
  obtain ⟨id, hid, hn⟩ := Option.bind_eq_some_iff.1 hn
  simp [get, hpath, seen?, at?_eq_bind, Trie.walk_of_get? hid, hid, Trie.Walk.ambiguous, bind,
    Except.bind, pure, Except.pure]

theorem get_dotted (s : Store) (caller : Caller) {p : Path} (hp : (s.at? p).isSome = true)
    (o : LookupOptions) :
    s.get caller p.dotted o = .ok (s.seen? caller.scope o.shared o.fallback p) :=
  s.get_of_at? caller (readPath_dotted p) hp o

section Alike

variable {caller : Caller} {text : String} {tokens : List String}
  (hseen : SeenAlike caller.scope s s') (h : s.Traced) (h' : s'.Traced)

include hseen h h'

theorem visible_walk (halike : ResolvedAlike s s' [] tokens) (shared fallback : Bool) :
    ((s.trie.walk false tokens).value.bind s.nodes.find?).bind
        (visible caller.scope shared fallback)
      = ((s'.trie.walk false tokens).value.bind s'.nodes.find?).bind
        (visible caller.scope shared fallback) := by
  have hmatched := (halike.walk_eq h h' rfl rfl).1
  rw [Trie.value_walk h.proper, Trie.value_walk h'.proper, Trie.Walk.count, Trie.Walk.count,
    hmatched]
  split
  · exact hseen.visible_eq h h' shared fallback _
  · rfl

theorem get_congr (halike : ∀ tokens, readTokens text = .ok tokens → ResolvedAlike s s' [] tokens)
    (o : LookupOptions) : s.get caller text o = s'.get caller text o := by
  by_cases ho : o.exact = true
  · rw [get_exact s caller text ho, get_exact s' caller text ho]
    refine congrArg (Except.map · (readPath text)) (funext fun p => ?_)
    exact hseen.seen?_eq o.shared o.fallback p
  rw [Bool.not_eq_true] at ho
  cases hpath : readPath text with
  | error e => simp [get, hpath, bind, Except.bind]
  | ok p =>
    have halike := halike p.tokens (readPath_eq_ok_iff.1 hpath)
    obtain ⟨hmatched, hcand⟩ := halike.walk_eq h h' rfl rfl
    rw [get_eq s caller hpath ho, get_eq s' caller hpath ho, Trie.Walk.ambiguous,
      Trie.Walk.ambiguous, ambiguity_congr hmatched hcand, hcand,
      visible_walk hseen h h' halike o.shared o.fallback]

theorem has_congr (halike : ∀ tokens, readTokens text = .ok tokens → ResolvedAlike s s' [] tokens)
    (o : LookupOptions) : s.has caller text o = s'.has caller text o :=
  congrArg (Option.isSome <$> ·) (get_congr hseen h h' halike o)

theorem dictionary_congr
    (halike : ∀ tokens, readTokens text = .ok tokens → ResolvedAlike s s' [] tokens)
    (shared fallback : Bool) :
    s.dictionary caller text shared fallback = s'.dictionary caller text shared fallback := by
  cases htokens : readTokens text with
  | error e => simp [dictionary, htokens, Except.mapError, bind, Except.bind]
  | ok tokens =>
    obtain ⟨hmatched, hcand⟩ := (halike tokens htokens).walk_eq h h' rfl rfl
    rw [dictionary_eq s caller htokens, dictionary_eq s' caller htokens,
      h.table_entriesFrom h' (hseen.seen?_eq shared fallback),
      Trie.Walk.ambiguous, Trie.Walk.ambiguous, ambiguity_congr hmatched hcand, hcand,
      Trie.Walk.count, Trie.Walk.count, hmatched]

end Alike

/-! ## What others write -/

/-- Requests from other scopes that leave the shared values as they are
leave all that a scope can see. -/
theorem seenAlike_run (h : s.Consistent) (kind : Kind) {others : List (Caller × Request)}
    (hothers : ∀ c ∈ others, c.1.scope ≠ key)
    (hshared : ∀ p, s.slot? p .shared = (run kind s others).slot? p .shared) :
    SeenAlike key s (run kind s others) := by
  intro p shared
  cases shared with
  | true => exact hshared p
  | false =>
    exact (slot?_run h (fun c hc => c.2.not_reaches_scope (Ne.symm (hothers c hc))) p).symm

/-- Whatever other scopes ask for, if the shared values come out as they
were, then so does every look-up of a scope for whose tokens no key has
appeared or disappeared: what a token may stand for, after those before it
were resolved, is the same as before. -/
theorem lookups_kept (kind : Kind) (calls others : List (Caller × Request)) (caller : Caller)
    (text : String) (hothers : ∀ c ∈ others, c.1.scope ≠ caller.scope)
    (hshared : ∀ p, (run kind .empty calls).slot? p .shared
      = (run kind .empty (calls ++ others)).slot? p .shared)
    (halike : ∀ tokens, readTokens text = .ok tokens →
      ResolvedAlike (run kind .empty calls) (run kind .empty (calls ++ others)) [] tokens) :
    (∀ o, (run kind .empty (calls ++ others)).get caller text o
          = (run kind .empty calls).get caller text o
        ∧ (run kind .empty (calls ++ others)).has caller text o
          = (run kind .empty calls).has caller text o)
      ∧ ∀ shared fallback,
        (run kind .empty (calls ++ others)).dictionary caller text shared fallback
          = (run kind .empty calls).dictionary caller text shared fallback := by
  have h := (consistent_run .empty kind calls).1
  have h' := (consistent_run .empty kind (calls ++ others)).1
  rw [run_append] at hshared halike h' ⊢
  have hseen := seenAlike_run h kind hothers hshared
  exact ⟨fun o => ⟨(get_congr hseen h.toTraced h'.toTraced halike o).symm,
      (has_congr hseen h.toTraced h'.toTraced halike o).symm⟩,
    fun shared fallback =>
      (dictionary_congr hseen h.toTraced h'.toTraced halike shared fallback).symm⟩

/-- A scope that writes out the path of a value that it sees is answered with
that value, whatever else has come to begin alike. -/
theorem get_dotted_kept (kind : Kind) (calls others : List (Caller × Request)) (caller : Caller)
    {p : Path} {q : Parameter} {o : LookupOptions}
    (hothers : ∀ c ∈ others, c.1.scope ≠ caller.scope)
    (hshared : ∀ p, (run kind .empty calls).slot? p .shared
      = (run kind .empty (calls ++ others)).slot? p .shared)
    (hq : (run kind .empty calls).seen? caller.scope o.shared o.fallback p = some q) :
    (run kind .empty (calls ++ others)).get caller p.dotted o = .ok (some q) := by
  have h := (consistent_run .empty kind calls).1
  rw [run_append] at hshared ⊢
  rw [(seenAlike_run h kind hothers hshared).seen?_eq] at hq
  obtain ⟨n, hn, -⟩ := Option.bind_eq_some_iff.1 hq
  rw [get_dotted _ caller (Option.isSome_of_eq_some hn), hq]

/-- A thread that may share nothing. -/
def guest (thread : Nat) : Caller := ⟨⟨thread, 0⟩, "", fun _ => false⟩

/-- A thread sets a value in its scope. -/
def sets (thread : Nat) (path value : String) : Caller × Request :=
  (guest thread, .set path (.bare (.text value)) {})

theorem slot?_shared_sets (kind : Kind) (calls : List (Caller × Request))
    {others : List (Caller × Request)}
    (hothers : ∀ c ∈ others, ∃ thread path value, c = sets thread path value) (p : Path) :
    (run kind .empty calls).slot? p .shared
      = (run kind .empty (calls ++ others)).slot? p .shared := by
  rw [run_append, slot?_run (consistent_run .empty kind calls).1]
  intro c hc
  obtain ⟨thread, path, value, rfl⟩ := hothers c hc
  exact fun h => by cases h

/-- A thread has a value at `dir`. -/
def ours : List (Caller × Request) := [sets 0 "dir" "/"]

/-- Another thread sets values at the same path and at one that `di` cannot
stand for. -/
def theirs : List (Caller × Request) := [sets 1 "dir" "/tmp", sets 1 "prompt.left" ">"]

theorem lookups_kept_beside :
    (∀ c ∈ theirs, c.1.scope ≠ (guest 0).scope)
      ∧ (∀ p, (run .var .empty ours).slot? p .shared
        = (run .var .empty (ours ++ theirs)).slot? p .shared)
      ∧ (∀ tokens, readTokens "di" = .ok tokens →
        ResolvedAlike (run .var .empty ours) (run .var .empty (ours ++ theirs)) [] tokens)
      ∧ ((run .var .empty ours).get (guest 0) "di" {}).toOption.map (Option.map Parameter.value)
        = some (some (.text "/"))
      ∧ (run .var .empty (ours ++ theirs)).get (guest 0) "di" {}
        = (run .var .empty ours).get (guest 0) "di" {} := by
  have hothers : ∀ c ∈ theirs, c.1.scope ≠ (guest 0).scope := by decide
  have hsets : ∀ c ∈ theirs, ∃ thread path value, c = sets thread path value := by simp [theirs]
  have hshared := slot?_shared_sets .var ours hsets
  have halike : ∀ tokens, readTokens "di" = .ok tokens →
      ResolvedAlike (run .var .empty ours) (run .var .empty (ours ++ theirs)) [] tokens := by
    intro tokens htokens
    have hone : (readTokens "di").toOption = some ["di"] := by decide +kernel
    rw [htokens] at hone
    cases hone
    have h := (consistent_run .empty .var ours).1.toTraced
    have h' := (consistent_run .empty .var (ours ++ theirs)).1.toTraced
    have hmeant : (run .var .empty ours).trie.meant "di"
        = (run .var .empty (ours ++ theirs)).trie.meant "di" := by decide +kernel
    refine ⟨fun k => ?_, fun _ _ => trivial⟩
    rw [← h.mem_meant rfl, ← h'.mem_meant rfl, hmeant]
  have hkept := lookups_kept .var ours theirs (guest 0) "di" hothers hshared halike
  exact ⟨hothers, hshared, halike, by decide +kernel, (hkept.1 {}).1⟩

/-- A value in another scope can take an abbreviation away: after `dim` was
set there, `di` does not stand for `dir` alone any more. -/
theorem lookup_sees_other_paths : ¬ ∀ (calls others : List (Caller × Request)) (caller : Caller)
    (text : String), (∀ c ∈ others, c.1.scope ≠ caller.scope) →
      (∀ c ∈ others, ∃ thread path value, c = sets thread path value) →
      (run .var .empty (calls ++ others)).get caller text {}
        = (run .var .empty calls).get caller text {} := by
  intro hall
  have heq := hall ours [sets 1 "dim" "yes"] (guest 0) "di" (by decide) (by simp)
  have hne : ((run .var .empty (ours ++ [sets 1 "dim" "yes"])).get (guest 0) "di" {}).toOption
      ≠ ((run .var .empty ours).get (guest 0) "di" {}).toOption := by decide +kernel
  exact hne (congrArg Except.toOption heq)

end Store

end ParamStore
