import ParamStore.Proofs.Store.Dictionary
import ParamStore.Proofs.Trie.Resolve

/-!
# What refusals say

A look-up that finds no node says how far the paths of the nodes go along with
its tokens (`Reaches`), and one that cannot choose names the keys that it cannot
choose among. Both are counted off the walk down the trie. What they say is
true of the nodes, since no level of the trie is without one, whatever was
taken away before (`refusals_name_nodes`).
-/

namespace ParamStore

namespace Store

variable {s : Store} {kind : Kind} {caller : Caller} {text : String} {p : Path}
  {start tokens candidates : List String} {token : String}

/-! ## Where there is no node -/

/-- Some path goes along with these tokens as far as `start`, and none goes
further. Then `token` follows or, if they all go along, is the last of them. -/
structure Reaches (s : Store) (tokens start : List String) (token : String) : Prop where
  along : start <+: tokens
  begins : start ≠ [] → s.Begins start
  longest : ∀ more, more <+: tokens → s.Begins more → more.length ≤ start.length
  next : (∃ rest, tokens = start ++ token :: rest) ∨ start = tokens ∧ tokens.getLast? = some token

theorem Reaches.congr {s' : Store} (h : s.Reaches tokens start token)
    (hbegins : ∀ start, s.Begins start ↔ s'.Begins start) : s'.Reaches tokens start token where
  along := h.along
  begins hne := (hbegins start).1 (h.begins hne)
  longest more hmore hmore' := h.longest more hmore ((hbegins more).2 hmore')
  next := h.next

theorem Reaches.length_le {start' : List String} {token' : String}
    (h : s.Reaches tokens start token) (h' : s.Reaches tokens start' token') :
    start'.length ≤ start.length := by
  by_cases hne : start' = []
  · rw [hne]
    exact Nat.zero_le _
  · exact h.longest start' h'.along (h'.begins hne)

/-- There is only one answer to how far paths go along. -/
theorem Reaches.unique {start' : List String} {token' : String}
    (h : s.Reaches tokens start token) (h' : s.Reaches tokens start' token') :
    start = start' ∧ token = token' := by
  obtain rfl : start = start' :=
    (List.prefix_of_prefix_length_le h.along h'.along (h'.length_le h)).eq_of_length
      (Nat.le_antisymm (h'.length_le h) (h.length_le h'))
  refine ⟨rfl, ?_⟩
  rcases h.next with ⟨rest, hrest⟩ | ⟨hall, hlast⟩
  · rcases h'.next with ⟨rest', hrest'⟩ | ⟨hall, -⟩
    · have heq := List.append_cancel_left (hrest.symm.trans hrest')
      exact (List.cons.inj heq).1
    · exact absurd (hall.trans hrest) (by simp)
  · rcases h'.next with ⟨rest', hrest'⟩ | ⟨-, hlast'⟩
    · exact absurd (hall.trans hrest') (by simp)
    · exact Option.some.inj (hlast.symm.trans hlast')

theorem stoppedAt_cases {w : Trie.Walk NodeId} (hne : tokens ≠ []) (hw : w.matched <+: tokens) :
    (∃ rest, tokens = w.matched ++ stoppedAt tokens w :: rest)
      ∨ w.matched = tokens ∧ tokens.getLast? = some (stoppedAt tokens w) := by
  obtain ⟨rest, rfl⟩ := hw
  cases rest with
  | nil =>
    rw [List.append_nil] at hne ⊢
    refine .inr ⟨rfl, ?_⟩
    simp [stoppedAt, Trie.Walk.count, List.getLast?_eq_some_getLast hne]
  | cons token rest =>
    refine .inl ⟨rest, ?_⟩
    simp [stoppedAt, Trie.Walk.count]

/-- Where an exact walk stops tells how far paths go along with its tokens. -/
theorem Traced.reaches_walk (h : s.Traced) (hne : tokens ≠ []) :
    s.Reaches tokens (s.trie.walk true tokens).matched
      (stoppedAt tokens (s.trie.walk true tokens)) := by
  have halong := Trie.matched_walk_exact s.trie tokens
  refine ⟨halong, fun hstart => ?_, fun more hmore hbegins => ?_, stoppedAt_cases hne halong⟩
  · rw [h.begins_iff_find? hstart, s.trie.isSome_find?_iff_count halong]
    exact Nat.le_refl _
  · cases more with
    | nil => exact Nat.zero_le _
    | cons k more =>
      rwa [h.begins_iff_find? (List.cons_ne_nil k more), s.trie.isSome_find?_iff_count hmore]
        at hbegins

theorem Traced.locate_none (h : s.Traced) (hpath : readPath text = .ok p) (hn : s.at? p = none) :
    ∃ start token, s.Reaches p.tokens start token
      ∧ s.locate text = .error (.unknownPath token start) :=
  ⟨_, _, h.reaches_walk p.tokens_ne_nil, locate_of_none hpath hn⟩

/-- The path of a node is known in full. -/
theorem reaches_path {n : Node} (hn : s.at? p = some n) :
    s.Reaches p.tokens p.tokens (p.tokens.getLastD "") := by
  refine ⟨List.prefix_refl _, fun _ => ⟨p, by simp [hn], List.prefix_refl _⟩,
    fun more hmore _ => hmore.length_le, .inr ⟨rfl, ?_⟩⟩
  rw [List.getLastD_eq_getLast?, List.getLast?_eq_some_getLast p.tokens_ne_nil]
  rfl

/-- An unset finds a node, but no value of its own to take away. -/
theorem unsetNode_unknown {n : Node} {o : UnsetOptions}
    (hu : unsetNode kind caller o n = .error (.unknownPath token start)) :
    token = n.path.tokens.getLastD "" ∧ start = n.path.tokens := by
  unfold unsetNode at hu
  split at hu
  · cases hu
    exact ⟨rfl, rfl⟩
  · unfold Node.unsetLocal at hu
    split at hu <;> cases hu
  · split at hu
    · next e hauth =>
      unfold Caller.authorize at hauth
      split at hauth <;> cases hauth
      cases hu
    · unfold emptyShared Node.unsetShared at hu
      split at hu
      · cases hu
      split at hu
      · next e hempty =>
        split at hempty <;> cases hempty
        cases hu
      · cases hu

/-- Also an unset that is refused for an unknown path says how far paths go
along with its tokens. -/
theorem Consistent.unset_unknown (h : s.Consistent) (hpath : readPath text = .ok p)
    {o : UnsetOptions}
    (hu : (s.unset kind caller text o).1 = .error (.unknownPath token start)) :
    s.Reaches p.tokens start token := by
  obtain ⟨e, hplan, heq⟩ | ⟨_, removed, _, -, hok, -⟩ := unset_cases kind caller h text o
  · rw [heq] at hu
    cases hu
    rw [planUnset_eq] at hplan
    split at hplan
    · cases hplan
    cases hn : s.at? p with
    | none =>
      obtain ⟨start', token', hreaches, hlocate⟩ := h.toTraced.locate_none hpath hn
      rw [hlocate] at hplan
      cases hplan
      exact hreaches
    | some n =>
      obtain ⟨id, hlocate⟩ := locate_of_at? hpath hn
      rw [hlocate] at hplan
      obtain ⟨rfl, rfl⟩ := unsetNode_unknown (map_eq_error.1 hplan)
      rw [h.path_at? hn]
      exact reaches_path hn
  · rw [hok] at hu
    cases hu

/-! ## Where there are several keys -/

theorem Traced.ambiguous_iff (h : s.Traced) :
    (s.trie.walk false tokens).ambiguous = true ↔ ∃ start token, s.Forks [] tokens start token := by
  have hcand : (s.trie.walk false tokens).ambiguous = true ↔
      (s.trie.walk false tokens).candidates ≠ [] := by
    simp [Trie.Walk.ambiguous]
  rw [hcand]
  have hroot : s.trie.find? [] = some s.trie := rfl
  constructor
  · intro hne
    rcases h.resolution hroot tokens with ⟨keys, hr⟩ | hu | hf
    · exact absurd (hr.walk h rfl).2 hne
    · exact absurd (hu.walk h rfl).2 hne
    · exact hf
  · rintro ⟨start, token, hf⟩
    exact (hf.walk h rfl).2.2.1

/-- What a look-up says that cannot choose. -/
theorem Forks.ambiguity_eq (hf : s.Forks [] tokens start token) (h : s.Traced) :
    ambiguity tokens (s.trie.walk false tokens)
      = .ambiguousPath token start (s.trie.walk false tokens).candidates := by
  obtain ⟨hmatched, htoken, -⟩ := hf.walk h rfl
  simp [ambiguity, stoppedAt, Trie.Walk.count, hmatched, htoken]

theorem Traced.exists_ambiguous_iff (h : s.Traced) (hpath : readPath text = .ok p)
    {o : LookupOptions} (ho : o.exact = false) :
    (∃ token start candidates,
        s.get caller text o = .error (.ambiguousPath token start candidates)) ↔
      o.strict = true ∧ ∃ start token, s.Forks [] p.tokens start token := by
  rw [← h.ambiguous_iff, ← Bool.and_eq_true, s.get_eq caller hpath ho]
  split
  · next hamb => exact iff_of_true ⟨_, _, _, rfl⟩ hamb
  · next hclear =>
    refine iff_of_false ?_ hclear
    rintro ⟨_, _, _, he⟩
    cases he

/-- It names the keys that begin with the token, each once and in order. -/
theorem Traced.ambiguous_names (h : s.Traced) (hpath : readPath text = .ok p)
    {o : LookupOptions} (ho : o.exact = false)
    (hg : s.get caller text o = .error (.ambiguousPath token start candidates)) :
    s.Forks [] p.tokens start token ∧ candidates.Pairwise (· < ·)
      ∧ ∀ k, k ∈ candidates ↔ s.Completes start token k := by
  obtain ⟨p', hp', -, hamb, heq⟩ := ambiguous_of_get ho hg
  cases hpath.symm.trans hp'
  obtain ⟨start', token', hf⟩ := h.ambiguous_iff.1 hamb
  rw [hf.ambiguity_eq h] at heq
  cases heq
  exact ⟨hf, (hf.walk h rfl).2.2.2⟩

theorem get_exact_ne_ambiguous (s : Store) (caller : Caller) (text : String) {o : LookupOptions}
    (ho : o.exact = true) :
    s.get caller text o ≠ .error (.ambiguousPath token start candidates) := by
  rw [get_exact s caller text ho, readPath]
  intro hg
  cases hread : Path.read text <;> rw [hread] at hg <;> cases hg

/-- Whatever was asked of a store before: the owner and the freeze of a path are
told iff there is a node at exactly the path. If there is none, the refusal
says how far the paths of nodes go along with the tokens and which token comes
next, and so it does when an unset finds nothing. Exact look-ups are never
ambiguous. Any other is refused as ambiguous iff it is to be and comes to a
token that is no key and that several keys begin with; then it names all of
these, in order, and what was taken for the tokens before. -/
theorem refusals_name_nodes (kind : Kind) (calls : List (Caller × Request)) {text : String}
    {p : Path} (hpath : readPath text = .ok p) :
    let s := run kind .empty calls
    ((∃ e, s.owner text = .error e) ↔ s.at? p = none)
      ∧ ((∃ e, s.isFrozen text = .error e) ↔ s.at? p = none)
      ∧ (s.at? p = none → ∃ start token, s.Reaches p.tokens start token
          ∧ s.owner text = .error (.unknownPath token start)
          ∧ s.isFrozen text = .error (.unknownPath token start)
          ∧ (StoreError.unknownPath token start).message = "unknown path, token '" ++ token
            ++ "' not found after '" ++ ".".intercalate start ++ "'")
      ∧ (∀ caller o token start,
          (s.unset kind caller text o).1 = .error (.unknownPath token start) →
          s.Reaches p.tokens start token)
      ∧ (∀ caller o token start candidates, o.exact = true →
          s.get caller text o ≠ .error (.ambiguousPath token start candidates)
            ∧ s.has caller text o ≠ .error (.ambiguousPath token start candidates))
      ∧ ∀ caller o, o.exact = false →
        ((∃ token start candidates,
            s.get caller text o = .error (.ambiguousPath token start candidates)) ↔
          o.strict = true ∧ ∃ start token, s.Forks [] p.tokens start token)
        ∧ ∀ token start candidates,
          s.get caller text o = .error (.ambiguousPath token start candidates) →
          s.Forks [] p.tokens start token ∧ candidates.Pairwise (· < ·)
            ∧ ∀ k, k ∈ candidates ↔ s.Completes start token k := by
  intro s
  have h : s.Consistent := (consistent_run .empty kind calls).1
  have hlocate : (∃ e, s.locate text = .error e) ↔ s.at? p = none := by
    cases hn : s.at? p with
    | none =>
      obtain ⟨start, token, -, he⟩ := h.toTraced.locate_none hpath hn
      exact iff_of_true ⟨_, he⟩ rfl
    | some n =>
      obtain ⟨id, hid⟩ := locate_of_at? hpath hn
      refine iff_of_false ?_ (Option.some_ne_none n)
      rintro ⟨_, he⟩
      cases hid.symm.trans he
  refine ⟨?_, ?_, fun hn => ?_, fun caller o token start => h.unset_unknown hpath,
    fun caller o token start candidates ho =>
      ⟨s.get_exact_ne_ambiguous caller text ho, fun hhas => ?_⟩,
    fun caller o ho => ⟨h.toTraced.exists_ambiguous_iff hpath ho,
      fun token start candidates => h.toTraced.ambiguous_names hpath ho⟩⟩
  · rw [← hlocate, owner]
    exact exists_congr fun e => map_eq_error
  · rw [← hlocate, isFrozen]
    exact exists_congr fun e => map_eq_error
  · obtain ⟨start, token, hreaches, he⟩ := h.toTraced.locate_none hpath hn
    exact ⟨start, token, hreaches, map_eq_error.2 he, map_eq_error.2 he, rfl⟩
  · exact s.get_exact_ne_ambiguous caller text ho (map_eq_error.1 hhas)

/-- Two threads set values whose keys begin alike, and what was set at `ho`
itself is taken away again. -/
def homes : List (Caller × Request) :=
  [sets 0 "env.home" "/root", sets 0 "env.ho.x" "1", sets 1 "env.host" "box",
    (guest 0, .unset "env.ho.x" {})]

/-- The path of what is taken away. -/
def inHo : Path :=
  ⟨["env", "ho", "x"], List.cons_ne_nil _ _, @isToken_of_readTokens "env.ho.x" _ rfl⟩

theorem readPath_inHo : readPath "env.ho.x" = .ok inHo := readPath_eq_ok_iff.2 rfl

theorem refusals_name_nodes_homes :
    let s := run .var .empty homes
    readPath "env.ho.x" = .ok inHo
      ∧ s.owner "env.ho.x" = .error (.unknownPath "ho" ["env"])
      ∧ s.Reaches inHo.tokens ["env"] "ho"
      ∧ s.get (guest 0) "env.ho.x" {}
        = .error (.ambiguousPath "ho" ["env"] ["home", "host"])
      ∧ s.Forks [] inHo.tokens ["env"] "ho"
      ∧ ∀ k, k ∈ ["home", "host"] ↔ s.Completes ["env"] "ho" k := by
  intro s
  have howner : s.owner "env.ho.x" = .error (.unknownPath "ho" ["env"]) := rfl
  have hget : s.get (guest 0) "env.ho.x" {}
      = .error (.ambiguousPath "ho" ["env"] ["home", "host"]) := rfl
  obtain ⟨hnone, -, hunknown, -, -, hambiguous⟩ := refusals_name_nodes .var homes readPath_inHo
  obtain ⟨start, token, hreaches, hsame, -, -⟩ := hunknown (hnone.1 ⟨_, howner⟩)
  cases howner.symm.trans hsame
  obtain ⟨hforks, -, hnames⟩ := (hambiguous (guest 0) {} rfl).2 _ _ _ hget
  exact ⟨readPath_inHo, howner, hreaches, hget, hforks, hnames⟩

/-- A look-up that is not to be refused finds nothing where it cannot choose. -/
theorem quiet_lookup_passes : ¬ ∀ (calls : List (Caller × Request)) (caller : Caller)
    (text : String) (p : Path) (o : LookupOptions), readPath text = .ok p → o.exact = false →
      ((∃ token start candidates, (run .var .empty calls).get caller text o
          = .error (.ambiguousPath token start candidates)) ↔
        ∃ start token, (run .var .empty calls).Forks [] p.tokens start token) := by
  intro hall
  have hquiet : (run .var .empty homes).get (guest 0) "env.ho.x" { strict := false }
      = .ok none := rfl
  have hambiguous : ((run .var .empty homes).trie.walk false inHo.tokens).ambiguous = true := rfl
  have hforks := (consistent_run .empty .var homes).1.toTraced.ambiguous_iff.1 hambiguous
  obtain ⟨token, start, candidates, hget⟩ :=
    (hall homes (guest 0) "env.ho.x" inHo { strict := false } readPath_inHo rfl).2 hforks
  cases hquiet.symm.trans hget

end Store

end ParamStore
