import ParamStore.Proofs.Store.Request
import ParamStore.Proofs.Store.Resolution

/-!
# Dictionaries and look-ups

A dictionary goes down the trie along the tokens that it is given, and lists the
subtree that it arrives at; a look-up goes down for one value. Where the tokens
stand for keys is said without the trie, by the paths of the nodes (`Resolves`,
`Unmatched`); what a walk makes of the tokens follows from it. So a dictionary is
told by look-ups: it holds what an exact look-up finds at each path below the
keys, and nothing else (`dictionary_lists_seen`).
-/

namespace ParamStore

namespace Store

variable {s : Store} {start tokens keys : List String} {token k : String} {c : Trie NodeId}

/-! ## What tokens stand for -/

/-- After `start`, the tokens stand for these keys, each for one only. -/
inductive Resolves (s : Store) : List String → List String → List String → Prop where
  | nil (start : List String) : Resolves s start [] []
  | cons {start tokens keys : List String} {token k : String}
    (only : ∀ k', s.Means start token k' ↔ k' = k) (rest : Resolves s (start ++ [k]) tokens keys) :
    Resolves s start (token :: tokens) (k :: keys)

/-- After `start`, the tokens stand for one key each up to one that stands for
none. -/
inductive Unmatched (s : Store) : List String → List String → Prop where
  | here {start tokens : List String} {token : String} (none : ∀ k, ¬ s.Means start token k) :
    Unmatched s start (token :: tokens)
  | later {start tokens : List String} {token k : String}
    (only : ∀ k', s.Means start token k' ↔ k' = k) (rest : Unmatched s (start ++ [k]) tokens) :
    Unmatched s start (token :: tokens)

/-- A key after `start` that begins with the token. -/
def Completes (s : Store) (start : List String) (token key : String) : Prop :=
  s.Begins (start ++ [key]) ∧ Trie.abbreviates token key = true

/-- After `start`, the tokens stand for these keys, each for one only, up to
the one named last: that is no key itself, and two keys or more begin with
it. -/
inductive Forks (s : Store) : List String → List String → List String → String → Prop where
  | here {start tokens : List String} {token : String} (no_key : ¬ s.Begins (start ++ [token]))
    (two : ∃ k k', k ≠ k' ∧ s.Completes start token k ∧ s.Completes start token k') :
    Forks s start (token :: tokens) [] token
  | later {start tokens keys : List String} {token token' k : String}
    (only : ∀ k', s.Means start token k' ↔ k' = k)
    (rest : Forks s (start ++ [k]) tokens keys token') :
    Forks s start (token :: tokens) (k :: keys) token'

theorem means_iff_completes (hkey : ¬ s.Begins (start ++ [token])) :
    s.Means start token k ↔ s.Completes start token k := by
  constructor
  · rintro ⟨hk, rfl | ⟨habb, -⟩⟩
    · exact absurd hk hkey
    · exact ⟨hk, habb⟩
  · rintro ⟨hk, habb⟩
    exact ⟨hk, .inr ⟨habb, hkey⟩⟩

/-! ## Walks -/

theorem Resolves.walk (hr : s.Resolves start tokens keys) (h : s.Traced)
    (hc : s.trie.find? start = some c) :
    (c.walk false tokens).matched = keys ∧ (c.walk false tokens).candidates = [] := by
  induction hr generalizing c with
  | nil => exact ⟨rfl, rfl⟩
  | cons honly _ ih =>
    obtain ⟨d, hd, hwalk⟩ := h.walk_only hc honly
    obtain ⟨hmatched, hcand⟩ := ih hd
    rw [hwalk]
    exact ⟨congrArg _ hmatched, hcand⟩

theorem Resolves.length_eq (hr : s.Resolves start tokens keys) : keys.length = tokens.length := by
  induction hr with
  | nil => rfl
  | cons _ _ ih => exact congrArg (· + 1) ih

theorem Unmatched.walk (hu : s.Unmatched start tokens) (h : s.Traced)
    (hc : s.trie.find? start = some c) :
    (c.walk false tokens).count < tokens.length ∧ (c.walk false tokens).candidates = [] := by
  induction hu generalizing c with
  | here hnone =>
    rw [h.walk_none hc hnone]
    exact ⟨Nat.succ_pos _, rfl⟩
  | later honly _ ih =>
    obtain ⟨d, hd, hwalk⟩ := h.walk_only hc honly
    obtain ⟨hcount, hcand⟩ := ih hd
    rw [hwalk]
    exact ⟨Nat.succ_lt_succ hcount, hcand⟩

/-- A walk stops where several keys begin with a token, with all of them in
order. -/
theorem Forks.walk (hf : s.Forks start tokens keys token) (h : s.Traced)
    (hc : s.trie.find? start = some c) :
    (c.walk false tokens).matched = keys ∧ tokens[keys.length]? = some token
      ∧ (c.walk false tokens).candidates ≠ []
      ∧ (c.walk false tokens).candidates.Pairwise (· < ·)
      ∧ ∀ k, k ∈ (c.walk false tokens).candidates ↔ s.Completes (start ++ keys) token k := by
  induction hf generalizing c with
  | @here start tokens token hkey htwo =>
    have hp := h.proper.find? hc
    have hmeant (k : String) : k ∈ c.meant token ↔ s.Completes start token k := by
      rw [h.mem_meant hc, means_iff_completes hkey]
    have hasc := hp.pairwise_meant token
    obtain ⟨k, k', hne, hk, hk'⟩ := htwo
    rw [← hmeant] at hk hk'
    rw [Trie.walk_cons hp, List.append_nil]
    rcases hm : c.meant token with _ | ⟨k₀, _ | ⟨k₁, ks⟩⟩
    · rw [hm] at hk
      cases hk
    · rw [hm, List.mem_singleton] at hk hk'
      exact absurd (hk.trans hk'.symm) hne
    · rw [hm] at hasc
      simp only [hm] at hmeant
      exact ⟨rfl, rfl, List.cons_ne_nil _ _, hasc, hmeant⟩
  | @later start tokens keys token token' k honly _ ih =>
    obtain ⟨d, hd, hwalk⟩ := h.walk_only hc honly
    obtain ⟨hmatched, htoken, hcand⟩ := ih hd
    rw [hwalk]
    refine ⟨congrArg _ hmatched, htoken, ?_⟩
    rwa [List.append_assoc] at hcand

/-- Tokens stand for one key each, or some first one stands for none or for
several. -/
theorem Traced.resolution (h : s.Traced) (hc : s.trie.find? start = some c)
    (tokens : List String) : (∃ keys, s.Resolves start tokens keys) ∨ s.Unmatched start tokens
      ∨ ∃ keys token, s.Forks start tokens keys token := by
  induction tokens generalizing start c with
  | nil => exact .inl ⟨[], .nil start⟩
  | cons token tokens ih =>
    have hmeans (k : String) : s.Means start token k ↔ k ∈ c.meant token := (h.mem_meant hc).symm
    rcases hm : c.meant token with _ | ⟨k, _ | ⟨k', ks⟩⟩
    · refine .inr (.inl (.here fun k hk => ?_))
      rw [hmeans, hm] at hk
      cases hk
    · have honly (k' : String) : s.Means start token k' ↔ k' = k := by
        rw [hmeans, hm, List.mem_singleton]
      obtain ⟨d, hd, -⟩ := h.walk_only hc honly
      rcases ih hd with ⟨keys, hr⟩ | hu | ⟨keys, token', hf⟩
      · exact .inl ⟨k :: keys, .cons honly hr⟩
      · exact .inr (.inl (.later honly hu))
      · exact .inr (.inr ⟨k :: keys, token', .later honly hf⟩)
    · have hkey : ¬ s.Begins (start ++ [token]) := fun hkey => by
        rw [h.begins_iff hc] at hkey
        rw [Trie.meant, if_pos hkey] at hm
        cases hm
      have hmem (k₀ : String) (hk : k₀ ∈ k :: k' :: ks) : s.Completes start token k₀ := by
        rwa [← means_iff_completes hkey, hmeans, hm]
      have hne : k ≠ k' := fun heq => by
        have hasc := (h.proper.find? hc).pairwise_meant token
        rw [hm, heq, List.pairwise_cons] at hasc
        exact StrictOrder.irrefl k' (hasc.1 k' List.mem_cons_self)
      exact .inr (.inr ⟨[], token, .here hkey ⟨k, k', hne, hmem k List.mem_cons_self,
        hmem k' (List.mem_cons_of_mem _ List.mem_cons_self)⟩⟩)

/-- A walk that could choose everywhere came through, or it stopped at a token
that stands for no key. -/
theorem Traced.resolves_or_unmatched (h : s.Traced) (hc : s.trie.find? start = some c)
    (hcand : (c.walk false tokens).candidates = []) :
    (∃ keys, s.Resolves start tokens keys) ∨ s.Unmatched start tokens := by
  rcases h.resolution hc tokens with hr | hu | ⟨keys, token, hf⟩
  · exact .inl hr
  · exact .inr hu
  · exact absurd hcand (hf.walk h hc).2.2.1

/-! ## What a dictionary holds -/

variable {caller : Caller} {text text' : String}

theorem dictionary_of_resolves (h : s.Traced) (htokens : readTokens text = .ok tokens)
    (hr : s.Resolves [] tokens keys) (caller : Caller) (shared fallback : Bool) :
    s.dictionary caller text shared fallback =
      .ok (.ofList (s.entriesFrom caller.scope shared fallback keys)) := by
  obtain ⟨hmatched, hcand⟩ := hr.walk h rfl
  have hclear : (s.trie.walk false tokens).ambiguous = false := by
    rw [Trie.Walk.ambiguous, hcand]
    rfl
  have hall : ¬ (s.trie.walk false tokens).count < tokens.length := by
    rw [Trie.Walk.count, hmatched, hr.length_eq]
    exact Nat.lt_irrefl _
  rw [s.dictionary_eq caller htokens, hclear, if_neg Bool.false_ne_true, if_neg hall, hmatched]

theorem dictionary_of_unmatched (h : s.Traced) (htokens : readTokens text = .ok tokens)
    (hu : s.Unmatched [] tokens) (caller : Caller) (shared fallback : Bool) :
    s.dictionary caller text shared fallback = .ok ∅ := by
  obtain ⟨hcount, hcand⟩ := hu.walk h rfl
  have hclear : (s.trie.walk false tokens).ambiguous = false := by
    rw [Trie.Walk.ambiguous, hcand]
    rfl
  rw [s.dictionary_eq caller htokens, hclear, if_neg Bool.false_ne_true, if_pos hcount]

/-- A dictionary is made where every token stands for one key, up to one that
may stand for none. -/
theorem resolves_or_unmatched_of_ok (h : s.Traced) {shared fallback : Bool}
    {t : Table String Parameter} (hd : s.dictionary caller text shared fallback = .ok t) :
    ∃ tokens, readTokens text = .ok tokens
      ∧ ((∃ keys, s.Resolves [] tokens keys) ∨ s.Unmatched [] tokens) := by
  cases htokens : readTokens text with
  | error f =>
    rw [dictionary, htokens] at hd
    cases hd
  | ok tokens =>
    refine ⟨tokens, rfl, h.resolves_or_unmatched rfl ?_⟩
    rw [s.dictionary_eq caller htokens] at hd
    split at hd
    · cases hd
    · next hclear => simpa [Trie.Walk.ambiguous] using hclear

theorem get_exact_dotted (s : Store) (caller : Caller) (p : Path) (shared fallback strict : Bool) :
    s.get caller p.dotted
        { exact := true, shared := shared, fallback := fallback, strict := strict }
      = .ok (s.seen? caller.scope shared fallback p) := by
  rw [get_exact s caller _ rfl, readPath_dotted]
  rfl

/-! ## Refusals -/

theorem ambiguous_of_dictionary {shared fallback : Bool} {start candidates : List String}
    (hd : s.dictionary caller text shared fallback
      = .error (.ambiguousPath token start candidates)) :
    ∃ tokens, readTokens text = .ok tokens ∧ (s.trie.walk false tokens).ambiguous = true
      ∧ ambiguity tokens (s.trie.walk false tokens) = .ambiguousPath token start candidates := by
  cases htokens : readTokens text with
  | error f =>
    rw [dictionary, htokens] at hd
    cases hd
  | ok tokens =>
    rw [s.dictionary_eq caller htokens] at hd
    split at hd
    · next hamb => exact ⟨tokens, rfl, hamb, Except.error.inj hd⟩
    · split at hd <;> cases hd

theorem readPath_of_readTokens (htokens : readTokens text = .ok tokens) (hne : tokens ≠ []) :
    ∃ p, readPath text = .ok p ∧ p.tokens = tokens :=
  ⟨⟨tokens, hne, isToken_of_readTokens htokens⟩, readPath_eq_ok_iff.2 htokens, rfl⟩

theorem ambiguous_of_get {o : LookupOptions} (ho : o.exact = false)
    {start candidates : List String}
    (hg : s.get caller text o = .error (.ambiguousPath token start candidates)) :
    ∃ p, readPath text = .ok p ∧ o.strict = true ∧ (s.trie.walk false p.tokens).ambiguous = true
      ∧ ambiguity p.tokens (s.trie.walk false p.tokens)
        = .ambiguousPath token start candidates := by
  cases hp : readPath text with
  | error e =>
    have he : s.get caller text o = .error e := by
      rw [get, hp]
      rfl
    rw [he] at hg
    unfold readPath at hp
    cases hread : Path.read text with
    | error f =>
      rw [hread] at hp
      cases hp
      cases hg
    | ok p =>
      rw [hread] at hp
      cases hp
  | ok p =>
    rw [s.get_eq caller hp ho] at hg
    split at hg
    · next hamb =>
      rw [Bool.and_eq_true] at hamb
      exact ⟨p, rfl, hamb.1, hamb.2, Except.error.inj hg⟩
    · cases hg

/-- A dictionary is refused as ambiguous where a look-up of the same tokens is. -/
theorem dictionary_ambiguous_iff (htext : readTokens text' = readTokens text)
    {shared fallback : Bool} {reader : Caller} {o : LookupOptions} (ho : o.exact = false)
    (hstrict : o.strict = true) {start candidates : List String} :
    s.dictionary caller text shared fallback = .error (.ambiguousPath token start candidates) ↔
      s.get reader text' o = .error (.ambiguousPath token start candidates) := by
  constructor
  · intro hd
    obtain ⟨tokens, htokens, hamb, heq⟩ := ambiguous_of_dictionary hd
    have hne : tokens ≠ [] := by
      rintro rfl
      cases hamb
    obtain ⟨p, hp, rfl⟩ := readPath_of_readTokens (htext.trans htokens) hne
    rw [s.get_eq reader hp ho, hstrict, Bool.true_and, if_pos hamb, heq]
  · intro hg
    obtain ⟨p, hp, -, hamb, heq⟩ := ambiguous_of_get ho hg
    have htokens : readTokens text = .ok p.tokens := htext.symm.trans (readPath_eq_ok_iff.1 hp)
    rw [s.dictionary_eq caller htokens, if_pos hamb, heq]

/-- A dictionary holds what exact look-ups find below the keys that its tokens
stand for, and is empty where a token stands for none. It is refused as
ambiguous where a look-up is. -/
theorem dictionary_lists_seen (kind : Kind) (calls : List (Caller × Request)) (caller : Caller)
    (text : String) (shared fallback : Bool) :
    let s := run kind .empty calls
    let d := s.dictionary caller text shared fallback
    (∀ t, d = .ok t → ∃ tokens, readTokens text = .ok tokens
        ∧ ((∃ keys, s.Resolves [] tokens keys) ∨ s.Unmatched [] tokens))
      ∧ (∀ tokens keys, readTokens text = .ok tokens → s.Resolves [] tokens keys →
          ∃ t, d = .ok t ∧ ∀ entry v, t.find? entry = some v ↔
            ∃ p : Path, keys <+: p.tokens ∧ p.dotted = entry ∧ ∀ strict,
              s.get caller p.dotted
                { exact := true, shared := shared, fallback := fallback, strict := strict }
              = .ok (some v))
      ∧ (∀ tokens, readTokens text = .ok tokens → s.Unmatched [] tokens → d = .ok ∅)
      ∧ (∀ text' reader o, readTokens text' = readTokens text → o.exact = false →
          o.strict = true → ∀ token start candidates,
          d = .error (.ambiguousPath token start candidates) ↔
            s.get reader text' o = .error (.ambiguousPath token start candidates))
      ∧ ∀ p q : Path, p.dotted = q.dotted → p = q := by
  intro s d
  have h : s.Traced := (consistent_run .empty kind calls).1.toTraced
  refine ⟨fun t ht => resolves_or_unmatched_of_ok h ht, fun tokens keys htokens hr => ?_,
    fun tokens htokens hu => dictionary_of_unmatched h htokens hu caller shared fallback,
    fun text' reader o htext ho hstrict token start candidates =>
      dictionary_ambiguous_iff htext ho hstrict,
    fun p q => Path.dotted_injective⟩
  refine ⟨_, dictionary_of_resolves h htokens hr caller shared fallback, fun entry v => ?_⟩
  rw [h.find?_entriesFrom]
  simp only [get_exact_dotted, Except.ok.injEq, forall_const]

/-- What other scopes hold is not listed, but it counts for abbreviations. -/
example :
    let s := run .var .empty
      [sets 0 "shell.prompt" "$", sets 0 "shell.dir" "/", sets 1 "show" "x"]
    ((s.dictionary (guest 0) "she" false true).toOption.map Table.keys)
        = some ["shell.dir", "shell.prompt"]
      ∧ (s.dictionary (guest 0) "sh" false true).toOption = none := by
  decide +kernel

end Store

end ParamStore
