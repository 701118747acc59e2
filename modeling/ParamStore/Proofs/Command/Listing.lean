import ParamStore.Proofs.Command.Flags

/-!
# The arguments of a listing

A listing takes flags and one start of the paths, in any order. Whether a
start has been given already is read off its text, so an empty start counts as
none: another one may take its place. The arguments are therefore read by the
rule that all starts but the last are empty, and not by the rule that there is
one at most. Both rules have the same form (`ReadsListing`): what is admitted
makes the listing of the last start and of the flags that occur, and anything
else is refused for the first argument that is not admitted any more.

The two rules answer alike unless a start follows empty ones
(`listing_takes_last_start`).
-/

namespace ParamStore

namespace Command

/-! ## The two rules -/

/-- The flags that a listing takes. -/
def listingFlags : List String := ["--global", "--scope-only", "--json"]

/-- The arguments that do not look like flags. -/
def startsOf (as : List String) : List String := as.filter fun a => !looksLikeFlag a

def listFlagsOf (as : List String) : ListFlags where
  shared := "--global" ∈ as
  scopeOnly := "--scope-only" ∈ as
  format := if "--json" ∈ as then some "json" else none

/-- The last of the starts, or the empty one. -/
def startOf (as : List String) : String := (startsOf as).getLast?.getD ""

/-- Only flags of a listing look like flags, and the starts are as they may
be. -/
structure Admitted (fits : List String → Prop) (as : List String) : Prop where
  flags : ∀ a ∈ as, looksLikeFlag a = true → a ∈ listingFlags
  starts : fits (startsOf as)

/-- What an argument is refused for. -/
def refusal (a : String) : ArgumentError :=
  if looksLikeFlag a then .unknownFlag "list" a else .surplus "list" a

/-- The arguments before one of them are admitted, and together with it they
are not. -/
def StopsAt (fits : List String → Prop) (as : List String) (e : ArgumentError) : Prop :=
  ∃ before a after, as = before ++ a :: after ∧ Admitted fits before
    ∧ ¬ Admitted fits (before ++ [a]) ∧ e = refusal a

/-- The answer to arguments by a rule for the starts. -/
structure ReadsListing (fits : List String → Prop) (kind : Kind) (as : List String)
    (answer : Except ArgumentError Command) : Prop where
  accepts : ∀ c, answer = .ok c ↔
    Admitted fits as ∧ c = .list kind (startOf as) (listFlagsOf as)
  refuses : ∀ e, answer = .error e ↔ StopsAt fits as e

/-- There is no second start. -/
def OneAtMost (starts : List String) : Prop := starts.length ≤ 1

/-- Nothing but empty starts stands before the last one. -/
def EmptyBeforeLast (starts : List String) : Prop := ∀ s ∈ starts.dropLast, s = ""

/-- Before anything else is at fault, a start comes after empty ones. -/
def ReplacesEmpty (as : List String) : Prop :=
  ∃ before a after, as = before ++ a :: after
    ∧ (∀ b ∈ before, looksLikeFlag b = true → b ∈ listingFlags) ∧ looksLikeFlag a = false
    ∧ startsOf before ≠ [] ∧ ∀ s ∈ startsOf before, s = ""

variable {fits : List String → Prop} {kind : Kind} {as done : List String} {a : String}
  {e : ArgumentError} {answer : Except ArgumentError Command}

/-! ## One argument more -/

theorem startsOf_append_flag (h : looksLikeFlag a = true) :
    startsOf (done ++ [a]) = startsOf done := by simp [startsOf, h]

theorem startsOf_append_start (h : looksLikeFlag a = false) :
    startsOf (done ++ [a]) = startsOf done ++ [a] := by simp [startsOf, h]

theorem looksLikeFlag_of_mem (h : a ∈ listingFlags) : looksLikeFlag a = true := by
  simp only [listingFlags, List.mem_cons, List.not_mem_nil, or_false] at h
  rcases h with rfl | rfl | rfl <;> decide

theorem listFlagsOf_append_start (h : looksLikeFlag a = false) :
    listFlagsOf (done ++ [a]) = listFlagsOf done := by
  have hother : ∀ f ∈ listingFlags, f ≠ a := by
    rintro f hf rfl
    cases (looksLikeFlag_of_mem hf).symm.trans h
  simp only [listingFlags, List.forall_mem_cons] at hother
  simp [listFlagsOf, hother]

/-- A start may come after empty ones only. -/
theorem emptyBeforeLast_append {starts : List String} :
    EmptyBeforeLast (starts ++ [a]) ↔ ∀ s ∈ starts, s = "" := by simp [EmptyBeforeLast]

theorem startOf_eq_empty_iff (h : EmptyBeforeLast (startsOf done)) :
    startOf done = "" ↔ ∀ s ∈ startsOf done, s = "" := by
  unfold startOf
  rcases List.eq_nil_or_concat (startsOf done) with hnil | ⟨starts, s, hstarts⟩
  · simp [hnil]
  · rw [List.concat_eq_append] at hstarts
    rw [hstarts] at h ⊢
    rw [List.forall_mem_append, and_iff_right (emptyBeforeLast_append.1 h)]
    simp

/-- What is admitted was so at every argument. -/
theorem Admitted.before (h : Admitted EmptyBeforeLast (done ++ as)) :
    Admitted EmptyBeforeLast done := by
  refine ⟨fun a ha => h.flags a (List.mem_append_left _ ha), fun s hs => h.starts s ?_⟩
  have hsplit : startsOf (done ++ as) = startsOf done ++ startsOf as := List.filter_append ..
  rw [hsplit]
  by_cases has : startsOf as = []
  · rwa [has, List.append_nil]
  · rw [List.dropLast_append_of_ne_nil has]
    exact List.mem_append_left _ (List.dropLast_subset _ hs)

theorem Admitted.append_flag (h : Admitted fits done) (ha : a ∈ listingFlags) :
    Admitted fits (done ++ [a]) := by
  refine ⟨List.forall_mem_append.2 ⟨h.flags, by simp [ha]⟩, ?_⟩
  rw [startsOf_append_flag (looksLikeFlag_of_mem ha)]
  exact h.starts

theorem Admitted.append_start (h : Admitted fits done) (ha : looksLikeFlag a = false)
    (hfits : fits (startsOf done ++ [a])) : Admitted fits (done ++ [a]) := by
  refine ⟨List.forall_mem_append.2 ⟨h.flags, by simp [ha]⟩, ?_⟩
  rw [startsOf_append_start ha]
  exact hfits

/-- Either all arguments are admitted or there is a first one that is not. -/
theorem Admitted.all_or_stops (h : Admitted fits done) (as : List String) :
    Admitted fits (done ++ as) ∨ ∃ before a after, as = before ++ a :: after
      ∧ Admitted fits (done ++ before) ∧ ¬ Admitted fits (done ++ before ++ [a]) := by
  induction as generalizing done with
  | nil => exact .inl (by rwa [List.append_nil])
  | cons a as ih =>
    by_cases ha : Admitted fits (done ++ [a])
    · rcases ih ha with hall | ⟨before, b, after, rfl, hbefore, hstop⟩
      · exact .inl (by simpa using hall)
      · exact .inr ⟨a :: before, b, after, rfl, by simpa using hbefore, by simpa using hstop⟩
    · exact .inr ⟨[], a, as, rfl, by rwa [List.append_nil], by rwa [List.append_nil]⟩

theorem admitted_or_stops (hnil : fits []) (as : List String) :
    Admitted fits as ∨ ∃ e, StopsAt fits as e := by
  have hnone : Admitted fits [] := ⟨by simp, hnil⟩
  rcases hnone.all_or_stops as with h | ⟨before, a, after, has, hbefore, hstop⟩
  · exact .inl h
  · exact .inr ⟨_, before, a, after, has, hbefore, hstop, rfl⟩

/-- An answer that is right where the arguments are admitted, and where they
are not, is right. -/
theorem ReadsListing.of_answers (hnil : fits [])
    (hok : Admitted fits as → answer = .ok (.list kind (startOf as) (listFlagsOf as)))
    (herror : ∀ e, StopsAt fits as e → answer = .error e) : ReadsListing fits kind as answer := by
  have hanswer := answer_iff (fun c (h : Admitted fits as ∧ c = _) => h.2 ▸ hok h.1) herror
    ((admitted_or_stops hnil as).imp_left fun h => ⟨_, h, rfl⟩)
  exact ⟨hanswer.1, hanswer.2⟩

/-! ## Reading -/

theorem not_mem_of_looksLikeFlag (h : looksLikeFlag a = false) : a ∉ listingFlags := fun hmem =>
  nomatch (looksLikeFlag_of_mem hmem).symm.trans h

theorem readList_flag (h : a ∈ listingFlags) (as : List String) :
    readList (startOf done) (listFlagsOf done) (a :: as)
      = readList (startOf (done ++ [a])) (listFlagsOf (done ++ [a])) as := by
  have hstart : startOf (done ++ [a]) = startOf done := by
    rw [startOf, startsOf_append_flag (looksLikeFlag_of_mem h), startOf]
  rw [hstart]
  simp only [listingFlags, List.mem_cons, List.not_mem_nil, or_false] at h
  rcases h with rfl | rfl | rfl <;> simp [readList, listSwitches, Entries.find?, listFlagsOf]

theorem readList_start (h : looksLikeFlag a = false) (hempty : startOf done = "")
    (as : List String) :
    readList (startOf done) (listFlagsOf done) (a :: as)
      = readList (startOf (done ++ [a])) (listFlagsOf (done ++ [a])) as := by
  have hstart : startOf (done ++ [a]) = a := by
    rw [startOf, startsOf_append_start h]
    simp
  rw [readList, find?_of_not_mem_keys (not_mem_of_looksLikeFlag h), hempty, hstart,
    listFlagsOf_append_start h]
  simp [h]

/-- Reading goes on behind admitted arguments with what these come to. -/
theorem readList_admitted {mid : List String} (hdone : Admitted EmptyBeforeLast done)
    (h : Admitted EmptyBeforeLast (done ++ mid)) (as : List String) :
    readList (startOf done) (listFlagsOf done) (mid ++ as)
      = readList (startOf (done ++ mid)) (listFlagsOf (done ++ mid)) as := by
  induction mid generalizing done with
  | nil => rw [List.append_nil, List.nil_append]
  | cons a mid ih =>
    have hsplit : done ++ a :: mid = done ++ [a] ++ mid := by simp
    rw [hsplit] at h ⊢
    have hnext := h.before
    rw [← ih hnext h, List.cons_append]
    cases ha : looksLikeFlag a with
    | true => exact readList_flag (hnext.flags a (by simp) ha) _
    | false =>
      have hstarts := hnext.starts
      rw [startsOf_append_start ha, emptyBeforeLast_append] at hstarts
      exact readList_start ha ((startOf_eq_empty_iff hdone.starts).2 hstarts) _

theorem readList_stop (hdone : Admitted EmptyBeforeLast done)
    (h : ¬ Admitted EmptyBeforeLast (done ++ [a])) (as : List String) :
    readList (startOf done) (listFlagsOf done) (a :: as) = .error (refusal a) := by
  have hnone : a ∉ listingFlags := fun ha => h (hdone.append_flag ha)
  rw [readList, find?_of_not_mem_keys hnone, refusal]
  cases ha : looksLikeFlag a with
  | true => rfl
  | false =>
    have hgiven : startOf done ≠ "" := fun hempty => by
      rw [startOf_eq_empty_iff hdone.starts] at hempty
      exact h (hdone.append_start ha (emptyBeforeLast_append.2 hempty))
    simp [hgiven]

theorem emptyBeforeLast_nil : EmptyBeforeLast [] := by simp [EmptyBeforeLast]

variable {name : String}

theorem ofArguments_list (hkind : Kind.read? name = some kind) (as : List String) :
    ofArguments ("list" :: name :: as)
      = (fun r => .list kind r.1 r.2) <$> readList (startOf []) (listFlagsOf []) as := by
  change readListing (name :: as) = _
  rw [readListing, readKind_of_read? hkind]
  rfl

theorem readsListing_ofArguments (hkind : Kind.read? name = some kind) (as : List String) :
    ReadsListing EmptyBeforeLast kind as (ofArguments ("list" :: name :: as)) := by
  have hnil : Admitted EmptyBeforeLast [] := ⟨by simp, emptyBeforeLast_nil⟩
  rw [ofArguments_list hkind]
  refine .of_answers emptyBeforeLast_nil (fun h => ?_) ?_
  · have hread := readList_admitted hnil h []
    rw [List.append_nil, List.nil_append] at hread
    rw [hread]
    rfl
  · rintro e ⟨before, a, after, rfl, hbefore, hstop, rfl⟩
    rw [readList_admitted hnil hbefore, List.nil_append, readList_stop hbefore hstop]
    rfl

/-- A start that is one too many comes after an empty one, or it is one too
many for either rule. -/
theorem Admitted.oneAtMost {before : List String} (h : Admitted OneAtMost before)
    (hnext : Admitted EmptyBeforeLast (before ++ [a])) {after : List String}
    (hnone : ¬ ReplacesEmpty (before ++ a :: after)) : Admitted OneAtMost (before ++ [a]) := by
  cases ha : looksLikeFlag a with
  | true => exact h.append_flag (hnext.flags a (by simp) ha)
  | false =>
    have hstarts := hnext.starts
    rw [startsOf_append_start ha, emptyBeforeLast_append] at hstarts
    have hfirst : startsOf before = [] := Classical.byContradiction fun hne =>
      hnone ⟨before, a, after, rfl, h.flags, ha, hne, hstarts⟩
    exact h.append_start ha (by simp [OneAtMost, hfirst])

/-- Then the first start of all is empty. -/
theorem ReplacesEmpty.head?_eq (h : ReplacesEmpty as) : (startsOf as).head? = some "" := by
  obtain ⟨before, a, after, rfl, -, -, hne, hempty⟩ := h
  have hsplit : startsOf (before ++ a :: after) = startsOf before ++ startsOf (a :: after) :=
    List.filter_append ..
  obtain ⟨s, starts, hstarts⟩ := List.exists_cons_of_ne_nil hne
  rw [hsplit, hstarts, List.cons_append, List.head?_cons]
  rw [hempty s (hstarts ▸ List.mem_cons_self)]

/-- What a listing makes of its arguments. Exactly those are admitted of which
only flags of a listing look like flags and only the last start is not empty;
anything else is refused for the first argument that is a strange flag or a
start after one that is not empty. As long as no start comes after empty ones,
this is the same as to admit one start at most. -/
theorem listing_takes_last_start (hkind : Kind.read? name = some kind) (as : List String) :
    ReadsListing EmptyBeforeLast kind as (ofArguments ("list" :: name :: as))
      ∧ (¬ ReplacesEmpty as →
        ReadsListing OneAtMost kind as (ofArguments ("list" :: name :: as))) := by
  have hreads := readsListing_ofArguments hkind as
  have hone {before : List String} (h : Admitted OneAtMost before) :
      Admitted EmptyBeforeLast before := by
    refine ⟨h.flags, ?_⟩
    have hlength : (startsOf before).dropLast.length = 0 := by
      have := h.starts
      unfold OneAtMost at this
      rw [List.length_dropLast]
      omega
    rw [EmptyBeforeLast, List.length_eq_zero_iff.1 hlength]
    simp
  refine ⟨hreads, fun hnone => .of_answers (by simp [OneAtMost]) (fun h => ?_) ?_⟩
  · exact (hreads.accepts _).2 ⟨hone h, rfl⟩
  · rintro e ⟨before, a, after, rfl, hbefore, hstop, he⟩
    refine (hreads.refuses e).2 ⟨before, a, after, rfl, hone hbefore, fun hnext => ?_, he⟩
    exact hstop (hbefore.oneAtMost hnext hnone)

/-- The order of flags and start is no matter. An empty start after another one
is refused before the strange flag behind it. -/
theorem listing_takes_last_start_git : Kind.read? "proc" = some .proc
    ∧ ¬ ReplacesEmpty ["--json", "git", "--json", "--global"]
    ∧ ofArguments ["list", "proc", "--json", "git", "--json", "--global"]
      = .ok (.list .proc "git" { shared := true, format := some "json" })
    ∧ ofArguments ["list", "proc", "git", "", "--all"] = .error (.surplus "list" "") := by
  have hkind : Kind.read? "proc" = some .proc := by decide
  have hnone : ¬ ReplacesEmpty ["--json", "git", "--json", "--global"] := fun h =>
    absurd h.head?_eq (by decide)
  have hlisting := (listing_takes_last_start hkind _).2 hnone
  refine ⟨hkind, hnone, (hlisting.accepts _).2 ⟨⟨by decide, Nat.le_refl 1⟩, rfl⟩,
    ((listing_takes_last_start hkind _).1.refuses _).2 ?_⟩
  refine ⟨["git"], "", ["--all"], rfl, ⟨by decide, fun s hs => by cases hs⟩, fun h => ?_, rfl⟩
  exact absurd (h.starts "git" (by decide)) (by decide)

/-- Two starts are taken where the first one is empty. -/
theorem listing_replaces_empty_start : ¬ ∀ (name : String) (kind : Kind) (as : List String),
    Kind.read? name = some kind →
      ReadsListing OneAtMost kind as (ofArguments ("list" :: name :: as)) := by
  intro hall
  have hreads := hall "var" .var ["", "b"] rfl
  have hstop : StopsAt OneAtMost ["", "b"] (.surplus "list" "b") := by
    refine ⟨[""], "b", [], rfl, ⟨by decide, Nat.le_refl 1⟩, fun h => ?_, rfl⟩
    exact absurd h.starts (Nat.not_le.2 (Nat.lt_succ_self 1))
  have hread : ofArguments ["list", "var", "", "b"] = .ok (.list .var "b" {}) := rfl
  cases hread.symm.trans ((hreads.refuses _).2 hstop)

end Command

end ParamStore
