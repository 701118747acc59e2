import ParamStore.Store.Lookup

/-!
# Dotted texts

The dotted text of a path reads back as the path (`Path.read_dotted`), so
different paths have different texts. Listings rely on this: what a store
lists by its dotted text is found again under it.
-/

namespace ParamStore

namespace Text

variable {α : Type} [DecidableEq α] {sep : α} {p cs : List α}

theorem pieces_of_not_mem (h : sep ∉ p) : pieces sep p = [p] := by
  induction p with
  | nil => rfl
  | cons c p ih =>
    obtain ⟨hc, hp⟩ : sep ≠ c ∧ sep ∉ p := by simpa using h
    rw [pieces, if_neg (Ne.symm hc), ih hp]

theorem pieces_append_sep (sep : α) (cs ds : List α) :
    pieces sep (cs ++ sep :: ds) = pieces sep cs ++ pieces sep ds := by
  induction cs with
  | nil => simp [pieces]
  | cons c cs ih =>
    rw [List.cons_append, pieces, pieces, ih]
    split
    · rfl
    · cases hp : pieces sep cs with
      | nil => exact absurd hp (pieces_ne_nil sep cs)
      | cons p ps => rfl

theorem pieces_append (h : sep ∉ p) :
    pieces sep (p ++ sep :: cs) = p :: pieces sep cs := by
  rw [pieces_append_sep, pieces_of_not_mem h, List.singleton_append]

theorem length_pieces (sep : α) (cs : List α) : (pieces sep cs).length = cs.count sep + 1 := by
  induction cs with
  | nil => rfl
  | cons c cs ih =>
    rw [pieces, List.count_cons]
    split
    · next hc => simp [hc, ih]
    · next hc =>
      cases hp : pieces sep cs with
      | nil => exact absurd hp (pieces_ne_nil sep cs)
      | cons p ps => simpa [hc, hp] using ih

theorem pieces_intercalate {ps : List (List α)} (hne : ps ≠ []) (h : ∀ p ∈ ps, sep ∉ p) :
    pieces sep ([sep].intercalate ps) = ps := by
  induction ps with
  | nil => exact absurd rfl hne
  | cons p ps ih =>
    have hp : sep ∉ p := h p List.mem_cons_self
    cases ps with
    | nil => simpa using pieces_of_not_mem hp
    | cons q ps =>
      have htail := ih (List.cons_ne_nil q ps) fun r hr => h r (List.mem_cons_of_mem _ hr)
      rw [List.intercalate_cons_cons, List.append_assoc, List.singleton_append,
        pieces_append hp, htail]

theorem dropWhile_of_not_blank {cs : List Char} (h : ∀ c ∈ cs, isBlank c = false) :
    cs.dropWhile isBlank = cs := by
  cases cs with
  | nil => rfl
  | cons c cs => exact List.dropWhile_cons_of_neg (by simp [h c List.mem_cons_self])

theorem trim_of_not_blank {cs : List Char} (h : ∀ c ∈ cs, isBlank c = false) :
    trim cs = cs := by
  have hrev : cs.reverse.dropWhile isBlank = cs.reverse :=
    dropWhile_of_not_blank fun c hc => h c (List.mem_reverse.1 hc)
  unfold trim
  rw [dropWhile_of_not_blank h, hrev, List.reverse_reverse]

end Text

open Text

theorem tokensOf_of_isToken {ts : List String} (h : ∀ t ∈ ts, IsToken t) :
    tokensOf (ts.map String.toList) = .ok ts := by
  induction ts with
  | nil => rfl
  | cons t ts ih =>
    obtain ⟨hne, hchars⟩ := h t List.mem_cons_self
    have htrim : trim t.toList = t.toList := trim_of_not_blank fun c hc => (hchars c hc).2
    have hsome : t.toList ≠ [] := fun he => hne (String.toList_inj.1 (by simpa using he))
    have hblank : t.toList.any isBlank ≠ true := by
      simp only [ne_eq, List.any_eq_true, not_exists, not_and, Bool.not_eq_true]
      exact fun c hc => (hchars c hc).2
    rw [List.map_cons]
    unfold tokensOf
    rw [htrim, if_neg hsome, if_neg hblank, ih fun u hu => h u (List.mem_cons_of_mem _ hu)]
    simp [bind, Except.bind, pure, Except.pure]

namespace Path

theorem readTokens_dotted (p : Path) : readTokens p.dotted = .ok p.tokens := by
  have hdots : ∀ s ∈ p.tokens.map String.toList, '.' ∉ s := by
    intro s hs hmem
    obtain ⟨t, ht, rfl⟩ := List.mem_map.1 hs
    exact ((p.isToken t ht).2 '.' hmem).1 rfl
  have hne : p.tokens.map String.toList ≠ [] := by
    simpa using p.tokens_ne_nil
  unfold readTokens dotted
  rw [String.toList_intercalate]
  change tokensOf (pieces '.' (['.'].intercalate _)) = _
  rw [pieces_intercalate hne hdots]
  exact tokensOf_of_isToken p.isToken

/-- A text is read as the path that has its tokens. -/
theorem read_eq_ok_iff {text : String} {p : Path} :
    read text = .ok p ↔ readTokens text = .ok p.tokens := by
  obtain ⟨us, hne, hus⟩ := p
  unfold read
  split
  · next f h => exact ⟨nofun, fun htokens => nomatch h.symm.trans htokens⟩
  · next h => exact ⟨nofun, fun htokens => absurd (Except.ok.inj (h.symm.trans htokens)).symm hne⟩
  · next t ts h =>
    rw [Except.ok.injEq, Path.mk.injEq]
    exact ⟨fun heq => heq ▸ h, fun htokens => Except.ok.inj (h.symm.trans htokens)⟩

/-- The dotted text of a path reads back as the path. -/
theorem read_dotted (p : Path) : read p.dotted = .ok p :=
  read_eq_ok_iff.2 p.readTokens_dotted

theorem dotted_injective {p q : Path} (h : p.dotted = q.dotted) : p = q := by
  have hp := p.read_dotted
  rw [h, q.read_dotted] at hp
  exact (Except.ok.inj hp).symm

end Path

@[simp] theorem Store.readPath_dotted (p : Path) : readPath p.dotted = .ok p := by
  unfold readPath
  rw [p.read_dotted]
  rfl

end ParamStore
