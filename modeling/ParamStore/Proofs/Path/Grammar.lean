import ParamStore.Proofs.Path
import ParamStore.Store.Write

/-!
# Texts of paths

A text is read as a path by its segments, the pieces between its dots without
the blanks around them. It names a path if no segment has a blank inside and
at least one of them is not empty; the tokens are the segments that are not
(`readTokens_eq_ok_iff`). So a path has many texts. They all come down to its
dotted text, which is read as the path again, and to a store they are one and
the same (`texts_name_paths`).
-/

namespace ParamStore

open Text

/-- What stands between the dots of a text, without the blanks around it. -/
def segments (text : String) : List (List Char) := (pieces '.' text.toList).map trim

variable {text text' : String} {p : Path}

/-! ## Tokens -/

/-- Tokens are read where no trimmed segment has a blank inside, and are the
segments that are not empty, in order. -/
theorem tokensOf_eq_ok_iff {ss : List (List Char)} {ts : List String} : tokensOf ss = .ok ts ↔
    (∀ s ∈ ss.map trim, ∀ c ∈ s, isBlank c = false)
      ∧ ts = ((ss.map trim).filter (· ≠ [])).map String.ofList := by
  induction ss generalizing ts with
  | nil => exact ⟨fun h => ⟨by simp, (Except.ok.inj h).symm⟩, fun h => congrArg Except.ok h.2.symm⟩
  | cons s ss ih =>
    rw [List.map_cons, List.forall_mem_cons, tokensOf]
    by_cases hs : trim s = []
    · rw [if_pos hs, ih, hs, List.filter_cons_of_neg (by simp)]
      simp
    · rw [if_neg hs, List.filter_cons_of_pos (by simpa using hs), List.map_cons]
      by_cases hblank : (trim s).any isBlank = true
      · obtain ⟨c, hc, hb⟩ := List.any_eq_true.1 hblank
        rw [if_pos hblank]
        refine iff_of_false nofun fun h => ?_
        simp [h.1.1 c hc] at hb
      · have hclear : ∀ c ∈ trim s, isBlank c = false := by simpa using hblank
        rw [if_neg hblank, and_iff_right hclear]
        cases hrest : tokensOf ss with
        | error f =>
          refine iff_of_false nofun fun h => ?_
          cases hrest.symm.trans (ih.2 ⟨h.1, rfl⟩)
        | ok us =>
          obtain ⟨hall, rfl⟩ := ih.1 hrest
          exact ⟨fun h => ⟨hall, (Except.ok.inj h).symm⟩, fun h => congrArg Except.ok h.2.symm⟩

theorem readTokens_eq_ok_iff {ts : List String} : readTokens text = .ok ts ↔
    (∀ s ∈ segments text, ∀ c ∈ s, isBlank c = false)
      ∧ ts = ((segments text).filter (· ≠ [])).map String.ofList :=
  tokensOf_eq_ok_iff

/-- A text has no tokens where all its segments are empty. -/
theorem readTokens_eq_nil_iff : readTokens text = .ok [] ↔ ∀ s ∈ segments text, s = [] := by
  have hnil : [] = ((segments text).filter (· ≠ [])).map String.ofList ↔
      ∀ s ∈ segments text, s = [] := by
    simp [eq_comm (a := []), List.filter_eq_nil_iff]
  rw [readTokens_eq_ok_iff, hnil, and_iff_right_iff_imp]
  rintro h s hs c hc
  rw [h s hs] at hc
  cases hc

/-! ## Paths -/

namespace Path

theorem exists_read_iff : (∃ p, read text = .ok p) ↔
    (∀ s ∈ segments text, ∀ c ∈ s, isBlank c = false) ∧ ∃ s ∈ segments text, s ≠ [] := by
  have hsome : ((segments text).filter (· ≠ [])).map String.ofList ≠ [] ↔
      ∃ s ∈ segments text, s ≠ [] := by
    simp [List.filter_eq_nil_iff]
  constructor
  · rintro ⟨p, hp⟩
    obtain ⟨hclear, htokens⟩ := readTokens_eq_ok_iff.1 (read_eq_ok_iff.1 hp)
    exact ⟨hclear, hsome.1 (htokens ▸ p.tokens_ne_nil)⟩
  · rintro ⟨hclear, hne⟩
    have htokens := readTokens_eq_ok_iff.2 ⟨hclear, rfl⟩
    exact ⟨⟨_, hsome.2 hne, isToken_of_readTokens htokens⟩, read_eq_ok_iff.2 htokens⟩

/-- A path is read as its tokens are, if there are any. -/
theorem map_tokens_read (text : String) : (read text).map tokens =
    (readTokens text).bind fun ts => if ts = [] then .error .noToken else .ok ts := by
  unfold read
  split
  · next f h => rw [h]; rfl
  · next h => rw [h]; rfl
  · next t ts h =>
    change Except.ok (t :: ts) = _
    rw [h]
    rfl

end Path

/-! ## Texts that name the same -/

/-- No store can tell the one text from the other, whatever it is asked. -/
structure Interchangeable (text text' : String) : Prop where
  set : ∀ (s : Store) kind caller input o,
    s.set kind caller text input o = s.set kind caller text' input o
  unset : ∀ (s : Store) kind caller o, s.unset kind caller text o = s.unset kind caller text' o
  get : ∀ (s : Store) caller o, s.get caller text o = s.get caller text' o
  has : ∀ (s : Store) caller o, s.has caller text o = s.has caller text' o
  dictionary : ∀ (s : Store) caller shared fallback,
    s.dictionary caller text shared fallback = s.dictionary caller text' shared fallback
  owner : ∀ s : Store, s.owner text = s.owner text'
  isFrozen : ∀ s : Store, s.isFrozen text = s.isFrozen text'

theorem Interchangeable.of_read (h : Path.read text = .ok p) (h' : Path.read text' = .ok p) :
    Interchangeable text text' := by
  have hpath : Store.readPath text = Store.readPath text' := by
    unfold Store.readPath
    rw [h, h']
    rfl
  have htokens : (readTokens text).mapError (StoreError.invalidPath text)
      = (readTokens text').mapError (StoreError.invalidPath text') := by
    rw [Path.read_eq_ok_iff.1 h, Path.read_eq_ok_iff.1 h']
    rfl
  have hlocate (s : Store) : s.locate text = s.locate text' := by
    unfold Store.locate
    rw [hpath]
  have hget (s : Store) (caller : Caller) (o : LookupOptions) :
      s.get caller text o = s.get caller text' o := by
    unfold Store.get
    rw [hpath]
  exact {
    set := fun s kind caller input o => by
      unfold Store.set
      rw [hpath]
    unset := fun s kind caller o => by
      unfold Store.unset
      rw [hlocate]
    get := hget
    has := fun s caller o => congrArg (Option.isSome <$> ·) (hget s caller o)
    dictionary := fun s caller shared fallback => by
      unfold Store.dictionary
      rw [htokens]
    owner := fun s => by
      unfold Store.owner
      rw [hlocate]
    isFrozen := fun s => by
      unfold Store.isFrozen
      rw [hlocate] }

/-- A text names a path iff none of its trimmed segments has a blank inside and
one of them is not empty. The tokens are then the segments that are not, in
order, each without dots and blanks; a prefix is read alike, but may have none.
The dotted text of the path is read as the path again, different paths have
different ones, and texts with the same tokens are the same to every store. -/
theorem texts_name_paths (text : String) :
    ((∃ p, Path.read text = .ok p) ↔
        (∀ s ∈ segments text, ∀ c ∈ s, isBlank c = false) ∧ ∃ s ∈ segments text, s ≠ [])
      ∧ (Path.read text).map Path.tokens =
          ((readTokens text).bind fun ts => if ts = [] then .error .noToken else .ok ts)
      ∧ (readTokens text = .ok [] ↔ ∀ s ∈ segments text, s = [])
      ∧ ∀ p, Path.read text = .ok p →
        p.tokens = ((segments text).filter (· ≠ [])).map String.ofList
          ∧ (∀ t ∈ p.tokens, t ≠ "" ∧ ∀ c ∈ t.toList, c ≠ '.' ∧ isBlank c = false)
          ∧ Path.read p.dotted = .ok p
          ∧ (∀ text' q, Path.read text' = .ok q → p.dotted = q.dotted → p = q)
          ∧ ∀ text' q, Path.read text' = .ok q → p.tokens = q.tokens →
            Interchangeable text text' := by
  refine ⟨Path.exists_read_iff, Path.map_tokens_read text, readTokens_eq_nil_iff, fun p hp => ?_⟩
  have htokens := readTokens_eq_ok_iff.1 (Path.read_eq_ok_iff.1 hp)
  refine ⟨htokens.2, p.isToken, p.read_dotted, fun _ _ _ => Path.dotted_injective,
    fun text' q hq heq => ?_⟩
  exact .of_read hp (Path.read_eq_ok_iff.2 (heq ▸ Path.read_eq_ok_iff.1 hq))

/-- Blanks and dots around the tokens are no part of a path. -/
example : (Path.read "\u3000..shell . prompt\u0085.").toOption.map Path.dotted
    = some "shell.prompt" := by decide +kernel

end ParamStore
