import Mathlib.Data.List.DropRight
import ParamStore.Command.Arguments
import ParamStore.Command.Words

/-!
# The name of a command

The first word of a line names its command. It is read off the line in two
ways: as the text up to the first blank, and as the first word once quotes
are dropped. The two agree where that text holds no quote
(`name?_eq_firstWord`).
-/

namespace ParamStore

namespace Text

/-- What is left of a line when it is trimmed starts with no blank. -/
theorem isBlank_of_trim_eq_cons {line cs : List Char} {c : Char} (h : trim line = c :: cs) :
    isBlank c = false := by
  have hprefix : c :: cs <+: line.dropWhile isBlank :=
    h ▸ List.rdropWhile_prefix isBlank (line.dropWhile isBlank)
  have hhead := List.head?_dropWhile_not isBlank line
  obtain ⟨rest, hrest⟩ := hprefix
  rw [← hrest] at hhead
  exact hhead

theorem firstWord_cons_of_not_isBlank {c : Char} (hc : isBlank c = false) (cs : List Char) :
    firstWord (c :: cs) = c :: firstWord cs := by
  simp [firstWord, hc]

end Text

namespace Command

open Text

theorem isBlank_of_isQuote {c : Char} (h : isQuote c = true) : isBlank c = false := by
  simp only [isQuote, Bool.or_eq_true, beq_iff_eq] at h
  rcases h with rfl | rfl <;> decide

/-- A word that is begun bare goes on to the next blank, if no quote stands
before it. -/
theorem head?_wordsFrom_bare {word cs : List Char} {ws : List String}
    (hq : (firstWord cs).any isQuote = false) (h : wordsFrom (.bare word) cs = .ok ws) :
    ws.head? = some (String.ofList (word.reverse ++ firstWord cs)) := by
  induction cs generalizing word with
  | nil =>
    simp only [wordsFrom, Except.ok.injEq] at h
    simp [← h, firstWord]
  | cons c cs ih =>
    by_cases hb : isBlank c = true
    · have hc : ¬ isQuote c = true := fun hc => by simp [isBlank_of_isQuote hc] at hb
      rw [wordsFrom, if_neg hc, if_pos hb] at h
      cases hrest : wordsFrom .between cs with
      | error e => simp [hrest] at h
      | ok rest =>
        rw [hrest] at h
        cases h
        simp [firstWord, hb]
    · rw [Bool.not_eq_true] at hb
      rw [firstWord_cons_of_not_isBlank hb, List.any_cons, Bool.or_eq_false_iff] at hq
      simp only [wordsFrom, hq.1, hb, Bool.false_eq_true, if_false] at h
      simpa [firstWord_cons_of_not_isBlank hb] using ih hq.2 h

/-- The name of the command on a line, if its words can be read and there
are any. -/
def name? (line : List Char) : Option String :=
  (words (String.ofList line)).toOption.bind List.head?

theorem name?_eq_some {line : List Char} {name : String} :
    name? line = some name ↔ ∃ args, words (String.ofList line) = .ok (name :: args) := by
  unfold name?
  cases words (String.ofList line) with
  | error e => simp [Except.toOption]
  | ok ws => cases ws <;> simp [Except.toOption]

/-- Where no quote stands before the first blank of a line, what stands
there is the name. -/
theorem name?_eq_firstWord {line : List Char} {name : String} (hline : (trim line) ≠ [])
    (hq : (firstWord (trim line)).any isQuote = false) (h : name? (trim line) = some name) :
    firstWord (trim line) = name.toList := by
  obtain ⟨args, hwords⟩ := name?_eq_some.1 h
  obtain ⟨c, cs, heq⟩ := List.exists_cons_of_ne_nil hline
  have hc := isBlank_of_trim_eq_cons heq
  rw [heq] at hwords hq ⊢
  rw [firstWord_cons_of_not_isBlank hc] at hq ⊢
  rw [List.any_cons, Bool.or_eq_false_iff] at hq
  simp only [words, String.toList_ofList, wordsFrom, hq.1, hc, Bool.false_eq_true, if_false]
    at hwords
  have hhead := head?_wordsFrom_bare hq.2 hwords
  simp only [List.head?_cons, List.reverse_singleton, List.singleton_append,
    Option.some.injEq] at hhead
  rw [hhead, String.toList_ofList]

/-! ## Commands that run a script -/

theorem bind_ne_run {α : Type} {path : String} {x : Except ArgumentError α}
    {f : α → Except ArgumentError Command} (hf : ∀ a, f a ≠ .ok (.run path)) :
    (x >>= f) ≠ .ok (.run path) := by
  cases x with
  | error e => nofun
  | ok a => exact hf a

/-- Only the command of that name runs a script: every other one reads its
arguments into a command of its own. -/
theorem ofArguments_eq_run {ws : List String} {path : String} :
    ofArguments ws = .ok (.run path) ↔ ∃ rest, ws = "run" :: path :: rest := by
  refine ⟨fun h => ?_, fun ⟨rest, heq⟩ => by rw [heq]; rfl⟩
  unfold ofArguments at h
  split at h
  case h_3 as => cases as <;> cases h
  case h_4 as =>
    cases as with
    | nil => cases h
    | cons a as => simpa [readRun] using h
  case h_5 | h_6 | h_7 | h_8 | h_9 | h_10 | h_11 | h_12 | h_13 =>
    simp only [readSet, readLookup, readUnset, readListing, readOwner, readGroup, readClear,
      readScope] at h
    split at h
    all_goals first
      | cases h
      | exact absurd h (bind_ne_run fun _ h => by cases h)
      | exact absurd h (bind_ne_run fun _ => bind_ne_run fun _ h => by cases h)
  all_goals cases h

end Command

end ParamStore
