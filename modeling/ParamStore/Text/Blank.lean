/-!
# Blank characters

White space as the Unicode property `White_Space` has it: twenty-five code
points, among them the no-break and the ideographic space, and none of the
zero-width marks or the separators U+001C to U+001F.

Main statement: `mem_of_mem_trim`, trimming adds no character.
-/

namespace ParamStore.Text

/-- The property `White_Space`. -/
def isBlank (c : Char) : Bool :=
  ('\x09' ≤ c && c ≤ '\x0d') || c == ' ' || c == '\u0085' || c == '\u00a0' || c == '\u1680'
    || ('\u2000' ≤ c && c ≤ '\u200a') || c == '\u2028' || c == '\u2029' || c == '\u202f'
    || c == '\u205f' || c == '\u3000'

def trim (cs : List Char) : List Char :=
  ((cs.dropWhile isBlank).reverse.dropWhile isBlank).reverse

/-- The text up to its first blank. -/
def firstWord (cs : List Char) : List Char :=
  cs.takeWhile fun c => !isBlank c

def isBlankText (cs : List Char) : Bool := cs.all isBlank

/-- Trimming takes characters away and adds none. -/
theorem mem_of_mem_trim {c : Char} {cs : List Char} (h : c ∈ trim cs) : c ∈ cs := by
  have h₁ := (List.dropWhile_sublist isBlank).mem (List.mem_reverse.1 h)
  exact (List.dropWhile_sublist isBlank).mem (List.mem_reverse.1 h₁)

end ParamStore.Text
