import ParamStore.Proofs.Command.Words

/-!
# The grammar of a line

A line is made of words with blanks around and between them, a word of
segments that follow each other at once, and a segment is a run of plain
characters or a body between two quotes of one kind. What is read off a line
are the bodies (`Line.words`), and nothing else is a line: a text that is none
has a quote in it that is opened and never closed (`line_or_unclosed`). So
reading accepts exactly this grammar (`words_follow_grammar`), and a text in
quotes makes any word whatever.
-/

namespace ParamStore

namespace Text

/-- Trimming takes blanks off both ends. -/
theorem exists_eq_append_trim (cs : List Char) : ∃ before after,
    (∀ c ∈ before, isBlank c = true) ∧ (∀ c ∈ after, isBlank c = true)
      ∧ cs = before ++ trim cs ++ after := by
  refine ⟨cs.takeWhile isBlank, (cs.dropWhile isBlank).rtakeWhile isBlank,
    fun c => List.mem_takeWhile_imp, fun c => List.mem_rtakeWhile_imp, ?_⟩
  have hright : trim cs ++ (cs.dropWhile isBlank).rtakeWhile isBlank = cs.dropWhile isBlank :=
    List.rdropWhile_append_rtakeWhile
  rw [List.append_assoc, hright, List.takeWhile_append_dropWhile]

end Text

namespace Command

open Text

/-! ## Lines -/

/-- A part of a word, beside what it says: a run of characters that are neither
quotes nor blanks, or a body between two quotes of which it holds none. -/
inductive Segment : List Char → List Char → Prop where
  | bare {run : List Char} (ne_nil : run ≠ [])
    (plain : ∀ c ∈ run, isQuote c = false ∧ isBlank c = false) : Segment run run
  | quoted {q : Char} {body : List Char} (quote : isQuote q = true) (closed : q ∉ body) :
    Segment (q :: body ++ [q]) body

/-- One segment or more, beside what they say together. -/
inductive Word : List Char → List Char → Prop where
  | one {cs body : List Char} (h : Segment cs body) : Word cs body
  | cons {cs body cs' body' : List Char} (h : Segment cs body) (rest : Word cs' body') :
    Word (cs ++ cs') (body ++ body')

/-- Words between blanks, beside what they say. What follows a word is the end
or starts with a blank. -/
inductive Line : List Char → List String → Prop where
  | blank {cs : List Char} (blank : ∀ c ∈ cs, isBlank c = true) : Line cs []
  | word {before cs body rest : List Char} {ws : List String}
    (blank : ∀ c ∈ before, isBlank c = true) (h : Word cs body)
    (apart : ∀ c ∈ rest.head?, isBlank c = true) (line : Line rest ws) :
    Line (before ++ cs ++ rest) (String.ofList body :: ws)

/-- After a line, the quote `q` is opened and never closed. -/
def Unclosed (cs : List Char) (q : Char) : Prop :=
  ∃ before body ws, cs = before ++ q :: body ∧ Line before ws ∧ isQuote q = true ∧ q ∉ body

variable {cs body rest before : List Char} {ws : List String} {q : Char}

/-! ## Reading a line -/

theorem wordsFrom_blanks (h : ∀ c ∈ before, isBlank c = true) (cs : List Char) :
    wordsFrom .between (before ++ cs) = wordsFrom .between cs := by
  induction before with
  | nil => rfl
  | cons c before ih =>
    rw [List.forall_mem_cons] at h
    have hc : ¬ isQuote c = true := fun hc => by simp [isBlank_of_isQuote hc] at h
    rw [List.cons_append, wordsFrom, if_neg hc, if_pos h.1, ih h.2]

/-- A word starts at its first character. -/
theorem wordsFrom_between {c : Char} (hc : isBlank c = false) (cs : List Char) :
    wordsFrom .between (c :: cs) = wordsFrom (.bare []) (c :: cs) := by
  simp [wordsFrom, hc]

theorem wordsFrom_run {run : List Char}
    (h : ∀ c ∈ run, isQuote c = false ∧ isBlank c = false) (w cs : List Char) :
    wordsFrom (.bare w) (run ++ cs) = wordsFrom (.bare (run.reverse ++ w)) cs := by
  induction run generalizing w with
  | nil => rfl
  | cons c run ih =>
    rw [List.forall_mem_cons] at h
    simp [wordsFrom, h.1, ih h.2]

theorem wordsFrom_closed (h : q ∉ body) (w cs : List Char) :
    wordsFrom (.inside q w) (body ++ q :: cs) = wordsFrom (.bare (body.reverse ++ w)) cs := by
  induction body generalizing w with
  | nil => simp [wordsFrom]
  | cons c body ih =>
    obtain ⟨hc, hbody⟩ : q ≠ c ∧ q ∉ body := by simpa using h
    rw [List.cons_append, wordsFrom, if_neg (Ne.symm hc), ih hbody]
    simp

theorem wordsFrom_open (h : q ∉ body) (w : List Char) :
    wordsFrom (.inside q w) body = .error ⟨q⟩ := by
  induction body generalizing w with
  | nil => rfl
  | cons c body ih =>
    obtain ⟨hc, hbody⟩ : q ≠ c ∧ q ∉ body := by simpa using h
    rw [wordsFrom, if_neg (Ne.symm hc), ih hbody]

theorem Segment.wordsFrom (h : Segment cs body) (w rest : List Char) :
    wordsFrom (.bare w) (cs ++ rest) = wordsFrom (.bare (body.reverse ++ w)) rest := by
  cases h with
  | bare _ plain => exact wordsFrom_run plain w rest
  | quoted quote closed =>
    rw [List.cons_append, List.cons_append, Command.wordsFrom, if_pos quote, List.append_assoc]
    exact wordsFrom_closed closed w rest

theorem Word.wordsFrom (h : Word cs body) (w rest : List Char) :
    wordsFrom (.bare w) (cs ++ rest) = wordsFrom (.bare (body.reverse ++ w)) rest := by
  induction h generalizing w with
  | one h => exact h.wordsFrom w rest
  | cons h _ ih => simp [h.wordsFrom, ih]

theorem Segment.exists_cons (h : Segment cs body) :
    ∃ c cs', cs = c :: cs' ∧ isBlank c = false := by
  cases h with
  | bare ne_nil plain =>
    obtain ⟨c, cs', rfl⟩ := List.exists_cons_of_ne_nil ne_nil
    exact ⟨c, cs', rfl, (plain c List.mem_cons_self).2⟩
  | quoted quote _ => exact ⟨_, _, rfl, isBlank_of_isQuote quote⟩

theorem Word.exists_cons (h : Word cs body) : ∃ c cs', cs = c :: cs' ∧ isBlank c = false := by
  cases h with
  | one h => exact h.exists_cons
  | cons h _ =>
    obtain ⟨c, cs', rfl, hc⟩ := h.exists_cons
    exact ⟨c, _, rfl, hc⟩

/-- A word ends at a blank or at the end of the line. -/
theorem wordsFrom_end (h : ∀ c ∈ rest.head?, isBlank c = true) (w : List Char) :
    wordsFrom (.bare w) rest = (String.ofList w.reverse :: ·) <$> wordsFrom .between rest := by
  cases rest with
  | nil => rfl
  | cons c rest =>
    have hb : isBlank c = true := h c rfl
    have hc : ¬ isQuote c = true := fun hc => by simp [isBlank_of_isQuote hc] at hb
    simp [wordsFrom, hb, hc]

/-- The word that stands first, with blanks before it. -/
theorem Word.wordsFrom_between (h : Word cs body) (hb : ∀ c ∈ before, isBlank c = true)
    (rest : List Char) :
    Command.wordsFrom .between (before ++ cs ++ rest)
      = Command.wordsFrom (.bare body.reverse) rest := by
  obtain ⟨c, cs', heq, hc⟩ := h.exists_cons
  have hword := h.wordsFrom [] rest
  rw [heq] at hword ⊢
  rw [List.append_assoc, wordsFrom_blanks hb, List.cons_append, Command.wordsFrom_between hc]
  simpa using hword

/-- What is read off a line are its words. -/
theorem Line.wordsFrom (h : Line cs ws) : wordsFrom .between cs = .ok ws := by
  induction h with
  | @blank cs blank =>
    have := wordsFrom_blanks blank []
    rwa [List.append_nil] at this
  | word blank hw apart _ ih =>
    rw [hw.wordsFrom_between blank, wordsFrom_end apart, ih, List.reverse_reverse]
    rfl

/-- A quote that is never closed is what the reading of a text fails for. -/
theorem Unclosed.wordsFrom (h : Unclosed cs q) : wordsFrom .between cs = .error ⟨q⟩ := by
  obtain ⟨before, body, ws, rfl, hline, quote, hopen⟩ := h
  induction hline with
  | blank blank =>
    rw [wordsFrom_blanks blank, Command.wordsFrom, if_pos quote, wordsFrom_open hopen]
  | @word before cs body' rest ws blank hw apart _ ih =>
    rw [List.append_assoc, hw.wordsFrom_between blank]
    cases rest with
    | nil => rw [List.nil_append, Command.wordsFrom, if_pos quote, wordsFrom_open hopen]
    | cons c rest => rw [wordsFrom_end (by simpa using apart), ih]; rfl

/-! ## Every text is read -/

theorem Line.cons_blank {c : Char} (hc : isBlank c = true) (h : Line cs ws) :
    Line (c :: cs) ws := by
  cases h with
  | blank blank => exact .blank (List.forall_mem_cons.2 ⟨hc, blank⟩)
  | @word before cs body rest ws blank hw apart line =>
    have hbefore : ∀ c' ∈ c :: before, isBlank c' = true := List.forall_mem_cons.2 ⟨hc, blank⟩
    exact Line.word hbefore hw apart line

/-- A word at the start of a line. -/
theorem Word.line (h : Word cs body) (apart : ∀ c ∈ rest.head?, isBlank c = true)
    (hline : Line rest ws) : Line (cs ++ rest) (String.ofList body :: ws) := by
  have hnone : ∀ c ∈ ([] : List Char), isBlank c = true := fun _ => nofun
  exact Line.word hnone h apart hline

/-- A segment makes a word of its own before a blank, and is part of the next
word otherwise. -/
theorem Segment.append_line (h : Segment cs body) (hline : Line rest ws) :
    ∃ ws', Line (cs ++ rest) ws' := by
  by_cases hrest : ∀ c ∈ rest.head?, isBlank c = true
  · exact ⟨_, (Word.one h).line hrest hline⟩
  · cases hline with
    | blank blank =>
      refine absurd (fun c hc => blank c ?_) hrest
      exact List.mem_of_mem_head? hc
    | @word before cs' body' rest ws blank hw apart line =>
      cases before with
      | nil =>
        have hglued := (Word.cons h hw).line apart line
        rw [List.append_assoc] at hglued
        exact ⟨_, hglued⟩
      | cons c before =>
        refine absurd (fun c' hc => ?_) hrest
        cases hc
        exact blank c List.mem_cons_self

/-- Where a text in front of a line makes a line of it again, it does so in
front of any text: a quote that is left open in it stays so. -/
theorem line_or_unclosed_append (front : List Char)
    (hfront : ∀ before ws, Line before ws → ∃ ws', Line (front ++ before) ws')
    (h : (∃ ws, Line cs ws) ∨ ∃ q, Unclosed cs q) :
    (∃ ws, Line (front ++ cs) ws) ∨ ∃ q, Unclosed (front ++ cs) q := by
  rcases h with ⟨ws, hline⟩ | ⟨q, before, body, ws, rfl, hline, quote, hopen⟩
  · exact .inl (hfront cs ws hline)
  · obtain ⟨ws', hline'⟩ := hfront before ws hline
    exact .inr ⟨q, front ++ before, body, ws', by simp, hline', quote, hopen⟩

/-- A text is a line, or it opens a quote that it never closes. -/
theorem line_or_unclosed (cs : List Char) : (∃ ws, Line cs ws) ∨ ∃ q, Unclosed cs q := by
  match cs with
  | [] => exact .inl ⟨[], .blank fun _ => nofun⟩
  | c :: cs =>
    by_cases hb : isBlank c = true
    · exact line_or_unclosed_append [c] (fun _ ws h => ⟨ws, h.cons_blank hb⟩)
        (line_or_unclosed cs)
    by_cases hq : isQuote c = true
    · by_cases hmem : c ∈ cs
      · obtain ⟨body, rest, rfl, hclosed⟩ := List.eq_append_cons_of_mem hmem
        have hsegment : Segment (c :: body ++ [c]) body := .quoted hq hclosed
        have hrest := line_or_unclosed_append _ (fun _ _ => hsegment.append_line)
          (line_or_unclosed rest)
        simpa using hrest
      · exact .inr ⟨c, [], cs, [], rfl, .blank fun _ => nofun, hq, hmem⟩
    · have hsegment : Segment [c] [c] := .bare (List.cons_ne_nil c []) (by simp [hq, hb])
      exact line_or_unclosed_append _ (fun _ _ => hsegment.append_line) (line_or_unclosed cs)
termination_by cs.length

/-! ## Trimming -/

theorem Line.append_blanks {after : List Char} (hafter : ∀ c ∈ after, isBlank c = true)
    (h : Line cs ws) : Line (cs ++ after) ws := by
  induction h with
  | blank blank => exact .blank (List.forall_mem_append.2 ⟨blank, hafter⟩)
  | @word before cs body rest ws blank hw apart _ ih =>
    have hhead : ∀ c ∈ (rest ++ after).head?, isBlank c = true := by
      cases rest with
      | nil => exact fun c hc => hafter c (List.mem_of_mem_head? hc)
      | cons c rest => exact apart
    rw [List.append_assoc]
    exact .word blank hw hhead ih

theorem Unclosed.append_blanks {after : List Char} (hafter : ∀ c ∈ after, isBlank c = true)
    (h : Unclosed cs q) : Unclosed (cs ++ after) q := by
  obtain ⟨before, body, ws, rfl, hline, quote, hopen⟩ := h
  have hq : q ∉ after := fun hq => by
    have hblank := hafter q hq
    rw [isBlank_of_isQuote quote] at hblank
    cases hblank
  refine ⟨before, body ++ after, ws, by simp, hline, quote, ?_⟩
  simp [hopen, hq]

/-- Trimming a line changes nothing, also where a quote is left open. -/
theorem words_trim (line : String) : words (String.ofList (trim line.toList)) = words line := by
  obtain ⟨before, after, hbefore, hafter, heq⟩ := exists_eq_append_trim line.toList
  have hline : wordsFrom .between line.toList = wordsFrom .between (trim line.toList ++ after) := by
    conv => lhs; rw [heq, List.append_assoc]
    exact wordsFrom_blanks hbefore _
  unfold words
  rw [String.toList_ofList, hline]
  rcases line_or_unclosed (trim line.toList) with ⟨ws, h⟩ | ⟨q, h⟩
  · rw [h.wordsFrom, (h.append_blanks hafter).wordsFrom]
  · rw [h.wordsFrom, (h.append_blanks hafter).wordsFrom]

/-! ## Words in quotes -/

/-- A character as it stands inside single quotes: a single quote closes them,
stands between double ones, and opens them again. -/
def quotedChar (c : Char) : List Char :=
  if c = '\'' then ['\'', '"', '\'', '"', '\''] else [c]

/-- A text in single quotes. -/
def quoted (text : String) : List Char := '\'' :: text.toList.flatMap quotedChar ++ ['\'']

/-- A line of these words, each in quotes. -/
def lineOf (ws : List String) : String := String.ofList (ws.flatMap fun w => quoted w ++ [' '])

theorem wordsFrom_quotedChar (c : Char) (w rest : List Char) :
    wordsFrom (.inside '\'' w) (quotedChar c ++ rest) = wordsFrom (.inside '\'' (c :: w)) rest := by
  unfold quotedChar
  split
  · next hc => simp [hc, wordsFrom, isQuote]
  · next hc => simp [hc, wordsFrom]

theorem wordsFrom_quotedChars (cs w rest : List Char) :
    wordsFrom (.inside '\'' w) (cs.flatMap quotedChar ++ rest)
      = wordsFrom (.inside '\'' (cs.reverse ++ w)) rest := by
  induction cs generalizing w with
  | nil => rfl
  | cons c cs ih => simp [wordsFrom_quotedChar, ih]

theorem wordsFrom_quoted (word : String) (rest : List Char) :
    wordsFrom .between (quoted word ++ [' '] ++ rest)
      = (word :: ·) <$> wordsFrom .between rest := by
  have hquote : isQuote '\'' = true := rfl
  have hblank : isBlank ' ' = true := rfl
  have hspace : isQuote ' ' = false := rfl
  simp [quoted, wordsFrom, hquote, hblank, hspace, wordsFrom_quotedChars]

/-- Any list of words is read off the line that has them in quotes. -/
theorem words_lineOf (ws : List String) : words (lineOf ws) = .ok ws := by
  unfold words lineOf
  rw [String.toList_ofList]
  induction ws with
  | nil => rfl
  | cons w ws ih =>
    rw [List.flatMap_cons, wordsFrom_quoted, ih]
    rfl

/-- Reading accepts exactly the lines of the grammar, and reads off them what
their words say. It fails exactly for a quote that is opened and never closed,
and names it. Trimming a line changes nothing, and every list of words, empty
ones and ones with blanks and quotes included, is read off some line. -/
theorem words_follow_grammar :
    (∀ line : String, (∀ ws, words line = .ok ws ↔ Line line.toList ws)
        ∧ (∀ q, words line = .error ⟨q⟩ ↔ Unclosed line.toList q)
        ∧ words (String.ofList (trim line.toList)) = words line)
      ∧ ∀ ws : List String, words (lineOf ws) = .ok ws := by
  refine ⟨fun line => ⟨fun ws => ⟨fun h => ?_, Line.wordsFrom⟩, fun q => ⟨fun h => ?_,
    Unclosed.wordsFrom⟩, words_trim line⟩, words_lineOf⟩
  · rcases line_or_unclosed line.toList with ⟨ws', hline⟩ | ⟨q, hopen⟩
    · obtain rfl : ws' = ws := Except.ok.inj (hline.wordsFrom.symm.trans h)
      exact hline
    · cases hopen.wordsFrom.symm.trans h
  · rcases line_or_unclosed line.toList with ⟨ws, hline⟩ | ⟨q', hopen⟩
    · cases hline.wordsFrom.symm.trans h
    · cases hopen.wordsFrom.symm.trans h
      exact hopen

/-- Parts in quotes and bare ones make one word, and a quote of the other kind
is a character like any other. -/
example : words "set var e '' pre\"it's\"'\"'post  "
    = .ok ["set", "var", "e", "", "preit's\"post"] := by
  decide +kernel

end Command

end ParamStore
