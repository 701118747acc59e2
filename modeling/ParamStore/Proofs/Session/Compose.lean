import ParamStore.Proofs.Path
import ParamStore.Proofs.Session.Refusal
import ParamStore.Proofs.Session.Script

/-!
# Scripts one after the other

What the lines of a script come to does not depend on the numbers that they
bear, other than in the number that a failure names (`runLines_padded`). So a
script goes on with another as if that were run by itself
(`runText_append_newline`), and idle lines can be put in anywhere.

A script that fails stops cleanly: the line that fails is no part of what has
been done, as a command that is refused leaves the session as it was
(`runLine_refused`).
-/

namespace ParamStore

namespace Session

open Text Command

/-- What the lines of a text come to. -/
def outcome {m : Type → Type} [Monad m] (carryOut : Session → Command → m (Response × Session))
    (s : Session) (text : String) : m (Except LineFailure (List String) × Session) :=
  runLines carryOut 1 s (pieces '\n' text.toList)

section Numbers

variable {m : Type → Type} [Monad m] {n n' : Nat} {s : Session}
  {blocks : List (List (List Char))} {idle lines : List (List Char)}

/-! ## Numbers of lines -/

/-- What lines come to that bear other numbers. -/
def renumber (place : Nat → Nat) (out : Except LineFailure (List String) × Session) :
    Except LineFailure (List String) × Session :=
  (out.1.mapError fun e => { e with number := place e.number }, out.2)

/-- Lines with blocks of others put in: one block before each line, as far as
there are blocks, and those that are left over at the end. -/
def padded : List (List (List Char)) → List (List Char) → List (List Char)
  | blocks, [] => blocks.flatten
  | blocks, line :: lines => blocks.headD [] ++ line :: padded blocks.tail lines

/-- The number of a line after blocks were put in. -/
def placeIn (blocks : List (List (List Char))) (number : Nat) : Nat :=
  number + (blocks.take number).flatten.length

theorem padded_nil (lines : List (List Char)) : padded [] lines = lines := by
  induction lines with
  | nil => rfl
  | cons line lines ih => exact congrArg _ ih

theorem length_flatten_take_succ (blocks : List (List (List Char))) (i : Nat) :
    (blocks.take (i + 1)).flatten.length
      = (blocks.headD []).length + (blocks.tail.take i).flatten.length := by
  cases blocks <;> simp

/-- A line has the number that it is said to have. -/
theorem getElem?_padded {i : Nat} {line : List Char} (h : lines[i]? = some line) :
    (padded blocks lines)[placeIn blocks (i + 1) - 1]? = some line := by
  have hplace (blocks : List (List (List Char))) (i : Nat) : placeIn blocks (i + 1) - 1
      = (blocks.headD []).length + (i + (blocks.tail.take i).flatten.length) := by
    rw [placeIn, length_flatten_take_succ]
    omega
  induction lines generalizing blocks i with
  | nil => cases h
  | cons line' lines ih =>
    rw [padded, hplace, List.getElem?_append_right (Nat.le_add_right _ _), Nat.add_sub_cancel_left]
    cases i with
    | zero => simpa using h
    | succ i =>
      have hrest : (padded blocks.tail lines)[placeIn blocks.tail (i + 1) - 1]? = some line := ih h
      rw [placeIn, Nat.add_right_comm, Nat.add_sub_cancel] at hrest
      rw [Nat.add_right_comm]
      exact hrest

theorem runLines_idle (carryOut : Session → Command → m (Response × Session))
    (hidle : ∀ line ∈ idle, isIdle (trim line) = true) (n : Nat) (s : Session)
    (lines : List (List Char)) :
    runLines carryOut n s (idle ++ lines) = runLines carryOut (n + idle.length) s lines := by
  induction idle generalizing n with
  | nil => rfl
  | cons line idle ih =>
    rw [List.forall_mem_cons] at hidle
    have hasks : asks line = .ok none := if_pos hidle.1
    rw [List.cons_append, runLines_cons, hasks, List.length_cons, Nat.add_comm idle.length,
      ← Nat.add_assoc]
    exact ih hidle.2 (n + 1)

/-- Idle lines change nothing but the numbers of the others. -/
theorem runLines_padded [LawfulMonad m] (carryOut : Session → Command → m (Response × Session))
    {place : Nat → Nat} (hidle : ∀ block ∈ blocks, ∀ line ∈ block, isIdle (trim line) = true)
    (hplace : ∀ i < lines.length,
      place (n + i) = n' + i + (blocks.take (i + 1)).flatten.length) (s : Session) :
    runLines carryOut n' s (padded blocks lines)
      = renumber place <$> runLines carryOut n s lines := by
  induction lines generalizing blocks n n' s with
  | nil =>
    have hall : ∀ line ∈ blocks.flatten, isIdle (trim line) = true := fun line hline => by
      obtain ⟨block, hblock, hline⟩ := List.mem_flatten.1 hline
      exact hidle block hblock line hline
    have hnone := runLines_idle carryOut hall n' s []
    rw [List.append_nil] at hnone
    simp [padded, hnone, runLines, renumber, Except.mapError]
  | cons line lines ih =>
    have hhead : ∀ line ∈ blocks.headD [], isIdle (trim line) = true := by
      cases blocks with
      | nil => exact fun _ hline => absurd hline List.not_mem_nil
      | cons block blocks => exact hidle block List.mem_cons_self
    have htail : ∀ block ∈ blocks.tail, ∀ line ∈ block, isIdle (trim line) = true :=
      fun block hblock => hidle block (List.mem_of_mem_tail hblock)
    have hfirst : place n = n' + (blocks.headD []).length := by
      have := hplace 0 (Nat.succ_pos _)
      rw [length_flatten_take_succ] at this
      simpa using this
    have hrest : ∀ i < lines.length, place (n + 1 + i)
        = n' + (blocks.headD []).length + 1 + i + (blocks.tail.take (i + 1)).flatten.length := by
      intro i hi
      have := hplace (i + 1) (Nat.succ_lt_succ hi)
      rw [length_flatten_take_succ] at this
      rw [Nat.add_right_comm n 1 i, Nat.add_assoc n i 1, this]
      omega
    rw [padded, runLines_idle carryOut hhead, runLines_cons, runLines_cons]
    cases asks line with
    | error message => simp [renumber, Except.mapError, hfirst]
    | ok c =>
      cases c with
      | none => exact ih htail hrest s
      | some c =>
        simp only [map_bind]
        refine bind_congr fun out => ?_
        obtain ⟨response, s⟩ := out
        cases response with
        | error message => simp [renumber, Except.mapError, hfirst]
        | ok output =>
          simp only [ih htail hrest, map_eq_pure_bind, bind_assoc, pure_bind]
          refine bind_congr fun out => ?_
          obtain ⟨answer, s⟩ := out
          cases answer <;> simp [renumber, Except.mapError, Except.map]

theorem runLines_add [LawfulMonad m] (carryOut : Session → Command → m (Response × Session))
    (n k : Nat) (s : Session) (lines : List (List Char)) :
    runLines carryOut (n + k) s lines = renumber (· + k) <$> runLines carryOut n s lines := by
  have hshift : ∀ i < lines.length,
      n + i + k = n + k + i + (([] : List (List (List Char))).take (i + 1)).flatten.length := by
    intro i _
    simp only [List.take_nil, List.flatten_nil, List.length_nil]
    omega
  have hnone : ∀ block ∈ ([] : List (List (List Char))), ∀ line ∈ block,
      isIdle (trim line) = true := fun _ hblock => absurd hblock List.not_mem_nil
  rw [← runLines_padded carryOut hnone hshift, padded_nil]

end Numbers

section Outputs

variable {m : Type → Type} [Monad m] [LawfulMonad m]

/-! ## Outputs -/

/-- What lines come to, without the outputs that are empty. -/
def withoutEmpty (out : Except LineFailure (List String) × Session) :
    Except LineFailure (List String) × Session :=
  (out.1.map (List.filter (· ≠ "")), out.2)

/-- There are none to be left out. -/
theorem withoutEmpty_runLines (carryOut : Session → Command → m (Response × Session)) (n : Nat)
    (s : Session) (lines : List (List Char)) :
    withoutEmpty <$> runLines carryOut n s lines = runLines carryOut n s lines := by
  induction lines generalizing n s with
  | nil => simp [runLines, withoutEmpty, Except.map]
  | cons line lines ih =>
    rw [runLines_cons]
    cases asks line with
    | error message => simp [withoutEmpty, Except.map]
    | ok c =>
      cases c with
      | none => exact ih (n + 1) s
      | some c =>
        simp only [map_bind]
        refine bind_congr fun out => ?_
        obtain ⟨response, s⟩ := out
        cases response with
        | error message => simp [withoutEmpty, Except.map]
        | ok output =>
          dsimp only
          rw [← ih (n + 1) s]
          simp only [map_eq_pure_bind, bind_assoc, pure_bind]
          refine bind_congr fun out => ?_
          obtain ⟨answer, s⟩ := out
          cases answer <;> by_cases h : output = "" <;> simp [withoutEmpty, Except.map, h]

/-- The response of a script that goes on, after this output and so many lines,
with what comes to this. -/
def continued (output : String) (count : Nat) : Except LineFailure (List String) → Response
  | .ok outputs => .ok ("\n".intercalate ([output, "\n".intercalate outputs].filter (· ≠ "")))
  | .error e => report (.error ⟨e.number + count, e.message⟩)

theorem intercalate_eq_empty {l : List String} (hl : ∀ x ∈ l, x ≠ "") :
    "\n".intercalate l = "" ↔ l = [] := by
  rcases l with _ | ⟨x, _ | ⟨y, l⟩⟩
  · simp
  · simpa using hl x List.mem_cons_self
  · simp [String.intercalate_cons_cons]

theorem report_append {first more : List String} (hfirst : ∀ x ∈ first, x ≠ "")
    (hmore : ∀ x ∈ more, x ≠ "") (count : Nat) :
    report (.ok (first ++ more)) = continued ("\n".intercalate first) count (.ok more) := by
  by_cases hf : first = []
  · by_cases hm : more = []
    · simp [report, continued, hf, hm]
    · have hne := (intercalate_eq_empty hmore).not.2 hm
      simp [report, continued, hf, hne]
  · have hfirst' := (intercalate_eq_empty hfirst).not.2 hf
    by_cases hm : more = []
    · simp [report, continued, hm, hfirst']
    · have hmore' := (intercalate_eq_empty hmore).not.2 hm
      simp [report, continued, hfirst', hmore', String.intercalate_append_of_ne_nil hf hm,
        String.intercalate_cons_cons]

theorem runText_append_newline (carryOut : Session → Command → m (Response × Session))
    (s : Session) (first more : String) :
    runText carryOut s (first ++ "\n" ++ more) = do
      match ← runText carryOut s first with
      | (.error message, s) => return (.error message, s)
      | (.ok output, s) =>
        let (answer, s) ← outcome carryOut s more
        return (continued output (first.toList.count '\n' + 1) answer, s) := by
  have hpieces : pieces '\n' (first ++ "\n" ++ more).toList
      = pieces '\n' first.toList ++ pieces '\n' more.toList := by
    rw [String.toList_append, String.toList_append, List.append_assoc]
    exact pieces_append_sep '\n' first.toList more.toList
  rw [runText_eq, runText_eq, hpieces, runLines_append, length_pieces,
    ← withoutEmpty_runLines carryOut 1 s (pieces '\n' first.toList)]
  simp only [map_eq_pure_bind, bind_assoc, pure_bind]
  refine bind_congr fun out => ?_
  obtain ⟨answer, s⟩ := out
  cases answer with
  | error e => simp [withoutEmpty, Except.map, report]
  | ok outputs =>
    simp only [withoutEmpty, Except.map, report, outcome]
    rw [runLines_add carryOut 1, ← withoutEmpty_runLines carryOut 1 s (pieces '\n' more.toList)]
    simp only [map_eq_pure_bind, bind_assoc, pure_bind]
    refine bind_congr fun out => ?_
    obtain ⟨answer, s⟩ := out
    cases answer with
    | error e => rfl
    | ok more =>
      have hne (l : List String) : ∀ x ∈ l.filter (· ≠ ""), x ≠ "" := by simp
      exact congrArg (fun response => pure (response, s)) (report_append (hne outputs) (hne more) _)

end Outputs

/-! ## First lines -/

/-- The first lines of a text, so many of them. -/
def firstLines (count : Nat) (text : String) : String :=
  String.ofList (['\n'].intercalate ((pieces '\n' text.toList).take count))

theorem outcome_firstLines {m : Type → Type} [Monad m]
    (carryOut : Session → Command → m (Response × Session)) (s : Session) (count : Nat)
    (text : String) : outcome carryOut s (firstLines count text)
      = runLines carryOut 1 s ((pieces '\n' text.toList).take count) := by
  unfold outcome firstLines
  rw [String.toList_ofList]
  cases htake : (pieces '\n' text.toList).take count with
  | nil =>
    -- the text without lines has one, which is idle
    have hidle : ∀ line ∈ [([] : List Char)], isIdle (trim line) = true := by decide
    exact runLines_idle carryOut hidle 1 s []
  | cons line lines =>
    have hno : ∀ line' ∈ line :: lines, '\n' ∉ line' := fun line' hline' =>
      not_mem_of_mem_pieces (List.mem_of_mem_take (htake ▸ hline'))
    rw [pieces_intercalate (List.cons_ne_nil _ _) hno]

section Failures

variable {ω : Type} {s s' : Session} {w w' : ω} {n : Nat} {e : LineFailure}

/-! ## Failures -/

section Steps

variable {carryOut : Session → Command → StateM ω (Response × Session)} {line : List Char}
  {c : Command} (n : Nat) (lines : List (List Char)) (hasks : asks line = .ok (some c))

include hasks

theorem run_runLines_error {message : String}
    (hout : (carryOut s c).run w = ((.error message, s'), w')) :
    (runLines carryOut n s (line :: lines)).run w = ((.error ⟨n, message⟩, s'), w') := by
  simp only [runLines_cons, hasks, StateT.run_bind, hout]
  rfl

theorem run_runLines_ok {output : String}
    (hout : (carryOut s c).run w = ((.ok output, s'), w')) :
    (runLines carryOut n s (line :: lines)).run w =
      let ((answer, s''), w'') := (runLines carryOut (n + 1) s' lines).run w'
      ((answer.map fun outputs => if output = "" then outputs else output :: outputs, s''),
        w'') := by
  simp only [runLines_cons, hasks, StateT.run_bind, hout]
  rfl

end Steps

/-- Lines that fail do so at one of them; those before it do not. -/
theorem runLines_error {carryOut : Session → Command → StateM ω (Response × Session)}
    {lines : List (List Char)}
    (h : (runLines carryOut n s lines).run w = ((.error e, s'), w')) :
    ∃ before line after outputs s₁ w₁, lines = before ++ line :: after
      ∧ e.number = n + before.length
      ∧ (runLines carryOut n s before).run w = ((.ok outputs, s₁), w₁)
      ∧ (runLines carryOut e.number s₁ [line]).run w₁ = ((.error e, s'), w') := by
  induction lines generalizing n s w with
  | nil => cases h
  | cons line lines ih =>
    have hnumber (before : List (List Char)) (hn : e.number = n + 1 + before.length) :
        e.number = n + (line :: before).length := by
      rw [hn, List.length_cons, Nat.add_assoc, Nat.add_comm 1]
    cases hasks : asks line with
    | error message =>
      rw [runLines_cons, hasks] at h
      cases h
      refine ⟨[], line, lines, [], _, _, rfl, rfl, rfl, ?_⟩
      rw [runLines_cons, hasks]
      rfl
    | ok c =>
      cases c with
      | none =>
        rw [runLines_cons, hasks] at h
        obtain ⟨before, line', after, outputs, s₁, w₁, rfl, hn, hbefore, hline⟩ := ih h
        refine ⟨line :: before, line', after, outputs, s₁, w₁, rfl, hnumber before hn, ?_, hline⟩
        rwa [runLines_cons, hasks]
      | some c =>
        obtain ⟨⟨⟨response, s₂⟩, w₂⟩, hout⟩ : ∃ out, (carryOut s c).run w = out := ⟨_, rfl⟩
        cases response with
        | error message =>
          have hone (lines : List (List Char)) := run_runLines_error n lines hasks hout
          rw [hone] at h
          cases h
          exact ⟨[], line, lines, [], _, _, rfl, rfl, rfl, hone []⟩
        | ok output =>
          have hgo (lines : List (List Char)) := run_runLines_ok n lines hasks hout
          obtain ⟨⟨⟨answer, s₃⟩, w₃⟩, hrest⟩ :
            ∃ out, (runLines carryOut (n + 1) s₂ lines).run w₂ = out := ⟨_, rfl⟩
          rw [hgo, hrest] at h
          cases answer with
          | ok outputs => cases h
          | error _ =>
            cases h
            obtain ⟨before, line', after, outputs, s₁, w₁, rfl, hn, hbefore, hline⟩ := ih hrest
            have hok := hgo before
            rw [hbefore] at hok
            exact ⟨line :: before, line', after, _, s₁, w₁, rfl, hnumber before hn, hok, hline⟩

/-- A line that is refused, other than by a script that it has run, has changed
nothing. -/
theorem runLine_refused (hs : s.container.Sound) (read : String → StateM ω FileText) (depth : Nat)
    {line : List Char} (hplain : ¬ HidesRun line)
    (h : (runLines (executeWithin read depth) n s [line]).run w = ((.error e, s'), w')) :
    s' = s ∧ w' = w := by
  rw [runLines_cons] at h
  cases hasks : asks line with
  | error message =>
    rw [hasks] at h
    cases h
    exact ⟨rfl, rfl⟩
  | ok c =>
    cases c with
    | none =>
      rw [hasks] at h
      cases h
    | some c =>
      have hc (path : String) : c ≠ .run path := fun heq =>
        hplain (asks_run_iff.1 (heq ▸ hasks)).1
      obtain ⟨response, s₁, hperform, hkept⟩ := perform_spares hs hc
      obtain ⟨script, hscript⟩ := executeWithin_eq_perform read depth s c
      simp only [hasks, hscript, hperform] at h
      cases response with
      | error message =>
        cases h
        exact ⟨hkept message rfl, rfl⟩
      | ok output => cases h

/-- A script that fails has done what the lines before the one that fails do by
themselves, unless that line has run a script. -/
theorem outcome_error (hs : s.container.Reachable) (read : String → StateM ω FileText)
    (depth : Nat) {text : String}
    (h : (outcome (executeWithin read depth) s text).run w = ((.error e, s'), w')) :
    ∃ before line after, pieces '\n' text.toList = before ++ line :: after
      ∧ e.number = before.length + 1
      ∧ (outcome (executeWithin read depth) s (firstLines (before.length + 1) text)).run w
        = ((.error e, s'), w')
      ∧ (¬ HidesRun line → ∃ outputs,
        (outcome (executeWithin read depth) s (firstLines before.length text)).run w
          = ((.ok outputs, s'), w')) := by
  obtain ⟨before, line, after, outputs, s₁, w₁, hlines, hn, hbefore, hline⟩ := runLines_error h
  have hfirst : (pieces '\n' text.toList).take before.length = before := by
    rw [hlines, List.take_left]
  have hthrough : (pieces '\n' text.toList).take (before.length + 1) = before ++ [line] := by
    rw [hlines, List.take_length_add_append]
    rfl
  refine ⟨before, line, after, hlines, hn.trans (Nat.add_comm 1 _), ?_, fun hplain => ?_⟩
  · rw [outcome_firstLines, hthrough, runLines_append, ← hn]
    simp only [StateT.run_bind, hbefore]
    exact congrArg (fun out => ((out.1.1.map (outputs ++ ·), out.1.2), out.2)) hline
  · have hreachable := reachable_runLines read depth hs 1 before w
    rw [hbefore] at hreachable
    obtain ⟨rfl, rfl⟩ := runLine_refused hreachable.sound read depth hplain hline
    rw [outcome_firstLines, hfirst]
    exact ⟨outputs, hbefore⟩

end Failures

variable {s : Session}

/-- A script goes on with another as if that were run by itself, on what the
first has left: if the first fails, that is all; otherwise the outputs that
are not empty come one after the other, and a failure names its line as
counted from the first. Idle lines may be put in anywhere: the session and
the outputs stay the same, and a failure names the same line where it
stands now. A script that fails does so at one of its lines, whatever comes
after, and the lines before it do not fail. If that line does not hide the
name `run`, these leave the same session, and so it has changed nothing. -/
theorem scripts_compose (hs : s.container.Reachable) :
    (∀ {m : Type → Type} [Monad m] [LawfulMonad m]
        (carryOut : Session → Command → m (Response × Session)),
      (∀ text, runText carryOut s text
        = (fun out => (report out.1, out.2)) <$> outcome carryOut s text)
      ∧ (∀ first more : String, runText carryOut s (first ++ "\n" ++ more) = do
          match ← runText carryOut s first with
          | (.error message, s) => return (.error message, s)
          | (.ok output, s) =>
            let (answer, s) ← outcome carryOut s more
            return (continued output (first.toList.count '\n' + 1) answer, s))
      ∧ ∀ (text text' : String) (blocks : List (List (List Char))),
        (∀ block ∈ blocks, ∀ line ∈ block, isIdle (trim line) = true) →
        pieces '\n' text'.toList = padded blocks (pieces '\n' text.toList) →
        outcome carryOut s text' = renumber (placeIn blocks) <$> outcome carryOut s text
          ∧ ∀ (i : Nat) line, (pieces '\n' text.toList)[i]? = some line →
            (pieces '\n' text'.toList)[placeIn blocks (i + 1) - 1]? = some line)
    ∧ ∀ {ω : Type} (read : String → StateM ω FileText) (depth : Nat) (text : String) (w w' : ω)
        (e : LineFailure) (s' : Session),
      (outcome (executeWithin read depth) s text).run w = ((.error e, s'), w') →
      ∃ before line after, pieces '\n' text.toList = before ++ line :: after
        ∧ e.number = before.length + 1
        ∧ (outcome (executeWithin read depth) s (firstLines (before.length + 1) text)).run w
          = ((.error e, s'), w')
        ∧ (¬ HidesRun line → ∃ outputs,
          (outcome (executeWithin read depth) s (firstLines before.length text)).run w
            = ((.ok outputs, s'), w')) := by
  refine ⟨fun carryOut => ⟨fun text => runText_eq carryOut s text,
    fun first more => runText_append_newline carryOut s first more,
    fun text text' blocks hidle hlines => ?_⟩,
    fun read depth text w w' e s' => outcome_error hs read depth⟩
  unfold outcome
  rw [hlines]
  refine ⟨runLines_padded carryOut hidle (fun i _ => ?_) s, fun i line => getElem?_padded⟩
  rw [placeIn, Nat.add_comm 1 i]

/-- A script that looks for what is not there. -/
def missing : String := "set var a 1\nget var b\nset var a 2"

/-- The same with a comment before the second line. -/
def commented : String := "set var a 1\n# next\nget var b\nset var a 2"

/-- There are no files. -/
def noFiles (_ : String) : StateM Unit FileText := pure (.error .missing)

theorem scripts_compose_missing :
    (start {}).container.Reachable
      ∧ (∀ line ∈ pieces '\n' missing.toList, ¬ HidesRun line)
      ∧ ∃ s' outputs,
        (outcome (executeWithin noFiles 0) (start {}) missing).run ()
          = ((.error ⟨2, "Nothing stored at 'b'"⟩, s'), ())
        ∧ (outcome (executeWithin noFiles 0) (start {}) (firstLines 1 missing)).run ()
          = ((.ok outputs, s'), ())
        ∧ (outcome (executeWithin noFiles 0) (start {}) commented).run ()
          = ((.error ⟨3, "Nothing stored at 'b'"⟩, s'), ()) := by
  have hreachable : (start {}).container.Reachable := ⟨{}, [], rfl⟩
  have hplain : ∀ line ∈ pieces '\n' missing.toList, ¬ HidesRun line := by decide +kernel
  obtain ⟨⟨⟨answer, s'⟩, ⟨⟩⟩, hout⟩ :
    ∃ out, (outcome (executeWithin noFiles 0) (start {}) missing).run () = out := ⟨_, rfl⟩
  have hanswer : ((outcome (executeWithin noFiles 0) (start {}) missing).run ()).1.1
    = .error ⟨2, "Nothing stored at 'b'"⟩ := rfl
  rw [hout] at hanswer
  cases hanswer
  obtain ⟨hcompose, hfailed⟩ := scripts_compose hreachable
  obtain ⟨before, line, after, hlines, hn, -, hclean⟩ := hfailed noFiles 0 missing () () _ s' hout
  obtain ⟨outputs, hbefore⟩ := hclean (hplain line (by simp [hlines]))
  rw [← Nat.succ.inj hn] at hbefore
  have hidle : ∀ block ∈ [[], ["# next".toList]], ∀ line ∈ block, isIdle (trim line) = true := by
    decide +kernel
  have hpadded := ((hcompose (executeWithin noFiles 0)).2.2 missing commented _ hidle rfl).1
  refine ⟨hreachable, hplain, s', outputs, hout, hbefore, ?_⟩
  rw [hpadded, StateT.run_map, hout]
  rfl

end Session

end ParamStore
