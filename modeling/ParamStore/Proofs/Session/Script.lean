import ParamStore.Proofs.Command.Words
import ParamStore.Proofs.Session.Run

/-!
# Lines of a script

A script carries out what its lines ask for (`asks`), one after the other,
up to the first that fails. A line that names the command `run` is refused
before anything is carried out (`runLines_of_name`), unless quotes in that
name hide it: such a line, and no other, has another script run
(`asks_run_iff`).

A script without such lines runs nothing but its own commands. What it
comes to does not depend on what any file holds.
-/

namespace ParamStore

namespace Session

open Text Command

variable {m : Type → Type} [Monad m] {line : List Char} {path : String}

/-! ## What a line asks for -/

/-- The command that a line of a script asks for. -/
def asked? (line : List Char) : Option Command := (asks line).toOption.join

/-- A line that names the command `run` in a word with quotes in it. -/
def HidesRun (line : List Char) : Prop :=
  isIdle (trim line) = false ∧ name? (trim line) = some "run"
    ∧ (firstWord (trim line)).any isQuote = true

instance : DecidablePred HidesRun :=
  fun _ => inferInstanceAs (Decidable (_ ∧ _ ∧ _))

theorem readLine_eq_run {line : String} :
    readLine line = .ok (.run path) ↔ ∃ rest, words line = .ok ("run" :: path :: rest) := by
  unfold readLine
  cases words line with
  | error e => simp
  | ok ws =>
    simp only [Except.ok.injEq, ← ofArguments_eq_run]
    cases ofArguments ws <;> simp [Except.mapError]

/-- A line that names `run` without quotes is refused. -/
theorem asks_of_name (hline : isIdle (trim line) = false) (hname : name? (trim line) = some "run")
    (hplain : ¬ HidesRun line) : asks line = .error runRefusal := by
  have hq : (firstWord (trim line)).any isQuote = false := by
    rw [← Bool.not_eq_true]
    exact fun hq => hplain ⟨hline, hname, hq⟩
  have hne : trim line ≠ [] := fun hnil => by rw [hnil] at hline; cases hline
  unfold asks
  rw [if_neg (by simp [hline]), if_pos (name?_eq_firstWord hne hq hname)]

/-- The lines that have another script run are those that hide its name
behind quotes, and give it a path. -/
theorem asks_run_iff : asks line = .ok (some (.run path)) ↔
    HidesRun line ∧ ∃ rest, words (String.ofList (trim line)) = .ok ("run" :: path :: rest) := by
  constructor
  · intro h
    unfold asks at h
    split at h
    · cases h
    next hidle =>
    split at h
    · cases h
    next hfirst =>
    have hread : readLine (String.ofList (trim line)) = .ok (.run path) := by
      cases hread : readLine (String.ofList (trim line)) with
      | error e => rw [hread] at h; cases h
      | ok c => rw [hread] at h; cases h; rfl
    obtain ⟨rest, hwords⟩ := readLine_eq_run.1 hread
    have hname : name? (trim line) = some "run" := name?_eq_some.2 ⟨_, hwords⟩
    rw [Bool.not_eq_true] at hidle
    refine ⟨⟨hidle, hname, ?_⟩, rest, hwords⟩
    by_contra hq
    rw [Bool.not_eq_true] at hq
    have hne : trim line ≠ [] := fun hnil => by rw [hnil] at hidle; cases hidle
    exact hfirst (name?_eq_firstWord hne hq hname)
  · rintro ⟨⟨hidle, -, hq⟩, rest, hwords⟩
    have hfirst : firstWord (trim line) ≠ "run".toList := fun heq => by
      rw [heq] at hq
      revert hq
      decide
    unfold asks
    rw [if_neg (by simp [hidle]), if_neg hfirst, readLine_eq_run.2 ⟨rest, hwords⟩]
    rfl

/-! ## Lines one after the other -/

/-- Carry out commands, and note each one. -/
def noting (carryOut : Session → Command → m (Response × Session))
    (s : Session) (c : Command) : StateT (List Command) m (Response × Session) :=
  fun noted => do return (← carryOut s c, noted ++ [c])

@[simp] theorem run_noting (carryOut : Session → Command → m (Response × Session)) (s : Session)
    (c : Command) (noted : List Command) : (noting carryOut s c).run noted
      = do return (← carryOut s c, noted ++ [c]) := rfl

variable [LawfulMonad m]

/-- A script in two parts goes on with the second where the first has not
failed. -/
theorem runLines_append (carryOut : Session → Command → m (Response × Session)) (number : Nat)
    (s : Session) (first lines : List (List Char)) :
    runLines carryOut number s (first ++ lines) = do
      match ← runLines carryOut number s first with
      | (.error e, s) => return (.error e, s)
      | (.ok outputs, s) =>
        let (rest, s) ← runLines carryOut (number + first.length) s lines
        return (rest.map (outputs ++ ·), s) := by
  induction first generalizing number s with
  | nil =>
    have hmap (rest : Except LineFailure (List String)) :
        rest.map (fun outputs => outputs) = rest := by
      cases rest <;> rfl
    simp [runLines, hmap]
  | cons line first ih =>
    have hnumber : number + 1 + first.length = number + (line :: first).length := by
      simp only [List.length_cons]
      omega
    simp only [List.cons_append, runLines_cons]
    cases asks line with
    | error message => simp
    | ok c =>
      cases c with
      | none => simp only [ih, hnumber]
      | some c =>
        simp only [ih, hnumber, bind_assoc]
        refine bind_congr fun out => ?_
        obtain ⟨response, s⟩ := out
        cases response with
        | error message => simp
        | ok output =>
          simp only [bind_assoc]
          refine bind_congr fun out => ?_
          obtain ⟨outputs, s⟩ := out
          cases outputs with
          | error e => simp [Except.map]
          | ok outputs =>
            simp only [pure_bind, bind_assoc, List.length_cons]
            refine bind_congr fun out => ?_
            obtain ⟨rest, s⟩ := out
            cases rest <;> by_cases h : output = "" <;> simp [Except.map, h]

/-- A line that names `run` without quotes ends its script: what stands
before it is carried out, and nothing after that. -/
theorem runLines_of_name (carryOut : Session → Command → m (Response × Session)) (number : Nat)
    (s : Session) {before after : List (List Char)} (hline : isIdle (trim line) = false)
    (hname : name? (trim line) = some "run") (hplain : ¬ HidesRun line) :
    runLines carryOut number s (before ++ line :: after) = do
      match ← runLines carryOut number s before with
      | (.error e, s) => return (.error e, s)
      | (.ok _, s) => return (.error ⟨number + before.length, runRefusal⟩, s) := by
  rw [runLines_append]
  refine bind_congr fun out => ?_
  obtain ⟨outputs, s⟩ := out
  cases outputs with
  | error e => rfl
  | ok outputs =>
    simp only [runLines_cons, asks_of_name hline hname hplain, pure_bind]
    rfl

/-! ## Scripts that hide no name -/

/-- Taking notes does not change what a script comes to. -/
theorem runLines_noting (carryOut : Session → Command → m (Response × Session)) (number : Nat)
    (s : Session) (lines : List (List Char)) (noted : List Command) :
    Prod.fst <$> (runLines (noting carryOut) number s lines).run noted
      = runLines carryOut number s lines := by
  induction lines generalizing number s noted with
  | nil => simp [runLines]
  | cons line lines ih =>
    simp only [runLines_cons]
    cases asks line with
    | error message => simp
    | ok c =>
      cases c with
      | none => exact ih (number + 1) s noted
      | some c =>
        simp only [StateT.run_bind, map_bind, run_noting, bind_assoc]
        refine bind_congr fun out => ?_
        obtain ⟨response, s⟩ := out
        cases response with
        | error message => simp
        | ok output =>
          simp only [pure_bind, StateT.run_bind, ← ih (number + 1) s (noted ++ [c]),
            map_eq_pure_bind, bind_assoc]
          simp

theorem asked?_ne_run (hplain : ¬ HidesRun line) : asked? line ≠ some (.run path) := by
  unfold asked?
  intro h
  cases hasks : asks line with
  | error e => rw [hasks] at h; cases h
  | ok c =>
    rw [hasks] at h
    cases c with
    | none => cases h
    | some c =>
      cases h
      exact hplain (asks_run_iff.1 hasks).1

theorem runLines_of_plain {lines : List (List Char)} (hplain : ∀ line ∈ lines, ¬ HidesRun line)
    (number : Nat) (s : Session) : ∃ out done, done <+: lines.filterMap asked?
      ∧ ∀ {m : Type → Type} [Monad m] [LawfulMonad m] (read : String → m FileText) (depth : Nat)
        (noted : List Command),
        (runLines (noting (executeWithin read depth)) number s lines).run noted
          = pure (out, noted ++ done) := by
  induction lines generalizing number s with
  | nil => exact ⟨(.ok [], s), [], List.nil_prefix, fun _ _ noted => by simp [runLines]⟩
  | cons line lines ih =>
    rw [List.forall_mem_cons] at hplain
    cases hasks : asks line with
    | error message =>
      exact ⟨(.error ⟨number, message⟩, s), [], List.nil_prefix, fun _ _ noted => by
        simp [runLines_cons, hasks]⟩
    | ok c =>
      cases c with
      | none =>
        obtain ⟨out, done, hdone, hrun⟩ := ih hplain.2 (number + 1) s
        refine ⟨out, done, ?_, fun read depth noted => ?_⟩
        · rwa [List.filterMap_cons_none (by simp [asked?, hasks, Except.toOption])]
        · simp only [runLines_cons, hasks]
          exact hrun read depth noted
      | some c =>
        have hasked : asked? line = some c := by simp [asked?, hasks, Except.toOption]
        have hc (path : String) : c ≠ .run path := fun heq =>
          asked?_ne_run hplain.1 (heq ▸ hasked)
        obtain ⟨response, hout⟩ := executeWithin_of_ne_run s hc
        generalize s.after c.action?.toList = s' at hout
        rw [List.filterMap_cons_some hasked]
        cases response with
        | error message =>
          refine ⟨(.error ⟨number, message⟩, s'), [c], by simp, fun read depth noted => ?_⟩
          simp [runLines_cons, hasks, hout read depth]
        | ok output =>
          obtain ⟨⟨rest, s''⟩, done, hdone, hrun⟩ := ih hplain.2 (number + 1) s'
          refine ⟨(rest.map fun outputs => if output = "" then outputs else output :: outputs, s''),
            c :: done, by simpa using hdone, fun read depth noted => ?_⟩
          simp [runLines_cons, hasks, hout read depth, hrun read depth]

/-! ## Whole scripts -/

/-- The response that the lines of a script make. -/
def report : Except LineFailure (List String) → Response
  | .ok outputs => .ok ("\n".intercalate outputs)
  | .error e => .error ("line " ++ toString e.number ++ ": " ++ e.message)

theorem runText_eq (carryOut : Session → Command → m (Response × Session)) (s : Session)
    (text : String) : runText carryOut s text =
      (fun out => (report out.1, out.2)) <$> runLines carryOut 1 s (pieces '\n' text.toList) := by
  unfold runText
  rw [map_eq_pure_bind]
  refine bind_congr fun out => ?_
  obtain ⟨answer, s⟩ := out
  cases answer <;> rfl

theorem runScript_of_read {read : String → m FileText} {text : String}
    (hread : read path = pure (.ok text)) (s : Session) :
    s.runScript read path = runText (executeWithin read (nestingLimit - 1)) s text := by
  show executeWithin read (nestingLimit - 1 + 1) s (.run path) = _
  rw [executeWithin, perform, hread, pure_bind]

/-- Scripts run no scripts, as far as their lines show the names of their
commands. A line that names `run` without quotes ends its script with a
refusal, whatever stands before it and after it. A script of which no line
hides that name carries out at most one command for each of its lines, in
their order, and none that runs a script; it comes to the same whatever can
be read. The lines that hide the name are exactly those that have another
script run. -/
theorem scripts_not_nested (s : Session) (text : String) :
    (∀ line path, asks line = .ok (some (.run path)) ↔
      HidesRun line ∧ ∃ rest, words (String.ofList (trim line)) = .ok ("run" :: path :: rest))
    ∧ (∀ before line after, pieces '\n' text.toList = before ++ line :: after →
      isIdle (trim line) = false → name? (trim line) = some "run" → ¬ HidesRun line →
      ∀ {m : Type → Type} [Monad m] [LawfulMonad m]
        (carryOut : Session → Command → m (Response × Session)),
        runText carryOut s text = do
          match ← runLines carryOut 1 s before with
          | (.error e, s) => return (report (.error e), s)
          | (.ok _, s) =>
            return (.error ("line " ++ toString (before.length + 1)
              ++ ": scripts cannot run other scripts"), s))
    ∧ ((∀ line ∈ pieces '\n' text.toList, ¬ HidesRun line) →
      ∃ out done, done <+: (pieces '\n' text.toList).filterMap asked?
        ∧ (∀ path, .run path ∉ done)
        ∧ ∀ {m : Type → Type} [Monad m] [LawfulMonad m] (read : String → m FileText) (depth : Nat),
          (runText (noting (executeWithin read depth)) s text).run [] = pure (out, done)
          ∧ runText (executeWithin read depth) s text = pure out
          ∧ ∀ path, read path = pure (.ok text) → s.runScript read path = pure out) := by
  refine ⟨fun line path => asks_run_iff, fun before line after hlines hline hname hplain m _ _
    carryOut => ?_, fun hplain => ?_⟩
  · rw [runText_eq, hlines, runLines_of_name carryOut 1 s hline hname hplain, map_bind]
    refine bind_congr fun out => ?_
    obtain ⟨outputs, s⟩ := out
    cases outputs with
    | error e => simp
    | ok outputs =>
      rw [Nat.add_comm before.length]
      simp [report, runRefusal, String.append_assoc]
  · obtain ⟨⟨answer, s'⟩, done, hdone, hrun⟩ := runLines_of_plain hplain 1 s
    refine ⟨(report answer, s'), done, hdone, fun path hpath => ?_, fun {m} _ _ read depth => ?_⟩
    · obtain ⟨line, hline, hasked⟩ := List.mem_filterMap.1 (hdone.subset hpath)
      exact asked?_ne_run (hplain line hline) hasked
    · have hlines (depth : Nat) : runText (executeWithin read depth) s text
          = pure (report answer, s') := by
        rw [runText_eq, ← runLines_noting _ _ _ _ [], hrun read depth []]
        simp
      refine ⟨?_, hlines depth, fun path hread => ?_⟩
      · rw [runText_eq, StateT.run_map, hrun read depth []]
        simp
      · rw [runScript_of_read hread, hlines]

/-- A script whose third line is refused. -/
def refused : String := "# start\nset var a 1\nrun other\nset var a 2\n"

theorem scripts_not_nested_refused : (∀ line ∈ pieces '\n' refused.toList, ¬ HidesRun line)
    ∧ ∃ s' done, done.map (fun c => some c) = [(readLine "set var a 1").toOption]
      ∧ ∀ {m : Type → Type} [Monad m] [LawfulMonad m] (read : String → m FileText) (depth : Nat),
        (runText (noting (executeWithin read depth)) (start {}) refused).run []
          = pure ((.error "line 3: scripts cannot run other scripts", s'), done) := by
  have hplain : ∀ line ∈ pieces '\n' refused.toList, ¬ HidesRun line := by decide +kernel
  obtain ⟨-, -, hwhole⟩ := scripts_not_nested (start {}) refused
  obtain ⟨⟨response, s'⟩, done, -, -, hrun⟩ := hwhole hplain
  have hone := (hrun (m := Id) (fun _ => pure (.error .missing)) 0).1
  have hresponse := congrArg (fun out => out.1.1) hone
  have hdone := congrArg (fun out => out.2.map fun c => some c) hone
  refine ⟨hplain, s', done, ?_, fun read depth => ?_⟩
  · refine Eq.trans hdone.symm ?_
    decide +kernel
  · have hvalue : response = .error "line 3: scripts cannot run other scripts" := by
      refine Eq.trans hresponse.symm ?_
      decide +kernel
    rw [← hvalue]
    exact (hrun read depth).1

/-- Two scripts: the first one runs the second, with the name of the command
in quotes. -/
def quoted (path : String) : Id FileText :=
  if path = "main" then .ok "'run' other\n"
  else if path = "other" then .ok "set var a 1\n"
  else .error .missing

theorem quoted_name_runs_script :
    name? "'run' other".toList = some "run"
      ∧ ((start {}).runScript quoted "main").1 = .ok "1"
      ∧ (((start {}).runScript quoted "main").2.executeLine quoted "get var a").1 = .ok "1" := by
  decide +kernel

end Session

end ParamStore
