import ParamStore.Proofs.Container.Run
import ParamStore.Session

/-!
# What commands come down to

A command does to the container what its thread could have done itself: it
comes down to one action, or to none (`perform_of_ne_run`). A script comes
down to the commands that its lines ask for, up to the first line that
fails, and where such a line runs another script, to those of that one
(`Unfolds`). Carrying these out is all that the script does to the session
(`exists_unfolds`).

Files are read through a world that may change with every look at it.
-/

namespace ParamStore

open Container (Action)

/-- The action that a command comes down to, if it changes anything. What a
script does is not told by the command that runs it. -/
def Command.action? : Command → Option Action
  | .set kind path v f => some (.ask kind (.set path (Session.inputOf kind v f)
      { shared := f.shared, group := f.group, freeze := f.freeze }))
  | .unset kind path f => some (.ask kind (.unset path (Session.unsetOf f)))
  | .groupClear group => some (.clearFrozen group)
  | .scopePush => some .push
  | .scopePop => some .pop
  | .scopeFlush => some .flush
  | .status _ | .help _ | .run _ | .get _ _ _ | .has _ _ _ | .list _ _ _ | .owner _ _
  | .groupNodes _ _ => none

theorem Command.filterMap_action? (c : Command) : [c].filterMap action? = c.action?.toList := by
  cases h : c.action? <;> simp [h]

namespace Session

open Text

variable {ω : Type}

/-- The session after actions of the thread that commands are called by. -/
def after (s : Session) (acts : List Action) : Session :=
  { s with container := s.container.run (acts.map fun a => (thread, a)) }

theorem after_append (s : Session) (acts more : List Action) :
    s.after (acts ++ more) = (s.after acts).after more := by
  unfold after
  rw [List.map_append, Container.run_append]

/-- The session after commands that run no script. -/
def afterCommands (s : Session) (cmds : List Command) : Session :=
  s.after (cmds.filterMap Command.action?)

theorem afterCommands_append (s : Session) (cmds more : List Command) :
    s.afterCommands (cmds ++ more) = (s.afterCommands cmds).afterCommands more := by
  unfold afterCommands
  rw [List.filterMap_append, after_append]

/-! ## Commands -/

/-- A command that runs no script has its outcome at once, whatever scripts
would do. -/
theorem perform_of_ne_run (s : Session) {c : Command} (hc : ∀ path, c ≠ .run path) :
    ∃ r, ∀ {m : Type → Type} [Monad m] (script : String → Session → m (Response × Session)),
      perform script s c = pure (r, s.after c.action?.toList) := by
  cases c with
  | run path => exact absurd rfl (hc path)
  | set | unset | groupClear | scopePush | scopePop | scopeFlush | status | help | get | has | list
  | owner | groupNodes => exact ⟨_, fun _ => rfl⟩

theorem executeWithin_eq_perform {m : Type → Type} [Monad m] (read : String → m FileText)
    (depth : Nat) (s : Session) (c : Command) :
    ∃ script, executeWithin read depth s c = perform script s c := by
  cases depth <;> exact ⟨_, rfl⟩

theorem executeWithin_of_ne_run (s : Session) {c : Command} (hc : ∀ path, c ≠ .run path) :
    ∃ r, ∀ {m : Type → Type} [Monad m] (read : String → m FileText) (depth : Nat),
      executeWithin read depth s c = pure (r, s.after c.action?.toList) := by
  obtain ⟨r, heq⟩ := s.perform_of_ne_run hc
  refine ⟨r, fun read depth => ?_⟩
  obtain ⟨script, hscript⟩ := executeWithin_eq_perform read depth s c
  rw [hscript, heq]

/-! ## What a line asks for -/

def runRefusal : String := "scripts cannot run other scripts"

/-- What a line of a script asks for, if it is not idle, or why it is
refused. -/
def asks (line : List Char) : Except String (Option Command) :=
  if isIdle (trim line) then .ok none
  else if firstWord (trim line) = "run".toList then .error runRefusal
  else some <$> readLine (String.ofList (trim line))

/-- A script goes on with what its first line asks for. -/
theorem runLines_cons {m : Type → Type} [Monad m]
    (carryOut : Session → Command → m (Response × Session)) (number : Nat) (s : Session)
    (line : List Char) (lines : List (List Char)) :
    runLines carryOut number s (line :: lines) =
      match asks line with
      | .error message => pure (.error ⟨number, message⟩, s)
      | .ok none => runLines carryOut (number + 1) s lines
      | .ok (some c) => do
        match ← carryOut s c with
        | (.error message, s) => return (.error ⟨number, message⟩, s)
        | (.ok output, s) =>
          let (rest, s) ← runLines carryOut (number + 1) s lines
          return (rest.map fun outputs =>
            if output = "" then outputs else output :: outputs, s) := by
  conv => lhs; unfold runLines
  unfold asks
  dsimp only
  split
  · rfl
  split
  · rfl
  cases readLine (String.ofList (trim line)) <;> rfl

/-! ## What a script comes down to -/

mutual

/-- What a command comes down to, in the session and the world that it
meets: itself, or the commands of the script that it runs. -/
inductive Unfolds (read : String → StateM ω FileText) :
    Nat → Session → ω → Command → List Command → Prop where
  | plain {depth s w c} (hc : ∀ path, c ≠ .run path) : Unfolds read depth s w c [c]
  /-- It stands for a depth that no script reaches. -/
  | tooDeep {s w path} : Unfolds read 0 s w (.run path) []
  | unread {depth s w w' path e} (hread : (read path).run w = (.error e, w')) :
      Unfolds read (depth + 1) s w (.run path) []
  | script {depth s w w' path text cmds} (hread : (read path).run w = (.ok text, w'))
      (hlines : UnfoldsLines read depth s w' (pieces '\n' text.toList) cmds) :
      Unfolds read (depth + 1) s w (.run path) cmds

/-- What the lines of a script come down to: the commands of each line in
turn, up to the first line that fails. -/
inductive UnfoldsLines (read : String → StateM ω FileText) :
    Nat → Session → ω → List (List Char) → List Command → Prop where
  | done {depth s w} : UnfoldsLines read depth s w [] []
  | refused {depth s w line lines message} (hasks : asks line = .error message) :
      UnfoldsLines read depth s w (line :: lines) []
  | idle {depth s w line lines cmds} (hasks : asks line = .ok none)
      (hlines : UnfoldsLines read depth s w lines cmds) :
      UnfoldsLines read depth s w (line :: lines) cmds
  | failed {depth s s' w w' line lines c cmds message} (hasks : asks line = .ok (some c))
      (hc : Unfolds read depth s w c cmds)
      (hfailed : (executeWithin read depth s c).run w = ((.error message, s'), w')) :
      UnfoldsLines read depth s w (line :: lines) cmds
  | next {depth s s' w w' line lines c cmds more output} (hasks : asks line = .ok (some c))
      (hc : Unfolds read depth s w c cmds)
      (hdone : (executeWithin read depth s c).run w = ((.ok output, s'), w'))
      (hlines : UnfoldsLines read depth s' w' lines more) :
      UnfoldsLines read depth s w (line :: lines) (cmds ++ more)

end

mutual

/-- Whatever a command comes down to runs no script itself. -/
theorem Unfolds.ne_run {read : String → StateM ω FileText} {depth : Nat} {s : Session} {w : ω}
    {c : Command} {cmds : List Command} :
    Unfolds read depth s w c cmds → ∀ cmd ∈ cmds, ∀ path, cmd ≠ .run path
  | .plain hc => fun cmd hcmd => by rwa [List.mem_singleton.1 hcmd]
  | .tooDeep | .unread _ => fun _ hcmd => absurd hcmd List.not_mem_nil
  | .script _ hlines => hlines.ne_run

theorem UnfoldsLines.ne_run {read : String → StateM ω FileText} {depth : Nat} {s : Session}
    {w : ω} {lines : List (List Char)} {cmds : List Command} :
    UnfoldsLines read depth s w lines cmds → ∀ cmd ∈ cmds, ∀ path, cmd ≠ .run path
  | .done | .refused _ => fun _ hcmd => absurd hcmd List.not_mem_nil
  | .idle _ hlines => hlines.ne_run
  | .failed _ hc _ => hc.ne_run
  | .next _ hc _ hlines => fun cmd hcmd =>
    (List.mem_append.1 hcmd).elim (hc.ne_run cmd) (hlines.ne_run cmd)

end

/-! ## What it leaves -/

theorem exists_unfoldsLines {read : String → StateM ω FileText} {depth : Nat}
    (hcmd : ∀ (s : Session) c w, ∃ cmds, Unfolds read depth s w c cmds
      ∧ ((executeWithin read depth s c).run w).1.2 = s.afterCommands cmds)
    (number : Nat) (s : Session) (lines : List (List Char)) (w : ω) :
    ∃ cmds, UnfoldsLines read depth s w lines cmds
      ∧ ((runLines (executeWithin read depth) number s lines).run w).1.2
        = s.afterCommands cmds := by
  induction lines generalizing number s w with
  | nil => exact ⟨[], .done, rfl⟩
  | cons line lines ih =>
    rw [runLines_cons]
    cases hasks : asks line with
    | error message => exact ⟨[], .refused hasks, rfl⟩
    | ok c =>
      cases c with
      | none =>
        obtain ⟨cmds, hlines, heq⟩ := ih (number + 1) s w
        exact ⟨cmds, .idle hasks hlines, heq⟩
      | some c =>
        obtain ⟨cmds, hc, hs'⟩ := hcmd s c w
        simp only [StateT.run_bind]
        cases hout : (executeWithin read depth s c).run w with
        | mk out w' =>
          obtain ⟨response, s'⟩ := out
          rw [hout] at hs'
          cases response with
          | error message => exact ⟨cmds, .failed hasks hc hout, hs'⟩
          | ok output =>
            obtain ⟨more, hlines, heq⟩ := ih (number + 1) s' w'
            refine ⟨cmds ++ more, .next hasks hc hout hlines, heq.trans ?_⟩
            rw [afterCommands_append, ← hs']

theorem runText_snd (carryOut : Session → Command → StateM ω (Response × Session))
    (s : Session) (text : String) (w : ω) :
    ((runText carryOut s text).run w).1.2
      = ((runLines carryOut 1 s (pieces '\n' text.toList)).run w).1.2 := by
  unfold runText
  rw [StateT.run_bind]
  cases (runLines carryOut 1 s (pieces '\n' text.toList)).run w with
  | mk out w' =>
    obtain ⟨answer, s'⟩ := out
    cases answer <;> rfl

theorem exists_unfolds_of_ne_run (read : String → StateM ω FileText) (depth : Nat)
    (s : Session) {c : Command} (hc : ∀ path, c ≠ .run path) (w : ω) :
    ∃ cmds, Unfolds read depth s w c cmds
      ∧ ((executeWithin read depth s c).run w).1.2 = s.afterCommands cmds := by
  obtain ⟨r, heq⟩ := s.executeWithin_of_ne_run hc
  refine ⟨[c], .plain hc, ?_⟩
  rw [heq, afterCommands, c.filterMap_action?]
  rfl

/-- The session that a command leaves is the one after the commands that it
comes down to. -/
theorem exists_unfolds (read : String → StateM ω FileText) (depth : Nat) (s : Session)
    (c : Command) (w : ω) : ∃ cmds, Unfolds read depth s w c cmds
      ∧ ((executeWithin read depth s c).run w).1.2 = s.afterCommands cmds := by
  induction depth generalizing s c w with
  | zero =>
    by_cases hc : ∃ path, c = .run path
    · obtain ⟨path, rfl⟩ := hc
      exact ⟨[], .tooDeep, rfl⟩
    · exact exists_unfolds_of_ne_run read 0 s (not_exists.1 hc) w
  | succ depth ih =>
    by_cases hc : ∃ path, c = .run path
    · obtain ⟨path, rfl⟩ := hc
      unfold executeWithin perform
      rw [StateT.run_bind]
      cases htext : (read path).run w with
      | mk text w' =>
        cases text with
        | error e => exact ⟨[], .unread htext, rfl⟩
        | ok text =>
          obtain ⟨cmds, hlines, heq⟩ := exists_unfoldsLines ih 1 s (pieces '\n' text.toList) w'
          exact ⟨cmds, .script htext hlines, (runText_snd _ s text w').trans heq⟩
    · exact exists_unfolds_of_ne_run read (depth + 1) s (not_exists.1 hc) w

end Session

end ParamStore
