import ParamStore.Command.Arguments
import ParamStore.Command.Words
import ParamStore.Container
import ParamStore.File
import ParamStore.Help
import ParamStore.Response
import ParamStore.Text.Pieces

/-!
# Sessions

A container that commands are carried out on, one after the other. A
script is a file with a command on each line; it stops at the first line
that fails, and a line that asks for another script is refused.

Files are read through a function in a monad of the caller's choice, so
that the same session runs on real files and on a file tree that is a
value.
-/

namespace ParamStore

open Json (Tree Value)
open Text

structure Session where
  config : Config
  container : Container

namespace Session

def start (c : Config) : Session := ⟨c, .ofConfig c⟩

/-- The thread that commands are called by. -/
def thread : Nat := 0

/-! ## Responses -/

/-- The response to a refusal: the short name of its cause and its
wording. -/
def refusal (e : StoreError) : Response := .error (e.code ++ ": " ++ e.message)

/-- The response to a reply, with the session that is left. -/
def respond {α : Type} (s : Session) (output : α → Response) (r : Reply Container α) :
    Response × Session :=
  (match r.1 with
    | .ok a => output a
    | .error e => refusal e,
   { s with container := r.2 })

/-- The response to an answer that leaves the session as it is. -/
def answer {α : Type} (s : Session) (output : α → Response) (r : Except StoreError α) :
    Response × Session :=
  s.respond output (r, s.container)

/-- An object of these fields, in key order. -/
def objectOf (fields : List (String × Tree)) : Tree :=
  .object (fields.foldl (fun fs f => Entries.insert f.1 f.2 fs) [])

/-- Whether a listing is asked for as an object. -/
def wantsObject (format : Option String) : Bool := format == some "json"

/-! ## Commands on values -/

/-- What a `set` stores: the bare value, or a parameter with the flags that
were given. -/
def inputOf (kind : Kind) (v : Value) (f : SetFlags) : Input :=
  if f.readOnly || f.fixed || f.transient then
    let p := ((Parameter.plain kind v).withReadOnly f.readOnly).withRemovable !f.fixed
    .made (if f.transient then p.withTransient true else p)
  else .bare v

def lookupOf (f : LookupFlags) : LookupOptions :=
  { shared := f.shared, exact := f.exact, fallback := !f.scopeOnly }

def unsetOf (f : UnsetFlags) : UnsetOptions :=
  { shared := f.shared, fallback := !f.scopeOnly, force := f.force, group := f.group,
    unfreeze := f.unfreeze }

def status (s : Session) (format : Option String) : String :=
  let counts := Kind.all.map fun k => (k.name, (s.container.store k).size)
  let depth := s.container.registry.depth thread
  if wantsObject format then
    (objectOf (counts.map (fun c => (c.1, .natural (UInt64.ofNat c.2)))
      ++ [("frame", .natural (UInt64.ofNat depth)),
        ("default_group", .text s.config.defaultGroup)])).pretty
  else
    ", ".intercalate (counts.map fun c => c.1 ++ ": " ++ toString c.2)
      ++ ", frame: " ++ toString depth

def listing (format : Option String) (entries : Table String Parameter) : String :=
  if wantsObject format then
    (Tree.object (entries.entries.map fun e => (e.1, e.2.value.tree))).pretty
  else "\n".intercalate (entries.entries.map fun e => e.1 ++ " = " ++ e.2.value.plain)

/-- Carry out a command that runs no script; `script` carries out one that
does. -/
def perform {m : Type → Type} [Monad m] (script : String → Session → m (Response × Session))
    (s : Session) : Command → m (Response × Session)
  | .run path => script path s
  | .status format => pure (.ok (s.status format), s)
  | .help topic => pure (.ok (Help.text topic), s)
  | .set kind path v f =>
    pure (s.respond (fun p => .ok p.value.plain)
      (s.container.set thread kind path (inputOf kind v f)
        { shared := f.shared, group := f.group, freeze := f.freeze }))
  | .get kind path f =>
    pure (s.answer (fun
      | some p => .ok p.value.plain
      | none => .error ("Nothing stored at '" ++ path ++ "'"))
      (s.container.get thread kind path (lookupOf f)))
  | .has kind path f =>
    pure (s.answer (fun found => .ok (if found then "true" else "false"))
      (s.container.has thread kind path (lookupOf f)))
  | .unset kind path f =>
    pure (s.respond (fun
      | some p => .ok p.value.plain
      | none => .ok "")
      (s.container.unset thread kind path (unsetOf f)))
  | .list kind start f =>
    pure (s.answer (fun entries => .ok (listing f.format entries))
      (s.container.dictionary thread kind start f.shared !f.scopeOnly))
  | .owner kind path =>
    pure (s.answer (fun
      | some group => .ok group
      | none => .error ("No group owns '" ++ path ++ "'"))
      ((s.container.store kind).owner path))
  | .groupNodes kind group =>
    pure (.ok ("\n".intercalate (((s.container.store kind).groupPaths group).map Path.dotted)), s)
  | .groupClear group =>
    pure (s.respond (fun count => .ok ("released " ++ toString count))
      (s.container.clearFrozen group))
  | .scopePush =>
    let (depth, c) := s.container.push thread
    pure (.ok ("frame " ++ toString depth), { s with container := c })
  | .scopePop =>
    pure (s.respond (fun depth => .ok ("frame " ++ toString depth)) (s.container.pop thread))
  | .scopeFlush =>
    let (count, c) := s.container.flush thread
    pure (.ok ("flushed " ++ toString count), { s with container := c })

/-! ## Scripts -/

def readLine (line : String) : Except String Command :=
  match Command.words line with
  | .error e => .error e.message
  | .ok ws => (Command.ofArguments ws).mapError Command.ArgumentError.message

/-- Whether a line asks for nothing: it is empty or a comment. -/
def isIdle (line : List Char) : Bool := line.isEmpty || line.head? == some '#'

/-- The failure of a line of a script. -/
structure LineFailure where
  number : Nat
  message : String
  deriving Repr, DecidableEq

/-- Carry out the lines of a script, numbered from `number` on, and collect
the outputs that are not empty. -/
def runLines {m : Type → Type} [Monad m] (carryOut : Session → Command → m (Response × Session))
    (number : Nat) (s : Session) :
    List (List Char) → m (Except LineFailure (List String) × Session)
  | [] => pure (.ok [], s)
  | raw :: lines =>
    let line := trim raw
    if isIdle line then runLines carryOut (number + 1) s lines
    else if firstWord line = "run".toList then
      pure (.error ⟨number, "scripts cannot run other scripts"⟩, s)
    else
      match readLine (String.ofList line) with
      | .error message => pure (.error ⟨number, message⟩, s)
      | .ok command => do
        match ← carryOut s command with
        | (.error message, s) => return (.error ⟨number, message⟩, s)
        | (.ok output, s) =>
          let (rest, s) ← runLines carryOut (number + 1) s lines
          return (rest.map fun outputs => if output = "" then outputs else output :: outputs, s)

def runText {m : Type → Type} [Monad m] (carryOut : Session → Command → m (Response × Session))
    (s : Session) (text : String) : m (Response × Session) := do
  match ← runLines carryOut 1 s (pieces '\n' text.toList) with
  | (.ok outputs, s) => return (.ok ("\n".intercalate outputs), s)
  | (.error e, s) => return (.error ("line " ++ toString e.number ++ ": " ++ e.message), s)

/-- Carry out a command. A line whose first word is not plainly `run` may
still come to run a script when its quotes are read, so scripts can be
nested. The recursion is on `depth`. Neither this bound nor the message where
it is used up is a rule of the program, which sets no bound: they only stand
for a depth that no script reaches. -/
def executeWithin {m : Type → Type} [Monad m] (read : String → m FileText) (depth : Nat)
    (s : Session) (c : Command) : m (Response × Session) :=
  match depth with
  | 0 => perform (fun _ s => pure (.error "scripts are nested too deeply", s)) s c
  | depth + 1 =>
    perform (fun path s => do
      match ← read path with
      | .error e => return (.error ("Cannot read " ++ path ++ ": " ++ e.message), s)
      | .ok text => runText (executeWithin read depth) s text) s c

/-- A depth that no script reaches. It is no rule of the program, and only
there for the recursion of `executeWithin` to have an end. -/
def nestingLimit : Nat := 20000

/-- Carry out a command. -/
def execute {m : Type → Type} [Monad m] (read : String → m FileText) (s : Session)
    (c : Command) : m (Response × Session) :=
  executeWithin read nestingLimit s c

def executeLine {m : Type → Type} [Monad m] (read : String → m FileText) (s : Session)
    (line : String) : m (Response × Session) :=
  match readLine line with
  | .error message => pure (.error message, s)
  | .ok c => s.execute read c

/-- Carry out the script in a file. -/
def runScript {m : Type → Type} [Monad m] (read : String → m FileText) (s : Session)
    (path : String) : m (Response × Session) :=
  s.execute read (.run path)

end Session

end ParamStore
