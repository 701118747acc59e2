import ParamStore.Config.File
import ParamStore.Session

/-!
# The command line

One command from the arguments of a program, carried out on a new session.
The arguments are read first, then the configuration.
-/

namespace ParamStore.CommandLine

/-- What a program leaves: its exit code and its two outputs. -/
structure Outcome where
  code : Nat
  output : String
  errors : String
  deriving Repr, DecidableEq

def failure (message : String) : Outcome := ⟨1, "", message ++ "\n"⟩

def below (path name : String) : String :=
  if path = "" then name
  else if path.toList.getLast? == some '/' then path ++ name
  else path ++ "/" ++ name

/-- Where the configuration is: at the path that is given, or in the home
directory. -/
def configPath (given home : Option String) : String :=
  given.getD (below (below (below (home.getD "/tmp") ".config") "pshell") "settings.yaml")

def outcomeOf : Response → Outcome
  | .ok output => ⟨0, if output = "" then "" else output ++ "\n", ""⟩
  | .error message => failure ("psh error: " ++ message)

/-- Run a program with these arguments. -/
def run {m : Type → Type} [Monad m] (read : String → m FileText) (given home : Option String)
    (arguments : List String) : m Outcome :=
  match Command.ofArguments arguments with
  | .error e => pure (failure ("psh: " ++ e.message))
  | .ok command => do
    let path := configPath given home
    match Config.load path (← read path) with
    | .error e => return failure ("psh: failed to load settings: " ++ e.message)
    | .ok config =>
      let (response, _) ← (Session.start config).execute read command
      return outcomeOf response

end ParamStore.CommandLine
