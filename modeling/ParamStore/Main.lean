import ParamStore.CommandLine

/-!
# The program

Reads files, arguments and the environment, and prints the outcome.
-/

namespace ParamStore.Main

/-- The number by which the system names a cause. Some calls give it with
the other sign. -/
def causeNumber (code : UInt32) : Nat :=
  (if code.toNat < 1 <<< 31 then code else 0 - code).toNat

/-- Why the system refuses a file. -/
def failureOf (e : IO.Error) : FileFailure :=
  match e with
  | .noFileOrDirectory .. | .noSuchThing .. => .missing
  | .permissionDenied .. => .other "Permission denied (os error 13)"
  | .inappropriateType _ code _ =>
    match causeNumber code with
    | 20 => .notDirectory
    | 21 => .isDirectory
    | _ => .other (toString e)
  | .invalidArgument _ code _ =>
    if causeNumber code = 36 then .nameTooLong else .other (toString e)
  | e => .other (toString e)

/-- The text of a file of the system. -/
def readFile (path : String) : IO FileText := do
  if path.toList.contains '\x00' then return .error .nulInside
  try
    return textOfBytes (← IO.FS.readBinFile path)
  catch e => return .error (failureOf e)

end ParamStore.Main

def main (arguments : List String) : IO UInt32 := do
  let given ← IO.getEnv "PSH_CONFIG"
  let home ← IO.getEnv "HOME"
  let outcome ← ParamStore.CommandLine.run ParamStore.Main.readFile given home arguments
  IO.print outcome.output
  IO.eprint outcome.errors
  return outcome.code.toUInt32
