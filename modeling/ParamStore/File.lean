/-!
# Files

Why a file cannot be read or written, in the words of the system, and what
the bytes of a file say as a text.
-/

namespace ParamStore

inductive FileFailure where
  | missing
  | isDirectory
  | notDirectory
  | alreadyExists
  | nameTooLong
  /-- The path holds a NUL, which no path can. -/
  | nulInside
  | notText
  | other (message : String)
  deriving Repr, DecidableEq

namespace FileFailure

def message : FileFailure → String
  | missing => "No such file or directory (os error 2)"
  | isDirectory => "Is a directory (os error 21)"
  | notDirectory => "Not a directory (os error 20)"
  | alreadyExists => "File exists (os error 17)"
  | nameTooLong => "File name too long (os error 36)"
  | nulInside => "file name contained an unexpected NUL byte"
  | notText => "stream did not contain valid UTF-8"
  | other message => message

end FileFailure

/-- The text of a file, or why it cannot be read. -/
abbrev FileText := Except FileFailure String

def textOfBytes (bytes : ByteArray) : FileText :=
  match String.fromUTF8? bytes with
  | some s => .ok s
  | none => .error .notText

end ParamStore
