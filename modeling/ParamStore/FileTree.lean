import ParamStore.File
import ParamStore.FileTree.Path

/-!
# File trees

A directory with files and directories below it, as one value. Paths are
relative to it, with slashes between the names; nothing is found outside.
-/

namespace ParamStore

/-- What stands at a place of a file tree. -/
inductive FileItem where
  | file (bytes : ByteArray)
  | directory

/-- The names from the root to a place, the last one first. -/
abbrev FilePlace := List String

/-- The items of a directory and of those below it. -/
structure FileTree where
  items : List (FilePlace × FileItem)

namespace FileTree

def empty : FileTree := ⟨[]⟩

/-- The item at a place. The root is always a directory. -/
def item? (t : FileTree) (p : FilePlace) : Option FileItem :=
  if p = [] then some .directory else (t.items.find? fun e => e.1 = p).map (·.2)

def put (t : FileTree) (p : FilePlace) (i : FileItem) : FileTree :=
  ⟨(p, i) :: t.items.filter fun e => e.1 ≠ p⟩

/-- The longest name, in bytes. -/
def longestName : Nat := 255

/-- The longest path, in bytes. -/
def longestPath : Nat := 4095

/-- The place that names lead to from a place; every place but the last has
to be a directory. What is above the root is a directory, too, but nothing
is found in it. -/
def follow (t : FileTree) (p : FilePlace) : List String → Except FileFailure FilePlace
  | [] => .ok p
  | name :: rest =>
    match t.item? p with
    | none => .error .missing
    | some (.file _) => .error .notDirectory
    | some .directory =>
      if isStill name then t.follow p rest
      else if name = ".." then
        match p with
        | [] => if leadsUp rest then .ok [] else .error .missing
        | _ :: parent => t.follow parent rest
      else if longestName < name.utf8ByteSize then .error .nameTooLong
      else t.follow (name :: p) rest

/-- The place that names of a path lead to, whether or not there is an
item. -/
def place? (t : FileTree) (path : String) (names : List String) :
    Except FileFailure FilePlace :=
  if path.toList.contains '\x00' then .error .nulInside
  else if path = "" then .error .missing
  else if longestPath < path.utf8ByteSize then .error .nameTooLong
  else if isAbsolute path && !leadsUp names then .error .missing
  else t.follow [] names

/-! ## Reading -/

def readBytes (t : FileTree) (path : String) : Except FileFailure ByteArray := do
  match t.item? (← t.place? path (names path)) with
  | none => throw .missing
  | some .directory => throw .isDirectory
  | some (.file bytes) => return bytes

def read (t : FileTree) (path : String) : FileText := t.readBytes path >>= textOfBytes

def isDirectory (t : FileTree) (path : String) : Bool :=
  match t.readBytes path with
  | .error .isDirectory => true
  | _ => false

/-! ## Writing -/

/-- The names of a path without those after its last slashes. -/
def withoutSlash (path : String) : List String :=
  ((names path).reverse.dropWhile (· == "")).reverse

def write (t : FileTree) (path : String) (bytes : ByteArray) : Except FileFailure FileTree := do
  if endsWithSlash path then
    let _ ← t.place? path ((withoutSlash path).dropLast ++ ["."])
    throw .isDirectory
  else
    let p ← t.place? path (names path)
    match t.item? p with
    | some .directory => throw .isDirectory
    | _ => return t.put p (.file bytes)

def makeDirectory (t : FileTree) (path : String) : Except FileFailure FileTree := do
  let p ← t.place? path (withoutSlash path)
  match t.item? p with
  | some _ => throw .alreadyExists
  | none => return t.put p .directory

/-- Make a directory, or leave it as it is where it is there already. -/
def ensureDirectory (t : FileTree) (path : String) : Except FileFailure FileTree :=
  match t.makeDirectory path with
  | .ok t => .ok t
  | .error e => if t.isDirectory path then .ok t else .error e

/-- Make the directory at a path, and those around it where they are
missing. What was made before a refusal stays. -/
def makeDirectoryWithin (t : FileTree) (path : String) :
    List String → Except FileFailure Unit × FileTree
  | [] =>
    match t.ensureDirectory path with
    | .ok t => (.ok (), t)
    | .error e => (.error e, t)
  | outer :: around =>
    match t.ensureDirectory path with
    | .ok t => (.ok (), t)
    | .error .missing =>
      match t.makeDirectoryWithin outer around with
      | (.error e, t) => (.error e, t)
      | (.ok (), t) =>
        match t.ensureDirectory path with
        | .ok t => (.ok (), t)
        | .error e => (.error e, t)
    | .error e => (.error e, t)

/-- Make the directory at a path and those above it where they are missing.
The names are followed as they are written: `a/../b` makes `a`, too. -/
def makeDirectories (t : FileTree) (path : String) : Except FileFailure Unit × FileTree :=
  if path = "" then (.ok (), t) else t.makeDirectoryWithin path (around path)

/-- Write a file, and make the directories above it where they are missing.
What was made before a refusal stays. -/
def writeWithin (t : FileTree) (path : String) (bytes : ByteArray) :
    Except FileFailure Unit × FileTree :=
  match t.makeDirectories (parent path) with
  | (.error e, t) => (.error e, t)
  | (.ok (), t) =>
    match t.write path bytes with
    | .ok t => (.ok (), t)
    | .error e => (.error e, t)

end FileTree

end ParamStore
