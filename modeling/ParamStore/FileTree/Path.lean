import ParamStore.Text.Pieces

/-!
# Paths of files

The names of a path and the paths of what is around it. A path is followed
as it is written: two dots are a name like any other until they are
followed, so `a/..` is another path than the empty one.
-/

namespace ParamStore.FileTree

open Text

def names (path : String) : List String :=
  (pieces '/' path.toList).map String.ofList

/-- Whether a name stays where it is. -/
def isStill (name : String) : Bool := name == "" || name == "."

/-- Whether names lead nowhere but up. -/
def leadsUp (names : List String) : Bool := names.all fun n => isStill n || n == ".."

def isAbsolute (path : String) : Bool := path.toList.head? == some '/'

/-- Whether a path ends with a slash, so that it can only lead to a
directory. -/
def endsWithSlash (path : String) : Bool := path.toList.getLast? == some '/'

/-- The path of these names, from the same start as another path. -/
def joinAs (path : String) (names : List String) : String :=
  (if isAbsolute path then "/" else "") ++ "/".intercalate names

/-- The names of a path that lead somewhere. -/
def steps (path : String) : List String := (names path).filter fun n => !isStill n

def parent (path : String) : String := joinAs path (steps path).dropLast

/-- The paths of the directories around a directory, from the innermost one
on. -/
def around (path : String) : List String :=
  let rec go : List String → List String
    | [] => []
    | n :: above => joinAs path (n :: above).reverse :: go above
  go (steps path).dropLast.reverse

end ParamStore.FileTree
