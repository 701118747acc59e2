import ParamStore.Json.Record
import ParamStore.Path

/-!
# Paths in JSON

A path is its dotted text, and is read as every text of a path is.
-/

namespace ParamStore.Path

open Json (Tree)

def toTree (p : Path) : Tree := .text p.dotted

def ofTree? (t : Tree) : Option Path := do
  (read (← t.text?)).toOption

end ParamStore.Path
