/-!
# Parameter kinds

The five families of parameters. Each has a full name, and all but keys
also a short one that commands may use.
-/

namespace ParamStore

/-- A family of parameters: environment values, shell variables, context
values, keys and procedures. -/
inductive Kind where
  | env
  | var
  | ctx
  | key
  | proc
  deriving Repr, DecidableEq, Inhabited

namespace Kind

/-- Every kind once, in the order in which families are listed. -/
def all : List Kind := [env, var, ctx, key, proc]

def name : Kind → String
  | env => "environment"
  | var => "variable"
  | ctx => "context"
  | key => "key"
  | proc => "procedure"

def index : Kind → Nat
  | env => 0
  | var => 1
  | ctx => 2
  | key => 3
  | proc => 4

/-- The kind with this full name. -/
def ofName? (text : String) : Option Kind :=
  all.find? fun k => k.name == text

/-- The kind with this full or short name. -/
def read? : String → Option Kind
  | "env" => some env
  | "var" => some var
  | "ctx" => some ctx
  | "proc" => some proc
  | text => ofName? text

theorem mem_all (k : Kind) : k ∈ all := by cases k <;> decide

theorem ofName?_name (k : Kind) : ofName? k.name = some k := by cases k <;> decide

end Kind

end ParamStore
