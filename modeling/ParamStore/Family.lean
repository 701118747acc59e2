import ParamStore.Error
import ParamStore.Parameter

/-!
# What a kind admits

Each kind says which values its parameters may have. Context values are
never null, keys are texts, and a procedure is a command line or a list of
them.
-/

namespace ParamStore

open Json (Tree Value)

/-- What a caller hands over to be stored: a bare value, or a parameter
made before. -/
inductive Input where
  | bare (value : Value)
  | made (parameter : Parameter)
  deriving DecidableEq

namespace Kind

def validate (k : Kind) (v : Value) : Except StoreError Unit :=
  match k, v.tree with
  | ctx, .null => .error (.invalidValue ctx "context value cannot be null")
  | key, .text _ => .ok ()
  | key, _ =>
    .error (.invalidValue key ("key material must be a string, got " ++ v.compact))
  | proc, .text _ => .ok ()
  | proc, .array lines =>
    if lines.all Tree.isText then .ok () else .error (.invalidValue proc procedureShape)
  | proc, _ => .error (.invalidValue proc procedureShape)
  | _, _ => .ok ()
where
  procedureShape := "procedure body must be a command line or a list of them"

/-- The parameter that the store of this kind keeps for an input: a bare
value becomes a plain parameter, a made one has to be of this kind. -/
def coerce (k : Kind) : Input → Except StoreError Parameter
  | .bare v => do
    k.validate v
    return .plain k v
  | .made p =>
    if p.kind = k then do
      k.validate p.value
      return p
    else .error (.kindMismatch k p.kind)

end Kind

end ParamStore
