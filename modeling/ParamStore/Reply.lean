import ParamStore.Error

/-!
# Replies

An operation on a state answers or refuses, and either way it leaves a
state. Keeping the state beside a refusal lets it be said, and proved,
what a refused operation has changed.
-/

namespace ParamStore

/-- An answer or the cause of refusal, and the state that is left. -/
abbrev Reply (σ α : Type) := Except StoreError α × σ

end ParamStore
