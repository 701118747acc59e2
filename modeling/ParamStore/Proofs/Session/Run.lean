import ParamStore.Proofs.Session.Unfold

/-!
# Runs of a session

All that commands do to the container of a session comes down to actions.
So a session on which threads act and commands are carried out, in any
order, holds a container that actions alone can reach (`reachable_run`), and
all that is known of those holds of it.
-/

namespace ParamStore

open Container (Action)

namespace Session

variable {ω : Type} {s : Session}

theorem reachable_runLines (read : String → StateM ω FileText) (depth : Nat)
    (hs : s.container.Reachable) (number : Nat) (lines : List (List Char)) (w : ω) :
    ((runLines (executeWithin read depth) number s lines).run w).1.2.container.Reachable := by
  obtain ⟨cmds, -, heq⟩ := exists_unfoldsLines (exists_unfolds read depth) number s lines w
  rw [heq]
  exact hs.run _

theorem reachable_execute (read : String → StateM ω FileText) (hs : s.container.Reachable)
    (c : Command) (w : ω) : ((s.execute read c).run w).1.2.container.Reachable := by
  obtain ⟨cmds, -, heq⟩ := exists_unfolds read nestingLimit s c w
  unfold execute
  rw [heq]
  exact hs.run _

/-! ## Runs -/

/-- What may happen to a session. -/
inductive Event where
  | act (thread : Nat) (a : Action)
  | command (c : Command)
  | line (text : String)

/-- The session after an event. -/
def step {m : Type → Type} [Monad m] (read : String → m FileText) (s : Session) :
    Event → m Session
  | .act thread a => pure { s with container := s.container.step thread a }
  | .command c => Prod.snd <$> s.execute read c
  | .line text => Prod.snd <$> s.executeLine read text

/-- The session after events, one after the other. -/
def run {m : Type → Type} [Monad m] (read : String → m FileText) (s : Session)
    (events : List Event) : m Session :=
  events.foldlM (step read) s

theorem reachable_step (read : String → StateM ω FileText) (hs : s.container.Reachable)
    (e : Event) (w : ω) : ((step read s e).run w).1.container.Reachable := by
  cases e with
  | act thread a => exact hs.run [(thread, a)]
  | command c => exact reachable_execute read hs c w
  | line text =>
    change ((s.executeLine read text).run w).1.2.container.Reachable
    unfold executeLine
    split
    · exact hs
    · exact reachable_execute read hs _ w

theorem reachable_run (read : String → StateM ω FileText) (hs : s.container.Reachable)
    (events : List Event) (w : ω) : ((run read s events).run w).1.container.Reachable := by
  induction events generalizing s w with
  | nil => exact hs
  | cons e events ih =>
    unfold run
    rw [List.foldlM_cons, StateT.run_bind]
    exact ih (reachable_step read hs e w) _

/-- Whatever threads and commands have done to a session that started
empty, every node that a store of it holds is well formed: it has an owner,
and one with a name, iff it has a shared value or is frozen; the shared value
of a frozen node carries its pin; shared values have the shape of the shared
slot and are pinned, the values of scopes have that of a scope; and every
value is one that the kind of the store admits. -/
theorem nodes_wellFormed (read : String → StateM ω FileText) (w : ω) (config : Config)
    (events : List Event) {k : Kind} {id : NodeId} {n : Node}
    (hn : (((run read (start config) events).run w).1.container.store k).nodes.find? id
      = some n) :
    (n.owner.isSome = true ↔ n.shared.isSome = true ∨ n.isFrozen = true)
      ∧ n.owner ≠ some ""
      ∧ (∀ q, n.isFrozen = true → n.shared = some q → q.pin = n.pin)
      ∧ (∀ q, n.shared = some q → q.isShared = true ∧ q.pin.isSome = true)
      ∧ (∀ key q, n.inScope? key = some q → q.isShared = false)
      ∧ ∀ q, n.Holds q → q.kind = k ∧ k.validate q.value = .ok () := by
  have hs := (reachable_run read (s := start config) ⟨config, [], rfl⟩ events w).sound
  have hwf : n.WellFormed k := hs.wellFormed ((hs k).at?_eq_some.2 ⟨id, hn, rfl⟩)
  refine ⟨?_, hwf.named, fun q hf hq => ?_, hwf.shared_shape, hwf.scope_shape, hwf.admitted⟩
  · rw [hwf.owned, Bool.or_eq_true]
    rfl
  · obtain ⟨pin, hpin⟩ := Option.isSome_iff_exists.1 hf
    rw [hwf.pinned pin q hpin hq, hpin]

/-- Files that do not change: a script that overwrites a value for an
add-on. -/
def scripts (path : String) : StateM Unit FileText :=
  pure (if path = "dark" then .ok "# colours\nset env colour black --global --group addon.theme\n"
    else .error .missing)

/-- A value is loaded and frozen, another thread sets its own at the same
path, and a script overwrites the loaded one. -/
def recoloured : List Event :=
  [.act 0 (.load ⟨"addon.theme", .env⟩ (.ofList [("colour", .text "white")])),
    .act 1 (.ask .env (.set "colour" (.bare (.text "grey")) {})),
    .line "run dark"]

theorem nodes_wellFormed_recoloured : ∃ n,
    (((run scripts (start {}) recoloured).run ()).1.container.store .env).nodes.find? 0 = some n
      ∧ n.isFrozen = true ∧ n.shared.map Parameter.value = some (.text "black")
      ∧ (n.inScope? ⟨1, 0⟩).isSome = true
      ∧ (n.owner.isSome = true ↔ n.shared.isSome = true ∨ n.isFrozen = true)
      ∧ n.owner ≠ some ""
      ∧ (∀ q, n.shared = some q → q.pin = n.pin)
      ∧ (∀ key q, n.inScope? key = some q → q.isShared = false)
      ∧ ∀ q, n.Holds q → q.kind = .env ∧ Kind.env.validate q.value = .ok () := by
  have hlook : ((((run scripts (start {}) recoloured).run ()).1.container.store .env).nodes.find?
      0).map (fun n => (n.isFrozen, n.shared.map Parameter.value, (n.inScope? ⟨1, 0⟩).isSome))
      = some (true, some (.text "black"), true) := by decide +kernel
  obtain ⟨n, hn, hfields⟩ := Option.map_eq_some_iff.1 hlook
  simp only [Prod.mk.injEq] at hfields
  obtain ⟨hfrozen, hshared, hlocal⟩ := hfields
  obtain ⟨howner, hnamed, hpin, -, hscope, hadmitted⟩ :=
    nodes_wellFormed scripts () {} recoloured hn
  exact ⟨n, hn, hfrozen, hshared, hlocal, howner, hnamed, fun q => hpin q hfrozen, hscope,
    hadmitted⟩

end Session

end ParamStore
