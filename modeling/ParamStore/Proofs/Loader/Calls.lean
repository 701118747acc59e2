import ParamStore.Proofs.Container.Run

/-!
# What loaders call

A loader goes through the operations that everyone uses: it registers its
group, sets and unsets values under that group, and clears its freezes. The
calls that it makes depend on how each is answered, so they are listed along
the container that the earlier ones leave (`Action.calls`). Made one after
the other they are the whole of a load, a reload or an unload (`makes_calls`),
so whatever every single call preserves, a loader does too.

Looking values up is left out of the lists, since it changes nothing.
-/

namespace ParamStore

open Container (Action)
open Json (Value)

namespace Container

variable {c c' c'' : Container} {thread : Nat} {a : Action} {calls more : List Action}

/-- The actions that are one call, and not the work of a loader. -/
def Action.IsCall : Action → Prop
  | .load _ _ | .reload _ _ | .unload _ => False
  | _ => True

/-- A thread that makes these calls, one after the other, makes the second
container of the first. -/
inductive Makes (thread : Nat) : Container → List Action → Container → Prop where
  | nil {c : Container} : Makes thread c [] c
  | cons {c c' : Container} {a : Action} {calls : List Action} (ha : a.IsCall)
      (h : Makes thread (c.step thread a) calls c') : Makes thread c (a :: calls) c'

theorem Makes.append (h : Makes thread c calls c') (h' : Makes thread c' more c'') :
    Makes thread c (calls ++ more) c'' := by
  induction h with
  | nil => exact h'
  | cons ha _ ih => exact .cons ha (ih h')

theorem Makes.one (ha : a.IsCall) : Makes thread c [a] (c.step thread a) := .cons ha .nil

theorem Makes.isCall (h : Makes thread c calls c') : ∀ a ∈ calls, a.IsCall := by
  induction h with
  | nil => exact fun a ha => absurd ha List.not_mem_nil
  | cons ha _ ih => exact List.forall_mem_cons.2 ⟨ha, ih⟩

theorem Makes.run_eq (h : Makes thread c calls c') :
    c.run (calls.map fun a => (thread, a)) = c' := by
  induction h with
  | nil => rfl
  | cons _ _ ih => exact ih

end Container

namespace Loader

open Container (Makes)

variable {c : Container} {thread : Nat} {l : Loader}

/-! ## Loading -/

/-- The calls that take back what was stored, the last one first. -/
def rollBackCalls (l : Loader) (thread : Nat) : List Written → Container → List Action
  | [], _ => []
  | w :: ws, c =>
    let (taken, c) := c.unset thread l.kind w.path l.withdrawal
    .ask l.kind (.unset w.path l.withdrawal) ::
      match taken, w.previous with
      | .ok _, some p =>
        let (_, c) := c.set thread l.kind w.path (.made p) l.restoration
        .ask l.kind (.set w.path (.made p) l.restoration) :: l.rollBackCalls thread ws c
      | _, _ => l.rollBackCalls thread ws c

/-- The calls that store entries, and those that take back the ones before
where one fails. -/
def depositCalls (l : Loader) (thread : Nat) (written : List Written) :
    List (String × Value) → Container → List Action
  | [], _ => []
  | (path, v) :: es, c =>
    match c.get thread l.kind path lookup with
    | .error _ => l.rollBackCalls thread written c
    | .ok previous =>
      let (stored, c) := c.set thread l.kind path (.bare v) l.deposit
      .ask l.kind (.set path (.bare v) l.deposit) ::
        match stored with
        | .error _ => l.rollBackCalls thread written c
        | .ok _ => l.depositCalls thread (⟨path, previous⟩ :: written) es c

def loadCalls (l : Loader) (thread : Nat) (snapshot : Snapshot) (c : Container) : List Action :=
  let (registered, c) := c.register l.group
  .register l.group :: l.depositCalls thread [] snapshot.entries c ++
    match l.loadEntries thread [] snapshot.entries c with
    | (.error _, _) => if registered then [.unregister l.group] else []
    | (.ok (), _) => []

theorem makes_rollBackCalls (ws : List Written) (c : Container) :
    Makes thread c (l.rollBackCalls thread ws c) (l.rollBack thread ws c) := by
  induction ws generalizing c with
  | nil => exact .nil
  | cons w ws ih =>
    unfold rollBackCalls rollBack
    cases hout : c.unset thread l.kind w.path l.withdrawal with
    | mk taken c' =>
      refine .cons trivial ?_
      rw [Container.step_unset, hout]
      cases taken with
      | error e => exact ih c'
      | ok q =>
        cases w.previous with
        | none => exact ih c'
        | some p => exact .cons trivial (ih _)

theorem makes_depositCalls (es : List (String × Value)) (written : List Written) (c : Container) :
    Makes thread c (l.depositCalls thread written es c)
      (l.loadEntries thread written es c).2 := by
  induction es generalizing written c with
  | nil => exact .nil
  | cons e es ih =>
    obtain ⟨path, v⟩ := e
    unfold depositCalls loadEntries loadEntry
    cases c.get thread l.kind path lookup with
    | error e => exact makes_rollBackCalls written c
    | ok previous =>
      cases hout : c.set thread l.kind path (.bare v) l.deposit with
      | mk stored c' =>
        refine .cons trivial ?_
        rw [Container.step_set, hout]
        cases stored with
        | error e => exact makes_rollBackCalls written c'
        | ok q => exact ih (⟨path, previous⟩ :: written) c'

theorem makes_loadCalls (snapshot : Snapshot) (c : Container) :
    Makes thread c (l.loadCalls thread snapshot c) (l.load thread snapshot c).2 := by
  unfold loadCalls load
  cases hout : c.register l.group with
  | mk registered c' =>
    have hstep : c.step thread (.register l.group) = c' := congrArg Prod.snd hout
    dsimp only
    refine .cons trivial ?_
    rw [hstep]
    refine (makes_depositCalls snapshot.entries [] c').append ?_
    cases l.loadEntries thread [] snapshot.entries c' with
    | mk answer c'' =>
      cases answer with
      | ok u => exact .nil
      | error e =>
        cases registered with
        | false => exact .nil
        | true => exact .one trivial

/-! ## Unloading -/

/-- The calls that take away the values at these paths, but for those in the
report. -/
def withdrawCalls (l : Loader) (thread : Nat) (report : Report) :
    List Path → Container → List Action
  | [], _ => []
  | p :: ps, c =>
    if report.changed.contains p.dotted || report.removed.contains p.dotted then
      l.withdrawCalls thread report ps c
    else
      let (taken, c) := c.unset thread l.kind p.dotted l.withdrawal
      .ask l.kind (.unset p.dotted l.withdrawal) ::
        match taken with
        | .error _ => []
        | .ok _ => l.withdrawCalls thread report ps c

def unloadCalls (l : Loader) (thread : Nat) (c : Container) : List Action :=
  match l.pending thread c with
  | .error _ => []
  | .ok report =>
    let paths := (c.store l.kind).groupPaths l.group
    l.withdrawCalls thread report paths c ++
      match l.withdraw thread report paths c with
      | (.error _, _) => []
      | (.ok (), c) =>
        .ask l.kind (.clearFrozen l.group) ::
          match c.clearKind l.kind l.group with
          | (.error _, _) => []
          | (.ok _, _) => [.unregister l.group]

def reloadCalls (l : Loader) (thread : Nat) (snapshot : Snapshot) (c : Container) : List Action :=
  .ask l.kind (.clearFrozen l.group) ::
    match c.clearKind l.kind l.group with
    | (.error _, _) => []
    | (.ok _, c) => l.loadCalls thread snapshot c

theorem makes_withdrawCalls (report : Report) (ps : List Path) (c : Container) :
    Makes thread c (l.withdrawCalls thread report ps c) (l.withdraw thread report ps c).2 := by
  induction ps generalizing c with
  | nil => exact .nil
  | cons p ps ih =>
    unfold withdrawCalls withdraw
    split
    · exact ih c
    · cases hout : c.unset thread l.kind p.dotted l.withdrawal with
      | mk taken c' =>
        refine .cons trivial ?_
        rw [Container.step_unset, hout]
        cases taken with
        | error e => exact .nil
        | ok q => exact ih c'

theorem makes_unloadCalls (c : Container) :
    Makes thread c (l.unloadCalls thread c) (l.unload thread c).2 := by
  unfold unloadCalls unload
  cases l.pending thread c with
  | error e => exact .nil
  | ok report =>
    have hwithdraw : Makes thread c (l.withdrawCalls thread report _ c) _ :=
      makes_withdrawCalls report ((c.store l.kind).groupPaths l.group) c
    dsimp only
    cases hout : l.withdraw thread report ((c.store l.kind).groupPaths l.group) c with
    | mk answer c' =>
      rw [hout] at hwithdraw
      cases answer with
      | error e => exact hwithdraw.append .nil
      | ok u =>
        dsimp only
        refine hwithdraw.append (.cons trivial ?_)
        rw [Container.step_clearKind]
        cases c'.clearKind l.kind l.group with
        | mk cleared c'' =>
          cases cleared with
          | error e => exact .nil
          | ok count => exact .one trivial

theorem makes_reloadCalls (snapshot : Snapshot) (c : Container) :
    Makes thread c (l.reloadCalls thread snapshot c) (l.reload thread snapshot c).2 := by
  unfold reloadCalls reload
  refine .cons trivial ?_
  rw [Container.step_clearKind]
  cases c.clearKind l.kind l.group with
  | mk cleared c' =>
    cases cleared with
    | error e => exact .nil
    | ok count => exact makes_loadCalls snapshot c'

end Loader

namespace Container

open Loader

variable {c : Container} {thread : Nat}

/-- The calls that an action is made of. -/
def Action.calls (thread : Nat) (c : Container) : Action → List Action
  | .load l snapshot => l.loadCalls thread snapshot c
  | .reload l snapshot => l.reloadCalls thread snapshot c
  | .unload l => l.unloadCalls thread c
  | a => [a]

/-- An action is its calls, made one after the other. -/
theorem makes_calls (c : Container) (thread : Nat) (a : Action) :
    Makes thread c (a.calls thread c) (c.step thread a) := by
  cases a with
  | load l snapshot => exact makes_loadCalls snapshot c
  | reload l snapshot => exact makes_reloadCalls snapshot c
  | unload l => exact makes_unloadCalls c
  | ask | flush | clearFrozen | push | pop | register | unregister => exact .one trivial

end Container

end ParamStore
