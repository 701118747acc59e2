import ParamStore.Proofs.Container.Warrant
import ParamStore.Proofs.Session.Run

/-!
# Who may change a shared value in a session

Whatever happens to a session, be it a call, the work of a loader, a command
or a script, comes down to calls on its container (`Event.AmountsTo`). Each
of them that changes a shared value does so by right, judged by the registry
and the node that it meets (`changes_warranted`).
-/

namespace ParamStore

namespace Session

open Container (Action)

variable {ω : Type} {s : Session}

theorem isCall_of_action? {cmd : Command} {a : Action} (h : cmd.action? = some a) : a.IsCall := by
  cases cmd with
  | set | unset | groupClear | scopePush | scopePop | scopeFlush =>
    cases h
    trivial
  | status | help | run | get | has | list | owner | groupNodes => cases h

/-- The calls that commands come down to. -/
def callsOf (cmds : List Command) : List (Nat × Action) :=
  (cmds.filterMap Command.action?).map fun a => (thread, a)

theorem isCall_of_mem_callsOf {cmds : List Command} : ∀ a ∈ callsOf cmds, a.2.IsCall := by
  intro a ha
  obtain ⟨b, hb, rfl⟩ := List.mem_map.1 ha
  obtain ⟨cmd, -, hcmd⟩ := List.mem_filterMap.1 hb
  exact isCall_of_action? hcmd

/-- The calls that an event comes down to, in the session and the world that
it meets. -/
inductive Event.AmountsTo (read : String → StateM ω FileText) (s : Session) (w : ω) :
    Event → List (Nat × Action) → Prop where
  | act {thread : Nat} {a : Action} :
      AmountsTo read s w (.act thread a)
        ((a.calls thread s.container).map fun b => (thread, b))
  | command {cmd : Command} {cmds : List Command}
      (hcmds : Unfolds read nestingLimit s w cmd cmds) :
      AmountsTo read s w (.command cmd) (callsOf cmds)
  | line {text : String} {cmd : Command} {acts : List (Nat × Action)}
      (hread : readLine text = .ok cmd) (h : AmountsTo read s w (.command cmd) acts) :
      AmountsTo read s w (.line text) acts
  | refused {text message : String} (hread : readLine text = .error message) :
      AmountsTo read s w (.line text) []

variable {read : String → StateM ω FileText} {w : ω}

theorem Event.AmountsTo.isCall {e : Event} {acts : List (Nat × Action)}
    (h : e.AmountsTo read s w acts) : ∀ a ∈ acts, a.2.IsCall := by
  induction h with
  | act =>
    intro b hb
    obtain ⟨a, ha, rfl⟩ := List.mem_map.1 hb
    exact (Container.makes_calls s.container _ _).isCall a ha
  | command => exact isCall_of_mem_callsOf
  | line _ _ ih => exact ih
  | refused => exact fun a ha => absurd ha List.not_mem_nil

theorem amountsTo_execute (read : String → StateM ω FileText) (s : Session) (cmd : Command)
    (w : ω) : ∃ acts, Event.AmountsTo read s w (.command cmd) acts
      ∧ ((s.execute read cmd).run w).1.2.container = s.container.run acts := by
  obtain ⟨cmds, hcmds, heq⟩ := exists_unfolds read nestingLimit s cmd w
  exact ⟨callsOf cmds, .command hcmds, congrArg container heq⟩

/-- What happens to a session are calls on its container. -/
theorem amountsTo_step (read : String → StateM ω FileText) (s : Session) (e : Event) (w : ω) :
    ∃ acts, e.AmountsTo read s w acts
      ∧ ((step read s e).run w).1.container = s.container.run acts := by
  cases e with
  | act thread a => exact ⟨_, .act, (Container.makes_calls s.container thread a).run_eq.symm⟩
  | command cmd => exact amountsTo_execute read s cmd w
  | line text =>
    change ∃ acts, _ ∧ ((s.executeLine read text).run w).1.2.container = _
    unfold executeLine
    cases hread : readLine text with
    | error message => exact ⟨[], .refused hread, rfl⟩
    | ok cmd =>
      obtain ⟨acts, hacts, heq⟩ := amountsTo_execute read s cmd w
      exact ⟨acts, .line hread hacts, heq⟩

/-- Whatever happens to a session, a shared value appears, is replaced or
disappears in it only where one of its calls sets or unsets the value by
right: as a group that may write at that moment and, if it sets the value,
that owns the node afterwards, and did so before if any group did. All other
calls, and sets as another group than the owner, leave it as it is. -/
theorem changes_warranted (read : String → StateM ω FileText) (w : ω)
    (hs : s.container.Reachable) (e : Event) :
    ∃ acts, e.AmountsTo read s w acts
      ∧ ((step read s e).run w).1.container = s.container.run acts
      ∧ (∀ k p earlier thread a later, acts = earlier ++ (thread, a) :: later →
        (s.container.run (earlier ++ [(thread, a)])).shared? k p
          ≠ (s.container.run earlier).shared? k p →
        (s.container.run earlier).Warranted thread k p a)
      ∧ (∀ k p, ((step read s e).run w).1.container.shared? k p ≠ s.container.shared? k p →
        ∃ earlier thread a later, acts = earlier ++ (thread, a) :: later
          ∧ (s.container.run earlier).Warranted thread k p a)
      ∧ ∀ k p thread a, a.IsCall → (∀ text o, a ≠ .ask k (.unset text o)) →
        (∀ text input o, a = .ask k (.set text input o) →
          ∃ g, s.container.owner? k p = some g ∧ g ≠ s.container.actingGroup o.group) →
        (s.container.step thread a).shared? k p = s.container.shared? k p := by
  obtain ⟨acts, hacts, hrun⟩ := amountsTo_step read s e w
  have hwarranted : ∀ k p earlier thread a later, acts = earlier ++ (thread, a) :: later →
      (s.container.run (earlier ++ [(thread, a)])).shared? k p
        ≠ (s.container.run earlier).shared? k p →
      (s.container.run earlier).Warranted thread k p a :=
    fun _ _ _ _ _ _ hsplit hne => Container.warranted_run hs.sound hacts.isCall hsplit hne
  refine ⟨acts, hacts, hrun, hwarranted, fun k p hne => ?_, fun k p thread a ha hunset hset => ?_⟩
  · rw [hrun] at hne
    obtain ⟨earlier, thread, a, later, hsplit, hchange⟩ := Container.exists_change hne
    exact ⟨earlier, thread, a, later, hsplit, hwarranted k p _ _ _ _ hsplit hchange⟩
  · exact Container.shared?_kept hs.sound ha hunset hset

/-- A session in which an add-on has a colour loaded. -/
def coloured : Session :=
  ⟨{}, (Container.ofConfig {}).run
    [(0, .load ⟨"addon.theme", .env⟩ (.ofList [("colour", .text "white")]))]⟩

/-- The session after a script has overwritten the colour. -/
def darkened : Session := ((step scripts coloured (.line "run dark")).run ()).1

theorem changes_warranted_recoloured : ∃ p, Store.readPath "colour" = .ok p
    ∧ (coloured.container.shared? .env p).map Parameter.value = some (.text "white")
    ∧ (darkened.container.shared? .env p).map Parameter.value = some (.text "black")
    ∧ ∃ acts, Event.AmountsTo scripts coloured () (.line "run dark") acts
      ∧ ∃ earlier thread a later, acts = earlier ++ (thread, a) :: later
        ∧ (coloured.container.run earlier).Warranted thread .env p a := by
  have hbefore : (Store.readPath "colour").toOption.bind (fun p =>
      (coloured.container.at? .env p).map fun n => n.shared.map Parameter.value)
        = some (some (.text "white")) := by decide +kernel
  have hafter : (Store.readPath "colour").toOption.bind (fun p =>
      (darkened.container.at? .env p).map fun n => n.shared.map Parameter.value)
        = some (some (.text "black")) := by decide +kernel
  obtain ⟨p, hp, n, hn, hwhite⟩ := Container.at?_of_look hbefore
  obtain ⟨p', hp', n', hn', hblack⟩ := Container.at?_of_look hafter
  cases hp.symm.trans hp'
  have hwhite : (coloured.container.shared? .env p).map Parameter.value
      = some (.text "white") := by
    rw [Container.shared?_eq_bind, hn]
    exact hwhite
  have hblack : (darkened.container.shared? .env p).map Parameter.value
      = some (.text "black") := by
    rw [Container.shared?_eq_bind, hn']
    exact hblack
  have hne : darkened.container.shared? .env p ≠ coloured.container.shared? .env p := by
    intro heq
    rw [heq, hwhite] at hblack
    exact absurd hblack (by decide)
  unfold darkened at hne
  obtain ⟨acts, hacts, -, -, hresponsible, -⟩ :=
    changes_warranted scripts () (s := coloured) ⟨{}, _, rfl⟩ (.line "run dark")
  exact ⟨p, hp, hwhite, hblack, acts, hacts, hresponsible .env p hne⟩

end Session

end ParamStore
