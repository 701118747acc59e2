import ParamStore.Proofs.Container.Frames
import ParamStore.Proofs.Session.Run

/-!
# Refusals

What is refused has changed nothing: neither a value or a node nor an index,
a frame or a registration. On one store that holds because a set or an unset
is planned in full before anything is written; an unload decides by the first
value that it may not take away, and there is none to decide by once it has
taken one; a pop is refused before it flushes; and clearing freezes is never
refused (`clearFrozen_ok`). Commands inherit it (`refused_unchanged`), other
than scripts, which stop at the line that fails and keep what stands before.
-/

namespace ParamStore

namespace Container

variable {c : Container} {α : Type}

/-- A reply that leaves the container as it was, in case it refuses. -/
def Spares (c : Container) (r : Reply Container α) : Prop := ∀ e, r.1 = .error e → r.2 = c

theorem Spares.of_ok {r : Reply Container α} (h : ∃ a, r.1 = .ok a) : c.Spares r := by
  obtain ⟨a, ha⟩ := h
  intro e he
  cases ha.symm.trans he

theorem spares_set (h : c.Sound) (thread : Nat) (k : Kind) (text : String) (input : Input)
    (o : SetOptions) : c.Spares (c.set thread k text input o) := by
  rcases h.turns_set thread k text input o with ⟨e, -, heq⟩ | ⟨_, stored, _, -, hok, -⟩
  · rw [heq]
    exact fun _ _ => rfl
  · exact .of_ok ⟨stored, hok⟩

theorem spares_unset (h : c.Sound) (thread : Nat) (k : Kind) (text : String) (o : UnsetOptions) :
    c.Spares (c.unset thread k text o) := by
  rcases h.turns_unset thread k text o with ⟨e, -, heq⟩ | ⟨_, removed, _, -, hok, -⟩
  · rw [heq]
    exact fun _ _ => rfl
  · exact .of_ok ⟨removed, hok⟩

/-- Releasing the freezes of a group is never refused. -/
theorem clearFrozen_ok (h : c.Sound) (g : Group) : ∃ count, (c.clearFrozen g).1 = .ok count :=
  ⟨_, fst_clearFrozen h g⟩

theorem spares_pop (c : Container) (thread : Nat) : c.Spares (c.pop thread) := by
  rcases pop_frames c thread with ⟨-, heq⟩ | ⟨d, _, -, -, hok, -⟩
  · exact fun _ _ => heq
  · exact .of_ok ⟨d, hok⟩

theorem spares_unload (h : c.Sound) (l : Loader) (thread : Nat) :
    c.Spares (l.unload thread c) := by
  rcases unload_cases h l thread with ⟨heq, -⟩ | ⟨report, c', -, heq, -⟩
  · rw [heq]
    exact fun _ _ => rfl
  · rw [heq]
    exact .of_ok ⟨report, rfl⟩

end Container

namespace Session

open Container (Spares)

variable {s : Session} {α : Type}

/-- Where answers make no failures, a failure is a refusal, and keeps the
session if the reply spares its container. -/
theorem eq_of_respond_error {output : α → Response} {r : Reply Container α} {message : String}
    (hr : s.container.Spares r) (hout : ∀ a, output a ≠ .error message)
    (h : (s.respond output r).1 = .error message) : (s.respond output r).2 = s := by
  obtain ⟨answer, c⟩ := r
  cases answer with
  | ok a => exact absurd h (hout a)
  | error e =>
    obtain rfl : c = s.container := hr e rfl
    rfl

/-- A command that runs no script and fails leaves the session as it is. -/
theorem perform_spares (hs : s.container.Sound) {cmd : Command} (hcmd : ∀ path, cmd ≠ .run path) :
    ∃ response s', (∀ {m : Type → Type} [Monad m]
        (script : String → Session → m (Response × Session)),
        perform script s cmd = pure (response, s'))
      ∧ ∀ message, response = .error message → s' = s := by
  cases cmd with
  | run path => exact absurd rfl (hcmd path)
  | set kind path v f =>
    refine ⟨_, _, fun _ => rfl, fun message => eq_of_respond_error ?_ fun _ => Response.noConfusion⟩
    exact Container.spares_set hs thread kind path (inputOf kind v f) _
  | unset kind path f =>
    refine ⟨_, _, fun _ => rfl, fun message => eq_of_respond_error ?_ fun removed => ?_⟩
    · exact Container.spares_unset hs thread kind path (unsetOf f)
    · cases removed <;> exact Response.noConfusion
  | groupClear group =>
    refine ⟨_, _, fun _ => rfl, fun message => eq_of_respond_error ?_ fun _ => Response.noConfusion⟩
    exact .of_ok (Container.clearFrozen_ok hs group)
  | scopePop =>
    refine ⟨_, _, fun _ => rfl, fun message => eq_of_respond_error ?_ fun _ => Response.noConfusion⟩
    exact Container.spares_pop s.container thread
  -- what these answer is no failure
  | scopePush | scopeFlush => exact ⟨_, _, fun _ => rfl, fun _ => Response.noConfusion⟩
  -- these leave the session as it is in any case
  | status | help | get | has | list | owner | groupNodes =>
    exact ⟨_, _, fun _ => rfl, fun _ _ => rfl⟩

/-- Whatever is refused, be it a set, an unset, a release of freezes, a pop,
an unload or a command that runs no script, leaves everything as it was. -/
theorem refused_unchanged (hs : s.container.Reachable) :
    (∀ thread k text input o, s.container.Spares (s.container.set thread k text input o))
      ∧ (∀ thread k text o, s.container.Spares (s.container.unset thread k text o))
      ∧ (∀ k g, s.container.Spares (s.container.clearKind k g))
      ∧ (∀ g, s.container.Spares (s.container.clearFrozen g))
      ∧ (∀ thread, s.container.Spares (s.container.pop thread))
      ∧ (∀ (l : Loader) thread, s.container.Spares (l.unload thread s.container))
      ∧ ∀ cmd : Command, (∀ path, cmd ≠ .run path) →
        ∃ response s', (∀ {m : Type → Type} [Monad m] (read : String → m FileText),
            s.execute read cmd = pure (response, s'))
          ∧ ∀ message, response = .error message → s' = s := by
  have hsound := hs.sound
  refine ⟨Container.spares_set hsound, Container.spares_unset hsound,
    fun k g => .of_ok (hsound.turns_clearKind k g).1,
    fun g => .of_ok (Container.clearFrozen_ok hsound g), Container.spares_pop s.container,
    Container.spares_unload hsound, fun cmd hcmd => ?_⟩
  obtain ⟨response, s', hperform, hkept⟩ := perform_spares hsound hcmd
  refine ⟨response, s', fun read => ?_, hkept⟩
  obtain ⟨script, hscript⟩ := executeWithin_eq_perform read nestingLimit s cmd
  exact hscript.trans (hperform script)

/-- A session in which an add-on has a colour loaded and has given up its
registration since. -/
def resigned : Session :=
  ⟨{}, (Container.ofConfig {}).run
    [(0, .load ⟨"addon.theme", .env⟩ (.ofList [("colour", .text "white")])),
      (0, .unregister "addon.theme")]⟩

/-- The answer to who unsets the colour as another group and releases it. -/
def foreign : String := "wrong_group: group 'shell' does not own 'colour' (owner: addon.theme)"

theorem refused_unchanged_resigned :
    (resigned.container.set 1 .env "colour" (.bare (.text "black"))
          { shared := true, group := some "addon.theme" }).1
        = .error (.unauthorized "addon.theme" .env)
      ∧ (resigned.container.set 1 .env "colour" (.bare (.text "black"))
          { shared := true, group := some "addon.theme" }).2 = resigned.container
      ∧ (Loader.unload ⟨"addon.theme", .env⟩ 0 resigned.container).1
        = .error (.unauthorized "addon.theme" .env)
      ∧ (Loader.unload ⟨"addon.theme", .env⟩ 0 resigned.container).2 = resigned.container
      ∧ (resigned.container.pop 0).1 = .error .scopeUnderflow
      ∧ (resigned.container.pop 0).2 = resigned.container
      ∧ ∀ read : String → StateM Unit FileText,
        resigned.execute read (.unset .env "colour" { shared := true, unfreeze := true })
          = pure (.error foreign, resigned) := by
  obtain ⟨hset, -, -, -, hpop, hunload, hcommand⟩ := refused_unchanged (s := resigned) ⟨{}, _, rfl⟩
  have hset₁ : (resigned.container.set 1 .env "colour" (.bare (.text "black"))
      { shared := true, group := some "addon.theme" }).1
        = .error (.unauthorized "addon.theme" .env) := by decide +kernel
  have hunload₁ : (Loader.unload ⟨"addon.theme", .env⟩ 0 resigned.container).1
      = .error (.unauthorized "addon.theme" .env) := by decide +kernel
  have hpop₁ : (resigned.container.pop 0).1 = .error .scopeUnderflow := by decide +kernel
  obtain ⟨response, s', hexecute, hkept⟩ :=
    hcommand (.unset .env "colour" { shared := true, unfreeze := true }) fun _ => nofun
  have hresponse : (resigned.execute (m := Id) (fun _ => .error .missing)
      (.unset .env "colour" { shared := true, unfreeze := true })).1 = .error foreign := by
    decide +kernel
  obtain rfl : response = .error foreign :=
    (congrArg Prod.fst (hexecute (m := Id) _)).symm.trans hresponse
  obtain rfl := hkept foreign rfl
  exact ⟨hset₁, hset _ _ _ _ _ _ hset₁, hunload₁, hunload _ _ _ hunload₁, hpop₁,
    hpop _ _ hpop₁, fun read => hexecute read⟩

end Session

end ParamStore
