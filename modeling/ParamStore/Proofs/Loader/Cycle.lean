import ParamStore.Proofs.Loader.FailedLoad
import ParamStore.Proofs.Loader.Report
import ParamStore.Proofs.Store.Contents

/-!
# Loading and unloading again

A loader whose group owns nothing yet fills nodes that nobody owns: an owner
other than the group would have refused the entry. Its values are pinned to
their own identity, so there is nothing to report (`Accounts.eq_empty`), and
an unload strips the same nodes again. What it strips is then what was there
before the load (`kept_unowned`), and the registration that the load made is
the one that the unload gives up (`Registry.Needed.unregister_register`).
-/

namespace ParamStore

open Json (Value)

/-! ## Registrations -/

namespace Registry

variable {r : Registry} {g : Group}

/-- No group is registered that may write anyway. -/
def Needed (r : Registry) : Prop :=
  ∀ g, r.registered.find? g = some () → g ≠ r.defaultGroup ∧ g ∉ r.trusted

theorem Needed.register (h : r.Needed) (g : Group) : (r.register g).2.Needed := by
  unfold Registry.register
  split
  · exact h
  · next ha =>
    intro g' hg'
    rw [Table.find?_insert] at hg'
    split at hg'
    · next heq =>
      subst heq
      rw [isAuthorized_iff] at ha
      exact ⟨fun hd => ha (.inl hd), fun ht => ha (.inr (.inl ht))⟩
    · exact h g' hg'

theorem Needed.unregister (h : r.Needed) (g : Group) : (r.unregister g).Needed := by
  intro g' hg'
  rw [Registry.unregister, Table.find?_erase] at hg'
  split at hg'
  · cases hg'
  · exact h g' hg'

/-- Giving up a registration changes nothing for a group that may write
anyway. -/
theorem Needed.unregister_eq (h : r.Needed) (hg : g = r.defaultGroup ∨ g ∈ r.trusted) :
    r.unregister g = r := by
  have hnone : r.registered.find? g = none := by
    cases hf : r.registered.find? g with
    | none => rfl
    | some _ => exact absurd hg (not_or.2 (h g hf))
  rw [Registry.unregister, Table.erase_of_none hnone]

/-- A group that may write anyway, or may not write, gives up what it
registered. -/
theorem Needed.unregister_register (h : r.Needed)
    (hg : g = r.defaultGroup ∨ g ∈ r.trusted ∨ r.isAuthorized g = false) :
    (r.register g).2.unregister g = r := by
  cases ha : r.isAuthorized g with
  | false =>
    refine Registry.unregister_register ?_
    simp [Registry.register, ha]
  | true =>
    have hsame : (r.register g).2 = r := register_of_not_added (by simp [Registry.register, ha])
    rw [hsame]
    exact h.unregister_eq (hg.imp_right fun ht => ht.resolve_right (by simp [ha]))

end Registry

namespace Container

variable {c c' : Container}

theorem needed_step (h : c.Sound) (hr : c.registry.Needed) (thread : Nat) (a : Action) :
    (c.step thread a).registry.Needed := by
  obtain ⟨frames, heq⟩ | ⟨g, heq⟩ | ⟨g, -, heq⟩ := registry_step h thread a
  · rw [heq]
    exact hr
  · rw [heq]
    exact hr.register g
  · rw [heq]
    exact hr.unregister g

theorem needed_run (h : c.Sound) (hr : c.registry.Needed) (acts : List (Nat × Action)) :
    (c.run acts).registry.Needed := by
  induction acts generalizing c with
  | nil => exact hr
  | cons a acts ih => exact ih (h.step a.1 a.2) (needed_step h hr a.1 a.2)

theorem Reachable.needed (h : Reachable c) : c.registry.Needed := by
  obtain ⟨config, acts, rfl⟩ := h
  exact needed_run (Sound.ofConfig config) (fun g hg => by cases hg) acts

/-- Containers that look alike, with the same frames, answer alike. -/
theorem LooksLike.ask_eq (hlooks : c.LooksLike c') (h : c.Sound) (h' : c'.Sound)
    (hr : c.registry = c'.registry) (thread : Nat) (k : Kind) (r : Store.Request) :
    (c.ask thread k r).1 = (c'.ask thread k r).1 := by
  have hcaller : c.caller thread = c'.caller thread := congrArg (Registry.caller · thread) hr
  unfold ask
  rw [hcaller]
  exact (Store.serve_congr (h k).toConsistent (h' k).toConsistent (hlooks.at?_eq k) k
    (c'.caller thread) r).1

end Container

namespace Loader

variable {l : Loader} {thread unloader count : Nat} {snapshot : Snapshot} {c c₁ c₂ : Container}
  {report : Report}

/-! ## Right after a load -/

/-- Every entry of the snapshot stands at its path, frozen by the group and
pinned to its own identity, and nothing else has changed. -/
structure Loads (l : Loader) (snapshot : Snapshot) (c c₁ : Container) : Prop where
  entries : ∀ text v, snapshot.find? text = some v → ∃ p n q, Store.readPath text = .ok p
    ∧ c₁.at? l.kind p = some n ∧ n.owner = some l.group ∧ n.isFrozen = true
    ∧ n.shared = some q ∧ q.kind = l.kind ∧ q.value = v
    ∧ n.pin = some q.identity ∧ q.pin = some q.identity
  rest : ∀ p, (∀ text v, snapshot.find? text = some v → Store.readPath text ≠ .ok p) →
    c₁.at? l.kind p = c.at? l.kind p
  scopes : ∀ k p key, c₁.inScope? k p key = c.inScope? k p key
  kinds : ∀ k, k ≠ l.kind → c₁.store k = c.store k

theorem load_loads (h : c.Sound) (hload : l.load thread snapshot c = (.ok count, c₁)) :
    l.Loads snapshot c c₁ := by
  obtain ⟨ws, hstanding⟩ := load_ok h hload
  refine ⟨fun text v hv => ?_, fun p hp => ?_, fun k p key => ?_, fun k hk => ?_⟩
  · obtain ⟨p, hp, -, hat⟩ := hstanding.entry _ (Table.find?_eq_some_iff.1 hv)
    refine ⟨p, _, l.stored v, hp, hat, rfl, rfl, rfl, rfl, rfl, ?_, ?_⟩
    · rw [identity_stored]
      rfl
    · rw [identity_stored, pin_stored]
  · refine (hstanding.rest p fun e he => ?_).trans (Container.at?_register c l.group l.kind p)
    exact hp e.1 e.2 (Table.find?_eq_some_iff.2 he)
  · have hscopes : (l.load thread snapshot c).2.inScope? k p key = c.inScope? k p key :=
      Container.inScope?_load h l thread snapshot
    rwa [hload] at hscopes
  · exact (hstanding.store_eq k hk).trans (Container.store_register c l.group k)

/-- A report on a group whose values are all untouched is empty. -/
theorem Accounts.eq_empty (h : l.Accounts c report)
    (hall : ∀ p n, c.at? l.kind p = some n → n.owner = some l.group →
      n.shared.any Parameter.isUntouched = true) : report = ⟨∅, []⟩ := by
  have hchanged : report.changed = ∅ := by
    refine Table.ext fun text => ?_
    cases hv : report.changed.find? text with
    | none => rfl
    | some v =>
      obtain ⟨p, n, q, -, hn, howner, hs, hq, -⟩ := h.changed text v hv
      have hu := hall p n hn howner
      rw [hs, Option.any_some, Parameter.isEdited_iff.1 hq] at hu
      cases hu
  have hremoved : report.removed = [] := by
    obtain ⟨ps, heq, -, hps⟩ := h.removed
    rw [heq, List.map_eq_nil_iff, List.eq_nil_iff_forall_not_mem]
    intro p hp
    obtain ⟨n, hn, howner, hs⟩ := hps p hp
    have hu := hall p n hn howner
    rw [hs] at hu
    cases hu
  obtain ⟨changed, removed⟩ := report
  cases hchanged
  cases hremoved
  rfl

/-! ## The unload after it -/

section Cycle

variable (hfree : ∀ p n, c.at? l.kind p = some n → n.owner ≠ some l.group)

include hfree

/-- What a load leaves for an unload of the same group to settle: a node that
it filled, to be stripped to what was there before, or one that the group
does not own. -/
theorem at?_load (h : c.Sound) (hload : l.load thread snapshot c = (.ok count, c₁)) (p : Path) :
    (∃ n, c₁.at? l.kind p = some n ∧ n.owner = some l.group
        ∧ n.shared.any Parameter.isUntouched = true ∧ n.stripped.kept = c.at? l.kind p) ∨
      c₁.at? l.kind p = c.at? l.kind p := by
  obtain ⟨ws, hstanding⟩ := load_ok h hload
  by_cases hp : ∀ e ∈ snapshot.entries, Store.readPath e.1 ≠ .ok p
  · exact .inr ((hstanding.rest p hp).trans (Container.at?_register c l.group l.kind p))
  simp only [not_forall, Classical.not_not] at hp
  obtain ⟨e, he, hread⟩ := hp
  obtain ⟨p', hp', haccepts, hat⟩ := hstanding.entry e he
  cases hread.symm.trans hp'
  rw [Container.at?_register] at haccepts hat
  have huntouched : (l.stored e.2).isUntouched = true := by
    have hpinned : (l.stored e.2).isPinned = true := by
      rw [Parameter.isPinned_iff, pin_stored, identity_stored]
    rw [Parameter.isUntouched, hpinned, Bool.true_or]
  refine .inl ⟨_, hat, rfl, huntouched, ?_⟩
  rw [stripped_filled]
  refine kept_unowned h fun n hn => ?_
  rw [hn] at haccepts
  cases howner : n.owner with
  | none => rfl
  | some g =>
    obtain rfl := haccepts.owner_eq g howner
    exact absurd howner (hfree p n hn)

theorem pending_load (h : c.Sound) (hload : l.load thread snapshot c = (.ok count, c₁))
    (reader : Nat) : l.pending reader c₁ = .ok ⟨∅, []⟩ := by
  obtain ⟨ws, hstanding⟩ := load_ok h hload
  obtain ⟨report, hpending, -⟩ := l.pending_ok reader c₁
  rw [hpending, (pending_accounts hstanding.sound hpending).eq_empty fun p n hn howner => ?_]
  obtain ⟨m, hm, -, huntouched, -⟩ | hsame := at?_load hfree h hload p
  · cases hn.symm.trans hm
    exact huntouched
  · exact absurd howner (hfree p n (hsame ▸ hn))

/-- The unload after a load brings every node back. -/
theorem at?_unload_load (h : c.Sound) (hload : l.load thread snapshot c = (.ok count, c₁))
    (hunload : l.unload unloader c₁ = (.ok report, c₂)) (k : Kind) (p : Path) :
    c₂.at? k p = c.at? k p := by
  obtain ⟨ws, hstanding⟩ := load_ok h hload
  have hconfined := unload_confined hstanding.sound hunload
  by_cases hk : k = l.kind
  · subst hk
    obtain ⟨n, hn, howner, huntouched, hback⟩ | hsame := at?_load hfree h hload p
    · obtain ⟨-, hat, -⟩ := Container.unload_eq_ok hstanding.sound hunload
      rw [hat, hn, Option.bind_some, Node.unloadedFor_of_untouched howner huntouched, hback]
    · exact (hconfined.nodes p fun n hn => hfree p n (hsame ▸ hn)).trans hsame
  · unfold Container.at?
    rw [hconfined.kinds k hk, (load_loads h hload).kinds k hk]

end Cycle

/-- Loading and unloading again changes nothing. If the group owns nothing of
the kind, and either may write without a registration or has none, then a
load that goes through stores the snapshot and leaves nothing to report, and
the unload after it goes through without a word. What it leaves has the same
registry, looks the same, and answers every request as before the load. -/
theorem unload_undoes_load (hc : c.Reachable)
    (hfree : ∀ p n, c.at? l.kind p = some n → n.owner ≠ some l.group)
    (hgroup : l.group = c.registry.defaultGroup ∨ l.group ∈ c.registry.trusted
      ∨ c.registry.isAuthorized l.group = false)
    (hload : l.load thread snapshot c = (.ok count, c₁)) (unloader : Nat) :
    l.Loads snapshot c c₁
      ∧ (∀ reader, l.pending reader c₁ = .ok ⟨∅, []⟩)
      ∧ ∃ c₂, l.unload unloader c₁ = (.ok ⟨∅, []⟩, c₂)
        ∧ c₂.registry = c.registry
        ∧ c₂.LooksLike c
        ∧ ∀ asker k r, (c₂.ask asker k r).1 = (c.ask asker k r).1 := by
  have h : c.Sound := hc.sound
  obtain ⟨ws, hstanding⟩ := load_ok h hload
  have hpending := pending_load hfree h hload
  refine ⟨load_loads h hload, hpending, ?_⟩
  have ha : c₁.registry.isAuthorized l.group = true :=
    hstanding.registry_eq ▸ Registry.isAuthorized_register c.registry l.group
  obtain ⟨report, c', -, hunload, -⟩ := unload_ok hstanding.sound unloader (.inl ha)
  obtain ⟨hreport, -, -, hgiven⟩ := Container.unload_eq_ok hstanding.sound hunload
  cases hreport.symm.trans (hpending unloader)
  have hregistry : (c'.unregister l.group).registry = c.registry := by
    rw [hgiven, hstanding.registry_eq]
    exact hc.needed.unregister_register hgroup
  have h₂ : (c'.unregister l.group).Sound := by
    have hsound := hstanding.sound.unload l unloader
    rwa [hunload] at hsound
  have hlooks : (c'.unregister l.group).LooksLike c :=
    (h₂.looksLike_iff h hregistry).2 (at?_unload_load hfree h hload hunload)
  exact ⟨_, hunload, hregistry, hlooks, hlooks.ask_eq h₂ h hregistry⟩

/-- A thread has values of its own where a theme puts its colour, and above
and below that. -/
def tinted : Container :=
  (Container.ofConfig {}).run
    [(1, .ask .env (.set "pane" (.bare (.text "grey")) {})),
      (1, .ask .env (.set "pane.colour" (.bare (.text "grey")) {})),
      (1, .ask .env (.set "pane.colour.dim" (.bare (.text "grey")) {}))]

/-- Entries under texts that have to be read. -/
def scribbled : Snapshot :=
  .ofList [(" pane . colour", .text "white"), ("pane..font", .text "mono")]

theorem unload_undoes_load_tinted :
    ∃ c₁, theme.load 0 scribbled tinted = (.ok 2, c₁)
      ∧ tinted.Reachable
      ∧ (∀ p n, tinted.at? .env p = some n → n.owner ≠ some "addon.theme")
      ∧ tinted.registry.isAuthorized "addon.theme" = false
      ∧ theme.Loads scribbled tinted c₁
      ∧ (∀ reader, theme.pending reader c₁ = .ok ⟨∅, []⟩)
      ∧ ∃ c₂, theme.unload 2 c₁ = (.ok ⟨∅, []⟩, c₂)
        ∧ c₂.registry = tinted.registry
        ∧ c₂.LooksLike tinted
        ∧ ∀ asker k r, (c₂.ask asker k r).1 = (tinted.ask asker k r).1 := by
  have hc : tinted.Reachable := ⟨{}, _, rfl⟩
  have hunowned : ∀ n ∈ tinted.env.nodes.values, n.owner ≠ some "addon.theme" := by
    decide +kernel
  have hfree : ∀ p n, tinted.at? .env p = some n → n.owner ≠ some "addon.theme" :=
    fun p n hn => hunowned n ((hc.sound .env).at?_iff.1 hn).1
  have hnew : tinted.registry.isAuthorized "addon.theme" = false := by decide +kernel
  have hload : theme.load 0 scribbled tinted = (.ok 2, (theme.load 0 scribbled tinted).2) :=
    Prod.ext (by decide +kernel) rfl
  exact ⟨_, hload, hc, hfree, hnew, unload_undoes_load hc hfree (.inr (.inr hnew)) hload 2⟩

end Loader

end ParamStore
