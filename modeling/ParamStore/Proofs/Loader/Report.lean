import ParamStore.Proofs.Container.Frames
import ParamStore.Proofs.Loader.Edits

/-!
# Unloads and their reports

An unload goes over every node that its group owns, and settles it in one of
three ways (`Settles`): a placeholder is reported as taken away and let go,
an edited value is reported and stays without its freeze, and every other
value goes without a word. The report says nothing else (`Accounts`), and
what the group does not own stays as it was (`Confined`).
-/

namespace ParamStore

open Json (Value)

/-- The value is there to be saved, and is not the one to which the parameter
is pinned. -/
def Parameter.IsEdited (q : Parameter) : Prop := q.transient = false ∧ q.pin ≠ some q.identity

theorem Parameter.isEdited_iff {q : Parameter} : q.IsEdited ↔ q.isUntouched = false := by
  simp [IsEdited, isUntouched, isPinned, and_comm]

namespace Node

variable {n : Node} {q : Parameter}

theorem kept_stripped (n : Node) :
    n.stripped.kept = if n.locals.isEmpty then none else some n.stripped := by
  simp [kept, isRemovable, stripped]

theorem released_of_empty (hs : n.shared = none) : n.released = n.stripped := by
  simp [released, stripped, hs]

theorem released_of_shared (hs : n.shared = some q) : n.released = { n with pin := none } := by
  simp [released, hs]

end Node

namespace Loader

variable {l : Loader} {thread : Nat} {c c' : Container} {report : Report} {p : Path} {n : Node}

/-! ## What an unload does to a node -/

/-- What becomes of a node of the group at the path, and what the report says
of it. -/
structure Settles (l : Loader) (report : Report) (c' : Container) (p : Path) (n : Node) :
    Prop where
  /-- A placeholder is reported, and only values of scopes keep its node. -/
  emptied : n.shared = none →
    p.dotted ∈ report.removed ∧ report.changed.find? p.dotted = none
      ∧ c'.at? l.kind p = if n.locals.isEmpty then none else some n.stripped
  /-- An edited value is reported, and its parameter stays with the group. -/
  edited : ∀ q, n.shared = some q → q.IsEdited →
    p.dotted ∉ report.removed ∧ report.changed.find? p.dotted = some q.value
      ∧ c'.at? l.kind p = some { n with pin := none }
  /-- Any other value goes. -/
  dropped : ∀ q, n.shared = some q → ¬ q.IsEdited →
    p.dotted ∉ report.removed ∧ report.changed.find? p.dotted = none
      ∧ c'.at? l.kind p = if n.locals.isEmpty then none else some n.stripped

theorem Reports.settles {ps : List Path} (hreport : l.Reports c ps report) (hp : p ∈ ps)
    (hn : c.at? l.kind p = some n) (howner : n.owner = some l.group)
    (hat : c'.at? l.kind p = (n.unloadedFor l.group).kept) : l.Settles report c' p n := by
  have hremoved := hreport.removed_iff p
  have hchanged := hreport.changed_eq p
  rw [hn, Option.bind_some] at hremoved
  rw [if_pos hp, hn, changeAt, Option.bind_some] at hchanged
  refine ⟨fun hs => ?_, fun q hs hq => ?_, fun q hs hq => ?_⟩
  · rw [Node.unloadedFor_of_touched howner (by simp [hs]), Node.released_of_empty hs,
      Node.kept_stripped] at hat
    exact ⟨hremoved.2 ⟨hp, hs⟩, by simp [hchanged, hs], hat⟩
  · have hu : q.isUntouched = false := Parameter.isEdited_iff.1 hq
    rw [Node.unloadedFor_of_touched howner (by simp [hs, hu]), Node.released_of_shared hs,
      Node.kept_of_not_removable (by simp [Node.isRemovable, hs])] at hat
    exact ⟨by simp [hremoved, hs], by simp [hchanged, hs, hu, Option.filter], hat⟩
  · have hu : q.isUntouched = true := by
      rwa [Parameter.isEdited_iff, Bool.not_eq_false] at hq
    rw [Node.unloadedFor_of_untouched howner (by simp [hs, hu]), Node.kept_stripped] at hat
    exact ⟨by simp [hremoved, hs], by simp [hchanged, hs, hu, Option.filter], hat⟩

/-! ## What a report says -/

/-- The report names placeholders and edited values of the group and nothing
else, and the placeholders in the order of their paths. -/
structure Accounts (l : Loader) (c : Container) (report : Report) : Prop where
  changed : ∀ text v, report.changed.find? text = some v → ∃ p n q, text = p.dotted
    ∧ c.at? l.kind p = some n ∧ n.owner = some l.group ∧ n.shared = some q ∧ q.IsEdited
    ∧ v = q.value
  removed : ∃ ps : List Path, report.removed = ps.map Path.dotted ∧ ps.Pairwise (· < ·)
    ∧ ∀ p ∈ ps, ∃ n, c.at? l.kind p = some n ∧ n.owner = some l.group ∧ n.shared = none

theorem changeAt_eq_some {n? : Option Node} {v : Value} : changeAt n? = some v ↔
    ∃ n q, n? = some n ∧ n.shared = some q ∧ q.IsEdited ∧ v = q.value := by
  simp only [changeAt, Option.map_eq_some_iff, Option.filter_eq_some_iff, Option.bind_eq_some_iff,
    Parameter.isEdited_iff, Bool.not_eq_true']
  constructor
  · rintro ⟨q, ⟨⟨n, hn, hs⟩, hu⟩, rfl⟩
    exact ⟨n, q, hn, hs, hu, rfl⟩
  · rintro ⟨n, q, hn, hs, hu, rfl⟩
    exact ⟨q, ⟨⟨n, hn, hs⟩, hu⟩, rfl⟩

theorem pending_accounts (h : c.Sound) (hpending : l.pending thread c = .ok report) :
    l.Accounts c report := by
  have howned : ∀ p ∈ (c.store l.kind).groupPaths l.group,
      ∃ n, c.at? l.kind p = some n ∧ n.owner = some l.group := fun p hp =>
    (h l.kind).mem_groupPaths.1 hp
  refine ⟨fun text v hv => ?_, _, removed_reportOn hpending, ?_, fun p hp => ?_⟩
  · obtain ⟨p, hp, rfl, hchange⟩ := (changed_reportOn hpending).1 hv
    obtain ⟨n, hn, howner⟩ := howned p hp
    obtain ⟨n', q, hn', hs, hq, rfl⟩ := changeAt_eq_some.1 hchange
    cases hn.symm.trans hn'
    exact ⟨p, n, q, rfl, hn, howner, hs, hq, rfl⟩
  · exact ((h l.kind).ascending_groupPaths l.group).filter _
  · obtain ⟨hp, hs⟩ := List.mem_filter.1 hp
    obtain ⟨n, hn, howner⟩ := howned p hp
    exact ⟨n, hn, howner, by simpa [hn] using hs⟩

/-! ## What an unload leaves alone -/

/-- Nothing has changed but the nodes of the group, their values of scopes
excepted, and the rights of the group. -/
structure Confined (l : Loader) (c c' : Container) : Prop where
  nodes : ∀ p, (∀ n, c.at? l.kind p = some n → n.owner ≠ some l.group) →
    c'.at? l.kind p = c.at? l.kind p
  scopes : ∀ k p key, c'.inScope? k p key = c.inScope? k p key
  kinds : ∀ k, k ≠ l.kind → c'.store k = c.store k
  rights : ∀ g, g ≠ l.group → c'.registry.isAuthorized g = c.registry.isAuthorized g

theorem unload_confined (h : c.Sound) (hunload : l.unload thread c = (.ok report, c')) :
    l.Confined c c' := by
  obtain ⟨-, hat, hkinds, hregistry⟩ := Container.unload_eq_ok h hunload
  refine ⟨fun p hother => ?_, fun k p key => ?_, hkinds, fun g hg => ?_⟩
  · rw [hat]
    cases hn : c.at? l.kind p with
    | none => rfl
    | some n =>
      rw [Option.bind_some, Node.unloadedFor_of_ne (hother n hn),
        Node.kept_of_not_removable (h.kept_at? hn)]
  · have hscopes : (l.unload thread c).2.inScope? k p key = c.inScope? k p key :=
      Container.inScope?_unload h l thread
    rwa [hunload] at hscopes
  · rw [hregistry, Registry.isAuthorized_unregister (Ne.symm hg)]

/-! ## The whole unload -/

/-- An unload by a group that may write goes through and does what its report
says: it settles every node of the group, and the report names what has been
taken away and what was edited, and nothing else. Afterwards the group has
no frozen node and may write only if it is the default group or a trusted
one. -/
theorem unload_as_reported (hc : c.Reachable) (ha : c.registry.isAuthorized l.group = true)
    (thread : Nat) :
    ∃ report c', l.unload thread c = (.ok report, c')
      ∧ (∀ p n, c.at? l.kind p = some n → n.owner = some l.group → l.Settles report c' p n)
      ∧ l.Accounts c report
      ∧ (∀ p n, c'.at? l.kind p = some n → n.owner = some l.group → n.isFrozen = false)
      ∧ (c'.registry.isAuthorized l.group = true ↔
          l.group = c.registry.defaultGroup ∨ l.group ∈ c.registry.trusted)
      ∧ l.Confined c c' := by
  have h : c.Sound := hc.sound
  obtain ⟨report, c₁, -, hunload, -⟩ := unload_ok h thread (.inl ha)
  obtain ⟨hpending, hat, -, hregistry⟩ := Container.unload_eq_ok h hunload
  obtain ⟨report, hreported, hreport⟩ := l.pending_ok thread c
  cases hpending.symm.trans hreported
  refine ⟨report, _, hunload, fun p n hn howner => ?_, pending_accounts h hpending,
    fun p m hm howner => ?_, ?_, unload_confined h hunload⟩
  · have hp : p ∈ (c.store l.kind).groupPaths l.group :=
      (h l.kind).mem_groupPaths.2 ⟨n, hn, howner⟩
    exact hreport.settles hp hn howner (by rw [hat, hn, Option.bind_some])
  · rw [hat] at hm
    obtain ⟨n, -, hkept⟩ := Option.bind_eq_some_iff.1 hm
    obtain ⟨-, rfl⟩ := Node.kept_eq_some.1 hkept
    rw [Node.isFrozen, Node.pin_unloadedFor howner, Option.isSome_none]
  · rw [hregistry]
    exact Registry.isAuthorized_unregister_self

/-- A theme of which one value was edited and one was taken away, where a
thread has a value of its own, since it was loaded. -/
def worn : Container :=
  (Container.ofConfig {}).run
    [(0, .load theme
        (.ofList [("colour", .text "white"), ("font", .text "mono"), ("size", .text "10")])),
      (1, .ask .env (.set "colour" (.bare (.text "black")) onTheme)),
      (1, .ask .env (.unset "font" { shared := true, group := some "addon.theme" })),
      (1, .ask .env (.set "font" (.bare (.text "serif")) {}))]

theorem unload_as_reported_worn : worn.Reachable
    ∧ worn.registry.isAuthorized "addon.theme" = true
    ∧ ∃ report c', theme.unload 0 worn = (.ok report, c')
      ∧ (∀ p n, worn.at? .env p = some n → n.owner = some "addon.theme" →
          theme.Settles report c' p n)
      ∧ theme.Accounts worn report
      ∧ (∀ p n, c'.at? .env p = some n → n.owner = some "addon.theme" → n.isFrozen = false)
      ∧ (c'.registry.isAuthorized "addon.theme" = true ↔
          "addon.theme" = worn.registry.defaultGroup ∨ "addon.theme" ∈ worn.registry.trusted)
      ∧ theme.Confined worn c' := by
  have hc : worn.Reachable := ⟨{}, _, rfl⟩
  have ha : worn.registry.isAuthorized "addon.theme" = true := by decide +kernel
  exact ⟨hc, ha, unload_as_reported (l := theme) hc ha 0⟩

end Loader

end ParamStore
