import ParamStore.Proofs.Loader.Steps

/-!
# Unloading

A report is about the paths that the group owns: it tells which of them hold
no value any more, and which hold one that is neither pinned to its own
identity nor transient (`pending_ok`), and names no others
(`removed_reportOn`, `changed_reportOn`). An unload takes the other values
away and releases the rest (`unload_ok`). It is refused only where there is
a value to take away and the group may not write, and it then changes
nothing (`unload_error`).
-/

namespace ParamStore

open Json (Value)

/-- Whether a loader takes the value away when it unloads. -/
def Parameter.isUntouched (q : Parameter) : Bool := q.isPinned || q.transient

/-- The node as an unload of a group leaves it. -/
def Node.unloadedFor (g : Group) (n : Node) : Node :=
  if n.owner = some g then
    if n.shared.any Parameter.isUntouched then n.stripped else n.released
  else n

namespace Node

variable {g : Group} {n : Node}

theorem unloadedFor_of_ne (ho : n.owner ≠ some g) : n.unloadedFor g = n := if_neg ho

theorem unloadedFor_of_untouched (ho : n.owner = some g)
    (hu : n.shared.any Parameter.isUntouched = true) : n.unloadedFor g = n.stripped := by
  rw [unloadedFor, if_pos ho, if_pos hu]

theorem unloadedFor_of_touched (ho : n.owner = some g)
    (hu : n.shared.any Parameter.isUntouched = false) : n.unloadedFor g = n.released := by
  rw [unloadedFor, if_pos ho, if_neg (by simp [hu])]

/-- What a group still owns after its unload is not frozen. -/
theorem pin_unloadedFor (ho : (n.unloadedFor g).owner = some g) : (n.unloadedFor g).pin = none := by
  by_cases hn : n.owner = some g
  · cases hu : n.shared.any Parameter.isUntouched with
    | true => rw [unloadedFor_of_untouched hn hu, stripped]
    | false => rw [unloadedFor_of_touched hn hu, released]
  · exact absurd (unloadedFor_of_ne hn ▸ ho) hn

end Node

namespace Loader

variable {l : Loader} {thread : Nat} {c c' : Container}

/-! ## Reports -/

/-- The value that a report gives for a node that the group owns. -/
def changeAt (n : Option Node) : Option Value :=
  ((n.bind Node.shared).filter (!·.isUntouched)).map Parameter.value

/-- What a report on these paths says. -/
structure Reports (l : Loader) (c : Container) (ps : List Path) (report : Report) : Prop where
  changed_eq : ∀ p, report.changed.find? p.dotted =
    if p ∈ ps then changeAt (c.at? l.kind p) else none
  removed_iff : ∀ p, p.dotted ∈ report.removed ↔
    p ∈ ps ∧ (c.at? l.kind p).bind Node.shared = none

/-- What a path adds to the report on those after it. -/
theorem reportOn_cons (l : Loader) (thread : Nat) (c : Container) (p : Path) (ps : List Path) :
    l.reportOn thread c (p :: ps) = (l.reportOn thread c ps).map fun report =>
      match (c.at? l.kind p).bind Node.shared with
      | none => { report with removed := p.dotted :: report.removed }
      | some q =>
        if q.isUntouched then report
        else { report with changed := report.changed.insert p.dotted q.value } := by
  rw [reportOn, get_lookup, Store.readPath_dotted]
  cases l.reportOn thread c ps <;> rfl

/-- A report lists the paths without a value in the order in which it comes to
them. -/
theorem removed_reportOn {ps : List Path} {report : Report}
    (h : l.reportOn thread c ps = .ok report) :
    report.removed =
      (ps.filter fun p => ((c.at? l.kind p).bind Node.shared).isNone).map Path.dotted := by
  induction ps generalizing report with
  | nil =>
    cases h
    rfl
  | cons p ps ih =>
    rw [reportOn_cons, map_eq_ok] at h
    obtain ⟨rest, hps, rfl⟩ := h
    rw [List.filter_cons]
    cases (c.at? l.kind p).bind Node.shared with
    | none => simp [ih hps]
    | some q => cases hq : q.isUntouched <;> simp [hq, ih hps]

/-- A report gives the values to be saved, under the texts of their paths. -/
theorem changed_reportOn {ps : List Path} {report : Report}
    (h : l.reportOn thread c ps = .ok report) {text : String} {v : Value} :
    report.changed.find? text = some v ↔
      ∃ p ∈ ps, p.dotted = text ∧ changeAt (c.at? l.kind p) = some v := by
  induction ps generalizing report with
  | nil =>
    cases h
    simp [EmptyCollection.emptyCollection]
  | cons p ps ih =>
    rw [reportOn_cons, map_eq_ok] at h
    obtain ⟨rest, hps, rfl⟩ := h
    rw [List.exists_mem_cons_iff]
    cases hs : (c.at? l.kind p).bind Node.shared with
    | none => simpa [changeAt, hs] using ih hps
    | some q =>
      cases hq : q.isUntouched with
      | true => simpa [changeAt, hs, hq, Option.filter] using ih hps
      | false =>
        have hchange : changeAt (c.at? l.kind p) = some q.value := by
          simp [changeAt, hs, hq, Option.filter]
        dsimp only
        rw [if_neg (by simp [hq]), hchange, Table.find?_insert]
        by_cases hp : p.dotted = text
        · -- another path with this text is the same one
          rw [if_pos hp]
          refine ⟨fun hv => .inl ⟨hp, hv⟩, ?_⟩
          rintro (⟨-, hv⟩ | ⟨p', -, hp', hv⟩)
          · exact hv
          · rw [← hchange, Path.dotted_injective (hp.trans hp'.symm), hv]
        · rw [if_neg hp, ih hps]
          simp [hp]

theorem reportOn_ok (l : Loader) (thread : Nat) (c : Container) (ps : List Path) :
    ∃ report, l.reportOn thread c ps = .ok report ∧ l.Reports c ps report := by
  obtain ⟨report, h⟩ : ∃ report, l.reportOn thread c ps = .ok report := by
    induction ps with
    | nil => exact ⟨_, rfl⟩
    | cons p ps ih =>
      obtain ⟨report, h⟩ := ih
      exact ⟨_, (l.reportOn_cons thread c p ps).trans (congrArg _ h)⟩
  -- an equal text is the text of an equal path
  have hdotted {p q : Path} : p.dotted = q.dotted ↔ p = q :=
    ⟨fun h => Path.dotted_injective h, congrArg Path.dotted⟩
  refine ⟨report, h, fun p => Option.ext fun v => ?_, fun p => ?_⟩
  · rw [changed_reportOn h]
    simp only [hdotted]
    by_cases hp : p ∈ ps <;> simp [hp]
  · rw [removed_reportOn h]
    simp [hdotted]

/-- Reports see the shared values of the kind and nothing else. -/
theorem reportOn_congr (hat : ∀ p, c.at? l.kind p = c'.at? l.kind p) (ps : List Path) :
    l.reportOn thread c ps = l.reportOn thread c' ps := by
  induction ps with
  | nil => rfl
  | cons p ps ih =>
    unfold reportOn
    rw [ih, get_lookup, get_lookup, funext hat]

theorem pending_congr (h : c.Sound) (h' : c'.Sound)
    (hat : ∀ p, c.at? l.kind p = c'.at? l.kind p) : l.pending thread c = l.pending thread c' := by
  unfold pending
  rw [(h l.kind).groupPaths_congr (h' l.kind).toConsistent hat, reportOn_congr hat]

/-! ## Withdrawing -/

/-- Whether the report names a path. -/
def names (report : Report) (p : Path) : Bool :=
  report.changed.contains p.dotted || report.removed.contains p.dotted

theorem withdraw_cons (l : Loader) (thread : Nat) (report : Report) (p : Path) (ps : List Path)
    (c : Container) :
    l.withdraw thread report (p :: ps) c =
      if names report p then l.withdraw thread report ps c
      else match c.unset thread l.kind p.dotted l.withdrawal with
        | (.error e, c) => (.error e, c)
        | (.ok _, c) => l.withdraw thread report ps c := rfl

/-- A loader whose group may write takes away what the group owns at every
path that the report does not name. -/
theorem withdraw_ok (h : c.Sound) (thread : Nat) (ha : c.registry.isAuthorized l.group = true)
    (report : Report) {ps : List Path} (hnodup : ps.Nodup)
    (hown : ∀ p ∈ ps, ∃ n, c.at? l.kind p = some n ∧ n.owner = some l.group) :
    ∃ c', l.withdraw thread report ps c = (.ok (), c') ∧ Container.Turns l.kind c c' fun p =>
      if p ∈ ps ∧ names report p = false then (c.at? l.kind p).bind fun n => n.stripped.kept
      else c.at? l.kind p := by
  induction ps generalizing c with
  | nil => exact ⟨c, rfl, (h.turns_self l.kind).congr fun p => by simp⟩
  | cons p ps ih =>
    obtain ⟨hp, hnodup⟩ := List.nodup_cons.1 hnodup
    have hown' := fun q hq => hown q (List.mem_cons_of_mem _ hq)
    rw [withdraw_cons]
    cases hnamed : names report p with
    | true =>
      obtain ⟨c', heq, hturns⟩ := ih h ha hnodup hown'
      refine ⟨c', heq, hturns.congr fun q => ?_⟩
      by_cases hq : q = p
      · subst hq
        simp [hnamed]
      · simp [hq]
    | false =>
      obtain ⟨n, hn, ho⟩ := hown p List.mem_cons_self
      obtain ⟨hok, hone⟩ := withdrawal_ok h thread ha (Store.readPath_dotted p) hn ho
      obtain ⟨c', heq, hturns⟩ := ih hone.sound (hone.registry_eq ▸ ha) hnodup fun q hq => by
        have hne : p ≠ q := fun h => hp (h ▸ hq)
        rw [hone.at?_eq, if_neg hne]
        exact hown' q hq
      refine ⟨c', ?_, (hone.trans hturns).congr fun q => ?_⟩
      · have hpair : c.unset thread l.kind p.dotted l.withdrawal =
            (.ok n.shared, (c.unset thread l.kind p.dotted l.withdrawal).2) := Prod.ext hok rfl
        rw [if_neg Bool.false_ne_true, hpair]
        exact heq
      · rw [hone.at?_eq]
        by_cases hq : q = p
        · subst hq
          simp [hp, hnamed, hn]
        · simp [hq, Ne.symm hq]

/-- Without the right to write, a loader passes the paths that the report
names and is refused at the first other one. -/
theorem withdraw_unauthorized (h : c.Sound) (thread : Nat)
    (ha : c.registry.isAuthorized l.group = false) (report : Report) {ps : List Path}
    (hown : ∀ p ∈ ps, ∃ n, c.at? l.kind p = some n ∧ n.owner = some l.group) :
    l.withdraw thread report ps c =
      if ∀ p ∈ ps, names report p = true then (.ok (), c)
      else (.error (.unauthorized l.group l.kind), c) := by
  induction ps with
  | nil => rfl
  | cons p ps ih =>
    rw [withdraw_cons]
    cases hnamed : names report p with
    | true =>
      rw [if_pos rfl, ih fun q hq => hown q (List.mem_cons_of_mem _ hq)]
      simp [hnamed]
    | false =>
      obtain ⟨n, hn, ho⟩ := hown p List.mem_cons_self
      rw [withdrawal_unauthorized h thread ha (Store.readPath_dotted p) hn ho]
      simp [hnamed]

/-! ## Whole unloads -/

/-- The group owns a value at the path that its loader would take away. -/
def Untouched (l : Loader) (c : Container) (p : Path) : Prop :=
  ∃ n, c.at? l.kind p = some n ∧ n.owner = some l.group
    ∧ n.shared.any Parameter.isUntouched = true

/-- The report of a loader is never refused, and says what has come of every
node that the group owns. -/
theorem pending_ok (l : Loader) (thread : Nat) (c : Container) :
    ∃ report, l.pending thread c = .ok report
      ∧ l.Reports c ((c.store l.kind).groupPaths l.group) report :=
  l.reportOn_ok thread c _

theorem Reports.names_iff {report : Report} {ps : List Path} (h : l.Reports c ps report) {p : Path}
    {n : Node} (hp : p ∈ ps) (hn : c.at? l.kind p = some n) :
    names report p = false ↔ n.shared.any Parameter.isUntouched = true := by
  have hchanged := h.changed_eq p
  have hremoved := h.removed_iff p
  rw [if_pos hp, hn] at hchanged
  rw [hn, ← List.contains_iff_mem] at hremoved
  unfold names Table.contains
  rw [hchanged]
  cases hs : n.shared with
  | none =>
    have hr : report.removed.contains p.dotted = true := hremoved.2 ⟨hp, hs⟩
    rw [hr, Bool.or_true]
    simp
  | some q =>
    have hr : report.removed.contains p.dotted = false := by
      rw [← Bool.not_eq_true, hremoved]
      simp [hs]
    rw [hr]
    cases hu : q.isUntouched <;> simp [changeAt, hs, hu, Option.filter]

/-- An unload takes away the untouched values of the group, if it may or if
there are none. -/
theorem withdraw_report (h : c.Sound) (thread : Nat)
    (hright : c.registry.isAuthorized l.group = true ∨ ∀ p, ¬ l.Untouched c p) {report : Report}
    (hreport : l.Reports c ((c.store l.kind).groupPaths l.group) report) :
    ∃ c', l.withdraw thread report ((c.store l.kind).groupPaths l.group) c = (.ok (), c')
      ∧ Container.Turns l.kind c c' fun p => (c.at? l.kind p).bind fun n =>
          if n.owner = some l.group ∧ n.shared.any Parameter.isUntouched = true
          then n.stripped.kept else some n := by
  have hmem : ∀ p, p ∈ (c.store l.kind).groupPaths l.group ↔
      ∃ n, c.at? l.kind p = some n ∧ n.owner = some l.group := fun p =>
    (h l.kind).mem_groupPaths
  have hown := fun p hp => (hmem p).1 hp
  have hnames : ∀ p n, c.at? l.kind p = some n → n.owner = some l.group →
      (names report p = false ↔ n.shared.any Parameter.isUntouched = true) := fun p n hn ho =>
    hreport.names_iff ((hmem p).2 ⟨n, hn, ho⟩) hn
  cases ha : c.registry.isAuthorized l.group with
  | true =>
    obtain ⟨c', heq, hturns⟩ :=
      withdraw_ok h thread ha report ((h l.kind).nodup_groupPaths l.group) hown
    refine ⟨c', heq, hturns.congr fun p => ?_⟩
    cases hn : c.at? l.kind p with
    | none => simp
    | some n =>
      by_cases ho : n.owner = some l.group
      · simp [hmem, hn, ho, hnames p n hn ho]
      · simp [hmem, hn, ho]
  | false =>
    have hnone : ∀ p, ¬ l.Untouched c p := hright.resolve_left (by simp [ha])
    have hall : ∀ p ∈ (c.store l.kind).groupPaths l.group, names report p = true := by
      intro p hp
      obtain ⟨n, hn, ho⟩ := hown p hp
      exact Bool.of_not_eq_false fun hf => hnone p ⟨n, hn, ho, (hnames p n hn ho).1 hf⟩
    refine ⟨c, ?_, (h.turns_self l.kind).congr fun p => ?_⟩
    · rw [withdraw_unauthorized h thread ha report hown, if_pos hall]
    · cases hn : c.at? l.kind p with
      | none => rfl
      | some n =>
        rw [Option.bind_some, if_neg fun hu => hnone p ⟨n, hn, hu⟩]

/-- An unload that may take away what is untouched, or finds nothing to take
away, goes through: what is untouched is gone, the rest is released, and the
group is no longer registered. -/
theorem unload_ok (h : c.Sound) (thread : Nat)
    (hright : c.registry.isAuthorized l.group = true ∨ ∀ p, ¬ l.Untouched c p) :
    ∃ report c', l.pending thread c = .ok report
      ∧ l.unload thread c = (.ok report, c'.unregister l.group)
      ∧ Container.Turns l.kind c c' fun p =>
          (c.at? l.kind p).bind fun n => (n.unloadedFor l.group).kept := by
  obtain ⟨report, hpending, hreport⟩ := l.pending_ok thread c
  obtain ⟨c₁, hwithdraw, hturns⟩ := withdraw_report h thread hright hreport
  obtain ⟨⟨count, hcount⟩, hclear⟩ := hturns.sound.turns_clearKind l.kind l.group
  have hpair : c₁.clearKind l.kind l.group = (.ok count, (c₁.clearKind l.kind l.group).2) :=
    Prod.ext hcount rfl
  refine ⟨report, (c₁.clearKind l.kind l.group).2, hpending, ?_,
    (hturns.trans hclear).congr fun p => ?_⟩
  · unfold unload
    rw [hpending]
    dsimp only
    rw [hwithdraw]
    dsimp only
    rw [hpair]
  · rw [hturns.at?_eq]
    cases hn : c.at? l.kind p with
    | none => rfl
    | some n =>
      have hkept : n.kept = some n := Node.kept_of_not_removable (h.kept_at? hn)
      by_cases ho : n.owner = some l.group
      · cases hu : n.shared.any Parameter.isUntouched with
        | true =>
          rw [Option.bind_some, Option.bind_some, if_pos ⟨ho, hu⟩,
            Node.unloadedFor_of_untouched ho hu]
          -- a node without an owner is not released once more
          cases hk : n.stripped.kept with
          | none => rfl
          | some m =>
            obtain ⟨-, rfl⟩ := Node.kept_eq_some.1 hk
            have hfree : Store.releasedFor l.group n.stripped = n.stripped := if_neg nofun
            rw [Option.bind_some, hfree, hk]
        | false => simp [ho, hu, Store.releasedFor, Node.unloadedFor_of_touched ho hu]
      · simp [ho, Store.releasedFor, hkept, Node.unloadedFor_of_ne ho]

theorem unload_error (h : c.Sound) (thread : Nat)
    (ha : c.registry.isAuthorized l.group = false) {p : Path} (hp : l.Untouched c p) :
    l.unload thread c = (.error (.unauthorized l.group l.kind), c) := by
  obtain ⟨report, hpending, hreport⟩ := l.pending_ok thread c
  obtain ⟨n, hn, ho, hu⟩ := hp
  have hmem : p ∈ (c.store l.kind).groupPaths l.group :=
    (h l.kind).mem_groupPaths.2 ⟨n, hn, ho⟩
  have hnamed : names report p = false := (hreport.names_iff hmem hn).2 hu
  have hwithdraw := withdraw_unauthorized h thread ha report fun p hp =>
    (h l.kind).mem_groupPaths.1 hp
  rw [if_neg fun hall => by simp [hall p hmem] at hnamed] at hwithdraw
  unfold unload
  rw [hpending]
  dsimp only
  rw [hwithdraw]

end Loader

end ParamStore
