import ParamStore.Proofs.Container.Frozen

/-!
# Values written since a load

An unload reports a value if it was written under a freeze with another
identity, and takes it away as untouched otherwise (`keeps_iff`): the pin of
a value is that of the freeze under which it was written, or its own
identity where there was none (`Store.pin_of_setNode`). So a value that is
written over an entry is reported as long as nobody has released the entry
before, and a value that is written where the load stored nothing goes
without a word.
-/

namespace ParamStore

open Json (Value)

namespace Store

/-- The pin of a value that is stored in the shared slot tells under which
freeze it was written. -/
theorem pin_of_setNode {k : Kind} {caller : Caller} {o : SetOptions} {p q : Parameter}
    {n n' : Node} (h : setNode k caller o p n = .ok (q, n')) (hq : q.isShared = true) :
    q.pin = some (n.pin.getD q.identity) := by
  obtain ⟨-, -, hset⟩ | ⟨-, hset⟩ := setNode_cases h
  · obtain ⟨-, -, -, -, rfl, -⟩ := Node.setShared_eq_ok.1 hset
    rw [Node.pin_pinned, Node.identity_pinned]
  · obtain ⟨-, rfl, -⟩ := Node.setLocal_eq_ok.1 hset
    rw [Parameter.isShared_toScope] at hq
    cases hq

end Store

namespace Loader

open Container (Action)

variable {l : Loader} {thread count : Nat} {snapshot : Snapshot} {c c₁ c₂ c₃ : Container}
  {p : Path} {q : Parameter} {report : Report}

/-- The report of an unload gives the value, and it has stayed. -/
structure Keeps (l : Loader) (report : Report) (c : Container) (p : Path) (q : Parameter) :
    Prop where
  reported : report.changed.find? p.dotted = some q.value
  readable : ∀ reader, c.get reader l.kind p.dotted lookup = .ok (some q)

/-- An unload keeps a value of its group that is not transient iff that is
not pinned to its own identity. -/
theorem keeps_iff (h : c₂.Sound) {n : Node} (hn : c₂.at? l.kind p = some n)
    (howner : n.owner = some l.group) (hq : n.shared = some q) (htransient : q.transient = false)
    (hunload : l.unload thread c₂ = (.ok report, c₃)) :
    l.Keeps report c₃ p q ↔ q.isPinned = false := by
  have huntouched : q.isUntouched = q.isPinned := by
    rw [Parameter.isUntouched, htransient, Bool.or_false]
  obtain ⟨hpending, hat, -⟩ := Container.unload_eq_ok h hunload
  obtain ⟨report', hpending', hreport⟩ := l.pending_ok thread c₂
  cases hpending.symm.trans hpending'
  have hmem : p ∈ (c₂.store l.kind).groupPaths l.group :=
    (h l.kind).mem_groupPaths.2 ⟨n, hn, howner⟩
  have hchanged := hreport.changed_eq p
  rw [if_pos hmem, hn] at hchanged
  constructor
  · intro hkeeps
    have hvalue := hchanged.symm.trans hkeeps.reported
    refine Bool.eq_false_iff.2 fun hpinned => ?_
    simp [changeAt, hq, huntouched, hpinned, Option.filter] at hvalue
  · intro hpinned
    refine ⟨?_, fun reader => ?_⟩
    · rw [hchanged]
      simp [changeAt, hq, huntouched, hpinned, Option.filter]
    · have hunloaded : n.unloadedFor l.group = n.released :=
        Node.unloadedFor_of_touched howner (by simp [hq, huntouched, hpinned])
      have hkept : n.released.kept = some n.released :=
        Node.kept_of_not_removable (by simp [Node.isRemovable, Node.released, hq])
      rw [get_lookup, Store.readPath_dotted]
      simp only [Except.map, hat, hn, Option.bind_some, hunloaded, hkept]
      exact congrArg Except.ok hq

/-- A value `q` of the group that is in its place when the loader unloads,
was stored by a set and is not transient: it is reported and kept iff the
set found its path frozen under an identity other than its own. If the set
wrote over an entry of the load, and nothing had released that, then it did
so iff the value is another than the entry. -/
theorem edit_reported (hc : c.Reachable)
    (hload : l.load thread snapshot c = (.ok count, c₁))
    (before after : List (Nat × Action)) {writer unloader : Nat} {text : String} {input : Input}
    {o : SetOptions} (hp : Store.readPath text = .ok p)
    (hset : ((c₁.run before).set writer l.kind text input o).1 = .ok q)
    (hc₂ : c₂ = c₁.run (before ++ (writer, .ask l.kind (.set text input o)) :: after))
    {n : Node} (hn : c₂.at? l.kind p = some n) (howner : n.owner = some l.group)
    (hq : n.shared = some q) (htransient : q.transient = false)
    (hunload : l.unload unloader c₂ = (.ok report, c₃)) :
    (l.Keeps report c₃ p q ↔
      ∃ m pin, (c₁.run before).at? l.kind p = some m ∧ m.pin = some pin ∧ pin ≠ q.identity)
    ∧ ∀ entry v, (entry, v) ∈ snapshot.entries → Store.readPath entry = .ok p →
        (∀ a ∈ before, ¬ a.2.Releases c.registry.defaultGroup l.kind l.group p) →
        (l.Keeps report c₃ p q ↔ q.identity ≠ (l.stored v).identity) := by
  have h₁ : c₁.Sound := by
    have h := hc.sound.load l thread snapshot
    rwa [hload] at h
  have hbefore : (c₁.run before).Sound := h₁.run before
  have h₂ : c₂.Sound := hc₂ ▸ h₁.run _
  -- the pin of the value is the one under which it was written
  have hpin : q.isPinned = true ↔
      (((c₁.run before).at? l.kind p).getD (.fresh p)).pin.getD q.identity = q.identity := by
    obtain ⟨e, -, heq⟩ | ⟨p', q', n', hplan, hok, -⟩ :=
      hbefore.turns_set writer l.kind text input o
    · rw [heq] at hset
      cases hset
    cases hok.symm.trans hset
    obtain ⟨_, -, -, hp', hnode⟩ := Store.planSet_eq_ok.1 hplan
    cases hp.symm.trans hp'
    rw [Parameter.isPinned_iff,
      Store.pin_of_setNode hnode ((h₂.wellFormed hn).shared_shape q hq).1, Option.some_inj]
    rfl
  have hkeeps := keeps_iff h₂ hn howner hq htransient hunload
  rw [← Bool.not_eq_true, hpin] at hkeeps
  refine ⟨hkeeps.trans ?_, fun entry v hentry hread hkept => hkeeps.trans ?_⟩
  · cases hm : (c₁.run before).at? l.kind p with
    | none => simp [Node.fresh]
    | some m => cases hmp : m.pin <;> simp [hmp]
  · obtain ⟨ws, hstanding⟩ := load_ok hc.sound hload
    obtain ⟨p', hp', -, hat⟩ := hstanding.entry _ hentry
    cases hread.symm.trans hp'
    have hdefault : c₁.registry.defaultGroup = c.registry.defaultGroup := by
      have hstep := Container.defaultGroup_step hc.sound thread (.load l snapshot)
      rwa [show c.step thread (.load l snapshot) = c₁ from congrArg Prod.snd hload] at hstep
    have hfrozen : c₁.FrozenAt l.kind p l.group (l.stored v).identity :=
      ⟨_, hat, rfl, by rw [identity_stored]; rfl⟩
    obtain ⟨m, hm, -, hmp⟩ := Container.frozenAt_run h₁ hfrozen (hdefault ▸ hkept)
    rw [hm, Option.getD_some, hmp, Option.getD_some, ne_comm]

/-- A text at which a group owns a value stands for a path with a node. -/
theorem node_of_look {k : Kind} {g : Group} {text : String}
    (h : (Store.readPath text).toOption.bind (fun p =>
      (c.at? k p).map fun n => (n.owner, n.shared)) = some (some g, some q)) :
    ∃ p, Store.readPath text = .ok p
      ∧ ∃ n, c.at? k p = some n ∧ n.owner = some g ∧ n.shared = some q := by
  obtain ⟨p, hp, n, hn, hfields⟩ := Container.at?_of_look h
  obtain ⟨howner, hq⟩ := Prod.ext_iff.1 hfields
  exact ⟨p, hp, n, hn, howner, hq⟩

/-- The loader of an add-on that has one colour to set. -/
def theme : Loader := ⟨"addon.theme", .env⟩

def light : Snapshot := .ofList [("colour", .text "white")]

/-- How users of the add-on write its values. -/
def onTheme : SetOptions := { shared := true, group := some "addon.theme" }

def themed : Container := (theme.load 0 light (.ofConfig {})).2

theorem edit_reported_colour :
    ∃ (p : Path) (q : Parameter) (report : Report) (n : Node) (c₃ : Container),
      theme.load 0 light (.ofConfig {}) = (.ok 1, themed)
        ∧ Store.readPath "colour" = .ok p
        ∧ (themed.set 1 .env "colour" (.bare (.text "black")) onTheme).1 = .ok q
        ∧ (themed.run [(1, .ask .env (.set "colour" (.bare (.text "black")) onTheme))]).at?
            .env p = some n
        ∧ n.owner = some "addon.theme" ∧ n.shared = some q ∧ q.transient = false
        ∧ theme.unload 0
            (themed.run [(1, .ask .env (.set "colour" (.bare (.text "black")) onTheme))]) =
          (.ok report, c₃)
        ∧ theme.Keeps report c₃ p q := by
  let q : Parameter := ⟨.env, .text "black",
    .shared ⟨false, true, false, some (theme.stored (.text "white")).identity⟩⟩
  let c₂ := themed.run [(1, .ask .env (.set "colour" (.bare (.text "black")) onTheme))]
  have hload : theme.load 0 light (.ofConfig {}) = (.ok 1, themed) :=
    Prod.ext (by decide +kernel) rfl
  have hset : (themed.set 1 .env "colour" (.bare (.text "black")) onTheme).1 = .ok q := by
    decide +kernel
  obtain ⟨p, hp, n, hn, howner, hq⟩ := @node_of_look c₂ q .env "addon.theme" "colour"
    (by decide +kernel)
  have hunload : theme.unload 0 c₂ =
      (.ok ⟨.ofList [("colour", .text "black")], []⟩, (theme.unload 0 c₂).2) :=
    Prod.ext (by decide +kernel) rfl
  have hother : q.identity ≠ (theme.stored (.text "white")).identity := by decide +kernel
  have hkeeps := edit_reported ⟨{}, [], rfl⟩ hload [] [] hp hset rfl hn howner hq rfl hunload
  have hentry : ("colour", .text "white") ∈ light.entries := by decide +kernel
  exact ⟨p, q, _, n, _, hload, hp, hset, hn, howner, hq, rfl, hunload,
    (hkeeps.2 "colour" _ hentry hp (fun a ha => by cases ha)).2 hother⟩

/-- One of these actions is a set that stored the value at the path. -/
def Writes (k : Kind) (p : Path) (q : Parameter) (c : Container) (acts : List (Nat × Action)) :
    Prop :=
  ∃ before writer text input o after, acts = before ++ (writer, .ask k (.set text input o)) :: after
    ∧ Store.readPath text = .ok p ∧ ((c.run before).set writer k text input o).1 = .ok q

/-- An action of a loader of the group. -/
def IsLoaderOf (g : Group) : Action → Prop
  | .load l _ => l.group = g
  | .reload l _ => l.group = g
  | .unload l => l.group = g
  | _ => False

/-- An unload may drop a value that was written after the load: one where the
load had stored nothing is pinned to its own identity. -/
theorem unload_drops_addition : ¬ ∀ (l : Loader) (snapshot : Snapshot) (c c₁ c₃ : Container)
    (acts : List (Nat × Action)) thread unloader count report p q n,
    c.Reachable → (∀ p n, c.at? l.kind p = some n → n.owner ≠ some l.group) →
    l.load thread snapshot c = (.ok count, c₁) → (∀ a ∈ acts, ¬ IsLoaderOf l.group a.2) →
    l.unload unloader (c₁.run acts) = (.ok report, c₃) →
    (c₁.run acts).at? l.kind p = some n → n.owner = some l.group → n.shared = some q →
    q.transient = false → Writes l.kind p q c₁ acts →
    (∀ entry v, (entry, v) ∈ snapshot.entries → Store.readPath entry = .ok p →
      q.identity ≠ (l.stored v).identity) →
    l.Keeps report c₃ p q := by
  intro hall
  let acts : List (Nat × Action) :=
    [(1, .ask .env (.set "font" (.bare (.text "black")) onTheme))]
  let q : Parameter := ⟨.env, .text "black",
    .shared ⟨false, true, false, some (Parameter.plain .env (.text "black")).identity⟩⟩
  have hload : theme.load 0 light (.ofConfig {}) = (.ok 1, themed) :=
    Prod.ext (by decide +kernel) rfl
  have hset : (themed.set 1 .env "font" (.bare (.text "black")) onTheme).1 = .ok q := by
    decide +kernel
  obtain ⟨p, hp, n, hn, howner, hq⟩ := @node_of_look (themed.run acts) q .env "addon.theme" "font"
    (by decide +kernel)
  have hsound : (themed.run acts).Sound :=
    ((Container.Sound.ofConfig {}).load theme 0 light).run acts
  obtain ⟨report, c', -, hunload, -⟩ := unload_ok hsound 0 (l := theme)
    (.inl (by decide +kernel))
  have hpinned : q.isPinned = true := by decide +kernel
  have helsewhere : ∀ e ∈ light.entries, Store.readPath e.1 ≠ Store.readPath "font" := by
    decide +kernel
  have hkeeps := hall theme light (.ofConfig {}) themed _ acts 0 0 1 _ p q n ⟨{}, [], rfl⟩
    (fun p n hn => by
      cases (Store.at?_empty p).symm.trans hn)
    hload
    (fun a ha => by
      obtain rfl := List.mem_singleton.1 ha
      exact id)
    hunload hn howner hq rfl ⟨[], 1, "font", _, onTheme, [], rfl, hp, hset⟩
    (fun entry v hentry hread =>
      absurd (hread.trans hp.symm) (helsewhere (entry, v) hentry))
  rw [keeps_iff hsound hn howner hq rfl hunload, hpinned] at hkeeps
  cases hkeeps

end Loader

end ParamStore
