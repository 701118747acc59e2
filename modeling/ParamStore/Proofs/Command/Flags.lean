import ParamStore.Command.Arguments

/-!
# The grammar of flags

The flags of a command are blocks: a switch, or the group flag with whatever
argument comes after it. Reading takes one block after the other away
(`FlagTable.read_flags`), and a list of arguments either is a list of blocks
or has blocks in front of an argument that starts none (`flags_or_offends`).
So exactly the lists of blocks are read, and any other list is refused for the
first argument that starts none.

What the blocks say does not depend on their order but for the groups, of
which the last one counts (`flags_follow_grammar`).
-/

namespace ParamStore

namespace Command

/-! ## Answers -/

/-- Where an answer is right in two cases, and one of them is sure to hold,
the answer tells which. -/
theorem answer_iff {ε α : Type} {answer : Except ε α} {Right : α → Prop} {Fault : ε → Prop}
    (hright : ∀ a, Right a → answer = .ok a) (hfault : ∀ e, Fault e → answer = .error e)
    (htotal : (∃ a, Right a) ∨ ∃ e, Fault e) :
    (∀ a, answer = .ok a ↔ Right a) ∧ ∀ e, answer = .error e ↔ Fault e := by
  rcases htotal with ⟨a, ha⟩ | ⟨e, he⟩
  · obtain rfl := hright a ha
    refine ⟨fun b => ⟨fun hb => ?_, hright b⟩, fun e => ⟨fun he => ?_, hfault e⟩⟩
    · rwa [← Except.ok.inj hb]
    · cases he
  · obtain rfl := hfault e he
    refine ⟨fun a => ⟨fun ha => ?_, hright a⟩, fun e' => ⟨fun he' => ?_, hfault e'⟩⟩
    · cases ha
    · rwa [← Except.error.inj he']

theorem readKind_of_read? {name : String} {kind : Kind} (h : Kind.read? name = some kind) :
    readKind name = .ok kind := by rw [readKind, h]

theorem find?_of_not_mem_keys {α : Type} {a : String} {entries : List (String × α)}
    (h : a ∉ entries.map Prod.fst) : Entries.find? a entries = none := by
  rw [Entries.find?_eq_none_iff]
  rintro entry hentry rfl
  exact h (List.mem_map_of_mem hentry)

/-! ## Blocks -/

/-- A switch by its name, or the group flag with the group that it names. -/
inductive FlagBlock where
  | switch (name : String)
  | group (name : String)
  deriving DecidableEq

namespace FlagBlock

/-- The arguments that a block is written with. -/
def words : FlagBlock → List String
  | switch name => [name]
  | group name => [groupFlag, name]

def group? : FlagBlock → Option String
  | switch _ => none
  | group name => some name

end FlagBlock

/-- The groups that blocks name, in their order. -/
def groupsOf (bs : List FlagBlock) : List String := bs.filterMap FlagBlock.group?

/-- The arguments are these blocks one after the other, and no switch among
them is a strange one. -/
structure Flags (switches : List String) (as : List String) (bs : List FlagBlock) : Prop where
  words_eq : bs.flatMap FlagBlock.words = as
  known : ∀ a, .switch a ∈ bs → a ∈ switches

/-- Why no block stands at the start of these arguments. -/
inductive FlagFault (command : String) (switches : List String) :
    List String → ArgumentError → Prop where
  | unknown {a : String} {as : List String} (strange : a ∉ switches) (noGroup : a ≠ groupFlag) :
    FlagFault command switches (a :: as) (.unknownFlag command a)
  | missing : FlagFault command switches [groupFlag] (.missingValue groupFlag)

/-- After some blocks there comes an argument that starts none. -/
def Offends (command : String) (switches as : List String) (e : ArgumentError) : Prop :=
  ∃ before bs rest, as = before ++ rest ∧ Flags switches before bs
    ∧ FlagFault command switches rest e

variable {command : String} {switches as before rest : List String} {bs bs' : List FlagBlock}
  {e : ArgumentError}

namespace Flags

theorem nil : Flags switches [] [] := ⟨rfl, by simp⟩

theorem switch {a : String} (known : a ∈ switches) (h : Flags switches as bs) :
    Flags switches (a :: as) (.switch a :: bs) := by
  refine ⟨?_, fun b hb => ?_⟩
  · rw [List.flatMap_cons, h.words_eq]
    rfl
  · rcases List.mem_cons.1 hb with heq | hb
    · rwa [FlagBlock.switch.inj heq]
    · exact h.known b hb

theorem group (g : String) (h : Flags switches as bs) :
    Flags switches (groupFlag :: g :: as) (.group g :: bs) := by
  refine ⟨?_, fun b hb => h.known b (by simpa using hb)⟩
  rw [List.flatMap_cons, h.words_eq]
  rfl

/-- Blocks in another order are blocks. -/
theorem perm (h : Flags switches as bs) (hperm : bs'.Perm bs) :
    Flags switches (bs'.flatMap FlagBlock.words) bs' :=
  ⟨rfl, fun a ha => h.known a (hperm.mem_iff.1 ha)⟩

end Flags

/-- A fault behind a block is a fault of the whole. -/
theorem Offends.behind (front : List String)
    (hfront : ∀ before bs, Flags switches before bs → ∃ bs', Flags switches (front ++ before) bs')
    (h : (∃ bs, Flags switches as bs) ∨ ∃ e, Offends command switches as e) :
    (∃ bs, Flags switches (front ++ as) bs) ∨ ∃ e, Offends command switches (front ++ as) e := by
  rcases h with ⟨bs, hbs⟩ | ⟨e, before, bs, rest, rfl, hbs, hfault⟩
  · exact .inl (hfront as bs hbs)
  · obtain ⟨bs', hbs'⟩ := hfront before bs hbs
    exact .inr ⟨e, front ++ before, bs', rest, by simp, hbs', hfault⟩

/-- Arguments are blocks, or blocks and a fault. -/
theorem flags_or_offends (command : String) (switches : List String) : ∀ as : List String,
    (∃ bs, Flags switches as bs) ∨ ∃ e, Offends command switches as e
  | [] => .inl ⟨[], .nil⟩
  | a :: as => by
    by_cases hknown : a ∈ switches
    · exact Offends.behind [a] (fun _ bs h => ⟨.switch a :: bs, h.switch hknown⟩)
        (flags_or_offends command switches as)
    by_cases hgroup : a = groupFlag
    · subst hgroup
      match as with
      | [] => exact .inr ⟨_, [], [], [groupFlag], rfl, .nil, .missing⟩
      | g :: as =>
        exact Offends.behind [groupFlag, g] (fun _ bs h => ⟨.group g :: bs, h.group g⟩)
          (flags_or_offends command switches as)
    · exact .inr ⟨_, [], [], a :: as, rfl, .nil, .unknown hknown hgroup⟩

/-! ## Reading by a table -/

namespace FlagTable

variable {F : Type} {table : FlagTable F} {setGroup : String → F → F} {flags : F}

def names (table : FlagTable F) : List String := table.switches.map Prod.fst

/-- What a block makes of the flags before it. -/
def apply (table : FlagTable F) (flags : F) : FlagBlock → F
  | .switch a =>
    match Entries.find? a table.switches with
    | some switch => switch flags
    | none => flags
  | .group g =>
    match table.group with
    | some setGroup => setGroup g flags
    | none => flags

theorem find?_of_mem_names {a : String} (h : a ∈ table.names) :
    ∃ switch, Entries.find? a table.switches = some switch := by
  cases hfind : Entries.find? a table.switches with
  | some switch => exact ⟨switch, rfl⟩
  | none =>
    obtain ⟨entry, hentry, rfl⟩ := List.mem_map.1 h
    exact absurd rfl (Entries.find?_eq_none_iff.1 hfind entry hentry)

section Read

variable (hgroup : table.group = some setGroup) (hnames : groupFlag ∉ table.names)
include hgroup hnames

/-- Reading takes blocks away from the front. -/
theorem read_flags (h : Flags table.names before bs) (flags : F) (rest : List String) :
    table.read flags (before ++ rest) = table.read (bs.foldl table.apply flags) rest := by
  obtain ⟨rfl, hknown⟩ := h
  induction bs generalizing flags with
  | nil => rfl
  | cons b bs ih =>
    have htail (flags : F) := ih flags fun a ha => hknown a (List.mem_cons_of_mem _ ha)
    rw [List.flatMap_cons, List.append_assoc, List.foldl_cons, ← htail]
    cases b with
    | switch a =>
      obtain ⟨switch, hswitch⟩ := find?_of_mem_names (hknown a List.mem_cons_self)
      rw [FlagBlock.words, List.singleton_append, FlagTable.read, hswitch, apply, hswitch]
    | group g =>
      rw [FlagBlock.words, List.cons_append, List.singleton_append, FlagTable.read,
        find?_of_not_mem_keys hnames, hgroup, apply, hgroup]
      simp

theorem read_fault (h : FlagFault table.command table.names rest e) (flags : F) :
    table.read flags rest = .error e := by
  cases h with
  | unknown strange noGroup =>
    rw [FlagTable.read, find?_of_not_mem_keys strange, hgroup]
    simp [noGroup]
  | missing =>
    rw [FlagTable.read, find?_of_not_mem_keys hnames, hgroup]
    simp

theorem read_of_flags (h : Flags table.names as bs) (flags : F) :
    table.read flags as = .ok (bs.foldl table.apply flags) := by
  have hread := read_flags hgroup hnames h flags []
  rwa [List.append_nil] at hread

theorem read_of_offends (h : Offends table.command table.names as e) (flags : F) :
    table.read flags as = .error e := by
  obtain ⟨before, bs, rest, rfl, hbs, hfault⟩ := h
  rw [read_flags hgroup hnames hbs, read_fault hgroup hnames hfault]

end Read

/-- What all blocks make of the flags, where it is known what one more block
makes of them. -/
theorem foldl_apply {of : List FlagBlock → F}
    (hstep : ∀ done b, (∀ a, b = .switch a → a ∈ table.names) →
      of (done ++ [b]) = table.apply (of done) b)
    (known : ∀ a, .switch a ∈ bs → a ∈ table.names) (done : List FlagBlock) :
    bs.foldl table.apply (of done) = of (done ++ bs) := by
  induction bs generalizing done with
  | nil => rw [List.append_nil]; rfl
  | cons b bs ih =>
    have hb : of (done ++ [b]) = table.apply (of done) b :=
      hstep done b fun a ha => known a (ha ▸ List.mem_cons_self)
    rw [List.foldl_cons, ← hb, ih fun a ha => known a (List.mem_cons_of_mem _ ha),
      List.append_assoc, List.singleton_append]

end FlagTable

/-! ## Commands with flags -/

/-- How a command reads its flags: those are lists of blocks, of which it
makes `make`, and it refuses anything else for the first argument that starts
no block. The order of the blocks is no matter as long as the groups keep
theirs. -/
structure ReadsFlags (read : List String → Except ArgumentError Command) (command : String)
    (switches : List String) (make : List FlagBlock → Command) : Prop where
  accepts : ∀ as c, read as = .ok c ↔ ∃ bs, Flags switches as bs ∧ c = make bs
  refuses : ∀ as e, read as = .error e ↔ Offends command switches as e
  reordered : ∀ as bs bs', Flags switches as bs → bs'.Perm bs → groupsOf bs' = groupsOf bs →
    read (bs'.flatMap FlagBlock.words) = read as

/-- A reader that gives the right answer to blocks and to faults has no choice
left. -/
theorem ReadsFlags.of_answers {read : List String → Except ArgumentError Command}
    {make : List FlagBlock → Command}
    (hflags : ∀ as bs, Flags switches as bs → read as = .ok (make bs))
    (hoffends : ∀ as e, Offends command switches as e → read as = .error e)
    (hmake : ∀ bs bs', bs'.Perm bs → groupsOf bs' = groupsOf bs → make bs' = make bs) :
    ReadsFlags read command switches make := by
  have hanswer (as : List String) :
      (∀ c, read as = .ok c ↔ ∃ bs, Flags switches as bs ∧ c = make bs)
        ∧ ∀ e, read as = .error e ↔ Offends command switches as e := by
    refine answer_iff (fun c ⟨bs, hbs, hc⟩ => hc ▸ hflags as bs hbs) (hoffends as) ?_
    exact (flags_or_offends command switches as).imp_left fun ⟨bs, hbs⟩ => ⟨_, bs, hbs, rfl⟩
  refine ⟨fun as => (hanswer as).1, fun as => (hanswer as).2, fun as bs bs' hbs hperm hgroups => ?_⟩
  rw [hflags as bs hbs, hflags _ bs' (hbs.perm hperm), hmake bs bs' hperm hgroups]

/-- A command that reads its flags by a table, where `of` says what blocks
come to. -/
theorem FlagTable.readsFlags {F : Type} {table : FlagTable F} {setGroup : String → F → F}
    (hgroup : table.group = some setGroup) (hnames : groupFlag ∉ table.names)
    {of : List FlagBlock → F}
    (hstep : ∀ done b, (∀ a, b = .switch a → a ∈ table.names) →
      of (done ++ [b]) = table.apply (of done) b)
    (hof : ∀ bs bs', bs'.Perm bs → groupsOf bs' = groupsOf bs → of bs' = of bs)
    (make : F → Command) :
    ReadsFlags (fun as => make <$> table.read (of []) as) table.command table.names
      fun bs => make (of bs) := by
  refine .of_answers (fun as bs h => ?_) (fun as e h => ?_) fun bs bs' hperm hgroups => ?_
  · rw [read_of_flags hgroup hnames h, foldl_apply hstep h.known []]
    rfl
  · rw [read_of_offends hgroup hnames h]
    rfl
  · rw [hof bs bs' hperm hgroups]

/-- The flags of a set that are on are those among the blocks, and the group
is the last one named. -/
def setFlagsOf (bs : List FlagBlock) : SetFlags where
  shared := .switch "--global" ∈ bs
  group := (groupsOf bs).getLast?
  freeze := .switch "--freeze" ∈ bs
  readOnly := .switch "--read-only" ∈ bs
  fixed := .switch "--fixed" ∈ bs
  transient := .switch "--transient" ∈ bs

/-- The same for an unset. -/
def unsetFlagsOf (bs : List FlagBlock) : UnsetFlags where
  shared := .switch "--global" ∈ bs
  scopeOnly := .switch "--scope-only" ∈ bs
  force := .switch "--force" ∈ bs
  group := (groupsOf bs).getLast?
  unfreeze := .switch "--unfreeze" ∈ bs

theorem setFlagsOf_append (done : List FlagBlock) (b : FlagBlock)
    (h : ∀ a, b = .switch a → a ∈ setTable.names) :
    setFlagsOf (done ++ [b]) = setTable.apply (setFlagsOf done) b := by
  cases b with
  | switch a =>
    have ha := h a rfl
    simp only [FlagTable.names, setTable, List.map_cons, List.map_nil, List.mem_cons,
      List.not_mem_nil, or_false] at ha
    rcases ha with rfl | rfl | rfl | rfl | rfl <;>
      simp [FlagTable.apply, setTable, Entries.find?, setFlagsOf, groupsOf, FlagBlock.group?]
  | group g => simp [FlagTable.apply, setTable, setFlagsOf, groupsOf, FlagBlock.group?]

theorem unsetFlagsOf_append (done : List FlagBlock) (b : FlagBlock)
    (h : ∀ a, b = .switch a → a ∈ unsetTable.names) :
    unsetFlagsOf (done ++ [b]) = unsetTable.apply (unsetFlagsOf done) b := by
  cases b with
  | switch a =>
    have ha := h a rfl
    simp only [FlagTable.names, unsetTable, List.map_cons, List.map_nil, List.mem_cons,
      List.not_mem_nil, or_false] at ha
    rcases ha with rfl | rfl | rfl | rfl <;>
      simp [FlagTable.apply, unsetTable, Entries.find?, unsetFlagsOf, groupsOf, FlagBlock.group?]
  | group g => simp [FlagTable.apply, unsetTable, unsetFlagsOf, groupsOf, FlagBlock.group?]

theorem setFlagsOf_perm (bs bs' : List FlagBlock) (hperm : bs'.Perm bs)
    (hgroups : groupsOf bs' = groupsOf bs) : setFlagsOf bs' = setFlagsOf bs := by
  simp only [setFlagsOf, hperm.mem_iff, hgroups]

theorem unsetFlagsOf_perm (bs bs' : List FlagBlock) (hperm : bs'.Perm bs)
    (hgroups : groupsOf bs' = groupsOf bs) : unsetFlagsOf bs' = unsetFlagsOf bs := by
  simp only [unsetFlagsOf, hperm.mem_iff, hgroups]

variable {name : String} {kind : Kind}

theorem ofArguments_set (hkind : Kind.read? name = some kind) (path value : String)
    (as : List String) :
    ofArguments ("set" :: name :: path :: value :: as)
      = .set kind path (readValue value) <$> setTable.read (setFlagsOf []) as := by
  change readSet (name :: path :: value :: as) = _
  rw [readSet, readKind_of_read? hkind]
  rfl

theorem ofArguments_unset (hkind : Kind.read? name = some kind) (path : String)
    (as : List String) :
    ofArguments ("unset" :: name :: path :: as)
      = .unset kind path <$> unsetTable.read (unsetFlagsOf []) as := by
  change readUnset (name :: path :: as) = _
  rw [readUnset, readKind_of_read? hkind]
  rfl

/-- Behind their fixed arguments, `set` and `unset` take exactly the lists of
flags, each group flag with the argument after it, and make of them what these
say; the kind, the path and the value are those at the fixed places. Any other
list is refused for the first argument that is at fault. -/
theorem flags_follow_grammar (hkind : Kind.read? name = some kind) (path value : String) :
    ReadsFlags (fun as => ofArguments ("set" :: name :: path :: value :: as)) "set"
        ["--global", "--freeze", "--read-only", "--fixed", "--transient"]
        (fun bs => .set kind path (readValue value) (setFlagsOf bs))
      ∧ ReadsFlags (fun as => ofArguments ("unset" :: name :: path :: as)) "unset"
        ["--global", "--scope-only", "--force", "--unfreeze"]
        (fun bs => .unset kind path (unsetFlagsOf bs)) := by
  simp only [ofArguments_set hkind, ofArguments_unset hkind]
  exact ⟨setTable.readsFlags rfl (by decide) setFlagsOf_append setFlagsOf_perm _,
    unsetTable.readsFlags rfl (by decide) unsetFlagsOf_append unsetFlagsOf_perm _⟩

/-- A group may be named like a flag, and the last one named counts. A flag of
`set` is none of `unset`. -/
theorem flags_follow_grammar_prompt : Kind.read? "env" = some .env
    ∧ ofArguments ["set", "env", "prompt", "42", "--group", "--freeze", "--fixed", "--group",
        "addon", "--global"]
      = .ok (.set .env "prompt" (readValue "42")
          { shared := true, group := some "addon", fixed := true })
    ∧ ofArguments ["unset", "env", "prompt", "--group", "--freeze", "--freeze"]
      = .error (.unknownFlag "unset" "--freeze") := by
  have hkind : Kind.read? "env" = some .env := by decide
  have hgrammar := flags_follow_grammar hkind "prompt" "42"
  refine ⟨hkind, (hgrammar.1.accepts _ _).2 ⟨[.group "--freeze", .switch "--fixed",
    .group "addon", .switch "--global"], ⟨rfl, by simp⟩, rfl⟩, (hgrammar.2.refuses _ _).2 ?_⟩
  exact ⟨["--group", "--freeze"], [.group "--freeze"], ["--freeze"], rfl, ⟨rfl, by simp⟩,
    .unknown (by decide) (by decide)⟩

end Command

end ParamStore
