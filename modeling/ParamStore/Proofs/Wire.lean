import ParamStore.Config
import ParamStore.Loader
import ParamStore.Parameter.Wire
import ParamStore.Path.Wire
import ParamStore.Proofs.Json.Record
import ParamStore.Proofs.Path
import ParamStore.Proofs.Store.Resolution
import ParamStore.Response

/-!
# Wire forms

Commands, parameters, their settings, reports, responses, configurations and
paths lose nothing in their wire form (`wire_forms_lossless`). For each record
that is to say which fields are written, that the fields read as the record and
that the reader looks only at the names of the record; the rest is the same for
all of them.
-/

namespace ParamStore

open Json
open Json.Fields (required defaulted Reads)

theorem Kind.ofTree?_toTree (k : Kind) : ofTree? k.toTree = some k := by
  simp [ofTree?, toTree, Tree.name?, ofName?_name]

theorem Kind.ofTaggedTree?_toTree (k : Kind) : ofTaggedTree? k.toTree = some k := by
  simp [ofTaggedTree?, toTree, Tree.name?, ofName?_name]

/-! ## Commands -/

namespace Command

theorem reads_ofFields? (name : String) : Reads (fieldNames name) (ofFields? · name) := by
  intro fs gs h
  dsimp only
  fun_cases ofFields? fs name
  -- no command has this name
  case case15 => simp_all [ofFields?]
  all_goals
    simp only [fieldNames, List.forall_mem_cons, List.not_mem_nil] at h
    simp [ofFields?, LookupFlags.ofFields?, kindField, required, defaulted, Fields.text?,
      Fields.flag?, Fields.optionalText?, h]

theorem ofFields?_toFields (c : Command) : ofFields? c.toFields.2 c.toFields.1 = some c := by
  cases c with
  | status text | help text => cases text <;> rfl
  | set kind path value flags =>
    obtain ⟨shared, group, freeze, readOnly, fixed, transient⟩ := flags
    cases group <;>
      simp [toFields, SetFlags.toFields, ofFields?, kindField, Fields.text?, Fields.flag?,
        Fields.optionalText?, Kind.ofTaggedTree?_toTree, Value.ofTree?_tree]
  | unset kind path flags =>
    obtain ⟨shared, scopeOnly, force, group, unfreeze⟩ := flags
    cases group <;>
      simp [toFields, UnsetFlags.toFields, ofFields?, kindField, Fields.text?, Fields.flag?,
        Fields.optionalText?, Kind.ofTaggedTree?_toTree]
  | list kind start flags =>
    obtain ⟨shared, scopeOnly, format⟩ := flags
    cases format <;>
      simp [toFields, ListFlags.toFields, ofFields?, kindField, Fields.flag?,
        Fields.optionalText?, Kind.ofTaggedTree?_toTree]
  | get | has | owner | groupNodes =>
    simp [toFields, LookupFlags.toFields, ofFields?, LookupFlags.ofFields?, kindField,
      Fields.text?, Fields.flag?, Kind.ofTaggedTree?_toTree]
  | run | groupClear | scopePush | scopePop | scopeFlush => rfl

theorem nodup_keys (c : Command) : (tag :: c.toFields.2.map (·.1)).Nodup := by
  cases c with
  | status text | help text => cases text <;> simp [toFields, tag]
  | set kind path value flags =>
    cases h : flags.group <;> simp [toFields, tag, SetFlags.toFields, h]
  | unset kind path flags =>
    cases h : flags.group <;> simp [toFields, tag, UnsetFlags.toFields, h]
  | list kind start flags =>
    cases h : flags.format <;> simp [toFields, tag, ListFlags.toFields, h]
  | _ => simp [toFields, tag, LookupFlags.toFields]

theorem readable_toFields (c : Command) : ∀ f ∈ c.toFields.2, f.2.Readable := by
  cases c with
  | status text | help text => cases text <;> simp [toFields]
  | set kind path value flags =>
    have hvalue := Tree.readable_of_isNormal value.normal
    cases h : flags.group <;> simp [toFields, SetFlags.toFields, Kind.toTree, h, hvalue]
  | unset kind path flags =>
    cases h : flags.group <;> simp [toFields, UnsetFlags.toFields, Kind.toTree, h]
  | list kind start flags =>
    cases h : flags.format <;> simp [toFields, ListFlags.toFields, Kind.toTree, h]
  | _ => simp [toFields, LookupFlags.toFields, Kind.toTree]

theorem lossless : Lossless toTree ofTree? (UnknownToTagged tag fieldNames) :=
  .of_tagged (fun _ => rfl) (fun _ => rfl) reads_ofFields? readable_toFields nodup_keys
    ofFields?_toFields

end Command

/-! ## Parameters -/

namespace Settings

/-- The tag and the fields of settings, in the order in which they are written. -/
def toFields : Settings → String × Fields
  | inScope s => ("local", [("read_only", .bool s.readOnly), ("removable", .bool s.removable)])
  | shared s =>
    ("global", [("read_only", .bool s.readOnly), ("removable", .bool s.removable),
      ("transient", .bool s.transient)]
        ++ match s.pin with
          | none => []
          | some pin => [("starting_hash", .natural pin)])

/-- The names of the fields of each shape. -/
def fieldNames : String → List String
  | "local" => ["read_only", "removable"]
  | "global" => ["read_only", "removable", "transient", "starting_hash"]
  | _ => []

def ofFields? : String → Fields → Option Settings
  | "local", fs => do
    let readOnly ← required Tree.bool? "read_only" fs
    let removable ← required Tree.bool? "removable" fs
    return inScope { readOnly, removable }
  | "global", fs => do
    let readOnly ← required Tree.bool? "read_only" fs
    let removable ← required Tree.bool? "removable" fs
    let transient ← required Tree.bool? "transient" fs
    let pin ← defaulted none (Tree.nullable? Tree.natural?) "starting_hash" fs
    return shared { readOnly, removable, transient, pin }
  | _, _ => none

theorem toTree_eq (s : Settings) :
    s.toTree = .object ((tag, .text s.toFields.1) :: s.toFields.2) := by
  cases s <;> rfl

theorem ofTree?_eq (t : Tree) : ofTree? t = t.asTagged? tag fieldNames ofFields? := by
  unfold ofTree? Tree.asTagged?
  refine bind_congr fun r => ?_
  obtain ⟨name, rest⟩ := r
  fun_cases fieldNames name with
  | case1 | case2 => rfl
  | case3 => cases rest.record? [] <;> simp [ofFields?]

theorem reads_ofFields? (name : String) : Reads (fieldNames name) (ofFields? name) := by
  intro fs gs h
  fun_cases fieldNames name with
  | case1 | case2 =>
    simp only [fieldNames, List.forall_mem_cons] at h
    simp [ofFields?, required, defaulted, h]
  | case3 => simp [ofFields?]

theorem lossless : Lossless toTree ofTree? (UnknownToTagged tag fieldNames) := by
  refine .of_tagged toTree_eq ofTree?_eq reads_ofFields? (fun s => ?_) (fun s => ?_) fun s => ?_
  all_goals
    obtain s | ⟨readOnly, removable, transient, pin⟩ := s
    · simp [toFields, ofFields?, tag]
    · cases pin <;> simp [toFields, ofFields?, tag]

end Settings

namespace Parameter

theorem lossless : Lossless toTree ofTree? (UnknownTo ["kind", "value", "settings"]) := by
  refine .of_plain (fun _ => rfl) (fun _ => rfl) (fun fs gs h => ?_) (fun p => ?_) fun p => ?_
  · simp only [List.forall_mem_cons] at h
    simp only [required, h]
  · simp
  · simp [Kind.ofTree?_toTree, Value.ofTree?_tree, Settings.lossless.read_back]

/-- What is made of the settings is all that they have to do with the parameter. -/
theorem ofTree?_settings {s t : Tree} (h : Settings.ofTree? s = Settings.ofTree? t)
    (fs gs : Fields) :
    ofTree? (.object (fs ++ ("settings", s) :: gs))
      = ofTree? (.object (fs ++ ("settings", t) :: gs)) := by
  have hother (n : String) (hn : "settings" ≠ n) :
      Entries.find? n (fs ++ ("settings", s) :: gs)
        = Entries.find? n (fs ++ ("settings", t) :: gs) :=
    Fields.find?_replace hn
  refine Tree.asRecord?_replace ?_
  rw [Fields.required_replace h]
  simp only [required, hother "kind" (by decide), hother "value" (by decide)]

end Parameter

/-! ## Reports -/

namespace Report

theorem snapshotOf?_map (s : Snapshot) :
    snapshotOf? (.object (s.entries.map fun e => (e.1, e.2.tree))) = some s := by
  have hentries : (s.entries.map fun e => (e.1, e.2.tree)).mapM
      (fun f => (Value.ofTree? f.2).map (f.1, ·)) = some s.entries :=
    mapM_map_of_read_back (fun e => by rw [Value.ofTree?_tree, Option.map_some]) s.entries
  rw [snapshotOf?, hentries, Option.map_some, Table.ofList_entries]

theorem lossless : Lossless toTree ofTree? (UnknownTo ["changed", "removed"]) := by
  refine .of_plain (fun _ => rfl) (fun _ => rfl) (fun fs gs h => ?_) (fun r => ?_) fun r => ?_
  · simp only [List.forall_mem_cons] at h
    simp only [required, h]
  · simp
  · simp [snapshotOf?_map, Tree.list?_map Tree.text?_text]

end Report

/-! ## Responses -/

namespace Response

/-- The tag and the field of a response. -/
def toFields : Response → String × Fields
  | ok output => ("ok", [("output", .text output)])
  | error message => ("error", [("message", .text message)])

/-- The name of the field of each response. -/
def fieldNames : String → List String
  | "ok" => ["output"]
  | "error" => ["message"]
  | _ => []

def ofFields? : String → Fields → Option Response
  | "ok", fs => ok <$> fs.text? "output"
  | "error", fs => error <$> fs.text? "message"
  | _, _ => none

theorem toTree_eq (r : Response) :
    r.toTree = .object ((tag, .text r.toFields.1) :: r.toFields.2) := by
  cases r <;> rfl

theorem ofTree?_eq (t : Tree) : ofTree? t = t.asTagged? tag fieldNames ofFields? := by
  unfold ofTree? Tree.asTagged?
  refine bind_congr fun r => ?_
  obtain ⟨name, rest⟩ := r
  fun_cases fieldNames name with
  | case1 | case2 =>
    simp only [Option.map_eq_map, Option.map_bind]
    rfl
  | case3 => cases rest.record? [] <;> simp [ofFields?]

theorem reads_ofFields? (name : String) : Reads (fieldNames name) (ofFields? name) := by
  intro fs gs h
  fun_cases fieldNames name with
  | case1 | case2 =>
    simp only [fieldNames, List.forall_mem_cons] at h
    simp [ofFields?, Fields.text?, required, h]
  | case3 => simp [ofFields?]

theorem lossless : Lossless toTree ofTree? (UnknownToTagged tag fieldNames) := by
  refine .of_tagged toTree_eq ofTree?_eq reads_ofFields? (fun r => ?_) (fun r => ?_) fun r => ?_
  all_goals cases r <;> simp [toFields, ofFields?, Fields.text?, tag]

end Response

/-! ## Configurations and paths -/

namespace Config

theorem lossless : Lossless toTree ofTree? (UnknownTo fieldNames) := by
  refine .of_plain (fun _ => rfl) (fun _ => rfl) (fun fs gs h => ?_) (fun c => ?_) fun c => ?_
  · simp only [fieldNames, List.forall_mem_cons] at h
    simp only [defaulted, h]
  · simp
  · simp [Tree.name?, ScopeMode.ofName?_name, Tree.list?_map Tree.text?_text]

end Config

/-- A path is no object, so no field is anything to it. -/
theorem Path.lossless : Lossless Path.toTree Path.ofTree? (fun _ _ => True) :=
  .of_read_back (fun p => by simp [toTree, ofTree?, read_dotted, Except.toOption])
    (fun _ _ _ => rfl) fun _ _ _ _ => rfl

/-- The wire forms lose nothing: what is written reads back as it was, the
order of the fields and unknown fields do not matter, and what was read is
written in a form that stays. In a parameter this holds of the settings
too. -/
theorem wire_forms_lossless :
    Lossless Command.toTree Command.ofTree? (UnknownToTagged Command.tag Command.fieldNames)
      ∧ Lossless Parameter.toTree Parameter.ofTree? (UnknownTo ["kind", "value", "settings"])
      ∧ Lossless Settings.toTree Settings.ofTree?
          (UnknownToTagged Settings.tag Settings.fieldNames)
      ∧ (∀ s t : Tree, Settings.ofTree? s = Settings.ofTree? t → ∀ fs gs : Fields,
          Parameter.ofTree? (.object (fs ++ ("settings", s) :: gs))
            = Parameter.ofTree? (.object (fs ++ ("settings", t) :: gs)))
      ∧ Lossless Report.toTree Report.ofTree? (UnknownTo ["changed", "removed"])
      ∧ Lossless Response.toTree Response.ofTree?
          (UnknownToTagged Response.tag Response.fieldNames)
      ∧ Lossless Config.toTree Config.ofTree? (UnknownTo Config.fieldNames)
      ∧ Lossless Path.toTree Path.ofTree? (fun _ _ => True) :=
  ⟨Command.lossless, Parameter.lossless, Settings.lossless,
    fun _ _ h => Parameter.ofTree?_settings h, Report.lossless, Response.lossless,
    Config.lossless, Path.lossless⟩

/-- The settings of a plain parameter, in another order and with a note. -/
def notedSettings : Tree :=
  .object [("removable", .bool true), ("scope", .text "local"), ("note", .null),
    ("read_only", .bool false)]

/-- A parameter is read that has its settings first and a note in them, and a
response from its text. -/
theorem wire_forms_lossless_noted :
    Settings.ofTree? notedSettings = some (.inScope ⟨false, true⟩)
      ∧ Parameter.ofTree? (.object [("settings", notedSettings), ("value", .text "> "),
          ("kind", .text "environment")]) = some (Parameter.plain .env (.text "> "))
      ∧ Tree.read? (Response.ok "1").toTree.compact = some (Response.ok "1").toTree
      ∧ (Tree.read? (Response.ok "1").toTree.compact).bind Response.ofTree? = some (.ok "1") := by
  obtain ⟨-, hparameter, hsettings, hnested, -, hresponse, -, -⟩ := wire_forms_lossless
  have hread : Settings.ofTree? notedSettings = some (.inScope ⟨false, true⟩) := by
    have hunknown : UnknownToTagged Settings.tag Settings.fieldNames
        [("removable", .bool true), ("scope", .text "local"), ("read_only", .bool false)]
        ("note", .null) := by
      refine ⟨rfl, by decide, fun name h => ?_⟩
      obtain rfl : name = "local" := by simpa [Settings.tag] using h
      decide
    have hnote := hsettings.extended [("removable", .bool true), ("scope", .text "local")]
      [("read_only", .bool false)] ("note", .null) hunknown
    have horder := hsettings.reordered
      [("removable", .bool true), ("scope", .text "local"), ("read_only", .bool false)]
      [("scope", .text "local"), ("read_only", .bool false), ("removable", .bool true)]
      (by decide)
    exact hnote.trans (horder.trans (hsettings.read_back (.inScope ⟨false, true⟩)))
  have htext : Tree.read? (Response.ok "1").toTree.compact = some (Response.ok "1").toTree := by
    decide +kernel
  refine ⟨hread, ?_, htext, hresponse.read_text (.ok "1") htext⟩
  have hsame := hnested notedSettings (Settings.inScope ⟨false, true⟩).toTree
    (hread.trans (hsettings.read_back _).symm) []
    [("value", .text "> "), ("kind", .text "environment")]
  have hplain := hparameter.read_back (Parameter.plain .env (.text "> "))
  exact hsame.trans ((hparameter.reordered _ _ (by decide)).trans hplain)

end ParamStore
