import ParamStore.Json.Printer
import ParamStore.Json.Reader
import ParamStore.Json.Record
import Mathlib.Data.List.Nodup

/-!
# Reading records

A record is read by looking up the names that it knows, each of which stands
once. So what is read is told by the fields at these names, in whatever order
(`Fields.Alike`): neither the order of the fields nor a field that the record
does not know makes a difference. A tagged record looks up its tag first; which
names it knows depends on that.

`Lossless` says what is asked of the wire form of a record. It is proved once for
plain records (`Lossless.of_plain`) and once for tagged ones
(`Lossless.of_tagged`), from the fields that are written and the reader of the
fields.
-/

namespace ParamStore.Json

variable {α : Type} {fs gs : Fields} {f : String × Tree} {names : List String} {n : String}

/-! ## Trees of values -/

theorem mapM_map_of_read_back {β : Type} {read : β → Option α} {write : α → β}
    (h : ∀ a, read (write a) = some a) (as : List α) : (as.map write).mapM read = some as := by
  induction as with
  | nil => rfl
  | cons a as ih =>
    rw [List.map_cons, List.mapM_cons, h, ih]
    rfl

namespace Tree

/-- The tree stands for a value: every part of it is readable. -/
def Readable (t : Tree) : Prop := t.normalise.isSome = true

theorem readable_of_isNormal {t : Tree} (h : t.isNormal) : t.Readable := by
  rw [Readable, normalise_of_isNormal h]
  rfl

theorem isSome_normaliseFields :
    (normaliseFields fs).isSome = true ↔ ∀ f ∈ fs, f.2.Readable := by
  induction fs with
  | nil => simp [normaliseFields]
  | cons f fs ih =>
    rw [List.forall_mem_cons, ← ih, normaliseFields]
    cases h : f.2.normalise <;> cases normaliseFields fs <;> simp [Readable, h]

theorem readable_object : (object fs).Readable ↔ ∀ f ∈ fs, f.2.Readable := by
  rw [Readable, normalise, Option.isSome_map, isSome_normaliseFields]

@[simp] theorem readable_text (s : String) : (text s).Readable := rfl

@[simp] theorem readable_bool (b : Bool) : (bool b).Readable := rfl

@[simp] theorem readable_natural (n : UInt64) : (natural n).Readable := rfl

@[simp] theorem text?_text (s : String) : (text s).text? = some s := rfl

@[simp] theorem bool?_bool (b : Bool) : (bool b).bool? = some b := rfl

@[simp] theorem natural?_natural (n : UInt64) : (natural n).natural? = some n := by
  simp [natural, natural?]

@[simp] theorem nullable?_text (s : String) : nullable? text? (text s) = some (some s) := rfl

@[simp] theorem nullable?_natural (n : UInt64) :
    nullable? natural? (natural n) = some (some n) := by
  rw [nullable?, natural?_natural, Option.map_some]
  exact Tree.noConfusion

theorem list?_map {read : Tree → Option α} {write : α → Tree}
    (h : ∀ a, read (write a) = some a) (as : List α) :
    (array (as.map write)).list? read = some as :=
  mapM_map_of_read_back h as

end Tree

namespace Fields

/-! ## Looking up -/

@[simp] theorem required_cons (read : Tree → Option α) (n m : String) (t : Tree) (fs : Fields) :
    required read n ((m, t) :: fs) = if m = n then read t else required read n fs := by
  by_cases h : m = n <;> simp [required, Entries.find?, h]

@[simp] theorem defaulted_nil (a : α) (read : Tree → Option α) (n : String) :
    defaulted a read n [] = some a := rfl

@[simp] theorem defaulted_cons (a : α) (read : Tree → Option α) (n m : String) (t : Tree)
    (fs : Fields) :
    defaulted a read n ((m, t) :: fs) = if m = n then read t else defaulted a read n fs := by
  by_cases h : m = n <;> simp [defaulted, Entries.find?, h]

@[simp] theorem optional_none (n : String) : optional n none = [] := rfl

@[simp] theorem optional_some (n s : String) : optional n (some s) = [(n, .text s)] := rfl

/-! ## The fields at a name -/

/-- At each of these names the two hold the same fields, in some order. -/
def Alike (names : List String) (fs gs : Fields) : Prop :=
  ∀ n ∈ names, (fs.filter (·.1 == n)).Perm (gs.filter (·.1 == n))

theorem find?_eq_head? (n : String) (fs : Fields) :
    Entries.find? n fs = (fs.filter (·.1 == n)).head?.map (·.2) := by
  induction fs with
  | nil => rfl
  | cons f fs ih => by_cases h : f.1 = n <;> simp [Entries.find?, h, ih]

theorem find?_append (n : String) (fs gs : Fields) :
    Entries.find? n (fs ++ gs) = (Entries.find? n fs).or (Entries.find? n gs) := by
  rw [find?_eq_head?, find?_eq_head?, find?_eq_head?, List.filter_append, List.head?_append,
    Option.map_or]

namespace Alike

theorem of_perm (names : List String) (h : fs.Perm gs) : Alike names fs gs :=
  fun n _ => h.filter (·.1 == n)

/-- A field that has none of the names may stand anywhere. -/
theorem of_unknown (h : f.1 ∉ names) : Alike names (fs ++ f :: gs) (fs ++ gs) := by
  intro n hn
  have hne : f.1 ≠ n := fun he => h (he ▸ hn)
  rw [List.filter_append, List.filter_append, List.filter_cons_of_neg (by simpa using hne)]

theorem erase (tag : String) (h : Alike names fs gs) :
    Alike names (Entries.erase tag fs) (Entries.erase tag gs) := by
  intro n hn
  unfold Entries.erase
  simpa only [List.filter_filter, Bool.and_comm] using (h n hn).filter (·.1 ≠ tag)

theorem isSingle_eq (h : Alike names fs gs) : isSingle names fs = isSingle names gs := by
  rw [Bool.eq_iff_iff, isSingle, isSingle, List.all_eq_true, List.all_eq_true]
  exact forall₂_congr fun n hn => by rw [(h n hn).length_eq]

/-- Where no name stands twice, the same is found at each. -/
theorem find?_eq (h : Alike names fs gs) (hsingle : isSingle names fs = true) (hn : n ∈ names) :
    Entries.find? n fs = Entries.find? n gs := by
  have hlength : (fs.filter (·.1 == n)).length ≤ 1 := by
    simpa using List.all_eq_true.1 hsingle n hn
  have hperm := h n hn
  rw [find?_eq_head?, find?_eq_head?]
  -- a list of at most one field has no other order
  cases hfs : fs.filter (·.1 == n) with
  | nil =>
    rw [hfs] at hperm
    rw [← hperm.nil_eq]
  | cons f rest =>
    rw [hfs] at hperm hlength
    obtain rfl : rest = [] := by simpa using hlength
    rw [List.perm_singleton.1 hperm.symm]

end Alike

/-- The reader looks only at the fields with these names. -/
def Reads (names : List String) (read : Fields → Option α) : Prop :=
  ∀ ⦃fs gs : Fields⦄, (∀ n ∈ names, Entries.find? n fs = Entries.find? n gs) → read fs = read gs

theorem isSingle_of_nodup (h : (fs.map (·.1)).Nodup) (names : List String) :
    isSingle names fs = true := by
  refine List.all_eq_true.2 fun n _ => decide_eq_true ?_
  rw [← List.countP_eq_length_filter]
  have hcount := List.nodup_iff_count_le_one.1 h n
  rwa [List.count_eq_countP, List.countP_map] at hcount

/-! ## Another tree in place of one -/

theorem isSingle_replace (names : List String) (n : String) (s t : Tree) (fs gs : Fields) :
    isSingle names (fs ++ (n, s) :: gs) = isSingle names (fs ++ (n, t) :: gs) := by
  unfold isSingle
  congr! 4 with m
  by_cases h : n = m <;> simp [h]

theorem find?_replace {m : String} {s t : Tree} (h : n ≠ m) :
    Entries.find? m (fs ++ (n, s) :: gs) = Entries.find? m (fs ++ (n, t) :: gs) := by
  simp [find?_append, Entries.find?, h]

theorem required_replace {read : Tree → Option α} {s t : Tree} (h : read s = read t) :
    required read n (fs ++ (n, s) :: gs) = required read n (fs ++ (n, t) :: gs) := by
  unfold required
  rw [find?_append, find?_append]
  cases Entries.find? n fs <;> simp [Entries.find?, h]

end Fields

/-! ## Plain and tagged records -/

namespace Tree

open Fields

theorem record?_congr {read : Fields → Option α} (hread : Reads names read)
    (h : Alike names fs gs) :
    ((object fs).record? names).bind read = ((object gs).record? names).bind read := by
  simp only [record?, ← h.isSingle_eq]
  split
  · next hsingle => exact hread fun n hn => h.find?_eq hsingle hn
  · rfl

theorem tagged?_object_eq_some {tag name : String} {t : Tree} :
    (object fs).tagged? tag = some (name, t) ↔
      (object fs).Readable ∧ fs.filter (·.1 == tag) = [(tag, text name)]
        ∧ t = object (Entries.erase tag fs) := by
  unfold tagged? Readable
  cases (object fs).normalise with
  | none => simp
  | some u =>
    simp only [Option.isNone_some, Bool.false_eq_true, if_false, Option.isSome_some, true_and]
    constructor
    · intro h
      split at h
      · next k s hfilter =>
        have hk : k = tag := by
          have hmem := List.mem_filter.1 (hfilter ▸ List.mem_singleton_self (k, text s))
          simpa using hmem.2
        cases h
        exact ⟨hk ▸ hfilter, rfl⟩
      · cases h
    · rintro ⟨hfilter, rfl⟩
      rw [hfilter]

/-- The tag and the other fields are told apart where the tag stands once. -/
theorem tagged?_cons {tag : String} (name : String) (hfs : ∀ f ∈ fs, f.2.Readable)
    (htag : tag ∉ fs.map (·.1)) :
    (object ((tag, text name) :: fs)).tagged? tag = some (name, object fs) := by
  have hne : ∀ f ∈ fs, f.1 ≠ tag := fun f hf he => htag (he ▸ List.mem_map_of_mem hf)
  rw [tagged?_object_eq_some, readable_object, List.forall_mem_cons]
  refine ⟨⟨readable_text name, hfs⟩, ?_, ?_⟩
  · rw [List.filter_cons_of_pos (by simp), List.filter_eq_nil_iff.2 (by simpa using hne)]
  · unfold Entries.erase
    rw [List.filter_cons_of_neg (by simp), List.filter_eq_self.2 (by simpa using hne)]

/-- A tagged record is told by its tag and by what is made of the other
fields, provided that all of it is readable. -/
theorem tagged?_congr {tag : String} {read : String × Tree → Option α}
    (hreadable : (object fs).Readable ↔ (object gs).Readable) (htag : Alike [tag] fs gs)
    (hread : ∀ name, (tag, text name) ∈ fs →
      read (name, object (Entries.erase tag fs)) = read (name, object (Entries.erase tag gs))) :
    ((object fs).tagged? tag).bind read = ((object gs).tagged? tag).bind read := by
  have hfilter (name : String) : fs.filter (·.1 == tag) = [(tag, text name)] ↔
      gs.filter (·.1 == tag) = [(tag, text name)] := by
    have hperm := htag tag (List.mem_singleton_self tag)
    exact ⟨fun h => List.perm_singleton.1 (h ▸ hperm.symm),
      fun h => List.perm_singleton.1 (h ▸ hperm)⟩
  -- so both have the same tag, and `hread` is needed for that tag only
  refine Option.ext fun a => ?_
  simp only [Option.bind_eq_some_iff, Prod.exists, tagged?_object_eq_some, ← hreadable, ← hfilter]
  constructor <;> rintro ⟨name, _, ⟨hreads, hname, rfl⟩, ha⟩ <;>
    have heq := hread name (List.mem_of_mem_filter (hname ▸ List.mem_singleton_self _))
  · exact ⟨name, _, ⟨hreads, hname, rfl⟩, heq ▸ ha⟩
  · exact ⟨name, _, ⟨hreads, hname, rfl⟩, heq ▸ ha⟩

/-- Read a plain record by its fields. -/
def asRecord? (names : List String) (read : Fields → Option α) (t : Tree) : Option α :=
  (t.record? names).bind read

/-- Read a tagged record by its tag and the fields that go with it. -/
def asTagged? (tag : String) (names : String → List String) (read : String → Fields → Option α)
    (t : Tree) : Option α :=
  (t.tagged? tag).bind fun r => (r.2.record? (names r.1)).bind (read r.1)

theorem asRecord?_replace {read : Fields → Option α} {s t : Tree}
    (h : read (fs ++ (n, s) :: gs) = read (fs ++ (n, t) :: gs)) :
    (object (fs ++ (n, s) :: gs)).asRecord? names read
      = (object (fs ++ (n, t) :: gs)).asRecord? names read := by
  simp only [asRecord?, record?, isSingle_replace names n s t]
  split
  · exact h
  · rfl

end Tree

open Json.Tree Json.Fields

/-! ## Wire forms -/

/-- The wire form of a record loses nothing. Which fields are unknown to the
record may depend on the other fields of an object. -/
structure Lossless (toTree : α → Tree) (ofTree? : Tree → Option α)
    (Unknown : Fields → String × Tree → Prop) : Prop where
  /-- What is written reads back as it was. -/
  read_back : ∀ a, ofTree? (toTree a) = some a
  /-- So does its text, where the text of a tree is read as that tree. -/
  read_text : ∀ a, Tree.read? (toTree a).compact = some (toTree a) →
    (Tree.read? (toTree a).compact).bind ofTree? = some a
  /-- The fields may stand in any order. -/
  reordered : ∀ fs gs, fs.Perm gs → ofTree? (object fs) = ofTree? (object gs)
  /-- An unknown field may be added anywhere. -/
  extended : ∀ fs gs f, Unknown (fs ++ gs) f →
    ofTree? (object (fs ++ f :: gs)) = ofTree? (object (fs ++ gs))
  /-- Whatever is accepted is written in a form that stays as it is when it is
  read and written again. -/
  settled : ∀ t u, (ofTree? t).map toTree = some u → (ofTree? u).map toTree = some u

/-- A field that a plain record with these names does not know. -/
def UnknownTo (names : List String) (_ : Fields) (f : String × Tree) : Prop := f.1 ∉ names

/-- A field that a tagged record does not know: it is neither the tag nor one
of the names that go with the tag. It has to hold a value, for the record is
read as a whole before the tag is known. -/
def UnknownToTagged (tag : String) (names : String → List String) (fs : Fields)
    (f : String × Tree) : Prop :=
  f.2.Readable ∧ f.1 ≠ tag ∧ ∀ name, (tag, text name) ∈ fs → f.1 ∉ names name

namespace Lossless

variable {toTree : α → Tree} {ofTree? : Tree → Option α}
  {Unknown : Fields → String × Tree → Prop}

theorem of_read_back (hback : ∀ a, ofTree? (toTree a) = some a)
    (hperm : ∀ fs gs, fs.Perm gs → ofTree? (object fs) = ofTree? (object gs))
    (hunknown : ∀ fs gs f, Unknown (fs ++ gs) f →
      ofTree? (object (fs ++ f :: gs)) = ofTree? (object (fs ++ gs))) :
    Lossless toTree ofTree? Unknown where
  read_back := hback
  read_text a htext := by rw [htext, Option.bind_some, hback]
  reordered := hperm
  extended := hunknown
  settled t u hu := by
    obtain ⟨a, -, rfl⟩ := Option.map_eq_some_iff.1 hu
    rw [hback, Option.map_some]

theorem of_plain {read : Fields → Option α} {toFields : α → Fields}
    (hwrite : ∀ a, toTree a = object (toFields a)) (hof : ∀ t, ofTree? t = t.asRecord? names read)
    (hread : Reads names read) (hkeys : ∀ a, ((toFields a).map (·.1)).Nodup)
    (hback : ∀ a, read (toFields a) = some a) : Lossless toTree ofTree? (UnknownTo names) := by
  refine of_read_back (fun a => ?_) (fun fs gs hperm => ?_) fun fs gs f hf => ?_
  · rw [hof, hwrite, asRecord?, record?, if_pos (isSingle_of_nodup (hkeys a) names),
      Option.bind_some, hback]
  · rw [hof, hof]
    exact record?_congr hread (.of_perm names hperm)
  · rw [hof, hof]
    exact record?_congr hread (.of_unknown hf)

theorem of_tagged {tag : String} {names : String → List String}
    {read : String → Fields → Option α} {toFields : α → String × Fields}
    (hwrite : ∀ a, toTree a = object ((tag, text (toFields a).1) :: (toFields a).2))
    (hof : ∀ t, ofTree? t = t.asTagged? tag names read)
    (hread : ∀ name, Reads (names name) (read name))
    (hreadable : ∀ a, ∀ f ∈ (toFields a).2, f.2.Readable)
    (hkeys : ∀ a, (tag :: (toFields a).2.map (·.1)).Nodup)
    (hback : ∀ a, read (toFields a).1 (toFields a).2 = some a) :
    Lossless toTree ofTree? (UnknownToTagged tag names) := by
  refine of_read_back (fun a => ?_) (fun fs gs hperm => ?_) fun fs gs f hf => ?_
  · obtain ⟨htag, hkeys⟩ := List.nodup_cons.1 (hkeys a)
    rw [hof, hwrite, asTagged?, tagged?_cons _ (hreadable a) htag, Option.bind_some, record?,
      if_pos (isSingle_of_nodup hkeys _), Option.bind_some, hback]
  · rw [hof, hof]
    refine tagged?_congr ?_ (.of_perm [tag] hperm) fun name _ => ?_
    · simp only [readable_object, hperm.mem_iff]
    · exact record?_congr (hread name) ((Alike.of_perm (names name) hperm).erase tag)
  · obtain ⟨hreads, hne, hnames⟩ := hf
    rw [hof, hof]
    refine tagged?_congr ?_ (.of_unknown (by simpa using hne)) fun name hname => ?_
    · simp only [readable_object, List.forall_mem_append, List.forall_mem_cons, hreads, true_and]
    · have hmem : (tag, text name) ∈ fs ++ gs := by
        have hcons : (tag, text name) ≠ f := fun he => hne (by rw [← he])
        simpa [hcons] using hname
      exact record?_congr (hread name) ((Alike.of_unknown (hnames name hmem)).erase tag)

end Lossless

end ParamStore.Json
