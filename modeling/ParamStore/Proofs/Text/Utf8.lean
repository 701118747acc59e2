import Mathlib.Algebra.Group.Nat.Defs
import Mathlib.Data.List.Basic
import ParamStore.Table.Entries

/-!
# The order of UTF-8

Texts are compared by their code points. The bytes of their UTF-8 encoding are
in the same order (`utf8_lt_iff`): a code point is written as its digits to the
base 64, the leading ones in a byte that is marked with how many follow, and
more digits go with a larger mark.
-/

namespace ParamStore

namespace Text

/-- The UTF-8 bytes of a text. -/
def utf8 (t : String) : List UInt8 := t.toUTF8.data.toList

theorem utf8_eq_flatMap (t : String) : utf8 t = t.toList.flatMap String.utf8EncodeChar := by
  rw [utf8, String.toUTF8_eq_toByteArray, ← String.utf8Encode_toList, List.utf8Encode,
    List.toList_data_toByteArray]

/-- Different texts have different bytes. -/
theorem utf8_inj {t u : String} : utf8 t = utf8 u ↔ t = u := by
  rw [utf8, utf8, Array.toList_inj, ← ByteArray.ext_iff, String.toUTF8_eq_toByteArray,
    String.toUTF8_eq_toByteArray, String.toByteArray_inj]

namespace Utf8

/-! ## Code points -/

/-- The mark of a code point's first byte, and how many bytes follow. -/
def form (v : Nat) : Nat × Nat :=
  if v ≤ 0x7f then (0, 0)
  else if v ≤ 0x7ff then (0xc0, 1)
  else if v ≤ 0xffff then (0xe0, 2)
  else (0xf0, 3)

/-- The first byte of a code point, as a number. -/
def leading (v : Nat) : Nat := (form v).1 + v / 64 ^ (form v).2

/-- The last `k` digits of a number, each as a byte that follows another. -/
def following : Nat → Nat → List UInt8
  | 0, _ => []
  | k + 1, v => UInt8.ofNat (v / 64 ^ k % 64 + 0x80) :: following k v

theorem codePoint_lt (c : Char) : c.toNat < 0x110000 := by
  obtain h | h := c.valid
  · exact Nat.lt_trans h (by decide)
  · exact h.2

theorem utf8EncodeChar_eq (c : Char) :
    String.utf8EncodeChar c =
      UInt8.ofNat (leading c.toNat) :: following (form c.toNat).2 c.toNat := by
  have hmax := codePoint_lt c
  unfold String.utf8EncodeChar leading form
  simp only [Char.toNat_val]
  split_ifs <;> simp only [following, Nat.reducePow, Nat.div_one]
  · rw [Nat.zero_add]
  all_goals rw [Nat.mod_eq_of_lt (by omega), Nat.add_comm]

theorem leading_lt {v : Nat} (hv : v < 0x110000) : leading v < 256 := by
  unfold leading form
  split_ifs <;> simp only [Nat.reducePow] <;> omega

/-- A larger code point has the same form or a larger first byte. -/
theorem form_eq_or_leading_lt {v w : Nat} (h : v < w) :
    form v = form w ∨ leading v < leading w := by
  unfold leading form
  split_ifs <;> simp only [Nat.reducePow, true_or] <;> omega

/-! ## The order of bytes -/

theorem cons_byte_lt {m n : Nat} (hn : n < 256) {xs ys : List UInt8}
    (h : m < n ∨ m = n ∧ xs < ys) : UInt8.ofNat m :: xs < UInt8.ofNat n :: ys := by
  obtain hlt | ⟨rfl, hlt⟩ := h
  · refine List.cons_lt_cons_iff.2 (.inl ?_)
    rw [UInt8.lt_iff_toNat_lt, UInt8.toNat_ofNat', UInt8.toNat_ofNat', Nat.mod_eq_of_lt hn,
      Nat.mod_eq_of_lt (Nat.lt_trans hlt hn)]
    exact hlt
  · exact List.cons_lt_cons_iff.2 (.inr ⟨rfl, hlt⟩)

/-- Where the leading digits are the same, the others decide. -/
theorem following_lt {k v w : Nat} (hlt : v < w) (heq : v / 64 ^ k = w / 64 ^ k)
    (xs ys : List UInt8) : following k v ++ xs < following k w ++ ys := by
  induction k with
  | zero => exact absurd (by simpa using heq) (Nat.ne_of_lt hlt)
  | succ k ih =>
    have hle : v / 64 ^ k ≤ w / 64 ^ k := Nat.div_le_div_right (Nat.le_of_lt hlt)
    rw [Nat.pow_succ, ← Nat.div_div_eq_div_mul, ← Nat.div_div_eq_div_mul] at heq
    refine cons_byte_lt (by omega) ?_
    by_cases hdigit : v / 64 ^ k = w / 64 ^ k
    · exact .inr ⟨by rw [hdigit], ih hdigit⟩
    · exact .inl (by omega)

theorem utf8EncodeChar_lt {c d : Char} (h : c < d) (xs ys : List UInt8) :
    String.utf8EncodeChar c ++ xs < String.utf8EncodeChar d ++ ys := by
  have hlt : c.toNat < d.toNat := h
  rw [utf8EncodeChar_eq, utf8EncodeChar_eq]
  refine cons_byte_lt (leading_lt (codePoint_lt d)) ?_
  obtain hform | hleading := form_eq_or_leading_lt hlt
  · have hle : leading c.toNat ≤ leading d.toNat := by
      unfold leading
      rw [hform]
      exact Nat.add_le_add_left (Nat.div_le_div_right (Nat.le_of_lt hlt)) _
    obtain hless | hsame := Nat.lt_or_eq_of_le hle
    · exact .inl hless
    · refine .inr ⟨hsame, ?_⟩
      unfold leading at hsame
      rw [hform] at hsame ⊢
      exact following_lt hlt (Nat.add_left_cancel hsame) xs ys
  · exact .inl hleading

theorem flatMap_utf8EncodeChar_lt {cs ds : List Char} (h : cs < ds) :
    cs.flatMap String.utf8EncodeChar < ds.flatMap String.utf8EncodeChar := by
  induction cs generalizing ds with
  | nil =>
    cases ds with
    | nil => exact absurd h (List.lt_irrefl _)
    | cons d ds =>
      rw [List.flatMap_nil, List.flatMap_cons, utf8EncodeChar_eq]
      exact List.nil_lt_cons _ _
  | cons c cs ih =>
    cases ds with
    | nil => cases h
    | cons d ds =>
      rw [List.flatMap_cons, List.flatMap_cons]
      obtain hlt | ⟨rfl, hlt⟩ := List.cons_lt_cons_iff.1 h
      · exact utf8EncodeChar_lt hlt _ _
      · exact List.append_left_lt (ih hlt)

end Utf8

/-- Texts are in the order of their bytes. -/
theorem utf8_lt_iff {t u : String} : utf8 t < utf8 u ↔ t < u := by
  have hbytes {t u : String} (h : t < u) : utf8 t < utf8 u := by
    rw [utf8_eq_flatMap, utf8_eq_flatMap]
    exact Utf8.flatMap_utf8EncodeChar_lt h
  refine ⟨fun h => ?_, hbytes⟩
  by_contra hnot
  by_cases hlt : u < t
  · exact List.lt_asymm h (hbytes hlt)
  · exact List.lt_irrefl _ (StrictOrder.connected hnot hlt ▸ h)

end Text

end ParamStore
