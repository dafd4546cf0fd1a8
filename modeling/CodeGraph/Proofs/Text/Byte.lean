import Mathlib

/-! The bytes of a text. They are those of its characters, one after the other, and texts are ordered
as their bytes are. -/
namespace CodeGraph.Text

theorem toList_loop (bytes : ByteArray) (start : Nat) (read : List UInt8) :
    ByteArray.toList.loop bytes start read = read.reverse ++ bytes.data.toList.drop start := by
  fun_induction ByteArray.toList.loop bytes start read with
  | case1 start read hstart ih =>
    have hlength : start < bytes.data.toList.length := by simpa using hstart
    rw [ih, List.drop_eq_getElem_cons hlength]
    simp [ByteArray.get!, hstart]
  | case2 start read hstart =>
    have hlength : bytes.data.toList.length ≤ start := by simpa using Nat.le_of_not_lt hstart
    rw [List.drop_eq_nil_of_le hlength, List.append_nil]

theorem toList_eq_data (bytes : ByteArray) : bytes.toList = bytes.data.toList := by
  rw [ByteArray.toList, toList_loop]
  rfl

theorem toList_toUTF8 (text : String) :
    text.toUTF8.toList = text.toList.flatMap String.utf8EncodeChar := by
  have hbytes : text.toUTF8 = (text.toList.flatMap String.utf8EncodeChar).toByteArray := by
    conv_lhs => rw [← String.ofList_toList (s := text)]
    exact String.toByteArray_ofList
  rw [hbytes, toList_eq_data, List.toList_data_toByteArray]

theorem toUTF8_toList_inj {text other : String} :
    text.toUTF8.toList = other.toUTF8.toList ↔ text = other := by
  refine ⟨fun h => ?_, fun h => by rw [h]⟩
  rw [toList_eq_data, toList_eq_data, Array.toList_inj] at h
  exact String.toByteArray_inj.1 (ByteArray.ext h)

/-- The bytes of the lesser one of two characters come first, whatever follows them. -/
theorem utf8EncodeChar_append_lt {c d : Char} (h : c < d) (rest more : List UInt8) :
    String.utf8EncodeChar c ++ rest < String.utf8EncodeChar d ++ more := by
  have hcode : c.val.toNat < d.val.toNat := h
  have hbound : d.val.toNat < 1114112 := by
    rcases d.valid with hlow | hhigh
    · exact Nat.lt_trans hlow (by decide)
    · exact hhigh.2
  -- no byte is cut off, and the digits are those to the base 64
  have hlast (n : Nat) : (n % 64 + 128) % 256 = n % 64 + 128 := by omega
  have htwo (n : Nat) : (n % 32 + 192) % 256 = n % 32 + 192 := by omega
  have hthree (n : Nat) : (n % 16 + 224) % 256 = n % 16 + 224 := by omega
  have hfour (n : Nat) : (n % 8 + 240) % 256 = n % 8 + 240 := by omega
  have hsecond (n : Nat) : n / 4096 = n / 64 / 64 := by omega
  have hthird (n : Nat) : n / 262144 = n / 64 / 64 / 64 := by omega
  unfold String.utf8EncodeChar
  dsimp only
  split_ifs <;>
  simp only [List.cons_append, List.nil_append, List.cons_lt_cons_iff, UInt8.lt_iff_toNat_lt,
    ← UInt8.toNat_inj, UInt8.toNat_ofNat', Nat.reducePow, hlast, htwo, hthree, hfour, hsecond,
    hthird] <;>
  omega

theorem utf8EncodeChar_ne_nil (c : Char) : String.utf8EncodeChar c ≠ [] := by
  unfold String.utf8EncodeChar
  dsimp only
  split_ifs <;> exact List.cons_ne_nil _ _

theorem flatMap_utf8EncodeChar_lt {text other : List Char} (h : text < other) :
    text.flatMap String.utf8EncodeChar < other.flatMap String.utf8EncodeChar := by
  induction text generalizing other with
  | nil =>
    cases other with
    | nil => exact absurd h (List.lt_irrefl [])
    | cons d other =>
      obtain ⟨first, rest, hbytes⟩ := List.exists_cons_of_ne_nil
        (List.append_ne_nil_of_left_ne_nil (utf8EncodeChar_ne_nil d)
          (other.flatMap String.utf8EncodeChar))
      rw [List.flatMap_cons, hbytes]
      exact List.nil_lt_cons first rest
  | cons c text ih =>
    cases other with
    | nil => exact absurd h (List.not_lt_nil _)
    | cons d other =>
      rw [List.flatMap_cons, List.flatMap_cons]
      rcases List.cons_lt_cons_iff.1 h with hlt | ⟨rfl, hlt⟩
      · exact utf8EncodeChar_append_lt hlt _ _
      · exact List.append_left_lt (ih hlt)

/-- Texts are ordered as their bytes are. -/
theorem toUTF8_le_iff {text other : String} :
    text.toUTF8.toList ≤ other.toUTF8.toList ↔ text ≤ other := by
  have hlt {text other : String} (h : text < other) :
      text.toUTF8.toList < other.toUTF8.toList := by
    rw [toList_toUTF8, toList_toUTF8]
    exact flatMap_utf8EncodeChar_lt (String.lt_iff_toList_lt.1 h)
  constructor
  · intro hbytes
    by_contra hle
    exact hbytes (hlt (not_le.1 hle))
  · intro hle hbytes
    rcases hle.lt_or_eq with hless | rfl
    · exact List.lt_asymm (hlt hless) hbytes
    · exact List.lt_irrefl _ hbytes

end CodeGraph.Text
