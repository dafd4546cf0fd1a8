import CodeGraph.Proofs.Text.Byte
import CodeGraph.Text.Percent

/-! Escapes in texts. A text stands for its own bytes exactly if it holds no escape, and escaping
more of its characters does not change what it stands for. -/
namespace CodeGraph.Text.Percent

open Json.Read (hexValue?)

def isHex (c : Char) : Bool := (hexValue? c).isSome

def beginsEscape : List Char → Bool
  | '%' :: a :: b :: _ => isHex a && isHex b
  | _ => false

def hasEscape : List Char → Bool
  | [] => false
  | c :: rest => beginsEscape (c :: rest) || hasEscape rest

def bytes (text : List Char) : List UInt8 := text.flatMap String.utf8EncodeChar

variable {a b c : Char} {text rest : List Char} {set : Char → Bool}

theorem bytes_append (text rest : List Char) : bytes (text ++ rest) = bytes text ++ bytes rest :=
  List.flatMap_append

theorem bytes_ne_nil (h : text ≠ []) : bytes text ≠ [] := by
  obtain ⟨c, rest, rfl⟩ := List.exists_cons_of_ne_nil h
  exact List.append_ne_nil_of_left_ne_nil (utf8EncodeChar_ne_nil c) _

theorem bytes_inj {text other : List Char} : bytes text = bytes other ↔ text = other := by
  have hbytes : ∀ text, bytes text = (String.ofList text).toUTF8.toList := by
    intro text
    rw [toList_toUTF8, String.toList_ofList]
    rfl
  rw [hbytes, hbytes, toUTF8_toList_inj, ← String.toList_inj, String.toList_ofList,
    String.toList_ofList]

theorem toUTF8_toString (c : Char) : c.toString.toUTF8.toList = String.utf8EncodeChar c := by
  rw [toList_toUTF8]
  simp

theorem beginsEscape_of_ne (h : c ≠ '%') (rest : List Char) : beginsEscape (c :: rest) = false := by
  unfold beginsEscape
  split
  · next heq => exact absurd (List.cons.inj heq).1 h
  · rfl

theorem hasEscape_of_not_mem (h : '%' ∉ text) : hasEscape text = false := by
  induction text with
  | nil => rfl
  | cons c text ih =>
    have hc : c ≠ '%' := fun heq => h (heq ▸ List.mem_cons_self)
    rw [hasEscape, beginsEscape_of_ne hc, ih fun hmem => h (List.mem_cons_of_mem _ hmem)]
    rfl

theorem decode_escaped (h : beginsEscape ('%' :: a :: b :: rest) = true) :
    ∃ byte, ∀ more, decode ('%' :: a :: b :: more) = byte :: decode more := by
  rw [beginsEscape, Bool.and_eq_true] at h
  obtain ⟨m, hm⟩ := Option.isSome_iff_exists.1 h.1
  obtain ⟨n, hn⟩ := Option.isSome_iff_exists.1 h.2
  refine ⟨UInt8.ofNat (m * 16 + n), fun more => ?_⟩
  rw [decode, hm, hn]

theorem decode_plain (h : beginsEscape (c :: rest) = false) :
    decode (c :: rest) = String.utf8EncodeChar c ++ decode rest := by
  by_cases hsign : ∃ a b more, c = '%' ∧ rest = a :: b :: more
  · obtain ⟨a, b, more, rfl, rfl⟩ := hsign
    have hbytes : String.utf8EncodeChar '%' = ['%'.toUInt8] := by decide
    rw [beginsEscape, Bool.and_eq_false_iff, isHex, isHex, Option.isSome_eq_false_iff,
      Option.isSome_eq_false_iff, Option.isNone_iff_eq_none, Option.isNone_iff_eq_none] at h
    rw [decode, hbytes]
    split
    · next ha hb => simp [ha, hb] at h
    · rfl
  · rw [decode, toUTF8_toString]
    exact fun a b more hc hrest => hsign ⟨a, b, more, hc, hrest⟩

/-- A text is read escape by escape, and character by character where no escape begins. -/
@[elab_as_elim]
theorem induction_escapes {motive : List Char → Prop} (nil : motive [])
    (escape : ∀ a b rest, beginsEscape ('%' :: a :: b :: rest) = true → motive rest →
      motive ('%' :: a :: b :: rest))
    (plain : ∀ c rest, beginsEscape (c :: rest) = false → motive rest → motive (c :: rest))
    (text : List Char) : motive text :=
  match text with
  | [] => nil
  | c :: rest => by
    cases hescape : beginsEscape (c :: rest) with
    | false => exact plain c rest hescape (induction_escapes nil escape plain rest)
    | true =>
      unfold beginsEscape at hescape
      split at hescape
      · next a b more heq =>
        obtain ⟨rfl, rfl⟩ := List.cons.inj heq
        exact escape a b more hescape (induction_escapes nil escape plain more)
      · cases hescape
termination_by text.length

theorem decode_ne_nil (h : text ≠ []) : decode text ≠ [] := by
  induction text using induction_escapes with
  | nil => exact absurd rfl h
  | escape a b rest hescape _ =>
    obtain ⟨byte, hbyte⟩ := decode_escaped hescape
    rw [hbyte]
    exact List.cons_ne_nil _ _
  | plain c rest hplain _ =>
    rw [decode_plain hplain]
    exact List.append_ne_nil_of_left_ne_nil (utf8EncodeChar_ne_nil c) _

theorem decode_of_not_hasEscape (h : hasEscape text = false) : decode text = bytes text := by
  induction text with
  | nil => rfl
  | cons c rest ih =>
    rw [hasEscape, Bool.or_eq_false_iff] at h
    rw [decode_plain h.1, ih h.2]
    rfl

/-- Each escape makes a text stand for fewer bytes than it has. -/
theorem length_decode (text : List Char) : (decode text).length ≤ (bytes text).length ∧
    (hasEscape text = true → (decode text).length < (bytes text).length) := by
  have hpos : ∀ c, 0 < (String.utf8EncodeChar c).length := fun c =>
    List.length_pos_iff.2 (utf8EncodeChar_ne_nil c)
  induction text using induction_escapes with
  | nil => exact ⟨le_refl _, fun h => nomatch h⟩
  | escape a b rest hescape ih =>
    obtain ⟨byte, hbyte⟩ := decode_escaped hescape
    have hsign := hpos '%'
    have ha := hpos a
    have hb := hpos b
    rw [hbyte]
    simp only [bytes, List.flatMap_cons, List.length_append, List.length_cons] at ih ⊢
    omega
  | plain c rest hplain ih =>
    rw [decode_plain hplain, hasEscape, hplain, Bool.false_or]
    simp only [bytes, List.flatMap_cons, List.length_append] at ih ⊢
    exact ⟨by omega, fun h => by have := ih.2 h; omega⟩

theorem beginsEscape_append_slash (c : Char) (text rest : List Char) :
    beginsEscape (c :: (text ++ '/' :: rest)) = beginsEscape (c :: text) := by
  by_cases hc : c = '%'
  · subst hc
    match text, rest with
    | [], [] => rfl
    | [], d :: rest => rfl
    | [a], rest => exact Bool.and_false _
    | a :: b :: text, rest => rfl
  · rw [beginsEscape_of_ne hc, beginsEscape_of_ne hc]

theorem decode_slash (rest : List Char) : decode ('/' :: rest) = '/'.toUInt8 :: decode rest := by
  have hbytes : String.utf8EncodeChar '/' = ['/'.toUInt8] := by decide
  rw [decode_plain (beginsEscape_of_ne (by decide) rest), hbytes]
  rfl

theorem decode_append_slash (text rest : List Char) :
    decode (text ++ '/' :: rest) = decode text ++ '/'.toUInt8 :: decode rest := by
  induction text using induction_escapes with
  | nil => exact decode_slash rest
  | escape a b text hescape ih =>
    obtain ⟨byte, hbyte⟩ := decode_escaped hescape
    have happend := hbyte (text ++ '/' :: rest)
    rw [ih] at happend
    rw [hbyte]
    exact happend
  | plain c text hplain ih =>
    have happend := hplain
    rw [← beginsEscape_append_slash c text rest] at happend
    rw [List.cons_append, decode_plain happend, ih, decode_plain hplain, List.append_assoc]

theorem hasEscape_append_slash (text rest : List Char) :
    hasEscape (text ++ '/' :: rest) = (hasEscape text || hasEscape rest) := by
  induction text with
  | nil =>
    have hslash : beginsEscape ('/' :: rest) = false := beginsEscape_of_ne (by decide) rest
    exact congrArg (· || hasEscape rest) hslash
  | cons c text ih =>
    rw [List.cons_append, hasEscape, hasEscape, ih, beginsEscape_append_slash, Bool.or_assoc]

theorem isHex_hexDigit {n : Nat} (h : n < 16) : hexValue? (hexDigit n) = some n := by
  have hall : ∀ n < 16, hexValue? (hexDigit n) = some n := by decide
  exact hall n h

theorem decode_escape_append (byte : UInt8) (rest : List Char) :
    decode (escape byte ++ rest) = byte :: decode rest := by
  have hbound := byte.toNat_lt
  have hhigh := @isHex_hexDigit (byte.toNat / 16) (by omega)
  have hlow := @isHex_hexDigit (byte.toNat % 16) (by omega)
  rw [escape]
  simp only [List.cons_append, List.nil_append]
  rw [decode, hhigh, hlow]
  dsimp only
  rw [Nat.div_add_mod', UInt8.ofNat_toNat]

theorem decode_flatMap_escape (list : List UInt8) (rest : List Char) :
    decode (list.flatMap escape ++ rest) = list ++ decode rest := by
  induction list with
  | nil => rfl
  | cons byte list ih =>
    rw [List.flatMap_cons, List.append_assoc, decode_escape_append, ih, List.cons_append]

theorem encode_cons (set : Char → Bool) (c : Char) (rest : List Char) :
    encode set (c :: rest) =
      (if isAlwaysEscaped c || set c then (String.utf8EncodeChar c).flatMap escape else [c]) ++
        encode set rest := by
  rw [encode, List.flatMap_cons, toUTF8_toString]
  rfl

theorem mem_of_isHex (h : isHex c = true) : c ∈ "0123456789abcdefABCDEF".toList := by
  have hcode : (48 ≤ c.toNat ∧ c.toNat ≤ 57) ∨ (97 ≤ c.toNat ∧ c.toNat ≤ 102) ∨
      (65 ≤ c.toNat ∧ c.toNat ≤ 70) := by
    unfold isHex hexValue? at h
    split_ifs at h with hdigit hlower hupper
    · rw [Char.isDigit, Bool.and_eq_true, decide_eq_true_iff, decide_eq_true_iff] at hdigit
      exact .inl hdigit
    · rw [Bool.and_eq_true, decide_eq_true_iff, decide_eq_true_iff] at hlower
      exact .inr (.inl hlower)
    · rw [Bool.and_eq_true, decide_eq_true_iff, decide_eq_true_iff] at hupper
      exact .inr (.inr hupper)
    · cases h
  rw [← Char.ofNat_toNat c]
  generalize c.toNat = n at hcode
  rcases hcode with ⟨hle, hge⟩ | ⟨hle, hge⟩ | ⟨hle, hge⟩ <;> interval_cases n <;> decide

/-- Whether a set leaves what escapes are written with as it is. -/
def Spares (set : Char → Bool) : Prop :=
  ∀ c, c = '%' ∨ isHex c = true → (isAlwaysEscaped c || set c) = false

theorem Spares.encode_eq (hset : Spares set) (hc : c = '%' ∨ isHex c = true) (rest : List Char) :
    encode set (c :: rest) = c :: encode set rest := by
  rw [encode_cons, hset c hc]
  rfl

theorem exists_encode_of_not_isHex (set : Char → Bool) (hc : isHex c = false) (rest : List Char) :
    ∃ d more, encode set (c :: rest) = d :: more ∧ isHex d = false := by
  rw [encode_cons]
  split_ifs
  · obtain ⟨byte, list, hlist⟩ := List.exists_cons_of_ne_nil (utf8EncodeChar_ne_nil c)
    rw [hlist]
    exact ⟨'%', _, rfl, by decide⟩
  · exact ⟨c, _, rfl, hc⟩

theorem beginsEscape_of_not_isHex (ha : isHex a = false) (rest : List Char) :
    beginsEscape ('%' :: a :: rest) = false := by
  cases rest with
  | nil => rfl
  | cons b rest => rw [beginsEscape, ha, Bool.false_and]

theorem beginsEscape_encode (hset : Spares set) (c : Char) (rest : List Char) :
    beginsEscape (c :: encode set rest) = beginsEscape (c :: rest) := by
  by_cases hc : c = '%'
  · subst hc
    match rest with
    | [] => rfl
    | a :: rest =>
      cases ha : isHex a with
      | false =>
        obtain ⟨d, more, hencode, hd⟩ := exists_encode_of_not_isHex set ha rest
        rw [hencode, beginsEscape_of_not_isHex ha, beginsEscape_of_not_isHex hd]
      | true =>
        rw [hset.encode_eq (.inr ha)]
        match rest with
        | [] => rfl
        | b :: rest =>
          cases hb : isHex b with
          | false =>
            obtain ⟨d, more, hencode, hd⟩ := exists_encode_of_not_isHex set hb rest
            rw [hencode, beginsEscape, beginsEscape, hb, hd]
          | true =>
            rw [hset.encode_eq (.inr hb)]
            rfl
  · rw [beginsEscape_of_ne hc, beginsEscape_of_ne hc]

/-- What a text stands for does not change when more of its characters are escaped. -/
theorem decode_encode (hset : Spares set) (text : List Char) :
    decode (encode set text) = decode text := by
  induction text using induction_escapes with
  | nil => rfl
  | escape a b rest hescape ih =>
    obtain ⟨byte, hbyte⟩ := decode_escaped hescape
    rw [beginsEscape, Bool.and_eq_true] at hescape
    rw [hset.encode_eq (.inl rfl), hset.encode_eq (.inr hescape.1),
      hset.encode_eq (.inr hescape.2), hbyte, hbyte, ih]
  | plain c rest hplain ih =>
    rw [encode_cons, decode_plain hplain]
    split_ifs
    · rw [decode_flatMap_escape, ih]
    · rw [List.singleton_append, decode_plain (by rwa [beginsEscape_encode hset]), ih]

end CodeGraph.Text.Percent
