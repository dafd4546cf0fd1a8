import CodeGraph.Json.Printer
import CodeGraph.Json.Value
import Mathlib

/-! Whole numbers and strings are read back from their spelling. -/
namespace CodeGraph.Json

theorem isDigit_of_mem_toDigits {n : Nat} {c : Char} (h : c ∈ Nat.toDigits 10 n) : c.isDigit :=
  Nat.isDigit_of_mem_toDigits (by decide) (by decide) h

theorem takeWhile_toDigits {n : Nat} {rest : List Char} (h : ∀ c ∈ rest.head?, ¬ c.isDigit) :
    (Nat.toDigits 10 n ++ rest).takeWhile Char.isDigit = Nat.toDigits 10 n := by
  rw [List.takeWhile_append_of_pos fun c hc => isDigit_of_mem_toDigits hc]
  cases rest with
  | nil => simp
  | cons c rest => rw [List.takeWhile_cons_of_neg (h c rfl), List.append_nil]

theorem dropWhile_toDigits {n : Nat} {rest : List Char} (h : ∀ c ∈ rest.head?, ¬ c.isDigit) :
    (Nat.toDigits 10 n ++ rest).dropWhile Char.isDigit = rest := by
  rw [List.dropWhile_append_of_pos fun c hc => isDigit_of_mem_toDigits hc]
  cases rest with
  | nil => rfl
  | cons c rest => rw [List.dropWhile_cons_of_neg (h c rfl)]

@[simp]
theorem takeWhile_toDigits_all (n : Nat) :
    (Nat.toDigits 10 n).takeWhile Char.isDigit = Nat.toDigits 10 n :=
  List.takeWhile_eq_self_iff.2 fun _ => isDigit_of_mem_toDigits

@[simp]
theorem dropWhile_toDigits_all (n : Nat) : (Nat.toDigits 10 n).dropWhile Char.isDigit = [] :=
  List.dropWhile_eq_nil_iff.2 fun _ => isDigit_of_mem_toDigits

/-- A number has no leading zero. -/
theorem length_toDigits_of_head? {n : Nat} (h : (Nat.toDigits 10 n).head? = some '0') :
    (Nat.toDigits 10 n).length = 1 := by
  induction n using Nat.strongRecOn with
  | ind n ih =>
    by_cases hn : n < 10
    · rw [Nat.toDigits_of_lt_base hn]
      rfl
    · rw [Nat.toDigits_of_base_le (by decide) (by omega)] at h
      have hhead : (Nat.toDigits 10 (n / 10)).head? = some '0' := by
        rwa [List.head?_append_of_ne_nil _ Nat.toDigits_ne_nil] at h
      have hlength := ih (n / 10) (by omega) hhead
      -- a single digit that is zero would make the number less than ten
      have hzero : Nat.toDigits 10 (n / 10) = ['0'] := by
        match hdigits : Nat.toDigits 10 (n / 10) with
        | [] => exact absurd hdigits Nat.toDigits_ne_nil
        | [c] =>
          rw [hdigits] at hhead
          rw [Option.some.inj hhead]
        | _ :: _ :: _ =>
          rw [hdigits] at hlength
          simp at hlength
      have hvalue : n / 10 = 0 := by
        rw [← @Nat.ofDigitChars_ten_toDigits (n / 10), hzero]
        rfl
      omega

namespace Number

theorem ofDigits_toDigits (n : Nat) : ofDigits (Nat.toDigits 10 n) = n := by
  conv_rhs => rw [← @Nat.ofDigitChars_ten_toDigits n]
  rw [Nat.ofDigitChars_eq_foldl]
  unfold ofDigits
  simp only [Nat.mul_comm]

theorem toList_toString (n : Nat) : (toString n).toList = Nat.toDigits 10 n := by
  rw [Nat.toString_eq_ofList_toDigits, String.toList_ofList]

theorem head?_toDigits_ne (n : Nat) {c : Char} (h : ¬ c.isDigit) :
    (Nat.toDigits 10 n).head? ≠ some c := by
  intro hhead
  exact h (isDigit_of_mem_toDigits (List.mem_of_head? hhead))

theorem parts_toString (n : Nat) :
    parts (toString n) = ⟨false, Nat.toDigits 10 n, [], false, false, []⟩ := by
  unfold parts
  simp [head?_toDigits_ne]

theorem parts_neg (n : Nat) :
    parts ("-" ++ toString n) = ⟨true, Nat.toDigits 10 n, [], false, false, []⟩ := by
  unfold parts
  simp

def Value.Integral : Value → Prop
  | whole n => n ≤ maxWhole
  | below n => 0 < n ∧ n ≤ 9223372036854775808
  | double _ => False

theorem integral_whole {n : Nat} (h : n ≤ maxWhole) : (Value.whole n).Integral := h

theorem value?_spelling {value : Value} (h : value.Integral) :
    value? value.spelling = some value := by
  cases value with
  | whole n =>
    have hn : n ≤ maxWhole := h
    simp only [value?, Value.spelling, parts_toString, ofDigits_toDigits, Bool.false_eq_true,
      if_false, if_pos hn]
  | below n =>
    obtain ⟨hpos, hn⟩ := h
    have hne : n ≠ 0 := by omega
    simp only [value?, Value.spelling, parts_neg, ofDigits_toDigits, Bool.false_eq_true, if_false,
      if_true, if_neg hne, if_pos hn]
  | double x => exact absurd h id

end Number

namespace Read

/-- What may follow a number. -/
def Ends (rest : List Char) : Prop :=
  ∀ c ∈ rest.head?, ¬ c.isDigit ∧ c ≠ '.' ∧ c ≠ 'e' ∧ c ≠ 'E'

theorem digits1_toDigits (n : Nat) {rest : List Char} (h : ∀ c ∈ rest.head?, ¬ c.isDigit) :
    digits1 (Nat.toDigits 10 n ++ rest) = .ok (Nat.toDigits 10 n, rest) := by
  have htake := takeWhile_toDigits (n := n) h
  have hdrop := dropWhile_toDigits (n := n) h
  match hdigits : Nat.toDigits 10 n with
  | [] => exact absurd hdigits Nat.toDigits_ne_nil
  | c :: more =>
    have hc : c.isDigit := isDigit_of_mem_toDigits (hdigits ▸ List.mem_cons_self)
    rw [hdigits] at htake hdrop
    rw [List.cons_append] at htake hdrop ⊢
    simp only [digits1, hc, if_true, htake, hdrop]

theorem not_zero_before_digits (n : Nat) :
    (decide ((Nat.toDigits 10 n).head? = some '0') && decide ((Nat.toDigits 10 n).length > 1)) =
      false := by
  rw [Bool.and_eq_false_iff, decide_eq_false_iff_not, decide_eq_false_iff_not]
  by_cases hhead : (Nat.toDigits 10 n).head? = some '0'
  · exact .inr (by rw [length_toDigits_of_head? hhead]; decide)
  · exact .inl hhead

theorem numberTail_toDigits (n : Nat) {rest : List Char} (h : Ends rest) :
    numberTail (Nat.toDigits 10 n ++ rest) = .ok (Nat.toDigits 10 n, rest) := by
  have hdigits := digits1_toDigits n fun c hc => (h c hc).1
  have hsign : ∀ more, Nat.toDigits 10 n ++ rest = '-' :: more → False := by
    intro more hmore
    have hhead := congrArg List.head? hmore
    rw [List.head?_append_of_ne_nil _ Nat.toDigits_ne_nil] at hhead
    exact Number.head?_toDigits_ne n (by decide) hhead
  simp only [numberTail, hdigits, bind, Except.bind, not_zero_before_digits]
  match rest with
  | [] => simp [pure, Except.pure]
  | c :: more =>
    obtain ⟨-, hpoint, hlower, hupper⟩ := h c rfl
    simp [pure, Except.pure, hpoint, hlower, hupper]

theorem numberTail_neg (n : Nat) {rest : List Char} (h : Ends rest) :
    numberTail ('-' :: (Nat.toDigits 10 n ++ rest)) = .ok ('-' :: Nat.toDigits 10 n, rest) := by
  have hdigits := digits1_toDigits n fun c hc => (h c hc).1
  simp only [numberTail, hdigits, bind, Except.bind, not_zero_before_digits]
  match rest with
  | [] => simp [pure, Except.pure]
  | c :: more =>
    obtain ⟨-, hpoint, hlower, hupper⟩ := h c rfl
    simp [pure, Except.pure, hpoint, hlower, hupper]

theorem hexValue?_hexDigit {n : Nat} (h : n < 16) : hexValue? (Print.hexDigit n) = some n := by
  have hall : ∀ n < 16, hexValue? (Print.hexDigit n) = some n := by decide
  exact hall n h

/-- One character of a string is read in one step, escaped or not. -/
theorem stringTail_character (c : Char) (fuel : Nat) (read rest : List Char) (paired : Bool) :
    stringTail (fuel + 1) read (Print.character c ++ rest) paired =
      stringTail fuel (c :: read) rest paired := by
  unfold Print.character
  split
  case h_8 _ hquote hbackslash _ _ _ _ _ =>
    by_cases hcontrol : c.val < 0x20
    · have hsize : c.toNat < 32 := hcontrol
      have hhigh : hexValue? (Print.hexDigit (c.toNat / 16)) = some (c.toNat / 16) :=
        hexValue?_hexDigit (by omega)
      have hlow : hexValue? (Print.hexDigit (c.toNat % 16)) = some (c.toNat % 16) :=
        hexValue?_hexDigit (by omega)
      have hzero : hexValue? '0' = some 0 := by decide
      have hvalue : ((0 * 16 + 0) * 16 + c.toNat / 16) * 16 + c.toNat % 16 = c.toNat := by omega
      rw [if_pos hcontrol]
      simp only [List.cons_append, List.nil_append, stringTail, hex4, hzero, hhigh, hlow, hvalue,
        bind, Except.bind]
      rw [if_pos (by simp; omega), Char.ofNat_toNat]
    · rw [if_neg hcontrol, List.singleton_append, stringTail.eq_def]
      dsimp only
      -- a character that is neither a quote nor a backslash stands for itself
      split
      all_goals simp_all
  all_goals rfl

/-- A string is read up to its closing quote. -/
theorem stringTail_characters (chars : List Char) {fuel : Nat} (h : chars.length < fuel)
    (read rest : List Char) (paired : Bool) :
    stringTail fuel read (chars.flatMap Print.character ++ '"' :: rest) paired =
      .ok (chars.reverse ++ read, paired, rest) := by
  induction chars generalizing fuel read with
  | nil =>
    obtain ⟨fuel, rfl⟩ := Nat.exists_eq_succ_of_ne_zero (Nat.ne_of_gt h)
    rfl
  | cons c chars ih =>
    obtain ⟨fuel, rfl⟩ := Nat.exists_eq_succ_of_ne_zero (Nat.ne_of_gt (Nat.zero_lt_of_lt h))
    rw [List.flatMap_cons, List.append_assoc, Nat.succ_eq_add_one, stringTail_character,
      ih (by simpa using h), List.reverse_cons, List.append_assoc, List.singleton_append]

theorem length_le_flatMap_character (chars : List Char) :
    chars.length ≤ (chars.flatMap Print.character).length := by
  induction chars with
  | nil => exact Nat.le_refl _
  | cons c chars ih =>
    have hc : 0 < (Print.character c).length := by
      unfold Print.character
      split
      case h_8 => split <;> exact Nat.succ_pos _
      all_goals exact Nat.succ_pos _
    rw [List.flatMap_cons, List.length_append, List.length_cons]
    omega

theorem text_quoted (string : String) (rest : List Char) :
    text (string.toList.flatMap Print.character ++ '"' :: rest) = .ok (some string, rest) := by
  unfold text
  rw [stringTail_characters _ (by
    have := length_le_flatMap_character string.toList
    simp only [List.length_append, List.length_cons]
    omega)]
  simp [bind, Except.bind, pure, Except.pure]

end Read

end CodeGraph.Json
