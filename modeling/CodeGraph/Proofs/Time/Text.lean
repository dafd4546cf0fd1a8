import CodeGraph.Proofs.Json.Token
import CodeGraph.Proofs.Time.Calendar

/-! A moment is read back from its text. -/
namespace CodeGraph

namespace Time

/-- A moment in the range of years that can be written. Only the last second of a minute may be a
leap second. -/
structure Valid (time : Time) : Prop where
  first : daysFromDate firstYear 1 1 * 86400 ≤ time.seconds
  last : time.seconds < daysFromDate (lastYear + 1) 1 1 * 86400
  nanos : time.nanos < 2000000000
  leap : 1000000000 ≤ time.nanos → time.seconds % 60 = 59

theorem toList_padded (width n : Nat) : (padded width n).toList =
    List.replicate (width - (Nat.toDigits 10 n).length) '0' ++ Nat.toDigits 10 n := by
  unfold padded
  rw [Json.Number.toList_toString, String.toList_ofList]

theorem isDigit_of_mem_padded {width n : Nat} {c : Char} (h : c ∈ (padded width n).toList) :
    c.isDigit := by
  rw [toList_padded] at h
  rcases List.mem_append.1 h with h | h
  · rw [List.eq_of_mem_replicate h]
    decide
  · exact Json.isDigit_of_mem_toDigits h

theorem length_padded {n : Nat} (width : Nat) (hpos : 0 < width) (h : n < 10 ^ width) :
    (padded width n).toList.length = width := by
  have hlength := (Nat.length_toDigits_le_iff (by decide) hpos).2 h
  rw [toList_padded, List.length_append, List.length_replicate]
  omega

theorem padded_ne_nil (width n : Nat) : (padded width n).toList ≠ [] := by
  rw [toList_padded]
  exact List.append_ne_nil_of_right_ne_nil _ Nat.toDigits_ne_nil

/-- Decimal digits stand for the same number here and there. -/
theorem ofDigits_eq {digits : List Char} (h : ∀ c ∈ digits, c.isDigit) :
    Toml.Read.ofDigits 10 digits = Nat.ofDigitChars 10 digits 0 := by
  rw [Nat.ofDigitChars_eq_foldl]
  refine List.foldl_ext _ _ _ fun n c hc => ?_
  have hvalue : Json.Read.hexValue? c = some (c.toNat - '0'.toNat) := by
    unfold Json.Read.hexValue?
    rw [if_pos (h c hc)]
  rw [hvalue, Option.getD_some, Nat.mul_comm]

theorem ofDigits_padded (width n : Nat) : Toml.Read.ofDigits 10 (padded width n).toList = n := by
  rw [ofDigits_eq fun c => isDigit_of_mem_padded, toList_padded, Nat.ofDigitChars_append,
    Nat.ofDigitChars_replicate_zero, Nat.mul_zero, Nat.ofDigitChars_ten_toDigits]

namespace Read

theorem not_isBlank_of_isDigit {c : Char} (h : c.isDigit) : ¬ Text.isBlank c := by
  intro hblank
  simp only [Char.isDigit, Text.isBlank, Bool.or_eq_true, Bool.and_eq_true, decide_eq_true_eq,
    beq_iff_eq, ge_iff_le, UInt32.le_iff_toNat_le, ← UInt32.toNat_inj, UInt32.reduceToNat]
    at h hblank
  have hzero : '0'.val.toNat = 48 := rfl
  have hnine : '9'.val.toNat = 57 := rfl
  omega

theorem padded_append_ne (width n : Nat) {c : Char} (h : ¬ c.isDigit) (rest more : List Char) :
    (padded width n).toList ++ rest ≠ c :: more := by
  intro heq
  match hdigits : (padded width n).toList with
  | [] => exact padded_ne_nil width n hdigits
  | d :: tail =>
    have hd : d.isDigit := isDigit_of_mem_padded (hdigits ▸ List.mem_cons_self)
    rw [hdigits] at heq
    exact h ((List.cons.inj heq).1 ▸ hd)

theorem dropBlanks_padded (width n : Nat) (rest : List Char) :
    Text.dropBlanks ((padded width n).toList ++ rest) = (padded width n).toList ++ rest := by
  match hdigits : (padded width n).toList with
  | [] => exact absurd hdigits (padded_ne_nil width n)
  | c :: more =>
    have hc : c.isDigit := isDigit_of_mem_padded (hdigits ▸ List.mem_cons_self)
    exact List.dropWhile_cons_of_neg (not_isBlank_of_isDigit hc)

/-- A padded number is read up to the limit, or to its end where no digit follows. -/
theorem number_padded {width limit n : Nat} {rest : List Char}
    (h : (padded width n).toList.length ≤ limit)
    (hrest : (padded width n).toList.length = limit ∨ ∀ c ∈ rest.head?, ¬ c.isDigit) :
    number limit ((padded width n).toList ++ rest) = some (n, rest) := by
  have hafter : (rest.take (limit - (padded width n).toList.length)).takeWhile Char.isDigit = [] := by
    rcases hrest with hfull | hrest
    · rw [hfull, Nat.sub_self, List.take_zero, List.takeWhile_nil]
    · cases hcut : rest.take (limit - (padded width n).toList.length) with
      | nil => rfl
      | cons c more =>
        obtain ⟨tail, htail⟩ := List.take_prefix (limit - (padded width n).toList.length) rest
        rw [hcut] at htail
        exact List.takeWhile_cons_of_neg (hrest c (by rw [← htail]; rfl))
  have htake : (((padded width n).toList ++ rest).take limit).takeWhile Char.isDigit =
      (padded width n).toList := by
    rw [List.take_append, List.take_of_length_le h,
      List.takeWhile_append_of_pos fun c => isDigit_of_mem_padded, hafter, List.append_nil]
  unfold number
  rw [htake]
  dsimp only
  rw [ofDigits_padded, List.drop_left' rfl, if_neg (by simpa using padded_ne_nil width n)]

/-- A number of two digits. -/
theorem field_padded {least greatest n : Nat} (hleast : least ≤ n) (hgreatest : n ≤ greatest)
    (h : n < 100) (rest : List Char) :
    field least greatest ((padded 2 n).toList ++ rest) = some (n, rest) := by
  have hlength := length_padded 2 (by decide) h
  unfold field
  rw [dropBlanks_padded, number_padded hlength.le (.inl hlength)]
  exact if_pos ⟨hleast, hgreatest⟩

theorem mark_cons {c : Char} (h : ¬ Text.isBlank c) (rest : List Char) :
    mark c (c :: rest) = some rest := by
  unfold mark Text.dropBlanks
  rw [List.dropWhile_cons_of_neg h]
  exact if_pos rfl

theorem year_minus (input : List Char) : year ('-' :: input) =
    (number input.length input).map fun found => (-(found.1 : Int), found.2) := by
  have hblanks : Text.dropBlanks ('-' :: input) = '-' :: input :=
    List.dropWhile_cons_of_neg (by decide)
  unfold year
  rw [hblanks]
  rfl

theorem year_plus (input : List Char) : year ('+' :: input) =
    (number input.length input).map fun found => ((found.1 : Int), found.2) := by
  have hblanks : Text.dropBlanks ('+' :: input) = '+' :: input :=
    List.dropWhile_cons_of_neg (by decide)
  unfold year
  rw [hblanks]
  rfl

theorem year_padded (n : Nat) (h : n < 10000) (rest : List Char) :
    year ((padded 4 n).toList ++ rest) = some ((n : Int), rest) := by
  have hlength := length_padded 4 (by decide) h
  unfold year
  rw [dropBlanks_padded]
  split
  · exact absurd ‹_› (padded_append_ne _ _ (by decide) _ _)
  · exact absurd ‹_› (padded_append_ne _ _ (by decide) _ _)
  · rw [number_padded hlength.le (.inl hlength)]
    rfl

/-- Years of four digits have no sign, and the others have one. -/
theorem year_yearText (n : Int) {c : Char} (h : ¬ c.isDigit) (rest : List Char) :
    year ((yearText n).toList ++ c :: rest) = some (n, c :: rest) := by
  have hread : ∀ size : Nat, number ((padded 4 size).toList ++ c :: rest).length
      ((padded 4 size).toList ++ c :: rest) = some (size, c :: rest) := by
    intro size
    refine number_padded (by simp) (.inr fun d hd => ?_)
    rwa [← Option.some.inj hd]
  unfold yearText
  split_ifs with hplain hnegative
  · rw [year_padded n.toNat (by omega), Int.toNat_of_nonneg hplain.1]
  · have hminus : ("-" ++ padded 4 n.natAbs).toList ++ c :: rest =
        '-' :: ((padded 4 n.natAbs).toList ++ c :: rest) := by simp
    have hsize : -(n.natAbs : Int) = n := by omega
    rw [hminus, year_minus, hread, Option.map_some, hsize]
  · have hplus : ("+" ++ padded 4 n.natAbs).toList ++ c :: rest =
        '+' :: ((padded 4 n.natAbs).toList ++ c :: rest) := by simp
    have hsize : (n.natAbs : Int) = n := by omega
    rw [hplus, year_plus, hread, Option.map_some, hsize]

theorem fraction_padded {width n : Nat} (hpos : 0 < width) (hwidth : width ≤ 9)
    (h : n < 10 ^ width) {c : Char} (hc : ¬ c.isDigit) (rest : List Char) :
    fraction (("." ++ padded width n).toList ++ c :: rest) =
      some (n * 10 ^ (9 - width), c :: rest) := by
  have hlength := length_padded width hpos h
  have hpoint : ("." ++ padded width n).toList ++ c :: rest =
      '.' :: ((padded width n).toList ++ c :: rest) := by simp
  have hread : number 9 ((padded width n).toList ++ c :: rest) = some (n, c :: rest) :=
    number_padded (hlength.trans_le hwidth) (.inr fun d hd => by rwa [← Option.some.inj hd])
  have hused : ((padded width n).toList ++ c :: rest).length - (c :: rest).length = width := by
    rw [List.length_append, Nat.add_sub_cancel, hlength]
  rw [hpoint, fraction, hread]
  dsimp only [Option.bind_eq_bind, Option.bind_some]
  rw [hused, List.dropWhile_cons_of_neg hc]
  rfl

/-- The fraction of a second. -/
theorem fraction_fractionText {nanos : Nat} (h : nanos < 1000000000) {c : Char} (hc : ¬ c.isDigit)
    (hpoint : c ≠ '.') (rest : List Char) :
    fraction ((fractionText nanos).toList ++ c :: rest) = some (nanos, c :: rest) := by
  unfold fractionText
  split_ifs with hzero hmilli hmicro
  · rw [hzero, String.toList_empty, List.nil_append]
    unfold fraction
    split
    · exact absurd (List.cons.inj ‹_›).1 hpoint
    · rfl
  · have hsize : nanos / 1000000 * 10 ^ (9 - 3) = nanos := by omega
    rw [fraction_padded (by decide) (by decide) (by omega) hc, hsize]
  · have hsize : nanos / 1000 * 10 ^ (9 - 6) = nanos := by omega
    rw [fraction_padded (by decide) (by decide) (by omega) hc, hsize]
  · have hsize : nanos * 10 ^ (9 - 9) = nanos := by omega
    rw [fraction_padded (by decide) (by decide) (by omega) hc, hsize]

/-- The parts of a moment are read in their order. -/
theorem moment_parts {date : Int} {month day second nanos : Nat} (hour minute : Nat)
    (hdate : IsDate date month day) (hfirst : firstYear ≤ date) (hlast : date ≤ lastYear)
    (hhour : hour ≤ 23) (hminute : minute ≤ 59) (hsecond : second ≤ 60) (hnanos : nanos < 1000000000)
    {seconds : Int} (hseconds : seconds = daysFromDate date month day * 86400 + hour * 3600 +
      minute * 60 + (second - (second / 60 : Nat)))
    (hlow : daysFromDate firstYear 1 1 * 86400 ≤ seconds)
    (hhigh : seconds < daysFromDate (lastYear + 1) 1 1 * 86400) :
    moment ((yearText date).toList ++ '-' :: ((padded 2 month).toList ++ '-' ::
      ((padded 2 day).toList ++ 'T' :: ((padded 2 hour).toList ++ ':' :: ((padded 2 minute).toList ++
        ':' :: ((padded 2 second).toList ++ ((fractionText nanos).toList ++ ['Z']))))))) =
      some (⟨seconds, nanos + second / 60 * 1000000000⟩, []) := by
  have hmonth := field_padded hdate.month_pos hdate.month_le (by have := hdate.month_le; omega)
  have hdays : day ≤ 31 := hdate.day_le.trans (by unfold Toml.Read.daysOf; split_ifs <;> omega)
  have hday := field_padded hdate.day_pos hdays (by omega)
  have hhour := field_padded (Nat.zero_le hour) hhour (by omega)
  have hminute := field_padded (Nat.zero_le minute) hminute (by omega)
  have hsecond := field_padded (Nat.zero_le second) hsecond (by omega)
  have hfraction := fraction_fractionText hnanos (c := 'Z') (by decide) (by decide) []
  have hzone : zone (Text.dropBlanks ['Z']) = some (0, []) := by decide
  unfold moment
  refine Option.bind_eq_some_iff.2 ⟨_, year_yearText date (by decide) _, ?_⟩
  refine Option.bind_eq_some_iff.2 ⟨_, mark_cons (by decide) _, ?_⟩
  refine Option.bind_eq_some_iff.2 ⟨_, hmonth _, ?_⟩
  refine Option.bind_eq_some_iff.2 ⟨_, mark_cons (by decide) _, ?_⟩
  refine Option.bind_eq_some_iff.2 ⟨_, hday _, ?_⟩
  simp -zeta -zetaHave only [or_true, true_or, if_true, Option.bind_eq_bind, Option.bind_some]
  refine Option.bind_eq_some_iff.2 ⟨_, hhour _, ?_⟩
  refine Option.bind_eq_some_iff.2 ⟨_, mark_cons (by decide) _, ?_⟩
  refine Option.bind_eq_some_iff.2 ⟨_, hminute _, ?_⟩
  refine Option.bind_eq_some_iff.2 ⟨_, mark_cons (by decide) _, ?_⟩
  refine Option.bind_eq_some_iff.2 ⟨_, hsecond _, ?_⟩
  refine Option.bind_eq_some_iff.2 ⟨_, hfraction, ?_⟩
  refine Option.bind_eq_some_iff.2 ⟨_, hzone, ?_⟩
  have hyears : ¬ (date < firstYear ∨ lastYear < date) := by omega
  have hlength : ¬ Toml.Read.daysOf (date % 400).toNat month < day := Nat.not_lt.2 hdate.day_le
  have hahead : ¬ ((0 : Int) ≤ -86400 ∨ 86400 ≤ (0 : Int)) := by decide
  simp only [if_neg hyears, if_neg hlength, if_neg hahead, Int.sub_zero, ← hseconds,
    if_neg (Int.not_lt.2 hlow), if_neg (Int.not_le.2 hhigh)]

theorem moment_toText {time : Time} (h : time.Valid) : moment time.toText.toList = some (time, []) := by
  have hfdiv : time.seconds.fdiv 86400 = time.seconds / 86400 :=
    Int.fdiv_eq_ediv_of_nonneg _ (by decide)
  obtain ⟨hdate, hdays⟩ := dateOfDays_spec (time.seconds.fdiv 86400)
  obtain ⟨hfirst, hlast⟩ := year_dateOfDays (time.seconds.fdiv 86400)
    (by have := h.first; omega) (by have := h.last; omega)
  have hnanos := h.nanos
  have hleap := h.leap
  -- the last second of the day may be a leap second, but no other one
  have hsecond : (time.seconds - time.seconds.fdiv 86400 * 86400).toNat % 60 +
      time.nanos / 1000000000 ≤ 60 := by omega
  have hnanosecond : time.nanos % 1000000000 < 1000000000 := by omega
  have hmoment := moment_parts ((time.seconds - time.seconds.fdiv 86400 * 86400).toNat / 3600)
    ((time.seconds - time.seconds.fdiv 86400 * 86400).toNat / 60 % 60)
    hdate hfirst hlast (by omega) (by omega) hsecond hnanosecond (by rw [hdays]; omega) h.first h.last
  have htime : time.nanos % 1000000000 + ((time.seconds - time.seconds.fdiv 86400 * 86400).toNat % 60 +
      time.nanos / 1000000000) / 60 * 1000000000 = time.nanos := by omega
  rw [htime] at hmoment
  rw [← hmoment]
  unfold toText
  simp

end Read

/-- A moment is read back from its text. -/
theorem ofText?_toText {time : Time} (h : time.Valid) : ofText? time.toText = some time := by
  unfold ofText?
  rw [Read.moment_toText h]
  rfl

end Time

end CodeGraph
