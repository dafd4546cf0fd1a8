import CodeGraph.Proofs.Path.Segment
import CodeGraph.Proofs.Text.Percent
import CodeGraph.Web.Url

/-! The paths of addresses: the bytes that they stand for once escapes are read. Dots and escapes
make them fewer than those of the path as it was written. -/
namespace CodeGraph

theorem Web.Address.splitAt_slash (text : List Char) : splitAt '/' text = Path.split text := by
  induction text with
  | nil => rfl
  | cons c rest ih =>
    rw [splitAt, Path.split, ih]
    rfl

namespace Url

open Text.Percent

theorem splitPath_eq (text : List Char) : splitPath text = Path.split (text.map Path.unify) := by
  have hslash : (fun c => if isSlash c then '/' else c) = Path.unify := by
    funext c
    by_cases hc : c = '/'
    · subst hc
      rfl
    · simp [isSlash, Path.unify, hc]
  rw [splitPath, Web.Address.splitAt_slash, hslash]

theorem spares_pathSet : Spares pathSet := by
  have hkept : ∀ c ∈ '%' :: "0123456789abcdefABCDEF".toList,
      (isAlwaysEscaped c || pathSet c) = false := by
    simp [isAlwaysEscaped, pathSet, fragmentSet, String.contains_char_eq]
  rintro c (rfl | hc)
  · exact hkept _ List.mem_cons_self
  · exact hkept c (List.mem_cons_of_mem _ (mem_of_isHex hc))

def pathBytes (url : Url) : List UInt8 := decode ("/" ++ "/".intercalate url.path).toList

/-- The bytes that segments stand for, with a slash before each. -/
def bytesOf (segments : List (List Char)) : List UInt8 :=
  segments.flatMap fun segment => '/'.toUInt8 :: decode segment

variable {segments more read : List (List Char)} {segment text : List Char}

theorem bytesOf_append (segments more : List (List Char)) :
    bytesOf (segments ++ more) = bytesOf segments ++ bytesOf more := List.flatMap_append

theorem bytesOf_cons (segment : List Char) (more : List (List Char)) :
    bytesOf (segment :: more) = '/'.toUInt8 :: decode segment ++ bytesOf more := List.flatMap_cons

theorem decode_join (h : segments ≠ []) : decode ('/' :: Path.join segments) = bytesOf segments := by
  induction segments with
  | nil => exact absurd rfl h
  | cons segment rest ih =>
    rcases eq_or_ne rest [] with rfl | hne
    · rw [Path.join, decode_slash, bytesOf_cons]
      exact (List.append_nil _).symm
    · rw [Path.join_cons segment hne, decode_slash, decode_append_slash, ← decode_slash, ih hne,
        bytesOf_cons]
      rfl

theorem bytesOf_split (text : List Char) :
    bytesOf (Path.split text) = '/'.toUInt8 :: decode text := by
  rw [← decode_join (Path.split_ne_nil text), Path.join_split, decode_slash]

theorem pathBytes_eq {url : Url} (h : url.path = segments.map String.ofList) (hne : segments ≠ []) :
    url.pathBytes = bytesOf segments := by
  have hnames : (segments.map String.ofList).map String.toList = segments := by
    simp [Function.comp_def]
  have htext : ("/" ++ "/".intercalate url.path).toList = '/' :: Path.join segments := by
    rw [h, ← Path.ofSegments_map_toList, hnames, String.toList_append, Path.toList_ofSegments]
    rfl
  rw [pathBytes, htext, decode_join hne]

theorem bytesOf_map_encode (segments : List (List Char)) :
    bytesOf (segments.map (encode pathSet)) = bytesOf segments := by
  rw [bytesOf, List.flatMap_map]
  simp only [decode_encode spares_pathSet]
  rfl

theorem length_bytesOf_reverse (segments : List (List Char)) :
    (bytesOf segments.reverse).length = (bytesOf segments).length :=
  ((List.reverse_perm segments).flatMap_right _).length_eq

/-- The segments that are kept, in reverse, once some more have been read. -/
def stacked (read : List (List Char)) : List (List Char) → List (List Char)
  | [] => read
  | segment :: rest =>
    stacked (if isUp segment then read.drop 1 else if isDot segment then read
      else encode pathSet segment :: read) rest

theorem fold_append (read segments : List (List Char)) (h : more ≠ []) :
    fold read (segments ++ more) = fold (stacked read segments) more := by
  induction segments generalizing read with
  | nil => rfl
  | cons segment rest ih =>
    have hrest : (rest ++ more).isEmpty = false := by simp [h]
    rw [List.cons_append, fold, hrest, Bool.and_false, if_neg Bool.false_ne_true, ih]
    rfl

theorem fold_plain (read : List (List Char))
    (h : ∀ segment ∈ segments, isUp segment = false ∧ isDot segment = false) :
    fold read segments = read.reverse ++ segments.map (encode pathSet) := by
  induction segments generalizing read with
  | nil => exact (List.append_nil _).symm
  | cons segment rest ih =>
    obtain ⟨⟨hup, hdot⟩, hrest⟩ := List.forall_mem_cons.1 h
    rw [fold, hup, hdot]
    simp [ih _ hrest]

theorem ne_nil_of_isDots (h : isUp segment = true ∨ isDot segment = true) : segment ≠ [] := by
  rintro rfl
  revert h
  decide

theorem length_bytesOf_drop (read : List (List Char)) :
    (bytesOf (read.drop 1)).length ≤ (bytesOf read).length := by
  cases read with
  | nil => exact le_refl _
  | cons top read =>
    rw [List.drop_succ_cons, List.drop_zero, bytesOf_cons, List.length_append]
    exact Nat.le_add_left _ _

theorem length_bytesOf_cons (segment : List Char) (more : List (List Char)) :
    (bytesOf (segment :: more)).length = (decode segment).length + 1 + (bytesOf more).length := by
  rw [bytesOf_cons, List.length_append, List.length_cons]

/-- Dots are read: they leave no more than what was there, and an empty segment if they come last. -/
theorem fold_cons_dots (read rest : List (List Char))
    (hdots : isUp segment = true ∨ isDot segment = true) :
    ∃ left, (bytesOf left).length ≤ (bytesOf read).length ∧
      fold read (segment :: rest) = fold (if rest = [] then [] :: left else left) rest := by
  refine ⟨if isUp segment then read.drop 1 else read, ?_, ?_⟩
  · split_ifs
    · exact length_bytesOf_drop read
    · exact le_refl _
  · have hdotted : (isUp segment || isDot segment) = true := Bool.or_eq_true_iff.2 hdots
    rw [fold, hdotted, Bool.true_and]
    cases hup : isUp segment with
    | true => cases rest <;> rfl
    | false =>
      rw [hdots.resolve_left (by simp [hup])]
      cases rest <;> rfl

/-- One segment is read: it is kept, or it is dots and takes away what it is made of. -/
theorem fold_cons (read : List (List Char)) (segment : List Char) (rest : List (List Char)) :
    ∃ kept, (fold read (segment :: rest) = fold kept rest ∧ (rest = [] → kept ≠ [])) ∧
      (bytesOf kept).length ≤ (bytesOf read).length + (bytesOf [segment]).length ∧
      (isUp segment = true ∨ isDot segment = true →
        (bytesOf kept).length < (bytesOf read).length + (bytesOf [segment]).length) := by
  have hsegment : (bytesOf [segment]).length = (decode segment).length + 1 :=
    length_bytesOf_cons segment []
  by_cases hdots : isUp segment = true ∨ isDot segment = true
  · obtain ⟨left, hleft, hfold⟩ := fold_cons_dots read rest hdots
    have hpos := List.length_pos_iff.2 (decode_ne_nil (ne_nil_of_isDots hdots))
    have hkept : (bytesOf (if rest = [] then [] :: left else left)).length ≤
        (bytesOf left).length + 1 := by
      split_ifs
      · rw [length_bytesOf_cons]
        exact (Nat.add_comm _ _).le
      · exact Nat.le_succ _
    refine ⟨_, ⟨hfold, fun hrest => ?_⟩, by omega, fun _ => by omega⟩
    rw [if_pos hrest]
    exact List.cons_ne_nil _ _
  · obtain ⟨hup, hdot⟩ := not_or.1 hdots
    rw [Bool.not_eq_true] at hup hdot
    have hkept : (bytesOf (encode pathSet segment :: read)).length =
        (bytesOf read).length + (bytesOf [segment]).length := by
      rw [length_bytesOf_cons, decode_encode spares_pathSet, hsegment, Nat.add_comm]
    refine ⟨encode pathSet segment :: read, ⟨?_, fun _ => List.cons_ne_nil _ _⟩, hkept.le,
      fun h => absurd h hdots⟩
    rw [fold, hup, hdot]
    rfl

theorem fold_ne_nil (read : List (List Char)) (h : segments ≠ []) : fold read segments ≠ [] := by
  induction segments generalizing read with
  | nil => exact absurd rfl h
  | cons segment rest ih =>
    obtain ⟨kept, ⟨hfold, hkept⟩, -⟩ := fold_cons read segment rest
    rw [hfold]
    rcases eq_or_ne rest [] with rfl | hne
    · rw [fold, Ne, List.reverse_eq_nil_iff]
      exact hkept rfl
    · exact ih kept hne

/-- Dots take bytes away. -/
theorem length_bytesOf_fold (read segments : List (List Char)) :
    (bytesOf (fold read segments)).length ≤ (bytesOf read).length + (bytesOf segments).length ∧
      ((∃ segment ∈ segments, isUp segment = true ∨ isDot segment = true) →
        (bytesOf (fold read segments)).length <
          (bytesOf read).length + (bytesOf segments).length) := by
  induction segments generalizing read with
  | nil =>
    rw [fold, length_bytesOf_reverse]
    exact ⟨Nat.le_add_right _ _, fun ⟨_, hmem, _⟩ => absurd hmem List.not_mem_nil⟩
  | cons segment rest ih =>
    obtain ⟨kept, ⟨hfold, -⟩, hle, hlt⟩ := fold_cons read segment rest
    obtain ⟨hrest, hdots⟩ := ih kept
    rw [hfold, ← List.singleton_append, bytesOf_append, List.length_append]
    refine ⟨by omega, ?_⟩
    rintro ⟨other, hmem, hother⟩
    rcases List.mem_cons.1 hmem with rfl | hmem
    · have hless := hlt hother
      omega
    · have hless := hdots ⟨other, hmem, hother⟩
      omega

theorem eq_of_toLower {c d : Char} (h : c.toLower = d) :
    c = d ∨ 65 ≤ c.toNat ∧ c.toNat ≤ 90 ∧ d.toNat = c.toNat + 32 := by
  subst h
  unfold Char.toLower
  split_ifs with hupper
  · obtain ⟨hle, hge⟩ : 65 ≤ c.toNat ∧ c.toNat ≤ 90 := hupper
    refine .inr ⟨hle, hge, ?_⟩
    show (c.val + ('a'.val - 'A'.val)).toNat = c.val.toNat + 32
    have hcode : c.val.toNat ≤ 90 := hge
    rw [UInt32.toNat_add]
    exact Nat.mod_eq_of_lt (by show c.val.toNat + 32 < _; omega)
  · exact .inl rfl

theorem eq_of_toLower_of_lt {c d : Char} (h : c.toLower = d) (hd : d.toNat < 97) : c = d := by
  rcases eq_of_toLower h with heq | ⟨hle, -, hcode⟩
  · exact heq
  · omega

/-- The escape of a dot is one in letters of either case. -/
theorem hasEscape_of_map_toLower {rest : List Char}
    (h : segment.map Char.toLower = '%' :: '2' :: 'e' :: rest) : hasEscape segment = true := by
  obtain ⟨a, more, rfl, ha, h⟩ := List.map_eq_cons_iff.1 h
  obtain ⟨b, more, rfl, hb, h⟩ := List.map_eq_cons_iff.1 h
  obtain ⟨c, more, rfl, hc, -⟩ := List.map_eq_cons_iff.1 h
  obtain rfl := eq_of_toLower_of_lt ha (by decide)
  obtain rfl := eq_of_toLower_of_lt hb (by decide)
  have hhex : isHex c = true := by
    rcases eq_of_toLower hc with rfl | ⟨-, -, hcode⟩
    · decide
    · have hupper : c.toNat = 'E'.toNat := Nat.add_right_cancel hcode.symm
      rw [Char.toNat_inj.1 hupper]
      decide
  rw [hasEscape, beginsEscape, hhex]
  rfl

theorem isDot_eq_false (h : hasEscape segment = false) (hne : segment ≠ ['.']) :
    isDot segment = false := by
  rw [isDot, List.contains_eq_mem, decide_eq_false_iff_not]
  intro hmem
  simp only [List.mem_cons, List.not_mem_nil, or_false, ← String.toList_inj,
    String.toList_ofList] at hmem
  rcases hmem with hdot | hdot
  · obtain ⟨c, more, rfl, hc, hnil⟩ := List.map_eq_cons_iff.1 hdot
    obtain rfl := List.map_eq_nil_iff.1 hnil
    obtain rfl := eq_of_toLower_of_lt hc (by decide)
    exact hne rfl
  · exact Bool.false_ne_true (h.symm.trans (hasEscape_of_map_toLower hdot))

theorem isUp_eq_false (h : hasEscape segment = false) (hne : segment ≠ ['.', '.']) :
    isUp segment = false := by
  rw [isUp, List.contains_eq_mem, decide_eq_false_iff_not]
  intro hmem
  simp only [List.mem_cons, List.not_mem_nil, or_false, ← String.toList_inj,
    String.toList_ofList] at hmem
  rcases hmem with hup | hup | hup | hup
  · obtain ⟨c, more, rfl, hc, hdot⟩ := List.map_eq_cons_iff.1 hup
    obtain ⟨d, more, rfl, hd, hnil⟩ := List.map_eq_cons_iff.1 hdot
    obtain rfl := List.map_eq_nil_iff.1 hnil
    obtain rfl := eq_of_toLower_of_lt hc (by decide)
    obtain rfl := eq_of_toLower_of_lt hd (by decide)
    exact hne rfl
  · exact Bool.false_ne_true (h.symm.trans (hasEscape_of_map_toLower hup))
  · obtain ⟨c, more, rfl, -, hescape⟩ := List.map_eq_cons_iff.1 hup
    rw [hasEscape, Bool.or_eq_false_iff] at h
    exact Bool.false_ne_true (h.2.symm.trans (hasEscape_of_map_toLower hescape))
  · exact Bool.false_ne_true (h.symm.trans (hasEscape_of_map_toLower hup))

end Url

end CodeGraph
