import CodeGraph.Proofs.Path.Normal
import CodeGraph.Proofs.Web.Base

/-! What an address stands for that goes on behind another one. It is what was written exactly if the
text spells itself: whatever else happens to a text makes the bytes fewer, or leads out of the
path. -/
namespace CodeGraph.Url

open Text.Percent

/-- A text in which nothing ends the path, nothing counts as a slash that is none, nothing is read as
an escape, and nothing is cut off at the end. -/
structure Spells (text : List Char) : Prop where
  query : '?' ∉ text
  fragment : '#' ∉ text
  slash : '\\' ∉ text
  escape : hasEscape text = false
  blank : text.getLast? ≠ some ' '

variable {above : List (List Char)} {segment text tail : List Char}

def IsMark (c : Char) : Prop := c = '?' ∨ c = '#' ∨ c = '\\' ∨ c = '%'

/-- What comes before a text does not matter as long as it holds no marks. -/
theorem spells_append_slash {before : List Char} (hbefore : ∀ c ∈ before, ¬ IsMark c)
    (text : List Char) : Spells (before ++ '/' :: text) ↔ Spells text := by
  have hmem : ∀ c, IsMark c → (c ∈ before ++ '/' :: text ↔ c ∈ text) := by
    intro c hc
    have hne : c ≠ '/' := by
      rintro rfl
      rcases hc with hc | hc | hc | hc <;> cases hc
    rw [List.mem_append, List.mem_cons]
    constructor
    · exact fun h => (h.resolve_left fun h => hbefore c h hc).resolve_left hne
    · exact fun h => .inr (.inr h)
  have hescape : hasEscape (before ++ '/' :: text) = hasEscape text := by
    have hnone : '%' ∉ before := fun h => hbefore '%' h (.inr (.inr (.inr rfl)))
    rw [hasEscape_append_slash, hasEscape_of_not_mem hnone, Bool.false_or]
  have hblank : (before ++ '/' :: text).getLast? ≠ some ' ' ↔ text.getLast? ≠ some ' ' := by
    rcases eq_or_ne text [] with rfl | hne
    · rw [List.getLast?_concat]
      exact iff_of_true (by decide) nofun
    · rw [List.append_cons, List.getLast?_append_of_ne_nil _ hne]
  have hquery := hmem '?' (.inl rfl)
  have hfragment := hmem '#' (.inr (.inl rfl))
  have hslash := hmem '\\' (.inr (.inr (.inl rfl)))
  constructor
  · exact fun h => ⟨mt hquery.2 h.query, mt hfragment.2 h.fragment, mt hslash.2 h.slash,
      hescape.symm.trans h.escape, hblank.1 h.blank⟩
  · exact fun h => ⟨mt hquery.1 h.query, mt hfragment.1 h.fragment, mt hslash.1 h.slash,
      hescape.trans h.escape, hblank.2 h.blank⟩

theorem isHex_unify (c : Char) : isHex (Path.unify c) = isHex c := by
  unfold Path.unify
  split_ifs with hc
  · rw [hc]
    decide
  · rfl

theorem beginsEscape_map_unify (text : List Char) :
    beginsEscape (text.map Path.unify) = beginsEscape text := by
  match text with
  | [] => rfl
  | c :: text =>
    by_cases hc : c = '%'
    · subst hc
      match text with
      | [] => rfl
      | [a] => rfl
      | a :: b :: text => exact congrArg₂ (· && ·) (isHex_unify a) (isHex_unify b)
    · have hunify : Path.unify c ≠ '%' := by
        unfold Path.unify
        split_ifs
        · decide
        · exact hc
      rw [List.map_cons, beginsEscape_of_ne hunify, beginsEscape_of_ne hc]

theorem hasEscape_map_unify (text : List Char) :
    hasEscape (text.map Path.unify) = hasEscape text := by
  induction text with
  | nil => rfl
  | cons c text ih =>
    rw [List.map_cons, hasEscape, hasEscape, ih, ← List.map_cons, beginsEscape_map_unify]

theorem length_bytes_map_unify (text : List Char) :
    (bytes (text.map Path.unify)).length = (bytes text).length := by
  have hone : ∀ c, (String.utf8EncodeChar (Path.unify c)).length =
      (String.utf8EncodeChar c).length := by
    intro c
    unfold Path.unify
    split_ifs with hc
    · rw [hc]
      decide
    · rfl
  rw [bytes, bytes, List.flatMap_map, List.length_flatMap, List.length_flatMap]
  simp only [hone]

theorem map_unify_eq_self_iff : text.map Path.unify = text ↔ '\\' ∉ text := by
  have hid : text.map Path.unify = text ↔ text.map Path.unify = text.map id := by rw [List.map_id]
  rw [hid, List.map_eq_map_iff]
  constructor
  · intro h hslash
    exact absurd (h _ hslash) (by decide)
  · intro h c hc
    refine if_neg ?_
    rintro rfl
    exact h hc

theorem length_bytes_trimmed (text : List Char) :
    (bytes (trimmed text)).length ≤ (bytes text).length ∧
      (trimmed text ≠ text → (bytes (trimmed text)).length < (bytes text).length) := by
  obtain ⟨blanks, hblanks⟩ := List.rdropWhile_prefix (· ≤ ' ') text
  have hlength := congrArg (fun text => (bytes text).length) hblanks
  rw [bytes_append, List.length_append] at hlength
  refine ⟨Nat.le.intro hlength, fun hne => ?_⟩
  have hblanksNe : blanks ≠ [] := by
    rintro rfl
    exact hne ((List.append_nil _).symm.trans hblanks)
  have hpos := List.length_pos_iff.2 (bytes_ne_nil hblanksNe)
  exact Nat.lt_of_lt_of_eq (Nat.lt_add_of_pos_right hpos) hlength

theorem trimmed_eq_self_iff (h : ∀ c ∈ text, ' ' ≤ c) :
    trimmed text = text ↔ text.getLast? ≠ some ' ' := by
  rcases List.eq_nil_or_concat' text with rfl | ⟨before, last, rfl⟩
  · exact iff_of_true rfl nofun
  · have hlast : ' ' ≤ last := h last (List.mem_append_right _ List.mem_cons_self)
    rw [trimmed, List.rdropWhile_eq_self_iff, List.getLast?_concat]
    simp only [List.getLast_concat, decide_eq_true_iff, ne_eq, Option.some_inj]
    constructor
    · rintro hless rfl
      exact hless (List.concat_ne_nil _ _) (le_refl _)
    · exact fun hne _ hle => hne (le_antisymm hle hlast)

theorem dropWhile_inPath_eq_nil_iff : text.dropWhile inPath = [] ↔ '?' ∉ text ∧ '#' ∉ text := by
  rw [List.dropWhile_eq_nil_iff]
  constructor
  · exact fun h => ⟨fun hmem => absurd (h _ hmem) (by decide),
      fun hmem => absurd (h _ hmem) (by decide)⟩
  · rintro ⟨hquery, hfragment⟩ c hc
    refine decide_eq_true ⟨?_, ?_⟩ <;> rintro rfl
    · exact hquery hc
    · exact hfragment hc

theorem hasEscape_join (segments : List (List Char)) :
    hasEscape (Path.join segments) = segments.any hasEscape := by
  induction segments with
  | nil => rfl
  | cons segment rest ih =>
    rcases eq_or_ne rest [] with rfl | hne
    · rw [Path.join, List.any_cons, List.any_nil, Bool.or_false]
    · rw [Path.join_cons segment hne, hasEscape_append_slash, ih, List.any_cons]

theorem hasEscape_of_mem_split (h : hasEscape text = false) (hmem : segment ∈ Path.split text) :
    hasEscape segment = false := by
  have hjoin := hasEscape_join (Path.split text)
  rw [Path.join_split, h] at hjoin
  exact Bool.eq_false_iff.2 (List.any_eq_false.1 hjoin.symm segment hmem)

theorem bytesOf_fold_plain (hescape : hasEscape text = false)
    (hdots : ∀ segment ∈ Path.split text, isUp segment = false ∧ isDot segment = false) :
    bytesOf (fold above (Path.split text)) = bytesOf above.reverse ++ '/'.toUInt8 :: bytes text := by
  rw [fold_plain above hdots, bytesOf_append, bytesOf_map_encode, bytesOf_split,
    decode_of_not_hasEscape hescape]

/-- What is read stands for no more bytes than what was written, and for less if it has escapes or
dots. -/
theorem length_bytesOf_fold_split (above : List (List Char)) (text : List Char) :
    (bytesOf (fold above (Path.split text))).length ≤
        (bytesOf above).length + ((bytes text).length + 1) ∧
      ((bytesOf (fold above (Path.split text))).length =
          (bytesOf above).length + ((bytes text).length + 1) →
        hasEscape text = false ∧
          ∀ segment ∈ Path.split text, isUp segment = false ∧ isDot segment = false) := by
  obtain ⟨hle, hdots⟩ := length_bytesOf_fold above (Path.split text)
  obtain ⟨hdecode, hescape⟩ := length_decode text
  rw [bytesOf_split, List.length_cons] at hle hdots
  refine ⟨by omega, fun heq => ⟨?_, fun segment hmem => ?_⟩⟩
  · by_contra hne
    have hless := hescape (Bool.not_eq_false _ ▸ hne)
    omega
  · by_contra hne
    have hless := hdots ⟨segment, hmem, by
      rw [not_and_or, Bool.not_eq_false, Bool.not_eq_false] at hne
      exact hne⟩
    omega

/-- What is read of a text behind others is what was written exactly if the text spells itself. -/
theorem bytesOf_fold_eq_iff (above : List (List Char)) (hprintable : ∀ c ∈ tail, ' ' ≤ c)
    (hdots : ∀ segment ∈ Path.split tail, segment ≠ ['.'] ∧ segment ≠ ['.', '.']) :
    (trimmed tail).dropWhile inPath = [] ∧
      bytesOf (fold above (Path.split (((trimmed tail).takeWhile inPath).map Path.unify))) =
        bytesOf above.reverse ++ '/'.toUInt8 :: bytes tail ↔
      Spells tail := by
  have hkept : (trimmed tail).dropWhile inPath = [] →
      (trimmed tail).takeWhile inPath = trimmed tail := fun hnil =>
    List.takeWhile_eq_self_iff.2 (List.dropWhile_eq_nil_iff.1 hnil)
  constructor
  · rintro ⟨hrest, hpath⟩
    rw [hkept hrest] at hpath
    obtain ⟨hle, hplain⟩ := length_bytesOf_fold_split above ((trimmed tail).map Path.unify)
    obtain ⟨-, htrimmedLt⟩ := length_bytes_trimmed tail
    have hlength := congrArg List.length hpath
    rw [List.length_append, List.length_cons, length_bytesOf_reverse] at hlength
    rw [length_bytes_map_unify] at hle hplain
    -- nothing that is taken away is made up for
    have htrimmed : trimmed tail = tail := by
      by_contra hne
      have hless := htrimmedLt hne
      omega
    rw [htrimmed] at hrest hpath hplain hlength
    obtain ⟨hescape, hsegments⟩ := hplain hlength
    rw [bytesOf_fold_plain hescape hsegments] at hpath
    have hunify := bytes_inj.1 (List.cons.inj (List.append_cancel_left hpath)).2
    obtain ⟨hnoMark, hnoHash⟩ := dropWhile_inPath_eq_nil_iff.1 hrest
    exact ⟨hnoMark, hnoHash, map_unify_eq_self_iff.1 hunify,
      (hasEscape_map_unify tail).symm.trans hescape, (trimmed_eq_self_iff hprintable).1 htrimmed⟩
  · intro hspells
    have htrimmed := (trimmed_eq_self_iff hprintable).2 hspells.blank
    have hrest := dropWhile_inPath_eq_nil_iff.2 ⟨hspells.query, hspells.fragment⟩
    have hsegments : ∀ segment ∈ Path.split tail, isUp segment = false ∧ isDot segment = false := by
      intro segment hmem
      have hescape := hasEscape_of_mem_split hspells.escape hmem
      obtain ⟨hdot, hup⟩ := hdots segment hmem
      exact ⟨isUp_eq_false hescape hup, isDot_eq_false hescape hdot⟩
    rw [htrimmed] at hkept ⊢
    rw [hkept hrest, map_unify_eq_self_iff.2 hspells.slash,
      bytesOf_fold_plain hspells.escape hsegments]
    exact ⟨hrest, rfl⟩

variable {base : Url} {service : String}

/-- Behind a base, a text is read as it is written exactly if it spells itself. -/
theorem exists_ofText?_iff (hbase : ofText? (service ++ "/") = some base)
    (hquery : base.query? = none) (hfragment : base.fragment? = none)
    (hprintable : ∀ c ∈ tail, ' ' ≤ c)
    (hdots : ∀ segment ∈ Path.split tail, segment ≠ ['.'] ∧ segment ≠ ['.', '.']) :
    ∃ path query? fragment?,
      ofText? (service ++ "/" ++ String.ofList tail) = some { base with path, query?, fragment? } ∧
      (query? = none ∧ fragment? = none ∧
        { base with path, query?, fragment? : Url }.pathBytes = base.pathBytes ++ bytes tail ↔
        Spells tail) := by
  obtain ⟨above, habove, htails⟩ := exists_ofText?_append hbase hquery hfragment
  have hbytes : base.pathBytes = bytesOf above.reverse ++ ['/'.toUInt8] := by
    rw [pathBytes_eq habove (List.concat_ne_nil _ _), bytesOf_append]
    rfl
  refine ⟨_, _, _, htails tail (isWhole_of_printable hprintable), ?_⟩
  rw [pathBytes_eq rfl (fold_ne_nil above (Path.split_ne_nil _)), hbytes, List.append_assoc,
    List.singleton_append, ← and_assoc, queryOf?_and_fragmentOf?_iff, bytesOf_fold_eq_iff above hprintable hdots]

/-- What comes behind a hash does not count for the path. -/
theorem exists_ofText?_hash (hbase : ofText? (service ++ "/") = some base)
    (hquery : base.query? = none) (hfragment : base.fragment? = none)
    (hprintable : ∀ c ∈ tail, ' ' ≤ c) (hspells : Spells tail) (htext : ∀ c ∈ text, ' ' ≤ c) :
    ∃ path fragment, ofText? (service ++ "/" ++ String.ofList tail) = some { base with path } ∧
      ofText? (service ++ "/" ++ String.ofList (tail ++ '#' :: text)) =
        some { base with path, fragment? := some fragment } := by
  obtain ⟨above, -, htails⟩ := exists_ofText?_append hbase hquery hfragment
  have hwhole : IsWhole (tail ++ '#' :: text) := isWhole_of_printable
    (List.forall_mem_append.2 ⟨hprintable, List.forall_mem_cons.2 ⟨by decide, htext⟩⟩)
  have hends : inPath '#' = false := rfl
  have hpath := dropWhile_inPath_eq_nil_iff.2 ⟨hspells.query, hspells.fragment⟩
  have hbare := htails tail (isWhole_of_printable hprintable)
  have hmore := htails (tail ++ '#' :: text) hwhole
  rw [(trimmed_eq_self_iff hprintable).2 hspells.blank, hpath] at hbare
  rw [trimmed_append_mark (by decide), takeWhile_append_mark hends, dropWhile_append_mark hends,
    hpath, List.nil_append] at hmore
  rw [hquery, hfragment]
  exact ⟨_, _, hbare, hmore⟩

end CodeGraph.Url
