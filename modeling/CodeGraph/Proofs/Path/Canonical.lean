import CodeGraph.Proofs.Path.Normal

/-! Normal forms are canonical: they are the texts of steps up with names behind them, these are
the paths that stay as they are, and paths can be joined before or after they get their normal form.
Passes over the text of a path, one of which folds its dots away, lead to the same. -/
namespace CodeGraph.Path

variable {above other segments : List Segment}

theorem clean_append (above below : List Segment) :
    clean (above ++ below) = (below.foldl push (clean above).reverse).reverse := by
  rw [clean, List.foldl_append, clean, List.reverse_reverse]

/-- What is read behind some segments depends on what is kept of them only. -/
theorem clean_append_congr (h : clean above = clean other) (below : List Segment) :
    clean (above ++ below) = clean (other ++ below) := by
  rw [clean_append, clean_append, h]

theorem clean_split_dropWhile (text : List Char) :
    clean (split (text.dropWhile (· = '/'))) = clean (split text) := by
  induction text with
  | nil => rfl
  | cons c text ih =>
    by_cases hc : c = '/'
    · have hdrop : (c :: text).dropWhile (· = '/') = text.dropWhile (· = '/') :=
        List.dropWhile_cons_of_pos (by simpa using hc)
      have hsplit : split (c :: text) = [] ++ [] :: split text := by
        rw [split, if_pos hc]
        rfl
      rw [hdrop, ih, hsplit, clean_append_nil_cons]
      rfl
    · rw [List.dropWhile_cons_of_neg (by simpa using hc)]

theorem Normal.exists_ups (h : Normal segments) :
    ∃ ups names, segments = List.replicate ups up ++ names ∧ ∀ name ∈ names, Ordinary name := by
  induction segments with
  | nil => exact ⟨0, [], rfl, fun _ hmem => nomatch hmem⟩
  | cons first rest ih =>
    have hrest : Normal rest :=
      { plain := (List.forall_mem_cons.1 h.plain).2
        up_or_ordinary := (List.forall_mem_cons.1 h.up_or_ordinary).2
        ups_first := (List.pairwise_cons.1 h.ups_first).2 }
    obtain ⟨ups, names, rfl, hnames⟩ := ih hrest
    rcases h.up_or_ordinary first List.mem_cons_self with rfl | hfirst
    · exact ⟨ups + 1, names, rfl, hnames⟩
    · cases ups with
      | zero => exact ⟨0, first :: names, rfl, List.forall_mem_cons.2 ⟨hfirst, hnames⟩⟩
      | succ ups =>
        -- a step up behind a name would have taken the name away
        have hup : first = up := List.rel_of_pairwise_cons h.ups_first List.mem_cons_self rfl
        exact absurd hup hfirst.ne_up

theorem normal_ups (ups : Nat) {names : List Segment}
    (h : ∀ name ∈ names, Ordinary name ∧ '/' ∉ name ∧ '\\' ∉ name) :
    Normal (List.replicate ups up ++ names) := by
  induction names using List.reverseRecOn with
  | nil =>
    have hup : ∀ segment ∈ List.replicate ups up, segment = up :=
      fun segment hmem => List.eq_of_mem_replicate hmem
    rw [List.append_nil]
    constructor
    · intro segment hmem
      rw [hup segment hmem]
      decide
    · exact fun segment hmem => .inl (hup segment hmem)
    · exact List.pairwise_replicate.2 (.inr fun _ => rfl)
  | append_singleton names name ih =>
    obtain ⟨hnames, hname⟩ := List.forall_mem_append.1 h
    obtain ⟨hordinary, hplain⟩ := hname name List.mem_cons_self
    rw [← List.append_assoc]
    exact (ih hnames).concat_name hordinary hplain

/-- Whether a text is made of steps up with names behind them, with slashes in between. -/
def IsNormal (path : String) : Prop :=
  ∃ ups names, (∀ name ∈ names, Ordinary name ∧ '/' ∉ name ∧ '\\' ∉ name) ∧
    path = ofSegments (List.replicate ups up ++ names)

theorem isNormal_iff {path : String} :
    IsNormal path ↔ ∃ segments, Normal segments ∧ path = ofSegments segments := by
  constructor
  · rintro ⟨ups, names, hnames, rfl⟩
    exact ⟨_, normal_ups ups hnames, rfl⟩
  · rintro ⟨segments, hnormal, rfl⟩
    obtain ⟨ups, names, rfl, hnames⟩ := hnormal.exists_ups
    refine ⟨ups, names, fun name hmem => ⟨hnames name hmem, ?_⟩, rfl⟩
    exact hnormal.plain name (List.mem_append_right _ hmem)

theorem normalize_eq_self_iff {path : String} : normalize path = path ↔ IsNormal path := by
  rw [isNormal_iff]
  constructor
  · intro h
    exact ⟨Path.segments path, normal_segments path, h.symm⟩
  · rintro ⟨segments, hnormal, rfl⟩
    exact hnormal.normalize_ofSegments

def unified (path : String) : String := String.ofList (path.toList.map unify)

/-- Whether a function folds the dots of paths away that do not begin with a slash. What is nothing
then is written as a dot. -/
def FoldsDots (clean : String → String) : Prop :=
  ∀ (path : String) (kept : List Segment), path ≠ "" → path.toList.head? ≠ some '/' →
    Folds (split path.toList) kept → clean path = if kept = [] then "." else ofSegments kept

/-- The normal form of a path by passes over its text, one of which folds the dots away. -/
def normalizeBy (clean : String → String) (path : String) : String :=
  let relative := dropSlashes (unified path)
  if relative = "" then ""
  else
    let cleaned := unified (clean relative)
    if cleaned = "." then "" else cleaned

/-- There is such a function. -/
theorem exists_foldsDots : ∃ clean, FoldsDots clean := by
  refine ⟨fun path => if clean (split path.toList) = [] then "."
    else ofSegments (clean (split path.toList)), ?_⟩
  intro path kept _ _ hkept
  dsimp only
  rw [hkept.clean_eq]

theorem unified_ofSegments (h : Normal segments) :
    unified (ofSegments segments) = ofSegments segments := by
  rw [unified, toList_ofSegments, h.unify_join]
  rfl

/-- A dot is no normal form. -/
theorem Normal.ofSegments_ne_dot (h : Normal segments) : ofSegments segments ≠ "." := by
  intro hdot
  have hself : normalize "." = "." := by rw [← hdot, h.normalize_ofSegments]
  have hempty : normalize "." = "" := by decide
  exact absurd (hself.symm.trans hempty) (by decide)

theorem normalizeBy_eq {clean : String → String} (h : FoldsDots clean) (path : String) :
    normalizeBy clean path = normalize path := by
  have hsplit : split (dropSlashes (unified path)).toList =
      split ((path.toList.map unify).dropWhile (· = '/')) := by
    rw [dropSlashes, unified, String.toList_ofList, String.toList_ofList]
  have hkept : Path.clean (split (dropSlashes (unified path)).toList) = Path.segments path := by
    rw [hsplit, clean_split_dropWhile]
    rfl
  unfold normalizeBy
  dsimp only
  by_cases hempty : dropSlashes (unified path) = ""
  · rw [if_pos hempty]
    rw [hempty] at hkept
    rw [normalize_eq, ← hkept]
    rfl
  · have hhead : (dropSlashes (unified path)).toList.head? ≠ some '/' := by
      rw [dropSlashes, String.toList_ofList]
      intro hslash
      have hnot := List.head?_dropWhile_not (· = '/') (unified path).toList
      rw [hslash] at hnot
      simp at hnot
    have hclean := h _ _ hempty hhead (folds_clean _)
    rw [hkept] at hclean
    rw [if_neg hempty, hclean, normalize_eq]
    have hnormal := normal_segments path
    by_cases hnil : Path.segments path = []
    · rw [if_pos hnil, hnil]
      rfl
    · rw [if_neg hnil, unified_ofSegments hnormal, if_neg hnormal.ofSegments_ne_dot]

/-- The normal form of a path is written with what is kept when its segments are read one after the
other, which are steps up and then names. It has no backslash and neither begins nor ends with a
slash. The paths that stay as they are are those of this form, so that a second time changes nothing.
Any function that folds the dots of a path away leads to it. -/
theorem normalize_canonical (path : String) :
    (∃ ups names, (∀ name ∈ names, Ordinary name ∧ '/' ∉ name ∧ '\\' ∉ name) ∧
      (∀ kept, Folds (pieces path) kept ↔ kept = List.replicate ups up ++ names) ∧
      normalize path = ofSegments (List.replicate ups up ++ names)) ∧
    ('\\' ∉ (normalize path).toList ∧ (normalize path).toList.head? ≠ some '/' ∧
      (normalize path).toList.getLast? ≠ some '/') ∧
    (normalize path = path ↔ IsNormal path) ∧
    normalize (normalize path) = normalize path ∧
    ∀ clean, FoldsDots clean → normalizeBy clean path = normalize path := by
  have hnormal := normal_segments path
  refine ⟨?_, ⟨?_, ?_, ?_⟩, normalize_eq_self_iff, ?_, fun clean hclean => normalizeBy_eq hclean path⟩
  · obtain ⟨ups, names, hsegments, hnames⟩ := hnormal.exists_ups
    refine ⟨ups, names, fun name hmem => ⟨hnames name hmem, ?_⟩, fun kept => ⟨?_, ?_⟩, ?_⟩
    · exact hnormal.plain name (by rw [hsegments]; exact List.mem_append_right _ hmem)
    · intro hkept
      rw [← hsegments, segments_eq, hkept.clean_eq]
    · rintro rfl
      rw [← hsegments]
      exact folds_clean _
    · rw [normalize_eq, hsegments]
  · rw [normalize_eq, toList_ofSegments]
    intro hmem
    obtain hslash | ⟨segment, hsegment, hback⟩ := mem_join hmem
    · exact absurd hslash (by decide)
    · exact (hnormal.plain segment hsegment).2 hback
  · rw [normalize_eq, toList_ofSegments]
    exact hnormal.head?_join_ne
  · rw [normalize_eq, toList_ofSegments]
    exact hnormal.getLast?_join_ne
  · exact hnormal.normalize_ofSegments

theorem normalize_append_slash (folder path : String) :
    normalize (folder ++ "/" ++ path) = ofSegments (clean (pieces folder ++ pieces path)) := by
  rw [normalize_eq, segments_eq, pieces_append_slash]

theorem clean_pieces_normalize (path : String) :
    clean (pieces (normalize path)) = clean (pieces path) :=
  (normal_segments path).segments_ofSegments

/-- A path may have its normal form or not when another one is put behind it, so that paths may be
joined step by step. -/
theorem normalize_join (first second third : String) :
    normalize (normalize first ++ "/" ++ second) = normalize (first ++ "/" ++ second) ∧
    normalize (normalize (first ++ "/" ++ second) ++ "/" ++ third) =
      normalize (first ++ "/" ++ second ++ "/" ++ third) := by
  have hjoin : ∀ above below : String,
      normalize (normalize above ++ "/" ++ below) = normalize (above ++ "/" ++ below) := by
    intro above below
    calc
      normalize (normalize above ++ "/" ++ below) =
          ofSegments (clean (pieces (normalize above) ++ pieces below)) :=
        normalize_append_slash _ _
      _ = ofSegments (clean (pieces above ++ pieces below)) := by
        rw [clean_append_congr (clean_pieces_normalize above)]
      _ = normalize (above ++ "/" ++ below) := (normalize_append_slash _ _).symm
  exact ⟨hjoin first second, hjoin (first ++ "/" ++ second) third⟩

end CodeGraph.Path
