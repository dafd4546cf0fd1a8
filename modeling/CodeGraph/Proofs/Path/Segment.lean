import CodeGraph.Path
import Mathlib

/-! Paths and their segments: taken apart at the slashes, and put together again. -/
namespace CodeGraph.Path

theorem split_ne_nil (text : List Char) : split text ≠ [] := by
  cases text with
  | nil => exact List.cons_ne_nil _ _
  | cons c rest =>
    rw [split]
    split_ifs
    · exact List.cons_ne_nil _ _
    · split <;> exact List.cons_ne_nil _ _

theorem split_append_slash (text rest : List Char) :
    split (text ++ '/' :: rest) = split text ++ split rest := by
  induction text with
  | nil => rfl
  | cons c text ih =>
    rw [List.cons_append, split, split, ih]
    split_ifs
    · rfl
    · match hsplit : split text with
      | [] => exact absurd hsplit (split_ne_nil text)
      | _ :: _ => rfl

theorem split_of_not_mem {text : List Char} (h : '/' ∉ text) : split text = [text] := by
  induction text with
  | nil => rfl
  | cons c text ih =>
    obtain ⟨hc, htext⟩ := not_or.1 (mt List.mem_cons.2 h)
    rw [split, if_neg (Ne.symm hc), ih htext]

theorem not_mem_of_mem_split {text segment : List Char} (h : segment ∈ split text) :
    '/' ∉ segment := by
  induction text generalizing segment with
  | nil =>
    rw [List.mem_singleton.1 h]
    exact List.not_mem_nil
  | cons c text ih =>
    rw [split] at h
    split_ifs at h with hc
    · rcases List.mem_cons.1 h with rfl | h
      · exact List.not_mem_nil
      · exact ih h
    · match hsplit : split text with
      | [] => exact absurd hsplit (split_ne_nil text)
      | first :: more =>
        rw [hsplit] at h ih
        rcases List.mem_cons.1 h with rfl | h
        · exact fun hmem => (List.mem_cons.1 hmem).elim (fun heq => hc heq.symm) (ih List.mem_cons_self)
        · exact ih (List.mem_cons_of_mem _ h)

variable {above below segments : List Segment} {segment : Segment}

theorem join_cons (segment : Segment) (h : segments ≠ []) :
    join (segment :: segments) = segment ++ '/' :: join segments := by
  cases segments with
  | nil => exact absurd rfl h
  | cons next rest => rfl

theorem join_append (habove : above ≠ []) (hbelow : below ≠ []) :
    join (above ++ below) = join above ++ '/' :: join below := by
  induction above with
  | nil => exact absurd rfl habove
  | cons first rest ih =>
    rcases eq_or_ne rest [] with rfl | hrest
    · exact join_cons first hbelow
    · have hne : rest ++ below ≠ [] := List.append_ne_nil_of_left_ne_nil hrest below
      rw [List.cons_append, join_cons first hne, ih hrest, join_cons first hrest, List.append_assoc]
      rfl

theorem join_concat (h : above ≠ []) (segment : Segment) :
    join (above ++ [segment]) = join above ++ '/' :: segment :=
  join_append h (List.cons_ne_nil _ _)

/-- Text behind the segments of a path goes to the last one. -/
theorem join_concat_append (above : List Segment) (segment text : List Char) :
    join (above ++ [segment ++ text]) = join (above ++ [segment]) ++ text := by
  rcases eq_or_ne above [] with rfl | habove
  · rfl
  · rw [join_concat habove, join_concat habove, List.append_assoc, List.cons_append]

theorem split_join (hne : segments ≠ []) (h : ∀ segment ∈ segments, '/' ∉ segment) :
    split (join segments) = segments := by
  induction segments with
  | nil => exact absurd rfl hne
  | cons first rest ih =>
    have hfirst := split_of_not_mem (h first List.mem_cons_self)
    rcases eq_or_ne rest [] with rfl | hrest
    · exact hfirst
    · rw [join_cons first hrest, split_append_slash, hfirst,
        ih hrest fun segment hmem => h segment (List.mem_cons_of_mem _ hmem)]
      rfl

theorem join_split (text : List Char) : join (split text) = text := by
  induction text with
  | nil => rfl
  | cons c text ih =>
    have hne := split_ne_nil text
    rw [split]
    split_ifs with hc
    · rw [join_cons [] hne, ih, hc]
      rfl
    · match hsplit : split text with
      | [] => exact absurd hsplit hne
      | first :: rest =>
        rw [hsplit] at ih
        rcases eq_or_ne rest [] with rfl | hrest
        · exact congrArg (c :: ·) ih
        · rw [← ih, join_cons first hrest]
          exact join_cons (c :: first) hrest

theorem join_eq_nil_iff (h : [] ∉ segments) : join segments = [] ↔ segments = [] := by
  constructor
  · intro hjoin
    by_contra hne
    cases segments with
    | nil => exact hne rfl
    | cons first rest =>
      rcases eq_or_ne rest [] with rfl | hrest
      · exact h (List.mem_cons.2 (.inl hjoin.symm))
      · rw [join_cons first hrest] at hjoin
        exact List.append_ne_nil_of_right_ne_nil _ (List.cons_ne_nil _ _) hjoin
  · rintro rfl
    rfl

theorem head?_join (rest : List Segment) (h : segment ≠ []) :
    (join (segment :: rest)).head? = segment.head? := by
  rcases eq_or_ne rest [] with rfl | hrest
  · rfl
  · rw [join_cons segment hrest, List.head?_append_of_ne_nil _ h]

theorem getLast?_join (above : List Segment) (h : segment ≠ []) :
    (join (above ++ [segment])).getLast? = segment.getLast? := by
  rcases eq_or_ne above [] with rfl | habove
  · rfl
  · rw [join_concat habove, List.append_cons, List.getLast?_append_of_ne_nil _ h]

theorem mem_join {c : Char} (h : c ∈ join segments) :
    c = '/' ∨ ∃ segment ∈ segments, c ∈ segment := by
  induction segments with
  | nil => cases h
  | cons first rest ih =>
    rcases eq_or_ne rest [] with rfl | hrest
    · exact .inr ⟨first, List.mem_cons_self, h⟩
    · rw [join_cons first hrest, List.mem_append, List.mem_cons] at h
      rcases h with h | rfl | h
      · exact .inr ⟨first, List.mem_cons_self, h⟩
      · exact .inl rfl
      · obtain hslash | ⟨segment, hmem, hc⟩ := ih h
        · exact .inl hslash
        · exact .inr ⟨segment, List.mem_cons_of_mem _ hmem, hc⟩

theorem mem_join_of_mem {c : Char} (h : segment ∈ segments) (hc : c ∈ segment) :
    c ∈ join segments := by
  induction segments with
  | nil => cases h
  | cons first rest ih =>
    rcases eq_or_ne rest [] with rfl | hrest
    · rwa [List.mem_singleton.1 h] at hc
    · rw [join_cons first hrest, List.mem_append, List.mem_cons]
      rcases List.mem_cons.1 h with rfl | h
      · exact .inl hc
      · exact .inr (.inr (ih h))

/-- There is a slash between two segments. -/
theorem count_slash_join (hne : segments ≠ []) (h : ∀ segment ∈ segments, '/' ∉ segment) :
    (join segments).count '/' + 1 = segments.length := by
  induction segments with
  | nil => exact absurd rfl hne
  | cons first rest ih =>
    have hfirst : first.count '/' = 0 := List.count_eq_zero.2 (h first List.mem_cons_self)
    rcases eq_or_ne rest [] with rfl | hrest
    · exact congrArg (· + 1) hfirst
    · have hrestCount := ih hrest fun segment hmem => h segment (List.mem_cons_of_mem _ hmem)
      rw [join_cons first hrest, List.count_append, List.count_cons_self, List.length_cons]
      omega

def ofSegments (segments : List Segment) : String := String.ofList (join segments)

@[simp] theorem toList_ofSegments (segments : List Segment) :
    (ofSegments segments).toList = join segments := String.toList_ofList

theorem ofSegments_append (habove : above ≠ []) (hbelow : below ≠ []) :
    ofSegments (above ++ below) = ofSegments above ++ "/" ++ ofSegments below := by
  rw [← String.toList_inj]
  simp [join_append habove hbelow]

theorem ofSegments_map_toList (names : List String) :
    ofSegments (names.map String.toList) = "/".intercalate names := by
  induction names with
  | nil => rfl
  | cons name names ih =>
    cases names with
    | nil =>
      rw [String.intercalate_singleton]
      exact String.ofList_toList
    | cons next names =>
      have hjoin : ofSegments ((name :: next :: names).map String.toList) =
          name ++ "/" ++ ofSegments ((next :: names).map String.toList) := by
        rw [← String.toList_inj]
        simp [join]
      rw [String.intercalate_cons_cons, hjoin, ih]

theorem fileName_ofSegments (h : ∀ other ∈ above ++ [segment], '/' ∉ other) :
    fileName (ofSegments (above ++ [segment])) = String.ofList segment := by
  unfold fileName
  rw [toList_ofSegments, split_join (by simp) h, List.getLastD_concat]

theorem below_ofSegments (h : [] ∉ above) (segment : Segment) :
    Path.below (ofSegments above) (String.ofList segment) = ofSegments (above ++ [segment]) := by
  have hempty : (ofSegments above).isEmpty ↔ above = [] := by
    rw [String.isEmpty_iff, ← String.toList_inj, toList_ofSegments]
    exact join_eq_nil_iff h
  unfold Path.below
  split_ifs with habove
  · rw [hempty.1 habove]
    rfl
  · rw [← String.toList_inj]
    simp [join_concat (mt hempty.2 habove)]

/-- Whether a path leads to something in a folder: the folder is what stands before its last slash,
or has no name if there is none. -/
def Holds (folder path : String) : Prop :=
  ∃ name : String, '/' ∉ name.toList ∧
    (path = folder ++ "/" ++ name ∨ folder = "" ∧ path = name)

theorem holds_folder (path : String) : Holds (folder path) path := by
  obtain ⟨above, name, hsplit⟩ : ∃ above name, split path.toList = above ++ [name] :=
    ⟨_, _, (List.dropLast_append_getLast (split_ne_nil _)).symm⟩
  have hname : '/' ∉ name := not_mem_of_mem_split (by rw [hsplit]; simp)
  have hpath : path.toList = join (above ++ [name]) := by rw [← hsplit, join_split]
  refine ⟨String.ofList name, by simpa using hname, ?_⟩
  unfold folder
  rw [hsplit, List.dropLast_concat]
  rcases eq_or_ne above [] with rfl | habove
  · exact .inr ⟨rfl, String.toList_inj.1 (by simpa [join] using hpath)⟩
  · refine .inl (String.toList_inj.1 ?_)
    rw [hpath, join_concat habove]
    simp

theorem Holds.folder_eq {folder path : String} (h : Holds folder path) :
    Path.folder path = folder := by
  obtain ⟨name, hname, rfl | ⟨rfl, rfl⟩⟩ := h
  · have hsplit : split (folder ++ "/" ++ name).toList = split folder.toList ++ [name.toList] := by
      have htext : (folder ++ "/" ++ name).toList = folder.toList ++ '/' :: name.toList := by simp
      rw [htext, split_append_slash, split_of_not_mem hname]
    rw [Path.folder, hsplit, List.dropLast_concat, join_split, String.ofList_toList]
  · rw [Path.folder, split_of_not_mem hname]
    rfl

end CodeGraph.Path
