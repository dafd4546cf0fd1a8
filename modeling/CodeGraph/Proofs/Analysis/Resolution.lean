import CodeGraph.Proofs.Analysis.Run
import CodeGraph.Proofs.Path.Normal

/-! Where specifiers lead: to the first candidate that is there, whose path is in normal form and
leads to itself, and to the same file when a project is moved below a folder. -/
namespace CodeGraph

namespace Path

variable {segments : List Segment}

theorem ordinary_of_getLast? {segment : Segment} {c : Char} (h : segment.getLast? = some c)
    (hc : c ≠ '.') : Ordinary segment where
  ne_nil := by
    rintro rfl
    cases h
  ne_dot := by
    rintro rfl
    exact hc (Option.some.inj h).symm
  ne_up := by
    rintro rfl
    exact hc (Option.some.inj h).symm

theorem Normal.dropSlashes_append (h : Normal segments) (hne : segments ≠ []) (suffix : String) :
    dropSlashes (ofSegments segments ++ suffix) = ofSegments segments ++ suffix := by
  have hjoin : join segments ≠ [] := mt (join_eq_nil_iff h.nil_not_mem).1 hne
  apply dropSlashes_of_head?
  rw [String.toList_append, toList_ofSegments, List.head?_append_of_ne_nil _ hjoin]
  exact h.head?_join_ne

/-- A path stays in normal form when an extension is put behind it. -/
theorem Normal.exists_extended (h : Normal segments) {extension : String}
    (hplain : '/' ∉ extension.toList ∧ '\\' ∉ extension.toList)
    (hlast : ∃ c ∈ extension.toList.getLast?, c ≠ '.') :
    ∃ longer, Normal longer ∧ ofSegments segments ++ extension = ofSegments longer := by
  obtain ⟨c, hlast, hc⟩ := hlast
  rcases List.eq_nil_or_concat' segments with rfl | ⟨above, name, rfl⟩
  · refine ⟨[extension.toList], h.concat_name (ordinary_of_getLast? hlast hc) hplain, ?_⟩
    exact String.toList_inj.1 (by simp [join])
  · have hname := h.plain name (List.mem_append_right _ List.mem_cons_self)
    have hne : extension.toList ≠ [] := List.ne_nil_of_mem (List.mem_of_getLast? hlast)
    have hordinary : Ordinary (name ++ extension.toList) :=
      ordinary_of_getLast? (by rwa [List.getLast?_append_of_ne_nil _ hne]) hc
    refine ⟨above ++ [name ++ extension.toList],
      h.of_append.concat_name hordinary ⟨?_, ?_⟩, ?_⟩
    · exact fun hmem => (List.mem_append.1 hmem).elim hname.1 hplain.1
    · exact fun hmem => (List.mem_append.1 hmem).elim hname.2 hplain.2
    · exact String.toList_inj.1 (by simp [join_concat_append])

/-- A path stays in normal form when it is followed to a file in it. -/
theorem Normal.exists_below (h : Normal segments) {name : String} (hname : Ordinary name.toList)
    (hplain : '/' ∉ name.toList ∧ '\\' ∉ name.toList) : ∃ longer, Normal longer ∧
      dropSlashes (ofSegments segments ++ ("/" ++ name)) = ofSegments longer := by
  have hnormal := h.concat_name hname hplain
  refine ⟨segments ++ [name.toList], hnormal, ?_⟩
  rcases eq_or_ne segments [] with rfl | hne
  · have hdrop : dropSlashes (ofSegments [] ++ ("/" ++ name)) = dropSlashes name := by
      simp [dropSlashes, join]
    rw [hdrop, dropSlashes_of_head? (by simpa [join] using hnormal.head?_join_ne)]
    exact String.toList_inj.1 (by simp [join])
  · rw [h.dropSlashes_append hne]
    exact String.toList_inj.1 (by simp [join_concat hne])

end Path

namespace Resolution

variable {paths moved : PathTable} {importer specifier above path : String}

/-- What is tried for a specifier, in this order. -/
def tried (specifier : String) : List String :=
  if specifier.toList.getLast? = some '/' then folderSuffixes else suffixes

theorem tried_subset (specifier : String) : tried specifier ⊆ suffixes := by
  unfold tried
  split_ifs
  · decide
  · exact List.Subset.refl _

theorem base_eq (specifier importer : String) : base specifier importer = Path.ofSegments
    (Path.clean (Path.pieces (Path.folder importer) ++ Path.pieces specifier)) := by
  rw [base, Path.normalize_eq, Path.segments_eq, Path.pieces_append_slash]

theorem candidates_eq (specifier importer : String) : candidates specifier importer =
    (tried specifier).map fun suffix => Path.dropSlashes (base specifier importer ++ suffix) := rfl

def extensions : List String := [".js", ".jsx", ".ts", ".tsx"]

def indexFiles : List String := ["index.js", "index.ts"]

theorem suffixes_eq : suffixes = "" :: (extensions ++ indexFiles.map ("/" ++ ·)) := by
  decide +kernel

theorem exists_normal_of_suffix {segments : List Path.Segment} (h : Path.Normal segments)
    {suffix : String} (hsuffix : suffix ∈ suffixes) : ∃ longer, Path.Normal longer ∧
      Path.dropSlashes (Path.ofSegments segments ++ suffix) = Path.ofSegments longer := by
  have hplain : ∀ text ∈ extensions ++ indexFiles,
      ('/' ∉ text.toList ∧ '\\' ∉ text.toList) ∧ ∃ c ∈ text.toList.getLast?, c ≠ '.' := by
    simp [extensions, indexFiles]
  rw [suffixes_eq, List.mem_cons, List.mem_append] at hsuffix
  rcases hsuffix with rfl | hextension | hindex
  · exact ⟨segments, h, by rw [String.append_empty, h.dropSlashes_eq]⟩
  · obtain ⟨hsuffix, hlast⟩ := hplain suffix (List.mem_append_left _ hextension)
    obtain ⟨longer, hlonger, hpath⟩ := h.exists_extended hsuffix hlast
    exact ⟨longer, hlonger, by rw [hpath, hlonger.dropSlashes_eq]⟩
  · obtain ⟨name, hname, rfl⟩ := List.mem_map.1 hindex
    obtain ⟨hname, c, hlast, hc⟩ := hplain name (List.mem_append_right _ hname)
    exact h.exists_below (Path.ordinary_of_getLast? hlast hc) hname

/-- What a specifier leads to inside of the tree is in normal form. -/
theorem exists_normal_of_inside (h : ofSpecifier paths importer specifier = .inside path) :
    ∃ segments, Path.Normal segments ∧ path = Path.ofSegments segments := by
  have hmem := List.mem_of_find?_eq_some (ofSpecifier_eq_inside_iff.1 h).2
  rw [candidates_eq] at hmem
  obtain ⟨suffix, hsuffix, rfl⟩ := List.mem_map.1 hmem
  have hbase := Path.normal_segments (Path.folder importer ++ "/" ++ specifier)
  exact exists_normal_of_suffix hbase (tried_subset specifier hsuffix)

theorem base_here (path : String) : base ("./" ++ path) "" = Path.normalize path := by
  have hpieces : Path.pieces ("./" ++ path) = [['.']] ++ Path.pieces path :=
    Path.pieces_append_slash "." path
  have hroot : Path.pieces (Path.folder "") = [[]] := rfl
  rw [base_eq, hpieces, hroot]
  rfl

/-- A path in normal form leads to itself from the root. -/
theorem ofSpecifier_here {segments : List Path.Segment} (h : Path.Normal segments)
    (hne : segments ≠ []) (hpath : paths.contains (Path.ofSegments segments)) :
    ofSpecifier paths "" ("./" ++ Path.ofSegments segments) =
      .inside (Path.ofSegments segments) := by
  have hjoin : Path.join segments ≠ [] := mt (Path.join_eq_nil_iff h.nil_not_mem).1 hne
  have htried : tried ("./" ++ Path.ofSegments segments) = suffixes := by
    refine if_neg ?_
    rw [String.toList_append, Path.toList_ofSegments, List.getLast?_append_of_ne_nil _ hjoin]
    exact h.getLast?_join_ne
  have hself : Path.dropSlashes (Path.ofSegments segments ++ "") = Path.ofSegments segments := by
    rw [String.append_empty, h.dropSlashes_eq]
  rw [ofSpecifier_eq_inside_iff, candidates_eq, htried, base_here, h.normalize_ofSegments,
    suffixes_eq, List.map_cons, hself, List.find?_cons_of_pos hpath]
  exact ⟨by simp, rfl⟩

/-- A specifier that does not begin with a dot leads out of the tree. Any other leads to the first
path that is there of those that it may mean, and out of the tree if there is none. What is found
is in normal form and leads to itself. -/
theorem ofSpecifier_first (paths : PathTable) (importer specifier : String) :
    ∃ folder base, Path.Holds folder importer ∧
      Path.Folds (Path.pieces folder ++ Path.pieces specifier) base ∧
      let probe := fun suffix => Path.dropSlashes (Path.ofSegments base ++ suffix)
      (∀ path, ofSpecifier paths importer specifier = .inside path ↔
        specifier.toList.head? = some '.' ∧ ∃ earlier suffix later,
          tried specifier = earlier ++ suffix :: later ∧ path = probe suffix ∧
            paths.contains (probe suffix) ∧ ∀ other ∈ earlier, ¬ paths.contains (probe other)) ∧
      (∀ text, ofSpecifier paths importer specifier = .outside text ↔ text = specifier ∧
        (specifier.toList.head? ≠ some '.' ∨
          ∀ suffix ∈ tried specifier, ¬ paths.contains (probe suffix))) ∧
      ∀ path, ofSpecifier paths importer specifier = .inside path →
        paths.contains path ∧ Path.normalize path = path ∧
          (path ≠ "" → ofSpecifier paths "" ("./" ++ path) = .inside path) := by
  refine ⟨Path.folder importer, _, Path.holds_folder importer, Path.folds_clean _, ?_⟩
  rw [← base_eq]
  refine ⟨fun path => ?_, fun text => ?_, fun path hinside => ?_⟩
  · rw [ofSpecifier_eq_inside_iff, candidates_eq, List.find?_map, Option.map_eq_some_iff]
    refine and_congr_right fun _ => ⟨?_, ?_⟩
    · rintro ⟨suffix, hfind, rfl⟩
      obtain ⟨hthere, earlier, later, htried, hearlier⟩ := List.find?_eq_some_iff_append.1 hfind
      exact ⟨earlier, suffix, later, htried, rfl, hthere, by simpa using hearlier⟩
    · rintro ⟨earlier, suffix, later, htried, rfl, hthere, hearlier⟩
      exact ⟨suffix, List.find?_eq_some_iff_append.2
        ⟨hthere, earlier, later, htried, by simpa using hearlier⟩, rfl⟩
  · rw [ofSpecifier_eq_outside_iff, candidates_eq, List.find?_eq_none, List.forall_mem_map]
  · have hcontains := contains_of_inside hinside
    obtain ⟨segments, hnormal, rfl⟩ := exists_normal_of_inside hinside
    refine ⟨hcontains, hnormal.normalize_ofSegments, fun hne => ?_⟩
    exact ofSpecifier_here hnormal (mt hnormal.ofSegments_eq_empty_iff.2 hne) hcontains

/-- Where a specifier leads once the tree stands below a folder. -/
def below (above : String) : Resolution → Resolution
  | inside path => .inside (above ++ "/" ++ path)
  | outside specifier => .outside specifier

end Resolution

/-- Whether a table has the paths of another one, and each below a folder. -/
def PathTable.Moved (above : String) (paths moved : PathTable) : Prop :=
  ∀ path, moved.contains path ↔ ∃ old, paths.contains old ∧ path = above ++ "/" ++ old

theorem PathTable.moved_ofList (above : String) (paths : List String) :
    Moved above (ofList paths) (ofList (paths.map (above ++ "/" ++ ·))) := by
  intro path
  simp only [contains_ofList, List.mem_map]
  exact exists_congr fun old => and_congr_right fun _ => eq_comm

theorem PathTable.Moved.contains_iff {above : String} {paths moved : PathTable}
    (h : Moved above paths moved) (path : String) :
    moved.contains (above ++ "/" ++ path) = paths.contains path := by
  rw [Bool.eq_iff_iff, h]
  constructor
  · rintro ⟨old, hold, heq⟩
    rwa [(String.append_right_inj _).1 heq]
  · exact fun hpath => ⟨path, hpath, rfl⟩

namespace Resolution

theorem pieces_folder_moved (above importer : String) (segments : List Path.Segment) :
    Path.clean (Path.pieces (Path.folder (above ++ "/" ++ importer)) ++ segments) =
      Path.clean (Path.pieces above ++ (Path.pieces (Path.folder importer) ++ segments)) := by
  obtain ⟨name, hname, himporter | ⟨hroot, himporter⟩⟩ := Path.holds_folder importer
  · have hmoved : Path.Holds (above ++ "/" ++ Path.folder importer) (above ++ "/" ++ importer) := by
      refine ⟨name, hname, .inl ?_⟩
      nth_rewrite 1 [himporter]
      simp only [String.append_assoc]
    rw [hmoved.folder_eq, Path.pieces_append_slash, List.append_assoc]
  · have hmoved : Path.Holds above (above ++ "/" ++ importer) :=
      ⟨name, hname, .inl (by rw [himporter])⟩
    have hempty : Path.pieces "" = [[]] := rfl
    rw [hmoved.folder_eq, hroot, hempty]
    exact (Path.clean_append_nil_cons _ _).symm

section

variable (hnormal : Path.normalize above = above) (hne : above ≠ "")
  (hbase : base specifier importer ≠ "")
  (hinside : (Path.split (base specifier importer).toList).head? ≠ some Path.up)

include hbase in
theorem dropSlashes_base_append (suffix : String) :
    Path.dropSlashes (base specifier importer ++ suffix) = base specifier importer ++ suffix := by
  refine (Path.normal_segments _).dropSlashes_append (fun hnil => hbase ?_) suffix
  rw [base, Path.normalize_eq, hnil]
  rfl

include hnormal hne hbase hinside

/-- What a specifier means in a file that is moved, as long as it does not lead out of the root. -/
theorem base_moved :
    base specifier (above ++ "/" ++ importer) = above ++ "/" ++ base specifier importer := by
  have habove : Path.segments above ≠ [] := by
    intro hnil
    rw [Path.normalize_eq, hnil] at hnormal
    exact hne hnormal.symm
  rw [base_eq specifier importer] at hbase hinside ⊢
  have hfolds := Path.folds_clean (Path.pieces (Path.folder importer) ++ Path.pieces specifier)
  have hsegments := Path.normal_segments (Path.folder importer ++ "/" ++ specifier)
  rw [Path.segments_eq, Path.pieces_append_slash] at hsegments
  generalize Path.clean (Path.pieces (Path.folder importer) ++ Path.pieces specifier) = segments
    at hbase hinside hfolds hsegments ⊢
  have hsome : segments ≠ [] := by
    rintro rfl
    exact hbase rfl
  have hup : Path.up ∉ segments := by
    intro hmem
    rw [Path.toList_ofSegments,
      Path.split_join hsome hsegments.slash_not_mem] at hinside
    exact hinside (hsegments.head?_eq_up hmem)
  rw [base_eq, pieces_folder_moved, hfolds.append hup, ← Path.segments_eq,
    Path.ofSegments_append habove hsome, ← Path.normalize_eq, hnormal]

theorem candidates_moved : candidates specifier (above ++ "/" ++ importer) =
    (candidates specifier importer).map (above ++ "/" ++ ·) := by
  have hmoved := base_moved hnormal hne hbase hinside
  have hmovedBase : base specifier (above ++ "/" ++ importer) ≠ "" := by
    rw [hmoved]
    simp
  rw [candidates_eq, candidates_eq, List.map_map]
  refine List.map_congr_left fun suffix _ => ?_
  rw [dropSlashes_base_append hmovedBase, Function.comp_apply, dropSlashes_base_append hbase,
    hmoved, String.append_assoc]

end

theorem ofSpecifier_below (hmoved : paths.Moved above moved)
    (hcandidates : candidates specifier (above ++ "/" ++ importer) =
      (candidates specifier importer).map (above ++ "/" ++ ·)) :
    ofSpecifier moved (above ++ "/" ++ importer) specifier =
      (ofSpecifier paths importer specifier).below above := by
  have hcontains : moved.contains ∘ (above ++ "/" ++ ·) = paths.contains :=
    funext hmoved.contains_iff
  unfold ofSpecifier
  rw [hcandidates, List.find?_map, hcontains]
  split_ifs
  · cases (candidates specifier importer).find? paths.contains <;> rfl
  · rfl

/-- A specifier leads to the same file when the whole project is moved below a folder. -/
theorem ofSpecifier_moved (hmoved : paths.Moved above moved)
    (hnormal : Path.normalize above = above) (hne : above ≠ "")
    (hbase : base specifier importer ≠ "")
    (hinside : (Path.split (base specifier importer).toList).head? ≠ some Path.up) :
    (∀ path,
      ofSpecifier moved (above ++ "/" ++ importer) specifier = .inside (above ++ "/" ++ path) ↔
        ofSpecifier paths importer specifier = .inside path) ∧
    (ofSpecifier moved (above ++ "/" ++ importer) specifier = .outside specifier ↔
      ofSpecifier paths importer specifier = .outside specifier) := by
  rw [ofSpecifier_below hmoved (candidates_moved hnormal hne hbase hinside)]
  cases ofSpecifier paths importer specifier with
  | inside found => simp [below, String.append_right_inj]
  | outside text => simp [below]

theorem ofSpecifier_moved_package :
    Path.normalize "packages/app" = "packages/app" ∧ "packages/app" ≠ "" ∧
      base "../lib/./b" "src/a.js" = "lib/b" ∧
      ofSpecifier (.ofList ["packages/app/lib/b.ts", "packages/app/src/a.js"])
        "packages/app/src/a.js" "../lib/./b" = .inside "packages/app/lib/b.ts" := by
  have hbase : base "../lib/./b" "src/a.js" = "lib/b" := by decide +kernel
  have hfound : ofSpecifier (.ofList ["lib/b.ts", "src/a.js"]) "src/a.js" "../lib/./b" =
      .inside "lib/b.ts" := by
    have hcontains : (PathTable.ofList ["lib/b.ts", "src/a.js"]).contains =
        fun path => decide (path ∈ ["lib/b.ts", "src/a.js"]) := by
      funext path
      rw [Bool.eq_iff_iff, PathTable.contains_ofList, decide_eq_true_iff]
    rw [ofSpecifier_eq_inside_iff, hcontains]
    decide +kernel
  refine ⟨by decide +kernel, by decide, hbase, ?_⟩
  have hmoved := ofSpecifier_moved (PathTable.moved_ofList "packages/app" ["lib/b.ts", "src/a.js"])
    (by decide +kernel) (by decide) (by rw [hbase]; decide) (by rw [hbase]; decide +kernel)
  exact (hmoved.1 "lib/b.ts").2 hfound

end Resolution

end CodeGraph
