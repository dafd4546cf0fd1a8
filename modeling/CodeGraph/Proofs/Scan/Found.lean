import CodeGraph.Proofs.Scan.Walk
import CodeGraph.Proofs.Tree.Sorted
import CodeGraph.Scan.Run

/-! What a scan finds, given a walker that covers the folder: every file that is shown, down to the
limit, in the order of the paths. The walk counts what it enters and what it meets, and the list of a
tree counts folders only; the two limits mean the same. -/
namespace CodeGraph.Scan

open DiskItem (Named)

/-- What files are ordered by: their paths, and their sizes if these are the same. -/
def rank (file : String × UInt64) : String ×ₗ Nat := toLex (file.1, file.2.toNat)

theorem rank_injective : Function.Injective rank := by
  rintro ⟨path, size⟩ ⟨other, otherSize⟩ heq
  obtain ⟨hpath, hsize⟩ := Prod.mk.inj (toLex.injective heq)
  exact Prod.ext hpath (UInt64.toNat_inj.1 hsize)

theorem inOrder_iff (first second : String × UInt64) :
    inOrder first second = true ↔ rank first ≤ rank second := by
  unfold inOrder rank
  rw [Prod.Lex.toLex_le_toLex]
  simp [UInt64.le_iff_toNat_le]

theorem pairwise_mergeSort (found : List (String × UInt64)) :
    (found.mergeSort inOrder).Pairwise fun first second => rank first ≤ rank second := by
  have htrans : ∀ first second third, inOrder first second = true → inOrder second third = true →
      inOrder first third = true := by
    simp only [inOrder_iff]
    exact fun _ _ _ => le_trans
  have htotal : ∀ first second, (inOrder first second || inOrder second first) = true := by
    simp only [Bool.or_eq_true, inOrder_iff]
    exact fun _ _ => le_total _ _
  exact (List.pairwise_mergeSort htrans htotal found).imp (inOrder_iff _ _).1

def listed (names : List String) (facts : FileFacts) : String × UInt64 :=
  (Path.ofSegments (names.map String.toList), facts.size)

/-- Whether some files are those that are shown in a folder within a limit, each of them once, in
order. The limit says how many folders may lead to a file. -/
structure Finds (survey : Survey) (shows : List String → Prop) (limit : Option Nat)
    (found : List (String × UInt64)) : Prop where
  pairwise : found.Pairwise fun first second => rank first ≤ rank second
  nodup : found.Nodup
  mem_iff : ∀ file, file ∈ found ↔ ∃ names facts,
    (DiskItem.folder survey.items).at? names = some (.file facts) ∧ shows names ∧
      (∀ most ∈ limit, names.length ≤ most + 1) ∧ file = listed names facts

variable {walk : Walker} {root : String} {survey : Survey} {shows : List String → Prop}
  {names below : List String} {facts other : FileFacts} {limit : Option Nat}
  {found few all : List (String × UInt64)} {file : String × UInt64} {visit : Visit}

theorem ne_nil_of_at? {items : List (String × DiskItem FileFacts)}
    (h : (DiskItem.folder items).at? names = some (.file facts)) : names ≠ [] := by
  rintro rfl
  cases h

theorem normal_names (hnames : ∀ name ∈ names, Disk.Plain name) :
    Path.Normal (names.map String.toList) := by
  simpa using Disk.normal_append Path.normal_nil hnames

theorem listed_inj (hnames : ∀ name ∈ names, Disk.Plain name)
    (hbelow : ∀ name ∈ below, Disk.Plain name) (heq : listed names facts = listed below other) :
    names = below := by
  have hsegments := ((normal_names hnames).ofSegments_inj (normal_names hbelow)).1 (Prod.mk.inj heq).1
  exact List.map_injective_iff.2 (fun _ _ => String.toList_inj.1) hsegments

/-- The path of a file is made relative to the root again, and named by its names. -/
theorem relative_pathTo (root : String) (hnames : ∀ name ∈ names, Disk.Plain name) :
    relative root (pathTo root names, facts.size) = .ok (listed names facts) := by
  have hstrip : Path.stripPrefix? root (pathTo root names) = some ("/".intercalate names) := by
    rw [Path.stripPrefix?, components_pathTo root hnames,
      List.isPrefixOf?_eq_some_iff_append_eq.2 rfl, Option.map_some]
  have hunify : ("/".intercalate names).toList.map Path.unify = ("/".intercalate names).toList := by
    rw [← Path.ofSegments_map_toList, Path.toList_ofSegments, (normal_names hnames).unify_join]
  rw [relative, hstrip]
  dsimp only
  rw [hunify, String.ofList_toList, listed, Path.ofSegments_map_toList]

/-- A file with its path from the root, or as it is. -/
def located (root : String) (file : String × UInt64) : String × UInt64 :=
  (relative root file).toOption.getD file

theorem located_pathTo (root : String) (hnames : ∀ name ∈ names, Disk.Plain name) :
    located root (pathTo root names, facts.size) = listed names facts := by
  rw [located, relative_pathTo root hnames]
  rfl

theorem mapM_relative (h : ∀ file ∈ found, relative root file = .ok (located root file)) :
    found.mapM (relative root) = .ok (found.map (located root)) := by
  induction found with
  | nil => rfl
  | cons file rest ih =>
    obtain ⟨hfile, hrest⟩ := List.forall_mem_cons.1 h
    rw [List.mapM_cons, hfile, ih hrest]
    rfl

/-- The files that the walk of a scan meets, as it meets them. -/
def met (walk : Walker) (root : String) (survey : Survey) (limit : Option Nat) :
    List (String × UInt64) :=
  (walk root survey (limit.map (· + 1))).filterMap Visit.file?

namespace Walker.Covers

variable (h : walk.Covers root survey shows) (hitems : Named survey.items) (limit : Option Nat)

include h

theorem mem_met : file ∈ met walk root survey limit ↔ ∃ names facts,
    (DiskItem.folder survey.items).at? names = some (.file facts) ∧ shows names ∧
      (∀ most ∈ limit, names.length ≤ most + 1) ∧ file = (pathTo root names, facts.size) := by
  have hdepth : ∀ names : List String, (∀ depth ∈ limit.map (· + 1), names.length ≤ depth) ↔
      ∀ most ∈ limit, names.length ≤ most + 1 := fun names => by simp
  rw [met, List.mem_filterMap]
  constructor
  · rintro ⟨visit, hvisit, hfile⟩
    obtain ⟨names, item, hat, hshows, hmost, rfl⟩ := (h.mem_iff _ visit).1 hvisit
    cases item with
    | file facts =>
      exact ⟨names, facts, hat, hshows, (hdepth names).1 hmost, (Option.some.inj hfile).symm⟩
    | folder items => cases hfile
  · rintro ⟨names, facts, hat, hshows, hmost, rfl⟩
    exact ⟨_, (h.mem_iff _ _).2 ⟨names, _, hat, hshows, (hdepth names).2 hmost, rfl⟩, rfl⟩

theorem eq_file (most? : Option Nat) (hvisit : visit ∈ walk root survey most?)
    (hfile : visit.file? = some file) : visit = .file file.1 (some file.2) := by
  obtain ⟨names, item, -, -, -, rfl⟩ := (h.mem_iff most? visit).1 hvisit
  cases item with
  | file facts =>
    cases hfile
    rfl
  | folder items => cases hfile

theorem nodup_met : (met walk root survey limit).Nodup := by
  refine List.pairwise_filterMap.2 ((h.nodup _).imp_of_mem ?_)
  intro visit another hvisit hanother hne file hfile other hother heq
  rw [h.eq_file _ hvisit hfile, h.eq_file _ hanother hother, heq] at hne
  exact hne rfl

include hitems

theorem mapM_relative : (met walk root survey limit).mapM (relative root) =
    .ok ((met walk root survey limit).map (located root)) := by
  refine Scan.mapM_relative fun file hfile => ?_
  obtain ⟨names, facts, hat, -, -, rfl⟩ := (h.mem_met limit).1 hfile
  rw [relative_pathTo root (hitems.plain_of_at? hat), located_pathTo root (hitems.plain_of_at? hat)]

theorem mem_map_located : file ∈ (met walk root survey limit).map (located root) ↔
    ∃ names facts, (DiskItem.folder survey.items).at? names = some (.file facts) ∧ shows names ∧
      (∀ most ∈ limit, names.length ≤ most + 1) ∧ file = listed names facts := by
  rw [List.mem_map]
  constructor
  · rintro ⟨file, hfile, rfl⟩
    obtain ⟨names, facts, hat, hshows, hmost, rfl⟩ := (h.mem_met limit).1 hfile
    exact ⟨names, facts, hat, hshows, hmost, located_pathTo root (hitems.plain_of_at? hat)⟩
  · rintro ⟨names, facts, hat, hshows, hmost, rfl⟩
    exact ⟨_, (h.mem_met limit).2 ⟨names, facts, hat, hshows, hmost, rfl⟩,
      located_pathTo root (hitems.plain_of_at? hat)⟩

theorem nodup_map_located : ((met walk root survey limit).map (located root)).Nodup := by
  refine (h.nodup_met limit).map_on fun file hfile other hother heq => ?_
  obtain ⟨names, facts, hat, -, -, rfl⟩ := (h.mem_met limit).1 hfile
  obtain ⟨below, found, hbelow, -, -, rfl⟩ := (h.mem_met limit).1 hother
  have hnames := hitems.plain_of_at? hat
  have hplain := hitems.plain_of_at? hbelow
  rw [located_pathTo root hnames, located_pathTo root hplain] at heq
  rw [listed_inj hnames hplain heq, (Prod.mk.inj heq).2]

/-- The files of a scan are those that are shown. -/
theorem exists_finds :
    ∃ found, files walk root survey limit = .ok found ∧ Finds survey shows limit found := by
  refine ⟨((met walk root survey limit).map (located root)).mergeSort inOrder, ?_,
    pairwise_mergeSort _, ?_, fun file => ?_⟩
  · have hmapM := h.mapM_relative hitems limit
    unfold met at hmapM
    unfold files
    dsimp only
    rw [hmapM]
    rfl
  · exact (List.mergeSort_perm _ _).nodup_iff.2 (h.nodup_map_located hitems limit)
  · rw [List.mem_mergeSort, h.mem_map_located hitems]

end Walker.Covers

theorem Finds.sorted (h : Finds survey shows limit found) (hitems : Named survey.items) :
    FileTree.Sorted found where
  pairwise := h.pairwise.imp fun hle =>
    (Prod.Lex.toLex_le_toLex.1 hle).elim le_of_lt fun heq => le_of_eq heq.1
  normal file hfile := by
    obtain ⟨names, facts, hat, -, -, rfl⟩ := (h.mem_iff file).1 hfile
    exact (normal_names (hitems.plain_of_at? hat)).normalize_ofSegments
  ne_empty file hfile := by
    obtain ⟨names, facts, hat, -, -, rfl⟩ := (h.mem_iff file).1 hfile
    have hnormal := normal_names (hitems.plain_of_at? hat)
    exact mt hnormal.ofSegments_eq_empty_iff.1 (mt List.map_eq_nil_iff.1 (ne_nil_of_at? hat))

theorem count_slash_listed (facts : FileFacts) (hnames : ∀ name ∈ names, Disk.Plain name) (hne : names ≠ []) :
    (listed names facts).1.toList.count '/' + 1 = names.length := by
  have hcount := FileTree.count_slash_ofSegments (normal_names hnames)
    (mt List.map_eq_nil_iff.1 hne)
  rwa [List.length_map] at hcount

/-- The files that are found within a limit are those with few slashes in their paths. -/
theorem Finds.eq_filter {most : Nat} (hfew : Finds survey shows (some most) few)
    (hall : Finds survey shows none all) (hitems : Named survey.items) :
    few = all.filter fun file => file.1.toList.count '/' ≤ most := by
  refine List.Perm.eq_of_pairwise ?_ hfew.pairwise (hall.pairwise.filter _) ?_
  · exact fun first second _ _ hle hge => rank_injective (le_antisymm hle hge)
  refine (List.perm_ext_iff_of_nodup hfew.nodup (hall.nodup.filter _)).2 fun file => ?_
  rw [List.mem_filter, hfew.mem_iff, hall.mem_iff]
  constructor
  · rintro ⟨names, facts, hat, hshows, hlimit, rfl⟩
    refine ⟨⟨names, facts, hat, hshows, nofun, rfl⟩, decide_eq_true ?_⟩
    have hcount := count_slash_listed facts (hitems.plain_of_at? hat) (ne_nil_of_at? hat)
    have hlength := hlimit most rfl
    omega
  · rintro ⟨⟨names, facts, hat, hshows, -, rfl⟩, hslashes⟩
    refine ⟨names, facts, hat, hshows, fun _ hmost => ?_, rfl⟩
    have hcount := count_slash_listed facts (hitems.plain_of_at? hat) (ne_nil_of_at? hat)
    have hflat := of_decide_eq_true hslashes
    rw [← Option.mem_some.1 hmost]
    omega

theorem Finds.filesUpTo_build (h : Finds survey shows limit found) (hitems : Named survey.items) :
    FileTree.filesUpTo none (FileTree.build found) = found.map fun file => .file file.1 file.2 :=
  FileTree.filesUpTo_build_of_sorted (h.sorted hitems)

/-- A limit of the scan is one of the list. -/
theorem Finds.filesUpTo_build_some {most : Nat} (hfew : Finds survey shows (some most) few)
    (hall : Finds survey shows none all) (hitems : Named survey.items) :
    FileTree.filesUpTo none (FileTree.build few) =
      FileTree.filesUpTo (some most) (FileTree.build all) := by
  have hlimit := (FileTree.nested_build all).filesUpTo_some most
  rw [hall.filesUpTo_build hitems, List.length_nil, Nat.zero_add, List.filter_map] at hlimit
  rw [hfew.filesUpTo_build hitems, hfew.eq_filter hall hitems]
  exact hlimit.symm

end CodeGraph.Scan
