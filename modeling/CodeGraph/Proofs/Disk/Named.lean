import CodeGraph.Proofs.Disk.Follow
import CodeGraph.Proofs.Path.Normal

/-! Folders whose items are named as a disk names them, and the paths that lead to these items from
outside the folder. -/
namespace CodeGraph

namespace Disk

/-- A name of an item in which no character counts as a slash. -/
structure Plain (name : String) : Prop extends Ordinary name where
  backslash : '\\' ∉ name.toList

theorem plain_iff {name : String} : Plain name ↔ (name ≠ "" ∧ name ≠ "." ∧ name ≠ "..") ∧
    ('/' ∉ name.toList ∧ '\\' ∉ name.toList) ∧
    '\x00' ∉ name.toList ∧ name.utf8ByteSize ≤ 255 := by
  rw [← nameError?_eq_none_iff]
  constructor
  · exact fun h => ⟨⟨h.ne_empty, h.dot, h.up⟩, ⟨h.slash, h.backslash⟩, h.error⟩
  · rintro ⟨⟨hne, hdot, hup⟩, ⟨hslash, hback⟩, herror⟩
    exact ⟨⟨⟨hne, hslash⟩, hdot, hup, herror⟩, hback⟩

instance (name : String) : Decidable (Plain name) := decidable_of_iff' _ plain_iff

theorem Plain.segment {name : String} (h : Plain name) :
    Path.Ordinary name.toList ∧ '/' ∉ name.toList ∧ '\\' ∉ name.toList := by
  refine ⟨⟨?_, ?_, ?_⟩, h.slash, h.backslash⟩
  · exact fun hnil => h.ne_empty (String.toList_inj.1 hnil)
  · exact fun hdot => h.dot (String.toList_inj.1 hdot)
  · exact fun hup => h.up (String.toList_inj.1 hup)

theorem Plain.concat {above : List Path.Segment} {name : String} (h : Plain name)
    (habove : Path.Normal above) : Path.Normal (above ++ [name.toList]) :=
  habove.concat_name h.segment.1 h.segment.2

theorem normal_append {above : List Path.Segment} {names : List String} (habove : Path.Normal above)
    (hnames : ∀ name ∈ names, Plain name) : Path.Normal (above ++ names.map String.toList) := by
  induction names generalizing above with
  | nil => rwa [List.map_nil, List.append_nil]
  | cons name names ih =>
    obtain ⟨hname, hrest⟩ := List.forall_mem_cons.1 hnames
    rw [List.map_cons, List.append_cons]
    exact ih (hname.concat habove) hrest

end Disk

namespace DiskItem

variable {α β : Type} {name : String} {item : DiskItem α} {items : List (String × DiskItem α)}

/-- Items of a folder with different names without backslashes, and so in all folders below. -/
inductive Named : List (String × DiskItem α) → Prop where
  | nil : Named []
  | file {name : String} {content : α} {rest : List (String × DiskItem α)}
      (hname : Disk.Plain name) (hnew : name ∉ rest.map (·.1)) (hrest : Named rest) :
      Named ((name, .file content) :: rest)
  | folder {name : String} {inner rest : List (String × DiskItem α)}
      (hname : Disk.Plain name) (hnew : name ∉ rest.map (·.1)) (hinner : Named inner)
      (hrest : Named rest) : Named ((name, .folder inner) :: rest)

theorem map_fst_mapItems (change : α → β) (items : List (String × DiskItem α)) :
    (mapItems change items).map (·.1) = items.map (·.1) := by
  induction items with
  | nil => rfl
  | cons first rest ih => rw [mapItems, List.map_cons, List.map_cons, ih]

theorem Named.mapItems (h : Named items) (change : α → β) : Named (mapItems change items) := by
  induction h with
  | nil => exact .nil
  | file hname hnew _ ih => exact .file hname (by rwa [map_fst_mapItems]) ih
  | folder hname hnew _ _ ihInner ih => exact .folder hname (by rwa [map_fst_mapItems]) ihInner ih

theorem Named.plain (h : Named items) (hmem : (name, item) ∈ items) : Disk.Plain name := by
  induction h with
  | nil => cases hmem
  | file hname _ _ ih | folder hname _ _ _ _ ih =>
    rcases List.mem_cons.1 hmem with heq | hmem
    · rwa [(Prod.mk.inj heq).1]
    · exact ih hmem

theorem Named.inner {inner : List (String × DiskItem α)} (h : Named items)
    (hmem : (name, .folder inner) ∈ items) : Named inner := by
  induction h with
  | nil => cases hmem
  | file _ _ _ ih =>
    rcases List.mem_cons.1 hmem with heq | hmem
    · cases heq
    · exact ih hmem
  | folder _ _ hinner _ _ ih =>
    rcases List.mem_cons.1 hmem with heq | hmem
    · cases heq
      exact hinner
    · exact ih hmem

theorem Named.lookup_eq (h : Named items) (hmem : (name, item) ∈ items) :
    items.lookup name = some item := by
  induction h with
  | nil => cases hmem
  | file _ hnew _ ih | folder _ hnew _ _ _ ih =>
    rw [Lookup.lookup_cons]
    rcases List.mem_cons.1 hmem with heq | hmem
    · rw [if_pos (Prod.mk.inj heq).1, (Prod.mk.inj heq).2]
    · rw [if_neg fun heq => hnew (List.mem_map.2 ⟨_, hmem, heq⟩), ih hmem]

/-- Names that lead to an item are names of items. -/
theorem Named.plain_of_at? {names : List String} (h : Named items)
    (hitem : (DiskItem.folder items).at? names = some item) : ∀ name ∈ names, Disk.Plain name := by
  induction names generalizing items with
  | nil => exact fun _ hname => nomatch hname
  | cons name names ih =>
    obtain ⟨inner, hlookup, hinner⟩ := Option.bind_eq_some_iff.1 hitem
    have hmem := Lookup.mem_of_lookup_eq hlookup
    refine List.forall_mem_cons.2 ⟨h.plain hmem, ?_⟩
    cases inner with
    | folder inner => exact ih (h.inner hmem) hinner
    | file content =>
      cases names with
      | nil => exact fun _ hname => nomatch hname
      | cons => cases hinner

theorem lookup_mapItems (change : α → β) (items : List (String × DiskItem α)) (name : String) :
    (mapItems change items).lookup name = (items.lookup name).map (map change) := by
  induction items with
  | nil => rfl
  | cons first rest ih =>
    rw [mapItems, Lookup.lookup_cons, Lookup.lookup_cons, ih]
    split_ifs <;> rfl

theorem at?_map (change : α → β) (item : DiskItem α) (names : List String) :
    (map change item).at? names = (item.at? names).map (map change) := by
  induction names generalizing item with
  | nil => rfl
  | cons name names ih =>
    cases item with
    | file content => rfl
    | folder items =>
      rw [map, at?, at?, lookup_mapItems]
      cases items.lookup name with
      | none => rfl
      | some item => exact ih item

theorem at?_append (item : DiskItem α) (path names : List String) :
    item.at? (path ++ names) = (item.at? path).bind (·.at? names) := by
  induction path generalizing item with
  | nil => rfl
  | cons name path ih =>
    cases item with
    | file content => rfl
    | folder items =>
      rw [List.cons_append, at?, at?, Option.bind_assoc]
      simp only [ih]

end DiskItem

namespace Disk

open DiskItem

variable {disk : Disk} {here place names : List String} {path root : String}

theorem follow_names (hnames : ∀ name ∈ names, Ordinary name)
    (h : disk.sight (here ++ names) ≠ .nothing) :
    follow disk here names = .ok (here ++ names) := by
  induction names generalizing here with
  | nil => rw [follow, List.append_nil]
  | cons name names ih =>
    obtain ⟨hname, hrest⟩ := List.forall_mem_cons.1 hnames
    have hfolder : disk.sight here = .folder := by
      by_contra hhere
      exact h (sight_append hhere (List.cons_ne_nil _ _))
    rw [List.append_cons] at h ⊢
    have hstep := @follow_append disk here [name] names
    rw [follow_ordinary hname hfolder] at hstep
    exact hstep.trans (ih hrest h)

theorem eq_of_follow_empty (h : follow disk here [""] = .ok place) : place = here := by
  by_cases hhere : disk.sight here = .folder
  · rw [follow_of_folder hhere, enter, if_pos (.inl rfl)] at h
    exact (Except.ok.inj h).symm
  · rw [follow_of_not_folder hhere] at h
    cases h

theorem place_eq_ok (h : disk.place path = .ok place) :
    path ≠ "" ∧ follow disk [] (parts path) = .ok place := by
  unfold Disk.place at h
  split_ifs at h with hempty
  exact ⟨fun hnil => hempty (String.isEmpty_iff.2 hnil), h⟩

/-- A path that is joined to that of a folder is followed from the folder. -/
theorem place_joined_eq_follow (hroot : disk.place root = .ok place) (path : String) :
    disk.place (Path.joined root path) = follow disk place (parts path) := by
  obtain ⟨hne, hfollow⟩ := place_eq_ok hroot
  have hplace : ∀ more : String, disk.place (root ++ more) = follow disk [] (parts (root ++ more)) :=
    fun more => place_eq_follow fun hnil => hne (String.append_eq_empty_iff.1 hnil).1
  unfold Path.joined
  split_ifs with hend
  · have hslash := hend.resolve_left fun hempty => hne (String.isEmpty_iff.1 hempty)
    obtain ⟨text, rfl⟩ := exists_of_endsWith_slash hslash
    have htext := parts_append_slash text ""
    rw [String.append_empty] at htext
    rw [htext, follow_append] at hfollow
    rw [hplace, parts_append_slash, follow_append]
    cases habove : follow disk [] (parts text) with
    | error error =>
      rw [habove] at hfollow
      cases hfollow
    | ok here =>
      rw [habove] at hfollow
      rw [eq_of_follow_empty hfollow]
      rfl
  · rw [String.append_assoc, hplace, ← String.append_assoc, parts_append_slash, follow_append,
      hfollow]
    rfl

end Disk

end CodeGraph
