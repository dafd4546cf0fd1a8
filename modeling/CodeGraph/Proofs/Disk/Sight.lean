import CodeGraph.Disk.Basic
import CodeGraph.Proofs.Lookup

/-! What is seen on a disk: at each place nothing, a folder or a file. Paths are followed by sight
alone, and changes show only at the place that is changed and below it. -/
namespace CodeGraph

/-- What is seen at a place. -/
inductive Sight (α : Type) where
  | nothing
  | folder
  | file (content : α)
  deriving DecidableEq

namespace DiskItem

variable {α : Type} {item new : DiskItem α} {items : List (String × DiskItem α)} {name : String}
  {path names : List String}

def seen : Option (DiskItem α) → Sight α
  | none => .nothing
  | some (folder _) => .folder
  | some (file content) => .file content

def sight (item : DiskItem α) (names : List String) : Sight α := seen (item.at? names)

theorem sight_eq_nothing : item.sight names = .nothing ↔ item.at? names = none := by
  unfold sight
  match item.at? names with
  | none => simp [seen]
  | some (file _) => simp [seen]
  | some (folder _) => simp [seen]

theorem sight_eq_folder :
    item.sight names = .folder ↔ ∃ items, item.at? names = some (folder items) := by
  unfold sight
  match item.at? names with
  | none => simp [seen]
  | some (file _) => simp [seen]
  | some (folder _) => simp [seen]

theorem sight_eq_file {content : α} :
    item.sight names = .file content ↔ item.at? names = some (file content) := by
  unfold sight
  match item.at? names with
  | none => simp [seen]
  | some (file _) => simp [seen]
  | some (folder _) => simp [seen]

theorem contentAt?_eq_some {content : α} :
    item.contentAt? names = some content ↔ item.sight names = .file content := by
  unfold contentAt? sight
  match item.at? names with
  | none => simp [seen]
  | some (file _) => simp [seen]
  | some (folder _) => simp [seen]

theorem sight_nil_of_isFolder (h : item.isFolder) : item.sight [] = .folder := by
  cases item with
  | file content => cases h
  | folder items => rfl

theorem sight_file_cons (content : α) (name : String) (names : List String) :
    (file content).sight (name :: names) = .nothing := rfl

theorem sight_folder_cons : (folder items).sight (name :: names) =
    ((items.lookup name).elim .nothing fun item => item.sight names) := by
  unfold sight
  rw [at?]
  cases items.lookup name <;> rfl

/-- Nothing stands below what is not a folder. -/
theorem sight_append (h : item.sight path ≠ .folder) (hnames : names ≠ []) :
    item.sight (path ++ names) = .nothing := by
  induction path generalizing item with
  | nil =>
    obtain ⟨name, rest, rfl⟩ := List.exists_cons_of_ne_nil hnames
    cases item with
    | file content => rfl
    | folder items => exact absurd rfl h
  | cons name path ih =>
    cases item with
    | file content => rfl
    | folder items =>
      rw [List.cons_append, sight_folder_cons]
      rw [sight_folder_cons] at h
      cases hitem : items.lookup name with
      | none => rfl
      | some item =>
        rw [hitem] at h
        exact ih h

/-- What stands somewhere stands in a folder. -/
theorem sight_dropLast (h : item.sight path ≠ .nothing) (hpath : path ≠ []) :
    item.sight path.dropLast = .folder := by
  by_contra hparent
  refine h ?_
  rw [← List.dropLast_append_getLast hpath]
  exact sight_append hparent (List.cons_ne_nil _ _)

/-- Where nothing stands nothing stands below. -/
theorem sight_of_isPrefix (h : item.sight path = .nothing) (hnames : path <+: names) :
    item.sight names = .nothing := by
  obtain ⟨more, rfl⟩ := hnames
  by_cases hmore : more = []
  · rwa [hmore, List.append_nil]
  · exact sight_append (by rw [h]; nofun) hmore

theorem lookup_setItem (name other : String) (item : DiskItem α)
    (items : List (String × DiskItem α)) :
    (setItem name item items).lookup other =
      if other = name then some item else items.lookup other := by
  induction items with
  | nil => rw [setItem, Lookup.lookup_cons]
  | cons first rest ih =>
    obtain ⟨old, oldItem⟩ := first
    by_cases hname : old = name
    · rw [setItem, if_pos hname, Lookup.lookup_cons, Lookup.lookup_cons, hname]
      split_ifs <;> rfl
    · rw [setItem, if_neg hname, Lookup.lookup_cons, Lookup.lookup_cons, ih]
      by_cases h : other = old
      · rw [if_pos h, if_pos h, if_neg (h.trans_ne hname)]
      · rw [if_neg h, if_neg h]

theorem sight_setItem (name other : String) (names : List String) :
    (folder (setItem name new items)).sight (other :: names) =
      if other = name then new.sight names else (folder items).sight (other :: names) := by
  rw [sight_folder_cons, lookup_setItem, sight_folder_cons]
  split_ifs <;> rfl

/-- What is put in a folder is seen from its place on, and nothing else changes. -/
theorem sight_put (hpath : path ≠ []) (hfolder : item.sight path.dropLast = .folder)
    (names : List String) : (put new path item).sight names =
      if path <+: names then new.sight (names.drop path.length) else item.sight names := by
  induction path generalizing item names with
  | nil => exact absurd rfl hpath
  | cons name path ih =>
    cases item with
    | file content => cases path <;> cases hfolder
    | folder items =>
      rw [put]
      cases names with
      | nil =>
        rw [if_neg (by simp)]
        rfl
      | cons other names =>
        rw [sight_setItem]
        simp only [List.cons_prefix_cons, List.length_cons, List.drop_succ_cons]
        by_cases hname : other = name
        · subst hname
          cases path with
          | nil => simp [put]
          | cons next path =>
            rw [List.dropLast_cons_cons, sight_folder_cons] at hfolder
            rw [sight_folder_cons]
            cases hitem : items.lookup other with
            | none =>
              rw [hitem] at hfolder
              cases hfolder
            | some item =>
              rw [hitem] at hfolder
              simpa using ih (List.cons_ne_nil _ _) hfolder names
        · rw [if_neg hname, if_neg fun hprefix => hname hprefix.1.symm]

theorem sight_put_self (hpath : path ≠ []) (hfolder : item.sight path.dropLast = .folder) :
    (put new path item).sight path = new.sight [] := by
  rw [sight_put hpath hfolder, if_pos (List.prefix_refl _), List.drop_length]

theorem sight_put_of_not_isPrefix (hpath : path ≠ []) (hfolder : item.sight path.dropLast = .folder)
    (hnames : ¬ path <+: names) : (put new path item).sight names = item.sight names := by
  rw [sight_put hpath hfolder, if_neg hnames]

theorem remove_file (path : List String) (content : α) (hpath : path ≠ []) :
    remove path (file content) = file content := by
  match path with
  | [] => exact absurd rfl hpath
  | [_] => rfl
  | _ :: _ :: _ => rfl

theorem remove_folder_cons {next : String} : remove (name :: next :: path) (folder items) =
    match items.lookup name with
    | some item => folder (setItem name (remove (next :: path) item) items)
    | none => folder items :=
  rfl

/-- What is removed is not seen any more, and nothing else changes. -/
theorem sight_remove (hpath : path ≠ []) (names : List String) : (remove path item).sight names =
    if path <+: names then .nothing else item.sight names := by
  induction path generalizing item names with
  | nil => exact absurd rfl hpath
  | cons name path ih =>
    cases names with
    | nil =>
      rw [if_neg (by simp)]
      cases item with
      | file content => rw [remove_file _ _ hpath]
      | folder items =>
        cases path with
        | nil => rfl
        | cons next path =>
          rw [remove_folder_cons]
          split <;> rfl
    | cons other names =>
      simp only [List.cons_prefix_cons]
      cases item with
      | file content =>
        rw [remove_file _ _ hpath, sight_file_cons, ite_self]
      | folder items =>
        by_cases hname : other = name
        · subst hname
          cases path with
          | nil =>
            rw [remove, sight_folder_cons, Lookup.lookup_filter_ne, if_pos rfl, if_pos ⟨rfl, List.nil_prefix⟩]
            rfl
          | cons next path =>
            rw [remove_folder_cons]
            cases hitem : items.lookup other with
            | none =>
              rw [sight_folder_cons, hitem]
              exact (ite_self _).symm
            | some item =>
              dsimp only
              rw [sight_setItem, if_pos rfl, ih (List.cons_ne_nil _ _), sight_folder_cons, hitem]
              simp
        · rw [if_neg fun hprefix => hname hprefix.1.symm]
          cases path with
          | nil => rw [remove, sight_folder_cons, Lookup.lookup_filter_ne, if_neg hname, sight_folder_cons]
          | cons next path =>
            rw [remove_folder_cons]
            split
            · rw [sight_setItem, if_neg hname]
            · rfl

end DiskItem

end CodeGraph
