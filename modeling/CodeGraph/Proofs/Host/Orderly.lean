import CodeGraph.Host.World
import CodeGraph.Proofs.Action
import CodeGraph.Proofs.Disk.Folders

/-! What a host may do to files. Whatever it answers, an orderly host leaves everything as it is
where it is asked for something, leaves all files alone where it makes folders, and changes no other
file than the one that it is told to write. -/
namespace CodeGraph

variable {σ α β γ : Type}

namespace Action

/-- An action that leaves what is seen of the state as it is. -/
def Leaves (view : σ → γ) (action : StateM σ α) : Prop :=
  ∀ state, view (action.run state).2 = view state

variable {view : σ → γ}

theorem Leaves.pure (value : α) : Leaves view (pure value) := fun _ => rfl

theorem Leaves.bind {action : StateM σ α} {next : α → StateM σ β} (h : Leaves view action)
    (hnext : ∀ value, Leaves view (next value)) : Leaves view (action >>= next) :=
  fun state => (hnext _ _).trans (h state)

theorem Leaves.map {action : StateM σ α} (h : Leaves view action) (change : α → β) :
    Leaves view (change <$> action) := h

theorem Leaves.mapM {action : α → StateM σ β} (h : ∀ item, Leaves view (action item))
    (items : List α) : Leaves view (items.mapM action) := by
  induction items with
  | nil => exact .pure []
  | cons item rest ih =>
    rw [List.mapM_cons]
    exact (h item).bind fun value => ih.bind fun values => .pure (value :: values)

end Action

/-- The files in a state: all that there is, the content of the file at a place, and the places that
a path may lead to. -/
structure Files (σ : Type) where
  Image : Type
  Place : Type
  image : σ → Image
  content? : Image → Place → Option ByteArray
  Leads : Image → String → Place → Prop

namespace Files

variable {files : Files σ} {allowed more : files.Place → Prop} {state before between after : σ}

/-- Whether there are the same files with the same contents in two states. -/
def SameFiles (files : Files σ) (before after : σ) : Prop :=
  files.content? (files.image after) = files.content? (files.image before)

/-- Whether only files at some places differ between two states. -/
def OnlyAt (files : Files σ) (allowed : files.Place → Prop) (before after : σ) : Prop :=
  ∀ place, ¬ allowed place →
    files.content? (files.image after) place = files.content? (files.image before) place

theorem SameFiles.of_image (h : files.image after = files.image before) :
    files.SameFiles before after :=
  congrArg files.content? h

theorem SameFiles.onlyAt (h : files.SameFiles before after) (allowed : files.Place → Prop) :
    files.OnlyAt allowed before after :=
  fun place _ => congrFun h place

theorem OnlyAt.refl (allowed : files.Place → Prop) (state : σ) : files.OnlyAt allowed state state :=
  fun _ _ => rfl

theorem OnlyAt.trans (h : files.OnlyAt allowed before between)
    (hmore : files.OnlyAt allowed between after) : files.OnlyAt allowed before after :=
  fun place hplace => (hmore place hplace).trans (h place hplace)

theorem OnlyAt.mono (h : files.OnlyAt allowed before after)
    (hmore : ∀ place, allowed place → more place) : files.OnlyAt more before after :=
  fun place hplace => h place (mt (hmore place) hplace)

/-- One action after the other changes only files that either may change. -/
theorem OnlyAt.bind {action : StateM σ α} {next : α → StateM σ β}
    (h : files.OnlyAt allowed before (action.run state).2)
    (hnext : ∀ value, files.OnlyAt allowed (action.run state).2
      ((next value).run (action.run state).2).2) :
    files.OnlyAt allowed before ((action >>= next).run state).2 :=
  h.trans (hnext _)

end Files

/-- A host that changes files as it is told to, and in no other way. -/
structure Host.Orderly (host : Host (StateM σ)) (files : Files σ) : Prop where
  hasItem : ∀ path, Action.Leaves files.image (host.hasItem path)
  hasFolder : ∀ path, Action.Leaves files.image (host.hasFolder path)
  read : ∀ path, Action.Leaves files.image (host.read path)
  survey : ∀ path, Action.Leaves files.image (host.survey path)
  readNearest : ∀ name, Action.Leaves files.image (host.readNearest name)
  send : ∀ request, Action.Leaves files.image (host.send request)
  setting : ∀ name, Action.Leaves files.image (host.setting name)
  now : Action.Leaves files.image host.now
  elapsed : Action.Leaves files.image host.elapsed
  makeFolders : ∀ path state, files.SameFiles state ((host.makeFolders path).run state).2
  write : ∀ path content state, files.OnlyAt (files.Leads (files.image state) path) state
    ((host.write path content).run state).2

namespace Disk

open DiskItem

variable {disk home written : Disk} {path : String} {place names list : List String}
  {content : ByteArray}

/-- A path leads somewhere only if the top of the disk is a folder. -/
theorem sight_nil_of_place (h : disk.place path = .ok place) : disk.sight [] = .folder := by
  unfold Disk.place at h
  split_ifs at h
  by_contra hfolder
  have hparts : parts path ≠ [] := by
    unfold parts
    simpa using Path.split_ne_nil path.toList
  obtain ⟨part, rest, hrest⟩ := List.exists_cons_of_ne_nil hparts
  rw [hrest, follow_of_not_folder hfolder] at h
  cases h

theorem place_parent (h : disk.place path = .ok place) :
    place = [] ∨ disk.sight place.dropLast = .folder := by
  unfold Disk.place at h
  split_ifs at h
  exact follow_parent (.inl rfl) h

/-- Writing changes the file that the path leads to, and no other one. -/
theorem contentAt?_write (h : disk.write path content = .ok written)
    (hnames : disk.place path ≠ .ok names) : written.contentAt? names = disk.contentAt? names := by
  cases hplace : disk.place path with
  | error error =>
    rw [write_of_error hplace] at h
    cases h
  | ok place =>
    by_cases hfolder : disk.sight place = .folder
    · rw [write_of_folder hplace hfolder] at h
      cases h
    · rw [write_of_place hplace hfolder] at h
      cases h
      have hne : place ≠ [] := by
        rintro rfl
        exact hfolder (sight_nil_of_place hplace)
      have hsight : (put (.file content) place disk).sight names = disk.sight names := by
        rw [sight_put hne ((place_parent hplace).resolve_left hne)]
        split_ifs with hprefix
        · -- nothing stands below a file, or where a file may be put
          obtain ⟨more, rfl⟩ := hprefix
          have hmore : more ≠ [] := by
            rintro rfl
            exact hnames (by rw [hplace, List.append_nil])
          have hbelow : (file content).sight ([] ++ more) = .nothing := sight_append nofun hmore
          rw [List.drop_left, sight_append hfolder hmore]
          exact hbelow
        · rfl
      refine Option.ext fun found => ?_
      rw [contentAt?_eq_some, contentAt?_eq_some, hsight]

theorem ensure_of_not_folder (htop : disk.sight [] ≠ .folder) (path : String) :
    ensure disk path ≠ .ok home := by
  intro hmade
  cases hplace : disk.place path with
  | ok place => exact htop (sight_nil_of_place hplace)
  | error error =>
    rcases ensure_eq_ok hmade with hfolder | ⟨-, hfolder⟩
    · rw [makeFolder_of_error hplace] at hfolder
      cases hfolder
    · rw [hasFolder_of_error hplace] at hfolder
      cases hfolder

theorem makeParts_of_not_folder (htop : disk.sight [] ≠ .folder)
    (hmade : disk.makeParts list = .ok home) : home = disk := by
  induction list generalizing home with
  | nil => exact (Except.ok.inj hmade).symm
  | cons part above ih =>
    obtain ⟨base, hbase, hmade⟩ := makeParts_cons_eq_ok hmade
    have hsame : base = disk := hbase.elim id fun habove => ih habove
    rw [hsame] at hmade
    exact absurd hmade (ensure_of_not_folder htop _)

theorem contentAt?_makeFolders (h : disk.makeFolders path = .ok home) :
    home.contentAt? = disk.contentAt? := by
  by_cases htop : disk.sight [] = .folder
  · obtain ⟨hgrows, -⟩ := makeFolders_spec htop h
    funext names
    refine Option.ext fun found => ?_
    rw [contentAt?_eq_some, contentAt?_eq_some, hgrows.file]
  · rw [makeParts_of_not_folder htop h]

end Disk

def Files.ofDisk : Files World where
  Image := Disk
  Place := List String
  image := World.disk
  content? := DiskItem.contentAt?
  Leads disk path place := disk.place path = .ok place

theorem Host.orderly_ofWorld (surroundings : Surroundings) :
    (Host.ofWorld surroundings).Orderly .ofDisk where
  hasItem _ _ := rfl
  hasFolder _ _ := rfl
  read _ _ := rfl
  survey _ _ := rfl
  readNearest _ _ := rfl
  send _ _ := rfl
  setting _ _ := rfl
  now _ := rfl
  elapsed _ := rfl
  makeFolders path world := by
    change (World.change (·.makeFolders path) world).2.disk.contentAt? = world.disk.contentAt?
    unfold World.change
    dsimp only
    cases hmade : world.disk.makeFolders path with
    | error error => rfl
    | ok home => exact Disk.contentAt?_makeFolders hmade
  write path content world place hplace := by
    change (World.change (·.write path content) world).2.disk.contentAt? place =
      world.disk.contentAt? place
    unfold World.change
    dsimp only
    cases hwrite : world.disk.write path content with
    | error error => rfl
    | ok written => exact Disk.contentAt?_write hwrite hplace

end CodeGraph
