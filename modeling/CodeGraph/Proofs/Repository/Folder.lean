import CodeGraph.Host.World
import CodeGraph.Proofs.Web.Service
import CodeGraph.Proofs.Web.Spelling
import CodeGraph.Repository.Client

/-! The addresses that folders of repositories are listed at. The path of a folder is put into the
address as it is, so that it names the folder exactly if it spells itself there. -/
namespace CodeGraph.Repository

/-- A name of letters, digits and a few other characters that is not dots. -/
structure IsPlainName (name : String) : Prop where
  chars : ∀ c ∈ name.toList, c.isAlphanum = true ∨ c = '-' ∨ c = '_' ∨ c = '.'
  ne_dot : name ≠ "."
  ne_up : name ≠ ".."

/-- A repository whose owner and name are plain. -/
structure Locator.IsPlain (locator : Locator) : Prop where
  owner : IsPlainName locator.owner
  name : IsPlainName locator.name

/-- The path of a folder; that of the root is empty. -/
structure IsFolderPath (path : String) : Prop where
  ordinary : path ≠ "" → ∀ segment ∈ Path.split path.toList, Path.Ordinary segment
  printable : ∀ c ∈ path.toList, ' ' ≤ c

theorem IsFolderPath.of_all {path : String}
    (h : (Path.split path.toList).all fun segment =>
      segment ≠ [] ∧ segment ≠ ['.'] ∧ segment ≠ Path.up)
    (hprintable : path.toList.all (' ' ≤ ·)) : IsFolderPath path where
  ordinary _ segment hmem :=
    have hsegment := of_decide_eq_true (List.all_eq_true.1 h segment hmem)
    ⟨hsegment.1, hsegment.2.1, hsegment.2.2⟩
  printable c hc := of_decide_eq_true (List.all_eq_true.1 hprintable c hc)

def Locator.contents (locator : Locator) (path : String) : String :=
  "repos/" ++ locator.owner ++ "/" ++ locator.name ++ "/contents/" ++ path

variable {locator other : Locator} {path folder name : String}

theorem le_of_isAlphanum {c : Char} (h : c.isAlphanum = true) : ' ' ≤ c := by
  simp only [Char.isAlphanum, Char.isAlpha, Char.isUpper, Char.isLower, Char.isDigit,
    Bool.or_eq_true, Bool.and_eq_true, decide_eq_true_eq, UInt32.le_iff_toNat_le, ge_iff_le] at h
  have hupper : 'A'.val.toNat = 65 := rfl
  have hlower : 'a'.val.toNat = 97 := rfl
  have hdigit : '0'.val.toNat = 48 := rfl
  show 32 ≤ c.val.toNat
  omega

theorem IsPlainName.char {c : Char} (h : IsPlainName name) (hc : c ∈ name.toList) :
    ' ' ≤ c ∧ c ≠ '/' ∧ ¬ Url.IsMark c := by
  have hplain := h.chars c hc
  refine ⟨?_, ?_, ?_⟩
  · rcases hplain with halphanum | rfl | rfl | rfl
    · exact le_of_isAlphanum halphanum
    all_goals decide
  · rintro rfl
    revert hplain
    decide
  · rintro (rfl | rfl | rfl | rfl) <;> revert hplain <;> decide

theorem IsPlainName.of_all (h : name.toList.all Char.isAlphanum) (hdot : name ≠ ".")
    (hup : name ≠ "..") : IsPlainName name :=
  ⟨fun c hc => .inl (List.all_eq_true.1 h c hc), hdot, hup⟩

theorem IsPlainName.ne_dots (h : IsPlainName name) :
    name.toList ≠ ['.'] ∧ name.toList ≠ ['.', '.'] :=
  ⟨fun hdot => h.ne_dot (String.toList_inj.1 hdot), fun hup => h.ne_up (String.toList_inj.1 hup)⟩

def Locator.above (locator : Locator) : List String :=
  ["repos", locator.owner, locator.name, "contents"]

theorem Locator.IsPlain.above (h : locator.IsPlain) :
    ∀ name ∈ locator.above, IsPlainName name := by
  have hrepos : IsPlainName "repos" := .of_all (by decide) (by decide) (by decide)
  have hcontents : IsPlainName "contents" := .of_all (by decide) (by decide) (by decide)
  simp [Locator.above, hrepos, h.owner, h.name, hcontents]

theorem toList_contents (locator : Locator) (path : String) : (locator.contents path).toList =
    Path.join (locator.above.map String.toList) ++ '/' :: path.toList := by
  simp [Locator.contents, Locator.above, Path.join]

theorem Locator.IsPlain.char_above (h : locator.IsPlain) {c : Char}
    (hc : c ∈ Path.join (locator.above.map String.toList)) : ' ' ≤ c ∧ ¬ Url.IsMark c := by
  obtain rfl | ⟨segment, hsegment, hc⟩ := Path.mem_join hc
  · exact ⟨by decide, by rintro (h | h | h | h) <;> cases h⟩
  · obtain ⟨name, hname, rfl⟩ := List.mem_map.1 hsegment
    obtain ⟨hle, -, hmark⟩ := (h.above name hname).char hc
    exact ⟨hle, hmark⟩

theorem split_contents (h : locator.IsPlain) (path : String) :
    Path.split (locator.contents path).toList =
      locator.above.map String.toList ++ Path.split path.toList := by
  have hslash : ∀ segment ∈ locator.above.map String.toList, '/' ∉ segment := by
    refine List.forall_mem_map.2 fun name hname hmem => ?_
    exact ((h.above name hname).char hmem).2.1 rfl
  have hne : locator.above.map String.toList ≠ [] := List.cons_ne_nil _ _
  rw [toList_contents, Path.split_append_slash, Path.split_join hne hslash]

theorem contents_inj (h : locator.IsPlain) (hother : other.IsPlain)
    (heq : locator.contents path = other.contents folder) : locator = other ∧ path = folder := by
  have hsplit := split_contents h path
  rw [heq, split_contents hother] at hsplit
  obtain ⟨habove, hpath⟩ := List.append_inj hsplit rfl
  have hnames : other.owner = locator.owner ∧ other.name = locator.name := by
    simpa [Locator.above, String.toList_inj] using habove
  have hjoin := congrArg Path.join hpath
  rw [Path.join_split, Path.join_split] at hjoin
  obtain ⟨owner, name⟩ := locator
  obtain ⟨rfl, rfl⟩ := hnames
  exact ⟨rfl, (String.toList_inj.1 hjoin).symm⟩

theorem spells_contents_iff (h : locator.IsPlain) (path : String) :
    Url.Spells (locator.contents path).toList ↔ Url.Spells path.toList := by
  rw [toList_contents]
  exact Url.spells_append_slash (fun c hc => (h.char_above hc).2) path.toList

theorem printable_contents (h : locator.IsPlain) (hpath : IsFolderPath path) :
    ∀ c ∈ (locator.contents path).toList, ' ' ≤ c := by
  intro c hc
  rw [toList_contents, List.mem_append, List.mem_cons] at hc
  rcases hc with hc | rfl | hc
  · exact (h.char_above hc).1
  · decide
  · exact hpath.printable c hc

theorem ne_dots_of_mem_split_contents (h : locator.IsPlain) (hpath : IsFolderPath path)
    {segment : List Char} (hmem : segment ∈ Path.split (locator.contents path).toList) :
    segment ≠ ['.'] ∧ segment ≠ ['.', '.'] := by
  rw [split_contents h, List.mem_append] at hmem
  rcases hmem with hmem | hmem
  · obtain ⟨name, hname, rfl⟩ := List.mem_map.1 hmem
    exact (h.above name hname).ne_dots
  · rcases eq_or_ne path "" with rfl | hne
    · obtain rfl := List.mem_singleton.1 hmem
      exact ⟨nofun, nofun⟩
    · have hordinary := hpath.ordinary hne segment hmem
      exact ⟨hordinary.ne_dot, hordinary.ne_up⟩

namespace Client

variable {client : Client} {base url again : Url} {toService : Web.Request}

theorem folderAddress_eq (client : Client) (locator : Locator) (path : String) :
    client.folderAddress locator path =
      client.service ++ "/" ++ String.ofList (locator.contents path).toList := by
  rw [← String.toList_inj]
  simp [folderAddress, address, Locator.contents]

/-- Where one address can be asked for, so can any other one, with the same headers. -/
theorem of_request? {text : String} (h : client.request? text = some toService) :
    Url.ofText? text = some toService.url ∧ ∀ other url, Url.ofText? other = some url →
      client.request? other = some { toService with url } := by
  unfold request? Web.Request.make? at h ⊢
  cases htext : Url.ofText? text with
  | none =>
    rw [htext] at h
    cases h
  | some first =>
    rw [htext] at h
    dsimp only [bind, Option.bind] at h ⊢
    split_ifs at h with htoken
    obtain rfl := Option.some_inj.1 h
    refine ⟨rfl, fun other url hother => ?_⟩
    rw [hother]
    dsimp only
    rw [if_neg htoken]
    rfl

/-- Listing a folder sends the one request for its address. -/
theorem run_listFolder (h : client.request? (client.folderAddress locator path) = some toService)
    (surroundings : Surroundings) (world : World) :
    ((listFolder (.ofWorld surroundings) client locator path).run world).2 =
      { world with sent := toService :: world.sent } := by
  unfold listFolder get
  rw [h]
  rfl

@[mk_iff]
structure Names (base : Url) (locator : Locator) (path : String) (url : Url) : Prop where
  query : url.query? = none
  fragment : url.fragment? = none
  bytes : url.pathBytes = base.pathBytes ++ (locator.contents path).toUTF8.toList

theorem Names.inj (h : locator.IsPlain) (hother : other.IsPlain)
    (hpath : Names base locator path url) (hfolder : Names base other folder again)
    (htarget : url.target = again.target) : locator = other ∧ path = folder := by
  have hbytes : url.pathBytes = again.pathBytes := by
    rw [Url.target, Url.target, hpath.query, hfolder.query] at htarget
    rw [Url.pathBytes, Url.pathBytes, (String.append_left_inj _).1 htarget]
  rw [hpath.bytes, hfolder.bytes] at hbytes
  exact contents_inj h hother
    (Text.toUTF8_toList_inj.1 (List.append_cancel_left hbytes))

/-- Where the service can be asked, listing a folder sends one request. It names the folder exactly
if the path of the folder spells itself, and requests that do so are for different folders. -/
theorem listFolder_names_iff (hservice : client.request? (client.service ++ "/") = some toService)
    (hquery : toService.url.query? = none) (hfragment : toService.url.fragment? = none) :
    (∀ locator path, locator.IsPlain → IsFolderPath path → ∃ url,
      Url.ofText? (client.folderAddress locator path) = some url ∧
      (∀ surroundings world,
        ((listFolder (.ofWorld surroundings) client locator path).run world).2 =
          { world with sent := { toService with url } :: world.sent }) ∧
      (Names toService.url locator path url ↔ Url.Spells path.toList)) ∧
    ∀ locator other path folder url again, locator.IsPlain → other.IsPlain →
      IsFolderPath path → IsFolderPath folder → Url.Spells path.toList → Url.Spells folder.toList →
      Url.ofText? (client.folderAddress locator path) = some url →
      Url.ofText? (client.folderAddress other folder) = some again →
      url.target = again.target → locator = other ∧ path = folder := by
  obtain ⟨hbase, hrequest⟩ := of_request? hservice
  have hfound : ∀ locator path, locator.IsPlain → IsFolderPath path → ∃ url,
      Url.ofText? (client.folderAddress locator path) = some url ∧
      (Names toService.url locator path url ↔ Url.Spells path.toList) := by
    intro locator path hlocator hpath
    obtain ⟨segments, query?, fragment?, htext, hiff⟩ := Url.exists_ofText?_iff hbase hquery
      hfragment (printable_contents hlocator hpath)
      fun segment => ne_dots_of_mem_split_contents hlocator hpath
    rw [← folderAddress_eq] at htext
    rw [spells_contents_iff hlocator] at hiff
    refine ⟨_, htext, ?_⟩
    rw [names_iff, Text.toList_toUTF8]
    exact hiff
  constructor
  · intro locator path hlocator hpath
    obtain ⟨url, htext, hiff⟩ := hfound locator path hlocator hpath
    exact ⟨url, htext, run_listFolder (hrequest _ url htext), hiff⟩
  · intro locator other path folder url again hlocator hother hpath hfolder hspells hspellsOther
      htext hagain htarget
    obtain ⟨_, hsome, hiff⟩ := hfound locator path hlocator hpath
    obtain rfl := Option.some_inj.1 (htext.symm.trans hsome)
    obtain ⟨_, hsome, hiffOther⟩ := hfound other folder hother hfolder
    obtain rfl := Option.some_inj.1 (hagain.symm.trans hsome)
    exact Names.inj hlocator hother (hiff.2 hspells) (hiffOther.2 hspellsOther) htarget

def home : Url := ⟨true, "", "api.github.com", none, Url.pathOf ['/'], none, none⟩

def acme : Locator := ⟨"acme", "widgets"⟩

theorem isPlain_acme : acme.IsPlain where
  owner := .of_all (by decide) (by decide) (by decide)
  name := .of_all (by decide) (by decide) (by decide)

theorem request?_home : (ofToken none).request? ((ofToken none).service ++ "/") =
    some ⟨home, none, some userAgent, answerKind⟩ := by
  have htext : (ofToken none).service ++ "/" = "https://api.github.com/" ++ String.ofList [] := rfl
  rw [htext, request?_service rfl]
  rfl

theorem isFolderPath_docs : IsFolderPath "docs" := .of_all (by decide) (by decide)

theorem spells_docs : Url.Spells "docs".toList :=
  ⟨by decide, by decide, by decide, by decide, by decide⟩

theorem listFolder_names_accented : ∃ url again,
    Url.ofText? ((ofToken none).folderAddress acme "a b/café") = some url ∧
    Url.ofText? ((ofToken none).folderAddress acme "docs") = some again ∧
    Names home acme "a b/café" url ∧ Names home acme "docs" again ∧ url.target ≠ again.target := by
  have hpath : IsFolderPath "a b/café" := .of_all (by decide) (by decide)
  have hspells : Url.Spells "a b/café".toList :=
    ⟨by decide, by decide, by decide, by decide, by decide⟩
  obtain ⟨hfound, hinj⟩ := listFolder_names_iff request?_home rfl rfl
  obtain ⟨url, htext, -, hiff⟩ := hfound acme "a b/café" isPlain_acme hpath
  obtain ⟨again, hagain, -, hiffAgain⟩ := hfound acme "docs" isPlain_acme isFolderPath_docs
  refine ⟨url, again, htext, hagain, hiff.2 hspells, hiffAgain.2 spells_docs, fun htarget => ?_⟩
  have hsame := hinj acme acme "a b/café" "docs" url again isPlain_acme isPlain_acme hpath
    isFolderPath_docs hspells spells_docs htext hagain htarget
  exact absurd hsame.2 (by decide)

/-- Behind a hash, the name of a folder is no part of the path: another folder is listed. -/
theorem listFolder_of_hash : acme.IsPlain ∧ IsFolderPath "docs#old" ∧ IsFolderPath "docs" ∧
    (∃ url, Url.ofText? ((ofToken none).folderAddress acme "docs#old") = some url ∧
      url.fragment?.isSome ∧ ¬ Names home acme "docs#old" url) ∧
    ∀ surroundings world,
      ((listFolder (.ofWorld surroundings) (ofToken none) acme "docs#old").run world).2.sent.map
        (·.url.toText) =
      ((listFolder (.ofWorld surroundings) (ofToken none) acme "docs").run world).2.sent.map
        (·.url.toText) := by
  have hold : IsFolderPath "docs#old" := .of_all (by decide) (by decide)
  have hcontents : (acme.contents "docs#old").toList =
      (acme.contents "docs").toList ++ '#' :: "old".toList := by simp [Locator.contents]
  have hbehind : IsFolderPath "old" := .of_all (by decide) (by decide)
  obtain ⟨hbase, hrequest⟩ := of_request? request?_home
  obtain ⟨path, fragment, hurl, hurlOld⟩ := Url.exists_ofText?_hash hbase rfl rfl
    (printable_contents isPlain_acme isFolderPath_docs)
    ((spells_contents_iff isPlain_acme "docs").2 spells_docs) hbehind.printable
  rw [← hcontents, ← folderAddress_eq] at hurlOld
  rw [← folderAddress_eq] at hurl
  refine ⟨isPlain_acme, hold, isFolderPath_docs, ⟨_, hurlOld, rfl, fun h => nomatch h.fragment⟩, ?_⟩
  intro surroundings world
  rw [run_listFolder (hrequest _ _ hurlOld), run_listFolder (hrequest _ _ hurl)]
  rfl

end Client

end CodeGraph.Repository
