import CodeGraph.Proofs.Host.Agreement
import CodeGraph.Proofs.Json.Document
import CodeGraph.Repository.Client

/-! Requests to the service: addresses below it are read as they are written, and so are the values
it answers with. -/
namespace CodeGraph

namespace Web.Address

theorem name?_service :
    name? "api.github.com".toList = some "api.github.com".toList := by
  have hbytes : (⟨(Text.Percent.decode "api.github.com".toList).toArray⟩ : ByteArray) =
      "api.github.com".toUTF8 := by cbv
  have htext : String.fromUTF8? "api.github.com".toUTF8 = some "api.github.com" :=
    dif_pos "api.github.com".isValidUTF8
  have hlower : Text.lowercase (String.ofList "api.github.com".toList) = "api.github.com" := by cbv
  have hdots : "api.github.com".toList.map (fun c => if isDot c then '.' else c) =
      "api.github.com".toList := by cbv
  have hforbidden : "api.github.com".toList.any isForbidden = false := by cbv
  have hreplacement : "api.github.com".toList.contains Text.replacement = false := by cbv
  have hlabels : ['.'].intercalate ((splitAt '.' "api.github.com".toList).map label) =
      "api.github.com".toList := by cbv
  unfold name?
  dsimp only
  rw [hbytes, htext]
  dsimp only [bind, Option.bind]
  rw [hlower, hdots, hforbidden, hreplacement, hlabels]
  rfl

theorem host?_service :
    host? "api.github.com".toList = some "api.github.com".toList := by
  have hnumber : endsInNumber "api.github.com".toList = false := by cbv
  have hname := name?_service
  unfold host?
  split
  · cases ‹_ = _›
  · rw [hname]
    dsimp only [bind, Option.bind]
    rw [hnumber]
    rfl

end Web.Address

namespace Url

/-- A character that stands for itself in an address: it is neither dropped, nor does it end the
path. -/
def isOrdinary (c : Char) : Bool := ' ' < c && c ≠ '?' && c ≠ '#'

variable {path : List Char}

theorem dropWhile_of_all {text : List Char} (h : text.all isOrdinary) :
    text.dropWhile (· ≤ ' ') = text := by
  cases text with
  | nil => rfl
  | cons c rest =>
    have hc : isOrdinary c = true := (Bool.and_eq_true _ _ ▸ List.all_cons ▸ h).1
    have hblank : ¬ c ≤ ' ' := by
      simp only [isOrdinary, Bool.and_eq_true, decide_eq_true_eq] at hc
      exact not_le.2 hc.1.1
    rw [List.dropWhile_cons, if_neg (by simpa using hblank)]

theorem tidy_of_all {text : List Char} (h : text.all isOrdinary) : tidy text = text := by
  have hreverse : text.reverse.all isOrdinary := by rwa [List.all_reverse]
  unfold tidy
  dsimp only
  rw [dropWhile_of_all h, dropWhile_of_all hreverse, List.reverse_reverse, List.filter_eq_self]
  intro c hc
  have hordinary := List.all_eq_true.1 h c hc
  have hne : ∀ blank ∈ ['\t', '\n', '\r'], c ≠ blank := by
    rintro blank hblank rfl
    simp only [List.mem_cons, List.not_mem_nil, or_false] at hblank
    rcases hblank with rfl | rfl | rfl <;> cases hordinary
  simp only [List.forall_mem_cons] at hne
  simp [hne]

theorem ofText?_service (h : path.all isOrdinary) :
    ofText? ("https://api.github.com/" ++ String.ofList path) =
      some ⟨true, "", "api.github.com", none, pathOf ('/' :: path), none, none⟩ := by
  have htext : ("https://api.github.com/" ++ String.ofList path).toList =
      "https://api.github.com/".toList ++ path := by simp
  have hall : ("https://api.github.com/".toList ++ path).all isOrdinary := by
    rw [List.all_append, h]
    decide
  have hscheme : scheme? ("https://api.github.com/".toList ++ path) =
      some (true, "//api.github.com/".toList ++ path) := by simp [scheme?]
  have hrest : ("//api.github.com/".toList ++ path).dropWhile isSlash =
      "api.github.com".toList ++ '/' :: path := by simp [isSlash]
  have hbefore : ("api.github.com".toList ++ '/' :: path).takeWhile (! endsAuthority ·) =
      "api.github.com".toList := by simp [endsAuthority, isSlash]
  have hafter : ("api.github.com".toList ++ '/' :: path).dropWhile (! endsAuthority ·) =
      '/' :: path := by simp [endsAuthority, isSlash]
  have huser : splitUser "api.github.com".toList = ([], "api.github.com".toList) := by decide
  have hport : splitPort false "api.github.com".toList = ("api.github.com".toList, []) := by decide
  have hpart : ∀ c ∈ '/' :: path, decide (c ≠ '?' ∧ c ≠ '#') = true := by
    intro c hc
    rcases List.mem_cons.1 hc with rfl | hc
    · decide
    · have hordinary := List.all_eq_true.1 h c hc
      simp only [isOrdinary, Bool.and_eq_true, decide_eq_true_eq] at hordinary
      exact decide_eq_true ⟨hordinary.1.2, hordinary.2⟩
  have hpath : ('/' :: path).takeWhile (fun c => c ≠ '?' ∧ c ≠ '#') = '/' :: path :=
    List.takeWhile_eq_self_iff.2 hpart
  have hquery : ('/' :: path).dropWhile (fun c => c ≠ '?' ∧ c ≠ '#') = [] :=
    List.dropWhile_eq_nil_iff.2 hpart
  unfold ofText?
  rw [htext, tidy_of_all hall, hscheme]
  dsimp only [bind, Option.bind]
  rw [hrest, hbefore, huser]
  dsimp only
  rw [hport]
  dsimp only
  rw [Web.Address.host?_service, hafter, hpath, hquery]
  rfl

end Url

namespace Repository.Client

open World

variable {surroundings : Surroundings} {disk : Disk} {client : Client}

theorem request?_service {path : List Char} (h : path.all Url.isOrdinary) :
    (ofToken none).request? ("https://api.github.com/" ++ String.ofList path) =
      some ⟨⟨true, "", "api.github.com", none, Url.pathOf ('/' :: path), none, none⟩, none,
        some userAgent, answerKind⟩ := by
  unfold request? Web.Request.make?
  rw [Url.ofText?_service h]
  rfl

/-- A value that the service answers with is read. -/
theorem steady_get {url : String} {request : Web.Request} {json : Json} {decode : Json.Decoder α}
    {value : α} (hrequest : client.request? url = some request)
    (hanswer : surroundings.answer request = some ⟨200, json.pretty.toUTF8⟩) (hjson : json.Complete)
    (hdecode : decode Json.Decode.maxDepth json = .ok value) :
    Steady disk (get (.ofWorld surroundings) client decode url) (.ok value) := by
  have htext : String.fromUTF8? json.pretty.toUTF8 = some json.pretty :=
    dif_pos json.pretty.isValidUTF8
  have hsuccess : Web.Response.isSuccess ⟨200, json.pretty.toUTF8⟩ = true := rfl
  have hread : read decode url (some ⟨200, json.pretty.toUTF8⟩) = .ok value := by
    unfold read
    dsimp only
    rw [if_pos hsuccess, htext]
    dsimp only
    rw [hjson.ofText_pretty, Json.Decode.text, hdecode]
    rfl
  unfold get
  rw [hrequest]
  refine (Steady.send surroundings.answer request).bind ?_
  rw [hanswer, hread]
  exact .pure _

end Repository.Client

end CodeGraph
