import CodeGraph.Proofs.Path.Segment

/-! The normal form of a path. Its segments are what is kept when the segments of the path are read
one after the other: steps up that nothing takes back, and names behind them. -/
namespace CodeGraph.Path

/-- A segment that is a name, and neither nothing nor dots that lead somewhere else. -/
structure Ordinary (segment : Segment) : Prop where
  ne_nil : segment ≠ []
  ne_dot : segment ≠ ['.']
  ne_up : segment ≠ up

/-- What is kept of some segments when they are read from the first one on. -/
inductive Folds : List Segment → List Segment → Prop where
  | nil : Folds [] []
  | skip {segments kept : List Segment} {segment : Segment} (h : Folds segments kept)
      (hsegment : segment = [] ∨ segment = ['.']) : Folds (segments ++ [segment]) kept
  | name {segments kept : List Segment} {segment : Segment} (h : Folds segments kept)
      (hsegment : Ordinary segment) : Folds (segments ++ [segment]) (kept ++ [segment])
  | back {segments kept : List Segment} {name : Segment} (h : Folds segments (kept ++ [name]))
      (hname : name ≠ up) : Folds (segments ++ [up]) kept
  | stay {segments kept : List Segment} (h : Folds segments kept)
      (hkept : ∀ last ∈ kept.getLast?, last = up) : Folds (segments ++ [up]) (kept ++ [up])

/-- Segments of a path in normal form: names, and steps up with nothing but steps up before them. -/
structure Normal (segments : List Segment) : Prop where
  plain : ∀ segment ∈ segments, '/' ∉ segment ∧ '\\' ∉ segment
  up_or_ordinary : ∀ segment ∈ segments, segment = up ∨ Ordinary segment
  ups_first : segments.Pairwise fun earlier later => later = up → earlier = up

variable {above below segments kept : List Segment} {segment : Segment}

theorem clean_concat (segments : List Segment) (segment : Segment) :
    clean (segments ++ [segment]) = (push (clean segments).reverse segment).reverse := by
  simp [clean]

theorem clean_concat_skip (segments : List Segment) (h : segment = [] ∨ segment = ['.']) :
    clean (segments ++ [segment]) = clean segments := by
  rw [clean_concat, push.eq_def, if_pos h, List.reverse_reverse]

theorem clean_concat_name (segments : List Segment) (h : Ordinary segment) :
    clean (segments ++ [segment]) = clean segments ++ [segment] := by
  have hskip : ¬ (segment = [] ∨ segment = ['.']) := not_or.2 ⟨h.ne_nil, h.ne_dot⟩
  rw [clean_concat, push.eq_def, if_neg hskip, if_neg h.ne_up, List.reverse_cons,
    List.reverse_reverse]

theorem clean_concat_back {name : Segment} (h : clean segments = kept ++ [name])
    (hname : name ≠ up) : clean (segments ++ [up]) = kept := by
  rw [clean_concat, h, List.reverse_concat, push.eq_def, if_neg (by decide), if_pos rfl]
  dsimp only
  rw [if_neg hname, List.reverse_reverse]

theorem clean_concat_up (h : ∀ last ∈ (clean segments).getLast?, last = up) :
    clean (segments ++ [up]) = clean segments ++ [up] := by
  rw [clean_concat, push.eq_def, if_neg (by decide), if_pos rfl]
  rcases List.eq_nil_or_concat' (clean segments) with hnil | ⟨kept, last, hkept⟩
  · rw [hnil]
    rfl
  · rw [hkept, List.getLast?_concat] at h
    rw [hkept, List.reverse_concat]
    dsimp only
    rw [if_pos (h last rfl), List.reverse_cons, List.reverse_cons, List.reverse_reverse]

theorem folds_clean (segments : List Segment) : Folds segments (clean segments) := by
  induction segments using List.reverseRecOn with
  | nil => exact .nil
  | append_singleton segments segment ih =>
    by_cases hskip : segment = [] ∨ segment = ['.']
    · rw [clean_concat_skip segments hskip]
      exact ih.skip hskip
    rcases eq_or_ne segment up with rfl | hup
    · by_cases hlast : ∀ last ∈ (clean segments).getLast?, last = up
      · rw [clean_concat_up hlast]
        exact ih.stay hlast
      · push Not at hlast
        obtain ⟨name, hname, hne⟩ := hlast
        obtain ⟨kept, hkept⟩ := List.getLast?_eq_some_iff.1 hname
        rw [clean_concat_back hkept hne]
        rw [hkept] at ih
        exact ih.back hne
    · have hname : Ordinary segment := ⟨(not_or.1 hskip).1, (not_or.1 hskip).2, hup⟩
      rw [clean_concat_name segments hname]
      exact ih.name hname

theorem Folds.clean_eq (h : Folds segments kept) : clean segments = kept := by
  induction h with
  | nil => rfl
  | skip _ hsegment ih => rw [clean_concat_skip _ hsegment, ih]
  | name _ hsegment ih => rw [clean_concat_name _ hsegment, ih]
  | back _ hname ih => exact clean_concat_back ih hname
  | stay _ hkept ih =>
    rw [clean_concat_up (by rwa [ih]), ih]

theorem normal_nil : Normal [] :=
  ⟨fun _ h => absurd h List.not_mem_nil, fun _ h => absurd h List.not_mem_nil, .nil⟩

theorem Normal.slash_not_mem (h : Normal segments) : ∀ segment ∈ segments, '/' ∉ segment :=
  fun segment hmem => (h.plain segment hmem).1

theorem Normal.of_append (h : Normal (above ++ below)) : Normal above where
  plain segment hmem := h.plain segment (List.mem_append_left _ hmem)
  up_or_ordinary segment hmem := h.up_or_ordinary segment (List.mem_append_left _ hmem)
  ups_first := (List.pairwise_append.1 h.ups_first).1

theorem Normal.concat (h : Normal above) (hplain : '/' ∉ segment ∧ '\\' ∉ segment)
    (hsegment : segment = up ∨ Ordinary segment)
    (hups : segment = up → ∀ other ∈ above, other = up) : Normal (above ++ [segment]) where
  plain := List.forall_mem_append.2 ⟨h.plain, List.forall_mem_singleton.2 hplain⟩
  up_or_ordinary :=
    List.forall_mem_append.2 ⟨h.up_or_ordinary, List.forall_mem_singleton.2 hsegment⟩
  ups_first := by
    refine List.pairwise_append.2 ⟨h.ups_first, List.pairwise_singleton _ _, ?_⟩
    intro other hother
    exact List.forall_mem_singleton.2 fun hup => hups hup other hother

theorem Normal.concat_name (h : Normal above) (hname : Ordinary segment)
    (hplain : '/' ∉ segment ∧ '\\' ∉ segment) : Normal (above ++ [segment]) :=
  h.concat hplain (.inr hname) fun hup => absurd hup hname.ne_up

theorem Normal.concat_up (h : Normal above) (hups : ∀ segment ∈ above, segment = up) :
    Normal (above ++ [up]) :=
  h.concat (by decide) (.inl rfl) fun _ => hups

/-- The last segment is a step up only if all segments are. -/
theorem Normal.eq_up_of_getLast? (h : Normal segments)
    (hlast : ∀ last ∈ segments.getLast?, last = up) : ∀ segment ∈ segments, segment = up := by
  rcases List.eq_nil_or_concat' segments with rfl | ⟨above, last, rfl⟩
  · exact fun _ hmem => absurd hmem List.not_mem_nil
  · have hup : last = up := hlast last List.getLast?_concat
    intro segment hmem
    rcases List.mem_append.1 hmem with hmem | hmem
    · exact (List.pairwise_append.1 h.ups_first).2.2 segment hmem last List.mem_cons_self hup
    · rw [List.mem_singleton.1 hmem, hup]

/-- The first segment is a step up as soon as any segment is. -/
theorem Normal.head?_eq_up (h : Normal segments) (hmem : up ∈ segments) :
    segments.head? = some up := by
  cases segments with
  | nil => cases hmem
  | cons first rest =>
    rcases List.mem_cons.1 hmem with rfl | hrest
    · rfl
    · exact congrArg some (List.rel_of_pairwise_cons h.ups_first hrest rfl)

theorem Normal.nil_not_mem (h : Normal segments) : [] ∉ segments := fun hmem =>
  (h.up_or_ordinary [] hmem).elim (fun heq => nomatch heq) fun hname => hname.ne_nil rfl

theorem Folds.normal (h : Folds segments kept)
    (hplain : ∀ segment ∈ segments, '/' ∉ segment ∧ '\\' ∉ segment) : Normal kept := by
  induction h with
  | nil => exact normal_nil
  | skip _ _ ih => exact ih (List.forall_mem_append.1 hplain).1
  | name _ hsegment ih =>
    obtain ⟨hbefore, hlast⟩ := List.forall_mem_append.1 hplain
    exact (ih hbefore).concat_name hsegment (hlast _ List.mem_cons_self)
  | back _ _ ih => exact (ih (List.forall_mem_append.1 hplain).1).of_append
  | stay _ hkept ih =>
    have hnormal := ih (List.forall_mem_append.1 hplain).1
    exact hnormal.concat_up (hnormal.eq_up_of_getLast? hkept)

theorem Normal.folds (h : Normal segments) : Folds segments segments := by
  induction segments using List.reverseRecOn with
  | nil => exact .nil
  | append_singleton above last ih =>
    rcases h.up_or_ordinary last (by simp) with rfl | hname
    · refine (ih h.of_append).stay fun other hother => ?_
      exact (List.pairwise_append.1 h.ups_first).2.2 other (List.mem_of_getLast? hother) _
        List.mem_cons_self rfl
    · exact (ih h.of_append).name hname

/-- Steps up do not lead out of what stands above as long as none is kept. -/
theorem Folds.append (h : Folds segments kept) (hup : up ∉ kept) (above : List Segment) :
    clean (above ++ segments) = clean above ++ kept := by
  induction h with
  | nil => rw [List.append_nil, List.append_nil]
  | skip _ hsegment ih => rw [← List.append_assoc, clean_concat_skip _ hsegment, ih hup]
  | name _ hsegment ih =>
    have hkept := ih fun hmem => hup (List.mem_append_left _ hmem)
    rw [← List.append_assoc, clean_concat_name _ hsegment, hkept, List.append_assoc]
  | @back segments kept name _ hname ih =>
    have hkept : up ∉ kept ++ [name] := by simp [hup, Ne.symm hname]
    rw [← List.append_assoc]
    exact clean_concat_back (by rw [ih hkept, List.append_assoc]) hname
  | stay => exact absurd (List.mem_append_right _ List.mem_cons_self) hup

/-- The segments of a path as it is written; a backslash counts as a slash. -/
def pieces (path : String) : List Segment := split (path.toList.map unify)

theorem segments_eq (path : String) : Path.segments path = clean (pieces path) := rfl

theorem normalize_eq (path : String) : normalize path = ofSegments (Path.segments path) := rfl

theorem pieces_append_slash (folder path : String) :
    pieces (folder ++ "/" ++ path) = pieces folder ++ pieces path := by
  have htext : (folder ++ "/" ++ path).toList.map unify =
      folder.toList.map unify ++ '/' :: path.toList.map unify := by
    simp [unify]
  rw [pieces, htext, split_append_slash]
  rfl

theorem plain_of_mem_pieces {path : String} (h : segment ∈ pieces path) :
    '/' ∉ segment ∧ '\\' ∉ segment := by
  refine ⟨not_mem_of_mem_split h, fun hmem => ?_⟩
  have hjoin : '\\' ∈ join (pieces path) := by
    obtain ⟨before, after, hsplit⟩ := List.append_of_mem h
    rw [hsplit]
    exact mem_join_of_mem (by simp) hmem
  rw [pieces, join_split] at hjoin
  obtain ⟨c, -, hc⟩ := List.mem_map.1 hjoin
  unfold unify at hc
  split_ifs at hc with hback
  · cases hc
  · exact hback hc

theorem normal_segments (path : String) : Normal (Path.segments path) :=
  (folds_clean _).normal fun _ => plain_of_mem_pieces

theorem dropSlashes_of_head? {path : String} (h : path.toList.head? ≠ some '/') :
    dropSlashes path = path := by
  have hdrop : path.toList.dropWhile (· = '/') = path.toList := by
    cases htext : path.toList with
    | nil => rfl
    | cons c rest =>
      rw [htext] at h
      exact List.dropWhile_cons_of_neg (by simpa using h)
  rw [dropSlashes, hdrop, String.ofList_toList]

theorem clean_append_nil_cons (above below : List Segment) :
    clean (above ++ [] :: below) = clean (above ++ below) := by
  have hskip : ∀ stack, push stack [] = stack := fun stack => by rw [push.eq_def, if_pos (.inl rfl)]
  unfold clean
  rw [List.foldl_append, List.foldl_append, List.foldl_cons, hskip]

namespace Normal

theorem unify_join (h : Normal segments) : (join segments).map unify = join segments := by
  have hunify : ∀ c ∈ join segments, unify c = id c := by
    intro c hc
    refine if_neg ?_
    rintro rfl
    obtain hslash | ⟨segment, hmem, hback⟩ := mem_join hc
    · exact absurd hslash (by decide)
    · exact (h.plain segment hmem).2 hback
  rw [List.map_congr_left hunify, List.map_id]

theorem segments_ofSegments (h : Normal segments) :
    Path.segments (ofSegments segments) = segments := by
  rw [segments_eq, pieces, toList_ofSegments, h.unify_join]
  rcases eq_or_ne segments [] with rfl | hne
  · rfl
  · rw [split_join hne h.slash_not_mem]
    exact h.folds.clean_eq

theorem normalize_ofSegments (h : Normal segments) :
    normalize (ofSegments segments) = ofSegments segments := by
  rw [normalize_eq, h.segments_ofSegments]

theorem ofSegments_inj (h : Normal above) (hbelow : Normal below) :
    ofSegments above = ofSegments below ↔ above = below := by
  constructor
  · intro heq
    rw [← h.segments_ofSegments, heq, hbelow.segments_ofSegments]
  · rintro rfl
    rfl

theorem ofSegments_eq_empty_iff (h : Normal segments) : ofSegments segments = "" ↔ segments = [] :=
  h.ofSegments_inj normal_nil

theorem head?_join_ne (h : Normal segments) : (join segments).head? ≠ some '/' := by
  cases segments with
  | nil => exact fun heq => nomatch heq
  | cons first rest =>
    have hne : first ≠ [] := fun hnil => h.nil_not_mem (hnil ▸ List.mem_cons_self)
    rw [head?_join rest hne]
    exact fun hslash => h.slash_not_mem first List.mem_cons_self (List.mem_of_mem_head? hslash)

theorem dropSlashes_eq (h : Normal segments) :
    dropSlashes (ofSegments segments) = ofSegments segments :=
  dropSlashes_of_head? (by rw [toList_ofSegments]; exact h.head?_join_ne)

theorem getLast?_join_ne (h : Normal segments) : (join segments).getLast? ≠ some '/' := by
  rcases List.eq_nil_or_concat' segments with rfl | ⟨above, last, rfl⟩
  · exact fun heq => nomatch heq
  · have hmem : last ∈ above ++ [last] := List.mem_append_right _ List.mem_cons_self
    have hne : last ≠ [] := fun hnil => h.nil_not_mem (hnil ▸ hmem)
    rw [getLast?_join above hne]
    exact fun hslash => h.slash_not_mem last hmem (List.mem_of_getLast? hslash)

end Normal

theorem normalize_eq_empty_iff (path : String) : normalize path = "" ↔ Path.segments path = [] :=
  (normal_segments path).ofSegments_eq_empty_iff

end CodeGraph.Path
