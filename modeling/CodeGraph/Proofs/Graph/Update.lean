import CodeGraph.Graph.Basic
import Mathlib

/-! Updates of graphs: storing nodes, mentioning ids, adding edges and changing nodes in place.
They are what the operations of a builder come to once the places of nodes are forgotten. -/
namespace CodeGraph.Graph

attribute [ext] Graph

def empty : Graph := ⟨[], []⟩

def ids (graph : Graph) : List String := graph.nodes.map (·.id)

/-- Stores a node in the place of the one of its id, or behind all others. -/
def put (graph : Graph) (node : Node) : Graph :=
  if node.id ∈ graph.ids then
    { graph with nodes := graph.nodes.map fun old => if old.id = node.id then node else old }
  else { graph with nodes := graph.nodes ++ [node] }

def mention (graph : Graph) (id : String) : Graph :=
  if id ∈ graph.ids then graph else graph.put (.package id)

/-- Adds an edge. Ends that no node has as its id become packages. -/
def connect (graph : Graph) (edge : Edge) : Graph :=
  let graph := (graph.mention edge.source).mention edge.target
  { graph with edges := graph.edges ++ [edge] }

def mapNodes (graph : Graph) (change : Node → Node) : Graph :=
  { graph with nodes := graph.nodes.map change }

variable {graph : Graph} {node other : Node} {edge : Edge} {id : String} {change : Node → Node}

theorem mem_ids : id ∈ graph.ids ↔ ∃ node ∈ graph.nodes, node.id = id := by
  simp [ids]

theorem mem_ids_of_mem (h : node ∈ graph.nodes) : node.id ∈ graph.ids :=
  mem_ids.2 ⟨node, h, rfl⟩

/-- Two nodes of one id are the same. -/
theorem eq_of_id_eq (hids : graph.ids.Nodup) (hnode : node ∈ graph.nodes)
    (hother : other ∈ graph.nodes) (h : node.id = other.id) : node = other :=
  List.inj_on_of_nodup_map hids hnode hother h

theorem eraseDups_concat (names : List String) (name : String) :
    (names ++ [name]).eraseDups =
      if name ∈ names then names.eraseDups else names.eraseDups ++ [name] := by
  rw [List.eraseDups_append]
  split_ifs with h <;> simp [List.removeAll, List.eraseDups_cons, h]

theorem nodup_eraseDups (names : List String) : names.eraseDups.Nodup := by
  induction names using List.reverseRecOn with
  | nil => simp
  | append_singleton names name ih =>
    rw [eraseDups_concat]
    split_ifs with h
    · exact ih
    · have hnew : name ∉ names.eraseDups := by simpa using h
      simpa using ih.concat hnew

theorem ids_put (graph : Graph) (node : Node) :
    (graph.put node).ids = if node.id ∈ graph.ids then graph.ids else graph.ids ++ [node.id] := by
  unfold put
  split_ifs with h
  · simp only [ids, List.map_map]
    apply List.map_congr_left
    intro old _
    by_cases hold : old.id = node.id <;> simp [hold]
  · simp [ids]

theorem ids_mention (graph : Graph) (id : String) :
    (graph.mention id).ids = if id ∈ graph.ids then graph.ids else graph.ids ++ [id] := by
  unfold mention
  split_ifs with h
  · rfl
  · rw [ids_put]
    exact if_neg h

theorem ids_connect (graph : Graph) (edge : Edge) :
    (graph.connect edge).ids = ((graph.mention edge.source).mention edge.target).ids := rfl

theorem mem_ids_mention {name : String} :
    name ∈ (graph.mention id).ids ↔ name ∈ graph.ids ∨ name = id := by
  rw [ids_mention]
  split_ifs with h
  · exact ⟨.inl, fun hname => hname.elim (fun hmem => hmem) (fun heq => heq ▸ h)⟩
  · rw [List.mem_append, List.mem_singleton]

theorem mem_ids_connect :
    id ∈ (graph.connect edge).ids ↔ id ∈ graph.ids ∨ id = edge.source ∨ id = edge.target := by
  rw [ids_connect, mem_ids_mention, mem_ids_mention, or_assoc]

section Mentions

variable {names : List String}

theorem ids_put_of_eq (h : graph.ids = names.eraseDups) :
    (graph.put node).ids = (names ++ [node.id]).eraseDups := by
  rw [ids_put, eraseDups_concat, h]
  simp only [List.mem_eraseDups]

theorem ids_mention_of_eq (h : graph.ids = names.eraseDups) :
    (graph.mention id).ids = (names ++ [id]).eraseDups := by
  rw [ids_mention, eraseDups_concat, h]
  simp only [List.mem_eraseDups]

theorem ids_connect_of_eq (h : graph.ids = names.eraseDups) :
    (graph.connect edge).ids = (names ++ [edge.source, edge.target]).eraseDups := by
  rw [ids_connect, ids_mention_of_eq (ids_mention_of_eq h), List.append_assoc]
  rfl

end Mentions

theorem ids_mapNodes (h : ∀ node, (change node).id = node.id) :
    (graph.mapNodes change).ids = graph.ids := by
  simp [ids, mapNodes, Function.comp_def, h]

theorem mem_put : other ∈ (graph.put node).nodes ↔
    other = node ∨ other ∈ graph.nodes ∧ other.id ≠ node.id := by
  unfold put
  split_ifs with h
  · obtain ⟨old, hold, hid⟩ := mem_ids.1 h
    simp only [List.mem_map]
    constructor
    · rintro ⟨kept, hkept, rfl⟩
      by_cases heq : kept.id = node.id
      · exact .inl (if_pos heq)
      · exact .inr (by simpa [heq] using hkept)
    · rintro (rfl | ⟨hmem, hne⟩)
      · exact ⟨old, hold, if_pos hid⟩
      · exact ⟨other, hmem, if_neg hne⟩
  · simp only [List.mem_append, List.mem_singleton]
    constructor
    · rintro (hmem | rfl)
      · have hid : other.id ∈ graph.ids := mem_ids_of_mem hmem
        exact .inr ⟨hmem, fun heq => h (heq ▸ hid)⟩
      · exact .inl rfl
    · rintro (rfl | ⟨hmem, -⟩)
      · exact .inr rfl
      · exact .inl hmem

theorem mem_mention : other ∈ (graph.mention id).nodes ↔
    other ∈ graph.nodes ∨ other = .package id ∧ id ∉ graph.ids := by
  unfold mention
  split_ifs with h
  · simp [h]
  · rw [mem_put]
    constructor
    · rintro (rfl | ⟨hmem, -⟩)
      · exact .inr ⟨rfl, h⟩
      · exact .inl hmem
    · rintro (hmem | ⟨rfl, -⟩)
      · have hid : other.id ∈ graph.ids := mem_ids_of_mem hmem
        exact .inr ⟨hmem, fun heq : other.id = id => h (heq ▸ hid)⟩
      · exact .inl rfl

theorem mem_connect : other ∈ (graph.connect edge).nodes ↔
    other ∈ graph.nodes ∨
      other = .package other.id ∧ other.id ∉ graph.ids ∧
        (other.id = edge.source ∨ other.id = edge.target) := by
  change other ∈ ((graph.mention edge.source).mention edge.target).nodes ↔ _
  rw [mem_mention, mem_mention, mem_ids_mention]
  constructor
  · rintro ((hold | ⟨rfl, hnew⟩) | ⟨rfl, hnew⟩)
    · exact .inl hold
    · exact .inr ⟨rfl, hnew, .inl rfl⟩
    · exact .inr ⟨rfl, not_or.1 hnew |>.1, .inr rfl⟩
  · rintro (hold | ⟨hpackage, hnew, hend⟩)
    · exact .inl (.inl hold)
    · by_cases hsource : other.id = edge.source
      · exact .inl (.inr ⟨hsource ▸ hpackage, hsource ▸ hnew⟩)
      · have htarget : other.id = edge.target := hend.resolve_left hsource
        exact .inr ⟨htarget ▸ hpackage, htarget ▸ not_or.2 ⟨hnew, hsource⟩⟩

@[simp] theorem edges_put : (graph.put node).edges = graph.edges := by
  unfold put
  split_ifs <;> rfl

@[simp] theorem edges_mention : (graph.mention id).edges = graph.edges := by
  unfold mention
  split_ifs <;> simp

@[simp] theorem edges_connect : (graph.connect edge).edges = graph.edges ++ [edge] := by
  simp [connect]

@[simp] theorem edges_mapNodes : (graph.mapNodes change).edges = graph.edges := rfl

@[simp] theorem nodes_mapNodes : (graph.mapNodes change).nodes = graph.nodes.map change := rfl

theorem mapNodes_mapNodes (graph : Graph) (first second : Node → Node) :
    (graph.mapNodes first).mapNodes second = graph.mapNodes (second ∘ first) := by
  simp [mapNodes]

theorem mapNodes_congr {first second : Node → Node}
    (h : ∀ node ∈ graph.nodes, first node = second node) :
    graph.mapNodes first = graph.mapNodes second :=
  Graph.ext (List.map_congr_left h) rfl

theorem mapNodes_eq_self (h : ∀ node ∈ graph.nodes, change node = node) :
    graph.mapNodes change = graph :=
  Graph.ext ((List.map_congr_left h).trans (List.map_id _)) rfl

section Restriction

variable {keep : Node → Bool}

def restrict (keep : Node → Bool) (graph : Graph) : Graph :=
  { graph with nodes := graph.nodes.filter keep }

/-- A node stored in the place of one that is kept just as little or much is stored in the
restriction, or has no part in it. -/
theorem restrict_put (h : ∀ old ∈ graph.nodes, old.id = node.id → keep old = keep node) :
    (graph.put node).restrict keep =
      if keep node then (graph.restrict keep).put node else graph.restrict keep := by
  let swap := fun old : Node => if old.id = node.id then node else old
  have hswap : ∀ old ∈ graph.nodes, keep (swap old) = keep old := by
    intro old hold
    by_cases hid : old.id = node.id
    · simp only [swap, if_pos hid, h old hold hid]
    · simp only [swap, if_neg hid]
  have hfilter : (graph.nodes.map swap).filter keep = (graph.nodes.filter keep).map swap := by
    rw [List.filter_map]
    exact congrArg (List.map swap) (List.filter_congr hswap)
  by_cases hold : node.id ∈ graph.ids
  · obtain ⟨old, hmem, hid⟩ := mem_ids.1 hold
    have hput : graph.put node = { graph with nodes := graph.nodes.map swap } := if_pos hold
    rw [hput]
    by_cases hkeep : keep node = true
    · have hkept : node.id ∈ (graph.restrict keep).ids :=
        mem_ids.2 ⟨old, List.mem_filter.2 ⟨hmem, by rw [h old hmem hid, hkeep]⟩, hid⟩
      rw [if_pos hkeep, put, if_pos hkept]
      exact Graph.ext hfilter rfl
    -- the node that is replaced is not kept, so none of those that are kept changes
    · have hself : (graph.nodes.filter keep).map swap = graph.nodes.filter keep := by
        refine (List.map_congr_left fun other hother => ?_).trans (List.map_id _)
        obtain ⟨hother, hkeepOther⟩ := List.mem_filter.1 hother
        refine if_neg fun hsame => hkeep ?_
        rw [← h other hother hsame, hkeepOther]
      rw [if_neg hkeep]
      exact Graph.ext (hfilter.trans hself) rfl
  · have hput : graph.put node = { graph with nodes := graph.nodes ++ [node] } := if_neg hold
    rw [hput]
    by_cases hkeep : keep node = true
    · have hnew : node.id ∉ (graph.restrict keep).ids := by
        intro hmem
        obtain ⟨old, hmem, hid⟩ := mem_ids.1 hmem
        exact hold (mem_ids.2 ⟨old, List.mem_of_mem_filter hmem, hid⟩)
      rw [if_pos hkeep, put, if_neg hnew]
      exact Graph.ext (by simp [restrict, hkeep]) rfl
    · rw [if_neg hkeep]
      exact Graph.ext (by simp [restrict, hkeep]) rfl

theorem restrict_mention (h : keep (.package id) = false) :
    (graph.mention id).restrict keep = graph.restrict keep := by
  unfold mention
  split_ifs with hold
  · rfl
  · rw [restrict_put, if_neg (by simp [h])]
    intro old hmem hid
    have hid : old.id = id := hid
    exact absurd (mem_ids.2 ⟨old, hmem, hid⟩) hold

theorem nodes_restrict_connect (h : ∀ id, keep (.package id) = false) :
    ((graph.connect edge).restrict keep).nodes = (graph.restrict keep).nodes := by
  change (((graph.mention edge.source).mention edge.target).restrict keep).nodes = _
  rw [restrict_mention (h _), restrict_mention (h _)]

end Restriction

end CodeGraph.Graph
