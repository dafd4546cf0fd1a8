import CodeGraph.Outline.Finding

/-! The outline of a source. -/
namespace CodeGraph.Outline

/-- The edges from the classes of a file to those they extend, if the file declares them too. -/
def inheritanceEdges (file : String) (types : List TypeOutline) : List Edge :=
  types.filterMap fun type =>
    match type.superclass? with
    | some parent =>
      if types.any (·.name = parent) then
        some ⟨Node.typeId file type.name, Node.typeId file parent, .inherits⟩
      else none
    | none => none

/-- The edges between different functions of a file for its calls. -/
def callEdges (file : String) (functions : List FunctionOutline) (sites : List CallSite) :
    List Edge :=
  sites.filterMap fun site =>
    if site.caller ≠ site.callee ∧ functions.any (·.name = site.callee) then
      some ⟨Node.functionId file site.caller, Node.functionId file site.callee, .calls⟩
    else none

/-- The outline of a file, given what was found in it. -/
def ofFindings (file : String) (lines : UInt64) (dialect : Dialect) (found : List Finding) :
    Outline :=
  let types := found.filterMap fun | .type outline => some outline | _ => none
  let functions := found.filterMap fun | .function outline => some outline | _ => none
  let sites := found.filterMap fun | .call site => some site | _ => none
  { file, lines
    imports := found.filterMap fun | .imported specifier => some specifier | _ => none
    types, functions
    inheritance := inheritanceEdges file types
    calls := callEdges file functions sites
    status := .parsed dialect }

def ofParsed (scope : ComplexityScope) (file content : String) (parsed : ParsedSource) : Outline :=
  ofFindings file (countLines content) parsed.dialect (Finding.ofTree content scope parsed.tree)

def ofSource (parse : String → Except ParseError ParsedSource) (scope : ComplexityScope)
    (file content : String) : Except ParseError Outline :=
  (parse content).map (ofParsed scope file content)

end CodeGraph.Outline
