import CodeGraph.Script.Lexeme

/-! Tokens that depend on what may come next: the semicolon that a line end stands for, text of
templates and markup, and the mark of a conditional expression. -/
namespace CodeGraph.Script

/-- The contextual tokens. -/
inductive Contextual where
  | automaticSemicolon
  | templateText
  | conditionalMark
  | markupComment
  | markupText
  deriving DecidableEq, Inhabited

/-- Which tokens are possible where a contextual one is looked for. -/
structure Expected where
  semicolon : Bool
  signatureEnd : Bool
  templateText : Bool
  conditionalMark : Bool
  logicalOr : Bool
  quotedOrRegex : Bool
  markupText : Bool

/-- What is known once blanks and comments have been passed over. -/
inductive Passed where
  | refused
  | undecided
  | accepted
  deriving DecidableEq

/-- Where a reader of blanks and comments stands. -/
inductive Between where
  | blanks
  | line
  | block
  deriving DecidableEq

/-- What a look ahead found: whether there is a semicolon, whether a comment was passed over, and
the text where that was decided. -/
structure Look where
  found : Bool
  commented : Bool
  rest : List Char

namespace Contextual

/-- The length of template text up to the end, a substitution or an escape, if it is closed. -/
def templateLength (length : Nat) : List Char → Option Nat
  | [] => none
  | c :: rest =>
    if c = '`' || c = '\\' then some length
    else if c = '\x00' then none
    else if c = '$' && rest.head? = some '\x7b' then some length
    else templateLength (length + 1) rest

/-- Markup text up to a tag, an expression or a character reference: whether it is more than line
ends with their indentation, and its length. -/
def markupLength (atNewline seen : Bool) (length : Nat) : List Char → Bool × Nat
  | [] => (seen, length)
  | c :: rest =>
    if "<>\x7b\x7d&\x00".toList.contains c then (seen, length)
    else if c = '\n' then markupLength true seen (length + 1) rest
    else
      let atNewline := atNewline && isBlank c
      markupLength atNewline (seen || !atNewline) (length + 1) rest

/-- Passes over blanks and comments. Without `consume` it stops after a block comment that no
slash follows, accepting it if a block comment held a line end. Also says whether there was a
comment. -/
def passSpace (consume newline commented : Bool) :
    Between → List Char → Passed × Bool × List Char
  | _, [] => (.accepted, commented, [])
  | .blanks, '/' :: '/' :: rest => passSpace consume newline true .line rest
  | .blanks, '/' :: '*' :: rest => passSpace consume newline commented .block rest
  | .block, '*' :: '/' :: rest =>
    if !consume && rest.head? != some '/' then
      (if newline then .accepted else .undecided, true, rest)
    else passSpace consume newline true .blanks rest
  | .blanks, c :: rest =>
    if isBlank c then passSpace consume newline commented .blanks rest
    else if c = '/' then (.refused, commented, rest)
    else (.accepted, commented, c :: rest)
  | .line, c :: rest =>
    if c = '\n' then passSpace consume newline commented .blanks rest
    else if isLineEnd c || c = '\x00' then (.accepted, commented, c :: rest)
    else passSpace consume newline commented .line rest
  | .block, c :: rest =>
    if c = '\x00' then (.accepted, commented, c :: rest)
    else passSpace consume (newline || isLineEnd c) commented .block rest

/-- As `passSpace` for typed scripts, where only a newline ends a line comment, and block comments
are passed over silently. The first part says whether no lone slash was met. -/
def passTypedSpace (commented : Bool) : Between → List Char → Bool × Bool × List Char
  | _, [] => (true, commented, [])
  | .blanks, '/' :: '/' :: rest => passTypedSpace true .line rest
  | .blanks, '/' :: '*' :: rest => passTypedSpace commented .block rest
  | .block, '*' :: '/' :: rest => passTypedSpace commented .blanks rest
  | .blanks, c :: rest =>
    if isBlank c then passTypedSpace commented .blanks rest
    else if c = '/' then (false, commented, rest)
    else (true, commented, c :: rest)
  | .line, c :: rest =>
    if c = '\n' then passTypedSpace commented .blanks rest
    else if c = '\x00' then (true, commented, c :: rest)
    else passTypedSpace commented .line rest
  | .block, c :: rest =>
    if c = '\x00' then (true, commented, c :: rest)
    else passTypedSpace commented .block rest

/-- Whether a line that begins with an `i` and this text may follow a semicolon that is not
written: not when the word is `in` or `instanceof`. -/
def afterWord : List Char → Bool × List Char
  | 'n' :: rest =>
    match rest with
    | [] => (false, [])
    | c :: _ =>
      if !c.isAlpha then (false, rest)
      else
        match Lexeme.exactly "stanceof".toList 0 rest with
        | none => (true, rest)
        | some length =>
          let rest := rest.drop length
          ((rest.head?.map Char.isAlpha).getD false, rest)
  | text => (true, text)

/-- Whether a line end before this text stands for a semicolon. -/
def semicolonBefore (typed : Bool) (expected : Expected) (text : List Char) : Bool × List Char :=
  match text with
  | [] => (true, [])
  | c :: rest =>
    if ",;*%><=?^|&/:`".toList.contains c then (false, text)
    else if c = '.' then
      if typed then (false, text) else ((rest.head?.map Char.isDigit).getD false, rest)
    else if c = '(' || c = '[' then
      if typed then (!expected.logicalOr, text) else (false, text)
    else if c = '\x7b' && typed then (!expected.signatureEnd, text)
    else if c = '+' then (rest.head? == some '+', rest)
    else if c = '-' then (rest.head? == some '-', rest)
    else if c = '!' then (rest.head? != some '=', rest)
    else if c = 'i' then afterWord rest
    else (true, text)

/-- Looks for a semicolon that is not written at the beginning of plain text. A comment decides
the matter where no operator may follow. -/
def plainSemicolon (expected : Expected) (commented : Bool) (text : List Char) : Look :=
  match text with
  | [] => ⟨true, commented, []⟩
  | '\x00' :: _ => ⟨true, commented, text⟩
  | '/' :: rest =>
    match passSpace false false commented .blanks text with
    | (.refused, commented, rest) => ⟨false, commented, rest⟩
    | (passed, commented, after) =>
      let next := after.head?
      if passed = .accepted && !expected.logicalOr && next != some ',' && next != some '=' then
        ⟨true, commented, after⟩
      else
        match after with
        | [] => ⟨false, commented, []⟩
        | c :: more =>
          if c = '\x7d' then ⟨true, commented, after⟩
          else if isLineEnd c then lineEnd commented more
          else if isBlank c then
            if more.length ≤ rest.length then plainSemicolon expected commented more
            else ⟨false, commented, after⟩
          else ⟨false, commented, after⟩
  | c :: rest =>
    if c = '\x7d' then ⟨true, commented, text⟩
    else if isLineEnd c then lineEnd commented rest
    else if isBlank c then plainSemicolon expected commented rest
    else ⟨false, commented, text⟩
termination_by text.length
decreasing_by all_goals simp_all; try omega
where
  /-- After a line end. -/
  lineEnd (commented : Bool) (rest : List Char) : Look :=
    match passSpace true false commented .blanks rest with
    | (.refused, commented, rest) => ⟨false, commented, rest⟩
    | (_, commented, rest) =>
      let (found, rest) := semicolonBefore false expected rest
      ⟨found, commented, rest⟩

/-- As `plainSemicolon` for typed scripts: there a closing brace stands for a semicolon only when
no type follows. -/
def typedSemicolon (expected : Expected) : List Char → Look
  | [] => ⟨true, false, []⟩
  | c :: rest =>
    if c = '\x00' then ⟨true, false, c :: rest⟩
    else if c = '\x7d' then
      let rest := rest.dropWhile isBlank
      ⟨rest.head? != some ':' || expected.logicalOr, false, rest⟩
    else if c = '\n' then
      match passTypedSpace false .blanks rest with
      | (false, commented, rest) => ⟨false, commented, rest⟩
      | (true, commented, rest) =>
        let (found, rest) := semicolonBefore true expected rest
        ⟨found, commented, rest⟩
    else if isBlank c then typedSemicolon expected rest
    else ⟨false, false, c :: rest⟩

/-- Whether the question mark at the beginning stands for a conditional expression. It is no part
of a longer mark, and in typed scripts not the mark of an optional name. -/
def isConditional (typed : Bool) : List Char → Bool
  | '?' :: rest =>
    let next := if typed then rest.dropWhile isBlank else rest
    if rest.head? = some '?' then false
    else if typed && (next.head? = some ':' || next.head? = some ')' || next.head? = some ',') then
      false
    else
      match next with
      | '.' :: more => (more.head?.map Char.isDigit).getD false
      | _ => true
  | _ => false

/-- A comment in the form of markup: its length. -/
def markupCommentLength (text : List Char) : Option Nat := do
  let marks ← Lexeme.exactly "<!--".toList 0 text <|> Lexeme.exactly "-->".toList 0 text
  return Lexeme.run (fun c => !isLineEnd c && c != '\x00') marks (text.drop marks)

/-- The contextual token at the beginning of a text, with the number of characters before it and
its length. -/
def scan (typed : Bool) (expected : Expected) (text : List Char) :
    Option (Contextual × Nat × Nat) :=
  if expected.templateText then
    if expected.semicolon then none
    else do
      let length ← Lexeme.positive (← templateLength 0 text)
      return (.templateText, 0, length)
  else
    let (seen, length) := if expected.markupText then markupLength false false 0 text else (false, 0)
    if seen then some (.markupText, 0, length)
    else
      let conditionalAfter := fun (skipped : Nat) (text : List Char) =>
        let blanks := Lexeme.run isBlank 0 text
        if isConditional typed (text.drop blanks) then
          some (.conditionalMark, skipped + blanks, 1)
        else none
      let ahead := text.drop length
      if expected.semicolon || expected.signatureEnd then
        let look :=
          if typed then typedSemicolon expected ahead else plainSemicolon expected false ahead
        if look.found then some (.automaticSemicolon, 0, length)
        else if !look.commented && expected.conditionalMark && look.rest.head? = some '?' then
          conditionalAfter (text.length - look.rest.length) look.rest
        else none
      else if expected.conditionalMark then conditionalAfter length ahead
      else if !expected.logicalOr && !expected.quotedOrRegex then
        let blanks := length + Lexeme.run (fun c => isBlank c || isLineEnd c) 0 ahead
        (markupCommentLength (text.drop blanks)).map fun length => (.markupComment, blanks, length)
      else none

end Contextual

end CodeGraph.Script
