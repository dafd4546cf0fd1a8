import CodeGraph.Grammar.Tables
import CodeGraph.Grammar.Token
import CodeGraph.Script.Context

/-! The next token of a script, given the tokens that its grammar can go on with. -/
namespace CodeGraph.Script

open Grammar

/-- The numbers that a grammar gives to its tokens, arranged for looking them up: words by their
text, other literals by the code of their first character. -/
structure Lexer where
  typed : Bool
  named : Std.HashMap String Nat
  words : Std.HashMap String Nat
  wordSet : TokenSet
  marks : Std.HashMap Nat (List (List Char × Nat))
  deriving Inhabited

namespace Lexer

def ofTables (typed : Bool) (tables : Tables) : Lexer :=
  let literals := tables.literalIds.toList
  let words := literals.filter fun (text, _) => text.toList.all fun c => c.isAlpha || c = '_'
  let marks := literals.filter fun (text, _) => !text.toList.all fun c => c.isAlpha || c = '_'
  { typed
    named := tables.tokenIds
    words := Std.HashMap.ofList words
    wordSet := words.foldl (fun set (_, symbol) => set ||| TokenSet.single symbol)
      (TokenSet.single (tables.tokenIds.getD "identifier" 0))
    marks := marks.foldl (fun table (text, symbol) =>
      match text.toList with
      | [] => table
      | c :: rest => table.insert c.toNat ((rest, symbol) :: table.getD c.toNat [])) {} }

def id (lexer : Lexer) (name : String) : Nat := lexer.named.getD name 0

def expects (lexer : Lexer) (valid : TokenSet) (name : String) : Bool :=
  match lexer.named[name]? with
  | some symbol => TokenSet.has valid symbol
  | none => false

def expected (lexer : Lexer) (valid : TokenSet) : Expected where
  semicolon := lexer.expects valid "_automatic_semicolon"
  signatureEnd := lexer.expects valid "_function_signature_automatic_semicolon"
  templateText := lexer.expects valid "_template_chars"
  conditionalMark := lexer.expects valid "_ternary_qmark"
  logicalOr := ((lexer.marks.getD '|'.toNat []).any fun (rest, symbol) =>
    rest = ['|'] && TokenSet.has valid symbol)
  quotedOrRegex := lexer.expects valid "escape_sequence" || lexer.expects valid "regex_pattern"
  markupText := lexer.expects valid "jsx_text"

def contextualName : Contextual → String
  | .automaticSemicolon => "_automatic_semicolon"
  | .templateText => "_template_chars"
  | .conditionalMark => "_ternary_qmark"
  | .markupComment => "html_comment"
  | .markupText => "jsx_text"

/-- Tokens that follow the one before without blanks and outrank all others. -/
def dominant : List (String × (List Char → Option Nat)) :=
  [("unescaped_double_string_fragment", Lexeme.quotedText '"'),
   ("unescaped_single_string_fragment", Lexeme.quotedText '\''),
   ("unescaped_double_jsx_string_fragment", Lexeme.attributeText '"'),
   ("unescaped_single_jsx_string_fragment", Lexeme.attributeText '\''),
   ("_regex_close", Lexeme.exactly ['/'] 0)]

/-- Other tokens that follow the one before without blanks. -/
def attached : List (String × (List Char → Option Nat)) :=
  [("escape_sequence", Lexeme.escape), ("regex_flags", Lexeme.regexFlags),
   ("regex_pattern", Lexeme.regexBody)]

/-- Tokens that blanks may precede, names and literals aside. -/
def detached : List (String × (List Char → Option Nat)) :=
  [("number", Lexeme.number), ("private_property_identifier", Lexeme.privateName),
   ("jsx_identifier", Lexeme.dashedName),
   ("html_character_reference", Lexeme.characterReference),
   ("hash_bang_line", Lexeme.interpreterLine), ("_static_get_line", Lexeme.staticGetLine),
   ("comment", Lexeme.comment)]

/-- A token that may stand next: its number, the blanks before it and its length. -/
structure Candidate where
  symbol : Nat
  blanks : Nat
  length : Nat
  deriving Inhabited

/-- The possible tokens of a list of spellings that stand after the blanks. -/
def spelled (lexer : Lexer) (valid : TokenSet) (blanks : Nat) (text : List Char)
    (spellings : List (String × (List Char → Option Nat))) : List Candidate :=
  spellings.filterMap fun (name, spelling) =>
    if lexer.expects valid name then
      (spelling text).map fun length => ⟨lexer.id name, blanks, length⟩
    else none

/-- The possible literals other than words that stand after the blanks. -/
def marked (lexer : Lexer) (valid : TokenSet) (blanks : Nat) : List Char → List Candidate
  | [] => []
  | c :: text => (lexer.marks.getD c.toNat []).filterMap fun (literal, symbol) =>
    if TokenSet.has valid symbol then
      (Lexeme.exactly literal 1 text).map fun length => ⟨symbol, blanks, length⟩
    else none

/-- The word after the blanks: a literal if that is possible here, else a name. -/
def worded (lexer : Lexer) (valid : TokenSet) (blanks : Nat) (text : List Char) :
    List Candidate :=
  if valid &&& lexer.wordSet = 0 then []
  else
    match Lexeme.name text with
    | none => []
    | some length =>
      let name := lexer.id "identifier"
      match lexer.words[String.ofList (text.take length)]? with
      | some word => [⟨if TokenSet.has valid word then word else name, blanks, length⟩]
      | none => [⟨name, blanks, length⟩]

/-- The candidate that reaches furthest, the first of several. -/
def furthest : List Candidate → Option Candidate
  | [] => none
  | first :: others => some <| others.foldl (fun best candidate =>
      if best.blanks + best.length < candidate.blanks + candidate.length then candidate else best)
    first

/-- The next token that needs no context: at the end of the text, the end. -/
def plainToken? (lexer : Lexer) (valid : TokenSet) (text : List Char) : Option Candidate :=
  match lexer.spelled valid 0 text dominant with
  | candidate :: _ => some candidate
  | [] =>
    let blanks := Lexeme.run isSpace 0 text
    let ahead := text.drop blanks
    let found := furthest (lexer.spelled valid 0 text attached ++
      lexer.spelled valid blanks ahead detached ++ lexer.marked valid blanks ahead ++
      lexer.worded valid blanks ahead)
    if found.isNone && ahead.isEmpty then some ⟨0, blanks, 0⟩ else found

/-- The next token among the possible ones, or a word that is none of them. -/
def next (lexer : Lexer) (valid : TokenSet) (place : Place) : Option Token :=
  let found : Option Candidate :=
    match Contextual.scan lexer.typed (lexer.expected valid) place.rest with
    | some (token, blanks, length) => some ⟨lexer.id (contextualName token), blanks, length⟩
    | none => lexer.plainToken? valid place.rest
  found.map fun candidate =>
    let start := place.skip candidate.blanks
    ⟨candidate.symbol, start, start.skip candidate.length⟩

end Lexer

end CodeGraph.Script
