import CodeGraph.Grammar.Rule

/-! The grammar of scripts and modules with embedded markup. -/
namespace CodeGraph.Script

open Grammar Grammar.Rule

namespace JavaScript

/-- The contextual tokens of `_reserved_identifier`: keywords that may serve as names. -/
def reservedNames : List Rule := ["get", "set", "async", "static", "export", "let"]

/-- The binary operators with their rank, and whether they group to the right. -/
def binaryOperators : List (String × String × Bool) :=
  [("&&", "logical_and", false), ("||", "logical_or", false), (">>", "binary_shift", false),
   (">>>", "binary_shift", false), ("<<", "binary_shift", false), ("&", "bitwise_and", false),
   ("^", "bitwise_xor", false), ("|", "bitwise_or", false), ("+", "binary_plus", false),
   ("-", "binary_plus", false), ("*", "binary_times", false), ("/", "binary_times", false),
   ("%", "binary_times", false), ("**", "binary_exp", true), ("<", "binary_relation", false),
   ("<=", "binary_relation", false), ("==", "binary_equality", false),
   ("===", "binary_equality", false), ("!=", "binary_equality", false),
   ("!==", "binary_equality", false), (">=", "binary_relation", false),
   (">", "binary_relation", false), ("??", "ternary", false),
   ("instanceof", "binary_relation", false), ("in", "binary_relation", false)]

/-- One form of the binary expression. A private name may stand to the left of `in`. -/
def binaryForm (operator rankName : String) (toRight : Bool) : Rule :=
  let left := if operator = "in" then
      choice [ref "expression", ref "private_property_identifier"]
    else ref "expression"
  (if toRight then rankRight else rankLeft) rankName <|
    seq [field "left" left, field "operator" operator, field "right" (ref "expression")]

/-- Modules: what they export and import. -/
def moduleRules : List (String × Rule) :=
  [("export_statement", choice [
      seq ["export",
        choice [
          seq ["*", ref "_from_clause"],
          seq [ref "namespace_export", ref "_from_clause"],
          seq [ref "export_clause", ref "_from_clause"],
          ref "export_clause"],
        ref "_semicolon"],
      seq [many (field "decorator" (ref "decorator")), "export",
        choice [
          field "declaration" (ref "declaration"),
          seq ["default", choice [
            field "declaration" (ref "declaration"),
            seq [field "value" (ref "expression"), ref "_semicolon"]]]]]]),
   ("namespace_export", seq ["*", "as", ref "_module_export_name"]),
   ("export_clause", seq ["\x7b", commaSep (ref "export_specifier"), opt ",", "\x7d"]),
   ("export_specifier", seq [
      field "name" (ref "_module_export_name"),
      opt (seq ["as", field "alias" (ref "_module_export_name")])]),
   ("_module_export_name", choice [ref "identifier", ref "string"]),
   ("declaration", choice [ref "function_declaration", ref "generator_function_declaration",
      ref "class_declaration", ref "lexical_declaration", ref "variable_declaration"]),
   ("import", literal "import"),
   ("import_statement", seq ["import",
      choice [seq [ref "import_clause", ref "_from_clause"], field "source" (ref "string")],
      opt (ref "import_attribute"), ref "_semicolon"]),
   ("import_clause", choice [ref "namespace_import", ref "named_imports",
      seq [ref "identifier",
        opt (seq [",", choice [ref "namespace_import", ref "named_imports"]])]]),
   ("_from_clause", seq ["from", field "source" (ref "string")]),
   ("namespace_import", seq ["*", "as", ref "identifier"]),
   ("named_imports", seq ["\x7b", commaSep (ref "import_specifier"), opt ",", "\x7d"]),
   ("import_specifier", choice [
      field "name" (ref "identifier"),
      seq [field "name" (ref "_module_export_name"), "as", field "alias" (ref "identifier")]]),
   ("import_attribute", seq ["with", ref "object"])]

def statementRules : List (String × Rule) :=
  [("statement", choice [ref "export_statement", ref "import_statement", ref "debugger_statement",
      ref "expression_statement", ref "declaration", ref "statement_block", ref "if_statement",
      ref "switch_statement", ref "for_statement", ref "for_in_statement", ref "while_statement",
      ref "do_statement", ref "try_statement", ref "with_statement", ref "break_statement",
      ref "continue_statement", ref "return_statement", ref "throw_statement",
      ref "empty_statement", ref "labeled_statement"]),
   ("expression_statement", seq [ref "_expressions", ref "_semicolon"]),
   ("variable_declaration", seq ["var", commaSep1 (ref "variable_declarator"), ref "_semicolon"]),
   ("lexical_declaration", seq [field "kind" (choice ["let", "const"]),
      commaSep1 (ref "variable_declarator"), ref "_semicolon"]),
   ("variable_declarator", seq [
      field "name" (choice [ref "identifier", ref "_destructuring_pattern"]),
      opt (ref "_initializer")]),
   ("statement_block", rightward (seq ["\x7b", many (ref "statement"), "\x7d",
      opt (ref "_automatic_semicolon")])),
   ("else_clause", seq ["else", ref "statement"]),
   ("if_statement", rightward (seq ["if", field "condition" (ref "parenthesized_expression"),
      field "consequence" (ref "statement"), opt (field "alternative" (ref "else_clause"))])),
   ("switch_statement", seq ["switch", field "value" (ref "parenthesized_expression"),
      field "body" (ref "switch_body")]),
   ("for_statement", seq ["for", "(",
      choice [
        field "initializer" (choice [ref "lexical_declaration", ref "variable_declaration"]),
        seq [field "initializer" (ref "_expressions"), ";"],
        field "initializer" (ref "empty_statement")],
      field "condition" (choice [seq [ref "_expressions", ";"], ref "empty_statement"]),
      field "increment" (opt (ref "_expressions")), ")", field "body" (ref "statement")]),
   ("for_in_statement", seq ["for", opt "await", ref "_for_header",
      field "body" (ref "statement")]),
   ("_for_header", seq ["(",
      choice [
        field "left" (choice [ref "_lhs_expression", ref "parenthesized_expression"]),
        seq [field "kind" "var",
          field "left" (choice [ref "identifier", ref "_destructuring_pattern"]),
          opt (ref "_initializer")],
        seq [field "kind" (choice ["let", "const"]),
          field "left" (choice [ref "identifier", ref "_destructuring_pattern"]),
          opt (ref "_automatic_semicolon")]],
      field "operator" (choice ["in", "of"]), field "right" (ref "_expressions"), ")"]),
   ("while_statement", seq ["while", field "condition" (ref "parenthesized_expression"),
      field "body" (ref "statement")]),
   ("do_statement", rightward (seq ["do", field "body" (ref "statement"), "while",
      field "condition" (ref "parenthesized_expression"), opt (ref "_semicolon")])),
   ("try_statement", seq ["try", field "body" (ref "statement_block"),
      opt (field "handler" (ref "catch_clause")),
      opt (field "finalizer" (ref "finally_clause"))]),
   ("with_statement", seq ["with", field "object" (ref "parenthesized_expression"),
      field "body" (ref "statement")]),
   ("break_statement", seq ["break",
      field "label" (opt (as "statement_identifier" (ref "identifier"))), ref "_semicolon"]),
   ("continue_statement", seq ["continue",
      field "label" (opt (as "statement_identifier" (ref "identifier"))), ref "_semicolon"]),
   ("debugger_statement", seq ["debugger", ref "_semicolon"]),
   ("return_statement", seq ["return", opt (ref "_expressions"), ref "_semicolon"]),
   ("throw_statement", seq ["throw", ref "_expressions", ref "_semicolon"]),
   ("empty_statement", literal ";"),
   ("labeled_statement", weigh (-1) (seq [
      field "label" (as "statement_identifier"
        (choice [ref "identifier", ref "_reserved_identifier"])),
      ":", field "body" (ref "statement")])),
   ("switch_body", seq ["\x7b", many (choice [ref "switch_case", ref "switch_default"]), "\x7d"]),
   ("switch_case", seq ["case", field "value" (ref "_expressions"), ":",
      field "body" (many (ref "statement"))]),
   ("switch_default", seq ["default", ":", field "body" (many (ref "statement"))]),
   ("catch_clause", seq ["catch",
      opt (seq ["(", field "parameter" (choice [ref "identifier", ref "_destructuring_pattern"]),
        ")"]),
      field "body" (ref "statement_block")]),
   ("finally_clause", seq ["finally", field "body" (ref "statement_block")]),
   ("parenthesized_expression", seq ["(", ref "_expressions", ")"])]

/-- Expressions that begin with an operand of their own, and literals with parts. -/
def primaryRules : List (String × Rule) :=
  [("_expressions", choice [ref "expression", ref "sequence_expression"]),
   ("expression", choice [ref "primary_expression", ref "_jsx_element",
      ref "assignment_expression", ref "augmented_assignment_expression", ref "await_expression",
      ref "unary_expression", ref "binary_expression", ref "ternary_expression",
      ref "update_expression", ref "new_expression", ref "yield_expression"]),
   ("primary_expression", choice [ref "subscript_expression", ref "member_expression",
      ref "parenthesized_expression", ref "_identifier",
      as "identifier" (ref "_reserved_identifier"), ref "this", ref "super", ref "number",
      ref "string", ref "template_string", ref "regex", ref "true", ref "false", ref "null",
      ref "object", ref "array", ref "function_expression", ref "arrow_function",
      ref "generator_function", ref "class", ref "meta_property", ref "call_expression"]),
   ("yield_expression", rightward (seq ["yield",
      choice [seq ["*", ref "expression"], opt (ref "expression")]])),
   ("object", rank "object" (seq ["\x7b",
      commaSep (opt (choice [ref "pair", ref "spread_element", ref "method_definition",
        as "shorthand_property_identifier"
          (choice [ref "identifier", ref "_reserved_identifier"])])),
      "\x7d"])),
   ("object_pattern", rank "object" (seq ["\x7b",
      commaSep (opt (choice [ref "pair_pattern", ref "rest_pattern",
        ref "object_assignment_pattern",
        as "shorthand_property_identifier_pattern"
          (choice [ref "identifier", ref "_reserved_identifier"])])),
      "\x7d"])),
   ("assignment_pattern", seq [field "left" (ref "pattern"), "=",
      field "right" (ref "expression")]),
   ("object_assignment_pattern", seq [
      field "left" (choice [
        as "shorthand_property_identifier_pattern"
          (choice [ref "_reserved_identifier", ref "identifier"]),
        ref "_destructuring_pattern"]),
      "=", field "right" (ref "expression")]),
   ("array", seq ["[", commaSep (opt (choice [ref "expression", ref "spread_element"])), "]"]),
   ("array_pattern", seq ["[", commaSep (opt (choice [ref "pattern", ref "assignment_pattern"])),
      "]"])]

def markupRules : List (String × Rule) :=
  [("_jsx_element", choice [ref "jsx_element", ref "jsx_self_closing_element"]),
   ("jsx_element", seq [field "open_tag" (ref "jsx_opening_element"), many (ref "_jsx_child"),
      field "close_tag" (ref "jsx_closing_element")]),
   ("jsx_expression", seq ["\x7b",
      opt (choice [ref "expression", ref "sequence_expression", ref "spread_element"]), "\x7d"]),
   ("_jsx_child", choice [ref "jsx_text", ref "html_character_reference", ref "_jsx_element",
      ref "jsx_expression"]),
   ("jsx_opening_element", weigh (-1) (seq ["<",
      opt (seq [field "name" (ref "_jsx_element_name"),
        many (field "attribute" (ref "_jsx_attribute"))]),
      ">"])),
   ("_jsx_identifier", choice [as "identifier" (ref "jsx_identifier"), ref "identifier"]),
   ("nested_identifier", rank "member" (seq [
      field "object" (choice [ref "identifier",
        as "member_expression" (ref "nested_identifier")]),
      ".", field "property" (as "property_identifier" (ref "identifier"))])),
   ("jsx_namespace_name", seq [ref "_jsx_identifier", ":", ref "_jsx_identifier"]),
   ("_jsx_element_name", choice [ref "_jsx_identifier",
      as "member_expression" (ref "nested_identifier"), ref "jsx_namespace_name"]),
   ("jsx_closing_element", seq ["</", opt (field "name" (ref "_jsx_element_name")), ">"]),
   ("jsx_self_closing_element", seq ["<", field "name" (ref "_jsx_element_name"),
      many (field "attribute" (ref "_jsx_attribute")), "/>"]),
   ("_jsx_attribute", choice [ref "jsx_attribute", ref "jsx_expression"]),
   ("_jsx_attribute_name", choice [as "property_identifier" (ref "_jsx_identifier"),
      ref "jsx_namespace_name"]),
   ("jsx_attribute", seq [ref "_jsx_attribute_name", opt (seq ["=", ref "_jsx_attribute_value"])]),
   ("_jsx_string", choice [
      seq ["\"", many (choice [
        as "string_fragment" (ref "unescaped_double_jsx_string_fragment"),
        ref "html_character_reference"]), "\""],
      seq ["'", many (choice [
        as "string_fragment" (ref "unescaped_single_jsx_string_fragment"),
        ref "html_character_reference"]), "'"]]),
   ("_jsx_attribute_value", choice [as "string" (ref "_jsx_string"), ref "jsx_expression",
      ref "_jsx_element"])]

def functionRules : List (String × Rule) :=
  [("class", rank "literal" (seq [many (field "decorator" (ref "decorator")), "class",
      field "name" (opt (ref "identifier")), opt (ref "class_heritage"),
      field "body" (ref "class_body")])),
   ("class_declaration", rank "declare" (seq [many (field "decorator" (ref "decorator")), "class",
      field "name" (ref "identifier"), opt (ref "class_heritage"),
      field "body" (ref "class_body"), opt (ref "_automatic_semicolon")])),
   ("class_heritage", seq ["extends", ref "expression"]),
   ("function_expression", rank "literal" (seq [opt "async", "function",
      field "name" (opt (ref "identifier")), ref "_call_signature",
      field "body" (ref "statement_block")])),
   ("function_declaration", rankRight "declare" (seq [opt "async", "function",
      field "name" (ref "identifier"), ref "_call_signature",
      field "body" (ref "statement_block"), opt (ref "_automatic_semicolon")])),
   ("generator_function", rank "literal" (seq [opt "async", "function", "*",
      field "name" (opt (ref "identifier")), ref "_call_signature",
      field "body" (ref "statement_block")])),
   ("generator_function_declaration", rankRight "declare" (seq [opt "async", "function", "*",
      field "name" (ref "identifier"), ref "_call_signature",
      field "body" (ref "statement_block"), opt (ref "_automatic_semicolon")])),
   ("arrow_function", seq [opt "async",
      choice [
        field "parameter" (choice [as "identifier" (ref "_reserved_identifier"),
          ref "identifier"]),
        ref "_call_signature"],
      "=>", field "body" (choice [ref "expression", ref "statement_block"])]),
   ("_call_signature", field "parameters" (ref "formal_parameters")),
   ("_formal_parameter", choice [ref "pattern", ref "assignment_pattern"]),
   ("optional_chain", literal "?."),
   ("call_expression", choice [
      rank "call" (seq [field "function" (choice [ref "expression", ref "import"]),
        field "arguments" (ref "arguments")]),
      rank "template_call" (seq [
        field "function" (choice [ref "primary_expression", ref "new_expression"]),
        field "arguments" (ref "template_string")]),
      rank "member" (seq [field "function" (ref "primary_expression"),
        field "optional_chain" (ref "optional_chain"), field "arguments" (ref "arguments")])]),
   ("new_expression", rankRight "new" (seq ["new",
      field "constructor" (choice [ref "primary_expression", ref "new_expression"]),
      field "arguments" (opt (weigh 1 (ref "arguments")))])),
   ("await_expression", rank "unary_void" (seq ["await", ref "expression"])),
   ("member_expression", rank "member" (seq [
      field "object" (choice [ref "expression", ref "primary_expression", ref "import"]),
      choice [".", field "optional_chain" (ref "optional_chain")],
      field "property" (choice [ref "private_property_identifier",
        as "property_identifier" (ref "identifier")])])),
   ("subscript_expression", rankRight "member" (seq [
      field "object" (choice [ref "expression", ref "primary_expression"]),
      opt (field "optional_chain" (ref "optional_chain")),
      "[", field "index" (ref "_expressions"), "]"]))]

def operatorRules : List (String × Rule) :=
  [("_lhs_expression", choice [ref "member_expression", ref "subscript_expression",
      ref "_identifier", as "identifier" (ref "_reserved_identifier"),
      ref "_destructuring_pattern"]),
   ("assignment_expression", rankRight "assign" (seq [
      field "left" (choice [ref "parenthesized_expression", ref "_lhs_expression"]), "=",
      field "right" (ref "expression")])),
   ("_augmented_assignment_lhs", choice [ref "member_expression", ref "subscript_expression",
      as "identifier" (ref "_reserved_identifier"), ref "identifier",
      ref "parenthesized_expression"]),
   ("augmented_assignment_expression", rankRight "assign" (seq [
      field "left" (ref "_augmented_assignment_lhs"),
      field "operator" (choice ["+=", "-=", "*=", "/=", "%=", "^=", "&=", "|=", ">>=", ">>>=",
        "<<=", "**=", "&&=", "||=", "??="]),
      field "right" (ref "expression")])),
   ("_initializer", seq ["=", field "value" (ref "expression")]),
   ("_destructuring_pattern", choice [ref "object_pattern", ref "array_pattern"]),
   ("spread_element", seq ["...", ref "expression"]),
   ("ternary_expression", rankRight "ternary" (seq [field "condition" (ref "expression"),
      asText "?" (ref "_ternary_qmark"), field "consequence" (ref "expression"), ":",
      field "alternative" (ref "expression")])),
   ("binary_expression", choice (binaryOperators.map fun (operator, rankName, toRight) =>
      binaryForm operator rankName toRight)),
   ("unary_expression", rankLeft "unary_void" (seq [
      field "operator" (choice ["!", "~", "-", "+", "typeof", "void", "delete"]),
      field "argument" (ref "expression")])),
   ("update_expression", leftward (choice [
      seq [field "argument" (ref "expression"), field "operator" (choice ["++", "--"])],
      seq [field "operator" (choice ["++", "--"]), field "argument" (ref "expression")]])),
   ("sequence_expression", rightward (commaSep1 (ref "expression")))]

def literalRules : List (String × Rule) :=
  [("string", choice [
      seq ["\"", many (choice [as "string_fragment" (ref "unescaped_double_string_fragment"),
        ref "escape_sequence"]), "\""],
      seq ["'", many (choice [as "string_fragment" (ref "unescaped_single_string_fragment"),
        ref "escape_sequence"]), "'"]]),
   ("template_string", seq ["`", many (choice [as "string_fragment" (ref "_template_chars"),
      ref "escape_sequence", ref "template_substitution"]), "`"]),
   ("template_substitution", seq ["$\x7b", ref "_expressions", "\x7d"]),
   ("regex", seq ["/", field "pattern" (ref "regex_pattern"), ref "_regex_close",
      opt (field "flags" (ref "regex_flags"))]),
   ("_identifier", choice [ref "undefined", ref "identifier"]),
   ("meta_property", choice [seq ["new", ".", "target"], seq ["import", ".", "meta"]]),
   ("this", literal "this"), ("super", literal "super"), ("true", literal "true"),
   ("false", literal "false"), ("null", literal "null"), ("undefined", literal "undefined")]

/-- Arguments, decorators and the members of classes and objects. -/
def memberRules : List (String × Rule) :=
  [("arguments", seq ["(", commaSep (opt (choice [ref "expression", ref "spread_element"])),
      ")"]),
   ("decorator", seq ["@", choice [ref "identifier",
      as "member_expression" (ref "decorator_member_expression"),
      as "call_expression" (ref "decorator_call_expression")]]),
   ("decorator_member_expression", rank "member" (seq [
      field "object" (choice [ref "identifier",
        as "member_expression" (ref "decorator_member_expression")]),
      ".", field "property" (as "property_identifier" (ref "identifier"))])),
   ("decorator_call_expression", rank "call" (seq [
      field "function" (choice [ref "identifier",
        as "member_expression" (ref "decorator_member_expression")]),
      field "arguments" (ref "arguments")])),
   ("class_body", seq ["\x7b", many (choice [
      seq [field "member" (ref "method_definition"), opt ";"],
      seq [field "member" (ref "field_definition"), ref "_semicolon"],
      field "member" (ref "class_static_block"), ";"]), "\x7d"]),
   ("field_definition", seq [many (field "decorator" (ref "decorator")),
      opt (choice ["static", asText "static get" (ref "_static_get_line")]),
      field "property" (ref "_property_name"), opt (ref "_initializer")]),
   ("formal_parameters", seq ["(", opt (seq [commaSep1 (ref "_formal_parameter"), opt ","]),
      ")"]),
   ("class_static_block", seq ["static", field "body" (ref "statement_block")]),
   ("pattern", weigh (-1) (choice [ref "_lhs_expression", ref "rest_pattern"])),
   ("rest_pattern", rightward (seq ["...", ref "_lhs_expression"])),
   ("method_definition", seq [many (field "decorator" (ref "decorator")),
      opt (choice ["static", asText "static get" (ref "_static_get_line")]), opt "async",
      opt (choice ["get", "set", "*"]), field "name" (ref "_property_name"),
      field "parameters" (ref "formal_parameters"), field "body" (ref "statement_block")]),
   ("pair", seq [field "key" (ref "_property_name"), ":", field "value" (ref "expression")]),
   ("pair_pattern", seq [field "key" (ref "_property_name"), ":",
      field "value" (choice [ref "pattern", ref "assignment_pattern"])]),
   ("_property_name", choice [
      as "property_identifier" (choice [ref "identifier", ref "_reserved_identifier"]),
      ref "private_property_identifier", ref "string", ref "number",
      ref "computed_property_name"]),
   ("computed_property_name", seq ["[", ref "expression", "]"]),
   ("_reserved_identifier", choice reservedNames),
   ("_semicolon", choice [ref "_automatic_semicolon", ";"])]

/-- The precedence lists, strongest first. -/
def orderings : List (List Rank) :=
  [[.name "member", .name "template_call", .name "call", .rule "update_expression",
      .name "unary_void", .name "binary_exp", .name "binary_times", .name "binary_plus",
      .name "binary_shift", .name "binary_compare", .name "binary_relation",
      .name "binary_equality", .name "bitwise_and", .name "bitwise_xor", .name "bitwise_or",
      .name "logical_and", .name "logical_or", .name "ternary", .rule "sequence_expression",
      .rule "arrow_function"],
   [.name "assign", .rule "primary_expression"],
   [.name "member", .name "template_call", .name "new", .name "call", .rule "expression"],
   [.name "declare", .name "literal"],
   [.rule "primary_expression", .rule "statement_block", .name "object"],
   [.rule "meta_property", .rule "import"],
   [.rule "import_statement", .rule "import"],
   [.rule "export_statement", .rule "primary_expression"],
   [.rule "lexical_declaration", .rule "primary_expression"]]

end JavaScript

def javaScript : Spec where
  rules :=
    [("program", seq [opt (ref "hash_bang_line"), many (ref "statement")])] ++
    JavaScript.moduleRules ++ JavaScript.statementRules ++ JavaScript.primaryRules ++
    JavaScript.markupRules ++ JavaScript.functionRules ++ JavaScript.operatorRules ++
    JavaScript.literalRules ++ JavaScript.memberRules
  tokens := ["identifier", "private_property_identifier", "number", "hash_bang_line", "comment",
    "unescaped_double_string_fragment", "unescaped_single_string_fragment",
    "unescaped_double_jsx_string_fragment", "unescaped_single_jsx_string_fragment",
    "html_character_reference", "jsx_identifier", "_regex_close", "regex_flags",
    "_static_get_line", "_automatic_semicolon", "_template_chars", "_ternary_qmark",
    "html_comment", "escape_sequence", "regex_pattern", "jsx_text"]
  extras := ["comment", "html_comment"]
  inlined := ["_call_signature", "_formal_parameter", "_expressions", "_semicolon", "_identifier",
    "_reserved_identifier", "_jsx_attribute", "_jsx_element_name", "_jsx_child", "_jsx_element",
    "_jsx_attribute_name", "_jsx_attribute_value", "_jsx_identifier", "_lhs_expression"]
  supertypes := ["statement", "declaration", "expression", "primary_expression", "pattern"]
  orderings := JavaScript.orderings

end CodeGraph.Script
