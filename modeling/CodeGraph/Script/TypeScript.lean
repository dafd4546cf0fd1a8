import CodeGraph.Script.JavaScript

/-! The grammar of typed scripts with embedded markup, which extends the plain one. -/
namespace CodeGraph.Script

open Grammar Grammar.Rule

namespace TypeScript

def optionalType : Rule := field "type" (opt (ref "type_annotation"))

def optionalTypeParameters : Rule := field "type_parameters" (opt (ref "type_parameters"))

def optionalTypeArguments : Rule := field "type_arguments" (opt (ref "type_arguments"))

def memberName : Rule :=
  choice [ref "private_property_identifier", as "property_identifier" (ref "identifier")]

/-- What may stand before the dot or bracket of a type query. -/
def queryObject : Rule :=
  choice [ref "identifier", ref "this",
    as "subscript_expression" (ref "_type_query_subscript_expression"),
    as "member_expression" (ref "_type_query_member_expression"),
    as "call_expression" (ref "_type_query_call_expression")]

/-- What may be called or instantiated in a type query. -/
def queryFunction : Rule :=
  choice [ref "import", ref "identifier",
    as "member_expression" (ref "_type_query_member_expression"),
    as "subscript_expression" (ref "_type_query_subscript_expression")]

/-- The keywords that may serve as names. -/
def reservedNames : List Rule :=
  (["declare", "namespace", "type", "public", "private", "protected", "override", "readonly",
    "module", "any", "number", "boolean", "string", "symbol", "export", "object", "new",
    "readonly"].map literal) ++ JavaScript.reservedNames

/-- Rules of the plain grammar in their typed form. -/
def changedRules : List (String × Rule) :=
  [("catch_clause", seq ["catch",
      opt (seq ["(", field "parameter" (choice [ref "identifier", ref "_destructuring_pattern"]),
        opt (field "type" (ref "type_annotation")), ")"]),
      field "body" (ref "statement_block")]),
   ("call_expression", choice [
      rank "call" (seq [field "function" (choice [ref "expression", ref "import"]),
        optionalTypeArguments, field "arguments" (ref "arguments")]),
      rank "template_call" (seq [
        field "function" (choice [ref "primary_expression", ref "new_expression"]),
        field "arguments" (ref "template_string")]),
      rank "member" (seq [field "function" (ref "primary_expression"), "?.",
        optionalTypeArguments, field "arguments" (ref "arguments")])]),
   ("new_expression", rankRight "new" (seq ["new",
      field "constructor" (ref "primary_expression"), optionalTypeArguments,
      field "arguments" (opt (ref "arguments"))])),
   ("assignment_expression", rankRight "assign" (seq [opt "using",
      field "left" (choice [ref "parenthesized_expression", ref "_lhs_expression"]), "=",
      field "right" (ref "expression")])),
   ("_augmented_assignment_lhs", choice [ref "member_expression", ref "subscript_expression",
      as "identifier" (ref "_reserved_identifier"), ref "identifier",
      ref "parenthesized_expression", ref "non_null_expression"]),
   ("_lhs_expression", choice [ref "member_expression", ref "subscript_expression",
      ref "_identifier", as "identifier" (ref "_reserved_identifier"),
      ref "_destructuring_pattern", ref "non_null_expression"]),
   ("primary_expression", choice [ref "subscript_expression", ref "member_expression",
      ref "parenthesized_expression", ref "_identifier",
      as "identifier" (ref "_reserved_identifier"), ref "this", ref "super", ref "number",
      ref "string", ref "template_string", ref "regex", ref "true", ref "false", ref "null",
      ref "object", ref "array", ref "function_expression", ref "arrow_function",
      ref "generator_function", ref "class", ref "meta_property", ref "call_expression",
      ref "non_null_expression"]),
   ("expression", choice [ref "as_expression", ref "satisfies_expression",
      ref "instantiation_expression", ref "internal_module", ref "primary_expression",
      ref "_jsx_element", ref "assignment_expression", ref "augmented_assignment_expression",
      ref "await_expression", ref "unary_expression", ref "binary_expression",
      ref "ternary_expression", ref "update_expression", ref "new_expression",
      ref "yield_expression"]),
   ("jsx_opening_element", weigh (-1) (seq [ref "_jsx_start_opening_element", ">"])),
   ("jsx_self_closing_element", weigh (-1) (seq [ref "_jsx_start_opening_element", "/>"])),
   ("export_specifier", seq [opt (choice ["type", "typeof"]),
      field "name" (ref "_module_export_name"),
      opt (seq ["as", field "alias" (ref "_module_export_name")])]),
   ("import_specifier", seq [opt (choice ["type", "typeof"]),
      choice [
        field "name" (ref "_import_identifier"),
        seq [field "name" (choice [ref "_module_export_name", as "identifier" "type"]), "as",
          field "alias" (ref "_import_identifier")]]]),
   ("import_clause", choice [ref "namespace_import", ref "named_imports",
      seq [ref "_import_identifier",
        opt (seq [",", choice [ref "namespace_import", ref "named_imports"]])]]),
   ("import_statement", seq ["import", opt (choice ["type", "typeof"]),
      choice [seq [ref "import_clause", ref "_from_clause"], ref "import_require_clause",
        field "source" (ref "string")],
      opt (ref "import_attribute"), ref "_semicolon"]),
   ("import_attribute", seq [choice ["with", "assert"], ref "object"]),
   ("export_statement", choice [
      choice [
        seq ["export",
          choice [
            seq ["*", ref "_from_clause"],
            seq [ref "namespace_export", ref "_from_clause"],
            seq [ref "export_clause", ref "_from_clause"],
            ref "export_clause"],
          ref "_semicolon"],
        seq [many (field "decorator" (ref "decorator")), "export",
          choice [
            field "declaration" (ref "declaration"),
            seq ["default", choice [
              field "declaration" (ref "declaration"),
              seq [field "value" (ref "expression"), ref "_semicolon"]]]]]],
      seq ["export", "type", ref "export_clause", opt (ref "_from_clause"), ref "_semicolon"],
      seq ["export", "=", ref "expression", ref "_semicolon"],
      seq ["export", "as", "namespace", ref "identifier", ref "_semicolon"]]),
   ("variable_declarator", choice [
      seq [field "name" (choice [ref "identifier", ref "_destructuring_pattern"]), optionalType,
        opt (ref "_initializer")],
      rank "declare" (seq [field "name" (ref "identifier"), "!",
        field "type" (ref "type_annotation")])]),
   ("parenthesized_expression", seq ["(",
      choice [seq [ref "expression", optionalType], ref "sequence_expression"], ")"]),
   ("_formal_parameter", choice [ref "required_parameter", ref "optional_parameter"]),
   ("decorator", seq ["@", choice [ref "identifier",
      as "member_expression" (ref "decorator_member_expression"),
      as "call_expression" (ref "decorator_call_expression"),
      as "parenthesized_expression" (ref "decorator_parenthesized_expression")]]),
   ("decorator_call_expression", rank "call" (seq [
      field "function" (choice [ref "identifier",
        as "member_expression" (ref "decorator_member_expression")]),
      opt (field "type_arguments" (ref "type_arguments")),
      field "arguments" (ref "arguments")])),
   ("class_body", seq ["\x7b", many (choice [
      seq [many (field "decorator" (ref "decorator")), ref "method_definition",
        opt (ref "_semicolon")],
      seq [ref "method_signature",
        choice [ref "_function_signature_automatic_semicolon", ","]],
      ref "class_static_block",
      seq [
        choice [ref "abstract_method_signature", ref "index_signature", ref "method_signature",
          ref "public_field_definition"],
        choice [ref "_semicolon", ","]],
      ";"]), "\x7d"]),
   ("method_definition", leftward (seq [opt (ref "accessibility_modifier"), opt "static",
      opt (ref "override_modifier"), opt "readonly", opt "async",
      opt (choice ["get", "set", "*"]), field "name" (ref "_property_name"), opt "?",
      ref "_call_signature", field "body" (ref "statement_block")])),
   ("declaration", choice [ref "function_declaration", ref "generator_function_declaration",
      ref "class_declaration", ref "lexical_declaration", ref "variable_declaration",
      ref "function_signature", ref "abstract_class_declaration", ref "module",
      rank "declare" (ref "internal_module"), ref "type_alias_declaration",
      ref "enum_declaration", ref "interface_declaration", ref "import_alias",
      ref "ambient_declaration"]),
   ("class_heritage", choice [
      seq [ref "extends_clause", opt (ref "implements_clause")], ref "implements_clause"]),
   ("class", rank "literal" (seq [many (field "decorator" (ref "decorator")), "class",
      field "name" (opt (ref "_type_identifier")), optionalTypeParameters,
      opt (ref "class_heritage"), field "body" (ref "class_body")])),
   ("class_declaration", rankLeft "declare" (seq [many (field "decorator" (ref "decorator")),
      "class", field "name" (ref "_type_identifier"), optionalTypeParameters,
      opt (ref "class_heritage"), field "body" (ref "class_body"),
      opt (ref "_automatic_semicolon")])),
   ("_call_signature", seq [optionalTypeParameters, field "parameters" (ref "formal_parameters"),
      field "return_type" (opt (choice [ref "type_annotation", ref "asserts_annotation",
        ref "type_predicate_annotation"]))]),
   ("_reserved_identifier", choice reservedNames)]

/-- Fields, signatures and declarations that only the typed grammar has. -/
def declarationRules : List (String × Rule) :=
  [("public_field_definition", seq [many (field "decorator" (ref "decorator")),
      opt (choice [seq ["declare", opt (ref "accessibility_modifier")],
        seq [ref "accessibility_modifier", opt "declare"]]),
      choice [
        seq [opt "static", opt (ref "override_modifier"), opt "readonly"],
        seq [opt "abstract", opt "readonly"],
        seq [opt "readonly", opt "abstract"],
        opt "accessor"],
      field "name" (ref "_property_name"), opt (choice ["?", "!"]), optionalType,
      opt (ref "_initializer")]),
   ("_jsx_start_opening_element", seq ["<",
      opt (seq [
        choice [
          field "name" (choice [ref "_jsx_identifier", ref "jsx_namespace_name"]),
          seq [field "name" (choice [ref "identifier",
              as "member_expression" (ref "nested_identifier")]),
            optionalTypeArguments]],
        many (field "attribute" (ref "_jsx_attribute"))])]),
   ("_import_identifier", choice [ref "identifier", as "identifier" "type"]),
   ("non_null_expression", rankLeft "unary" (seq [ref "expression", "!"])),
   ("method_signature", seq [opt (ref "accessibility_modifier"), opt "static",
      opt (ref "override_modifier"), opt "readonly", opt "async",
      opt (choice ["get", "set", "*"]), field "name" (ref "_property_name"), opt "?",
      ref "_call_signature"]),
   ("abstract_method_signature", seq [opt (ref "accessibility_modifier"), "abstract",
      opt (ref "override_modifier"), opt (choice ["get", "set", "*"]),
      field "name" (ref "_property_name"), opt "?", ref "_call_signature"]),
   ("function_signature", seq [opt "async", "function", field "name" (ref "identifier"),
      ref "_call_signature",
      choice [ref "_semicolon", ref "_function_signature_automatic_semicolon"]]),
   ("decorator_parenthesized_expression", seq ["(", choice [ref "identifier",
      as "member_expression" (ref "decorator_member_expression"),
      as "call_expression" (ref "decorator_call_expression")], ")"]),
   ("as_expression", rankLeft "binary" (seq [ref "expression", "as",
      choice ["const", ref "type"]])),
   ("satisfies_expression", rankLeft "binary" (seq [ref "expression", "satisfies", ref "type"])),
   ("instantiation_expression", rank "instantiation" (seq [ref "expression",
      field "type_arguments" (ref "type_arguments")])),
   ("import_require_clause", seq [ref "identifier", "=", "require", "(",
      field "source" (ref "string"), ")"]),
   ("extends_clause", seq ["extends", commaSep1 (ref "_extends_clause_single")]),
   ("_extends_clause_single", rank "extends" (seq [field "value" (ref "expression"),
      optionalTypeArguments])),
   ("implements_clause", seq ["implements", commaSep1 (ref "type")]),
   ("ambient_declaration", seq ["declare", choice [ref "declaration",
      seq ["global", ref "statement_block"],
      seq ["module", ".", as "property_identifier" (ref "identifier"), ":", ref "type",
        ref "_semicolon"]]]),
   ("abstract_class_declaration", rank "declare" (seq [
      many (field "decorator" (ref "decorator")), "abstract", "class",
      field "name" (ref "_type_identifier"), optionalTypeParameters, opt (ref "class_heritage"),
      field "body" (ref "class_body")])),
   ("module", seq ["module", ref "_module"]),
   ("internal_module", seq ["namespace", ref "_module"]),
   ("_module", rightward (seq [
      field "name" (choice [ref "string", ref "identifier", ref "nested_identifier"]),
      field "body" (opt (ref "statement_block"))])),
   ("import_alias", seq ["import", ref "identifier", "=",
      choice [ref "identifier", ref "nested_identifier"], ref "_semicolon"]),
   ("nested_type_identifier", rank "member" (seq [
      field "module" (choice [ref "identifier", ref "nested_identifier"]), ".",
      field "name" (ref "_type_identifier")])),
   ("interface_declaration", seq ["interface", field "name" (ref "_type_identifier"),
      optionalTypeParameters, opt (ref "extends_type_clause"),
      field "body" (as "interface_body" (ref "object_type"))]),
   ("extends_type_clause", seq ["extends", commaSep1 (field "type" (choice [
      ref "_type_identifier", ref "nested_type_identifier", ref "generic_type"]))]),
   ("enum_declaration", seq [opt "const", "enum", field "name" (ref "identifier"),
      field "body" (ref "enum_body")]),
   ("enum_body", seq ["\x7b",
      opt (seq [commaSep1 (choice [field "name" (ref "_property_name"), ref "enum_assignment"]),
        opt ","]), "\x7d"]),
   ("enum_assignment", seq [field "name" (ref "_property_name"), ref "_initializer"]),
   ("type_alias_declaration", seq ["type", field "name" (ref "_type_identifier"),
      optionalTypeParameters, "=", field "value" (ref "type"), ref "_semicolon"]),
   ("accessibility_modifier", choice ["public", "private", "protected"]),
   ("override_modifier", literal "override"),
   ("required_parameter", seq [ref "_parameter_name", optionalType, opt (ref "_initializer")]),
   ("optional_parameter", seq [ref "_parameter_name", "?", optionalType,
      opt (ref "_initializer")]),
   ("_parameter_name", seq [many (field "decorator" (ref "decorator")),
      opt (ref "accessibility_modifier"), opt (ref "override_modifier"), opt "readonly",
      field "pattern" (choice [ref "pattern", ref "this"])])]

def typeRules : List (String × Rule) :=
  [("omitting_type_annotation", seq ["-?:", ref "type"]),
   ("adding_type_annotation", seq ["+?:", ref "type"]),
   ("opting_type_annotation", seq ["?:", ref "type"]),
   ("type_annotation", seq [":", ref "type"]),
   ("_type_query_member_expression_in_type_annotation", seq [
      field "object" (choice [ref "import",
        as "member_expression" (ref "_type_query_member_expression_in_type_annotation"),
        as "call_expression" (ref "_type_query_call_expression_in_type_annotation")]),
      ".", field "property" memberName]),
   ("_type_query_call_expression_in_type_annotation", seq [
      field "function" (choice [ref "import",
        as "member_expression" (ref "_type_query_member_expression_in_type_annotation")]),
      field "arguments" (ref "arguments")]),
   ("asserts", seq ["asserts", choice [ref "type_predicate", ref "identifier", ref "this"]]),
   ("asserts_annotation", seq [":", ref "asserts"]),
   ("type", choice [ref "primary_type", ref "function_type", ref "readonly_type",
      ref "constructor_type", ref "infer_type",
      prec (.level (-1)) none
        (as "member_expression" (ref "_type_query_member_expression_in_type_annotation")),
      prec (.level (-1)) none
        (as "call_expression" (ref "_type_query_call_expression_in_type_annotation"))]),
   ("tuple_parameter", seq [field "name" (choice [ref "identifier", ref "rest_pattern"]),
      field "type" (ref "type_annotation")]),
   ("optional_tuple_parameter", seq [field "name" (ref "identifier"), "?",
      field "type" (ref "type_annotation")]),
   ("optional_type", seq [ref "type", "?"]),
   ("rest_type", seq ["...", ref "type"]),
   ("_tuple_type_member", choice [as "required_parameter" (ref "tuple_parameter"),
      as "optional_parameter" (ref "optional_tuple_parameter"), ref "optional_type",
      ref "rest_type", ref "type"]),
   ("constructor_type", leftward (seq [opt "abstract", "new", optionalTypeParameters,
      field "parameters" (ref "formal_parameters"), "=>", field "type" (ref "type")])),
   ("primary_type", choice [ref "parenthesized_type", ref "predefined_type",
      ref "_type_identifier", ref "nested_type_identifier", ref "generic_type",
      ref "object_type", ref "array_type", ref "tuple_type", ref "flow_maybe_type",
      ref "type_query", ref "index_type_query", as "this_type" (ref "this"),
      ref "existential_type", ref "literal_type", ref "lookup_type", ref "conditional_type",
      ref "template_literal_type", ref "intersection_type", ref "union_type", "const"]),
   ("template_type", seq ["$\x7b", choice [ref "primary_type", ref "infer_type"], "\x7d"]),
   ("template_literal_type", seq ["`", many (choice [
      as "string_fragment" (ref "_template_chars"), ref "template_type"]), "`"]),
   ("infer_type", rightward (seq ["infer", ref "_type_identifier",
      opt (seq ["extends", ref "type"])])),
   ("conditional_type", rightward (seq [field "left" (ref "type"), "extends",
      field "right" (ref "type"), "?", field "consequence" (ref "type"), ":",
      field "alternative" (ref "type")])),
   ("generic_type", rank "call" (seq [
      field "name" (choice [ref "_type_identifier", ref "nested_type_identifier"]),
      field "type_arguments" (ref "type_arguments")])),
   ("type_predicate", seq [
      field "name" (choice [ref "identifier", ref "this",
        as "identifier" (ref "predefined_type")]),
      "is", field "type" (ref "type")]),
   ("type_predicate_annotation", seq [":", ref "type_predicate"]),
   ("_type_query_member_expression", seq [field "object" queryObject, choice [".", "?."],
      field "property" memberName]),
   ("_type_query_subscript_expression", seq [field "object" queryObject, opt "?.", "[",
      field "index" (choice [ref "predefined_type", ref "string", ref "number"]), "]"]),
   ("_type_query_call_expression", seq [field "function" queryFunction,
      field "arguments" (ref "arguments")]),
   ("_type_query_instantiation_expression", seq [field "function" queryFunction,
      field "type_arguments" (ref "type_arguments")]),
   ("type_query", rightward (seq ["typeof", choice [
      as "subscript_expression" (ref "_type_query_subscript_expression"),
      as "member_expression" (ref "_type_query_member_expression"),
      as "call_expression" (ref "_type_query_call_expression"),
      as "instantiation_expression" (ref "_type_query_instantiation_expression"),
      ref "identifier", ref "this"]])),
   ("index_type_query", seq ["keyof", ref "primary_type"]),
   ("lookup_type", seq [ref "primary_type", "[", ref "type", "]"]),
   ("mapped_type_clause", seq [field "name" (ref "_type_identifier"), "in",
      field "type" (ref "type"), opt (seq ["as", field "alias" (ref "type")])]),
   ("literal_type", choice [as "unary_expression" (ref "_number"), ref "number", ref "string",
      ref "true", ref "false", ref "null", ref "undefined"]),
   ("_number", prec (.level 1) (some .left) (seq [field "operator" (choice ["-", "+"]),
      field "argument" (ref "number")])),
   ("existential_type", literal "*"),
   ("flow_maybe_type", rightward (seq ["?", ref "primary_type"])),
   ("parenthesized_type", seq ["(", ref "type", ")"]),
   ("predefined_type", choice ["any", "number", "boolean", "string", "symbol",
      asText "unique symbol" (seq ["unique", "symbol"]), "void", "unknown", "string", "never",
      "object"]),
   ("type_arguments", seq ["<", commaSep1 (ref "type"), opt ",", ">"])]

/-- Object types, their members, type parameters and combined types. -/
def objectTypeRules : List (String × Rule) :=
  [("object_type", seq [choice ["\x7b", "\x7b|"],
      opt (seq [opt (choice [",", ";"]),
        sepBy1 (choice [",", ref "_semicolon"])
          (choice [ref "export_statement", ref "property_signature", ref "call_signature",
            ref "construct_signature", ref "index_signature", ref "method_signature"]),
        opt (choice [",", ref "_semicolon"])]),
      choice ["\x7d", "|\x7d"]]),
   ("call_signature", ref "_call_signature"),
   ("property_signature", seq [opt (ref "accessibility_modifier"), opt "static",
      opt (ref "override_modifier"), opt "readonly", field "name" (ref "_property_name"),
      opt "?", optionalType]),
   ("type_parameters", seq ["<", commaSep1 (ref "type_parameter"), opt ",", ">"]),
   ("type_parameter", seq [opt "const", field "name" (ref "_type_identifier"),
      field "constraint" (opt (ref "constraint")), field "value" (opt (ref "default_type"))]),
   ("default_type", seq ["=", ref "type"]),
   ("constraint", seq [choice ["extends", ":"], ref "type"]),
   ("construct_signature", seq [opt "abstract", "new", optionalTypeParameters,
      field "parameters" (ref "formal_parameters"), optionalType]),
   ("index_signature", seq [
      opt (seq [field "sign" (opt (choice ["-", "+"])), "readonly"]), "[",
      choice [
        seq [field "name" (choice [ref "identifier",
            as "identifier" (ref "_reserved_identifier")]), ":",
          field "index_type" (ref "type")],
        ref "mapped_type_clause"],
      "]",
      field "type" (choice [ref "type_annotation", ref "omitting_type_annotation",
        ref "adding_type_annotation", ref "opting_type_annotation"])]),
   ("array_type", seq [ref "primary_type", "[", "]"]),
   ("tuple_type", seq ["[", commaSep (ref "_tuple_type_member"), opt ",", "]"]),
   ("readonly_type", seq ["readonly", ref "type"]),
   ("union_type", leftward (seq [opt (ref "type"), "|", ref "type"])),
   ("intersection_type", leftward (seq [opt (ref "type"), "&", ref "type"])),
   ("function_type", leftward (seq [optionalTypeParameters,
      field "parameters" (ref "formal_parameters"), "=>",
      field "return_type" (choice [ref "type", ref "asserts", ref "type_predicate"])])),
   ("_type_identifier", as "type_identifier" (ref "identifier"))]

def orderings : List (List Rank) :=
  [[.name "call", .name "instantiation", .name "unary", .name "binary",
      .rule "await_expression", .rule "arrow_function"],
   [.name "extends", .name "instantiation"],
   [.rule "intersection_type", .rule "union_type", .rule "conditional_type",
      .rule "function_type", .name "binary", .rule "type_predicate", .rule "readonly_type"],
   [.rule "mapped_type_clause", .rule "primary_expression"],
   [.rule "accessibility_modifier", .rule "primary_expression"],
   [.name "unary_void", .rule "expression"],
   [.rule "extends_clause", .rule "primary_expression"],
   [.name "unary", .name "assign"],
   [.name "declare", .rule "expression"],
   [.rule "predefined_type", .rule "unary_expression"],
   [.rule "type", .rule "flow_maybe_type"],
   [.rule "tuple_type", .rule "array_type", .rule "pattern", .rule "type"],
   [.rule "readonly_type", .rule "pattern"],
   [.rule "readonly_type", .rule "primary_expression"],
   [.rule "type_query", .rule "subscript_expression", .rule "expression"],
   [.rule "type_query", .rule "_type_query_subscript_expression"],
   [.rule "nested_type_identifier", .rule "generic_type", .rule "primary_type",
      .rule "lookup_type", .rule "index_type_query", .rule "type"],
   [.rule "as_expression", .rule "satisfies_expression", .rule "primary_type"],
   [.rule "_type_query_member_expression", .rule "member_expression"],
   [.rule "member_expression", .rule "_type_query_member_expression_in_type_annotation"],
   [.rule "_type_query_member_expression", .rule "primary_expression"],
   [.rule "_type_query_subscript_expression", .rule "subscript_expression"],
   [.rule "_type_query_subscript_expression", .rule "primary_expression"],
   [.rule "_type_query_call_expression", .rule "primary_expression"],
   [.rule "_type_query_instantiation_expression", .rule "primary_expression"],
   [.rule "type_query", .rule "primary_expression"],
   [.rule "override_modifier", .rule "primary_expression"],
   [.rule "decorator_call_expression", .rule "decorator"],
   [.rule "literal_type", .rule "pattern"],
   [.rule "predefined_type", .rule "pattern"],
   [.rule "call_expression", .rule "_type_query_call_expression"],
   [.rule "call_expression", .rule "_type_query_call_expression_in_type_annotation"],
   [.rule "new_expression", .rule "primary_expression"],
   [.rule "meta_property", .rule "primary_expression"],
   [.rule "construct_signature", .rule "_property_name"]]

def change (rules changed : List (String × Rule)) : List (String × Rule) :=
  rules.map fun (name, rule) => (name, ((changed.lookup name).getD rule))

end TypeScript

def typeScript : Spec where
  rules := TypeScript.change javaScript.rules TypeScript.changedRules ++
    TypeScript.declarationRules ++ TypeScript.typeRules ++ TypeScript.objectTypeRules
  tokens := javaScript.tokens ++ ["_function_signature_automatic_semicolon"]
  extras := javaScript.extras
  inlined := (javaScript.inlined.filter fun name =>
      name != "_formal_parameter" && name != "_call_signature") ++
    ["_type_identifier", "_jsx_start_opening_element"]
  supertypes := javaScript.supertypes ++ ["type", "primary_type"]
  orderings := javaScript.orderings ++ TypeScript.orderings

end CodeGraph.Script
