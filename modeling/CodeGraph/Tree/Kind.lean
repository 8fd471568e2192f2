/-!
# Kinds of syntax nodes

The kinds and field names of the grammars that the analysis looks at. Everything else a grammar may
name is kept under its name.

## Main Definitions

* `Kind`, `Kind.ofName`, `Kind.name`: the kind of a node, and its name in the grammars.
* `Field`, `Field.ofName`: the field under which a node stands in its parent.
* `Kind.isFunctionLike`, `Kind.isFunctionValue`: the kinds with a function body.
-/

namespace CodeGraph

/-- The kind of a syntax node. -/
inductive Kind where
  | program
  | comment
  | error
  | functionDeclaration
  | generatorFunctionDeclaration
  | functionExpression
  | functionWord
  | generatorFunction
  | arrowFunction
  | methodDefinition
  | classDeclaration
  | abstractClassDeclaration
  | classExpression
  | classBody
  | classHeritage
  | extendsClause
  | implementsClause
  | publicFieldDefinition
  | fieldDefinition
  | classStaticBlock
  | interfaceDeclaration
  | enumDeclaration
  | decorator
  | asyncWord
  | staticWord
  | getWord
  | setWord
  | defaultWord
  | constWord
  | readonlyWord
  | accessibilityModifier
  | overrideModifier
  | identifier
  | typeIdentifier
  | propertyIdentifier
  | privatePropertyIdentifier
  | shorthandPropertyIdentifier
  | shorthandPropertyIdentifierPattern
  | computedPropertyName
  | string
  | templateString
  | templateSubstitution
  | number
  | formalParameters
  | requiredParameter
  | optionalParameter
  | assignmentPattern
  | objectPattern
  | arrayPattern
  | pairPattern
  | objectAssignmentPattern
  | restPattern
  | lexicalDeclaration
  | variableDeclaration
  | variableDeclarator
  | ambientDeclaration
  | statementBlock
  | switchCase
  | switchDefault
  | forStatement
  | forInStatement
  | catchClause
  | returnStatement
  | importStatement
  | importClause
  | importRequireClause
  | namespaceImport
  | namedImports
  | importSpecifier
  | exportStatement
  | exportClause
  | exportSpecifier
  | namespaceExport
  | callExpression
  | newExpression
  | memberExpression
  | subscriptExpression
  | parenthesizedExpression
  | nonNullExpression
  | satisfiesExpression
  | asExpression
  | awaitExpression
  | thisExpression
  | superExpression
  | object
  | array
  | pair
  | spreadElement
  | arguments
  | typeAscription
  | genericType
  | nestedTypeIdentifier
  | unionType
  | parenthesizedType
  | readonlyType
  /-- A kind that the analysis does not look at. -/
  | other (name : String)
  deriving DecidableEq, Repr

namespace Kind

/-- The kinds that the analysis looks at. -/
def known : List Kind := [
  -- The whole file, and what stands between its parts.
  .program, .comment, .error,
  -- Functions and classes.
  .functionDeclaration, .generatorFunctionDeclaration, .functionExpression, .functionWord,
  .generatorFunction, .arrowFunction, .methodDefinition, .classDeclaration,
  .abstractClassDeclaration, .classExpression, .classBody, .classHeritage, .extendsClause,
  .implementsClause, .publicFieldDefinition, .fieldDefinition, .classStaticBlock,
  .interfaceDeclaration, .enumDeclaration, .decorator,
  -- Words that modify a declaration.
  .asyncWord, .staticWord, .getWord, .setWord, .defaultWord, .constWord, .readonlyWord,
  .accessibilityModifier, .overrideModifier,
  -- Names and literals.
  .identifier, .typeIdentifier, .propertyIdentifier, .privatePropertyIdentifier,
  .shorthandPropertyIdentifier, .shorthandPropertyIdentifierPattern, .computedPropertyName,
  .string, .templateString, .templateSubstitution, .number,
  -- Parameters and patterns.
  .formalParameters, .requiredParameter, .optionalParameter, .assignmentPattern, .objectPattern,
  .arrayPattern, .pairPattern, .objectAssignmentPattern, .restPattern,
  -- Statements.
  .lexicalDeclaration, .variableDeclaration, .variableDeclarator, .ambientDeclaration,
  .statementBlock, .switchCase, .switchDefault, .forStatement, .forInStatement, .catchClause,
  .returnStatement,
  -- Imports and exports.
  .importStatement, .importClause, .importRequireClause, .namespaceImport, .namedImports,
  .importSpecifier, .exportStatement, .exportClause, .exportSpecifier, .namespaceExport,
  -- Expressions.
  .callExpression, .newExpression, .memberExpression, .subscriptExpression,
  .parenthesizedExpression, .nonNullExpression, .satisfiesExpression, .asExpression,
  .awaitExpression, .thisExpression, .superExpression, .object, .array, .pair, .spreadElement,
  .arguments,
  -- Types.
  .typeAscription, .genericType, .nestedTypeIdentifier, .unionType, .parenthesizedType,
  .readonlyType]

/-- The name of a kind in the grammars. -/
def name : Kind → String
  | .program => "program"
  | .comment => "comment"
  | .error => "ERROR"
  | .functionDeclaration => "function_declaration"
  | .generatorFunctionDeclaration => "generator_function_declaration"
  | .functionExpression => "function_expression"
  | .functionWord => "function"
  | .generatorFunction => "generator_function"
  | .arrowFunction => "arrow_function"
  | .methodDefinition => "method_definition"
  | .classDeclaration => "class_declaration"
  | .abstractClassDeclaration => "abstract_class_declaration"
  | .classExpression => "class"
  | .classBody => "class_body"
  | .classHeritage => "class_heritage"
  | .extendsClause => "extends_clause"
  | .implementsClause => "implements_clause"
  | .publicFieldDefinition => "public_field_definition"
  | .fieldDefinition => "field_definition"
  | .classStaticBlock => "class_static_block"
  | .interfaceDeclaration => "interface_declaration"
  | .enumDeclaration => "enum_declaration"
  | .decorator => "decorator"
  | .asyncWord => "async"
  | .staticWord => "static"
  | .getWord => "get"
  | .setWord => "set"
  | .defaultWord => "default"
  | .constWord => "const"
  | .readonlyWord => "readonly"
  | .accessibilityModifier => "accessibility_modifier"
  | .overrideModifier => "override_modifier"
  | .identifier => "identifier"
  | .typeIdentifier => "type_identifier"
  | .propertyIdentifier => "property_identifier"
  | .privatePropertyIdentifier => "private_property_identifier"
  | .shorthandPropertyIdentifier => "shorthand_property_identifier"
  | .shorthandPropertyIdentifierPattern => "shorthand_property_identifier_pattern"
  | .computedPropertyName => "computed_property_name"
  | .string => "string"
  | .templateString => "template_string"
  | .templateSubstitution => "template_substitution"
  | .number => "number"
  | .formalParameters => "formal_parameters"
  | .requiredParameter => "required_parameter"
  | .optionalParameter => "optional_parameter"
  | .assignmentPattern => "assignment_pattern"
  | .objectPattern => "object_pattern"
  | .arrayPattern => "array_pattern"
  | .pairPattern => "pair_pattern"
  | .objectAssignmentPattern => "object_assignment_pattern"
  | .restPattern => "rest_pattern"
  | .lexicalDeclaration => "lexical_declaration"
  | .variableDeclaration => "variable_declaration"
  | .variableDeclarator => "variable_declarator"
  | .ambientDeclaration => "ambient_declaration"
  | .statementBlock => "statement_block"
  | .switchCase => "switch_case"
  | .switchDefault => "switch_default"
  | .forStatement => "for_statement"
  | .forInStatement => "for_in_statement"
  | .catchClause => "catch_clause"
  | .returnStatement => "return_statement"
  | .importStatement => "import_statement"
  | .importClause => "import_clause"
  | .importRequireClause => "import_require_clause"
  | .namespaceImport => "namespace_import"
  | .namedImports => "named_imports"
  | .importSpecifier => "import_specifier"
  | .exportStatement => "export_statement"
  | .exportClause => "export_clause"
  | .exportSpecifier => "export_specifier"
  | .namespaceExport => "namespace_export"
  | .callExpression => "call_expression"
  | .newExpression => "new_expression"
  | .memberExpression => "member_expression"
  | .subscriptExpression => "subscript_expression"
  | .parenthesizedExpression => "parenthesized_expression"
  | .nonNullExpression => "non_null_expression"
  | .satisfiesExpression => "satisfies_expression"
  | .asExpression => "as_expression"
  | .awaitExpression => "await_expression"
  | .thisExpression => "this"
  | .superExpression => "super"
  | .object => "object"
  | .array => "array"
  | .pair => "pair"
  | .spreadElement => "spread_element"
  | .arguments => "arguments"
  | .typeAscription => "type_annotation"
  | .genericType => "generic_type"
  | .nestedTypeIdentifier => "nested_type_identifier"
  | .unionType => "union_type"
  | .parenthesizedType => "parenthesized_type"
  | .readonlyType => "readonly_type"
  | .other name => name

/-- The kind with a name. -/
def ofName (text : String) : Kind :=
  (known.find? fun kind => kind.name = text).getD (.other text)

/-- Whether a node of this kind brings a function body. -/
def isFunctionLike : Kind → Bool
  | functionDeclaration | generatorFunctionDeclaration | functionExpression | functionWord
  | generatorFunction | arrowFunction | methodDefinition => true
  | _ => false

/-- Whether a node of this kind can be the value of a function-valued binding. -/
def isFunctionValue : Kind → Bool
  | functionExpression | functionWord | generatorFunction | arrowFunction => true
  | _ => false

/-- Whether a node of this kind is a function expression, which may have a name of its own. -/
def isFunctionExpression : Kind → Bool
  | functionExpression | functionWord | generatorFunction => true
  | _ => false

/-- Whether a node of this kind wraps an expression without changing what it denotes. -/
def isWrapper : Kind → Bool
  | parenthesizedExpression | nonNullExpression | satisfiesExpression => true
  | _ => false

end Kind

/-- The field under which a node stands in its parent. -/
inductive Field where
  | name
  | body
  | value
  | type
  | declaration
  | source
  | alias
  | property
  | parameters
  | parameter
  | pattern
  | left
  | function
  | arguments
  | object
  | index
  | constructor
  | returnType
  | typeArguments
  | module
  | key
  | initializer
  /-- A field that the analysis does not look at. -/
  | other (name : String)
  deriving DecidableEq, Repr

namespace Field

/-- The fields that the analysis looks at, with their names in the grammars. -/
def known : List (String × Field) :=
  [("name", .name), ("body", .body), ("value", .value), ("type", .type),
   ("declaration", .declaration), ("source", .source), ("alias", .alias),
   ("property", .property), ("parameters", .parameters), ("parameter", .parameter),
   ("pattern", .pattern), ("left", .left), ("function", .function), ("arguments", .arguments),
   ("object", .object), ("index", .index), ("constructor", .constructor),
   ("return_type", .returnType), ("type_arguments", .typeArguments), ("module", .module),
   ("key", .key), ("initializer", .initializer)]

/-- The field with a name. -/
def ofName (text : String) : Field :=
  ((known.find? fun entry => entry.1 = text).map Prod.snd).getD (.other text)

end Field

end CodeGraph
