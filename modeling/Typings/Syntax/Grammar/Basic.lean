import Typings.Number.Literal
import Typings.Syntax.Outline
import Typings.Syntax.Parser

/-!
# The grammar and its small rules

The rules of the grammar refer to each other in circles.  `Rules` holds the rules
that close the circles, and every other rule is a definition over them.

**What rules give.**  Of a type only its span matters and, if it is an object type
as such, its members.  Of an expression only what decides whether the text around
it is well formed.

**Small rules.**  This module reads the names that bind, the keys of members, type
ascriptions, arguments and decorators.
-/

namespace Typings
namespace Syntax

/-- What is known of a type. -/
structure TypeForm where
  span : Span
  /-- The members, if the type is an object type as such. -/
  members : Option (List Outline)
  deriving Inhabited

/-- What is known of an expression. -/
inductive Expr where
  /-- A plain name. -/
  | name (word : String)
  /-- A string literal. -/
  | string (value : Text)
  /-- A template without substitutions. -/
  | template (value : Text)
  /-- A property of an expression, perhaps in an optional chain. -/
  | access (optional : Bool)
  /-- A call in an optional chain. -/
  | optionalCall
  /-- An array or an object literal. -/
  | aggregate
  /-- An expression in parentheses. -/
  | grouped (inner : Expr)
  /-- An expression with an assertion about its type. -/
  | asserted (inner : Expr)
  /-- An expression that begins with a unary operator. -/
  | unary
  /-- A conjunction or a disjunction. -/
  | logical
  /-- A conditional or another binary expression. -/
  | compound
  /-- An arrow function. -/
  | arrow
  /-- A construction without arguments. -/
  | construction
  | other
  deriving Inhabited

namespace Expr

/-- The expression inside of any parentheses. -/
def ungrouped : Expr → Expr
  | .grouped inner => ungrouped inner
  | e => e

/-- Whether a value can be assigned to the expression by an operator that reads it
first. -/
def isSimpleTarget : Expr → Bool
  | .name word => word != "eval" && word != "arguments"
  | .access optional => !optional
  | .grouped inner | .asserted inner => isSimpleTarget inner
  | _ => false

/-- Whether a value can be assigned to the expression. -/
def isTarget : Expr → Bool
  | .aggregate => true
  | e => e.isSimpleTarget

/-- Whether the expression belongs to an optional chain. -/
def isOptional : Expr → Bool
  | .access optional => optional
  | .optionalCall => true
  | _ => false

end Expr

/-- What a binding introduces. -/
inductive Binding where
  /-- A name. -/
  | name (word : String)
  /-- A pattern of an array or an object. -/
  | pattern
  /-- A binding with a default value. -/
  | withDefault
  /-- The remaining elements. -/
  | rest
  deriving Inhabited

/-- How a member is named. -/
inductive Key where
  | word (name : String)
  | string (value : Text)
  | number (name : Text)
  | bigint (name : Text)
  /-- A private name, without its mark. -/
  | hidden (name : String)
  | computed
  deriving Inhabited

namespace Key

def className : Key → Option Text
  | .word name => some name.toList
  | .string value => some value
  | .number name | .bigint name => some name
  | .hidden name => some ('#' :: name.toList)
  | .computed => none

/-- The name of a member of an interface or an object type with this key. -/
def typeName : Key → Option Text
  | .word name => some name.toList
  | .string value => some value
  | .number name => some name
  | .bigint _ | .hidden _ | .computed => none

def isConstructor : Key → Bool
  | .word name => name == "constructor"
  | .string value => value == "constructor".toList
  | _ => false

end Key

/-- The rules that other rules refer to before they are defined. -/
structure Rules where
  /-- A type. -/
  type : Parser TypeForm
  /-- A type without union, intersection or function arrow on the outside. -/
  typeOperand : Parser TypeForm
  /-- An expression without commas. -/
  assignment : Parser Expr
  /-- An expression without binary operators on the outside. -/
  unary : Parser Expr
  /-- The callee of a construction. -/
  constructed : Parser Expr
  /-- An expression that can be called. -/
  leftHand : Parser Expr
  /-- A name with accesses and calls, but without brackets. -/
  decoration : Parser Unit
  /-- An object literal. -/
  object : Parser Unit
  /-- A name or a pattern that binds. -/
  binding : Parser Binding
  /-- A class from the word `class` on, with the span it is to cover starting at the
  position given; its name may be left out. -/
  classExpression : Nat → Parser Outline
  /-- A function from the word `function` on; its name may be left out. -/
  functionExpression : Parser Unit
  /-- A statement, and whether declarations may stand here. -/
  statement : Bool → Parser Outline
  /-- Statements in braces. -/
  block : Parser Unit
  /-- The name of a namespace and its body, from the position given. -/
  nameSpace : Nat → Parser Outline

namespace Rules

/-- Rules that accept nothing. -/
def nothing : Rules where
  type := failure
  typeOperand := failure
  assignment := failure
  unary := failure
  constructed := failure
  leftHand := failure
  decoration := failure
  object := failure
  binding := failure
  classExpression := fun _ => failure
  functionExpression := failure
  statement := fun _ => failure
  block := failure
  nameSpace := fun _ => failure

end Rules

namespace Grammar

open Syntax.Parser

section Names

/-- The words that strict code does not let name anything, although they are read. -/
def strictWords : List String :=
  ["enum", "static", "yield", "implements", "interface", "let", "package", "private",
    "protected", "public"]

def identifier : Parser String := do
  match ← kind with
  | .word name =>
      complainIf (strictWords.contains name)
      require (!TokenKind.isKeyword name || ["await", "this", "let", "yield"].contains name)
      advance
      return name
  | _ => failure

def bindingName : Parser String := do
  let name ← identifier
  complainIf (name == "eval" || name == "arguments")
  complainIf (name == "await" && (← read).inAsync)
  complainIf (name == "yield" && (← read).inGenerator)
  return name

/-- A private name, after which its word follows immediately. -/
def privateName : Parser String := do
  expectMark "#"
  require ((← lastStop) == (← here))
  anyWord

end Names

section TypesAside

/-- A type in which the word `extends` may begin a condition. -/
def anyType (rules : Rules) : Parser TypeForm :=
  within (fun s => { s with conditionalTypes := true }) rules.type

def ascription? (rules : Rules) : Parser (Option Span) := do
  if ← eatMark ":" then
    return some (← anyType rules).span
  else
    return none

def typeArguments (rules : Rules) : Parser Unit := do
  expectOpenAngle
  let _ ← commaList atCloseAngle (anyType rules)
  expectCloseAngle

end TypesAside

section Expressions

/-- An expression in brackets or parentheses, where `in` is an operator again. -/
def innerAssignment (rules : Rules) : Parser Expr :=
  within (fun s => { s with inOperator := true }) rules.assignment

/-- An expression, perhaps of several parts with commas between them. -/
def expression (rules : Rules) : Parser Expr := do
  let first ← rules.assignment
  if ← atMark "," then
    let _ ← repeatWhile (eatMark ",") rules.assignment
    return .other
  else
    return first

/-- An expression with commas, where `in` is an operator again. -/
def innerExpression (rules : Rules) : Parser Expr :=
  within (fun s => { s with inOperator := true }) (expression rules)

def arguments (rules : Rules) : Parser Unit := do
  expectMark "("
  let _ ← commaList (atMark ")") do
    let _ ← eatMark "..."
    innerAssignment rules
  expectMark ")"

def decorator (rules : Rules) : Parser Unit := do
  expectMark "@"
  if ← eatMark "(" then
    let _ ← innerExpression rules
    expectMark ")"
  else
    rules.decoration
  let hasTypes ← atOpenAngle
  if hasTypes then typeArguments rules
  if hasTypes || (← atMark "(") then arguments rules

def decorators (rules : Rules) : Parser Bool := do
  let found ← repeatWhile (atMark "@") (decorator rules)
  return !found.isEmpty

end Expressions

section Keys

/-- The key of a property: a word, a literal, or an expression in brackets. -/
def propertyKey (rules : Rules) : Parser Key := do
  match ← kind with
  | .word name => do
      advance
      return .word name
  | .string value => do
      advance
      return .string value
  | .number literal => do
      advance
      return .number (Number.nameOf literal)
  | .bigint literal => do
      advance
      return .bigint (Number.bigName literal)
  | .mark "[" => do
      advance
      let _ ← innerAssignment rules
      if ← atMark "," then
        complain
        let _ ← repeatWhile (eatMark ",") (innerAssignment rules)
      expectMark "]"
      return .computed
  | _ => failure

end Keys

section Modifiers

/-- Whether the token after a modifier shows that it is one: it stands on the same
line and can begin a name, a pattern or a key. -/
def modifierFollows : Parser Bool := do
  let after ← tokenAfter
  if after.afterBreak then
    return false
  else
    match after.kind with
    | .mark text => return ["[", leftBrace, "*", "...", "#"].contains text
    | .word _ | .string _ | .number _ | .bigint _ => return true
    | _ => return false

/-- One of the given modifiers, if one comes next.  A static block is not taken for a
modifier where `sparingBlocks` holds. -/
def modifier? (allowed : List String) (sparingBlocks : Bool) : Parser (Option String) := do
  match ← kind with
  | .word name =>
      if !allowed.contains name then return none
      else if sparingBlocks && name == "static" && (← markAfter leftBrace) then return none
      else if ← modifierFollows then
        advance
        return some name
      else
        return none
  | _ => return none

def parameterModifier : Parser Bool := do
  if ← atOneWordOf ["public", "protected", "private", "readonly"] then
    match (← tokenAfter).kind with
    | .word _ | .mark "\x7b" | .mark "[" => do
        let _ ← modifier? ["public", "protected", "private", "readonly"] false
        return true
    | _ => return false
  else
    return false

end Modifiers

end Grammar
end Syntax
end Typings
