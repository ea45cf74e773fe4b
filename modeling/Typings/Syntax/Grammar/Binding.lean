import Typings.Syntax.Grammar.Basic

/-!
# Bindings and parameters

A binding is a name or a pattern that takes an array or an object apart.  A
parameter is a binding with a type; in a declaration file it never has a default
value, so a default is a fault.
-/

namespace Typings
namespace Syntax
namespace Grammar

open Syntax.Parser

section Patterns

/-- A binding with a default value, if an equals sign follows. -/
def bindingElement (rules : Rules) : Parser Binding := do
  let left ← rules.binding
  if ← eatMark "=" then
    let _ ← innerAssignment rules
    complain
    return .withDefault
  else
    return left

def arrayElement (rules : Rules) : Parser Unit := do
  if ← eatMark "," then
    return ()
  else
    let isRest ← eatMark "..."
    let _ ← if isRest then rules.binding else bindingElement rules
    unless ← atMark "]" do
      expectMark ","
      complainIf isRest

def arrayPattern (rules : Rules) : Parser Binding := do
  expectMark "["
  let _ ← repeatWhile (not <$> atMark "]") (arrayElement rules)
  expectMark "]"
  let _ ← eatMark "?"
  return .pattern

/-- One property of an object pattern; whether it stands for the remaining ones. -/
def objectElement (rules : Rules) : Parser Bool := do
  if ← eatMark "..." then
    match ← rules.binding with
    | .name _ => return true
    | _ => failure
  else
    let key ← propertyKey rules
    if ← eatMark ":" then
      let _ ← bindingElement rules
      return false
    else
      match key with
      | .word name =>
          if ← eatMark "=" then
            let _ ← innerAssignment rules
          else
            complainIf (TokenKind.isReserved name)
          return false
      | _ => failure

def objectPattern (rules : Rules) : Parser Binding := do
  expectMark leftBrace
  let elements ← commaList (atMark rightBrace) do
    let isRest ← objectElement rules
    return (isRest, ← atMark ",")
  expectMark rightBrace
  complainIf (elements.any fun element => element.1 && element.2)
  let _ ← eatMark "?"
  return .pattern

def binding (rules : Rules) : Parser Binding := do
  match ← kind with
  | .word _ => do return .name (← bindingName)
  | .mark "[" => arrayPattern rules
  | .mark "\x7b" => objectPattern rules
  | _ => failure

end Patterns

section Parameters

/-- A parameter as a list of parameters holds it. -/
structure Parameter where
  span : Span
  binding : Binding
  /-- Whether a modifier makes the parameter a property too. -/
  isProperty : Bool

/-- The binding of a parameter that does not stand for the remaining ones, with its
type and default value. -/
def plainParameter (rules : Rules) (hasModifier : Bool) : Parser Binding := do
  let left ← bindingElement rules
  let isOptional ← eatMark "?"
  let ascription ← ascription? rules
  complainIf (ascription.isSome && left matches .withDefault)
  let hasDefault ← eatMark "="
  if hasDefault then
    let _ ← innerAssignment rules
    complain
  complainIf (isOptional && hasDefault)
  complainIf hasModifier
  return if hasDefault then .withDefault else left

/-- The binding of a parameter that stands for the remaining ones. -/
def restParameter (rules : Rules) : Parser Binding := do
  expectMark "..."
  let _ ← rules.binding
  if ← eatMark "=" then
    let _ ← innerAssignment rules
    complain
  let _ ← ascription? rules
  if ← eatMark "?" then complain
  return .rest

def parameter (rules : Rules) : Parser Parameter := do
  let start ← here
  let _ ← decorators rules
  let isRest ← atMark "..."
  let bound ← if isRest then restParameter rules
    else do plainParameter rules (← parameterModifier)
  let span ← spanFrom start
  unless ← atMark ")" do
    expectMark ","
    complainIf isRest
  return ⟨span, bound, false⟩

/-- Parameters up to the closing parenthesis, which is left. -/
def parameters (rules : Rules) : Parser (List Parameter) :=
  repeatWhile (not <$> atMark ")") (parameter rules)

/-- The modifiers that make a constructor parameter a property; whether there are any. -/
def propertyModifiers : Parser Bool := do
  let access ← modifier? ["public", "protected", "private", "in", "out"] false
  complainIf (access == some "in" || access == some "out")
  let overrides ← modifier? ["override"] false
  let readonly ← modifier? ["readonly"] false
  return access.isSome || overrides.isSome || readonly.isSome

/-- The binding of a constructor parameter and whether it is a property.  A property
must have a name of its own. -/
def constructorBinding (rules : Rules) : Parser (Binding × Bool) := do
  let isProperty ← propertyModifiers
  let bound ← plainParameter rules (← parameterModifier)
  require (!isProperty || !(bound matches .pattern))
  return (bound, isProperty)

/-- A parameter of a constructor, and the comma after it. -/
def constructorParameter (rules : Rules) : Parser Parameter := do
  let start ← here
  let _ ← decorators rules
  let isRest ← atMark "..."
  let (bound, isProperty) ←
    if isRest then do pure (← restParameter rules, false) else constructorBinding rules
  let span ← spanFrom start
  unless ← atMark ")" do
    expectMark ","
    complainIf isRest
  return ⟨span, bound, isProperty⟩

/-- The parameters of a type signature with the closing parenthesis.  None of them may
have a default value. -/
def signatureParameters (rules : Rules) : Parser (List Parameter) := do
  let found ← parameters rules
  expectMark ")"
  require (found.all fun p => !(p.binding matches .withDefault))
  return found

end Parameters

end Grammar
end Syntax
end Typings
