import Typings.Syntax.Grammar.Types

/-!
# Functions

A function in a declaration file is a signature that ends like a statement.  A body
is read too, but it is a fault: nothing is implemented where things are declared.
-/

namespace Typings
namespace Syntax
namespace Grammar

open Syntax.Parser

section Bodies

def insideFunction (isAsync isGenerator : Bool) (s : Setting) : Setting :=
  { s with
    moduleLevel := false
    inFunction := true
    inAsync := isAsync
    inGenerator := isGenerator
    breakAllowed := false
    continueAllowed := false
    labels := [] }

/-- The body of a function, or the end of its signature; whether there is a body. -/
def functionBody (rules : Rules) (isAsync isGenerator : Bool) : Parser Bool := do
  if ← atMark leftBrace then
    complain
    within (insideFunction isAsync isGenerator) rules.block
    return true
  else
    expectStatementEnd
    return false

end Bodies

section Signatures

/-- The parts of a function after its name. -/
structure FunctionParts where
  signature : SignatureSpans
  params : List Parameter
  hasBody : Bool

/-- A function after its name.  Without a body no parameter may have a default value. -/
def functionParts (rules : Rules) (isAsync isGenerator : Bool) : Parser FunctionParts := do
  let typeParams ← typeParameters? rules false true
  expectMark "("
  let params ←
    within (fun s => { s with inAsync := isAsync, inGenerator := isGenerator }) (parameters rules)
  expectMark ")"
  let result ← result? rules
  let hasBody ← functionBody rules isAsync isGenerator
  complainIf (!hasBody && params.any fun p => p.binding matches .withDefault)
  return ⟨⟨typeParams, params.map Parameter.span, result⟩, params, hasBody⟩

def bindingName? : Parser (Option String) := do
  if (← atIdentifier) || (← atWord "this") then
    return some (← bindingName)
  else
    return none

def declaredName (required : Bool) : Parser (Option String) := do
  if required then
    return some (← bindingName)
  else
    bindingName?

/-- A function from the word `function` on, over the span from `start`, and whether it
has a body. -/
def functionFrom (rules : Rules) (start : Nat) (isAsync nameRequired : Bool) :
    Parser (Outline × Bool) := do
  expectWord "function"
  let isGenerator ← eatMark "*"
  let name ← declaredName nameRequired
  let parts ← functionParts rules isAsync isGenerator
  let span ← spanFrom start
  let entry : Outline :=
    ⟨.function parts.signature, name.map String.toList, false, span, none, []⟩
  return (entry, parts.hasBody)

def functionDeclaration (rules : Rules) : Parser Outline := do
  let start ← here
  let isAsync ← eatWord "async"
  return (← functionFrom rules start isAsync true).1

def defaultFunction (rules : Rules) : Parser Outline := do
  let start ← here
  let isAsync ← eatWord "async"
  return (← functionFrom rules start isAsync false).1

def functionExpression (rules : Rules) : Parser Unit := do
  let isAsync ← eatWord "async"
  let (_, hasBody) ← functionFrom rules 0 isAsync false
  require hasBody

def atAsyncFunction : Parser Bool := do
  return (← atWord "async") && (← wordAfterOnLine "function")

end Signatures

end Grammar
end Syntax
end Typings
