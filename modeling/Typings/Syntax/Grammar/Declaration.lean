import Typings.Syntax.Grammar.Expression

/-!
# Declarations

Variables, interfaces, enumerations, type aliases and namespaces, and the words
that announce them.  Most of these words are names too, so whether one begins a
declaration is decided by what follows it.
-/

namespace Typings
namespace Syntax
namespace Grammar

open Syntax.Parser

section Variables

/-- What is known of a declarator: the name and the type, if it binds a name. -/
structure Declarator where
  name : Option String
  ascription : Option Span
  hasValue : Bool

/-- A declarator.  `lexical` refuses the name `let`; `looping` leaves the words that
go on with the head of a loop. -/
def declarator (rules : Rules) (lexical looping : Bool) : Parser Declarator := do
  require !(lexical && (← atWord "let"))
  let bound ← rules.binding
  let name : Option String :=
    match bound with
    | .name word => some word
    | _ => none
  if name.isSome then
    let _ ← eatMark "!"
  let ascription ← ascription? rules
  let hasValue ←
    if looping && (← atOneWordOf ["in", "of"]) then pure false else eatMark "="
  if hasValue then
    let _ ← rules.assignment
  return ⟨name, if name.isSome then ascription else none, hasValue⟩

/-- Declarators with commas between them; one must come first and after each comma. -/
def declaratorsUpTo (rules : Rules) (lexical looping : Bool) :
    Nat → Parser (List Declarator)
  | 0 => failure
  | fuel + 1 => do
      if (← atMark ";") || (← atFinish) then
        complain
        return []
      else
        let first ← declarator rules lexical looping
        if ← eatMark "," then
          return first :: (← declaratorsUpTo rules lexical looping fuel)
        else
          return [first]

/-- The word that begins a declaration of variables and its declarators. -/
def variableList (rules : Rules) (looping : Bool) : Parser (List Declarator) := do
  let word ← anyWord
  let inOperator := !(looping && word == "var")
  within (fun s => { s with inOperator := inOperator }) do
    declaratorsUpTo rules (word != "var") looping ((← read).size + 1)

/-- A declaration of variables over the span from `start`. -/
def variableDeclaration (rules : Rules) (start : Nat) : Parser Outline := do
  let found ← variableList rules false
  expectStatementEnd
  let first := found.head?
  let span ← spanFrom start
  return ⟨.variable (first.bind Declarator.ascription),
    (first.bind Declarator.name).map String.toList, false, span, none, []⟩

/-- Whether the word after `let` shows that it begins a declaration. -/
def atLetDeclaration : Parser Bool := do
  if ← atWord "let" then
    match (← tokenAfter).kind with
    | .word name => return !TokenKind.isKeyword name || ["let", "yield", "await"].contains name
    | .mark text => return text == leftBrace || text == "["
    | _ => return false
  else
    return false

/-- Whether a declaration of a resource begins with the word `using` that comes next. -/
def atUsingDeclaration : Parser Bool := do
  let after ← tokenAfter
  return (← atWord "using") && isIdentifier after.kind && !after.afterBreak

/-- A declaration of resources, from the word `using` on.  Every resource has a name
and a value. -/
def usingDeclaration (rules : Rules) (start : Nat) : Parser Outline := do
  advance
  let found ← declaratorsUpTo rules false false ((← read).size + 1)
  complainIf (found.any fun d => d.name.isNone || !d.hasValue)
  expectStatementEnd
  return .statement (← spanFrom start)

end Variables

section Types

/-- An interface after the word `interface`, over the span from `start`. -/
def interfaceFrom (rules : Rules) (start : Nat) : Parser Outline := do
  let name ← anyWord
  complainIf (forbiddenTypeNames.contains name)
  let _ ← typeParameters? rules true false
  if ← eatWord "extends" then
    let _ ← heritage rules
  if ← atWord "extends" then
    complain
    let _ ← repeatWhile (do return !(← atMark leftBrace) && !(← atFinish)) advance
  let bodyFrom ← here
  let members ← typeMembers rules
  let span ← spanFrom start
  return ⟨.interface, some name.toList, false, span, some bodyFrom, members⟩

/-- A type alias after the word `type`, over the span from `start`.  The members of an
object type are its children. -/
def typeAliasFrom (rules : Rules) (start : Nat) : Parser Outline := do
  let name ← anyWord
  let _ ← typeParameters? rules true false
  expectMark "="
  let form ← anyType rules
  expectStatementEnd
  let span ← spanFrom start
  return ⟨.typeAlias, some name.toList, false, span,
    form.members.map fun _ => form.span.start, form.members.getD []⟩

end Types

section Enumerations

def enumerationKey (rules : Rules) : Parser Text := do
  match ← kind with
  | .string value => do
      advance
      return value
  | .number literal => do
      complain
      advance
      return Number.nameOf literal
  | .mark "[" => do
      advance
      let e ← innerExpression rules
      expectMark "]"
      match e with
      | .string value | .template value => return value
      | _ => do
          complain
          return []
  | _ => do return (← anyWord).toList

/-- A member of an enumeration and what separates it from the next.  Where a separator
is missing, the token in its place is passed over. -/
def enumerationMember (rules : Rules) : Parser Outline := do
  let start ← here
  let name ← enumerationKey rules
  let hasValue ← eatMark "="
  if hasValue then
    let _ ← innerAssignment rules
  let isMissing := !hasValue && !(← atOneOf [",", rightBrace])
  if isMissing then
    complain
    advance
  let span ← spanFrom start
  unless isMissing || (← eatMark ",") || (← atMark rightBrace) do
    complain
  return .member span (some name)

/-- An enumeration after the word `enum`, over the span from `start`. -/
def enumerationFrom (rules : Rules) (start : Nat) : Parser Outline := do
  let bodyFrom ← here
  let name ← anyWord
  expectMark leftBrace
  let members ← repeatWhile (not <$> atMark rightBrace) (enumerationMember rules)
  expectMark rightBrace
  let span ← spanFrom start
  return ⟨.enumeration, some name.toList, false, span, some bodyFrom, members⟩

end Enumerations

section NameSpaces

/-- Statements up to a closing brace.  A missing brace is a fault. -/
def blockStatements (rules : Rules) : Parser (List Outline) := do
  let found ← repeatWhile
    (do return !(← atMark rightBrace) && !(← atFinish))
    (rules.statement true)
  if ← atFinish then complain else expectMark rightBrace
  return found

/-- Statements in braces, among which no import and no export may stand. -/
def block (rules : Rules) : Parser Unit := do
  expectMark leftBrace
  let _ ← within (fun s => { s with moduleLevel := false }) (blockStatements rules)

def nameSpaceBody (rules : Rules) : Parser (List Outline) := do
  expectMark leftBrace
  within (fun s => { s with moduleLevel := true }) (blockStatements rules)

/-- A namespace with its name, over the span from `start`.  Behind a dotted name the
statements belong to the innermost name, which is not reached from here. -/
def nameSpaceFrom (rules : Rules) (start : Nat) : Parser Outline := do
  let name ← anyWord
  if ← eatMark "." then
    let _ ← rules.nameSpace (← here)
    let span ← spanFrom start
    return ⟨.nameSpace, some name.toList, false, span, none, []⟩
  else
    let bodyFrom ← here
    let statements ← nameSpaceBody rules
    let span ← spanFrom start
    return ⟨.nameSpace, some name.toList, false, span, some bodyFrom, statements⟩

/-- A module named by a string or by the word `global`, over the span from `start`. -/
def ambientModule (rules : Rules) (start : Nat) : Parser Outline := do
  let name ←
    if ← eatWord "global" then pure "global".toList else stringLiteral
  if ← atMark leftBrace then
    let bodyFrom ← here
    let statements ← nameSpaceBody rules
    let span ← spanFrom start
    return ⟨.nameSpace, some name, false, span, some bodyFrom, statements⟩
  else
    expectStatementEnd
    let span ← spanFrom start
    return ⟨.nameSpace, some name, false, span, none, []⟩

end NameSpaces

section Announced

/-- The declaration that `word` announces, over the span from `start`.  Where `pending`
holds the word itself still comes next, and it must announce a declaration. -/
def announced? (rules : Rules) (start : Nat) (word : String) (pending : Bool) :
    Parser (Option Outline) := do
  let sameLine := !(← afterBreak)
  let pass : Parser Unit := if pending then advance else pure ()
  match word with
  | "abstract" =>
      if pending || ((← atWord "class") && sameLine) then
        pass
        return some (← classFrom rules start true true)
      else
        return none
  | "enum" =>
      if pending || (← atIdentifier) then
        pass
        return some (← enumerationFrom rules start)
      else
        return none
  | "interface" =>
      if pending || (← atIdentifier) then
        pass
        return some (← interfaceFrom rules start)
      else
        return none
  | "module" =>
      if !sameLine then
        return none
      else
        pass
        if ← atString then return some (← ambientModule rules start)
        else if ← atIdentifier then return some (← nameSpaceFrom rules start)
        else if pending then failure
        else return none
  | "namespace" =>
      if pending || (← atIdentifier) then
        pass
        return some (← nameSpaceFrom rules start)
      else
        return none
  | "type" =>
      if pending || (sameLine && (← atIdentifier)) then
        pass
        return some (← typeAliasFrom rules start)
      else
        return none
  | _ => return none

/-- The declaration after the word `declare`, over the span from `start`. -/
def declared? (rules : Rules) (start : Nat) : Parser (Option Outline) := do
  match ← kind with
  | .word "function" => return some ((← functionDeclaration rules).covering
      (← spanFrom start))
  | .word "class" => return some (← classFrom rules start true false)
  | .word "const" =>
      if ← wordAfter "enum" then
        advance
        advance
        return some (← enumerationFrom rules start)
      else
        return some (← variableDeclaration rules start)
  | .word "var" | .word "let" => return some (← variableDeclaration rules start)
  | .word "global" => return some (← ambientModule rules start)
  | .word word => announced? rules start word true
  | _ => return none

end Announced

end Grammar
end Syntax
end Typings
