import Typings.Syntax.Grammar.Function

/-!
# Classes

The members of a class begin with modifiers, and almost every modifier is also a
possible name.  A word is a modifier only if what follows can be the rest of a
member; otherwise it names a property or a method itself.

**Order.**  Modifiers have an order, and one that comes too late or twice is a
fault.

**Abstract members.**  A class that is not abstract has none that are named without a
hash.
-/

namespace Typings
namespace Syntax
namespace Grammar

open Syntax.Parser

section Heritage

/-- A class or interface that is extended or implemented, by name. -/
def heritageElement (rules : Rules) : Parser Unit := do
  let _ ← anyWord
  let _ ← repeatWhile (eatMark ".") do
    if ← atMark "#" then privateName else anyWord
  if ← atOpenAngle then
    typeArguments rules

/-- The classes and interfaces after `extends` or `implements`. -/
def heritage (rules : Rules) : Parser (List Unit) :=
  commaList
    (do return (← atMark leftBrace) || (← atOneWordOf ["implements", "extends"]))
    (heritageElement rules)

def superclass (rules : Rules) : Parser Unit := do
  let _ ← rules.leftHand
  if ← atOpenAngle then
    typeArguments rules

/-- The clauses between the name of a class and its body; whether it extends a class. -/
def classClauses (rules : Rules) : Parser Bool := do
  let extendsClass ← eatWord "extends"
  if extendsClass then
    superclass rules
    if ← eatMark "," then
      complainIf !(← heritage rules).isEmpty
  if ← eatWord "extends" then
    complain
    superclass rules
  if ← eatWord "implements" then
    let _ ← heritage rules
  if ← eatWord "implements" then
    complain
    let _ ← heritage rules
  if ← eatWord "extends" then
    complain
    superclass rules
  return extendsClass

def forbiddenTypeNames : List String :=
  ["string", "null", "number", "object", "any", "unknown", "boolean", "bigint", "symbol", "void",
    "never", "intrinsic"]

end Heritage

section MemberParts

/-- What the modifiers of a member say. -/
structure Modifiers where
  declares : Bool
  hasAccess : Bool
  isStatic : Bool
  /-- The other modifiers, in order. -/
  others : List String

namespace Modifiers

def has (m : Modifiers) (word : String) : Bool :=
  m.others.contains word

end Modifiers

/-- Whether modifiers are repeated or out of order.  `seen` holds the ones before. -/
def areDisordered (declares hasSuperclass : Bool) : List String → List String → Bool
  | _, [] => false
  | seen, word :: rest =>
      let fault :=
        match word with
        | "abstract" => seen.contains "abstract" || seen.contains "override"
        | "override" =>
            seen.contains "override" || seen.contains "readonly" || declares || !hasSuperclass
        | "readonly" => seen.contains "readonly"
        | "static" => seen.contains "override"
        | _ => false
      fault || areDisordered declares hasSuperclass (word :: seen) rest

def atMethod : Parser Bool := do
  return (← atMark "(") || (← atOpenAngle)

/-- Whether a property ends or goes on here; a line break ends it where `byBreak`
says so. -/
def atProperty (byBreak : Bool) : Parser Bool := do
  return (← atOneOf ["!", ":", "=", rightBrace, ";"]) || (byBreak && (← atStatementEnd))

def classKey (rules : Rules) : Parser Key := do
  if ← atMark "#" then
    let name ← privateName
    complainIf (name == "constructor")
    return .hidden name
  else
    propertyKey rules

/-- The kinds of methods, which differ in the parameters they may have. -/
inductive MethodKind where
  | plain
  | getter
  | setter
  deriving DecidableEq

/-- Whether a method of this kind cannot have these parameters.  A parameter for
`this` does not count. -/
def MethodKind.refuses (kind : MethodKind) (params : List Parameter) : Bool :=
  let counted := params.filter fun p =>
    match p.binding with
    | .name word => word != "this"
    | _ => true
  match kind with
  | .plain => false
  | .getter => !counted.isEmpty
  | .setter => counted.length != 1 || (params.head?.any fun p => p.binding matches .rest)

def checkAbstract (key : Key) (modifiers : Modifiers) : Parser Unit := do
  complainIf (modifiers.has "abstract" && !(key matches .hidden _) &&
    !(← read).inAbstractClass)

def method (rules : Rules) (start : Nat) (key : Key) (methodKind : MethodKind)
    (modifiers : Modifiers) (isAsync isGenerator : Bool) : Parser Outline := do
  let parts ← functionParts rules isAsync isGenerator
  complainIf (methodKind.refuses parts.params)
  complainIf (parts.hasBody && modifiers.has "abstract")
  complainIf (key matches .hidden _ && modifiers.hasAccess)
  checkAbstract key modifiers
  return .member (← spanFrom start) key.className

def property (rules : Rules) (start : Nat) (key : Key) (modifiers : Modifiers)
    (isOptional isAccessor : Bool) : Parser Outline := do
  require !key.isConstructor
  let isHidden := key matches .hidden _
  complainIf (isHidden && (modifiers.declares || modifiers.has "abstract" || modifiers.hasAccess))
  unless isAccessor do
    checkAbstract key modifiers
  unless isOptional do
    let _ ← eatMark "!"
  let _ ← ascription? rules
  if ← eatMark "=" then
    let _ ← innerAssignment rules
    complainIf (modifiers.has "abstract")
  complainIf !(← eatStatementEnd)
  return .member (← spanFrom start) (if isAccessor then none else key.className)

def constructor (rules : Rules) (start : Nat) (modifiers : Modifiers) : Parser Outline := do
  complainIf (modifiers.has "override")
  if (← typeParameters? rules false true).isSome then complain
  expectMark "("
  let params ← repeatWhile (not <$> atMark ")") (constructorParameter rules)
  expectMark ")"
  if (← ascription? rules).isSome then complain
  let hasBody ← functionBody rules false false
  complainIf (!hasBody && params.any fun p => p.isProperty || p.binding matches .withDefault)
  complainIf (modifiers.isStatic || modifiers.has "abstract")
  return .member (← spanFrom start) none

/-- A block of statements that belongs to the class itself. -/
def staticBlock (rules : Rules) (start : Nat) : Parser Outline := do
  within (insideFunction false false) rules.block
  return .member (← spanFrom start) none

end MemberParts

section Members

/-- A member named by a word that could have been a modifier, if what follows shows
that it is a name. -/
def modifierAsName? (rules : Rules) (start : Nat) (word : String) (modifiers : Modifiers)
    (byBreak : Bool) : Parser (Option Outline) := do
  if ← atMethod then
    return some (← method rules start (.word word) .plain modifiers false false)
  else if (← atProperty byBreak) || (← atMark "?") then
    let isOptional ← eatMark "?"
    if ← atMethod then
      return some (← method rules start (.word word) .plain modifiers false false)
    else
      return some (← property rules start (.word word) modifiers isOptional false)
  else
    return none

/-- A method, a property or an accessor, from its key on. -/
def keyedMember (rules : Rules) (start : Nat) (modifiers : Modifiers) (isAccessor : Bool) :
    Parser Outline := do
  let isReadonly := modifiers.has "readonly"
  let key ←
    if isReadonly && (← atOneOf ["!", ":"]) then pure (.word "readonly") else classKey rules
  let isOptional ← eatMark "?"
  if ← atMethod then
    complainIf modifiers.declares
    require !isReadonly
    if key.isConstructor then
      return ← constructor rules start modifiers
    else
      return ← method rules start key .plain modifiers false false
  let isWord : List String → Bool := fun names =>
    match key with
    | .word name => names.contains name
    | _ => false
  let generatorOnNextLine := (← afterBreak) && (← atMark "*")
  let isGetterOrSetter := isWord ["get", "set"] && !(← atProperty false) && !generatorOnNextLine
  if !isGetterOrSetter && (← atProperty true) then
    return ← property rules start key modifiers isOptional isAccessor
  if isWord ["async"] && !(← afterBreak) then
    if (← modifier? ["override"] false).isSome then complain
    let isGenerator ← eatMark "*"
    let key ← classKey rules
    require !key.isConstructor
    complainIf isReadonly
    let _ ← eatMark "?"
    return ← method rules start key .plain modifiers true isGenerator
  if isGetterOrSetter then
    let isSetter : Bool := isWord ["set"]
    let key ← classKey rules
    complainIf (isReadonly || key.isConstructor)
    return ← method rules start key (if isSetter then .setter else .getter) modifiers false false
  failure

/-- A member after `declare`, its access and the first `static`. -/
def memberAfterStatic (rules : Rules) (start : Nat) (declares hasAccess isStatic : Bool) :
    Parser Outline := do
  let others ← collect (modifier? ["abstract", "readonly", "override", "static"] true)
  complainIf (areDisordered declares (← read).hasSuperclass [] others)
  let modifiers : Modifiers := ⟨declares, hasAccess, isStatic || others.contains "static", others⟩
  let isAccessor ← eatWord "accessor"
  if isAccessor then
    if let some entry ← modifierAsName? rules start "accessor" modifiers true then
      return entry
  if modifiers.isStatic && (← atMark leftBrace) then
    complainIf (declares || hasAccess)
    return ← staticBlock rules start
  if (← atWord "static") && (← markAfter leftBrace) then
    complainIf (isStatic || !others.isEmpty)
    advance
    return ← staticBlock rules start
  if !modifiers.has "abstract" && !modifiers.has "override" && !hasAccess then
    if ← atIndexSignature then
      indexSignature rules
      return .member (← spanFrom start) none
  if ← eatMark "*" then
    let key ← classKey rules
    complainIf (modifiers.has "readonly" || key.isConstructor)
    return ← method rules start key .plain modifiers false true
  keyedMember rules start modifiers isAccessor

def accessModifier : Parser Bool := do
  match ← modifier? ["public", "protected", "private", "in", "out"] false with
  | some word =>
      complainIf (word == "in" || word == "out")
      return word != "in" && word != "out"
  | none => return false

def classMember (rules : Rules) : Parser Outline := do
  let start ← here
  let _ ← decorators rules
  let declaresFirst ← eatWord "declare"
  let hasAccess ← accessModifier
  let declares ← if declaresFirst then pure true else eatWord "declare"
  if declares then
    if let some entry ←
        modifierAsName? rules start "declare" ⟨false, hasAccess, false, []⟩ true then
      return entry
  let isStatic ← eatWord "static"
  if isStatic then
    if let some entry ←
        modifierAsName? rules start "static" ⟨declares, hasAccess, false, []⟩ false then
      return entry
  memberAfterStatic rules start declares hasAccess isStatic

/-- The members of a class, in braces.  A lone semicolon is no member. -/
def classBody (rules : Rules) : Parser (List Outline) := do
  expectMark leftBrace
  let found ← repeatWhile (not <$> atMark rightBrace) do
    if ← eatMark ";" then
      return none
    else
      return some (← classMember rules)
  expectMark rightBrace
  return found.filterMap id

/-- A class from the word `class` on, over the span from `start`. -/
def classFrom (rules : Rules) (start : Nat) (nameRequired isAbstract : Bool) :
    Parser Outline := do
  expectWord "class"
  require !(nameRequired && (← atWord "let"))
  let name ← declaredName nameRequired
  complainIf (name.any forbiddenTypeNames.contains)
  let _ ← typeParameters? rules true true
  let extendsClass ← classClauses rules
  let members ← within
    (fun s =>
      { s with inClass := true, inAbstractClass := isAbstract, hasSuperclass := extendsClass })
    (classBody rules)
  let span ← spanFrom start
  return ⟨.classDef, name.map String.toList, false, span, none, members⟩

end Members

end Grammar
end Syntax
end Typings
