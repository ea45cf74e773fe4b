import Typings.Syntax.Grammar.Binding

/-!
# Types

The rules for types, from conditional types down to type references and literals,
and for the members of interfaces and object types.

**Signatures.**  Functions in types, methods, and call and construct signatures
share one form: type parameters, parameters, and a result that may be a predicate
about a parameter.
-/

namespace Typings
namespace Syntax
namespace Grammar

open Syntax.Parser

/-- The form of a type that is no object type. -/
def plainType (start : Nat) : Parser TypeForm := do
  return ⟨← spanFrom start, none⟩

section TypeParameters

/-- The words that may stand before the name of a type parameter. -/
def typeParameterWords : List String :=
  ["public", "private", "protected", "readonly", "abstract", "const", "override", "in", "out"]

/-- Whether the modifiers of a type parameter are at fault: `variance` permits `in` and
then `out`, `constant` permits `const`, and no other word is permitted. -/
def areFaulty (variance constant : Bool) (modifiers : List String) : Bool :=
  modifiers.any (fun m =>
      if m == "const" then !constant
      else if m == "in" || m == "out" then !variance
      else true) ||
    1 < modifiers.count "in" || 1 < modifiers.count "out" ||
    (modifiers.dropWhile (· != "out")).contains "in"

def typeParameter (rules : Rules) (variance constant : Bool) : Parser Unit := do
  let modifiers ← collect (modifier? typeParameterWords false)
  complainIf (areFaulty variance constant modifiers)
  let _ ← anyWord
  if ← eatWord "extends" then
    let _ ← anyType rules
  if ← eatMark "=" then
    let _ ← anyType rules

def typeParameters (rules : Rules) (variance constant : Bool) : Parser Span := do
  let start ← here
  expectOpenAngle
  let _ ← commaList atCloseAngle (typeParameter rules variance constant)
  expectCloseAngle
  spanFrom start

def typeParameters? (rules : Rules) (variance constant : Bool) : Parser (Option Span) := do
  if ← atOpenAngle then
    return some (← typeParameters rules variance constant)
  else
    return none

end TypeParameters

section Results

/-- A type or a predicate, read after the mark that announces a result. -/
def resultType (rules : Rules) : Parser Span := do
  let start ← here
  let asserts := (← atWord "asserts") && isIdentifier (← tokenAfter).kind
  if asserts then advance
  let isPredicate := (← atIdentifier) && (← wordAfterOnLine "is")
  if asserts || isPredicate then
    let _ ← anyWord
    if isPredicate then
      expectWord "is"
      let _ ← rules.type
    spanFrom start
  else
    return (← rules.type).span

def result? (rules : Rules) : Parser (Option Span) := do
  if ← eatMark ":" then
    return some (← resultType rules)
  else
    return none

def thisType (rules : Rules) (asserts : Bool) : Parser Unit := do
  expectWord "this"
  if asserts || !(← afterBreak) then
    if ← eatWord "is" then
      let _ ← anyType rules

/-- Type parameters, parameters and a result after a colon. -/
def callSignature (rules : Rules) : Parser Unit := do
  let _ ← typeParameters? rules false true
  expectMark "("
  let _ ← signatureParameters rules
  let _ ← result? rules

end Results

section Members

/-- Ends a member of a type: with a comma, or where a statement may end. -/
def memberEnd : Parser Unit := do
  unless ← eatMark "," do
    expectStatementEnd

/-- Whether a bracket that comes next opens an index signature. -/
def atIndexSignature : Parser Bool := do
  if ← atMark "[" then
    foresees do
      advance
      if ← atIdentifier then
        advance
        atOneOf [":", ","]
      else
        return false
  else
    return false

/-- An index signature with the end of the member. -/
def indexSignature (rules : Rules) : Parser Unit := do
  expectMark "["
  let _ ← anyWord
  if ← eatMark "," then
    complain
  else
    expectMark ":"
  let _ ← anyType rules
  expectMark "]"
  let _ ← ascription? rules
  memberEnd

def typeKey (rules : Rules) : Parser Key := do
  match ← kind with
  | .mark "[" => do
      advance
      let _ ← innerAssignment rules
      expectMark "]"
      return .computed
  | .string value => do
      advance
      return .string value
  | .number literal => do
      advance
      return .number (Number.nameOf literal)
  | .mark "#" => do
      let name ← privateName
      complain
      return .hidden name
  | _ => do return .word (← anyWord)

/-- A getter or a setter of a type, as the span from `start` and a key. -/
def accessorSignature? (rules : Rules) (start : Nat) (isReadonly : Bool) :
    Parser (Option Outline) :=
  attempt? do
    require (!isReadonly)
    let isGetter ← atWord "get"
    require (isGetter || (← atWord "set"))
    advance
    let key ← typeKey rules
    expectMark "("
    if isGetter then
      expectMark ")"
      let _ ← ascription? rules
    else
      require (!(← signatureParameters rules).isEmpty)
    memberEnd
    return some (.member (← spanFrom start) key.typeName)

def propertySignature (rules : Rules) (start : Nat) (isReadonly : Bool) : Parser Outline := do
  let key ← typeKey rules
  let _ ← eatMark "?"
  if (← atMark "(") || (← atOpenAngle) then
    require (!isReadonly)
    callSignature rules
  else
    let _ ← ascription? rules
  memberEnd
  return .member (← spanFrom start) key.typeName

def typeMember (rules : Rules) : Parser Outline := do
  let start ← here
  let after ← tokenAfter
  let isConstruct := (← atWord "new") && (match after.kind with
    | .mark text => ["(", "<", "<<"].contains text
    | _ => false)
  if isConstruct then advance
  if isConstruct || (← atMark "(") || (← atOpenAngle) then
    callSignature rules
    memberEnd
    return .member (← spanFrom start) none
  else
    let isReadonly := (← modifier? ["readonly"] false).isSome
    if ← atIndexSignature then
      indexSignature rules
      return .member (← spanFrom start) none
    else
      match ← accessorSignature? rules (← here) isReadonly with
      | some entry => return entry
      | none => propertySignature rules start isReadonly

/-- The members of an interface or an object type, in braces. -/
def typeMembers (rules : Rules) : Parser (List Outline) :=
  within (fun s => { s with conditionalTypes := true }) do
    expectMark leftBrace
    let found ← repeatWhile (not <$> atMark rightBrace) (typeMember rules)
    expectMark rightBrace
    return found

end Members

section Compounds

def atMappedType : Parser Bool :=
  foresees do
    expectMark leftBrace
    if ← atOneOf ["+", "-"] then
      advance
      atWord "readonly"
    else
      let _ ← eatWord "readonly"
      if !(← eatMark "[") || !(← atIdentifier) then
        return false
      else
        advance
        atWord "in"

def mappedType (rules : Rules) : Parser Unit := do
  expectMark leftBrace
  if ← atOneOf ["+", "-"] then
    advance
    expectWord "readonly"
  else
    let _ ← eatWord "readonly"
  expectMark "["
  let _ ← anyWord
  expectWord "in"
  let _ ← anyType rules
  if ← eatWord "as" then
    let _ ← anyType rules
  expectMark "]"
  if ← atOneOf ["+", "-"] then
    advance
    expectMark "?"
  else
    let _ ← eatMark "?"
  let _ ← ascription? rules
  expectStatementEnd
  expectMark rightBrace

/-- What an element of a tuple is, as far as the order of elements goes. -/
inductive TupleElement where
  | required
  | optional
  | rest

/-- The label of a tuple element and its colon, if there is one. -/
def tupleLabel? : Parser (Option Unit) :=
  attempt? do
    let _ ← eatMark "..."
    let _ ← anyWord
    let _ ← eatMark "?"
    expectMark ":"
    return some ()

def tupleElement (rules : Rules) : Parser TupleElement := do
  let _ ← tupleLabel?
  if ← eatMark "..." then
    let _ ← anyType rules
    return .rest
  else
    let _ ← anyType rules
    return if ← eatMark "?" then .optional else .required

/-- Whether a required element comes after an optional one. -/
def requiredAfterOptional (elements : List TupleElement) : Bool :=
  (elements.dropWhile fun e => !(e matches .optional)).any fun e => e matches .required

def tupleType (rules : Rules) : Parser Unit := do
  expectMark "["
  let elements ← commaList (atMark "]") (tupleElement rules)
  expectMark "]"
  require (!requiredAfterOptional elements)

end Compounds

section References

/-- A dotted name.  The words after the first may be reserved only where `reserved`
says so. -/
def entityName (reserved : Bool) : Parser Unit := do
  let first ← anyWord
  complainIf (first == "void")
  let _ ← repeatWhile (eatMark ".") do
    if reserved then anyWord else identifier
  return ()

def trailingTypeArguments (rules : Rules) : Parser Unit := do
  if !(← afterBreak) && (← atOpenAngle) then
    typeArguments rules

def typeReference (rules : Rules) : Parser Unit := do
  let hasModifier ← parameterModifier
  entityName true
  trailingTypeArguments rules
  complainIf hasModifier

def importType (rules : Rules) : Parser Unit := do
  expectWord "import"
  expectMark "("
  unless ← atString do complain
  advance
  if ← eatMark "," then
    if ← eatMark leftBrace then
      expectWord "with"
      expectMark ":"
      rules.object
      let _ ← eatMark ","
      expectMark rightBrace
  expectMark ")"
  if ← eatMark "." then
    entityName false
  if ← atOpenAngle then
    typeArguments rules

def typeQuery (rules : Rules) : Parser Unit := do
  expectWord "typeof"
  if ← atWord "import" then
    importType rules
  else
    entityName true
  trailingTypeArguments rules

/-- The pieces of a template from a text that stands `offset` characters after the start
of the next token; its code points if there are no substitutions.  Where `strict` holds,
every escape must be well formed. -/
def templateFrom (inside : Parser Unit) (strict : Bool) :
    Nat → Text → Nat → Parser (Option (List Nat))
  | 0, _, _ => failure
  | fuel + 1, text, offset => do
      match readTemplate (← read).size text with
      | none => failure
      | some piece =>
          require (!strict || piece.value.codes.isSome)
          if piece.value.opensSubstitution then
            takeAs (.mark substitutionMark) (offset + piece.length)
            inside
            require (← atMark rightBrace)
            let _ ← templateFrom inside strict fuel ((← cursor).here.drop 1) 1
            return none
          else
            takeAs (.mark "`") (offset + piece.length)
            return piece.value.codes

/-- A template from its opening back quote on, with what `inside` reads in its
substitutions. -/
def template (inside : Parser Unit) (strict : Bool) : Parser (Option (List Nat)) := do
  require (← atMark "`")
  let size := (← read).size
  templateFrom inside strict (size + 1) ((← cursor).here.drop 1) 1

def keywordTypes : List String :=
  ["void", "null", "any", "boolean", "bigint", "never", "number", "object", "string", "symbol",
    "unknown", "undefined"]

def typeStartingKeywords : List String :=
  ["void", "yield", "null", "await", "break"]

/-- A type that starts with a word of no other meaning. -/
def wordType (rules : Rules) (name : String) : Parser Unit := do
  if name == "asserts" && (← wordAfter "this") then
    advance
    thisType rules true
  else if keywordTypes.contains name && !(← markAfter ".") then
    advance
  else
    typeReference rules

def primaryType (rules : Rules) : Parser TypeForm := do
  let start ← here
  match ← kind with
  | .word "import" => do
      importType rules
      plainType start
  | .word "this" => do
      thisType rules false
      plainType start
  | .word "typeof" => do
      typeQuery rules
      plainType start
  | .word name => do
      require (!TokenKind.isKeyword name || typeStartingKeywords.contains name ||
        name == "true" || name == "false")
      if name == "true" || name == "false" then advance else wordType rules name
      plainType start
  | .string _ | .number _ | .bigint _ => do
      advance
      plainType start
  | .mark "`" => do
      let _ ← template (do let _ ← anyType rules) true
      plainType start
  | .mark "-" => do
      advance
      match ← kind with
      | .number _ | .bigint _ => do
          advance
          plainType start
      | _ => failure
  | .mark "\x7b" => do
      if ← atMappedType then
        mappedType rules
        plainType start
      else
        let members ← typeMembers rules
        return ⟨← spanFrom start, some members⟩
  | .mark "[" => do
      tupleType rules
      plainType start
  | .mark "(" => do
      advance
      let _ ← anyType rules
      expectMark ")"
      plainType start
  | _ => failure

end References

section Operators

/-- The suffixes of array and indexed types, after a type that starts at `start`. -/
def suffixedType (rules : Rules) : Parser TypeForm := do
  let start ← here
  let base ← primaryType rules
  let suffixes ← repeatWhile
    (do if ← afterBreak then return false else eatMark "[")
    (do
      unless ← atMark "]" do
        let _ ← anyType rules
      expectMark "]")
  if suffixes.isEmpty then
    return base
  else
    plainType start

/-- The bound of an inferred type.  Where a condition may follow, a bound before a
question mark is no bound. -/
def inferredBound? (rules : Rules) : Parser (Option Unit) := do
  let conditional := (← read).conditionalTypes
  attempt? do
    expectWord "extends"
    let _ ← within (fun s => { s with conditionalTypes := false }) rules.type
    require (!(conditional && (← atMark "?")))
    return some ()

/-- A type with its unary operators. -/
def typeOperand (rules : Rules) : Parser TypeForm := do
  let start ← here
  if ← atOneWordOf ["keyof", "unique", "readonly"] then
    advance
    let _ ← rules.typeOperand
    plainType start
  else if ← eatWord "infer" then
    let _ ← anyWord
    let _ ← inferredBound? rules
    plainType start
  else
    suffixedType rules

/-- Operands with `mark` between them and perhaps in front of the first. -/
def joinedTypes (mark : String) (operand : Parser TypeForm) : Parser TypeForm := do
  let start ← here
  let _ ← eatMark mark
  let first ← operand
  if ← atMark mark then
    let _ ← repeatWhile (eatMark mark) operand
    plainType start
  else
    return first

def unionType (rules : Rules) : Parser TypeForm :=
  joinedTypes "|" (joinedTypes "&" (typeOperand rules))

end Operators

section Functions

/-- Whether a parenthesis that comes next opens the parameters of a function type. -/
def atFunctionParameters (rules : Rules) : Parser Bool := do
  if ← atMark "(" then
    foresees do
      advance
      if ← atOneOf [")", "..."] then
        return true
      else
        let _ ← parameterModifier
        if ← atAnyWord then advance
        else
          require (← atOneOf [leftBrace, "["])
          let _ ← within (fun s => { s with tolerant := true }) rules.binding
        if ← atOneOf [":", ",", "?", "="] then return true
        else if ← eatMark ")" then atMark "=>"
        else return false
  else
    return false

def functionType (rules : Rules) : Parser Unit := do
  let _ ← typeParameters? rules false true
  expectMark "("
  let _ ← signatureParameters rules
  expectMark "=>"
  let _ ← resultType rules

/-- A type that is no condition. -/
def unconditionalType (rules : Rules) : Parser TypeForm := do
  let start ← here
  if (← atOpenAngle) || (← atFunctionParameters rules) then
    functionType rules
    plainType start
  else if (← atWord "new") || ((← atWord "abstract") && (← wordAfter "new")) then
    let _ ← eatWord "abstract"
    expectWord "new"
    functionType rules
    plainType start
  else
    unionType rules

def type (rules : Rules) : Parser TypeForm := do
  let start ← here
  let first ← unconditionalType rules
  if (← read).conditionalTypes && !(← afterBreak) && (← atWord "extends") then
    advance
    let _ ← within (fun s => { s with conditionalTypes := false }) rules.type
    expectMark "?"
    let _ ← anyType rules
    expectMark ":"
    let _ ← anyType rules
    plainType start
  else
    return first

end Functions

end Grammar
end Syntax
end Typings
