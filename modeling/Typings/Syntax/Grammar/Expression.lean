import Typings.Syntax.Grammar.Class

/-!
# Expressions

Expressions occur in declaration files as initial values, computed keys, decorators
and statements.  They are read for their extent; of their structure only what other
rules ask about is kept.

**Arrows.**  An arrow function can only stand where a whole expression may begin, so
the rule for assignments looks for one first.

**Operators.**  Binary operators are read by precedence climbing, with type
assertions between them.
-/

namespace Typings
namespace Syntax
namespace Grammar

open Syntax.Parser

section Literals

def arrayLiteral (rules : Rules) : Parser Unit := do
  expectMark "["
  let _ ← repeatWhile (not <$> atMark "]") do
    unless ← eatMark "," do
      let _ ← eatMark "..."
      let _ ← innerAssignment rules
      unless ← atMark "]" do
        expectMark ","
  expectMark "]"

/-- A property of an object literal that starts with `get`, `set` or `async`. -/
def prefixedProperty (rules : Rules) (word : String) : Parser Unit := do
  require (["get", "set", "async"].contains word)
  let isGenerator ← if word == "async" then eatMark "*" else pure false
  let _ ← propertyKey rules
  let parts ← functionParts rules (word == "async") isGenerator
  let methodKind : MethodKind :=
    if word == "get" then .getter else if word == "set" then .setter else .plain
  complainIf (methodKind.refuses parts.params)

/-- A property of an object literal that starts with a key. -/
def keyedProperty (rules : Rules) : Parser Unit := do
  let key ← propertyKey rules
  if ← eatMark ":" then
    let _ ← innerAssignment rules
  else if ← atMethod then
    let _ ← functionParts rules false false
  else
    match key with
    | .word name =>
        if ← eatMark "?" then complain
        if ← atOneOf ["=", ",", rightBrace] then
          complainIf (TokenKind.isReserved name)
          if ← eatMark "=" then
            let _ ← innerAssignment rules
            complain
        else
          prefixedProperty rules name
    | _ => failure

def objectLiteral (rules : Rules) : Parser Unit := do
  expectMark leftBrace
  let _ ← commaList (atMark rightBrace) do
    if ← eatMark "..." then
      let _ ← innerAssignment rules
    else if ← eatMark "*" then
      let _ ← propertyKey rules
      let _ ← functionParts rules false true
    else
      keyedProperty rules
  expectMark rightBrace

/-- A regular expression, where its opening slash comes next. -/
def regexLiteral : Parser Unit := do
  match readRegex ((← cursor).here.drop 1) with
  | some taken => takeAs .regex (taken.length + 1)
  | none => failure

def templateLiteral (rules : Rules) : Parser Expr := do
  match ← template (do let _ ← innerExpression rules) true with
  | some codes => return .template (textOfCodes codes)
  | none => return .other

end Literals

section Primaries

/-- An expression without anything after it. -/
def primary (rules : Rules) : Parser Expr := do
  match ← kind with
  | .word "function" => do
      rules.functionExpression
      return .other
  | .word "class" => do
      let _ ← rules.classExpression (← here)
      return .other
  | .word name =>
      if ["this", "null", "true", "false"].contains name then
        advance
        return .other
      else if ← atAsyncFunction then
        rules.functionExpression
        return .other
      else
        return .name (← identifier)
  | .string value => do
      advance
      return .string value
  | .number _ | .bigint _ => do
      advance
      return .other
  | .mark "[" => do
      arrayLiteral rules
      return .aggregate
  | .mark "\x7b" => do
      rules.object
      return .aggregate
  | .mark "`" => templateLiteral rules
  | .mark "(" => do
      advance
      let inner ← within (fun s => { s with inMiddle := false }) (innerExpression rules)
      expectMark ")"
      return .grouped inner
  | .mark "/" | .mark "/=" => do
      regexLiteral
      return .other
  | .mark "@" => do
      let start ← here
      let _ ← decorators rules
      let _ ← rules.classExpression start
      return .other
  | .mark "#" => do
      let _ ← privateName
      require (← atWord "in")
      return .other
  | _ => failure

end Primaries

section Accesses

def accessedName : Parser Unit := do
  let _ ← if ← atMark "#" then privateName else anyWord

def computedAccess (rules : Rules) : Parser Unit := do
  expectMark "["
  let _ ← within (fun s => { s with inMiddle := false }) (innerExpression rules)
  expectMark "]"

def optionalAccess (rules : Rules) (brackets : Bool) : Parser Expr := do
  if (← atMark "(") || (← atOpenAngle) then
    if ← atOpenAngle then
      typeArguments rules
    arguments rules
    return .optionalCall
  else
    if brackets && (← atMark "[") then computedAccess rules else accessedName
    return .access true

/-- Whether an expression may begin with the token that comes next. -/
def atExpression : Parser Bool := do
  match ← kind with
  | .word name => return !(["in", "instanceof", "extends", "as", "satisfies"].contains name)
  | .string _ | .number _ | .bigint _ | .regex => return true
  | .mark text =>
      return ["(", "[", leftBrace, "`", "+", "-", "!", "~", "++", "--", "@", "#", "<"].contains text
  | _ => return false

/-- What follows type arguments after an expression: a template, a call, or nothing
that could go on with the expression. -/
def typeArgumentsAccess? (rules : Rules) (noCall : Bool) : Parser (Option Expr) :=
  attempt? do
    typeArguments rules
    if ← atMark "`" then
      let _ ← template (do let _ ← innerExpression rules) false
      return some .other
    else if !noCall && (← atMark "(") then
      arguments rules
      return some .other
    else
      require ((← afterBreak) || !(← atExpression))
      return some .other

/-- One access or call after an expression, if there is one; `brackets` tells whether it
may be one in brackets. -/
def access? (rules : Rules) (noCall brackets : Bool) (e : Expr) : Parser (Option Expr) := do
  match ← kind with
  | .mark "?." => do
      advance
      return some (← optionalAccess rules brackets)
  | .mark "[" =>
      if brackets then
        computedAccess rules
        return some (.access e.isOptional)
      else
        return none
  | .mark "(" =>
      if noCall then
        return none
      else
        arguments rules
        return some (if e.isOptional then .optionalCall else .other)
  | .mark "." => do
      advance
      accessedName
      return some (.access e.isOptional)
  | .mark "!" =>
      if ← afterBreak then
        return none
      else
        advance
        return some (.asserted e)
  | .mark "`" => do
      require !e.isOptional
      let _ ← template (do let _ ← innerExpression rules) false
      return some .other
  | _ => if ← atOpenAngle then typeArgumentsAccess? rules noCall else return none

/-- The accesses and calls after an expression, at most `fuel` of them. -/
def accessesUpTo (rules : Rules) (noCall brackets : Bool) : Nat → Expr → Parser Expr
  | 0, _ => failure
  | fuel + 1, e => do
      match ← access? rules noCall brackets e with
      | some longer => accessesUpTo rules noCall brackets fuel longer
      | none => return e

def accesses (rules : Rules) (noCall : Bool) (e : Expr) : Parser Expr := do
  accessesUpTo rules noCall true ((← read).size + 1) e

def decoration (rules : Rules) : Parser Unit := do
  let name ← identifier
  let _ ← accessesUpTo rules false false ((← read).size + 1) (.name name)

/-- `super`, which is only the beginning of an expression. -/
def superAccess (rules : Rules) (noCall : Bool) : Parser Expr := do
  expectWord "super"
  match ← access? rules noCall true .other with
  | some e => accesses rules noCall e
  | none => failure

/-- An import as an expression: a call of it or its `meta`. -/
def importAccess (rules : Rules) (noCall : Bool) : Parser Expr := do
  expectWord "import"
  if ← eatMark "." then
    expectWord "meta"
  else
    arguments rules
  accesses rules noCall .other

def callTypeArguments? (rules : Rules) : Parser (Option Unit) :=
  attempt? do
    typeArguments rules
    require (← atMark "(")
    return some ()

/-- A construction from the word `new` on. -/
def construction (rules : Rules) : Parser Expr := do
  expectWord "new"
  if ← eatMark "." then
    expectWord "target"
    complainIf (!((← read).inFunction || (← read).inClass))
    accesses rules true .other
  else
    let callee ← rules.constructed
    require !callee.isOptional
    if ← atOpenAngle then
      let _ ← callTypeArguments? rules
    if ← atMark "(" then
      arguments rules
      accesses rules true .other
    else
      return .construction

def constructed (rules : Rules) : Parser Expr := do
  if ← atWord "new" then
    construction rules
  else if ← atWord "super" then
    superAccess rules true
  else if ← atWord "import" then
    importAccess rules true
  else
    accesses rules true (← primary rules)

/-- An expression with its accesses and calls. -/
def leftHand (rules : Rules) : Parser Expr := do
  if ← atWord "super" then
    superAccess rules false
  else if ← atWord "import" then
    importAccess rules false
  else
    match ← constructed rules with
    | .construction => return .construction
    | callee =>
        if ← atOpenAngle then
          let _ ← callTypeArguments? rules
        if ← atMark "(" then
          accesses rules false callee
        else
          return callee

end Accesses

section Operators

/-- An assertion of a type in front of an expression. -/
def typeAssertion (rules : Rules) : Parser Expr := do
  expectMark "<"
  unless ← eatWord "const" do
    let _ ← anyType rules
  expectCloseAngle
  return .asserted (← rules.unary)

/-- An expression that waits for another, where the word `await` comes next. -/
def awaiting (rules : Rules) : Parser Expr := do
  expectWord "await"
  require !(← atMark "*")
  let setting ← read
  if !setting.inAsync && (← atOneOf [")", "]", ";", ","]) then
    complain
    return .name "await"
  else
    complainIf (setting.inFunction && !setting.inAsync)
    let _ ← rules.unary
    return .unary

/-- An expression with its unary operators. -/
def unary (rules : Rules) : Parser Expr := do
  match ← kind with
  | .mark "<" => typeAssertion rules
  | .mark "++" | .mark "--" => do
      advance
      complainIf !(← rules.unary).isSimpleTarget
      return .unary
  | .mark "+" | .mark "-" | .mark "~" | .mark "!" | .word "void" | .word "typeof" => do
      advance
      let _ ← rules.unary
      return .unary
  | .word "delete" => do
      advance
      match (← rules.unary).ungrouped with
      | .access _ => return .unary
      | _ => do
          complain
          return .unary
  | .word "await" => awaiting rules
  | _ => do
      let e ← leftHand rules
      if !(← afterBreak) && (← atOneOf ["++", "--"]) then
        advance
        complainIf !e.isSimpleTarget
        return .unary
      else
        return e

/-- How strongly a binary operator binds; zero for what is no binary operator. -/
def precedence (inOperator : Bool) : TokenKind → Nat
  | .mark text =>
      if text == "??" || text == "||" then 1
      else if text == "&&" then 2
      else if text == "|" then 3
      else if text == "^" then 4
      else if text == "&" then 5
      else if ["==", "!=", "===", "!=="].contains text then 6
      else if ["<", ">", "<=", ">="].contains text then 7
      else if ["<<", ">>", ">>>"].contains text then 8
      else if text == "+" || text == "-" then 9
      else if ["*", "/", "%"].contains text then 10
      else if text == "**" then 11
      else 0
  | .word name =>
      if name == "instanceof" || (inOperator && name == "in") then 7 else 0
  | _ => 0

/-- The precedence of the operator `in`, which an assertion `as` must beat. -/
def precedenceOfIn : Nat := 7

/-- Goes on with a binary expression after `left`, with operators that bind more
strongly than `least`. -/
def binaryAfter (rules : Rules) : Nat → Nat → Expr → Parser Expr
  | 0, _, _ => failure
  | fuel + 1, least, left => do
      if !(← afterBreak) &&
          ((least < precedenceOfIn && (← atWord "as")) || (← atWord "satisfies")) then
        let mayBeConst ← atWord "as"
        advance
        let isConst ← if mayBeConst then eatWord "const" else pure false
        unless isConst do
          let _ ← anyType rules
        binaryAfter rules fuel least (.asserted left)
      else
        let operator ← kind
        let strength := precedence (← read).inOperator operator
        if strength ≤ least then
          return left
        else
          require !(operator == .mark "**" && left matches .unary)
          advance
          let first ← rules.unary
          let right ← binaryAfter rules fuel
            (if operator == .mark "**" then strength - 1 else strength) first
          complainIf (operator == .mark "??" &&
            (left matches .logical || right matches .logical))
          let isLogical := operator == .mark "&&" || operator == .mark "||"
          binaryAfter rules fuel least (if isLogical then .logical else .compound)

def binary (rules : Rules) : Parser Expr := do
  let first ← rules.unary
  binaryAfter rules ((← read).size + 1) 0 first

def conditional (rules : Rules) : Parser Expr := do
  let test ← binary rules
  if ← eatMark "?" then
    let _ ← within (fun s => { s with inOperator := true, inMiddle := true }) rules.assignment
    expectMark ":"
    let _ ← rules.assignment
    return .compound
  else
    return test

end Operators

section Arrows

/-- The parameters and the arrow of an arrow function; whether its result has a type. -/
def arrowHead (rules : Rules) : Parser Bool :=
  within (fun s => { s with tolerant := true }) do
    let _ ← typeParameters? rules false true
    expectMark "("
    let _ ← parameters rules
    expectMark ")"
    let hasResult ← eatMark ":"
    if hasResult then
      let _ ← resultType rules
    require !(← afterBreak)
    expectMark "=>"
    return hasResult

def arrowBody (rules : Rules) (isAsync : Bool) : Parser Unit := do
  if ← atMark leftBrace then
    complain
    within (insideFunction isAsync false) rules.block
  else
    let _ ← within (fun s => { s with inAsync := isAsync }) rules.assignment

/-- An arrow function with one parameter without parentheses, if there is one. -/
def bareArrow? (rules : Rules) : Parser (Option Expr) := do
  if !(← atAnyWord) then
    return none
  else if (← atIdentifier) && (← tokenAfter).kind == .mark "=>" && !(← tokenAfter).afterBreak then
    let _ ← bindingName
    expectMark "=>"
    arrowBody rules false
    return some .arrow
  else
    let isAsync ← foresees do
      expectWord "async"
      require ((← atIdentifier) && !(← afterBreak))
      advance
      atMark "=>"
    if isAsync then
      expectWord "async"
      let _ ← bindingName
      expectMark "=>"
      arrowBody rules true
      return some .arrow
    else
      return none

/-- Whether an arrow function with parentheses may begin here, after `async` or not. -/
def atArrowStart : Parser Bool := do
  if (← atMark "(") || (← atOpenAngle) then
    return true
  else if ← atWord "async" then
    let after ← tokenAfter
    return !after.afterBreak && [.mark "(", .mark "<"].contains after.kind
  else
    return false

/-- An arrow function with parentheses, if there is one.  In the middle of a
conditional expression a result type must leave the colon of the conditional. -/
def arrow? (rules : Rules) : Parser (Option Expr) := do
  if !(← atArrowStart) then
    bareArrow? rules
  else
    let head : Parser (Bool × Bool) := do
      let isAsync ← eatWord "async"
      return (isAsync, ← arrowHead rules)
    match ← lookAhead? head with
    | none => return none
    | some (isAsync, hasResult) =>
        let whole : Parser (Option Expr) := do
          let _ ← head
          arrowBody rules isAsync
          return some .arrow
        if hasResult && (← read).inMiddle then
          attempt? do
            let e ← whole
            require (← atMark ":")
            return e
        else
          whole

end Arrows

section Assignments

def updatingOperators : List String :=
  ["+=", "-=", "*=", "/=", "%=", "**=", "<<=", ">>=", ">>>=", "&=", "|=", "^=", "&&=", "||=",
    "??="]

/-- An expression that hands a value out of a generator. -/
def yielding (rules : Rules) : Parser Expr := do
  expectWord "yield"
  if (← atStatementEnd) || (← atOneOf [")", "]", ":", ","]) then
    return .unary
  else
    let _ ← eatMark "*"
    let _ ← rules.assignment
    return .unary

def assignment (rules : Rules) : Parser Expr := do
  if (← read).inGenerator && (← atWord "yield") then
    yielding rules
  else
    match ← arrow? rules with
    | some e => return e
    | none =>
        let left ← conditional rules
        if ← atMark "=" then
          require left.isTarget
          advance
          let _ ← rules.assignment
          return .other
        else if ← atOneOf updatingOperators then
          complainIf !left.isSimpleTarget
          advance
          let _ ← rules.assignment
          return .other
        else
          return left

end Assignments

end Grammar
end Syntax
end Typings
