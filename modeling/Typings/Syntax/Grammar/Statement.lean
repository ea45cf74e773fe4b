import Typings.Syntax.Grammar.Declaration

/-!
# Statements

Every statement becomes one entry of an outline.  Statements that are no
declarations are read like all others, for where they end.

**Names as words.**  A statement may begin with a word that is a plain name.  If
that word announces a declaration and what follows fits, the statement is that
declaration; otherwise it is an expression.
-/

namespace Typings
namespace Syntax
namespace Grammar

open Syntax.Parser

section Control

def condition (rules : Rules) : Parser Unit := do
  expectMark "("
  let _ ← innerExpression rules
  expectMark ")"

/-- A statement where no declaration may stand. -/
def nested (rules : Rules) : Parser Unit := do
  let _ ← rules.statement false

def loopBody (rules : Rules) : Parser Unit :=
  within (fun s => { s with breakAllowed := true, continueAllowed := true }) (nested rules)

/-- A jump out of a loop or on to its next round. -/
def jump : Parser Unit := do
  let isBreak ← atWord "break"
  advance
  let setting ← read
  if ← eatStatementEnd then
    complainIf !(if isBreak then setting.breakAllowed else setting.continueAllowed)
  else
    let label ← identifier
    expectStatementEnd
    complainIf !(setting.labels.contains label)
    complainIf !(isBreak || setting.continueAllowed)

/-- A conditional statement. -/
def branch (rules : Rules) : Parser Unit := do
  expectWord "if"
  condition rules
  nested rules
  if ← eatWord "else" then
    nested rules

/-- The end of a function call. -/
def returning (rules : Rules) : Parser Unit := do
  expectWord "return"
  complainIf !(← read).inFunction
  unless ← atStatementEnd do
    let _ ← innerExpression rules
  expectStatementEnd

/-- A case of a choice; whether it is the default. -/
def choiceCase (rules : Rules) : Parser Bool := do
  let isDefault ← eatWord "default"
  unless isDefault do
    expectWord "case"
    let _ ← innerExpression rules
  expectMark ":"
  let _ ← repeatWhile
    (do return !(← atOneWordOf ["case", "default"]) && !(← atMark rightBrace) && !(← atFinish))
    (rules.statement true)
  return isDefault

/-- A choice between cases, at most one of which is the default. -/
def choice (rules : Rules) : Parser Unit := do
  expectWord "switch"
  condition rules
  expectMark leftBrace
  let cases ← within (fun s => { s with breakAllowed := true, moduleLevel := false })
    (repeatWhile (atOneWordOf ["case", "default"]) (choiceCase rules))
  expectMark rightBrace
  complainIf (1 < cases.count true)

/-- The throw of an exception. -/
def throwing (rules : Rules) : Parser Unit := do
  expectWord "throw"
  require !(← afterBreak)
  let _ ← innerExpression rules
  expectStatementEnd

/-- The binding of a caught exception, which may only be of a type that admits all. -/
def caught (rules : Rules) : Parser Unit := do
  if ← eatMark "(" then
    let _ ← rules.binding
    if ← eatMark ":" then
      let first ← token
      let form ← anyType rules
      let admitsAll := first.kind == .word "any" || first.kind == .word "unknown"
      complainIf !(admitsAll && form.span == first.span)
    expectMark ")"

/-- A guarded block with its handlers. -/
def guarded (rules : Rules) : Parser Unit := do
  expectWord "try"
  rules.block
  let hasCatch ← eatWord "catch"
  if hasCatch then
    caught rules
    rules.block
  let hasFinally ← eatWord "finally"
  if hasFinally then
    rules.block
  complainIf !(hasCatch || hasFinally)

def whileLoop (rules : Rules) : Parser Unit := do
  expectWord "while"
  condition rules
  loopBody rules

/-- A loop with its condition behind; a semicolon after it may be left out. -/
def doLoop (rules : Rules) : Parser Unit := do
  expectWord "do"
  loopBody rules
  expectWord "while"
  condition rules
  let _ ← eatMark ";"

/-- The rest of the head of a loop over the values or keys of an expression. -/
def eachHead (rules : Rules) : Parser Unit := do
  let isOf ← atWord "of"
  advance
  let _ ← if isOf then innerAssignment rules else innerExpression rules

/-- The rest of the head of a counting loop, after its first semicolon. -/
def countingHead (rules : Rules) : Parser Unit := do
  unless ← atMark ";" do
    let _ ← innerExpression rules
  expectMark ";"
  unless ← atMark ")" do
    let _ ← innerExpression rules

def forHead (rules : Rules) : Parser Unit := do
  if ← eatMark ";" then
    countingHead rules
  else if (← atOneWordOf ["const", "var"]) || (← atLetDeclaration) then
    let found ← variableList rules true
    if ← atOneWordOf ["of", "in"] then
      complainIf (found.length != 1)
      complainIf (found.any fun d => d.hasValue || d.ascription.isSome)
      eachHead rules
    else
      expectMark ";"
      countingHead rules
  else
    let e ← within (fun s => { s with inOperator := false }) (expression rules)
    if ← atOneWordOf ["of", "in"] then
      require e.isTarget
      eachHead rules
    else
      expectMark ";"
      countingHead rules

def forLoop (rules : Rules) : Parser Unit := do
  expectWord "for"
  let _ ← eatWord "await"
  expectMark "("
  forHead rules
  expectMark ")"
  loopBody rules

/-- A statement that begins with a keyword of control, if there is one. -/
def control? (rules : Rules) : Parser Bool := do
  match ← kind with
  | .word word =>
      let run : Option (Parser Unit) :=
        match word with
        | "break" | "continue" => some jump
        | "debugger" => some (advance *> expectStatementEnd)
        | "do" => some (doLoop rules)
        | "for" => some (forLoop rules)
        | "if" => some (branch rules)
        | "return" => some (returning rules)
        | "switch" => some (choice rules)
        | "throw" => some (throwing rules)
        | "try" => some (guarded rules)
        | "while" => some (whileLoop rules)
        | "with" => some (do
            advance
            complain
            condition rules
            nested rules)
        | _ => none
      match run with
      | some statement => do
          statement
          return true
      | none => return false
  | .mark "\x7b" => do
      rules.block
      return true
  | .mark ";" => do
      advance
      return true
  | _ => return false

end Control

section Expressions

/-- A statement with a label. -/
def labelled (rules : Rules) (label : String) : Parser Unit := do
  complainIf ((← read).labels.contains label)
  within (fun s => { s with labels := label :: s.labels, breakAllowed := true }) do
    if ← atWord "function" then
      let _ ← functionDeclaration rules
      complain
    else
      nested rules

/-- What follows a plain name at the start of a statement: a label, a declaration that
the name announces, or the end of an expression. -/
def afterName (rules : Rules) (start : Nat) (word : String) : Parser Outline := do
  if ← eatMark ":" then
    labelled rules word
    return .statement (← spanFrom start)
  if word == "interface" && (← afterBreak) then
    complain
  let found ←
    if word == "declare" then declared? rules start
    else if word == "global" then
      if ← atMark leftBrace then do
        let bodyFrom ← here
        let statements ← nameSpaceBody rules
        let span ← spanFrom start
        pure (some ⟨.nameSpace, some word.toList, false, span, some bodyFrom, statements⟩)
      else pure none
    else announced? rules start word false
  match found with
  | some entry => return entry
  | none =>
      complainIf (word == "enum" || word == "interface")
      expectStatementEnd
      return .statement (← spanFrom start)

def expressionStatement (rules : Rules) (start : Nat) : Parser Outline := do
  let nameStart ← here
  match ← innerExpression rules with
  | .name word => afterName rules nameStart word
  | _ => do
      expectStatementEnd
      return .statement (← spanFrom start)

end Expressions

section Statements

/-- A statement that begins with a word of declarations, if there is one; `start` is
where the statement begins, and `declarations` says whether one may stand here. -/
def declaration? (rules : Rules) (start : Nat) (declarations : Bool) :
    Parser (Option Outline) := do
  let position ← here
  let after ← tokenAfter
  let announces := after.kind matches .word _ && !after.afterBreak
  match ← kind with
  | .word "const" =>
      if after.kind == .word "enum" then
        advance
        advance
        return some (← enumerationFrom rules start)
      else if declarations then
        return some (← variableDeclaration rules position)
      else
        return none
  | .word "var" => return some (← variableDeclaration rules position)
  | .word "let" =>
      if declarations && (← atLetDeclaration) then
        return some (← variableDeclaration rules position)
      else
        return none
  | .word "function" => do
      complainIf !declarations
      return some (← functionDeclaration rules)
  | .word "class" => do
      complainIf !declarations
      return some (← classFrom rules start true false)
  | .word "await" =>
      if after.kind == .word "using" &&
          (← foresees (advance *> atUsingDeclaration)) then
        advance
        return some (← usingDeclaration rules start)
      else
        return none
  | .word "using" =>
      if declarations && (← atUsingDeclaration) then
        return some (← usingDeclaration rules start)
      else
        return none
  | .word "interface" =>
      if announces then
        advance
        return some (← interfaceFrom rules position)
      else
        return none
  | .word "type" =>
      if announces then
        advance
        return some (← typeAliasFrom rules position)
      else
        return none
  | .word "enum" =>
      if announces then
        advance
        return some (← enumerationFrom rules position)
      else
        return none
  | .word "async" =>
      if ← atAsyncFunction then
        return some (← functionDeclaration rules)
      else
        return none
  | _ => return none

def plainStatement (rules : Rules) (start : Nat) (declarations : Bool) : Parser Outline := do
  match ← declaration? rules start declarations with
  | some entry => return entry
  | none =>
      if ← control? rules then
        return .statement (← spanFrom start)
      else
        expressionStatement rules start

end Statements

end Grammar
end Syntax
end Typings
