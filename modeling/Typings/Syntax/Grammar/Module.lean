import Typings.Syntax.Grammar.Statement

/-!
# Imports and exports

An import or an export is a statement of the module level.  An export of a
declaration is that declaration, marked as exported and covering the word `export`
too; every other import and export declares nothing, except that an import by
assignment has a name.

**Tolerance.**  A declaration announced by a plain word right after `export` is read
tolerantly.
-/

namespace Typings
namespace Syntax
namespace Grammar

open Syntax.Parser

section Sources

def attributes (rules : Rules) : Parser Unit := do
  if !(← afterBreak) && (← atOneWordOf ["assert", "with"]) then
    advance
    rules.object

/-- The module that is imported from, with the end of the statement. -/
def sourceEnd (rules : Rules) : Parser Unit := do
  let _ ← stringLiteral
  attributes rules
  expectStatementEnd

/-- The module after the word `from`, with the end of the statement. -/
def fromSource (rules : Rules) : Parser Unit := do
  expectWord "from"
  sourceEnd rules

/-- An import by assignment after its name, over the span from `start`. -/
def importEquals (start : Nat) (name : String) (exported : Bool) : Parser Outline := do
  expectMark "="
  if (← atWord "require") && (← markAfter "(") then
    advance
    expectMark "("
    let _ ← stringLiteral
    expectMark ")"
  else
    entityName false
  expectStatementEnd
  let span ← spanFrom start
  return ⟨.statement, some name.toList, exported, span, none, []⟩

end Sources

section Specifiers

/-- How something is called in another module: a word or a string. -/
inductive ModuleName where
  | word (name : String)
  | string

def moduleName : Parser ModuleName := do
  if ← atString then
    let _ ← stringLiteral
    return .string
  else
    return .word (← anyWord)

/-- What a specifier turned out to be after a leading word `type`. -/
inductive Leading where
  /-- The specifier is read to its end. -/
  | complete
  /-- A name follows that may be renamed. -/
  | name (word : String)

/-- A specifier that may begin with the word `type`.  `type` is a modifier, a name, or a
name that is renamed, depending on how many words follow; `typeOnly` forbids the
modifier, and `local` reads a name of this module. -/
def typeSpecifier (typeOnly : Bool) (localName : Parser String) (first : String) :
    Parser Leading := do
  if first == "type" && (← atAnyWord) then
    let second ← anyWord
    if second == "as" then
      if !(← atAnyWord) then
        complainIf typeOnly
        return .complete
      else
        let third ← localName
        if third == "as" && (← atAnyWord) then
          let _ ← localName
          complainIf typeOnly
        return .complete
    else
      complainIf typeOnly
      return .name second
  else
    return .name first

def importSpecifier (typeOnly : Bool) : Parser Unit := do
  match ← moduleName with
  | .string => do
      expectWord "as"
      let _ ← bindingName
  | .word first =>
      match ← typeSpecifier typeOnly bindingName first with
      | .complete => return ()
      | .name word =>
          if ← eatWord "as" then
            let _ ← bindingName
          else
            require !(TokenKind.isReserved word)

/-- A specifier of an export; whether its name needs a module to come from. -/
def exportSpecifier (typeOnly : Bool) : Parser Bool := do
  match ← moduleName with
  | .string => do
      if ← eatWord "as" then
        let _ ← moduleName
      return true
  | .word first =>
      match ← typeSpecifier typeOnly anyWord first with
      | .complete => return false
      | .name word => do
          if ← eatWord "as" then
            let _ ← moduleName
          return ["enum", "package"].contains word ||
            (TokenKind.isKeyword word && !(["await", "let", "yield"].contains word))

end Specifiers

section Imports

/-- What is imported besides a default: a namespace, names in braces, or nothing. -/
def importedNames (typeOnly : Bool) : Parser Unit := do
  if ← eatMark "*" then
    expectWord "as"
    let _ ← bindingName
  else if ← eatMark leftBrace then
    let _ ← commaList (atMark rightBrace) (importSpecifier typeOnly)
    expectMark rightBrace

def importAfterDefault (rules : Rules) (start : Nat) (name : String) (typeOnly : Bool) :
    Parser Outline := do
  if ← atMark "=" then
    importEquals start name false
  else
    unless ← atWord "from" do
      expectMark ","
    importedNames typeOnly
    fromSource rules
    return .statement (← spanFrom start)

/-- An import whose first word `first` may be a modifier or a default name. -/
def importFrom (rules : Rules) (start : Nat) (first : String) : Parser Outline := do
  let isModifier := first == "type" || first == "source" || first == "defer"
  if isModifier && (← atOneOf ["*", leftBrace]) then
    importedNames (first == "type")
    fromSource rules
    return .statement (← spanFrom start)
  else
    let beforeName := (← tokenAfter).kind
    let mayBeName := !(← atWord "from") || beforeName == .word "from" || beforeName == .mark "="
    let namesDefault :=
      if first == "type" then mayBeName else isModifier && beforeName == .word "from"
    if namesDefault && (← atIdentifier) then
      importAfterDefault rules start (← bindingName) (first == "type")
    else
      importAfterDefault rules start first false

def importStatement (rules : Rules) : Parser Outline := do
  let start ← here
  if (← markAfter "(") || (← markAfter ".") then
    expressionStatement rules start
  else
    expectWord "import"
    if ← atString then
      sourceEnd rules
      return .statement (← spanFrom start)
    else if ← atIdentifier then
      importFrom rules start (← bindingName)
    else
      importedNames false
      fromSource rules
      return .statement (← spanFrom start)

end Imports

section Exports

def exportDefault (rules : Rules) (start : Nat) (decorated : Bool) : Parser Outline := do
  if ← atMark "@" then
    require !decorated
  let classStart ← here
  let _ ← decorators rules
  let asExported := fun (entry : Outline) => do
    return entry.exportedAt (← spanFrom start)
  if (← atWord "abstract") && (← wordAfterOnLine "class") then
    advance
    asExported (← classFrom rules classStart false true)
  else if ← eatWord "interface" then
    asExported (← interfaceFrom rules start)
  else if ← atWord "class" then
    asExported (← classFrom rules classStart false false)
  else if (← atWord "function") || (← atAsyncFunction) then
    asExported (← defaultFunction rules)
  else
    let _ ← innerAssignment rules
    expectStatementEnd
    return .statement (← spanFrom start)

/-- An export of names, with or without a module they come from. -/
def exportNames (rules : Rules) (start : Nat) (typeOnly : Bool) : Parser Outline := do
  if ← eatMark "*" then
    if ← eatWord "as" then
      let _ ← moduleName
    fromSource rules
  else
    expectMark leftBrace
    let specifiers ← commaList (atMark rightBrace) (exportSpecifier typeOnly)
    expectMark rightBrace
    if ← atWord "from" then
      fromSource rules
    else
      complainIf (specifiers.contains true)
      let _ ← eatStatementEnd
  return .statement (← spanFrom start)

/-- The declaration after the word `export`, if there is one. -/
def exportedDeclaration? (rules : Rules) (start : Nat) (decorated : Bool) :
    Parser (Option Outline) := do
  if ← atMark "@" then
    require !decorated
  let position ← here
  let _ ← decorators rules
  match ← kind with
  | .word "class" => return some (← classFrom rules position true false)
  | .word "function" => return some (← functionDeclaration rules)
  | .word "async" =>
      if ← atAsyncFunction then
        return some (← functionDeclaration rules)
      else
        return none
  | .word "const" =>
      if ← wordAfter "enum" then
        advance
        advance
        return some (← enumerationFrom rules start)
      else
        return some (← variableDeclaration rules start)
  | .word "var" => return some (← variableDeclaration rules start)
  | .word "let" =>
      if ← atLetDeclaration then
        return some (← variableDeclaration rules start)
      else
        return none
  | _ => return none

/-- An export by assignment, as a namespace, or of an import by assignment, if there
is one. -/
def exportedBinding? (rules : Rules) (start : Nat) : Parser (Option Outline) := do
  if ← eatWord "import" then
    let isTypeOnly := (← atWord "type") && isIdentifier (← tokenAfter).kind
    if isTypeOnly then advance
    return some (← importEquals start (← anyWord) true)
  else if ← eatMark "=" then
    let _ ← innerExpression rules
    expectStatementEnd
    return some (.statement (← spanFrom start))
  else if ← eatWord "as" then
    expectWord "namespace"
    let _ ← identifier
    expectStatementEnd
    return some (.statement (← spanFrom start))
  else
    return none

/-- A declaration that the word after `export` announces, read tolerantly. -/
def exportedAnnounced? (rules : Rules) : Parser (Option Outline) := do
  match ← kind with
  | .word word => do
      let start ← here
      attempt? (announced? rules start word true)
  | _ => return none

def exportStatement (rules : Rules) (decorated : Bool) : Parser Outline := do
  let start ← here
  expectWord "export"
  let asExported := fun (entry : Outline) => do
    return entry.exportedAt (← spanFrom start)
  let declareStart ← here
  if ← eatWord "declare" then
    if let some entry ← declared? rules declareStart then
      return ← asExported entry
  if let some entry ← exportedAnnounced? rules then
    return ← asExported entry
  if let some entry ← exportedBinding? rules start then
    return entry
  let typeOnly ← eatWord "type"
  if !typeOnly then
    if ← eatWord "default" then
      return ← exportDefault rules start decorated
    if let some entry ← exportedDeclaration? rules start decorated then
      return ← asExported entry
  exportNames rules start typeOnly

end Exports

section Statements

/-- A statement.  An import or an export may stand where declarations may, on the level
of a module; elsewhere only an import as an expression may. -/
def statement (rules : Rules) (declarations : Bool) : Parser Outline := do
  let start ← here
  let decorated ← decorators rules
  let isModuleItem := declarations && (← read).moduleLevel
  if ← atWord "import" then
    if isModuleItem then
      importStatement rules
    else
      require ((← markAfter "(") || (← markAfter "."))
      expressionStatement rules start
  else if ← atWord "export" then
    require isModuleItem
    exportStatement rules decorated
  else
    plainStatement rules start declarations

end Statements

end Grammar
end Syntax
end Typings
