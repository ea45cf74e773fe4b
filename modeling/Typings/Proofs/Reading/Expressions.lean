import Typings.Proofs.Reading.Yields
import Typings.Syntax.Grammar.Expression
import Mathlib.Tactic.Order

/-!
# Expressions move

Every expression takes at least one token.  An expression begins with a token that it takes
itself, or with a smaller expression.
-/

namespace Typings
namespace Syntax

open Syntax.Parser

/-- The rules for expressions that close the circles of the grammar move. -/
structure Rules.Moving (rules : Rules) : Prop where
  assignment : ∀ s c, rules.assignment.Moves s c
  unary : ∀ s c, rules.unary.Moves s c
  object : ∀ s c, rules.object.Moves s c
  classExpression : ∀ start s c, (rules.classExpression start).Moves s c
  functionExpression : ∀ s c, rules.functionExpression.Moves s c

namespace Grammar

variable {rules : Rules} {s : Setting} {c : Cursor}

section Primaries

theorem identifier_moves : identifier.Moves s c := by
  refine .peek rfl ?_
  split
  · exact .later fun _ _ => .later fun _ _ => .first advance_moves
  · exact .failure

theorem bindingName_moves : bindingName.Moves s c :=
  .first identifier_moves

theorem functionFrom_moves {start : Nat} {isAsync nameRequired : Bool} :
    (functionFrom rules start isAsync nameRequired).Moves s c :=
  .first expectWord_moves

theorem functionExpression_moves : (functionExpression rules).Moves s c :=
  .later fun _ _ => .first functionFrom_moves

theorem classFrom_moves {start : Nat} {nameRequired isAbstract : Bool} :
    (classFrom rules start nameRequired isAbstract).Moves s c :=
  .first expectWord_moves

theorem objectLiteral_moves : (objectLiteral rules).Moves s c :=
  .first expectMark_moves

theorem templateFrom_moves {inside : Parser Unit} {strict : Bool} {fuel offset : Nat}
    {text : Text} : (templateFrom inside strict fuel text offset).Moves s c := by
  cases fuel with
  | zero => exact .failure
  | succ fuel =>
      refine .later fun _ _ => ?_
      split
      · exact .failure
      · exact .later fun _ _ => .ite (.first takeAs_moves) (.first takeAs_moves)

theorem template_moves {inside : Parser Unit} {strict : Bool} :
    (template inside strict).Moves s c :=
  .later fun _ _ => .later fun _ _ => .later fun _ _ => .later fun _ _ => templateFrom_moves

theorem regexLiteral_moves : regexLiteral.Moves s c := by
  refine .peek rfl ?_
  split
  · exact takeAs_moves
  · exact .failure

theorem primary_moves (hrules : rules.Moving) : (primary rules).Moves s c := by
  refine .peek rfl ?_
  split
  · exact .first (hrules.functionExpression s c)
  · exact .later fun _ _ => .first (hrules.classExpression _ s _)
  · refine .ite (.first advance_moves) (.later fun _ _ => .ite ?_ (.first identifier_moves))
    exact .first (hrules.functionExpression s _)
  · exact .first advance_moves
  · exact .first advance_moves
  · exact .first advance_moves
  · exact .first (.first expectMark_moves)
  · exact .first (hrules.object s c)
  · exact .first template_moves
  · exact .first advance_moves
  · exact .first regexLiteral_moves
  · exact .first regexLiteral_moves
  · exact .later fun _ _ => .later fun _ _ => .first (hrules.classExpression _ s _)
  · exact .first (.first expectMark_moves)
  · exact .failure

end Primaries

section Accesses

theorem superAccess_moves {noCall : Bool} : (superAccess rules noCall).Moves s c :=
  .first expectWord_moves

theorem importAccess_moves {noCall : Bool} : (importAccess rules noCall).Moves s c :=
  .first expectWord_moves

theorem constructed_moves (hrules : rules.Moving) : (constructed rules).Moves s c :=
  .later fun _ _ => .ite (.first expectWord_moves) <| .later fun _ _ => .ite superAccess_moves <|
    .later fun _ _ => .ite importAccess_moves (.first (primary_moves hrules))

theorem leftHand_moves (hrules : rules.Moving) : (leftHand rules).Moves s c :=
  .later fun _ _ => .ite superAccess_moves <| .later fun _ _ => .ite importAccess_moves
    (.first (constructed_moves hrules))

end Accesses

section Operators

theorem unary_moves (hrules : rules.Moving) : (unary rules).Moves s c := by
  refine .peek rfl ?_
  split
  all_goals try exact .first advance_moves
  · exact .first expectMark_moves
  · exact .first expectWord_moves
  · exact .first (leftHand_moves hrules)

end Operators

section Arrows

/-- An arrow function that was found was read past. -/
def MayMove (c : Cursor) (found : Option Expr) (d : Cursor) : Prop :=
  ∀ e, found = some e → c < d

theorem yields_bareArrow? : (bareArrow? rules).Yields s c (MayMove c) := by
  refine .skip fun _ _ _ => .ite (fun _ => .pure nofun) fun _ => ?_
  refine .skip fun _ _ _ => .skip fun _ _ _ => .skip fun _ c₁ h₁ => .ite (fun _ => ?_) fun _ => ?_
  · refine (Moves.first bindingName_moves).mono fun _ d _ hlt _ _ => ?_
    order
  refine .skip fun _ c₂ h₂ => .ite (fun _ => ?_) fun _ => .pure nofun
  refine (Moves.first expectWord_moves).mono fun _ d _ hlt _ _ => ?_
  order

theorem arrowHead_moves : (arrowHead rules).Moves s c :=
  .within (.later fun _ _ => .first expectMark_moves)

theorem yields_arrow? : (arrow? rules).Yields s c (MayMove c) := by
  refine .skip fun _ c₁ h₁ => .ite (fun _ => ?_) fun _ => ?_
  · exact yields_bareArrow?.mono fun found d _ hfound e he => lt_of_le_of_lt h₁ (hfound e he)
  extract_lets head
  refine .skip fun seen c₂ h₂ => ?_
  split
  · exact .pure nofun
  · rename_i isAsync hasResult
    extract_lets whole
    have hwhole : ∀ s d, whole.Moves s d :=
      fun s d => .first (.later fun _ _ => .first arrowHead_moves)
    refine .skip fun _ c₃ h₃ => .ite (fun _ => ?_) fun _ => ?_
    · refine .attempt? fun s => (Moves.first (hwhole s c₃)).mono fun found d _ hlt e _ => ?_
      order
    · refine (hwhole s c₃).mono fun _ d _ hlt _ _ => ?_
      order

end Arrows

section Assignments

/-- An expression without commas moves. -/
theorem assignment_moves (hrules : rules.Moving) : (assignment rules).Moves s c := by
  refine .later fun _ _ => .later fun _ c₁ => .ite (.first expectWord_moves) ?_
  refine Yields.bind (yields_arrow?.mono fun found d hd hfound _ => ?_)
  cases found with
  | some e => exact .pure (hfound e rfl)
  | none =>
      refine (Moves.first (.first (.first (hrules.unary s d)))).mono fun _ e _ hlt => ?_
      exact lt_of_le_of_lt hd hlt

theorem innerExpression_moves (hrules : rules.Moving) : (innerExpression rules).Moves s c :=
  .within (.first (hrules.assignment _ c))

end Assignments

end Grammar
end Syntax
end Typings
