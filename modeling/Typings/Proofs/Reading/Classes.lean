import Typings.Proofs.Reading.Types
import Typings.Syntax.Grammar.Class
import Mathlib.Tactic.DefEqTransformations

/-!
# Extents of functions and classes

A function has no children.  The members of a class were read between its braces, but the
class does not say where the braces are.
-/

namespace Typings
namespace Syntax
namespace Grammar

open Syntax.Parser

variable {rules : Rules} {s : Setting} {c : Cursor}

section Functions

theorem yields_functionFrom {a : Cursor} {isAsync nameRequired : Bool} (hle : a ≤ c) :
    (functionFrom rules a.position isAsync nameRequired).Yields s c fun found d =>
      Covers a found.1 d := by
  refine .bind (expectWord_moves.mono fun _ c₁ _ h₁ _ => ?_)
  refine .skip fun _ c₂ h₂ => .skip fun _ c₃ h₃ => .skip fun _ c₄ h₄ => .spanFrom (.pure ?_)
  exact .leaf (by simp) (by order)

theorem yields_functionDeclaration :
    (functionDeclaration rules).Yields s c fun entry d => Covers c entry d :=
  .here (.skip fun _ _ h => .bind ((yields_functionFrom h).mono fun _ _ _ hentry _ =>
    .pure hentry))

theorem yields_defaultFunction :
    (defaultFunction rules).Yields s c fun entry d => Covers c entry d :=
  .here (.skip fun _ _ h => .bind ((yields_functionFrom h).mono fun _ _ _ hentry _ =>
    .pure hentry))

end Functions

section Members

variable {start : Nat} {modifiers : Modifiers}

theorem yields_member {name : Option Text} :
    (do return .member (← spanFrom start) name : Parser _).Yields s c (IsMember start) :=
  .spanFrom (.pure ⟨_, rfl⟩)

theorem yields_method {key : Key} {methodKind : MethodKind} {isAsync isGenerator : Bool} :
    (method rules start key methodKind modifiers isAsync isGenerator).Yields s c
      (IsMember start) :=
  .skip fun _ _ _ => .skip fun _ _ _ => .skip fun _ _ _ => .skip fun _ _ _ =>
    .skip fun _ _ _ => yields_member

theorem yields_property {key : Key} {isOptional isAccessor : Bool} :
    (property rules start key modifiers isOptional isAccessor).Yields s c (IsMember start) := by
  refine .skip fun _ _ _ => .skip fun _ _ _ => .otherwise fun _ _ => ?_
  beta_reduce
  extract_lets finish rest
  have hfinish : ∀ d, (finish ()).Yields s d (IsMember start) :=
    fun d => .skip fun _ _ _ => .skip fun _ _ _ => yields_member
  have hrest : ∀ d, (rest ()).Yields s d (IsMember start) := by
    refine fun d => .skip fun _ _ _ => .skip fun _ _ _ => .ite (fun _ => ?_) fun _ => hfinish _
    exact .skip fun _ _ _ => .skip fun _ _ _ => hfinish _
  exact .ite (fun _ => hrest _) fun _ => .skip fun _ _ _ => hrest _

theorem yields_constructor :
    (constructor rules start modifiers).Yields s c (IsMember start) :=
  .skip fun _ _ _ => .skip fun _ _ _ => .whenever fun _ _ => .skip fun _ _ _ => .skip fun _ _ _ =>
    .skip fun _ _ _ => .skip fun _ _ _ => .whenever fun _ _ => .skip fun _ _ _ => .skip fun _ _ _ =>
      .skip fun _ _ _ => yields_member

theorem yields_staticBlock : (staticBlock rules start).Yields s c (IsMember start) :=
  .skip fun _ _ _ => yields_member

/-- A member that was looked for. -/
def MayBeMember (start : Nat) (found : Option Outline) (d : Cursor) : Prop :=
  ∀ entry, found = some entry → IsMember start entry d

theorem yields_some_member {p : Parser Outline} (h : p.Yields s c (IsMember start)) :
    (do return some (← p)).Yields s c (MayBeMember start) := by
  refine .bind (h.mono fun entry d _ hentry _ => .pure ?_)
  rintro _ ⟨⟩
  exact hentry

theorem yields_modifierAsName? {word : String} {byBreak : Bool} :
    (modifierAsName? rules start word modifiers byBreak).Yields s c (MayBeMember start) := by
  refine .skip fun _ _ _ => .ite (fun _ => yields_some_member yields_method) fun _ => ?_
  refine .skip fun _ _ _ => .skip fun _ _ _ => .ite (fun _ => ?_) fun _ => .pure nofun
  refine .skip fun _ _ _ => .skip fun _ _ _ => ?_
  exact .ite (fun _ => yields_some_member yields_method)
    fun _ => yields_some_member yields_property

theorem yields_keyedMember {isAccessor : Bool} :
    (keyedMember rules start modifiers isAccessor).Yields s c (IsMember start) := by
  refine .skip fun _ _ _ => .either fun key _ _ => .skip fun _ _ _ => .skip fun _ _ _ => ?_
  refine .ite (fun _ => .skip fun _ _ _ => .skip fun _ _ _ => ?_) fun _ => ?_
  · exact .ite (fun _ => yields_constructor) fun _ => yields_method
  refine .skip fun _ _ _ => .skip fun _ _ _ => .skip fun _ _ _ => .skip fun _ _ _ => ?_
  refine .ite (fun _ => yields_property) fun _ => .skip fun _ _ _ => .ite (fun _ => ?_) fun _ => ?_
  · exact .skip fun _ _ _ => .whenever fun _ _ => .skip fun _ _ _ => .skip fun _ _ _ =>
      .skip fun _ _ _ => .skip fun _ _ _ => .skip fun _ _ _ => yields_method
  · exact .ite (fun _ => .skip fun _ _ _ => .skip fun _ _ _ => yields_method) fun _ => .failure

theorem yields_memberAfterStatic {declares hasAccess isStatic : Bool} :
    (memberAfterStatic rules start declares hasAccess isStatic).Yields s c (IsMember start) := by
  refine .skip fun others _ _ => .skip fun _ _ _ => .skip fun _ _ _ => .skip fun _ _ _ => ?_
  extract_lets keyed rest
  have hrest : ∀ d, (rest ()).Yields s d (IsMember start) := by
    intro d
    refine .skip fun _ _ _ => .ite (fun _ => .skip fun _ _ _ => yields_staticBlock) fun _ => ?_
    refine .skip fun _ _ _ => .skip fun _ _ _ => .ite (fun _ => ?_) fun _ => ?_
    · exact .skip fun _ _ _ => .skip fun _ _ _ => yields_staticBlock
    have hkeyed : ∀ d, (keyed ()).Yields s d (IsMember start) := by
      intro d
      refine .skip fun _ _ _ => .ite (fun _ => ?_) fun _ => yields_keyedMember
      exact .skip fun _ _ _ => .skip fun _ _ _ => yields_method
    refine .ite (fun _ => .skip fun _ d _ => .ite (fun _ => ?_) fun _ => hkeyed d)
      fun _ => hkeyed _
    exact .skip fun _ _ _ => yields_member
  refine .ite (fun _ => ?_) fun _ => hrest _
  refine .bind (yields_modifierAsName?.mono fun found d _ hfound _ => ?_)
  cases found with
  | some entry => exact .pure (hfound entry rfl)
  | none => exact hrest d

/-- A member of a class ends where the reading of it ends. -/
theorem yields_classMember :
    (classMember rules).Yields s c (IsMember c.position) := by
  refine .here (.skip fun _ _ _ => .skip fun _ _ _ => .skip fun _ _ _ => .either fun _ c₁ _ => ?_)
  beta_reduce
  extract_lets rest
  have hrest : ∀ d, (rest ()).Yields s d (IsMember c.position) := by
    refine fun d => .skip fun isStatic c₂ _ => .ite (fun _ => ?_) fun _ => yields_memberAfterStatic
    refine .bind (yields_modifierAsName?.mono fun found d _ hfound _ => ?_)
    cases found with
    | some entry => exact .pure (hfound entry rfl)
    | none => exact yields_memberAfterStatic
  refine .ite (fun _ => ?_) fun _ => hrest _
  refine .bind (yields_modifierAsName?.mono fun found d _ hfound _ => ?_)
  cases found with
  | some entry => exact .pure (hfound entry rfl)
  | none => exact hrest d

/-- The members between the braces of a class. -/
theorem yields_classBody :
    (classBody rules).Yields s c fun members d => ∃ o, c < o ∧ CoversAll o members d := by
  refine .bind (yields_expectMark.mono fun _ o _ hopen _ => ?_)
  have hitem : ∀ c, (do
      if ← eatMark ";" then
        return none
      else
        return some (← classMember rules) : Parser (Option Outline)).Yields s c fun found d =>
        c < d → c ≤ d ∧ ∀ entry, found = some entry → Within c entry d := by
    intro c
    refine .bind (yields_eatMark.mono fun ate d hd hate _ => .ite (fun _ => ?_) fun hnot => ?_)
    · exact .pure fun _ => ⟨hd, nofun⟩
    · obtain ⟨rfl, -⟩ : d = c ∧ c.token.kind ≠ .mark ";" := by simpa [hnot] using hate
      refine .bind (yields_classMember.mono fun entry e he hentry _ => .pure fun hlt => ⟨he, ?_⟩)
      rintro _ ⟨⟩
      exact hentry.within hlt
  refine .bind ((yields_repeatWhile peeks_atMark.map hitem).mono fun found d _ hfound _ => ?_)
  exact .skip fun _ e he => .pure ⟨o, hopen.2.1, (CoversAll.of_chain_option hfound).widen le_rfl he⟩

theorem yields_classFrom {a : Cursor} {nameRequired isAbstract : Bool} (hle : a ≤ c) :
    (classFrom rules a.position nameRequired isAbstract).Yields s c fun entry d =>
      Covers a entry d := by
  refine .skip fun _ c₁ h₁ => .skip fun _ c₂ h₂ => .skip fun _ c₃ h₃ => .skip fun _ c₄ h₄ => ?_
  refine .skip fun _ c₅ h₅ => .skip fun _ c₆ h₆ => .skip fun _ c₇ h₇ => ?_
  refine .bind (.within (yields_classBody.mono fun members d _ hmembers _ => ?_))
  obtain ⟨o, hlt, hall⟩ := hmembers
  exact .spanFrom (.pure (.plain (by simp) (by order) hall))

end Members

end Grammar
end Syntax
end Typings
