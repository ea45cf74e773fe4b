import Typings.Proofs.Reading.Classes
import Typings.Proofs.Reading.Expressions
import Typings.Syntax.Grammar.Declaration

/-!
# Extents of declarations

A declaration is read from the place where its span is to start, or from a later one.
-/

namespace Typings
namespace Syntax

open Syntax.Parser

/-- What the rules that close the circles of the grammar give. -/
structure Rules.Fit (rules : Rules) : Prop extends rules.Moving where
  type : ∀ s c, rules.type.Yields s c (Grammar.MembersCovered c)
  /-- A statement that moves has its extent. -/
  statement : ∀ declarations s c,
    (rules.statement declarations).Yields s c fun entry d => c < d → Within c entry d

namespace Grammar

variable {rules : Rules} {s : Setting} {a c : Cursor}

section Variables

theorem yields_variableList {looping : Bool} :
    (variableList rules looping).Yields s c fun _ d => c < d :=
  .bind (anyWord_moves.mono fun _ _ _ hlt _ => .moves fun _ _ hd => lt_of_lt_of_le hlt hd)

theorem yields_variableDeclaration (hle : a ≤ c) :
    (variableDeclaration rules a.position).Yields s c (Covers a) := by
  refine .bind (yields_variableList.mono fun found c₁ _ hlt _ => .skip fun _ c₂ h₂ => ?_)
  exact .spanFrom (.pure (.leaf (by simp) (by order)))

theorem yields_usingDeclaration (hle : a ≤ c) :
    (usingDeclaration rules a.position).Yields s c (Covers a) := by
  refine .bind (advance_moves.mono fun word c₁ _ hlt _ => .skip fun _ c₂ h₂ => ?_)
  refine .skip fun _ c₃ h₃ => .skip fun _ c₄ h₄ => .skip fun _ c₅ h₅ => .spanFrom (.pure ?_)
  exact .leaf (by simp) (by order)

end Variables

section Types

theorem yields_interfaceFrom (hle : a ≤ c) :
    (interfaceFrom rules a.position).Yields s c (Covers a) := by
  refine .skip fun name c₁ h₁ => .skip fun _ c₂ h₂ => .skip fun _ c₃ h₃ => .skip fun _ c₄ h₄ => ?_
  extract_lets finish rest
  have hfinish : ∀ o, a ≤ o → (finish ()).Yields s o (Covers a) := by
    intro o ho
    refine .here (.bind (yields_typeMembers.mono fun members d _ hmembers _ => ?_))
    obtain ⟨o', e, hmark, hlt, hall, he⟩ := hmembers
    exact .spanFrom (.pure (.braced ho le_rfl hmark hlt hall he.lt.le fun _ => ⟨rfl, he⟩))
  have hrest : ∀ d, a ≤ d → (rest ()).Yields s d (Covers a) := by
    refine fun d hd => .skip fun _ c₅ h₅ => .ite (fun _ => ?_) fun _ => hfinish _ (by order)
    exact .skip fun _ c₆ h₆ => .skip fun _ c₇ h₇ => hfinish _ (by order)
  exact .ite (fun _ => .skip fun _ c₅ h₅ => hrest _ (by order)) fun _ => hrest _ (by order)

theorem yields_typeAliasFrom (hrules : rules.Fit) (hle : a ≤ c) :
    (typeAliasFrom rules a.position).Yields s c (Covers a) := by
  refine .bind (anyWord_moves.mono fun name c₁ _ h₁ _ => .skip fun _ c₂ h₂ => ?_)
  refine .skip fun _ c₃ h₃ => .bind (.within ((hrules.type _ c₃).mono fun form c₄ h₄ hform _ => ?_))
  refine .skip fun _ c₅ h₅ => .spanFrom (.pure ?_)
  cases hmembers : form.members with
  | none => exact .leaf (by simp) (by order)
  | some members =>
      obtain ⟨o, o', ho, hstart, hmark, hlt, hall⟩ := hform members hmembers
      have hcovers : Covers a ⟨.typeAlias, some name.toList, false, ⟨a.position, c₅.lastStop⟩,
          some o.position, members⟩ c₅ :=
        .braced (by order) le_rfl hmark hlt hall h₅ (by simp)
      simpa [hstart] using hcovers

end Types

section Enumerations

theorem yields_enumerationKey : (enumerationKey rules).Yields s c fun _ d => c < d := by
  refine .peek rfl ?_
  split
  · exact .bind (advance_moves.mono fun _ d _ hlt _ => .pure hlt)
  · refine .skip fun _ c₁ h₁ => .bind (advance_moves.mono fun _ d _ hlt _ => .pure ?_)
    order
  · refine .bind (advance_moves.mono fun _ c₁ _ hlt _ => .moves fun _ d hd => ?_)
    order
  · exact .bind (anyWord_moves.mono fun _ d _ hlt _ => .pure hlt)

/-- A member ends before the comma after it. -/
theorem yields_enumerationMember :
    (enumerationMember rules).Yields s c fun entry d => Within c entry d := by
  refine .here (.bind (yields_enumerationKey.mono fun name c₁ _ hlt _ => .skip fun _ c₂ h₂ => ?_))
  extract_lets rest
  have hrest : ∀ d, c₁ ≤ d → (rest ()).Yields s d fun entry d => Within c entry d := by
    intro c₃ h₃
    refine .skip fun _ c₄ h₄ => ?_
    extract_lets isMissing finish
    have hfinish : ∀ d, c₁ ≤ d → (finish ()).Yields s d fun entry d => Within c entry d := by
      intro c₅ h₅
      refine .spanFrom (.skip fun _ c₆ h₆ => .skip fun _ c₇ h₇ => ?_)
      have hleaf : ∀ d, c₅ ≤ d → Within c (.member ⟨c.position, c₅.lastStop⟩ (some name)) d :=
        fun d hd => .leaf (by simp) le_rfl (by order) hd
      exact .ite (fun _ => .pure (hleaf _ (by order)))
        fun _ => .skip fun _ c₈ h₈ => .pure (hleaf _ (by order))
    refine .ite (fun _ => ?_) fun _ => hfinish _ (by order)
    exact .skip fun _ c₅ h₅ => .skip fun _ c₆ h₆ => hfinish _ (by order)
  exact .ite (fun _ => .skip fun _ c₃ h₃ => hrest _ (by order)) fun _ => hrest _ h₂

theorem yields_enumerationFrom (hle : a ≤ c) :
    (enumerationFrom rules a.position).Yields s c (Covers a) := by
  refine .here (.skip fun name o ho => .bind (yields_expectMark.mono fun _ o' _ hopen _ => ?_))
  refine .bind ((yields_repeatWhile peeks_atMark.map fun _ => yields_enumerationMember.mono
    fun _ _ _ hentry _ => hentry).mono fun members d _ hmembers _ => ?_)
  refine .skip fun _ e he => .spanFrom (.pure ?_)
  exact .braced hle ho hopen.1 hopen.2.1 (.of_chain hmembers) he (by simp)

end Enumerations

section NameSpaces

theorem yields_blockStatements (hrules : rules.Fit) :
    (blockStatements rules).Yields s c fun statements d => CoversAll c statements d := by
  have hmore : Peeks (do return !(← atMark rightBrace) && !(← atFinish)) :=
    peeks_atMark.bind fun _ => peeks_atFinish.bind fun _ => peeks_pure
  refine .bind ((yields_repeatWhile hmore fun c => hrules.statement true s c).mono
    fun statements d _ hall _ => ?_)
  refine .skip fun _ e he => .either fun _ f hf => .pure ?_
  exact (CoversAll.of_chain hall).widen le_rfl (by order)

/-- The statements between the braces of a namespace. -/
theorem yields_nameSpaceBody (hrules : rules.Fit) :
    (nameSpaceBody rules).Yields s c fun statements d => ∃ o', c.token.kind = .mark leftBrace ∧
      c < o' ∧ CoversAll o' statements d := by
  refine .bind (yields_expectMark.mono fun _ o' _ hopen _ => .within ?_)
  exact (yields_blockStatements hrules).mono fun _ _ _ hall => ⟨o', hopen.1, hopen.2.1, hall⟩

/-- A namespace from its opening brace on. -/
theorem yields_braces (hrules : rules.Fit) {name : Text} (hle : a ≤ c) :
    (do
      let bodyFrom ← here
      let statements ← nameSpaceBody rules
      let span ← spanFrom a.position
      return ⟨.nameSpace, some name, false, span, some bodyFrom, statements⟩ :
        Parser Outline).Yields s c (Covers a) := by
  refine .here (.bind ((yields_nameSpaceBody hrules).mono fun statements d _ hbody _ => ?_))
  obtain ⟨o', hmark, hlt, hall⟩ := hbody
  exact .spanFrom (.pure (.braced hle le_rfl hmark hlt hall le_rfl (by simp)))

theorem yields_nameSpaceFrom (hrules : rules.Fit) (hle : a ≤ c) :
    (nameSpaceFrom rules a.position).Yields s c (Covers a) := by
  refine .bind (anyWord_moves.mono fun name c₁ _ hlt _ => .skip fun _ c₂ h₂ => ?_)
  refine .ite (fun _ => ?_) fun _ => yields_braces hrules (by order)
  refine .skip fun _ c₃ h₃ => .skip fun _ c₄ h₄ => .spanFrom (.pure ?_)
  exact .leaf (by simp) (by order)

theorem yields_ambientModule (hrules : rules.Fit) (hle : a ≤ c) :
    (ambientModule rules a.position).Yields s c (Covers a) := by
  refine .bind (yields_eatWord.mono fun ate c₁ _ hate _ => ?_)
  extract_lets rest
  have hrest : ∀ name d, c < d → (rest name).Yields s d (Covers a) := by
    refine fun name c₂ h₂ => .skip fun _ c₃ h₃ => .ite (fun _ => yields_braces hrules ?_) fun _ => ?_
    · order
    · exact .skip fun _ c₄ h₄ => .spanFrom (.pure (.leaf (by simp) (by order)))
  refine .ite (fun heaten => ?_) fun _ => ?_
  · rw [if_pos heaten] at hate
    exact .skip fun _ c₂ h₂ => hrest _ c₂ (by order)
  · exact .bind (stringLiteral_moves.mono fun _ c₂ _ hlt _ => hrest _ c₂ (by order))

end NameSpaces

section Announced

/-- A declaration that was looked for was read from the place or from a later one. -/
def MayCover (a : Cursor) (found : Option Outline) (d : Cursor) : Prop :=
  ∀ entry, found = some entry → Covers a entry d

theorem yields_some_covers {p : Parser Outline} (h : p.Yields s c (Covers a)) :
    (do return some (← p)).Yields s c (MayCover a) := by
  refine .bind (h.mono fun entry d _ hentry _ => .pure ?_)
  rintro _ ⟨⟩
  exact hentry

theorem yields_announced? (hrules : rules.Fit) {word : String} {pending : Bool} (hle : a ≤ c) :
    (announced? rules a.position word pending).Yields s c (MayCover a) := by
  refine .skip fun _ c₁ h₁ => ?_
  extract_lets sameLine pass
  split
  · refine .skip fun _ c₂ h₂ => .ite (fun _ => .skip fun _ c₃ h₃ => ?_) fun _ => .pure nofun
    exact yields_some_covers (yields_classFrom (by order))
  · refine .skip fun _ c₂ h₂ => .ite (fun _ => .skip fun _ c₃ h₃ => ?_) fun _ => .pure nofun
    exact yields_some_covers (yields_enumerationFrom (by order))
  · refine .skip fun _ c₂ h₂ => .ite (fun _ => .skip fun _ c₃ h₃ => ?_) fun _ => .pure nofun
    exact yields_some_covers (yields_interfaceFrom (by order))
  · refine .ite (fun _ => .pure nofun) fun _ => .skip fun _ c₂ h₂ => .skip fun _ c₃ h₃ => ?_
    refine .ite (fun _ => yields_some_covers (yields_ambientModule hrules (by order))) fun _ => ?_
    refine .skip fun _ c₄ h₄ => ?_
    refine .ite (fun _ => yields_some_covers (yields_nameSpaceFrom hrules (by order))) fun _ => ?_
    exact .ite (fun _ => .failure) fun _ => .pure nofun
  · refine .skip fun _ c₂ h₂ => .ite (fun _ => .skip fun _ c₃ h₃ => ?_) fun _ => .pure nofun
    exact yields_some_covers (yields_nameSpaceFrom hrules (by order))
  · refine .skip fun _ c₂ h₂ => .ite (fun _ => .skip fun _ c₃ h₃ => ?_) fun _ => .pure nofun
    exact yields_some_covers (yields_typeAliasFrom hrules (by order))
  · exact .pure nofun

theorem yields_declared? (hrules : rules.Fit) (hle : a ≤ c) :
    (declared? rules a.position).Yields s c (MayCover a) := by
  refine .peek rfl ?_
  split
  · refine .bind (yields_functionDeclaration.mono fun entry d _ hentry _ => .spanFrom (.pure ?_))
    rintro _ ⟨⟩
    exact hentry.startedAt entry.exported hle
  · exact yields_some_covers (yields_classFrom hle)
  · refine .skip fun _ c₁ h₁ => .ite (fun _ => ?_) fun _ => ?_
    · refine .skip fun _ c₂ h₂ => .skip fun _ c₃ h₃ => ?_
      exact yields_some_covers (yields_enumerationFrom (by order))
    · exact yields_some_covers (yields_variableDeclaration (by order))
  · exact yields_some_covers (yields_variableDeclaration hle)
  · exact yields_some_covers (yields_variableDeclaration hle)
  · exact yields_some_covers (yields_ambientModule hrules hle)
  · exact yields_announced? hrules hle
  · exact .pure nofun

end Announced

end Grammar
end Syntax
end Typings
