import Typings.Proofs.Reading.Moved
import Typings.Proofs.Reading.Declarations
import Typings.Syntax.Grammar

/-!
# Extents of statements

A statement that moves has its extent.  Statements hold statements, and the rules that
close this circle are sound at every depth.
-/

namespace Typings
namespace Syntax
namespace Grammar

open Syntax.Parser

variable {rules : Rules} {s : Setting} {a c : Cursor}

section Names

theorem yields_statement (hlt : a < c) :
    (do return .statement (← spanFrom a.position) : Parser Outline).Yields s c (UpTo a) :=
  .spanFrom (.pure (.statement hlt))

theorem yields_afterName (hrules : rules.Fit) {word : String} (hlt : a < c) :
    (afterName rules a.position word).Yields s c (UpTo a) := by
  refine .skip fun _ c₁ h₁ => .ite (fun _ => ?_) fun _ => ?_
  · exact .skip fun _ d hd => yields_statement (by order)
  refine .skip fun _ c₂ h₂ => ?_
  extract_lets rest after
  have hfound : ∀ found d, c ≤ d → MayCover a found d → (rest found).Yields s d (UpTo a) := by
    intro found d hd hcovers
    cases found with
    | some entry => exact .pure ⟨a, le_rfl, hcovers entry rfl⟩
    | none => exact .skip fun _ c₃ h₃ => .skip fun _ c₄ h₄ => yields_statement (by order)
  have hafter : ∀ d, c ≤ d → (after ()).Yields s d (UpTo a) := by
    intro c₃ h₃
    refine .ite (fun _ => ?_) fun _ => .ite (fun _ => ?_) fun _ => ?_
    · exact .bind ((yields_declared? hrules (by order)).mono fun found d _ hcovers _ =>
        hfound found d (by order) hcovers)
    · refine .skip fun _ o ho => .ite (fun _ => ?_) fun _ =>
        .bind (.pure fun _ => hfound none o (by order) nofun)
      refine .here (.bind ((yields_nameSpaceBody hrules).mono fun statements d hd hbody _ => ?_))
      refine .spanFrom (.bind (.pure fun _ => ?_))
      refine hfound (some _) d (by order) ?_
      obtain ⟨o', hmark, hlt, hall⟩ := hbody
      rintro _ ⟨⟩
      exact .braced (by order) le_rfl hmark hlt hall le_rfl (by simp)
    · exact .bind ((yields_announced? hrules (by order)).mono fun found d _ hcovers _ =>
        hfound found d (by order) hcovers)
  exact .ite (fun _ => .skip fun _ c₃ h₃ => hafter c₃ (by order)) fun _ => hafter c₂ (by order)

/-- A statement that begins with an expression. -/
theorem yields_expressionStatement (hrules : rules.Fit) (hle : a ≤ c) :
    (expressionStatement rules a.position).Yields s c (UpTo a) := by
  refine .here (.bind ((innerExpression_moves hrules.toMoving).mono fun e c₁ _ hlt _ => ?_))
  split
  · exact (yields_afterName hrules hlt).mono fun entry d _ hentry => hentry.startedAt hle
  · exact .skip fun _ c₂ h₂ => yields_statement (by order)

end Names

section Statements

/-- A declaration that was looked for. -/
def MayBeUpTo (a : Cursor) (found : Option Outline) (d : Cursor) : Prop :=
  ∀ entry, found = some entry → UpTo a entry d

theorem yields_some_upTo {p : Parser Outline} {a' : Cursor} (hle : a ≤ a')
    (h : p.Yields s c (Covers a')) : (do return some (← p)).Yields s c (MayBeUpTo a) := by
  refine .bind (h.mono fun entry d _ hentry _ => .pure ?_)
  rintro _ ⟨⟩
  exact ⟨a', hle, hentry⟩

theorem yields_declaration? (hrules : rules.Fit) {declarations : Bool} (hle : a ≤ c) :
    (declaration? rules a.position declarations).Yields s c (MayBeUpTo a) := by
  refine .here (.skip fun after c₁ h₁ => ?_)
  extract_lets announces
  refine .peek rfl ?_
  split
  · refine .ite (fun _ => .skip fun _ c₂ h₂ => .skip fun _ c₃ h₃ => ?_) fun _ =>
      .ite (fun _ => ?_) fun _ => .pure nofun
    · exact yields_some_upTo le_rfl (yields_enumerationFrom (by order))
    · exact yields_some_upTo hle (yields_variableDeclaration h₁)
  · exact yields_some_upTo hle (yields_variableDeclaration h₁)
  · refine .skip fun _ c₂ h₂ => .ite (fun _ => ?_) fun _ => .pure nofun
    exact yields_some_upTo hle (yields_variableDeclaration (by order))
  · exact .skip fun _ c₂ h₂ => yields_some_upTo (by order) yields_functionDeclaration
  · exact .skip fun _ c₂ h₂ => yields_some_upTo le_rfl (yields_classFrom (by order))
  · refine .skip fun _ c₂ h₂ => .ite (fun _ => .skip fun _ c₃ h₃ => ?_) fun _ => .pure nofun
    exact yields_some_upTo le_rfl (yields_usingDeclaration (by order))
  · refine .skip fun _ c₂ h₂ => .ite (fun _ => ?_) fun _ => .pure nofun
    exact yields_some_upTo le_rfl (yields_usingDeclaration (by order))
  · refine .ite (fun _ => .skip fun _ c₂ h₂ => ?_) fun _ => .pure nofun
    exact yields_some_upTo hle (yields_interfaceFrom (by order))
  · refine .ite (fun _ => .skip fun _ c₂ h₂ => ?_) fun _ => .pure nofun
    exact yields_some_upTo hle (yields_typeAliasFrom hrules (by order))
  · refine .ite (fun _ => .skip fun _ c₂ h₂ => ?_) fun _ => .pure nofun
    exact yields_some_upTo hle (yields_enumerationFrom (by order))
  · refine .skip fun _ c₂ h₂ => .ite (fun _ => ?_) fun _ => .pure nofun
    exact yields_some_upTo (by order) yields_functionDeclaration
  · exact .pure nofun

theorem yields_plainStatement (hrules : rules.Fit) {declarations : Bool} (hle : a ≤ c) :
    (plainStatement rules a.position declarations).Yields s c
      fun entry d => a < d → UpTo a entry d := by
  refine .bind ((yields_declaration? hrules hle).mono fun found c₁ h₁ hfound _ => ?_)
  cases found with
  | some entry => exact .pure fun _ => hfound entry rfl
  | none =>
      refine .skip fun _ c₂ h₂ => .ite (fun _ => ?_) fun _ => ?_
      · exact .spanFrom (.pure .statement)
      · exact (yields_expressionStatement hrules (by order)).mono fun _ _ _ h _ => h

end Statements

section Imports

/-- An import by assignment. -/
theorem yields_importEquals {name : String} {exported : Bool} (hlt : a < c) :
    (importEquals a.position name exported).Yields s c (UpTo a) := by
  refine .skip fun _ c₁ h₁ => .skip fun _ c₂ h₂ => .skip fun _ c₃ h₃ => ?_
  extract_lets rest
  have hrest : ∀ d, c₃ ≤ d → (rest ()).Yields s d (UpTo a) :=
    fun d hd => .skip fun _ e he => .spanFrom (.pure ⟨a, le_rfl, .leaf (by simp) (by order)⟩)
  refine .ite (fun _ => ?_) fun _ => .skip fun _ c₄ h₄ => hrest _ h₄
  refine .skip fun _ c₄ h₄ => .skip fun _ c₅ h₅ => .skip fun _ c₆ h₆ => .skip fun _ c₇ h₇ => ?_
  exact hrest _ (by order)

theorem yields_importAfterDefault {name : String} {typeOnly : Bool} (hlt : a < c) :
    (importAfterDefault rules a.position name typeOnly).Yields s c (UpTo a) := by
  refine .skip fun _ c₁ h₁ => .ite (fun _ => yields_importEquals (by order)) fun _ => ?_
  refine .skip fun _ c₂ h₂ => ?_
  extract_lets rest
  have hrest : ∀ d, c₂ ≤ d → (rest ()).Yields s d (UpTo a) :=
    fun d hd => .skip fun _ c₃ h₃ => .skip fun _ c₄ h₄ => yields_statement (by order)
  exact .ite (fun _ => hrest _ le_rfl) fun _ => .skip fun _ c₃ h₃ => hrest _ h₃

theorem yields_importFrom {first : String} (hlt : a < c) :
    (importFrom rules a.position first).Yields s c (UpTo a) := by
  refine .skip fun _ c₁ h₁ => .ite (fun _ => ?_) fun _ => .skip fun _ c₂ h₂ => ?_
  · exact .skip fun _ c₂ h₂ => .skip fun _ c₃ h₃ => yields_statement (by order)
  refine .skip fun _ c₃ h₃ => .skip fun _ c₄ h₄ => .ite (fun _ => ?_) fun _ => ?_
  · exact .skip fun _ c₅ h₅ => yields_importAfterDefault (by order)
  · exact yields_importAfterDefault (by order)

theorem yields_importStatement (hrules : rules.Fit) :
    (importStatement rules).Yields s c (UpTo c) := by
  refine .here (.skip fun _ c₁ h₁ => .skip fun _ c₂ h₂ => .ite (fun _ => ?_) fun _ => ?_)
  · exact yields_expressionStatement hrules (by order)
  refine .bind (expectWord_moves.mono fun _ c₃ _ h₃ _ => .skip fun _ c₄ h₄ => ?_)
  refine .ite (fun _ => ?_) fun _ => .skip fun _ c₅ h₅ => .ite (fun _ => ?_) fun _ => ?_
  · exact .skip fun _ c₅ h₅ => yields_statement (by order)
  · exact .skip fun _ c₆ h₆ => yields_importFrom (by order)
  · exact .skip fun _ c₆ h₆ => .skip fun _ c₇ h₇ => yields_statement (by order)

end Imports

section Exports

/-- A declaration under an export. -/
theorem yields_exportedAt {entry : Outline} (hentry : UpTo a entry c) :
    (do return entry.exportedAt (← spanFrom a.position) : Parser Outline).Yields s c (UpTo a) :=
  .spanFrom (.pure ⟨a, le_rfl, hentry.exported le_rfl⟩)

theorem yields_exportDefault {decorated : Bool} (hlt : a < c) :
    (exportDefault rules a.position decorated).Yields s c (UpTo a) := by
  refine .skip fun _ c₁ h₁ => ?_
  extract_lets asExported rest
  have hexported : ∀ {p : Parser Outline} {a' d : Cursor}, a ≤ a' → p.Yields s d (Covers a') →
      (p >>= asExported).Yields s d (UpTo a) :=
    fun ha hp => .bind (hp.mono fun entry d _ hentry _ => yields_exportedAt ⟨_, ha, hentry⟩)
  have hrest : ∀ d, a < d → (rest ()).Yields s d (UpTo a) := by
    intro classStart h₂
    refine .here (.skip fun _ c₃ h₃ => .skip fun _ c₄ h₄ => .skip fun _ c₅ h₅ => ?_)
    refine .ite (fun _ => .skip fun _ c₆ h₆ => ?_) fun _ => .skip fun _ c₆ h₆ => ?_
    · exact hexported h₂.le (yields_classFrom (by order))
    refine .ite (fun _ => hexported le_rfl (yields_interfaceFrom (by order))) fun _ => ?_
    refine .skip fun _ c₇ h₇ => .ite (fun _ => ?_) fun _ => .skip fun _ c₈ h₈ => ?_
    · exact hexported h₂.le (yields_classFrom (by order))
    refine .skip fun _ c₉ h₉ => .ite (fun _ => ?_) fun _ => ?_
    · exact hexported (by order) yields_defaultFunction
    · exact .skip fun _ d hd => .skip fun _ e he => yields_statement (by order)
  exact .ite (fun _ => .skip fun _ c₂ h₂ => hrest _ (by order)) fun _ => hrest _ (by order)

theorem yields_exportNames {typeOnly : Bool} (hlt : a < c) :
    (exportNames rules a.position typeOnly).Yields s c (UpTo a) := by
  refine .skip fun _ c₁ h₁ => ?_
  extract_lets finish source
  have hfinish : ∀ d, c₁ ≤ d → (finish ()).Yields s d (UpTo a) :=
    fun d hd => yields_statement (by order)
  have hsource : ∀ d, c₁ ≤ d → (source ()).Yields s d (UpTo a) :=
    fun d hd => .skip fun _ e he => hfinish e (by order)
  refine .ite (fun _ => .skip fun _ c₂ h₂ => .ite (fun _ => ?_) fun _ => hsource _ h₂) fun _ => ?_
  · exact .skip fun _ c₃ h₃ => hsource _ (by order)
  refine .skip fun _ c₂ h₂ => .skip fun _ c₃ h₃ => .skip fun _ c₄ h₄ => .skip fun _ c₅ h₅ => ?_
  refine .ite (fun _ => .skip fun _ c₆ h₆ => hfinish _ (by order)) fun _ => ?_
  exact .skip fun _ c₆ h₆ => .skip fun _ c₇ h₇ => hfinish _ (by order)

theorem yields_exportedDeclaration? {decorated : Bool} (hle : a ≤ c) :
    (exportedDeclaration? rules a.position decorated).Yields s c (MayBeUpTo a) := by
  refine .skip fun _ c₁ h₁ => ?_
  extract_lets rest
  have hrest : ∀ d, a ≤ d → (rest ()).Yields s d (MayBeUpTo a) := by
    intro c₂ h₂
    refine .here (.skip fun _ c₃ h₃ => .peek rfl ?_)
    split
    · exact yields_some_upTo h₂ (yields_classFrom h₃)
    · exact yields_some_upTo (by order) yields_functionDeclaration
    · refine .skip fun _ c₄ h₄ => .ite (fun _ => ?_) fun _ => .pure nofun
      exact yields_some_upTo (by order) yields_functionDeclaration
    · refine .skip fun _ c₄ h₄ => .ite (fun _ => .skip fun _ c₅ h₅ => .skip fun _ c₆ h₆ => ?_)
        fun _ => ?_
      · exact yields_some_upTo le_rfl (yields_enumerationFrom (by order))
      · exact yields_some_upTo le_rfl (yields_variableDeclaration (by order))
    · exact yields_some_upTo le_rfl (yields_variableDeclaration (by order))
    · refine .skip fun _ c₄ h₄ => .ite (fun _ => ?_) fun _ => .pure nofun
      exact yields_some_upTo le_rfl (yields_variableDeclaration (by order))
    · exact .pure nofun
  exact .ite (fun _ => .skip fun _ c₂ h₂ => hrest _ (by order)) fun _ => hrest _ (by order)

theorem yields_exportedBinding? (hlt : a < c) :
    (exportedBinding? rules a.position).Yields s c (MayBeUpTo a) := by
  have hsome : ∀ {p : Parser Outline} {d : Cursor}, p.Yields s d (UpTo a) →
      (do return some (← p)).Yields s d (MayBeUpTo a) := by
    refine fun hp => .bind (hp.mono fun entry d _ hentry _ => .pure ?_)
    rintro _ ⟨⟩
    exact hentry
  have hstatement : ∀ d, a < d → (do return some (.statement (← spanFrom a.position)) :
      Parser (Option Outline)).Yields s d (MayBeUpTo a) := by
    refine fun d hd => .spanFrom (.pure ?_)
    rintro _ ⟨⟩
    exact .statement hd
  refine .skip fun _ c₁ h₁ => .ite (fun _ => .skip fun _ c₂ h₂ => .skip fun _ c₃ h₃ => ?_)
    fun _ => .skip fun _ c₂ h₂ => .ite (fun _ => ?_) fun _ => ?_
  · extract_lets isTypeOnly rest
    have hrest : ∀ d, a < d → (rest ()).Yields s d (MayBeUpTo a) :=
      fun d hd => .skip fun _ e he => hsome (yields_importEquals (by order))
    exact .ite (fun _ => .skip fun _ c₄ h₄ => hrest _ (by order)) fun _ => hrest _ (by order)
  · exact .skip fun _ c₃ h₃ => .skip fun _ c₄ h₄ => hstatement _ (by order)
  · refine .skip fun _ c₃ h₃ => .ite (fun _ => ?_) fun _ => .pure nofun
    exact .skip fun _ c₄ h₄ => .skip fun _ c₅ h₅ => .skip fun _ c₆ h₆ => hstatement _ (by order)

theorem yields_exportedAnnounced? (hrules : rules.Fit) :
    (exportedAnnounced? rules).Yields s c (MayBeUpTo c) := by
  refine .peek rfl ?_
  split
  · refine .here (.attempt? fun s => ?_)
    exact (yields_announced? hrules le_rfl).mono fun found d _ hfound entry heq =>
      ⟨c, le_rfl, hfound entry heq⟩
  · exact .pure nofun

theorem yields_exportStatement (hrules : rules.Fit) {decorated : Bool} :
    (exportStatement rules decorated).Yields s c (UpTo c) := by
  refine .here (.bind (expectWord_moves.mono fun _ c₁ _ hlt _ => .here (.skip fun _ c₂ h₂ => ?_)))
  extract_lets rest
  have hrest : ∀ d, c < d → (rest ()).Yields s d (UpTo c) := by
    intro c₃ h₃
    refine .bind ((yields_exportedAnnounced? hrules).mono fun found c₄ _ hfound _ => ?_)
    cases found with
    | some entry => exact yields_exportedAt ((hfound entry rfl).startedAt h₃.le)
    | none =>
    refine .bind ((yields_exportedBinding? (by order)).mono fun found c₅ _ hfound _ => ?_)
    cases found with
    | some entry => exact .pure (hfound entry rfl)
    | none =>
    refine .skip fun typeOnly c₆ h₆ => .ite (fun _ => .skip fun _ c₇ h₇ => ?_) fun _ => ?_
    · refine .ite (fun _ => yields_exportDefault (by order)) fun _ => ?_
      refine .bind ((yields_exportedDeclaration? (by order)).mono fun found c₈ h₈ hfound _ => ?_)
      cases found with
      | some entry => exact yields_exportedAt (hfound entry rfl)
      | none => exact yields_exportNames (by order)
    · exact yields_exportNames (by order)
  refine .ite (fun _ => ?_) fun _ => hrest _ (by order)
  refine .bind ((yields_declared? hrules h₂).mono fun found c₃ h₃ hfound _ => ?_)
  cases found with
  | some entry => exact yields_exportedAt ⟨c₁, hlt.le, hfound entry rfl⟩
  | none => exact hrest _ (by order)

end Exports

section Circle

theorem yields_statement_upTo (hrules : rules.Fit) {declarations : Bool} :
    (statement rules declarations).Yields s c fun entry d => c < d → UpTo c entry d := by
  refine .here (.skip fun decorated c₁ h₁ => .skip fun _ c₂ h₂ => .skip fun _ c₃ h₃ => ?_)
  refine .ite (fun _ => .ite (fun _ => ?_) fun _ => ?_) fun _ => .skip fun _ c₄ h₄ => ?_
  · exact (yields_importStatement hrules).mono fun _ _ _ h _ => h.startedAt (by order)
  · refine .skip fun _ c₄ h₄ => .skip fun _ c₅ h₅ => .skip fun _ c₆ h₆ => ?_
    exact (yields_expressionStatement hrules (by order)).mono fun _ _ _ h _ => h
  refine .ite (fun _ => .skip fun _ c₅ h₅ => ?_) fun _ => ?_
  · exact (yields_exportStatement hrules).mono fun _ _ _ h _ => h.startedAt (by order)
  · exact yields_plainStatement hrules (by order)

theorem yields_statementRule (hrules : rules.Fit) {declarations : Bool} :
    (statement rules declarations).Yields s c fun entry d => c < d → Within c entry d :=
  (yields_statement_upTo hrules).mono fun _ _ _ h hlt => (h hlt).within

/-- The rules are sound at every depth. -/
theorem rules_fit (depth : Nat) : (Grammar.rules depth).Fit := by
  induction depth with
  | zero =>
      exact ⟨⟨fun _ _ => .failure, fun _ _ => .failure, fun _ _ => .failure, fun _ _ _ => .failure,
        fun _ _ => .failure⟩, fun _ _ => .failure, fun _ _ _ => .failure⟩
  | succ depth ih =>
      refine ⟨⟨fun _ _ => assignment_moves ih.toMoving, fun _ _ => unary_moves ih.toMoving,
        fun _ _ => objectLiteral_moves, fun _ _ _ => classFrom_moves,
        fun _ _ => functionExpression_moves⟩, fun _ _ => yields_type,
        fun _ _ _ => yields_statementRule ih⟩

end Circle

section Documents

theorem yields_document : document.Yields s c (CoversAll c) := by
  refine .peek rfl ?_
  refine (yields_repeatUpTo peeks_atFinish.map (fun c => (rules_fit _).statement true s c) _).mono
    fun entries d _ hall => ?_
  exact .of_chain hall

end Documents

end Grammar

/-- The entries of a document that is read follow one another through its text, and its
comments are those before the place where the reading ends. -/
theorem readDocument_covers {t : Text} {entries : List Outline} {comments : List Comment}
    (h : readDocument t = some (entries, comments)) :
    ∃ z, CoversAll (.atStart t) entries z ∧ comments = z.comments.reverse := by
  obtain ⟨read, hread, heq⟩ := Option.map_eq_some_iff.mp h
  obtain ⟨rfl, rfl⟩ := Prod.mk.inj heq
  have hcovers : CoversAll
      ((Cursor.atStart t).rebased.moved (Cursor.atStart t).position (Cursor.atStart t).comments)
      (Outline.movedAll (Cursor.atStart t).position read.value)
      (read.cursor.moved (Cursor.atStart t).position (Cursor.atStart t).comments) :=
    (Grammar.yields_document read hread).moved
  rw [Cursor.moved_rebased_atStart] at hcovers
  exact ⟨_, hcovers, Cursor.moved_comments_reverse.symm⟩

end Syntax
end Typings
