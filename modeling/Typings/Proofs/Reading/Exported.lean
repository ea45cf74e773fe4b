import Typings.Proofs.Reading.Endings
import Typings.Proofs.Reading.Statements
import Mathlib.Data.List.Chain

/-!
# Exported statements

An exported statement begins with the word `export` or with a decorator in front of it, and it
ends as declarations end.  What comes next after a statement is therefore never another export
unless a semicolon, a closing brace or a line break separates the two.
-/

namespace Typings
namespace Syntax

open Syntax.Parser

/-- A statement that is exported was read from the place `o` or a later one up to the place
`d`. -/
structure Exports (o : Cursor) (entry : Outline) (d : Cursor) : Prop where
  stop : entry.span.stop = d.lastStop
  ends : Ends o d
  named : Named o entry

theorem Exports.widen {o o' d : Cursor} {entry : Outline} (h : Exports o entry d)
    (hle : o' ≤ o) : Exports o' entry d where
  stop := h.stop
  ends := h.ends.widen hle
  named := h.named.widen hle

/-- An exported statement can begin at the place. -/
def OpensExport (c : Cursor) : Prop :=
  c.token.kind = .mark "@" ∨ c.token.kind = .word "export"

/-- If the statement is exported, it begins as such. -/
structure MayExport (c : Cursor) (entry : Outline) (d : Cursor) : Prop where
  opens : entry.exported = true → OpensExport c
  exports : entry.exported = true → Exports c entry d

section Moving

variable {n : Nat} {before : List Comment} {o c d : Cursor} {entry : Outline}

theorem Ends.moved (h : Ends o d) : Ends (o.moved n before) (d.moved n before) := by
  cases h with
  | @mark b text hle hlt hkind htext hstop =>
      exact .mark (b := b.moved n before) (Cursor.moved_le hle) (Cursor.moved_lt hlt) hkind htext
        (congrArg (· + n) hstop)
  | lineBreak hlt hbreak => exact .lineBreak (Cursor.moved_lt hlt) hbreak
  | next hnext => exact .next hnext

theorem Form.isValue_moved {form : Form} (h : (form.moved n).IsValue) : form.IsValue := by
  cases form with
  | function signature => exact .inl ⟨signature, rfl⟩
  | «variable» ascription => exact .inr ⟨ascription, rfl⟩
  | _ => simp [Form.moved, Form.IsValue] at h

theorem Named.moved (h : Named o entry) : Named (o.moved n before) (entry.moved n) := by
  intro hvalue name hname
  rw [Outline.moved_form] at hvalue
  rw [Outline.moved_name] at hname
  obtain ⟨word, hword, b, hle, hkind⟩ := h (Form.isValue_moved hvalue) name hname
  exact ⟨word, hword, b.moved n before, Cursor.moved_le hle, hkind⟩

theorem MayExport.moved (h : MayExport c entry d) :
    MayExport (c.moved n before) (entry.moved n) (d.moved n before) := by
  constructor
  · intro hexported
    rw [Outline.moved_exported] at hexported
    exact h.opens hexported
  · intro hexported
    rw [Outline.moved_exported] at hexported
    obtain ⟨hstop, hends, hnamed⟩ := h.exports hexported
    refine ⟨?_, hends.moved, hnamed.moved⟩
    rw [Outline.moved_span]
    exact congrArg (· + n) hstop

/-- Exports that were read one after the other are read in the same way further on. -/
theorem chain_mayExport_moved {entries : List Outline}
    (h : Chain (fun c entry d => Within c entry d ∧ MayExport c entry d) c entries d) :
    Chain (fun c entry d => Within c entry d ∧ MayExport c entry d) (c.moved n before)
      (Outline.movedAll n entries) (d.moved n before) := by
  induction h with
  | nil => exact .nil
  | cons hfirst _ ih => exact .cons ⟨hfirst.1.moved, hfirst.2.moved⟩ ih

end Moving

namespace Grammar

variable {rules : Rules} {s : Setting} {o c : Cursor} {start : Nat}

/-- A statement that is not exported. -/
def IsPlain (entry : Outline) (_ : Cursor) : Prop :=
  entry.exported = false

section Plain

theorem statement_plain :
    (do return .statement (← spanFrom start) : Parser Outline).Yields s c IsPlain :=
  .spanFrom (.pure rfl)

theorem afterName_plain (hrules : rules.Closing) {word : String} :
    (afterName rules start word).Yields s c IsPlain := by
  refine .skip fun _ c₁ h₁ => .ite (fun _ => .skip fun _ _ _ => statement_plain) fun _ => ?_
  refine .skip fun _ c₂ h₂ => ?_
  extract_lets rest after
  have hfound : ∀ found d, MayDeclare c found d → (rest found).Yields s d IsPlain := by
    intro found d hdeclares
    cases found with
    | some entry => exact .pure (hdeclares entry rfl).exported
    | none => exact .skip fun _ _ _ => .skip fun _ _ _ => statement_plain
  have hafter : ∀ d, c ≤ d → (after ()).Yields s d IsPlain := by
    intro c₃ h₃
    refine .ite (fun _ => ?_) fun _ => .ite (fun _ => ?_) fun _ => ?_
    · exact .bind ((declared?_declares hrules h₃).mono fun found d _ hfound' _ =>
        hfound found d hfound')
    · refine .skip fun _ c₄ h₄ => .ite (fun _ => ?_) fun _ =>
        .bind (.pure fun _ => hfound none _ nofun)
      refine .here (.bind (nameSpaceBody_ends.mono fun statements d _ hd _ => ?_))
      refine .spanFrom (.bind (.pure fun _ => hfound (some _) d ?_))
      rintro _ ⟨⟩
      exact declares_of_form (by simp [Form.IsValue]) (hd.widen (by order))
    · exact .bind ((announced?_declares hrules h₃).mono fun found d _ hfound' _ =>
        hfound found d hfound')
  exact .ite (fun _ => .skip fun _ c₃ h₃ => hafter c₃ (by order)) fun _ => hafter c₂ (by order)

theorem expressionStatement_plain (hrules : rules.Closing) :
    (expressionStatement rules start).Yields s c IsPlain := by
  refine .here (.skip fun e c₁ h₁ => ?_)
  split
  · exact afterName_plain hrules
  · exact .skip fun _ _ _ => statement_plain

theorem some_plain {p : Parser Outline} (h : p.Yields s c (Declares c)) :
    (do return some (← p)).Yields s c fun found _ =>
      ∀ entry, found = some entry → entry.exported = false := by
  refine .bind (h.mono fun entry d _ hentry _ => .pure ?_)
  rintro _ ⟨⟩
  exact hentry.exported

theorem declaration?_plain (hrules : rules.Closing) {declarations : Bool} :
    (declaration? rules start declarations).Yields s c fun found _ =>
      ∀ entry, found = some entry → entry.exported = false := by
  have husing : ∀ {d : Cursor}, (do return some (← usingDeclaration rules start)).Yields s d
      fun found _ => ∀ entry, found = some entry → entry.exported = false := by
    refine .bind (usingDeclaration_declares.mono fun entry d _ hentry _ => .pure ?_)
    rintro _ ⟨⟩
    exact hentry
  refine .here (.skip fun after c₁ h₁ => ?_)
  extract_lets announces
  refine .peek rfl ?_
  split
  · refine .ite (fun _ => .skip fun _ _ _ => .skip fun _ _ _ => ?_) fun _ =>
      .ite (fun _ => ?_) fun _ => .pure nofun
    · exact some_plain enumerationFrom_declares
    · exact some_plain (variableDeclaration_declares hrules)
  · exact some_plain (variableDeclaration_declares hrules)
  · refine .skip fun _ _ _ => .ite (fun _ => ?_) fun _ => .pure nofun
    exact some_plain (variableDeclaration_declares hrules)
  · exact .skip fun _ _ _ => some_plain (functionDeclaration_declares hrules)
  · exact .skip fun _ _ _ => some_plain classFrom_declares
  · exact .skip fun _ _ _ => .ite (fun _ => .skip fun _ _ _ => husing) fun _ => .pure nofun
  · exact .skip fun _ _ _ => .ite (fun _ => husing) fun _ => .pure nofun
  · refine .ite (fun _ => .skip fun _ _ _ => ?_) fun _ => .pure nofun
    exact some_plain interfaceFrom_declares
  · refine .ite (fun _ => .skip fun _ _ _ => ?_) fun _ => .pure nofun
    exact some_plain typeAliasFrom_declares
  · refine .ite (fun _ => .skip fun _ _ _ => ?_) fun _ => .pure nofun
    exact some_plain enumerationFrom_declares
  · refine .skip fun _ _ _ => .ite (fun _ => ?_) fun _ => .pure nofun
    exact some_plain (functionDeclaration_declares hrules)
  · exact .pure nofun

theorem plainStatement_plain (hrules : rules.Closing) {declarations : Bool} :
    (plainStatement rules start declarations).Yields s c IsPlain := by
  refine .bind ((declaration?_plain hrules).mono fun found c₁ _ hfound _ => ?_)
  cases found with
  | some entry => exact .pure (hfound entry rfl)
  | none =>
      refine .skip fun _ c₂ h₂ => .ite (fun _ => statement_plain) fun _ => ?_
      exact expressionStatement_plain hrules

end Plain

section Imports

/-- An import by assignment is exported if it is said to be. -/
theorem importEquals_exports {name : String} {exported : Bool} :
    (importEquals start name exported).Yields s c fun entry d =>
      entry.exported = exported ∧ Exports c entry d := by
  refine .bind (expectMark_moves.mono fun _ c₁ _ h₁ _ => .skip fun _ c₂ h₂ => ?_)
  refine .skip fun _ c₃ h₃ => ?_
  extract_lets rest
  have hrest : ∀ d, c < d → (rest ()).Yields s d fun entry d =>
      entry.exported = exported ∧ Exports c entry d := by
    refine fun d hd => .bind ((expectStatementEnd_ends hd).mono fun _ e _ he _ => ?_)
    refine .spanFrom (.pure ⟨rfl, rfl, he, ?_⟩)
    rintro (⟨_, hform⟩ | ⟨_, hform⟩) <;> cases hform
  refine .ite (fun _ => ?_) fun _ => .skip fun _ c₄ h₄ => hrest _ (by order)
  refine .skip fun _ c₄ h₄ => .skip fun _ c₅ h₅ => .skip fun _ c₆ h₆ => .skip fun _ c₇ h₇ => ?_
  exact hrest _ (by order)

theorem importAfterDefault_plain {name : String} {typeOnly : Bool} :
    (importAfterDefault rules start name typeOnly).Yields s c IsPlain := by
  refine .skip fun _ c₁ h₁ => .ite (fun _ => ?_) fun _ => ?_
  · exact importEquals_exports.mono fun _ _ _ hentry => hentry.1
  refine .skip fun _ c₂ h₂ => ?_
  extract_lets rest
  have hrest : ∀ d, (rest ()).Yields s d IsPlain :=
    fun d => .skip fun _ _ _ => .skip fun _ _ _ => statement_plain
  exact .ite (fun _ => hrest _) fun _ => .skip fun _ _ _ => hrest _

theorem importFrom_plain {first : String} : (importFrom rules start first).Yields s c IsPlain := by
  refine .skip fun _ c₁ h₁ => .ite (fun _ => ?_) fun _ => .skip fun _ c₂ h₂ => ?_
  · exact .skip fun _ _ _ => .skip fun _ _ _ => statement_plain
  refine .skip fun _ _ _ => .skip fun _ _ _ => .ite (fun _ => ?_) fun _ => ?_
  · exact .skip fun _ _ _ => importAfterDefault_plain
  · exact importAfterDefault_plain

theorem importStatement_plain (hrules : rules.Closing) :
    (importStatement rules).Yields s c IsPlain := by
  refine .here (.skip fun _ _ _ => .skip fun _ _ _ => .ite (fun _ => ?_) fun _ => ?_)
  · exact expressionStatement_plain hrules
  refine .skip fun _ _ _ => .skip fun _ _ _ => .ite (fun _ => ?_) fun _ => .skip fun _ _ _ => ?_
  · exact .skip fun _ _ _ => statement_plain
  refine .ite (fun _ => ?_) fun _ => ?_
  · exact .skip fun _ _ _ => importFrom_plain
  · exact .skip fun _ _ _ => .skip fun _ _ _ => statement_plain

end Imports

section Exports

/-- What is read under an export, if it is exported at all. -/
def ExportedFrom (o : Cursor) (entry : Outline) (d : Cursor) : Prop :=
  entry.exported = true → Exports o entry d

theorem statement_exportedFrom :
    (do return .statement (← spanFrom start) : Parser Outline).Yields s c (ExportedFrom o) :=
  .spanFrom (.pure nofun)

/-- A declaration under an export. -/
theorem exportedAt_exports {entry : Outline} (hentry : Declares o entry c) :
    (do return entry.exportedAt (← spanFrom start) : Parser Outline).Yields s c
      (ExportedFrom o) :=
  .spanFrom (.pure fun _ => ⟨rfl, hentry.ends, hentry.named⟩)

theorem exportDefault_exports (hrules : rules.Closing) {decorated : Bool} :
    (exportDefault rules start decorated).Yields s c (ExportedFrom c) := by
  refine .skip fun _ c₁ h₁ => ?_
  extract_lets asExported rest
  have hexported : ∀ {p : Parser Outline} {d : Cursor}, c ≤ d → p.Yields s d (Declares d) →
      (p >>= asExported).Yields s d (ExportedFrom c) := by
    intro p d hd hp
    exact .bind (hp.mono fun entry e _ hentry _ => exportedAt_exports (hentry.widen hd))
  have hrest : ∀ d, c ≤ d → (rest ()).Yields s d (ExportedFrom c) := by
    intro c₂ h₂
    refine .here (.skip fun _ c₃ h₃ => .skip fun _ c₄ h₄ => .skip fun _ c₅ h₅ => ?_)
    refine .ite (fun _ => .skip fun _ c₆ h₆ => ?_) fun _ => .skip fun _ c₆ h₆ => ?_
    · exact hexported (by order) classFrom_declares
    refine .ite (fun _ => hexported (by order) interfaceFrom_declares) fun _ => ?_
    refine .skip fun _ c₇ h₇ => .ite (fun _ => ?_) fun _ => .skip fun _ c₈ h₈ => ?_
    · exact hexported (by order) classFrom_declares
    refine .skip fun _ c₉ h₉ => .ite (fun _ => ?_) fun _ => ?_
    · exact hexported (by order) (defaultFunction_declares hrules)
    · exact .skip fun _ _ _ => .skip fun _ _ _ => statement_exportedFrom
  exact .ite (fun _ => .skip fun _ c₂ h₂ => hrest _ (by order)) fun _ => hrest _ h₁

theorem exportNames_exports {typeOnly : Bool} :
    (exportNames rules start typeOnly).Yields s c (ExportedFrom o) := by
  refine .skip fun _ c₁ h₁ => ?_
  extract_lets finish source
  have hfinish : ∀ d, (finish ()).Yields s d (ExportedFrom o) := fun d => statement_exportedFrom
  have hsource : ∀ d, (source ()).Yields s d (ExportedFrom o) :=
    fun d => .skip fun _ _ _ => hfinish _
  refine .ite (fun _ => .skip fun _ _ _ => .ite (fun _ => ?_) fun _ => hsource _) fun _ => ?_
  · exact .skip fun _ _ _ => hsource _
  refine .skip fun _ _ _ => .skip fun _ _ _ => .skip fun _ _ _ => .skip fun _ _ _ => ?_
  refine .ite (fun _ => .skip fun _ _ _ => hfinish _) fun _ => ?_
  exact .skip fun _ _ _ => .skip fun _ _ _ => hfinish _

theorem exportedDeclaration?_declares (hrules : rules.Closing) {decorated : Bool} (hle : o ≤ c) :
    (exportedDeclaration? rules start decorated).Yields s c (MayDeclare o) := by
  refine .skip fun _ c₁ h₁ => ?_
  extract_lets rest
  have hrest : ∀ d, o ≤ d → (rest ()).Yields s d (MayDeclare o) := by
    intro c₂ h₂
    refine .here (.skip fun _ c₃ h₃ => .peek rfl ?_)
    split
    · exact some_declares (by order) classFrom_declares
    · exact some_declares (by order) (functionDeclaration_declares hrules)
    · refine .skip fun _ c₄ h₄ => .ite (fun _ => ?_) fun _ => .pure nofun
      exact some_declares (by order) (functionDeclaration_declares hrules)
    · refine .skip fun _ c₄ h₄ => .ite (fun _ => .skip fun _ c₅ h₅ => .skip fun _ c₆ h₆ => ?_)
        fun _ => ?_
      · exact some_declares (by order) enumerationFrom_declares
      · exact some_declares (by order) (variableDeclaration_declares hrules)
    · exact some_declares (by order) (variableDeclaration_declares hrules)
    · refine .skip fun _ c₄ h₄ => .ite (fun _ => ?_) fun _ => .pure nofun
      exact some_declares (by order) (variableDeclaration_declares hrules)
    · exact .pure nofun
  exact .ite (fun _ => .skip fun _ c₂ h₂ => hrest _ (by order)) fun _ => hrest _ (by order)

theorem exportedBinding?_exports (hle : o ≤ c) :
    (exportedBinding? rules start).Yields s c fun found d =>
      ∀ entry, found = some entry → ExportedFrom o entry d := by
  have hsome : ∀ {p : Parser Outline} {d : Cursor}, p.Yields s d (ExportedFrom o) →
      (do return some (← p)).Yields s d fun found d =>
        ∀ entry, found = some entry → ExportedFrom o entry d := by
    refine fun hp => .bind (hp.mono fun entry d _ hentry _ => .pure ?_)
    rintro _ ⟨⟩
    exact hentry
  have hstatement : ∀ {d : Cursor}, (do return some (.statement (← spanFrom start)) :
      Parser (Option Outline)).Yields s d fun found d =>
        ∀ entry, found = some entry → ExportedFrom o entry d := by
    refine .spanFrom (.pure ?_)
    rintro _ ⟨⟩
    exact nofun
  refine .skip fun _ c₁ h₁ => .ite (fun _ => .skip fun _ c₂ h₂ => .skip fun _ c₃ h₃ => ?_)
    fun _ => .skip fun _ c₂ h₂ => .ite (fun _ => ?_) fun _ => ?_
  · extract_lets isTypeOnly rest
    have hrest : ∀ d, o ≤ d → (rest ()).Yields s d fun found d =>
        ∀ entry, found = some entry → ExportedFrom o entry d := by
      refine fun d hd => .skip fun _ e he => hsome ?_
      exact importEquals_exports.mono fun _ _ _ hentry _ => hentry.2.widen (by order)
    exact .ite (fun _ => .skip fun _ c₄ h₄ => hrest _ (by order)) fun _ => hrest _ (by order)
  · exact .skip fun _ _ _ => .skip fun _ _ _ => hstatement
  · refine .skip fun _ _ _ => .ite (fun _ => ?_) fun _ => .pure nofun
    exact .skip fun _ _ _ => .skip fun _ _ _ => .skip fun _ _ _ => hstatement

theorem exportedAnnounced?_declares (hrules : rules.Closing) :
    (exportedAnnounced? rules).Yields s c (MayDeclare c) := by
  refine .peek rfl ?_
  split
  · exact .here (.attempt? fun s => announced?_declares hrules le_rfl)
  · exact .pure nofun

theorem exportStatement_exports (hrules : rules.Closing) {decorated : Bool} :
    (exportStatement rules decorated).Yields s c (ExportedFrom c) := by
  refine .here (.skip fun _ c₁ h₁ => .here (.skip fun _ c₂ h₂ => ?_))
  extract_lets rest
  have hrest : ∀ d, c ≤ d → (rest ()).Yields s d (ExportedFrom c) := by
    intro c₃ h₃
    refine .bind ((exportedAnnounced?_declares hrules).mono fun found c₄ _ hfound _ => ?_)
    cases found with
    | some entry => exact exportedAt_exports ((hfound entry rfl).widen h₃)
    | none =>
    refine .bind ((exportedBinding?_exports (show c ≤ c₄ by order)).mono
      fun found c₅ _ hfound _ => ?_)
    cases found with
    | some entry => exact .pure (hfound entry rfl)
    | none =>
    refine .skip fun typeOnly c₆ h₆ => .ite (fun _ => .skip fun _ c₇ h₇ => ?_) fun _ => ?_
    · refine .ite (fun _ => ?_) fun _ => ?_
      · exact (exportDefault_exports hrules).mono fun _ _ _ hentry hexported =>
          (hentry hexported).widen (by order)
      refine .bind ((exportedDeclaration?_declares hrules (show c ≤ c₇ by order)).mono
        fun found c₈ h₈ hfound _ => ?_)
      cases found with
      | some entry => exact exportedAt_exports (hfound entry rfl)
      | none => exact exportNames_exports
    · exact exportNames_exports
  refine .ite (fun _ => ?_) fun _ => hrest _ (by order)
  refine .bind ((declared?_declares hrules (show c ≤ c₂ by order)).mono
    fun found c₃ h₃ hfound _ => ?_)
  cases found with
  | some entry => exact exportedAt_exports (hfound entry rfl)
  | none => exact hrest _ (by order)

end Exports

section Circle

/-- Decorators begin with their mark, and without them the reading stays where it is. -/
theorem yields_decorators :
    (decorators rules).Yields s c fun _ d => c.token.kind = .mark "@" ∨ d = c := by
  by_cases hmark : c.token.kind = .mark "@"
  · exact .moves fun _ _ _ => .inl hmark
  · have hnone : ∀ fuel, (repeatUpTo fuel (atMark "@") (decorator rules)).Yields s c
        fun _ d => d = c := by
      intro fuel
      cases fuel with
      | zero =>
          refine .look peeks_atMark fun _ => .bind ?_
          exact yields_require.mono fun _ d _ h _ => .pure h.2
      | succ fuel => exact .peek rfl (.ite (fun hat => absurd (by simpa using hat) hmark)
          fun _ => .pure rfl)
    have hloop : (repeatWhile (atMark "@") (decorator rules)).Yields s c fun _ d => d = c :=
      .peek rfl (hnone _)
    exact .bind (hloop.mono fun _ d _ hd _ => .pure (.inr hd))

/-- A statement that is exported begins and ends as such. -/
theorem statement_exports (hrules : rules.Closing) {declarations : Bool} :
    (statement rules declarations).Yields s c (MayExport c) := by
  have hplain : ∀ {p : Parser Outline} {d : Cursor}, p.Yields s d IsPlain →
      p.Yields s d (MayExport c) := by
    intro p d hp
    refine hp.mono fun entry e _ hentry => ?_
    have hnot : entry.exported ≠ true := by simp [show entry.exported = false from hentry]
    exact ⟨fun hexported => absurd hexported hnot, fun hexported => absurd hexported hnot⟩
  refine .here (.bind (yields_decorators.mono fun decorated c₁ h₁ hdecorated _ => ?_))
  refine .peek rfl (.peek rfl (.ite (fun _ => .ite (fun _ => ?_) fun _ => ?_) fun _ => ?_))
  · exact hplain (importStatement_plain hrules)
  · refine .skip fun _ c₂ h₂ => .skip fun _ c₃ h₃ => .skip fun _ c₄ h₄ => ?_
    exact hplain (expressionStatement_plain hrules)
  refine .peek rfl (.ite (fun hword => .skip fun _ c₂ h₂ => ?_) fun _ => ?_)
  · refine (exportStatement_exports hrules).mono fun entry d _ hentry => ⟨fun _ => ?_, fun h => ?_⟩
    · rcases hdecorated with hmark | rfl
      · exact .inl hmark
      · exact .inr (by simpa using hword)
    · exact (hentry h).widen (by order)
  · exact hplain (plainStatement_plain hrules)

/-- The rules that close the circles hold at every depth. -/
theorem rules_closing (depth : Nat) : (Grammar.rules depth).Closing := by
  induction depth with
  | zero => exact ⟨fun _ _ => .failure, fun _ _ _ => .failure, fun _ _ => .failure⟩
  | succ depth ih =>
      refine ⟨fun _ _ => block_ends, fun _ _ _ => ?_, fun _ _ => binding_spelled⟩
      exact (nameSpaceFrom_declares ih).mono fun _ _ _ hentry => hentry.ends

/-- The statements of a document were read one after the other, and those that are exported
begin and end as such. -/
theorem yields_document_exports :
    document.Yields s c (Chain (fun c entry d => Within c entry d ∧ MayExport c entry d) c) := by
  have hstatement : ∀ depth c,
      ((Grammar.rules depth).statement true).Yields s c (MayExport c) := by
    intro depth c
    cases depth with
    | zero => exact .failure
    | succ depth => exact statement_exports (rules_closing depth)
  refine .peek rfl (yields_repeatUpTo peeks_atFinish.map ?_ _)
  intro c r hr hlt
  exact ⟨(rules_fit _).statement true s c r hr hlt, hstatement _ c r hr⟩

end Circle

end Grammar

section Documents

variable {t : Text} {c d z : Cursor} {a b : Outline} {entries : List Outline}

/-- A semicolon or a closing brace ends the first stretch of the text, or a line break stands
between the two. -/
def Separated (t : Text) (a b : Span) : Prop :=
  (t[a.stop - 1]? = some ';' ∨ t[a.stop - 1]? = some '}') ∨
    ∃ x ∈ Text.slice t a.stop b.start, isLineBreak x = true

/-- Where one exported statement ends and another can begin, something separates the two. -/
theorem Exports.separated (hc : .atStart t ≤ c) (ha : Exports c a d) (hd : OpensExport d)
    (hb : d.position ≤ b.span.start) : Separated t a.span b.span := by
  obtain ⟨hstop, hends, -⟩ := ha
  cases hends with
  | mark hle hlt hmark htext hlast =>
      left
      have hb := hc.trans hle
      rw [hstop, hlast]
      rcases htext with rfl | rfl
      · obtain ⟨hchar, hnext⟩ := Cursor.getElem?_of_mark hb hmark rfl (by decide)
        exact .inl (by rwa [hnext, Nat.add_sub_cancel])
      · obtain ⟨hchar, hnext⟩ := Cursor.getElem?_of_mark hb hmark rfl (by decide)
        exact .inr (by rwa [hnext, Nat.add_sub_cancel])
  | lineBreak hlt hbreak =>
      right
      obtain ⟨x, hx, hline⟩ := Cursor.exists_lineBreak hc hlt hbreak
      refine ⟨x, ?_, hline⟩
      have hlong : d.position - d.lastStop ≤ b.span.start - d.lastStop := by omega
      rw [hstop]
      exact List.take_subset_take_left _ hlong hx
  | next hnext =>
      -- Neither a closing brace nor the end of the text begins an export.
      rcases hnext with hbrace | hfinish
      · rcases hd with hopen | hopen
        · rw [hbrace] at hopen
          exact absurd hopen (by decide)
        · rw [hbrace] at hopen
          cases hopen
      · rcases hd with hopen | hopen
        · rw [hfinish] at hopen
          cases hopen
        · rw [hfinish] at hopen
          cases hopen

theorem Within.le (h : Within c a d) : c ≤ d := by
  obtain ⟨o, e, ho, hcovers, he⟩ := h
  exact ho.trans (hcovers.lt.le.trans he)

/-- An entry starts no earlier than its reading. -/
theorem Within.position_le (h : Within c a d) : c.position ≤ a.span.start := by
  obtain ⟨o, e, ho, hcovers, -⟩ := h
  rw [hcovers.span_eq]
  exact Cursor.position_le ho

/-- Something separates two exported statements that follow one another. -/
theorem isChain_separated
    (h : Chain (fun c entry d => Within c entry d ∧ MayExport c entry d) c entries z)
    (hc : .atStart t ≤ c) :
    entries.IsChain fun a b => a.exported = true → b.exported = true → Separated t a.span b.span := by
  induction h with
  | nil => exact .nil
  | @cons c d e a rest ha hrest ih =>
      have hd := hc.trans ha.1.le
      cases hrest with
      | nil => exact .singleton a
      | @cons _ _ _ b others hb hothers =>
          refine .cons_cons ?_ (ih hd)
          intro hexported hnext
          exact (ha.2.exports hexported).separated hc (hb.2.opens hnext) hb.1.position_le

/-- Functions and variables that are exported are called by words. -/
theorem named_of_chain
    (h : Chain (fun c entry d => Within c entry d ∧ MayExport c entry d) c entries z)
    (hc : .atStart t ≤ c) {name : Text} (hmem : a ∈ entries) (hexported : a.exported = true)
    (hvalue : a.form.IsValue) (hname : a.name = some name) : IsName name := by
  induction h with
  | nil => simp at hmem
  | cons hfirst _ ih =>
      rcases List.mem_cons.mp hmem with rfl | hmem
      · obtain ⟨word, rfl, b, hle, hword⟩ := (hfirst.2.exports hexported).named hvalue name hname
        exact Cursor.word_spelled (hc.trans hle) hword
      · exact ih (hc.trans hfirst.1.le) hmem

/-- The exported statements of a document that is read. -/
theorem readDocument_exports {comments : List Comment}
    (h : readDocument t = some (entries, comments)) :
    (entries.IsChain fun a b => a.exported = true → b.exported = true → Separated t a.span b.span) ∧
      ∀ entry ∈ entries, entry.exported = true → entry.form.IsValue →
        ∀ name, entry.name = some name → IsName name := by
  obtain ⟨read, hread, heq⟩ := Option.map_eq_some_iff.mp h
  obtain ⟨rfl, -⟩ := Prod.mk.inj heq
  have hchain : Chain (fun c entry d => Within c entry d ∧ MayExport c entry d)
      ((Cursor.atStart t).rebased.moved (Cursor.atStart t).position (Cursor.atStart t).comments)
      (Outline.movedAll (Cursor.atStart t).position read.value) _ :=
    chain_mayExport_moved (Grammar.yields_document_exports read hread)
  rw [Cursor.moved_rebased_atStart] at hchain
  constructor
  · exact isChain_separated hchain le_rfl
  · intro entry hmem hexported hvalue name hname
    exact named_of_chain hchain (le_refl (Cursor.atStart t)) hmem hexported hvalue hname

end Documents

end Syntax
end Typings
