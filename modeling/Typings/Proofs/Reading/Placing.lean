import Typings.Proofs.Reading.Bodies
import Typings.Proofs.Reading.Exported

/-!
# Where statements start

A statement starts with its first token, unless it has decorators.  So the statements of a document,
and those of every namespace in it, follow one another with nothing but spaces, comments and their
own decorators between them.
-/

namespace Typings
namespace Syntax

open Syntax.Parser

namespace Parser

theorem peeks_wordAfterOnLine {name : String} : (wordAfterOnLine name).Peeks :=
  fun _ _ => .look peeks_tokenAfter fun _ => .pure rfl

end Parser

/-- The entry starts at the position, or at the place where it is read. -/
structure Begins (start : Nat) (c : Cursor) (entry : Outline) (d : Cursor) : Prop where
  start_eq : entry.span.start = start ∨ entry.span.start = c.position
  laid : Laid c entry d

theorem Starts.begins {o start : Nat} {c d : Cursor} {entry : Outline} (h : Starts o c entry d)
    (ho : o = start ∨ o = c.position) : Begins start c entry d :=
  ⟨h.start_eq ▸ ho, h.laid⟩

theorem Begins.anywhere {start : Nat} {c d : Cursor} {entry : Outline}
    (h : Begins c.position c entry d) : Begins start c entry d :=
  ⟨.inr (h.start_eq.elim id id), h.laid⟩

/-- A declaration that was looked for, without moving if there is none. -/
structure MayBegin (start : Nat) (c : Cursor) (found : Option Outline) (d : Cursor) : Prop where
  begins : ∀ entry, found = some entry → Begins start c entry d
  stays : found = none → d = c

namespace Grammar

variable {rules : Rules} {s : Setting} {a c : Cursor} {start : Nat}

section Peeking

theorem peeks_atLetDeclaration : atLetDeclaration.Peeks := by
  refine fun s c => .look peeks_atWord fun _ => .ite (fun _ => ?_) fun _ => .pure rfl
  refine .look peeks_tokenAfter fun after => ?_
  split <;> exact .pure rfl

theorem peeks_atUsingDeclaration : atUsingDeclaration.Peeks :=
  peeks_tokenAfter.bind fun _ => peeks_atWord.bind fun _ => peeks_pure

theorem peeks_atAsyncFunction : atAsyncFunction.Peeks :=
  peeks_atWord.bind fun _ => peeks_wordAfterOnLine.bind fun _ => peeks_pure

end Peeking

section Names

theorem statement_starts :
    (do return .statement (← spanFrom start) : Parser Outline).Yields s c (Starts start a) :=
  .spanFrom (.pure ⟨rfl, .leaf⟩)

theorem afterName_starts (hrules : rules.Lays) {word : String} :
    (afterName rules start word).Yields s c (Starts start c) := by
  refine .skip fun _ c₁ h₁ => .ite (fun _ => .skip fun _ _ _ => statement_starts) fun _ => ?_
  refine .skip fun _ c₂ h₂ => ?_
  extract_lets rest after
  have hfound : ∀ found d, MayStart start c found d →
      (rest found).Yields s d (Starts start c) := by
    intro found d hstarts
    cases found with
    | some entry => exact .pure (hstarts entry rfl)
    | none => exact .skip fun _ _ _ => .skip fun _ _ _ => statement_starts
  have hafter : ∀ d, c ≤ d → (after ()).Yields s d (Starts start c) := by
    intro c₃ h₃
    refine .ite (fun _ => ?_) fun _ => .ite (fun _ => ?_) fun _ => ?_
    · exact .bind ((declared?_starts hrules).mono fun found d _ hstarts _ =>
        hfound found d fun entry heq => (hstarts entry heq).widen h₃)
    · refine .skip fun _ c₄ h₄ => .ite (fun _ => ?_) fun _ =>
        .bind (.pure fun _ => hfound none _ nofun)
      refine .here (.bind ((nameSpaceBody_follows hrules).mono fun statements d _ hbody _ => ?_))
      obtain ⟨o, hmark, hnext, hall⟩ := hbody
      refine .spanFrom (.bind (.pure fun _ => hfound (some _) d ?_))
      rintro _ ⟨⟩
      exact ⟨rfl, .body (by simp) (by simp) (by order) hmark hnext hall le_rfl⟩
    · exact .bind ((announced?_starts hrules).mono fun found d _ hstarts _ =>
        hfound found d fun entry heq => (hstarts entry heq).widen h₃)
  exact .ite (fun _ => .skip fun _ c₃ h₃ => hafter c₃ (by order)) fun _ => hafter c₂ (by order)

/-- A statement that begins with a name starts with the name, if that announces a
declaration. -/
theorem expressionStatement_begins (hrules : rules.Lays) :
    (expressionStatement rules start).Yields s c (Begins start c) := by
  refine .here (.skip fun e c₁ h₁ => ?_)
  split
  · exact (afterName_starts hrules).mono fun _ _ _ hentry => (hentry.widen h₁).begins (.inr rfl)
  · exact .skip fun _ _ _ => statement_starts.mono fun _ _ _ hentry => hentry.begins (.inl rfl)

end Names

section Statements

theorem some_begins {p : Parser Outline} {o : Nat} (hle : a ≤ c)
    (h : p.Yields s c (Starts o c)) (ho : o = start ∨ o = a.position) :
    (do return some (← p)).Yields s c (MayBegin start a) := by
  refine .bind (h.mono fun entry d _ hentry _ => .pure ⟨?_, nofun⟩)
  rintro _ ⟨⟩
  exact (hentry.widen hle).begins ho

theorem declaration?_begins (hrules : rules.Lays) {declarations : Bool} :
    (declaration? rules start declarations).Yields s c (MayBegin start c) := by
  have hstart : ∀ {p : Parser Outline} {d : Cursor}, c ≤ d → p.Yields s d (Starts start d) →
      (do return some (← p)).Yields s d (MayBegin start c) :=
    fun hle hp => some_begins hle hp (.inl rfl)
  have hhere : ∀ {p : Parser Outline} {d : Cursor}, c ≤ d → p.Yields s d (Starts c.position d) →
      (do return some (← p)).Yields s d (MayBegin start c) :=
    fun hle hp => some_begins hle hp (.inr rfl)
  have hnone : (pure none : Parser (Option Outline)).Yields s c (MayBegin start c) :=
    .pure ⟨nofun, fun _ => rfl⟩
  refine .here (.look peeks_tokenAfter fun after => ?_)
  extract_lets announces
  refine .peek rfl ?_
  split
  · refine .ite (fun _ => .skip fun _ c₂ h₂ => .skip fun _ c₃ h₃ => ?_) fun _ =>
      .ite (fun _ => ?_) fun _ => hnone
    · exact hstart (by order) enumerationFrom_starts
    · exact hhere le_rfl variableDeclaration_starts
  · exact hhere le_rfl variableDeclaration_starts
  · refine .look peeks_atLetDeclaration fun _ => .ite (fun _ => ?_) fun _ => hnone
    exact hhere le_rfl variableDeclaration_starts
  · exact .look peeks_complainIf fun _ => hhere le_rfl functionDeclaration_starts
  · exact .skip fun _ c₂ h₂ => hstart h₂ classFrom_starts
  · refine .look peeks_foresees fun _ => .ite (fun _ => .skip fun _ c₃ h₃ => ?_) fun _ => hnone
    exact hstart h₃ usingDeclaration_starts
  · refine .look peeks_atUsingDeclaration fun _ => .ite (fun _ => ?_) fun _ => hnone
    exact hstart le_rfl usingDeclaration_starts
  · refine .ite (fun _ => .skip fun _ c₂ h₂ => ?_) fun _ => hnone
    exact hhere h₂ interfaceFrom_starts
  · refine .ite (fun _ => .skip fun _ c₂ h₂ => ?_) fun _ => hnone
    exact hhere h₂ (typeAliasFrom_starts hrules)
  · refine .ite (fun _ => .skip fun _ c₂ h₂ => ?_) fun _ => hnone
    exact hhere h₂ enumerationFrom_starts
  · refine .look peeks_atAsyncFunction fun _ => .ite (fun _ => ?_) fun _ => hnone
    exact hhere le_rfl functionDeclaration_starts
  · exact hnone

/-- Where no statement of control is read, the place stays. -/
theorem yields_control? :
    (control? rules).Yields s c fun found d => found = false → d = c := by
  refine .peek rfl ?_
  split
  · dsimp only
    split
    · exact .skip fun _ _ _ => .pure nofun
    · exact .pure fun _ => rfl
  · exact .skip fun _ _ _ => .pure nofun
  · exact .skip fun _ _ _ => .pure nofun
  · exact .pure fun _ => rfl

theorem plainStatement_begins (hrules : rules.Lays) {declarations : Bool} :
    (plainStatement rules start declarations).Yields s c (Begins start c) := by
  refine .bind ((declaration?_begins hrules).mono fun found c₁ _ hfound _ => ?_)
  cases found with
  | some entry => exact .pure (hfound.begins entry rfl)
  | none =>
      obtain rfl := hfound.stays rfl
      refine .bind (yields_control?.mono fun controls c₂ _ hstays _ => .ite (fun _ => ?_)
        fun hnot => ?_)
      · exact statement_starts.mono fun _ _ _ hentry => hentry.begins (.inl rfl)
      · obtain rfl := hstays (by simpa using hnot)
        exact expressionStatement_begins hrules

end Statements

section Imports

theorem importEquals_starts {name : String} {exported : Bool} :
    (importEquals start name exported).Yields s c (Starts start a) := by
  refine .skip fun _ c₁ h₁ => .skip fun _ c₂ h₂ => .skip fun _ c₃ h₃ => ?_
  extract_lets rest
  have hrest : ∀ d, (rest ()).Yields s d (Starts start a) :=
    fun d => .skip fun _ _ _ => .spanFrom (.pure ⟨rfl, .leaf⟩)
  refine .ite (fun _ => ?_) fun _ => .skip fun _ _ _ => hrest _
  exact .skip fun _ _ _ => .skip fun _ _ _ => .skip fun _ _ _ => .skip fun _ _ _ => hrest _

theorem importAfterDefault_starts {name : String} {typeOnly : Bool} :
    (importAfterDefault rules start name typeOnly).Yields s c (Starts start a) := by
  refine .skip fun _ _ _ => .ite (fun _ => importEquals_starts) fun _ => .skip fun _ _ _ => ?_
  extract_lets rest
  have hrest : ∀ d, (rest ()).Yields s d (Starts start a) :=
    fun d => .skip fun _ _ _ => .skip fun _ _ _ => statement_starts
  exact .ite (fun _ => hrest _) fun _ => .skip fun _ _ _ => hrest _

theorem importFrom_starts {first : String} :
    (importFrom rules start first).Yields s c (Starts start a) := by
  refine .skip fun _ _ _ => .ite (fun _ => ?_) fun _ => .skip fun _ _ _ => ?_
  · exact .skip fun _ _ _ => .skip fun _ _ _ => statement_starts
  refine .skip fun _ _ _ => .skip fun _ _ _ => .ite (fun _ => ?_) fun _ => ?_
  · exact .skip fun _ _ _ => importAfterDefault_starts
  · exact importAfterDefault_starts

theorem importStatement_begins (hrules : rules.Lays) :
    (importStatement rules).Yields s c (Begins c.position c) := by
  have hstarts : ∀ {p : Parser Outline} {d : Cursor}, p.Yields s d (Starts c.position c) →
      p.Yields s d (Begins c.position c) :=
    fun hp => hp.mono fun _ _ _ hentry => hentry.begins (.inl rfl)
  refine .here (.look peeks_markAfter fun _ => .look peeks_markAfter fun _ =>
    .ite (fun _ => expressionStatement_begins hrules) fun _ => ?_)
  refine .skip fun _ _ _ => .skip fun _ _ _ => .ite (fun _ => ?_) fun _ => .skip fun _ _ _ => ?_
  · exact .skip fun _ _ _ => hstarts statement_starts
  refine .ite (fun _ => .skip fun _ _ _ => hstarts importFrom_starts) fun _ => ?_
  exact .skip fun _ _ _ => .skip fun _ _ _ => hstarts statement_starts

end Imports

section Exports

/-- A declaration under an export starts where the export does. -/
theorem exportedAt_starts {o : Nat} {entry : Outline} (hentry : Starts o a entry c) :
    (do return entry.exportedAt (← spanFrom start) : Parser Outline).Yields s c
      (Starts start a) :=
  .spanFrom (.pure ⟨rfl, hentry.laid.respanned true _⟩)

theorem exportDefault_starts {decorated : Bool} :
    (exportDefault rules start decorated).Yields s c (Starts start c) := by
  refine .skip fun _ c₁ h₁ => ?_
  extract_lets asExported rest
  have hexported : ∀ {p : Parser Outline} {d : Cursor} {o : Nat}, c ≤ d →
      p.Yields s d (Starts o d) → (p >>= asExported).Yields s d (Starts start c) :=
    fun hd hp => .bind (hp.mono fun entry e _ hentry _ => exportedAt_starts (hentry.widen hd))
  have hrest : ∀ d, c ≤ d → (rest ()).Yields s d (Starts start c) := by
    intro c₂ h₂
    refine .here (.skip fun _ c₃ h₃ => .skip fun _ c₄ h₄ => .skip fun _ c₅ h₅ => ?_)
    refine .ite (fun _ => .skip fun _ c₆ h₆ => ?_) fun _ => .skip fun _ c₆ h₆ => ?_
    · exact hexported (by order) classFrom_starts
    refine .ite (fun _ => hexported (o := start) (by order) interfaceFrom_starts) fun _ => ?_
    refine .skip fun _ c₇ h₇ => .ite (fun _ => ?_) fun _ => .skip fun _ c₈ h₈ => ?_
    · exact hexported (by order) classFrom_starts
    refine .skip fun _ c₉ h₉ => .ite (fun _ => ?_) fun _ => ?_
    · exact hexported (by order) defaultFunction_starts
    · exact .skip fun _ _ _ => .skip fun _ _ _ => statement_starts
  exact .ite (fun _ => .skip fun _ c₂ h₂ => hrest _ (by order)) fun _ => hrest _ h₁

theorem exportNames_starts {typeOnly : Bool} :
    (exportNames rules start typeOnly).Yields s c (Starts start a) := by
  refine .skip fun _ _ _ => ?_
  extract_lets finish source
  have hfinish : ∀ d, (finish ()).Yields s d (Starts start a) := fun d => statement_starts
  have hsource : ∀ d, (source ()).Yields s d (Starts start a) :=
    fun d => .skip fun _ _ _ => hfinish _
  refine .ite (fun _ => .skip fun _ _ _ => .ite (fun _ => ?_) fun _ => hsource _) fun _ => ?_
  · exact .skip fun _ _ _ => hsource _
  refine .skip fun _ _ _ => .skip fun _ _ _ => .skip fun _ _ _ => .skip fun _ _ _ => ?_
  refine .ite (fun _ => .skip fun _ _ _ => hfinish _) fun _ => ?_
  exact .skip fun _ _ _ => .skip fun _ _ _ => hfinish _

/-- A declaration under an export, wherever it starts. -/
def MayLie (c : Cursor) (found : Option Outline) (d : Cursor) : Prop :=
  ∀ entry, found = some entry → ∃ o, Starts o c entry d

theorem some_lies {p : Parser Outline} {o : Nat} (hle : a ≤ c) (h : p.Yields s c (Starts o c)) :
    (do return some (← p)).Yields s c (MayLie a) := by
  refine .bind (h.mono fun entry d _ hentry _ => .pure ?_)
  rintro _ ⟨⟩
  exact ⟨o, hentry.widen hle⟩

theorem exportedDeclaration?_lies {decorated : Bool} (hle : a ≤ c) :
    (exportedDeclaration? rules start decorated).Yields s c (MayLie a) := by
  refine .skip fun _ c₁ h₁ => ?_
  extract_lets rest
  have hrest : ∀ d, a ≤ d → (rest ()).Yields s d (MayLie a) := by
    intro c₂ h₂
    refine .here (.skip fun _ c₃ h₃ => .peek rfl ?_)
    split
    · exact some_lies (by order) classFrom_starts
    · exact some_lies (by order) functionDeclaration_starts
    · refine .skip fun _ c₄ h₄ => .ite (fun _ => ?_) fun _ => .pure nofun
      exact some_lies (by order) functionDeclaration_starts
    · refine .skip fun _ c₄ h₄ => .ite (fun _ => .skip fun _ c₅ h₅ => .skip fun _ c₆ h₆ => ?_)
        fun _ => ?_
      · exact some_lies (by order) enumerationFrom_starts
      · exact some_lies (by order) variableDeclaration_starts
    · exact some_lies (by order) variableDeclaration_starts
    · refine .skip fun _ c₄ h₄ => .ite (fun _ => ?_) fun _ => .pure nofun
      exact some_lies (by order) variableDeclaration_starts
    · exact .pure nofun
  exact .ite (fun _ => .skip fun _ c₂ h₂ => hrest _ (by order)) fun _ => hrest _ (by order)

theorem exportedBinding?_starts :
    (exportedBinding? rules start).Yields s c (MayStart start a) := by
  have hsome : ∀ {p : Parser Outline} {d : Cursor}, p.Yields s d (Starts start a) →
      (do return some (← p)).Yields s d (MayStart start a) := by
    refine fun hp => .bind (hp.mono fun entry d _ hentry _ => .pure ?_)
    rintro _ ⟨⟩
    exact hentry
  have hstatement : ∀ {d : Cursor}, (do return some (.statement (← spanFrom start)) :
      Parser (Option Outline)).Yields s d (MayStart start a) := by
    refine .spanFrom (.pure ?_)
    rintro _ ⟨⟩
    exact ⟨rfl, .leaf⟩
  refine .skip fun _ _ _ => .ite (fun _ => .skip fun _ _ _ => .skip fun _ _ _ => ?_)
    fun _ => .skip fun _ _ _ => .ite (fun _ => ?_) fun _ => ?_
  · extract_lets isTypeOnly rest
    have hrest : ∀ d, (rest ()).Yields s d (MayStart start a) :=
      fun d => .skip fun _ _ _ => hsome importEquals_starts
    exact .ite (fun _ => .skip fun _ _ _ => hrest _) fun _ => hrest _
  · exact .skip fun _ _ _ => .skip fun _ _ _ => hstatement
  · refine .skip fun _ _ _ => .ite (fun _ => ?_) fun _ => .pure nofun
    exact .skip fun _ _ _ => .skip fun _ _ _ => .skip fun _ _ _ => hstatement

theorem exportedAnnounced?_starts (hrules : rules.Lays) :
    (exportedAnnounced? rules).Yields s c (MayStart c.position c) := by
  refine .peek rfl ?_
  split
  · exact .here (.attempt? fun s => announced?_starts hrules)
  · exact .pure nofun

theorem exportStatement_starts (hrules : rules.Lays) {decorated : Bool} :
    (exportStatement rules decorated).Yields s c (Starts c.position c) := by
  refine .here (.skip fun _ c₁ h₁ => .here (.skip fun _ c₂ h₂ => ?_))
  extract_lets rest
  have hrest : ∀ d, c ≤ d → (rest ()).Yields s d (Starts c.position c) := by
    intro c₃ h₃
    refine .bind ((exportedAnnounced?_starts hrules).mono fun found c₄ _ hfound _ => ?_)
    cases found with
    | some entry => exact exportedAt_starts ((hfound entry rfl).widen h₃)
    | none =>
    refine .bind ((exportedBinding?_starts (a := c)).mono fun found c₅ _ hfound _ => ?_)
    cases found with
    | some entry => exact .pure (hfound entry rfl)
    | none =>
    refine .skip fun typeOnly c₆ h₆ => .ite (fun _ => .skip fun _ c₇ h₇ => ?_) fun _ => ?_
    · refine .ite (fun _ => ?_) fun _ => ?_
      · exact exportDefault_starts.mono fun _ _ _ hentry => hentry.widen (by order)
      refine .bind ((exportedDeclaration?_lies (show c ≤ c₇ by order)).mono
        fun found c₈ h₈ hfound _ => ?_)
      cases found with
      | some entry =>
          obtain ⟨o, hentry⟩ := hfound entry rfl
          exact exportedAt_starts hentry
      | none => exact exportNames_starts
    · exact exportNames_starts
  refine .ite (fun _ => ?_) fun _ => hrest _ (by order)
  refine .bind ((declared?_starts hrules).mono fun found c₃ h₃ hfound _ => ?_)
  cases found with
  | some entry => exact exportedAt_starts ((hfound entry rfl).widen (by order))
  | none => exact hrest _ (by order)

end Exports

section Circle

/-- A statement without decorators starts with its first token. -/
theorem statement_opens (hrules : rules.Lays) {declarations : Bool} :
    (statement rules declarations).Yields s c fun entry d =>
      (entry.span.start = c.position ∨ c.token.kind = .mark "@") ∧ Laid c entry d := by
  refine .here (.bind (yields_decorators.mono fun decorated c₁ h₁ hdecorated _ => ?_))
  have hopens : ∀ {p : Parser Outline}, p.Yields s c₁ (Begins c.position c₁) →
      p.Yields s c₁ fun entry d =>
        (entry.span.start = c.position ∨ c.token.kind = .mark "@") ∧ Laid c entry d := by
    refine fun hp => hp.mono fun entry d _ hentry => ⟨?_, hentry.laid.widen h₁ le_rfl⟩
    rcases hdecorated with hmark | rfl
    · exact .inr hmark
    · exact .inl (hentry.start_eq.elim id id)
  have hanywhere : ∀ {p : Parser Outline}, p.Yields s c₁ (Begins c₁.position c₁) →
      p.Yields s c₁ fun entry d =>
        (entry.span.start = c.position ∨ c.token.kind = .mark "@") ∧ Laid c entry d :=
    fun hp => hopens (hp.mono fun _ _ _ hentry => hentry.anywhere)
  refine .peek rfl (.peek rfl (.ite (fun _ => .ite (fun _ => ?_) fun _ => ?_) fun _ => ?_))
  · exact hanywhere (importStatement_begins hrules)
  · refine .look peeks_markAfter fun _ => .look peeks_markAfter fun _ => .bind ?_
    refine yields_require.mono fun _ d _ hd _ => ?_
    obtain ⟨-, rfl⟩ := hd
    exact hopens (expressionStatement_begins hrules)
  refine .peek rfl (.ite (fun _ => .bind ?_) fun _ => hopens (plainStatement_begins hrules))
  refine yields_require.mono fun _ d _ hd _ => ?_
  obtain ⟨-, rfl⟩ := hd
  exact hanywhere ((exportStatement_starts hrules).mono fun _ _ _ hentry =>
    hentry.begins (.inl rfl))

theorem statement_placed (hrules : rules.Lays) {declarations : Bool} :
    (statement rules declarations).Yields s c fun entry d => c < d → Placed true c entry d := by
  refine ((statement_opens hrules).and (yields_statement_upTo hrules.toFit)).mono ?_
  intro entry d _ h hlt
  obtain ⟨⟨hstart, hlaid⟩, hupTo⟩ := h
  refine ⟨hstart.imp_right fun hmark => ⟨rfl, hmark, ?_⟩, (hupTo hlt).stop_eq, hlaid⟩
  exact (hupTo hlt).within.position_le

/-- The rules lay their entries out at every depth. -/
theorem rules_lay (depth : Nat) : (Grammar.rules depth).Lays := by
  induction depth with
  | zero => exact ⟨rules_fit 0, fun _ _ => .failure, fun _ _ => .failure⟩
  | succ depth ih =>
      refine ⟨rules_fit (depth + 1), fun _ _ => ?_, fun _ _ => statement_placed ih⟩
      exact yields_type_read.mono fun _ _ _ hform => hform.follow

/-- The statements of a document follow one another. -/
theorem yields_document_follows :
    document.Yields s c fun entries d => Follows true [] c entries d := by
  have hstatement : ∀ c, ((Grammar.rules (depthFor s.size)).statement true).Yields s c
      fun entry d => c < d → Spaced true [] c entry d :=
    fun c => ((rules_lay _).placed s c).mono fun _ d _ hentry hlt => ⟨d, hlt, hentry hlt, .refl d⟩
  refine .peek rfl ((yields_repeatUpTo peeks_atFinish.map hstatement _).mono
    fun entries d _ hall => .of_chain hall)

end Circle

end Grammar

/-- The statements of a document that is read follow one another up to a place, whose comments are
those of the document. -/
theorem readDocument_follows {t : Text} {entries : List Outline} {comments : List Comment}
    (h : readDocument t = some (entries, comments)) :
    ∃ z, Follows true [] (.atStart t) entries z ∧ comments = z.comments.reverse := by
  obtain ⟨read, hread, heq⟩ := Option.map_eq_some_iff.mp h
  obtain ⟨rfl, rfl⟩ := Prod.mk.inj heq
  have hfollows : Follows true []
      ((Cursor.atStart t).rebased.moved (Cursor.atStart t).position (Cursor.atStart t).comments)
      (Outline.movedAll (Cursor.atStart t).position read.value)
      (read.cursor.moved (Cursor.atStart t).position (Cursor.atStart t).comments) :=
    (Grammar.yields_document_follows read hread).moved
  rw [Cursor.moved_rebased_atStart] at hfollows
  exact ⟨_, hfollows, Cursor.moved_comments_reverse.symm⟩

end Syntax
end Typings
