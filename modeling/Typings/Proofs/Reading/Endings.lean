import Typings.Proofs.Reading.Declarations
import Typings.Proofs.Reading.Tokens

/-!
# How declarations end

A declaration ends with a semicolon or a closing brace, or what comes next shows that it ends:
a line break, a closing brace around it, or the end of the text.

**Names.**  Functions and variables are called by words, while a namespace can be called by any
string.

**Faults.**  A function with a body and a namespace without its closing brace are let pass by a
tolerant reading.  The rules that close the circles of the grammar say how these end.
-/

namespace Typings
namespace Syntax

open Syntax.Parser

section Ends

/-- Something that was read from the place `o` or a later one ends at the place `d`. -/
inductive Ends (o d : Cursor) : Prop
  /-- Its last token is a semicolon or a closing brace. -/
  | mark {b : Cursor} {text : String} :
      o ≤ b → b < d → b.token.kind = .mark text → text = ";" ∨ text = rightBrace →
      d.lastStop = b.token.span.stop → Ends o d
  | lineBreak : o < d → d.token.afterBreak = true → Ends o d
  | next : d.token.kind = .mark rightBrace ∨ d.token.kind = .finish → Ends o d

theorem Ends.widen {o o' d : Cursor} (h : Ends o d) (hle : o' ≤ o) : Ends o' d := by
  cases h with
  | mark hb hlt hkind htext hstop => exact .mark (hle.trans hb) hlt hkind htext hstop
  | lineBreak hlt hbreak => exact .lineBreak (lt_of_le_of_lt hle hlt) hbreak
  | next hnext => exact .next hnext

/-- A word that comes next at the place `o` or a later one. -/
def Spelled (o : Cursor) (word : String) : Prop :=
  ∃ b, o ≤ b ∧ b.token.kind = .word word

theorem Spelled.widen {o o' : Cursor} {word : String} (h : Spelled o word) (hle : o' ≤ o) :
    Spelled o' word := by
  obtain ⟨b, hb, hkind⟩ := h
  exact ⟨b, hle.trans hb, hkind⟩

end Ends

namespace Parser

variable {s : Setting} {o c : Cursor}

section Marks

/-- A mark that ends statements, if it comes next. -/
theorem eatMark_ends {text : String} (htext : text = ";" ∨ text = rightBrace) :
    (eatMark text).Yields s c fun ate d =>
      if ate then Ends c d else d = c ∧ c.token.kind ≠ .mark text := by
  refine yields_eatMark.mono fun ate d _ hate => ?_
  cases ate with
  | false => exact hate
  | true => exact .mark le_rfl hate.2.1 hate.1 htext hate.2.2

theorem expectMark_ends {text : String} (htext : text = ";" ∨ text = rightBrace) :
    (expectMark text).Yields s c fun _ d => Ends c d := by
  refine .bind ((eatMark_ends htext).mono fun ate d _ hate _ => ?_)
  refine yields_require.mono fun _ e _ h => ?_
  obtain ⟨rfl, rfl⟩ := h
  exact hate

/-- Where a statement may end without a semicolon, what comes next shows it. -/
theorem yields_atStatementEnd (hlt : o < c) (hmark : c.token.kind ≠ .mark ";") :
    atStatementEnd.Yields s c fun atEnd d => d = c ∧ (atEnd = true → Ends o c) := by
  refine .peek rfl ?_
  split
  · rename_i text hkind
    refine .pure ⟨rfl, fun hend => ?_⟩
    have hsemicolon : text ≠ ";" := by
      rintro rfl
      exact hmark hkind
    rcases Bool.or_eq_true_iff.mp hend with hend | hbreak
    · rcases Bool.or_eq_true_iff.mp hend with hend | hbrace
      · exact absurd (by simpa using hend) hsemicolon
      · have htext : text = rightBrace := by simpa using hbrace
        exact .next (.inl (htext ▸ hkind))
    · exact .lineBreak hlt hbreak
  · rename_i hkind
    exact .pure ⟨rfl, fun _ => .next (.inr hkind)⟩
  · exact .pure ⟨rfl, fun hbreak => .lineBreak hlt hbreak⟩

/-- A statement that moved ends where its end is expected. -/
theorem expectStatementEnd_ends (hlt : o < c) :
    expectStatementEnd.Yields s c fun _ d => Ends o d := by
  have hend : eatStatementEnd.Yields s c fun ended d => ended = true → Ends o d := by
    refine .bind ((eatMark_ends (.inl rfl)).mono fun ate d hle hate _ => ?_)
    refine .ite (fun heaten => ?_) fun hleft => ?_
    · rw [if_pos heaten] at hate
      exact .pure fun _ => hate.widen hlt.le
    · rw [if_neg hleft] at hate
      obtain ⟨rfl, hmark⟩ := hate
      refine (yields_atStatementEnd hlt hmark).mono fun atEnd e _ h hend => ?_
      obtain ⟨rfl, hends⟩ := h
      exact hends hend
  refine .bind (hend.mono fun ended d _ hended _ => ?_)
  refine yields_require.mono fun _ e _ h => ?_
  obtain ⟨rfl, rfl⟩ := h
  exact hended rfl

theorem peeks_complain : complain.Peeks :=
  fun _ _ => .peek rfl (.ite (fun _ => .pure rfl) fun _ => .failure)

theorem peeks_complainIf {condition : Bool} : (complainIf condition).Peeks :=
  fun s c => .ite (fun _ => peeks_complain s c) fun _ => .pure rfl

end Marks

end Parser

/-- What the rules that close the circles of the grammar say of ends and of names. -/
structure Rules.Closing (rules : Rules) : Prop where
  block : ∀ s c, rules.block.Yields s c fun _ d => Ends c d
  nameSpace : ∀ start s c, (rules.nameSpace start).Yields s c fun _ d => Ends c d
  binding : ∀ s c, rules.binding.Yields s c fun bound _ => ∀ word, bound = .name word →
    Spelled c word

/-- The entry declares a function or a variable. -/
def Form.IsValue (form : Form) : Prop :=
  (∃ signature, form = .function signature) ∨ ∃ ascription, form = .variable ascription

/-- If the entry is a function or a variable with a name, the name is a word that comes next at
the place `o` or a later one. -/
def Named (o : Cursor) (entry : Outline) : Prop :=
  entry.form.IsValue → ∀ name, entry.name = some name → ∃ word, name = word.toList ∧ Spelled o word

theorem Named.widen {o o' : Cursor} {entry : Outline} (h : Named o entry) (hle : o' ≤ o) :
    Named o' entry := by
  intro hvalue name hname
  obtain ⟨word, hword, hspelled⟩ := h hvalue name hname
  exact ⟨word, hword, hspelled.widen hle⟩

/-- The entry was read from the place `o` or a later one up to the place `d`, as a declaration
that is not exported by itself. -/
structure Declares (o : Cursor) (entry : Outline) (d : Cursor) : Prop where
  exported : entry.exported = false
  ends : Ends o d
  named : Named o entry

theorem Declares.widen {o o' d : Cursor} {entry : Outline} (h : Declares o entry d)
    (hle : o' ≤ o) : Declares o' entry d where
  exported := h.exported
  ends := h.ends.widen hle
  named := h.named.widen hle

namespace Grammar

variable {rules : Rules} {s : Setting} {o c : Cursor} {start : Nat}

section Bodies

theorem blockStatements_ends : (blockStatements rules).Yields s c fun _ d => Ends c d := by
  refine .skip fun _ c₁ h₁ => .peek rfl (.ite (fun hfinish => ?_) fun _ => ?_)
  · refine .look peeks_complain fun _ => .pure ?_
    exact .next (.inr (by simpa using hfinish))
  · refine .bind ((expectMark_ends (.inr rfl)).mono fun _ d _ hd _ => .pure ?_)
    exact hd.widen h₁

theorem block_ends : (block rules).Yields s c fun _ d => Ends c d := by
  refine .skip fun _ c₁ h₁ => .bind (.within (blockStatements_ends.mono fun _ d _ hd _ => .pure ?_))
  exact hd.widen h₁

theorem nameSpaceBody_ends : (nameSpaceBody rules).Yields s c fun _ d => Ends c d :=
  .skip fun _ _ h₁ => .within (blockStatements_ends.mono fun _ _ _ hd => hd.widen h₁)

theorem functionBody_ends (hrules : rules.Closing) {isAsync isGenerator : Bool} (hlt : o < c) :
    (functionBody rules isAsync isGenerator).Yields s c fun _ d => Ends o d := by
  refine .peek rfl (.ite (fun _ => .look peeks_complain fun _ => ?_) fun _ => ?_)
  · refine .bind (.within ((hrules.block _ c).mono fun _ d _ hd _ => .pure ?_))
    exact hd.widen hlt.le
  · exact .bind ((expectStatementEnd_ends hlt).mono fun _ d _ hd _ => .pure hd)

theorem functionParts_ends (hrules : rules.Closing) {isAsync isGenerator : Bool} (hle : o ≤ c) :
    (functionParts rules isAsync isGenerator).Yields s c fun _ d => Ends o d := by
  refine .skip fun _ c₁ h₁ => .bind (expectMark_moves.mono fun _ c₂ _ h₂ _ => ?_)
  refine .skip fun _ c₃ h₃ => .skip fun _ c₄ h₄ => .skip fun _ c₅ h₅ => ?_
  refine .bind ((functionBody_ends hrules (show o < c₅ by order)).mono fun _ d _ hd _ => ?_)
  exact .look peeks_complainIf fun _ => .pure hd

end Bodies

section Names

theorem identifier_spelled : identifier.Yields s c fun word _ => Spelled c word := by
  refine .peek rfl ?_
  split
  · rename_i word hkind
    exact .skip fun _ _ _ => .skip fun _ _ _ => .skip fun _ _ _ => .pure ⟨c, le_rfl, hkind⟩
  · exact .failure

theorem bindingName_spelled : bindingName.Yields s c fun word _ => Spelled c word := by
  refine .bind (identifier_spelled.mono fun word d _ hword _ => ?_)
  exact .skip fun _ _ _ => .skip fun _ _ _ => .skip fun _ _ _ => .skip fun _ _ _ =>
    .skip fun _ _ _ => .pure hword

theorem binding_spelled :
    (binding rules).Yields s c fun bound _ => ∀ word, bound = .name word → Spelled c word := by
  have hpattern : ∀ {p : Parser Unit} {d : Cursor},
      (p >>= fun _ => pure Binding.pattern).Yields s d fun bound _ =>
        ∀ word, bound = .name word → Spelled c word :=
    .skip fun _ _ _ => .pure nofun
  refine .peek rfl ?_
  split
  · refine .bind (bindingName_spelled.mono fun word d _ hword _ => .pure ?_)
    rintro _ ⟨⟩
    exact hword
  · exact .skip fun _ _ _ => .skip fun _ _ _ => .skip fun _ _ _ => .skip fun _ _ _ => .pure nofun
  · exact .skip fun _ _ _ => .skip fun _ _ _ => .skip fun _ _ _ => .skip fun _ _ _ =>
      .skip fun _ _ _ => .pure nofun
  · exact .failure

theorem declaredName_spelled {required : Bool} :
    (declaredName required).Yields s c fun name _ => ∀ word, name = some word →
      Spelled c word := by
  have hname : ∀ {d : Cursor}, c ≤ d → (do return some (← bindingName) :
      Parser (Option String)).Yields s d fun name _ => ∀ word, name = some word →
        Spelled c word := by
    refine fun hd => .bind (bindingName_spelled.mono fun word e _ hword _ => .pure ?_)
    rintro _ ⟨⟩
    exact hword.widen hd
  refine .ite (fun _ => hname le_rfl) fun _ => ?_
  refine .skip fun _ c₁ h₁ => .skip fun _ c₂ h₂ => ?_
  exact .ite (fun _ => hname (by order)) fun _ => .pure nofun

end Names

section Functions

theorem functionFrom_declares (hrules : rules.Closing) {isAsync nameRequired : Bool} :
    (functionFrom rules start isAsync nameRequired).Yields s c fun found d =>
      Declares c found.1 d := by
  refine .skip fun _ c₁ h₁ => .skip fun isGenerator c₂ h₂ => ?_
  refine .bind (declaredName_spelled.mono fun name c₃ h₃ hname _ => ?_)
  refine .bind ((functionParts_ends hrules (show c ≤ c₃ by order)).mono fun parts d _ hd _ => ?_)
  refine .spanFrom (.pure ⟨rfl, hd, fun _ name hsome => ?_⟩)
  obtain ⟨word, hword, rfl⟩ := Option.map_eq_some_iff.mp hsome
  exact ⟨word, rfl, (hname word hword).widen (by order)⟩

theorem functionDeclaration_declares (hrules : rules.Closing) :
    (functionDeclaration rules).Yields s c (Declares c) :=
  .here (.skip fun _ _ h => .bind ((functionFrom_declares hrules).mono fun _ _ _ hentry _ =>
    .pure (hentry.widen h)))

theorem defaultFunction_declares (hrules : rules.Closing) :
    (defaultFunction rules).Yields s c (Declares c) :=
  .here (.skip fun _ _ h => .bind ((functionFrom_declares hrules).mono fun _ _ _ hentry _ =>
    .pure (hentry.widen h)))

end Functions

section Variables

/-- A name that a declarator gives was spelled. -/
theorem declarator_spelled (hrules : rules.Closing) {lexical looping : Bool} :
    (declarator rules lexical looping).Yields s c fun found _ =>
      ∀ word, found.name = some word → Spelled c word := by
  refine .skip fun _ c₁ h₁ => .skip fun _ c₂ h₂ => ?_
  refine .bind ((hrules.binding _ c₂).mono fun bound c₃ h₃ hbound _ => ?_)
  extract_lets name rest
  have hname : ∀ word, name = some word → Spelled c word := by
    intro word hword
    cases bound with
    | name other =>
        obtain rfl : other = word := by simpa [name] using hword
        exact (hbound other rfl).widen (by order)
    | pattern | withDefault | rest => simp [name] at hword
  have hrest : ∀ d, (rest ()).Yields s d fun found _ =>
      ∀ word, found.name = some word → Spelled c word := by
    intro d
    refine .skip fun ascription c₄ h₄ => .skip fun _ c₅ h₅ => ?_
    exact .either fun _ _ _ => .ite (fun _ => .skip fun _ _ _ => .pure hname) fun _ => .pure hname
  exact .ite (fun _ => .skip fun _ _ _ => hrest _) fun _ => hrest _

/-- What the first of some declarators names was spelled. -/
theorem variableList_spelled (hrules : rules.Closing) {looping : Bool} :
    (variableList rules looping).Yields s c fun found _ =>
      ∀ first, found.head? = some first → ∀ word, first.name = some word → Spelled c word := by
  have hlist : ∀ lexical fuel s c, (declaratorsUpTo rules lexical looping fuel).Yields s c
      fun found _ => ∀ first, found.head? = some first → ∀ word, first.name = some word →
        Spelled c word := by
    intro lexical fuel s c
    cases fuel with
    | zero => exact .failure
    | succ fuel =>
        refine .skip fun _ c₁ h₁ => .skip fun _ c₂ h₂ => .ite (fun _ => ?_) fun _ => ?_
        · exact .skip fun _ _ _ => .pure nofun
        · refine .bind ((declarator_spelled hrules).mono fun first c₃ h₃ hfirst _ => ?_)
          have hname : ∀ word, first.name = some word → Spelled c word :=
            fun word hword => (hfirst word hword).widen (by order)
          refine .skip fun _ c₄ h₄ => .ite (fun _ => .skip fun _ _ _ => .pure ?_) fun _ => .pure ?_
          all_goals
            rintro _ ⟨⟩
            exact hname
  refine .skip fun word c₁ h₁ => .within (.skip fun _ c₂ h₂ => ?_)
  refine (hlist _ _ _ _).mono fun found d _ hfound first hfirst word hword => ?_
  exact (hfound first hfirst word hword).widen (by order)

theorem variableDeclaration_declares (hrules : rules.Closing) :
    (variableDeclaration rules start).Yields s c (Declares c) := by
  have hlist : (variableList rules false).Yields s c fun found d => c < d ∧
      ∀ first, found.head? = some first → ∀ word, first.name = some word → Spelled c word :=
    fun r hr => ⟨yields_variableList r hr, variableList_spelled hrules r hr⟩
  refine .bind (hlist.mono fun found c₁ _ hfound _ => ?_)
  refine .bind ((expectStatementEnd_ends hfound.1).mono fun _ d _ hd _ => .spanFrom (.pure ?_))
  refine ⟨rfl, hd, fun _ name hname => ?_⟩
  obtain ⟨word, hword, rfl⟩ := Option.map_eq_some_iff.mp hname
  obtain ⟨first, hfirst, hword⟩ := Option.bind_eq_some_iff.mp hword
  exact ⟨word, rfl, hfound.2 first hfirst word hword⟩

theorem usingDeclaration_declares :
    (usingDeclaration rules start).Yields s c fun entry _ => entry.exported = false :=
  .skip fun _ _ _ => .skip fun _ _ _ => .skip fun _ _ _ => .skip fun _ _ _ => .skip fun _ _ _ =>
    .spanFrom (.pure rfl)

end Variables

section Braces

/-- What is neither a function nor a variable can have any name. -/
theorem declares_of_form {form : Form} {name : Option Text} {span : Span} {bodyFrom : Option Nat}
    {children : List Outline} {d : Cursor} (hform : ¬ form.IsValue) (hends : Ends o d) :
    Declares o ⟨form, name, false, span, bodyFrom, children⟩ d :=
  ⟨rfl, hends, fun hvalue => absurd hvalue hform⟩

theorem classBody_ends : (classBody rules).Yields s c fun _ d => Ends c d := by
  refine .skip fun _ c₁ h₁ => .skip fun _ c₂ h₂ => ?_
  refine .bind ((expectMark_ends (.inr rfl)).mono fun _ d _ hd _ => .pure ?_)
  exact hd.widen (by order)

theorem classFrom_declares {nameRequired isAbstract : Bool} :
    (classFrom rules start nameRequired isAbstract).Yields s c (Declares c) := by
  refine .skip fun _ c₁ h₁ => .skip fun _ c₂ h₂ => .skip fun _ c₃ h₃ => .skip fun _ c₄ h₄ => ?_
  refine .skip fun _ c₅ h₅ => .skip fun _ c₆ h₆ => .skip fun _ c₇ h₇ => ?_
  refine .bind (.within (classBody_ends.mono fun members d _ hd _ => .spanFrom (.pure ?_)))
  exact declares_of_form (by simp [Form.IsValue]) (hd.widen (by order))

theorem typeMembers_ends : (typeMembers rules).Yields s c fun _ d => Ends c d := by
  refine .within (.skip fun _ c₁ h₁ => .skip fun _ c₂ h₂ => ?_)
  refine .bind ((expectMark_ends (.inr rfl)).mono fun _ d _ hd _ => .pure ?_)
  exact hd.widen (by order)

theorem interfaceFrom_declares : (interfaceFrom rules start).Yields s c (Declares c) := by
  refine .skip fun name c₁ h₁ => .skip fun _ c₂ h₂ => .skip fun _ c₃ h₃ => .skip fun _ c₄ h₄ => ?_
  extract_lets finish rest
  have hfinish : ∀ d, c ≤ d → (finish ()).Yields s d (Declares c) := by
    refine fun d hd => .here (.bind (typeMembers_ends.mono fun members e _ he _ => ?_))
    exact .spanFrom (.pure (declares_of_form (by simp [Form.IsValue]) (he.widen hd)))
  have hrest : ∀ d, c ≤ d → (rest ()).Yields s d (Declares c) := by
    refine fun d hd => .skip fun _ c₅ h₅ => .ite (fun _ => ?_) fun _ => hfinish _ (by order)
    exact .skip fun _ c₆ h₆ => .skip fun _ c₇ h₇ => hfinish _ (by order)
  exact .ite (fun _ => .skip fun _ c₅ h₅ => hrest _ (by order)) fun _ => hrest _ (by order)

theorem typeAliasFrom_declares : (typeAliasFrom rules start).Yields s c (Declares c) := by
  refine .bind (anyWord_moves.mono fun name c₁ _ h₁ _ => .skip fun _ c₂ h₂ => ?_)
  refine .skip fun _ c₃ h₃ => .skip fun form c₄ h₄ => ?_
  refine .bind ((expectStatementEnd_ends (show c < c₄ by order)).mono fun _ d _ hd _ => ?_)
  exact .spanFrom (.pure (declares_of_form (by simp [Form.IsValue]) hd))

theorem enumerationFrom_declares : (enumerationFrom rules start).Yields s c (Declares c) := by
  refine .here (.skip fun name c₁ h₁ => .skip fun _ c₂ h₂ => .skip fun members c₃ h₃ => ?_)
  refine .bind ((expectMark_ends (.inr rfl)).mono fun _ d _ hd _ => .spanFrom (.pure ?_))
  exact declares_of_form (by simp [Form.IsValue]) (hd.widen (by order))

end Braces

section NameSpaces

theorem braces_declare {name : Text} (hle : o ≤ c) :
    (do
      let bodyFrom ← here
      let statements ← nameSpaceBody rules
      let span ← spanFrom start
      return ⟨.nameSpace, some name, false, span, some bodyFrom, statements⟩ :
        Parser Outline).Yields s c (Declares o) := by
  refine .here (.bind (nameSpaceBody_ends.mono fun statements d _ hd _ => .spanFrom (.pure ?_)))
  exact declares_of_form (by simp [Form.IsValue]) (hd.widen hle)

theorem nameSpaceFrom_declares (hrules : rules.Closing) :
    (nameSpaceFrom rules start).Yields s c (Declares c) := by
  refine .skip fun name c₁ h₁ => .skip fun _ c₂ h₂ => .ite (fun _ => ?_) fun _ => ?_
  · refine .here (.bind ((hrules.nameSpace _ s c₂).mono fun _ d _ hd _ => .spanFrom (.pure ?_)))
    exact declares_of_form (by simp [Form.IsValue]) (hd.widen (by order))
  · exact braces_declare (by order)

theorem ambientModule_declares : (ambientModule rules start).Yields s c (Declares c) := by
  refine .bind (yields_eatWord.mono fun ate c₁ _ hate _ => ?_)
  extract_lets rest
  have hrest : ∀ name d, c < d → (rest name).Yields s d (Declares c) := by
    refine fun name c₂ h₂ => .skip fun _ c₃ h₃ => .ite (fun _ => ?_) fun _ => ?_
    · exact braces_declare (by order)
    · refine .bind ((expectStatementEnd_ends (show c < c₃ by order)).mono fun _ d _ hd _ => ?_)
      exact .spanFrom (.pure (declares_of_form (by simp [Form.IsValue]) hd))
  refine .ite (fun heaten => ?_) fun _ => ?_
  · rw [if_pos heaten] at hate
    exact .skip fun _ c₂ h₂ => hrest _ c₂ (by order)
  · exact .bind (stringLiteral_moves.mono fun _ c₂ _ hlt _ => hrest _ c₂ (by order))

end NameSpaces

section Announced

/-- A declaration that was looked for. -/
def MayDeclare (o : Cursor) (found : Option Outline) (d : Cursor) : Prop :=
  ∀ entry, found = some entry → Declares o entry d

theorem some_declares {p : Parser Outline} (hle : o ≤ c) (h : p.Yields s c (Declares c)) :
    (do return some (← p)).Yields s c (MayDeclare o) := by
  refine .bind (h.mono fun entry d _ hentry _ => .pure ?_)
  rintro _ ⟨⟩
  exact hentry.widen hle

theorem announced?_declares (hrules : rules.Closing) {word : String} {pending : Bool}
    (hle : o ≤ c) : (announced? rules start word pending).Yields s c (MayDeclare o) := by
  refine .skip fun _ c₁ h₁ => ?_
  extract_lets sameLine pass
  split
  · refine .skip fun _ c₂ h₂ => .ite (fun _ => .skip fun _ c₃ h₃ => ?_) fun _ => .pure nofun
    exact some_declares (by order) classFrom_declares
  · refine .skip fun _ c₂ h₂ => .ite (fun _ => .skip fun _ c₃ h₃ => ?_) fun _ => .pure nofun
    exact some_declares (by order) enumerationFrom_declares
  · refine .skip fun _ c₂ h₂ => .ite (fun _ => .skip fun _ c₃ h₃ => ?_) fun _ => .pure nofun
    exact some_declares (by order) interfaceFrom_declares
  · refine .ite (fun _ => .pure nofun) fun _ => .skip fun _ c₂ h₂ => .skip fun _ c₃ h₃ => ?_
    refine .ite (fun _ => some_declares (by order) ambientModule_declares) fun _ => ?_
    refine .skip fun _ c₄ h₄ => ?_
    refine .ite (fun _ => some_declares (by order) (nameSpaceFrom_declares hrules)) fun _ => ?_
    exact .ite (fun _ => .failure) fun _ => .pure nofun
  · refine .skip fun _ c₂ h₂ => .ite (fun _ => .skip fun _ c₃ h₃ => ?_) fun _ => .pure nofun
    exact some_declares (by order) (nameSpaceFrom_declares hrules)
  · refine .skip fun _ c₂ h₂ => .ite (fun _ => .skip fun _ c₃ h₃ => ?_) fun _ => .pure nofun
    exact some_declares (by order) typeAliasFrom_declares
  · exact .pure nofun

theorem declared?_declares (hrules : rules.Closing) (hle : o ≤ c) :
    (declared? rules start).Yields s c (MayDeclare o) := by
  refine .peek rfl ?_
  split
  · refine .bind ((functionDeclaration_declares hrules).mono fun entry d _ hentry _ =>
      .spanFrom (.pure ?_))
    rintro _ ⟨⟩
    exact ⟨hentry.exported, hentry.ends.widen hle, hentry.named.widen hle⟩
  · exact some_declares hle classFrom_declares
  · refine .skip fun _ c₁ h₁ => .ite (fun _ => ?_) fun _ => ?_
    · refine .skip fun _ c₂ h₂ => .skip fun _ c₃ h₃ => ?_
      exact some_declares (by order) enumerationFrom_declares
    · exact some_declares (by order) (variableDeclaration_declares hrules)
  · exact some_declares hle (variableDeclaration_declares hrules)
  · exact some_declares hle (variableDeclaration_declares hrules)
  · exact some_declares hle ambientModule_declares
  · exact announced?_declares hrules hle
  · exact .pure nofun

end Announced

end Grammar

end Syntax
end Typings
