import Typings.Proofs.Reading.Endings
import Typings.Proofs.Reading.Statements

/-!
# Between the entries of a body

The entries of a body are read one after the other from its brace on.  A comma may come behind an
entry of an enumeration, and semicolons behind an entry of a class and in front of its first one.
Nothing else stands between two entries.

**Starts.**  An entry starts with the token at which its reading starts.  Only a statement can start
later, behind its decorators.
-/

namespace Typings
namespace Syntax

open Syntax.Parser

section Bodies

/-- Only tokens that are one of the marks stand from the first place up to the second. -/
inductive Skips (marks : List Char) : Cursor → Cursor → Prop
  | refl (c : Cursor) : Skips marks c c
  | step {c d e : Cursor} {text : String} {x : Char} :
      c.token.kind = .mark text → text.toList = [x] → x ∈ marks → c.Next d → Skips marks d e →
      Skips marks c e

/-- The entry starts at the place, or decorators may come in front of it and start there. -/
def Opens (decorates : Bool) (c : Cursor) (entry : Outline) : Prop :=
  entry.span.start = c.position ∨
    decorates = true ∧ c.token.kind = .mark "@" ∧ c.position ≤ entry.span.start

/-- Whether decorators may come in front of the entries of a body. -/
def Form.decorates : Form → Bool
  | .nameSpace => true
  | _ => false

theorem Form.decorates_moved (n : Nat) (form : Form) :
    (form.moved n).decorates = form.decorates := by
  cases form <;> rfl

mutual

/-- The children of the entry were read between the two places, behind the brace of its body. -/
inductive Laid : Cursor → Outline → Cursor → Prop
  | leaf {a b : Cursor} {form : Form} {name : Option Text} {exported : Bool} {span : Span}
      {bodyFrom : Option Nat} :
      Laid a ⟨form, name, exported, span, bodyFrom, []⟩ b
  | body {a o c e b : Cursor} {form : Form} {name : Option Text} {exported : Bool} {span : Span}
      {children : List Outline} :
      form ≠ .classDef → form ≠ .enumeration → a ≤ o → o.token.kind = .mark leftBrace →
      o.Next c → Follows form.decorates [] c children e → e ≤ b →
      Laid a ⟨form, name, exported, span, some o.position, children⟩ b
  | classDef {a o o' c e b : Cursor} {name : Option Text} {exported : Bool} {span : Span}
      {children : List Outline} :
      a ≤ o → o.token.kind = .mark leftBrace → o.Next o' → Skips [';'] o' c →
      Follows false [';'] c children e → e ≤ b →
      Laid a ⟨.classDef, name, exported, span, none, children⟩ b
  | enumeration {a n o c e b : Cursor} {name : Option Text} {exported : Bool} {span : Span}
      {children : List Outline} :
      a ≤ n → n.Next o → o.token.kind = .mark leftBrace → o.Next c →
      Follows false [','] c children e → e ≤ b →
      Laid a ⟨.enumeration, name, exported, span, some n.position, children⟩ b

/-- The entries were read one after the other between the two places, with only marks behind
each. -/
inductive Follows : Bool → List Char → Cursor → List Outline → Cursor → Prop
  | nil {decorates : Bool} {marks : List Char} {c d : Cursor} :
      c ≤ d → Follows decorates marks c [] d
  | cons {decorates : Bool} {marks : List Char} {c b d e : Cursor} {entry : Outline}
      {rest : List Outline} :
      Opens decorates c entry → c < b → entry.span.stop = b.lastStop → Laid c entry b →
      Skips marks b d → Follows decorates marks d rest e →
      Follows decorates marks c (entry :: rest) e

end

/-- The entry was read from the first place up to the second. -/
structure Placed (decorates : Bool) (c : Cursor) (entry : Outline) (d : Cursor) : Prop where
  opens : Opens decorates c entry
  stop : entry.span.stop = d.lastStop
  laid : Laid c entry d

variable {decorates : Bool} {marks : List Char} {a a' b b' c d e : Cursor}
variable {entry : Outline} {entries : List Outline}

theorem Skips.le (h : Skips marks c d) : c ≤ d := by
  induction h with
  | refl => exact le_rfl
  | step _ _ _ hnext _ ih => exact hnext.lt.le.trans ih

theorem Skips.trans (h : Skips marks c d) (h' : Skips marks d e) : Skips marks c e := by
  induction h with
  | refl => exact h'
  | step hmark htext hmem hnext _ ih => exact .step hmark htext hmem hnext (ih h')

theorem Follows.le (h : Follows decorates marks c entries d) : c ≤ d := by
  induction entries generalizing c with
  | nil =>
      cases h with
      | nil hle => exact hle
  | cons entry rest ih =>
      cases h with
      | cons _ hlt _ _ hskips hrest => exact hlt.le.trans (hskips.le.trans (ih hrest))

/-- Children lie between wider places too. -/
theorem Laid.widen (h : Laid a entry b) (ha : a' ≤ a) (hb : b ≤ b') : Laid a' entry b' := by
  cases h with
  | leaf => exact .leaf
  | body hclass henum hle hmark hnext hall he =>
      exact .body hclass henum (ha.trans hle) hmark hnext hall (he.trans hb)
  | classDef hle hmark hnext hskips hall he =>
      exact .classDef (ha.trans hle) hmark hnext hskips hall (he.trans hb)
  | enumeration hle hname hmark hnext hall he =>
      exact .enumeration (ha.trans hle) hname hmark hnext hall (he.trans hb)

/-- Children do not depend on the span of their entry, or on its mark. -/
theorem Laid.respanned (h : Laid a entry b) (exported : Bool) (span : Span) :
    Laid a { entry with exported := exported, span := span } b := by
  cases h with
  | leaf => exact .leaf
  | body hclass henum hle hmark hnext hall he => exact .body hclass henum hle hmark hnext hall he
  | classDef hle hmark hnext hskips hall he => exact .classDef hle hmark hnext hskips hall he
  | enumeration hle hname hmark hnext hall he => exact .enumeration hle hname hmark hnext hall he

theorem IsMember.placed (h : IsMember c.position entry d) :
    Placed decorates c entry d := by
  obtain ⟨name, rfl⟩ := h
  exact ⟨.inl rfl, rfl, .leaf⟩

/-- The entry was read from the first place, and only marks stand behind it up to the second. -/
def Spaced (decorates : Bool) (marks : List Char) (c : Cursor) (entry : Outline) (d : Cursor) :
    Prop :=
  ∃ b, c < b ∧ Placed decorates c entry b ∧ Skips marks b d

theorem Follows.of_chain (h : Chain (Spaced decorates marks) c entries d) :
    Follows decorates marks c entries d := by
  induction h with
  | nil => exact .nil le_rfl
  | cons hitem _ ih =>
      obtain ⟨b, hlt, hplaced, hskips⟩ := hitem
      exact .cons hplaced.opens hlt hplaced.stop hplaced.laid hskips ih

theorem Follows.widen (h : Follows decorates marks c entries d) (hd : d ≤ e) :
    Follows decorates marks c entries e := by
  induction entries generalizing c with
  | nil =>
      cases h with
      | nil hle => exact .nil (hle.trans hd)
  | cons entry rest ih =>
      cases h with
      | cons hopens hlt hstop hlaid hskips hrest =>
          exact .cons hopens hlt hstop hlaid hskips (ih hrest)

/-- Members with semicolons between them, where each semicolon was read as no member. -/
theorem Follows.of_chain_option {found : List (Option Outline)}
    (h : Chain (fun c item d => (item = none → Skips marks c d) ∧
      ∀ entry, item = some entry → c < d ∧ Placed decorates c entry d) c found d) :
    ∃ o, Skips marks c o ∧ Follows decorates marks o (found.filterMap id) d := by
  induction h with
  | nil => exact ⟨_, .refl _, .nil le_rfl⟩
  | @cons c d e item rest hitem _ ih =>
      obtain ⟨o, hskips, hrest⟩ := ih
      cases item with
      | none => exact ⟨o, (hitem.1 rfl).trans hskips, hrest⟩
      | some entry =>
          obtain ⟨hlt, hplaced⟩ := hitem.2 entry rfl
          exact ⟨c, .refl c, .cons hplaced.opens hlt hplaced.stop hplaced.laid hskips hrest⟩

end Bodies

section Moving

variable {n : Nat} {before : List Comment} {c d : Cursor}

theorem Cursor.Next.moved (h : c.Next d) : (c.moved n before).Next (d.moved n before) := by
  obtain ⟨size, length, hhold, hstop, rfl⟩ := h
  refine ⟨size, length, hhold, ?_, (Cursor.past_moved n before size c.token.kind length c).symm⟩
  have hmoved : c.position + length + n = c.token.span.stop + n := congrArg (· + n) hstop
  simp only [Cursor.moved_position, Cursor.moved_span, Span.moved]
  omega

theorem Skips.moved {marks : List Char} (h : Skips marks c d) :
    Skips marks (c.moved n before) (d.moved n before) := by
  induction h with
  | refl => exact .refl _
  | step hmark htext hmem hnext _ ih => exact .step hmark htext hmem hnext.moved ih

theorem Opens.moved {decorates : Bool} {entry : Outline} (h : Opens decorates c entry) :
    Opens decorates (c.moved n before) (entry.moved n) := by
  rw [Opens, Outline.moved_span]
  rcases h with hstart | ⟨hdecorates, hmark, hle⟩
  · exact .inl (congrArg (· + n) hstart)
  · exact .inr ⟨hdecorates, hmark, Nat.add_le_add_right hle n⟩

mutual

/-- A body that was read between two places is read between the same places further on. -/
theorem Laid.moved {a b : Cursor} {entry : Outline} (h : Laid a entry b) :
    Laid (a.moved n before) (entry.moved n) (b.moved n before) := by
  cases h with
  | leaf => exact .leaf
  | @body _ _ _ _ _ form _ _ _ _ hclass henum hle hmark hnext hall he =>
      have hmoved := hall.moved
      rw [← Form.decorates_moved n form] at hmoved
      exact .body (fun heq => hclass (Form.eq_of_moved_eq (by simp) (by simp) heq))
        (fun heq => henum (Form.eq_of_moved_eq (by simp) (by simp) heq))
        (Cursor.moved_le hle) hmark hnext.moved hmoved (Cursor.moved_le he)
  | classDef hle hmark hnext hskips hall he =>
      exact .classDef (Cursor.moved_le hle) hmark hnext.moved hskips.moved hall.moved
        (Cursor.moved_le he)
  | @enumeration _ m _ _ _ _ _ _ _ _ hle hname hmark hnext hall he =>
      exact .enumeration (n := m.moved n before) (Cursor.moved_le hle) hname.moved hmark
        hnext.moved hall.moved (Cursor.moved_le he)

theorem Follows.moved {decorates : Bool} {marks : List Char} {c d : Cursor}
    {entries : List Outline} (h : Follows decorates marks c entries d) :
    Follows decorates marks (c.moved n before) (Outline.movedAll n entries) (d.moved n before) := by
  cases h with
  | nil hle => exact .nil (Cursor.moved_le hle)
  | cons hopens hlt hstop hlaid hskips hrest =>
      refine .cons hopens.moved (Cursor.moved_lt hlt) ?_ hlaid.moved hskips.moved hrest.moved
      rw [Outline.moved_span]
      exact congrArg (· + n) hstop

end

end Moving

/-- The members that a type passes on follow one another from the brace on that it starts with. -/
def MembersFollow (c : Cursor) (form : TypeForm) (d : Cursor) : Prop :=
  ∀ members, form.members = some members → ∃ o o' e, c ≤ o ∧ form.span.start = o.position ∧
    o.token.kind = .mark leftBrace ∧ o.Next o' ∧ Follows false [] o' members e ∧ e ≤ d

/-- The entry starts at the position, and its children were read between the two places. -/
structure Starts (start : Nat) (c : Cursor) (entry : Outline) (d : Cursor) : Prop where
  start_eq : entry.span.start = start
  laid : Laid c entry d

theorem Starts.widen {start : Nat} {c c' d : Cursor} {entry : Outline}
    (h : Starts start c entry d) (hle : c' ≤ c) : Starts start c' entry d :=
  ⟨h.start_eq, h.laid.widen hle le_rfl⟩

/-- What the rules that close the circles of the grammar give, and where its parts stand. -/
structure Rules.Lays (rules : Rules) : Prop extends rules.Fit where
  members : ∀ s c, rules.type.Yields s c (MembersFollow c)
  placed : ∀ s c, (rules.statement true).Yields s c fun entry d => c < d →
    Placed true c entry d

namespace Grammar

variable {rules : Rules} {s : Setting} {o c : Cursor} {start : Nat}

section Members

/-- The members between the braces of an object type. -/
theorem typeMembers_follow :
    (typeMembers rules).Yields s c fun members d => ∃ o e, c.token.kind = .mark leftBrace ∧
      c.Next o ∧ Follows false [] o members e ∧ e ≤ d := by
  refine .within (.bind (yields_expectMark_next.mono fun _ o _ hopen _ => ?_))
  have hmember : ∀ c s, (typeMember rules).Yields s c fun entry d =>
      c < d → Spaced false [] c entry d :=
    fun _ _ => yields_typeMember.mono fun _ d _ hentry hlt => ⟨d, hlt, hentry.placed, .refl d⟩
  refine .bind ((yields_repeatWhile peeks_atMark.map fun c => hmember c _).mono
    fun members e _ hmembers _ => .skip fun _ d hd => .pure ?_)
  exact ⟨o, e, hopen.1, hopen.2, .of_chain hmembers, hd⟩

theorem MembersRead.follow {form : TypeForm} {d : Cursor} (h : MembersRead rules c form d) :
    MembersFollow c form d := by
  intro members heq
  obtain ⟨o, s, r, hle, hstart, hr, rfl, hd⟩ := h members heq
  obtain ⟨o', e, hmark, hnext, hall, he⟩ := typeMembers_follow r hr
  exact ⟨o, o', e, hle, hstart, hmark, hnext, hall, he.trans hd⟩

/-- The members between the braces of a class. -/
theorem classBody_follows :
    (classBody rules).Yields s c fun members d => ∃ o o' e, c.token.kind = .mark leftBrace ∧
      c.Next o ∧ Skips [';'] o o' ∧ Follows false [';'] o' members e ∧ e ≤ d := by
  refine .bind (yields_expectMark_next.mono fun _ o _ hopen _ => ?_)
  have hitem : ∀ c, (do
      if ← eatMark ";" then
        return none
      else
        return some (← classMember rules) : Parser (Option Outline)).Yields s c fun found d =>
        c < d → (found = none → Skips [';'] c d) ∧
          ∀ entry, found = some entry → c < d ∧ Placed false c entry d := by
    intro c
    refine .bind (yields_eatMark_next.mono fun ate d _ hate _ => ?_)
    refine .ite (fun heaten => ?_) fun hnot => ?_
    · rw [if_pos heaten] at hate
      refine .pure fun _ => ⟨fun _ => ?_, nofun⟩
      exact .step hate.1 (x := ';') rfl (by simp) hate.2 (.refl d)
    · obtain ⟨rfl, -⟩ : d = c ∧ c.token.kind ≠ .mark ";" := by simpa [hnot] using hate
      refine .bind (yields_classMember.mono fun entry e _ hentry _ => .pure fun hlt => ⟨nofun, ?_⟩)
      rintro _ ⟨⟩
      exact ⟨hlt, hentry.placed⟩
  refine .bind ((yields_repeatWhile peeks_atMark.map hitem).mono fun found e _ hfound _ => ?_)
  obtain ⟨o', hskips, hall⟩ := Follows.of_chain_option hfound
  exact .skip fun _ d hd => .pure ⟨o, o', e, hopen.1, hopen.2, hskips, hall, hd⟩

/-- A comma may come behind a member of an enumeration. -/
theorem enumerationMember_spaced :
    (enumerationMember rules).Yields s c (Spaced false [','] c) := by
  refine .here (.bind (yields_enumerationKey.mono fun name c₁ _ hlt _ => .skip fun _ c₂ h₂ => ?_))
  extract_lets rest
  have hrest : ∀ d, c₁ ≤ d → (rest ()).Yields s d (Spaced false [','] c) := by
    intro c₃ h₃
    refine .skip fun _ c₄ h₄ => ?_
    extract_lets isMissing finish
    have hfinish : ∀ d, c₁ ≤ d → (finish ()).Yields s d (Spaced false [','] c) := by
      intro b hb
      have hplaced : Placed false c (.member ⟨c.position, b.lastStop⟩ (some name)) b :=
        IsMember.placed ⟨_, rfl⟩
      refine .spanFrom (.bind (yields_eatMark_next.mono fun ate d _ hate _ => ?_))
      have hspaced : Spaced false [','] c (.member ⟨c.position, b.lastStop⟩ (some name)) d := by
        refine ⟨b, lt_of_lt_of_le hlt hb, hplaced, ?_⟩
        cases ate with
        | false =>
            obtain ⟨rfl, -⟩ := hate
            exact .refl d
        | true => exact .step hate.1 (x := ',') rfl (by simp) hate.2 (.refl d)
      refine .look peeks_atMark fun _ => .ite (fun _ => .pure hspaced) fun _ => ?_
      exact .look peeks_complain fun _ => .pure hspaced
    refine .ite (fun _ => ?_) fun _ => hfinish _ (by order)
    exact .skip fun _ c₅ h₅ => .skip fun _ c₆ h₆ => hfinish _ (by order)
  exact .ite (fun _ => .skip fun _ c₃ h₃ => hrest _ (by order)) fun _ => hrest _ h₂

end Members

section Declarations

theorem functionFrom_starts {isAsync nameRequired : Bool} :
    (functionFrom rules start isAsync nameRequired).Yields s c fun found d =>
      Starts start c found.1 d :=
  .skip fun _ _ _ => .skip fun _ _ _ => .skip fun _ _ _ => .skip fun _ _ _ =>
    .spanFrom (.pure ⟨rfl, .leaf⟩)

theorem functionDeclaration_starts : (functionDeclaration rules).Yields s c (Starts c.position c) :=
  .here (.skip fun _ _ h => .bind (functionFrom_starts.mono fun _ _ _ hentry _ =>
    .pure (hentry.widen h)))

theorem defaultFunction_starts : (defaultFunction rules).Yields s c (Starts c.position c) :=
  .here (.skip fun _ _ h => .bind (functionFrom_starts.mono fun _ _ _ hentry _ =>
    .pure (hentry.widen h)))

theorem variableDeclaration_starts :
    (variableDeclaration rules start).Yields s c (Starts start c) :=
  .skip fun _ _ _ => .skip fun _ _ _ => .spanFrom (.pure ⟨rfl, .leaf⟩)

theorem usingDeclaration_starts : (usingDeclaration rules start).Yields s c (Starts start c) :=
  .skip fun _ _ _ => .skip fun _ _ _ => .skip fun _ _ _ => .skip fun _ _ _ => .skip fun _ _ _ =>
    .spanFrom (.pure ⟨rfl, .leaf⟩)

theorem classFrom_starts {nameRequired isAbstract : Bool} :
    (classFrom rules start nameRequired isAbstract).Yields s c (Starts start c) := by
  refine .skip fun _ c₁ h₁ => .skip fun _ c₂ h₂ => .skip fun _ c₃ h₃ => .skip fun _ c₄ h₄ => ?_
  refine .skip fun _ c₅ h₅ => .skip fun _ c₆ h₆ => .skip fun _ c₇ h₇ => ?_
  refine .bind (.within (classBody_follows.mono fun members d _ hmembers _ => .spanFrom (.pure ?_)))
  obtain ⟨o, o', e, hmark, hnext, hskips, hall, he⟩ := hmembers
  exact ⟨rfl, .classDef (by order) hmark hnext hskips hall he⟩

theorem interfaceFrom_starts : (interfaceFrom rules start).Yields s c (Starts start c) := by
  refine .skip fun name c₁ h₁ => .skip fun _ c₂ h₂ => .skip fun _ c₃ h₃ => .skip fun _ c₄ h₄ => ?_
  extract_lets finish rest
  have hfinish : ∀ d, c ≤ d → (finish ()).Yields s d (Starts start c) := by
    intro d hd
    refine .here (.bind (typeMembers_follow.mono fun members b _ hmembers _ => ?_))
    refine .spanFrom (.pure ?_)
    obtain ⟨o, e, hmark, hnext, hall, he⟩ := hmembers
    exact ⟨rfl, .body (by simp) (by simp) hd hmark hnext hall he⟩
  have hrest : ∀ d, c ≤ d → (rest ()).Yields s d (Starts start c) := by
    refine fun d hd => .skip fun _ c₅ h₅ => .ite (fun _ => ?_) fun _ => hfinish _ (by order)
    exact .skip fun _ c₆ h₆ => .skip fun _ c₇ h₇ => hfinish _ (by order)
  exact .ite (fun _ => .skip fun _ c₅ h₅ => hrest _ (by order)) fun _ => hrest _ (by order)

theorem typeAliasFrom_starts (hrules : rules.Lays) :
    (typeAliasFrom rules start).Yields s c (Starts start c) := by
  refine .skip fun name c₁ h₁ => .skip fun _ c₂ h₂ => .skip fun _ c₃ h₃ => ?_
  refine .bind (.within ((hrules.members _ c₃).mono fun form c₄ h₄ hform _ => ?_))
  refine .skip fun _ c₅ h₅ => .spanFrom (.pure ?_)
  cases hmembers : form.members with
  | none => exact ⟨rfl, .leaf⟩
  | some members =>
      obtain ⟨o, o', e, ho, hstart, hmark, hnext, hall, he⟩ := hform members hmembers
      rw [hstart]
      exact ⟨rfl, .body (by simp) (by simp) (by order) hmark hnext hall (he.trans h₅)⟩

/-- The name of an enumeration comes right before its brace. -/
theorem enumerationFrom_starts : (enumerationFrom rules start).Yields s c (Starts start c) := by
  refine .here (.bind (yields_anyWord_next.mono fun name o _ hname _ => ?_))
  refine .bind (yields_expectMark_next.mono fun _ o' _ hopen _ => ?_)
  refine .bind ((yields_repeatWhile peeks_atMark.map fun _ => enumerationMember_spaced.mono
    fun _ _ _ hentry _ => hentry).mono fun members e _ hmembers _ => ?_)
  refine .skip fun _ d hd => .spanFrom (.pure ?_)
  exact ⟨rfl, .enumeration le_rfl hname hopen.1 hopen.2 (.of_chain hmembers) hd⟩

end Declarations

section NameSpaces

theorem blockStatements_follow (hrules : rules.Lays) :
    (blockStatements rules).Yields s c fun statements d => Follows true [] c statements d := by
  have hmore : Peeks (do return !(← atMark rightBrace) && !(← atFinish)) :=
    peeks_atMark.bind fun _ => peeks_atFinish.bind fun _ => peeks_pure
  have hstatement : ∀ c, (rules.statement true).Yields s c fun entry d =>
      c < d → Spaced true [] c entry d :=
    fun c => (hrules.placed s c).mono fun _ d _ hentry hlt => ⟨d, hlt, hentry hlt, .refl d⟩
  refine .bind ((yields_repeatWhile hmore hstatement).mono fun statements d _ hall _ => ?_)
  refine .skip fun _ e he => .either fun _ f hf => .pure ?_
  exact (Follows.of_chain hall).widen (by order)

theorem nameSpaceBody_follows (hrules : rules.Lays) :
    (nameSpaceBody rules).Yields s c fun statements d => ∃ o, c.token.kind = .mark leftBrace ∧
      c.Next o ∧ Follows true [] o statements d := by
  refine .bind (yields_expectMark_next.mono fun _ o _ hopen _ => .within ?_)
  exact (blockStatements_follow hrules).mono fun _ _ _ hall => ⟨o, hopen.1, hopen.2, hall⟩

/-- A namespace from its opening brace on. -/
theorem braces_starts (hrules : rules.Lays) {name : Text} (hle : o ≤ c) :
    (do
      let bodyFrom ← here
      let statements ← nameSpaceBody rules
      let span ← spanFrom start
      return ⟨.nameSpace, some name, false, span, some bodyFrom, statements⟩ :
        Parser Outline).Yields s c (Starts start o) := by
  refine .here (.bind ((nameSpaceBody_follows hrules).mono fun statements d _ hbody _ => ?_))
  obtain ⟨o', hmark, hnext, hall⟩ := hbody
  refine .spanFrom (.pure ⟨rfl, ?_⟩)
  exact .body (by simp) (by simp) hle hmark hnext hall le_rfl

theorem nameSpaceFrom_starts (hrules : rules.Lays) :
    (nameSpaceFrom rules start).Yields s c (Starts start c) := by
  refine .skip fun name c₁ h₁ => .skip fun _ c₂ h₂ => ?_
  refine .ite (fun _ => ?_) fun _ => braces_starts hrules (by order)
  exact .skip fun _ c₃ h₃ => .skip fun _ c₄ h₄ => .spanFrom (.pure ⟨rfl, .leaf⟩)

theorem ambientModule_starts (hrules : rules.Lays) :
    (ambientModule rules start).Yields s c (Starts start c) := by
  refine .skip fun ate c₁ h₁ => ?_
  extract_lets rest
  have hrest : ∀ name d, c ≤ d → (rest name).Yields s d (Starts start c) := by
    refine fun name c₂ h₂ => .skip fun _ c₃ h₃ =>
      .ite (fun _ => braces_starts hrules ?_) fun _ => ?_
    · order
    · exact .skip fun _ c₄ h₄ => .spanFrom (.pure ⟨rfl, .leaf⟩)
  exact .either fun name c₂ h₂ => hrest name c₂ (by order)

end NameSpaces

section Announced

/-- A declaration that was looked for. -/
def MayStart (start : Nat) (c : Cursor) (found : Option Outline) (d : Cursor) : Prop :=
  ∀ entry, found = some entry → Starts start c entry d

theorem some_starts {p : Parser Outline} (hle : o ≤ c) (h : p.Yields s c (Starts start c)) :
    (do return some (← p)).Yields s c (MayStart start o) := by
  refine .bind (h.mono fun entry d _ hentry _ => .pure ?_)
  rintro _ ⟨⟩
  exact hentry.widen hle

theorem announced?_starts (hrules : rules.Lays) {word : String} {pending : Bool} :
    (announced? rules start word pending).Yields s c (MayStart start c) := by
  refine .skip fun _ c₁ h₁ => ?_
  extract_lets sameLine pass
  split
  · refine .skip fun _ c₂ h₂ => .ite (fun _ => .skip fun _ c₃ h₃ => ?_) fun _ => .pure nofun
    exact some_starts (by order) classFrom_starts
  · refine .skip fun _ c₂ h₂ => .ite (fun _ => .skip fun _ c₃ h₃ => ?_) fun _ => .pure nofun
    exact some_starts (by order) enumerationFrom_starts
  · refine .skip fun _ c₂ h₂ => .ite (fun _ => .skip fun _ c₃ h₃ => ?_) fun _ => .pure nofun
    exact some_starts (by order) interfaceFrom_starts
  · refine .ite (fun _ => .pure nofun) fun _ => .skip fun _ c₂ h₂ => .skip fun _ c₃ h₃ => ?_
    refine .ite (fun _ => some_starts (by order) (ambientModule_starts hrules)) fun _ => ?_
    refine .skip fun _ c₄ h₄ => ?_
    refine .ite (fun _ => some_starts (by order) (nameSpaceFrom_starts hrules)) fun _ => ?_
    exact .ite (fun _ => .failure) fun _ => .pure nofun
  · refine .skip fun _ c₂ h₂ => .ite (fun _ => .skip fun _ c₃ h₃ => ?_) fun _ => .pure nofun
    exact some_starts (by order) (nameSpaceFrom_starts hrules)
  · refine .skip fun _ c₂ h₂ => .ite (fun _ => .skip fun _ c₃ h₃ => ?_) fun _ => .pure nofun
    exact some_starts (by order) (typeAliasFrom_starts hrules)
  · exact .pure nofun

theorem declared?_starts (hrules : rules.Lays) :
    (declared? rules start).Yields s c (MayStart start c) := by
  refine .peek rfl ?_
  split
  · refine .bind (functionDeclaration_starts.mono fun entry d _ hentry _ => .spanFrom (.pure ?_))
    rintro _ ⟨⟩
    exact ⟨rfl, hentry.laid.respanned entry.exported _⟩
  · exact some_starts le_rfl classFrom_starts
  · refine .skip fun _ c₁ h₁ => .ite (fun _ => ?_) fun _ => ?_
    · refine .skip fun _ c₂ h₂ => .skip fun _ c₃ h₃ => ?_
      exact some_starts (by order) enumerationFrom_starts
    · exact some_starts (by order) variableDeclaration_starts
  · exact some_starts le_rfl variableDeclaration_starts
  · exact some_starts le_rfl variableDeclaration_starts
  · exact some_starts le_rfl (ambientModule_starts hrules)
  · exact announced?_starts hrules
  · exact .pure nofun

end Announced

end Grammar

end Syntax
end Typings
