import Typings.Proofs.Reading.Extent
import Typings.Syntax.Grammar.Types
import Mathlib.Tactic.Order

/-!
# Extents in types

The members of an object type were read between its braces.  A type passes such members on
only if it is the object type as such, and then it starts with the opening brace.
-/

namespace Typings
namespace Syntax
namespace Grammar

open Syntax.Parser

variable {rules : Rules} {s : Setting} {c : Cursor}

/-- The members that a type passes on were read after the brace that it starts with. -/
def MembersCovered (c : Cursor) (form : TypeForm) (d : Cursor) : Prop :=
  ∀ members, form.members = some members → ∃ o o', c ≤ o ∧ form.span.start = o.position ∧
    o.token.kind = .mark leftBrace ∧ o < o' ∧ CoversAll o' members d

/-- The members that a type passes on were read as those of an object type, from the brace on that
the type starts with. -/
def MembersRead (rules : Rules) (c : Cursor) (form : TypeForm) (d : Cursor) : Prop :=
  ∀ members, form.members = some members → ∃ o s r, c ≤ o ∧ form.span.start = o.position ∧
    typeMembers rules s o = some r ∧ r.value = members ∧ r.cursor ≤ d

theorem MembersRead.widen {c' d d' : Cursor} {form : TypeForm} (h : MembersRead rules c form d)
    (hc : c' ≤ c) (hd : d ≤ d') : MembersRead rules c' form d' := by
  intro members heq
  obtain ⟨o, s, r, hle, hstart, hread, hvalue, hr⟩ := h members heq
  exact ⟨o, s, r, hc.trans hle, hstart, hread, hvalue, hr.trans hd⟩

section Members

theorem yields_propertySignature {start : Nat} {isReadonly : Bool} :
    (propertySignature rules start isReadonly).Yields s c (IsMember start) := by
  unfold propertySignature
  refine .skip fun key d _ => .skip fun _ d _ => .skip fun _ d _ => .skip fun _ d _ => ?_
  split
  · exact .skip fun _ d _ => .skip fun _ d _ => .skip fun _ d _ => .spanFrom (.pure ⟨_, rfl⟩)
  · exact .skip fun _ d _ => .skip fun _ d _ => .spanFrom (.pure ⟨_, rfl⟩)

/-- Where no modifier is taken, the place stays. -/
theorem yields_modifier? {allowed : List String} {sparingBlocks : Bool} :
    (modifier? allowed sparingBlocks).Yields s c fun found d => found = none → d = c := by
  have hfollows : modifierFollows.Peeks := by
    refine fun s c => .look peeks_tokenAfter fun after => .ite (fun _ => .pure rfl) fun _ => ?_
    split <;> exact .pure rfl
  have htaken : ∀ {name : String}, (do
      if ← modifierFollows then
        advance
        return some name
      else
        return none : Parser (Option String)).Yields s c fun found d => found = none → d = c := by
    refine .look hfollows fun _ => .ite (fun _ => ?_) fun _ => .pure fun _ => rfl
    exact .skip fun _ _ _ => .pure nofun
  refine .peek rfl ?_
  split
  · refine .ite (fun _ => .pure fun _ => rfl) fun _ => .look peeks_markAfter fun _ => ?_
    exact .ite (fun _ => .pure fun _ => rfl) fun _ => htaken
  · exact .pure fun _ => rfl

theorem peeks_atIndexSignature : atIndexSignature.Peeks :=
  fun _ _ => .look peeks_atMark fun _ => .ite (fun _ => peeks_foresees _ _) fun _ => .pure rfl

/-- An accessor is not read-only. -/
theorem yields_accessorSignature? {start : Nat} {isReadonly : Bool} :
    (accessorSignature? rules start isReadonly).Yields s c fun found d =>
      ∀ entry, found = some entry → isReadonly = false ∧ IsMember start entry d := by
  refine .attempt? fun s => .bind (yields_require.mono fun _ c₁ h₁ hrequired _ => ?_)
  refine .skip fun isGetter c₂ h₂ => .skip fun _ c₃ h₃ => .skip fun _ c₄ h₄ => ?_
  have hend : ∀ (key : Key) (d : Cursor),
      (do memberEnd
          return some (.member (← spanFrom start) key.typeName) : Parser _).Yields s d
        fun found d =>
          ∀ entry, found = some entry → isReadonly = false ∧ IsMember start entry d := by
    intro key d
    refine .skip fun _ e he => .spanFrom (.pure ?_)
    rintro entry ⟨⟩
    exact ⟨by simpa using hrequired.1, _, rfl⟩
  refine .skip fun _ c₅ h₅ => .skip fun key c₆ h₆ => .skip fun _ c₇ h₇ => ?_
  dsimp only
  split
  · exact .skip fun _ c₈ h₈ => .skip fun _ c₉ h₉ => hend key c₉
  · exact .skip fun _ c₈ h₈ => .skip fun _ c₉ h₉ => hend key c₉

/-- A member of a type starts with its first token. -/
theorem yields_typeMember : (typeMember rules).Yields s c (IsMember c.position) := by
  refine .here (.look peeks_tokenAfter fun after => .look peeks_atWord fun isNew => ?_)
  extract_lets isConstruct rest
  have hrest : ∀ d, (isConstruct = false → d = c) →
      (rest ()).Yields s d (IsMember c.position) := by
    intro d hd
    refine .look peeks_atMark fun _ => .look peeks_atOpenAngle fun _ => ?_
    refine .ite (fun _ => ?_) fun hcall => ?_
    · exact .skip fun _ c₂ h₂ => .skip fun _ c₃ h₃ => .spanFrom (.pure ⟨_, rfl⟩)
    obtain rfl := hd (by simp_all)
    refine .bind (yields_modifier?.mono fun found e _ he _ => ?_)
    refine .look peeks_atIndexSignature fun _ => .ite (fun _ => ?_) fun _ => ?_
    · exact .skip fun _ c₂ h₂ => .spanFrom (.pure ⟨_, rfl⟩)
    refine .here (.bind (yields_accessorSignature?.mono fun accessor c₃ _ haccessor _ => ?_))
    cases accessor with
    | some entry =>
        -- No word was taken for a modifier, so the accessor starts where the member does.
        obtain ⟨hnone, hentry⟩ := haccessor entry rfl
        obtain rfl := he (by simpa using hnone)
        exact .pure hentry
    | none => exact yields_propertySignature
  refine .ite (fun hconstruct => .skip fun _ c₁ _ => hrest c₁ ?_) fun _ => hrest c fun _ => rfl
  exact fun hnot => absurd hconstruct (by simp [hnot])

/-- The members between braces. -/
theorem yields_typeMembers :
    (typeMembers rules).Yields s c fun members d => ∃ o' e, c.token.kind = .mark leftBrace ∧
      c < o' ∧ CoversAll o' members e ∧ Enclosed c o' members e d := by
  refine .within (.bind (yields_expectMark.mono fun _ o' _ hopen _ => ?_))
  have hmember : ∀ c s, (typeMember rules).Yields s c fun entry d =>
      c < d → Within c entry d ∧ entry.span.start = c.position :=
    fun _ _ => yields_typeMember.mono fun _ _ _ hentry hlt => ⟨hentry.within hlt, hentry.start_eq⟩
  refine .bind ((yields_repeatWhile peeks_atMark.map fun c => hmember c _).mono
    fun members e _ hmembers _ => .bind (yields_expectMark.mono fun _ d _ hclose _ => .pure ?_))
  refine ⟨o', e, hopen.1, hopen.2.1, .of_chain (hmembers.mono fun _ _ _ h => h.1), hopen.2.2, ?_,
    hclose.1, hclose.2.1, hclose.2.2⟩
  cases hmembers with
  | nil => rfl
  | cons hentry _ => exact hentry.2.symm

end Members

section Forms

/-- A type that passes on no members. -/
theorem yields_plainType {start : Nat} {d : Cursor} :
    (plainType start).Yields s d (MembersRead rules c) :=
  .spanFrom (.pure fun _ h => nomatch h)

/-- Something that is read to its end as a type without members. -/
theorem yields_thenPlainType {α : Type} {p : Parser α} {start : Nat} {d : Cursor} :
    (p >>= fun _ => plainType start).Yields s d (MembersRead rules c) :=
  .skip fun _ _ _ => yields_plainType

theorem yields_primaryType : (primaryType rules).Yields s c (MembersRead rules c) := by
  refine .here (.peek rfl ?_)
  split
  all_goals try exact yields_thenPlainType
  · refine .skip fun _ _ _ => ?_
    dsimp only
    split <;> exact yields_thenPlainType
  · refine .skip fun _ _ _ => .peek rfl ?_
    split
    · exact yields_thenPlainType
    · exact yields_thenPlainType
    · exact .failure
  · refine .look peeks_foresees fun isMapped => ?_
    split
    · exact yields_thenPlainType
    · refine .bind (Yields.self.mono fun members d _ hread _ => .spanFrom (.pure ?_))
      obtain ⟨r, hr, rfl, rfl⟩ := hread
      rintro _ ⟨⟩
      exact ⟨c, s, r, le_rfl, rfl, hr, rfl, le_rfl⟩
  · exact .skip fun _ _ _ => .skip fun _ _ _ => yields_thenPlainType
  · exact .failure

theorem yields_suffixedType : (suffixedType rules).Yields s c (MembersRead rules c) := by
  refine .here (.bind (yields_primaryType.mono fun base c₁ _ hbase _ => ?_))
  refine .skip fun suffixes c₂ h₂ => ?_
  split
  · exact .pure (hbase.widen le_rfl h₂)
  · exact yields_plainType

theorem yields_typeOperand : (typeOperand rules).Yields s c (MembersRead rules c) := by
  refine .here (.skip fun _ c₁ h₁ => ?_)
  split
  · exact .skip fun _ _ _ => yields_thenPlainType
  refine .bind (yields_eatWord.mono fun isInfer c₂ h₂ hinfer _ => ?_)
  split
  · exact .skip fun _ _ _ => yields_thenPlainType
  · exact yields_suffixedType.mono fun form d _ hform => hform.widen (by order) le_rfl

theorem yields_joinedTypes {mark : String} {operand : Parser TypeForm}
    (h : ∀ c, operand.Yields s c (MembersRead rules c)) :
    (joinedTypes mark operand).Yields s c (MembersRead rules c) := by
  refine .here (.skip fun _ c₁ h₁ => ?_)
  refine .bind ((h c₁).mono fun first c₂ _ hfirst _ => .skip fun joins c₃ h₃ => ?_)
  split
  · exact yields_thenPlainType
  · exact .pure (hfirst.widen h₁ h₃)

theorem yields_unionType : (unionType rules).Yields s c (MembersRead rules c) :=
  yields_joinedTypes fun _ => yields_joinedTypes fun _ => yields_typeOperand

theorem yields_unconditionalType :
    (unconditionalType rules).Yields s c (MembersRead rules c) := by
  refine .here (.skip fun _ c₁ h₁ => .skip fun _ c₂ h₂ => ?_)
  split
  · exact yields_thenPlainType
  refine .skip fun _ c₃ h₃ => .skip fun _ c₄ h₄ => .skip fun _ c₅ h₅ => ?_
  split
  · exact .skip fun _ _ _ => .skip fun _ _ _ => yields_thenPlainType
  · exact yields_unionType.mono fun form d _ hform => hform.widen (by order) le_rfl

theorem yields_type_read : (type rules).Yields s c (MembersRead rules c) := by
  refine .here (.bind (yields_unconditionalType.mono fun first c₁ _ hfirst _ => ?_))
  refine .skip fun _ c₂ h₂ => .skip fun _ c₃ h₃ => .skip fun _ c₄ h₄ => ?_
  split
  · exact .skip fun _ _ _ => .skip fun _ _ _ => .skip fun _ _ _ => .skip fun _ _ _ =>
      .skip fun _ _ _ => yields_thenPlainType
  · exact .pure (hfirst.widen le_rfl (by order))

/-- The members that a type passes on. -/
theorem yields_type : (type rules).Yields s c (MembersCovered c) := by
  refine yields_type_read.mono fun form d _ hform members heq => ?_
  obtain ⟨o, s, r, hle, hstart, hr, rfl, hd⟩ := hform members heq
  obtain ⟨o', e, hmark, hlt, hall, he⟩ := yields_typeMembers r hr
  exact ⟨o, o', hle, hstart, hmark, hlt, hall.widen le_rfl (he.lt.le.trans hd)⟩

end Forms

end Grammar
end Syntax
end Typings
