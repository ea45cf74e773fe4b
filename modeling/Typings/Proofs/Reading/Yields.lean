import Typings.Proofs.Reading.Moves

/-!
# What parsers yield

`p.Yields s c Q` says that whatever the parser `p` gives from the place `c` on satisfies
`Q`, together with the place where the reading ends.  A rule for every way to put parsers
together takes such a statement apart along the text of the parser.

**Skipping.**  Most steps of a parser matter only in so far as they move on:
`Yields.skip` passes over a step and keeps that the next place comes no earlier.

**Loops.**  A loop that is accepted never ran an item without moving, since the same item
would be run again at the same place until the loop gives up.
-/

namespace Typings
namespace Syntax
namespace Parser

variable {α β : Type} {p : Parser α} {s : Setting} {c : Cursor}

/-- Everything that `p` gives from `c` on satisfies `Q`. -/
def Yields (p : Parser α) (s : Setting) (c : Cursor) (Q : α → Cursor → Prop) : Prop :=
  ∀ r, p s c = some r → Q r.value r.cursor

namespace Yields

section Rules

variable {Q : α → Cursor → Prop} {R : β → Cursor → Prop}

theorem mono {Q' : α → Cursor → Prop} (h : p.Yields s c Q) (hQ : ∀ a d, c ≤ d → Q a d → Q' a d) :
    p.Yields s c Q' :=
  fun r hr => hQ _ _ r.reached (h r hr)

/-- Every parser ends no earlier than it starts. -/
theorem moves (h : ∀ a d, c ≤ d → Q a d) : p.Yields s c Q :=
  fun r _ => h r.value r.cursor r.reached

theorem pure {a : α} (h : Q a c) : (Pure.pure a : Parser α).Yields s c Q := by
  intro r hr
  cases hr
  exact h

theorem failure : (Alternative.failure : Parser α).Yields s c Q :=
  fun _ hr => nomatch hr

theorem bind {f : α → Parser β}
    (h : p.Yields s c fun a d => c ≤ d → (f a).Yields s d R) : (p >>= f).Yields s c R := by
  intro r hr
  obtain ⟨first, hfirst, hr⟩ := Option.bind_eq_some_iff.mp hr
  obtain ⟨second, hsecond, hr⟩ := Option.bind_eq_some_iff.mp hr
  cases hr
  exact h first hfirst first.reached second hsecond

/-- What a parser gives, with the place where its reading ends. -/
theorem self : p.Yields s c fun a d => ∃ r, p s c = some r ∧ r.value = a ∧ r.cursor = d :=
  fun r hr => ⟨r, hr, rfl, rfl⟩

/-- Two statements about one parser. -/
theorem and {Q' : α → Cursor → Prop} (h : p.Yields s c Q) (h' : p.Yields s c Q') :
    p.Yields s c fun a d => Q a d ∧ Q' a d :=
  fun r hr => ⟨h r hr, h' r hr⟩

/-- Passes over a step. -/
theorem skip {f : α → Parser β} (h : ∀ a d, c ≤ d → (f a).Yields s d R) :
    (p >>= f).Yields s c R :=
  bind (moves fun a d hle _ => h a d hle)

theorem map {f : α → β} (h : p.Yields s c fun a d => R (f a) d) : (f <$> p).Yields s c R :=
  bind (h.mono fun _ _ _ hR _ => pure hR)

theorem within {change : Setting → Setting} (h : p.Yields (change s) c Q) :
    (Parser.within change p).Yields s c Q :=
  h

theorem ite {b : Prop} [Decidable b] {q : Parser α} (hp : b → p.Yields s c Q)
    (hq : ¬b → q.Yields s c Q) : (if b then p else q).Yields s c Q := by
  split
  · exact hp ‹_›
  · exact hq ‹_›

/-- What an attempt accepts is what its parser gives. -/
theorem attempt? {p : Parser (Option α)} {Q : α → Cursor → Prop}
    (h : ∀ s, p.Yields s c fun found d => ∀ a, found = some a → Q a d) :
    (Parser.attempt? p).Yields s c fun found d => ∀ a, found = some a → Q a d := by
  intro r hr a ha
  simp only [Parser.attempt?] at hr
  split at hr
  · rename_i value after hreached heq
    cases hr
    exact h _ _ heq a ha
  · cases hr
    cases ha

section Branches

variable {b : Prop} [Decidable b] {p q : Parser α} {x : Parser Unit}

/-- A step that is only taken under a condition. -/
theorem whenever {f : Unit → Parser β} (h : ∀ d, c ≤ d → (f ()).Yields s d R) :
    (if b then x >>= f else f ()).Yields s c R :=
  .ite (fun _ => skip fun _ => h) fun _ => h c le_rfl

/-- A step that is not taken under a condition. -/
theorem otherwise {f : Unit → Parser β} (h : ∀ d, c ≤ d → (f ()).Yields s d R) :
    (if b then f () else x >>= f).Yields s c R :=
  .ite (fun _ => h c le_rfl) fun _ => skip fun _ => h

/-- One of two steps. -/
theorem either {f : α → Parser β} (h : ∀ a d, c ≤ d → (f a).Yields s d R) :
    (if b then p >>= f else q >>= f).Yields s c R :=
  .ite (fun _ => skip h) fun _ => skip h

end Branches

end Rules

section Steps

variable {f : α → Parser β} {R : β → Cursor → Prop}

/-- A step that only looks at the place. -/
theorem peek {a : α} {h : c ≤ c} (hp : p s c = some ⟨a, c, h⟩) (hf : (f a).Yields s c R) :
    (p >>= f).Yields s c R := by
  refine bind fun r hr _ => ?_
  rw [hp] at hr
  cases hr
  exact hf

theorem here {f : Nat → Parser β} (h : (f c.position).Yields s c R) :
    (Parser.here >>= f).Yields s c R :=
  peek rfl h

theorem spanFrom {start : Nat} {f : Span → Parser β} (h : (f ⟨start, c.lastStop⟩).Yields s c R) :
    (Parser.spanFrom start >>= f).Yields s c R :=
  peek rfl h

end Steps

end Yields

section Taking

/-- Whatever `p` gives from `c` on, it ends at a later place. -/
def Moves (p : Parser α) (s : Setting) (c : Cursor) : Prop :=
  p.Yields s c fun _ d => c < d

namespace Moves

variable {f : α → Parser β}

/-- The first step moves. -/
theorem first (h : p.Moves s c) : (p >>= f).Moves s c :=
  .bind (h.mono fun _ _ _ hlt _ => .moves fun _ _ hd => lt_of_lt_of_le hlt hd)

/-- A later step moves. -/
theorem later (h : ∀ a d, (f a).Moves s d) : (p >>= f).Moves s c :=
  .skip fun a _ hle => (h a _).mono fun _ _ _ hlt => lt_of_le_of_lt hle hlt

theorem failure : (Alternative.failure : Parser α).Moves s c :=
  Yields.failure

theorem peek {a : α} {h : c ≤ c} (hp : p s c = some ⟨a, c, h⟩) (hf : (f a).Moves s c) :
    (p >>= f).Moves s c :=
  Yields.peek hp hf

theorem ite {b : Prop} [Decidable b] {q : Parser α} (hp : p.Moves s c) (hq : q.Moves s c) :
    (if b then p else q).Moves s c :=
  Yields.ite (fun _ => hp) fun _ => hq

theorem within {change : Setting → Setting} (h : p.Moves (change s) c) :
    (Parser.within change p).Moves s c :=
  h

end Moves

theorem takeAs_moves {kind : TokenKind} {length : Nat} : (takeAs kind length).Moves s c := by
  intro r hr
  simp only [takeAs] at hr
  split at hr
  · rename_i hold
    cases hr
    exact Cursor.lt_past hold
  · cases hr

theorem yields_advance_next : advance.Yields s c fun _ d => c.Next d := by
  refine .peek rfl ?_
  intro r hr
  simp only [takeAs] at hr
  split at hr
  · rename_i hold
    cases hr
    refine ⟨_, _, hold, ?_, rfl⟩
    have hlength : 0 < c.token.span.stop - c.token.span.start := by
      simp only [Cursor.holds, Bool.and_eq_true, decide_eq_true_eq] at hold
      exact hold.1
    simp only [Cursor.position]
    omega
  · cases hr

/-- The token that is moved past ends where the reading has come to. -/
theorem yields_advance :
    advance.Yields s c fun _ d => c < d ∧ d.lastStop = c.token.span.stop :=
  yields_advance_next.mono fun _ _ _ h => ⟨h.lt, h.lastStop⟩

theorem advance_moves : advance.Moves s c :=
  yields_advance.mono fun _ _ _ h => h.1

theorem yields_require {b : Bool} : (require b).Yields s c fun _ d => b = true ∧ d = c := by
  cases b with
  | false => exact .failure
  | true => exact .pure ⟨rfl, rfl⟩

theorem yields_eatMark_next {text : String} :
    (eatMark text).Yields s c fun ate d =>
      if ate then c.token.kind = .mark text ∧ c.Next d
      else d = c ∧ c.token.kind ≠ .mark text := by
  refine .peek rfl (.ite (fun hmark => ?_) fun hmark => .pure ⟨rfl, by simpa using hmark⟩)
  refine .bind (yields_advance_next.mono fun _ d _ hd _ => .pure ?_)
  exact ⟨by simpa using hmark, hd⟩

/-- A mark that comes next is moved past. -/
theorem yields_eatMark {text : String} :
    (eatMark text).Yields s c fun ate d =>
      if ate then c.token.kind = .mark text ∧ c < d ∧ d.lastStop = c.token.span.stop
      else d = c ∧ c.token.kind ≠ .mark text := by
  refine yields_eatMark_next.mono fun ate d _ hate => ?_
  cases ate with
  | false => exact hate
  | true => exact ⟨hate.1, hate.2.lt, hate.2.lastStop⟩

theorem yields_expectMark_next {text : String} :
    (expectMark text).Yields s c fun _ d => c.token.kind = .mark text ∧ c.Next d := by
  refine .bind (yields_eatMark_next.mono fun ate d _ hate _ => ?_)
  refine yields_require.mono fun _ e _ h => ?_
  obtain ⟨rfl, rfl⟩ := h
  exact hate

theorem yields_expectMark {text : String} :
    (expectMark text).Yields s c fun _ d =>
      c.token.kind = .mark text ∧ c < d ∧ d.lastStop = c.token.span.stop :=
  yields_expectMark_next.mono fun _ _ _ h => ⟨h.1, h.2.lt, h.2.lastStop⟩

theorem expectMark_moves {text : String} : (expectMark text).Moves s c :=
  yields_expectMark.mono fun _ _ _ h => h.2.1

theorem yields_eatWord {name : String} :
    (eatWord name).Yields s c fun ate d => if ate then c < d else d = c := by
  refine .peek rfl ?_
  split
  · exact .bind (advance_moves.mono fun _ d _ hlt _ => .pure hlt)
  · exact .pure rfl

theorem expectWord_moves {name : String} : (expectWord name).Moves s c := by
  refine Yields.bind (yields_eatWord.mono fun ate d _ hate _ => ?_)
  refine yields_require.mono fun _ e _ h => ?_
  obtain ⟨rfl, rfl⟩ := h
  exact hate

theorem yields_anyWord_next : anyWord.Yields s c fun _ d => c.Next d := by
  refine .peek rfl ?_
  split
  · exact .bind (yields_advance_next.mono fun _ _ _ h _ => .pure h)
  · exact .failure

theorem anyWord_moves : anyWord.Moves s c :=
  yields_anyWord_next.mono fun _ _ _ h => h.lt

theorem stringLiteral_moves : stringLiteral.Moves s c := by
  refine .peek rfl ?_
  split
  · exact .first advance_moves
  · exact .failure

end Taking

section Peeking

/-- The parser only looks at the place. -/
def Peeks (p : Parser α) : Prop :=
  ∀ s c, p.Yields s c fun _ d => d = c

theorem peeks_pure {a : α} : (Pure.pure a : Parser α).Peeks :=
  fun _ _ => .pure rfl

theorem peeks_atMark {text : String} : (atMark text).Peeks :=
  fun _ _ => .peek rfl (.pure rfl)

theorem peeks_atFinish : atFinish.Peeks :=
  fun _ _ => .peek rfl (.pure rfl)

theorem peeks_atWord {name : String} : (atWord name).Peeks :=
  fun _ _ => .peek rfl (.pure rfl)

theorem peeks_atOpenAngle : atOpenAngle.Peeks :=
  fun _ _ => .peek rfl (by split <;> exact .pure rfl)

theorem peeks_tokenAfter : tokenAfter.Peeks :=
  fun _ _ => .peek rfl (.pure rfl)

theorem peeks_markAfter {text : String} : (markAfter text).Peeks :=
  fun _ _ => .peek rfl (.pure rfl)

theorem peeks_foresees {p : Parser Bool} : (foresees p).Peeks :=
  fun _ _ => .peek rfl (.pure rfl)

theorem Peeks.map {β : Type} {f : α → β} (h : p.Peeks) : (f <$> p).Peeks :=
  fun s c => .map (h s c)

theorem Peeks.bind {f : α → Parser β} (h : p.Peeks) (hf : ∀ a, (f a).Peeks) :
    (p >>= f).Peeks :=
  fun s c => .bind ((h s c).mono fun a _ _ hd _ => hd ▸ hf a s _)

/-- Passes over a step that stays. -/
theorem Yields.look {f : α → Parser β} {R : β → Cursor → Prop} (hp : p.Peeks)
    (h : ∀ a, (f a).Yields s c R) : (p >>= f).Yields s c R :=
  .bind ((hp s c).mono fun a _ _ hd _ => hd ▸ h a)

end Peeking

section Loops

/-- Values that were read one after the other from `c` on, each of them with `R`. -/
inductive Chain (R : Cursor → α → Cursor → Prop) : Cursor → List α → Cursor → Prop
  | nil {c : Cursor} : Chain R c [] c
  | cons {c d e : Cursor} {a : α} {rest : List α} :
      R c a d → Chain R d rest e → Chain R c (a :: rest) e

theorem Chain.mono {R R' : Cursor → α → Cursor → Prop} {d : Cursor} {values : List α}
    (h : Chain R c values d) (hR : ∀ c a d, R c a d → R' c a d) : Chain R' c values d := by
  induction h with
  | nil => exact .nil
  | cons hfirst _ ih => exact .cons (hR _ _ _ hfirst) ih

variable {more : Parser Bool} {item : Parser α}

/-- An item that does not move makes the loop give up. -/
theorem repeatUpTo_eq_none {a : α} {h h' : c ≤ c} (hmore : more s c = some ⟨true, c, h⟩)
    (hitem : item s c = some ⟨a, c, h'⟩) (fuel : Nat) : repeatUpTo fuel more item s c = none := by
  induction fuel with
  | zero => simp [repeatUpTo, Bind.bind, hmore, require, Alternative.failure]
  | succ fuel ih => simp [repeatUpTo, Bind.bind, hmore, hitem, ih]

/-- What a loop reads is a chain of items, each of which moves. -/
theorem yields_repeatUpTo {R : Cursor → α → Cursor → Prop} (hpeeks : more.Peeks)
    (hitem : ∀ c, item.Yields s c fun a d => c < d → R c a d) (fuel : Nat) :
    (repeatUpTo fuel more item).Yields s c (Chain R c) := by
  induction fuel generalizing c with
  | zero =>
      refine .bind ((hpeeks s c).mono fun b d _ hd _ => .bind ?_)
      exact yields_require.mono fun _ e _ h _ => .pure ((h.2.trans hd) ▸ .nil)
  | succ fuel ih =>
      refine .bind fun first hfirst _ => ?_
      obtain ⟨b, d, hd⟩ := first
      obtain rfl : d = c := hpeeks s c _ hfirst
      cases b with
      | false => exact .pure .nil
      | true =>
          refine .bind fun found hfound hle => ?_
          obtain ⟨a, e, he⟩ := found
          rcases eq_or_lt_of_le he with rfl | hlt
          · -- The same item would be run at the same place until the fuel is used up.
            intro r hr
            obtain ⟨others, hothers, _⟩ := Option.bind_eq_some_iff.mp hr
            simp [repeatUpTo_eq_none hfirst hfound fuel] at hothers
          · exact .bind (ih.mono fun rest z _ hrest _ =>
              .pure (.cons (hitem d _ hfound hlt) hrest))

theorem yields_repeatWhile {R : Cursor → α → Cursor → Prop} (hpeeks : more.Peeks)
    (hitem : ∀ c, item.Yields s c fun a d => c < d → R c a d) :
    (repeatWhile more item).Yields s c (Chain R c) :=
  .peek rfl (yields_repeatUpTo hpeeks hitem _)

end Loops

end Parser
end Syntax
end Typings
