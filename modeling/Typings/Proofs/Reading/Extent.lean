import Typings.Proofs.Reading.Yields
import Typings.Syntax.Outline

/-!
# Extents of entries

An entry of an outline was read between two places: it starts with the token of the first
and ends with the token before the second.  Its children were read one after the other
between the same two places, past the first token and, where the entry has a body with
braces, past the opening brace.

**Brace.**  Where the entry says from where to look for its brace, that is the start of a
token that comes before the brace or is the brace itself.  For an interface it is the brace
itself.  The first member of an interface is the token after the brace, and the interface ends
with the brace that comes after its members.
-/

namespace Typings
namespace Syntax

/-- The members were read one after the other from the token after the brace at `o` up to the
brace at `e`, which is the last token before `b`. -/
structure Enclosed (o o' : Cursor) (members : List Outline) (e b : Cursor) : Prop where
  opened : o'.lastStop = o.token.span.stop
  first : o'.position = (members.head?.map fun entry => entry.span.start).getD e.position
  brace : e.token.kind = .mark rightBrace
  lt : e < b
  closed : b.lastStop = e.token.span.stop

mutual

/-- The entry was read from the token of the first place up to the second place. -/
inductive Covers : Cursor → Outline → Cursor → Prop
  | plain {a o b : Cursor} {form : Form} {name : Option Text} {exported : Bool}
      {children : List Outline} :
      form ≠ .interface → a < o → CoversAll o children b →
      Covers a ⟨form, name, exported, ⟨a.position, b.lastStop⟩, none, children⟩ b
  | braced {a n o o' e b : Cursor} {form : Form} {name : Option Text} {exported : Bool}
      {children : List Outline} :
      a ≤ n → n ≤ o → o.token.kind = .mark leftBrace → o < o' → CoversAll o' children e → e ≤ b →
      (form = .interface → n = o ∧ Enclosed o o' children e b) →
      Covers a ⟨form, name, exported, ⟨a.position, b.lastStop⟩, some n.position, children⟩ b

/-- The entries were read one after the other between the two places. -/
inductive CoversAll : Cursor → List Outline → Cursor → Prop
  | nil {c d : Cursor} : c ≤ d → CoversAll c [] d
  | cons {c a b d : Cursor} {entry : Outline} {rest : List Outline} :
      c ≤ a → Covers a entry b → CoversAll b rest d → CoversAll c (entry :: rest) d

end

theorem Covers.span_eq {a b : Cursor} {entry : Outline} (h : Covers a entry b) :
    entry.span = ⟨a.position, b.lastStop⟩ := by
  cases h <;> rfl

/-- The entry was read somewhere between the two places. -/
def Within (c : Cursor) (entry : Outline) (d : Cursor) : Prop :=
  ∃ a b, c ≤ a ∧ Covers a entry b ∧ b ≤ d

mutual

theorem Covers.lt {a b : Cursor} {entry : Outline} (h : Covers a entry b) : a < b :=
  match h with
  | .plain _ hlt hall => lt_of_lt_of_le hlt hall.le
  | .braced ha hn _ hlt hall hb _ =>
      lt_of_le_of_lt (ha.trans hn) (lt_of_lt_of_le hlt (hall.le.trans hb))

theorem CoversAll.le {c d : Cursor} {entries : List Outline} (h : CoversAll c entries d) :
    c ≤ d :=
  match h with
  | .nil hle => hle
  | .cons hle hentry hrest => hle.trans (hentry.lt.le.trans hrest.le)

end

/-- The entry was read from the first place or a later one up to the second place. -/
def UpTo (c : Cursor) (entry : Outline) (d : Cursor) : Prop :=
  ∃ a, c ≤ a ∧ Covers a entry d

/-- An entry without children. -/
theorem Covers.leaf {a b : Cursor} {form : Form} {name : Option Text} {exported : Bool}
    (hform : form ≠ .interface) (hlt : a < b) :
    Covers a ⟨form, name, exported, ⟨a.position, b.lastStop⟩, none, []⟩ b :=
  .plain hform hlt (.nil le_rfl)

/-- A member or a statement without children. -/
theorem Within.leaf {c a b d : Cursor} {form : Form} {name : Option Text} {exported : Bool}
    (hform : form ≠ .interface) (hc : c ≤ a) (hlt : a < b) (hd : b ≤ d) :
    Within c ⟨form, name, exported, ⟨a.position, b.lastStop⟩, none, []⟩ d :=
  ⟨a, b, hc, .leaf hform hlt, hd⟩

/-- A member that starts at `start` and ends before the place. -/
def IsMember (start : Nat) (entry : Outline) (d : Cursor) : Prop :=
  ∃ name, entry = .member ⟨start, d.lastStop⟩ name

theorem IsMember.start_eq {start : Nat} {d : Cursor} {entry : Outline}
    (h : IsMember start entry d) : entry.span.start = start := by
  obtain ⟨name, rfl⟩ := h
  rfl

theorem IsMember.within {c d : Cursor} {entry : Outline} (h : IsMember c.position entry d)
    (hlt : c < d) : Within c entry d := by
  obtain ⟨name, rfl⟩ := h
  exact .leaf (by simp) le_rfl hlt le_rfl

/-- An entry may be marked, and may start earlier. -/
theorem Covers.startedAt {a a' b : Cursor} {entry : Outline} (exported : Bool)
    (h : Covers a entry b) (hle : a' ≤ a) :
    Covers a' { entry with exported := exported, span := ⟨a'.position, b.lastStop⟩ } b := by
  cases h with
  | plain hform hlt hall => exact .plain hform (lt_of_le_of_lt hle hlt) hall
  | braced ha hn hmark hlt hall hb hinterface =>
      exact .braced (hle.trans ha) hn hmark hlt hall hb hinterface

theorem Covers.exported {a a' b : Cursor} {entry : Outline} (h : Covers a entry b)
    (hle : a' ≤ a) : Covers a' (entry.exportedAt ⟨a'.position, b.lastStop⟩) b :=
  h.startedAt true hle

theorem UpTo.exported {a c d : Cursor} {entry : Outline} (h : UpTo a entry d) (hle : c ≤ a) :
    Covers c (entry.exportedAt ⟨c.position, d.lastStop⟩) d := by
  obtain ⟨a', ha, hcovers⟩ := h
  exact hcovers.exported (hle.trans ha)

theorem UpTo.startedAt {a c d : Cursor} {entry : Outline} (h : UpTo a entry d) (hle : c ≤ a) :
    UpTo c entry d := by
  obtain ⟨a', ha, hcovers⟩ := h
  exact ⟨a', hle.trans ha, hcovers⟩

theorem UpTo.stop_eq {c d : Cursor} {entry : Outline} (h : UpTo c entry d) :
    entry.span.stop = d.lastStop := by
  obtain ⟨a, -, hcovers⟩ := h
  rw [hcovers.span_eq]

theorem UpTo.within {c d : Cursor} {entry : Outline} (h : UpTo c entry d) :
    Within c entry d := by
  obtain ⟨a, ha, hcovers⟩ := h
  exact ⟨a, d, ha, hcovers, le_rfl⟩

/-- A statement that declares nothing of interest. -/
theorem UpTo.statement {a d : Cursor} (hlt : a < d) :
    UpTo a (.statement ⟨a.position, d.lastStop⟩) d :=
  ⟨a, le_rfl, .leaf (by simp) hlt⟩

namespace CoversAll

variable {c d e : Cursor} {entries : List Outline}

/-- Entries lie between wider places too. -/
theorem widen {c' d' : Cursor} (h : CoversAll c entries d) (hc : c' ≤ c) (hd : d ≤ d') :
    CoversAll c' entries d' := by
  induction entries generalizing c c' with
  | nil => exact .nil (hc.trans (h.le.trans hd))
  | cons entry rest ih =>
      cases h with
      | cons hle hentry hrest => exact .cons (hc.trans hle) hentry (ih hrest le_rfl)

/-- A chain of entries. -/
theorem of_chain (h : Parser.Chain Within c entries d) : CoversAll c entries d := by
  induction h with
  | nil => exact .nil le_rfl
  | cons hentry _ ih =>
      obtain ⟨a, b, hle, hcovers, hb⟩ := hentry
      exact .cons hle hcovers (ih.widen hb le_rfl)

/-- A chain of entries with places between them where nothing was found. -/
theorem of_chain_option {found : List (Option Outline)}
    (h : Parser.Chain (fun c item d => c ≤ d ∧ ∀ entry, item = some entry → Within c entry d)
      c found d) :
    CoversAll c (found.filterMap id) d := by
  induction h with
  | nil => exact .nil le_rfl
  | @cons c d e item rest hitem _ ih =>
      obtain ⟨hle, hentry⟩ := hitem
      cases item with
      | none => exact ih.widen hle le_rfl
      | some entry =>
          obtain ⟨a, b, hca, hcovers, hb⟩ := hentry entry rfl
          exact .cons hca hcovers (ih.widen hb le_rfl)

end CoversAll

end Syntax
end Typings
