import Typings.Proofs.Layout.Flat

/-!
# Members put into a text

Made members at the front of an interface are written right behind its opening brace, each
on a line of its own.  What follows the brace in the text follows the last of them, on a new
line if it does not begin with one.  All other text is copied.

**Indents.**  New members are indented as the first member that stands on a line of its own.
Where there is none, they are four spaces further in than the interface.
-/

namespace Typings

section Lines

variable {indent t : Text} {x : Char}

/-- Whether a piece starts on a new line is decided in front of its first visible
character. -/
theorem continued_append_cons (afterInsert : Bool) (hx : isBlank x = false) (piece : Text) :
    continued afterInsert indent piece ++ x :: t =
      continued afterInsert indent (piece ++ x :: t) := by
  have hbreak : Text.startsWithBreak (piece ++ x :: t) = Text.startsWithBreak piece := by
    rw [Text.startsWithBreak, Text.openingBlank_append_cons hx, Text.startsWithBreak]
  simp only [continued, hbreak, Text.trimStart_append_cons hx]
  split <;> simp

theorem continued_append (afterInsert : Bool) {piece : Text}
    (h : ∃ x ∈ piece, isBlank x = false) (rest : Text) :
    continued afterInsert indent piece ++ rest =
      continued afterInsert indent (piece ++ rest) := by
  obtain ⟨x, hmem, hx⟩ := h
  obtain ⟨before, after, rfl⟩ := List.append_of_mem hmem
  rw [← continued_append_cons afterInsert hx, List.append_assoc, List.cons_append,
    continued_append_cons afterInsert hx, List.append_assoc, List.cons_append]

end Lines

/-- A text with documentation on the lines before, if there is any. -/
def underDoc (indent : Text) (doc : Option DocComment) (body : Text) : Text :=
  match doc with
  | some doc => doc.render indent ++ '\n' :: (indent ++ body)
  | none => body

/-- What is inserted begins on a line of its own. -/
theorem insertedText_eq (indent : Text) (doc : Option DocComment) (body : Text) :
    insertedText indent doc body = '\n' :: (indent ++ underDoc indent doc body) := by
  cases doc <;> simp [insertedText, underDoc]

namespace Node

/-- The members, each on a line of its own with its documentation. -/
def memberLines (indent : Text) (members : List Node) : Text :=
  members.flatMap fun member => '\n' :: (indent ++ underDoc indent member.doc member.text)

variable {source : SourceText} {place : Place} {members children : List Node} {m : Nat}

/-- A member that was made. -/
def IsMade (node : Node) : Prop :=
  ∃ text, node.origin = .made text

theorem IsMade.bodyText_eq {node : Node} (h : node.IsMade) : node.bodyText = node.text := by
  obtain ⟨text, horigin⟩ := h
  obtain ⟨kind, name, parent, exported, doc, children, origin⟩ := node
  cases horigin
  simp [bodyText, Node.text]

theorem IsMade.innerPlace?_eq {node : Node} (h : node.IsMade) (place : Place) :
    place.innerPlace? node = none := by
  obtain ⟨text, horigin⟩ := h
  simp [Place.innerPlace?, place?, horigin]

/-- Made members behind the opening brace of a place. -/
theorem membersText_made (hmade : ∀ node ∈ members, node.IsMade) (hm : place.membersAt = some m)
    (indent : Text) :
    membersText place indent m true (members ++ children) =
      memberLines indent members ++ membersText place indent m true children := by
  induction members with
  | nil => simp [memberLines]
  | cons node rest ih =>
      have hnode := hmade node (by simp)
      have ih := ih fun other hother => hmade other (by simp [hother])
      rw [List.cons_append, membersText]
      simp only [hnode.innerPlace?_eq, hm, Option.getD_some, Nat.max_self, ih, hnode.bodyText_eq,
        insertedText_eq]
      simp [memberLines, Place.between]

/-- Made members at the front of a place. -/
theorem membersText_cons_made {first : Node} (hfirst : first.IsMade)
    (hmade : ∀ node ∈ members, node.IsMade) (hm : place.membersAt = some m) {position : Nat}
    (hposition : position ≤ m) (indent : Text) :
    membersText place indent position false (first :: (members ++ children)) =
      place.between position m ++ memberLines indent (first :: members) ++
        membersText place indent m true children := by
  rw [membersText]
  simp only [hfirst.innerPlace?_eq, hm, Option.getD_some, Nat.max_eq_left hposition,
    membersText_made hmade hm, hfirst.bodyText_eq, insertedText_eq]
  simp [memberLines]

/-- Made members have no place that could tell the indent of members. -/
theorem memberIndent_append (hmade : ∀ node ∈ members, node.IsMade) :
    place.memberIndent (members ++ children) = place.memberIndent children := by
  have hnone : members.filterMap place.innerPlace? = [] := by
    rw [List.filterMap_eq_nil_iff]
    exact fun node hnode => (hmade node hnode).innerPlace?_eq place
  simp [Place.memberIndent, hnone]

/-- The node stands on a line of its own, behind the indent. -/
def StandsAlone (t : Text) (node : Node) (indent : Text) : Prop :=
  ∃ place, node.place? = some place ∧ Text.IsLineAt t place.range.start indent ∧
    ∀ c ∈ indent, c = ' ' ∨ c = '\t'

/-- What the members of a place are indented by: as the first of them that stands on a line of
its own, or else four spaces further than the place. -/
inductive IndentsMembers (t : Text) (place : Place) : List Node → Text → Prop
  | first {node : Node} {rest : List Node} {indent : Text} :
      node.StandsAlone t indent → IndentsMembers t place (node :: rest) indent
  | later {node : Node} {rest : List Node} {indent : Text} :
      (∀ other, ¬ node.StandsAlone t other) → IndentsMembers t place rest indent →
      IndentsMembers t place (node :: rest) indent
  | none {indent : Text} :
      Text.IsIndentAt t place.range.start indent →
      IndentsMembers t place [] (indent ++ List.replicate 4 ' ')

theorem indentsMembers_memberIndent {lo last : Nat}
    (h : Node.TileAll source lo children last) (hlast : last ≤ place.range.stop)
    (hsource : place.source = source) (hstart : place.range.start ≤ lo) :
    IndentsMembers source.chars place children (place.memberIndent children) := by
  have hchars : place.chars = source.chars := by rw [Place.chars, hsource]
  induction children generalizing lo with
  | nil => exact .none (hchars ▸ Text.isIndentAt_lineIndent place.chars place.range.start)
  | cons child rest ih =>
      cases h with
      | cons hchild hrest =>
          obtain ⟨inner, hlaid, rfl⟩ := laidOut_of_tiles child hchild
          have hlo := hlaid.stands.lo_le
          have hlt := hlaid.stands.lt
          have hinner := hlaid.innerPlace?_eq hsource hstart (Nat.le_trans hrest.le hlast)
          have hplace : child.place? = some inner := by rw [place?, hlaid.origin]
          have hindent : place.memberIndent (child :: rest) =
              (Text.ownLineIndent? source.chars inner.range.start).getD
                (place.memberIndent rest) := by
            rw [Place.memberIndent, List.filterMap_cons_some hinner, List.findSome?_cons, hchars]
            cases Text.ownLineIndent? source.chars inner.range.start with
            | none => rw [Place.memberIndent, hchars, Option.getD_none]
            | some own => rfl
          rw [hindent]
          cases hown : Text.ownLineIndent? source.chars inner.range.start with
          | some own => exact .first ⟨inner, hplace, Text.ownLineIndent?_eq_some_iff.mp hown⟩
          | none =>
              refine .later ?_ (ih hrest (by omega))
              rintro other ⟨outer, houter, hline⟩
              obtain rfl := Option.some.inj (hplace.symm.trans houter)
              rw [Text.ownLineIndent?_eq_some_iff.mpr hline] at hown
              cases hown

/-- A tree without documentation has no edits. -/
theorem edits_eq_nil {node : Node} (h : node.marks = []) : node.edits = [] := by
  rw [edits, h, List.map_nil]

/-- Without documentation the text in front of a node and all that follows it is copied. -/
theorem LaidOut.text_append_drop {node : Node} {lo : Nat} (h : LaidOut source lo node place)
    (hdocs : node.marks = []) :
    place.leadingText node.doc = Text.slice source.chars lo place.range.start ∧
      node.bodyText = Text.slice source.chars place.range.start place.range.stop := by
  have hedits := edits_eq h.origin
  rw [edits_eq_nil hdocs, eq_comm, List.append_eq_nil_iff] at hedits
  have hleading := (place.leadingText_eq h.stands node.doc).2
  rw [hedits.1] at hleading
  exact ⟨hleading, by rw [h.body, hedits.2, Text.edited]⟩

/-- What stands behind the opening brace of a place, after members that were put there. -/
theorem membersText_append_drop {last : Nat} (h : Node.TileAll source m children last)
    (hlast : last ≤ place.range.stop) (hsource : place.source = source)
    (hstart : place.range.start ≤ m)
    (hclosed : ∃ i x, m ≤ i ∧ i < place.range.stop ∧ source.chars[i]? = some x ∧
      isBlank x = false)
    (hdocs : marksAll children = []) (indent : Text) :
    membersText place indent m true children ++ source.chars.drop place.range.stop =
      continued true (if children.isEmpty then place.indent else indent)
        (source.chars.drop m) := by
  cases children with
  | nil =>
      -- What is left of the place holds its closing brace.
      obtain ⟨i, x, hmi, histop, hx, hblank⟩ := hclosed
      have hvisible : ∃ x ∈ place.between m place.range.stop, isBlank x = false := by
        refine ⟨x, ?_, hblank⟩
        rw [Place.between, Place.chars, hsource]
        exact Text.mem_slice hx hmi histop
      rw [membersText, continued_append true hvisible, Place.between, Place.chars, hsource,
        Text.slice_append_drop _ (by omega)]
      rfl
  | cons child rest =>
      obtain ⟨hchild, hothers⟩ := List.append_eq_nil_iff.mp hdocs
      cases h with
      | @cons _ mid _ _ _ hnode hrest =>
          obtain ⟨inner, hlaid, rfl⟩ := laidOut_of_tiles child hnode
          have hlo := hlaid.stands.lo_le
          have hlt := hlaid.stands.lt
          have hstop := Nat.le_trans hrest.le hlast
          obtain ⟨x, hx, hblank⟩ := hlaid.stands.visible
          obtain ⟨hbound, rfl⟩ := List.getElem?_eq_some_iff.mp hx
          obtain ⟨hleading, hbody⟩ := hlaid.text_append_drop hchild
          have hinner := hlaid.innerPlace?_eq hsource hstart hstop
          have hmembers := (membersText_eq rest indent inner.range.stop hrest hlast hsource
            (by omega) (Nat.le_refl _)).2
          rw [editsAll, hothers, List.map_nil, Text.edited] at hmembers
          have hdrop : Text.slice source.chars inner.range.start inner.range.stop ++
              (Text.slice source.chars inner.range.stop place.range.stop ++
                source.chars.drop place.range.stop) =
              source.chars[inner.range.start] :: source.chars.drop (inner.range.start + 1) := by
            rw [Text.slice_append_drop _ hstop, Text.slice_append_drop _ (Nat.le_of_lt hlt),
              List.drop_eq_getElem_cons hbound]
          rw [membersText, hinner]
          simp only [hlaid.stands.leading_start, hleading, hbody, hmembers, Place.between,
            Text.slice_self, List.nil_append, List.append_assoc, hdrop]
          -- Only the text in front of the first child may have to start on a new line.
          rw [continued_append_cons true hblank, ← List.drop_eq_getElem_cons hbound,
            Text.slice_append_drop _ hlo]
          rfl

end Node

end Typings
