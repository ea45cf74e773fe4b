import Typings.Declaration.Merge
import Typings.Proofs.Layout.Splice
import Typings.Proofs.Merging.Exports

/-!
# Members put into the target

The members that describe exports are put right behind the opening brace of the target.  All
other text of the target is copied.

**The target.**  Every interface that was read has a place for members.  So the target is the
first interface of the right name.
-/

namespace Typings

section Targets

variable {source : SourceText} {target : Text} {members before after nodes : List Node}
  {node : Node} {lo hi : Nat}

namespace Node

/-- An interface that was read has a place for members. -/
theorem isTarget_eq_of_tiles (h : Node.Tiles source lo node hi) (target : Text) :
    node.isTarget target = node.isInterfaceNamed target := by
  cases h with
  | @mk _ _ _ kind _ _ _ _ _ _ _ hopens _ _ =>
      simp only [isTarget, isInterfaceNamed, place?, Option.bind_some, hopens.membersAt]
      cases kind <;> simp

theorem isTarget_eq_of_tileAll (h : Node.TileAll source lo nodes hi) (target : Text) :
    ∀ node ∈ nodes, node.isTarget target = node.isInterfaceNamed target := by
  induction nodes generalizing lo with
  | nil => simp
  | cons first rest ih =>
      cases h with
      | cons hfirst hrest =>
          exact List.forall_mem_cons.mpr ⟨isTarget_eq_of_tiles hfirst target, ih hrest⟩

@[simp] theorem withMembers_nil (node : Node) : node.withMembers [] = node := by
  cases node
  rfl

/-- The members that describe exported nodes. -/
def describeAll (exports : List Node) (index : DocIndex) (target : Text) : List Node :=
  exports.filterMap fun node => node.describe? index target

theorem isMade_of_mem_describeAll {exports : List Node} {index : DocIndex} {member : Node}
    (h : member ∈ describeAll exports index target) : member.IsMade := by
  obtain ⟨node, -, hmember⟩ := List.mem_filterMap.mp h
  obtain ⟨name, -, hmember⟩ := Option.bind_eq_some_iff.mp hmember
  obtain ⟨text, -, rfl⟩ := Option.map_eq_some_iff.mp hmember
  exact ⟨text, rfl⟩

end Node

/-- Without members nothing is injected. -/
theorem injectMembers_nil (target : Text) (nodes : List Node) :
    injectMembers target [] nodes = nodes := by
  induction nodes with
  | nil => rfl
  | cons node rest ih =>
      rw [injectMembers, ih, Node.withMembers_nil]
      split <;> rfl

/-- Without a target nothing is injected. -/
theorem injectMembers_of_forall (h : ∀ node ∈ nodes, node.isTarget target = false)
    (members : List Node) : injectMembers target members nodes = nodes := by
  induction nodes with
  | nil => rfl
  | cons node rest ih =>
      obtain ⟨hnode, hrest⟩ := List.forall_mem_cons.mp h
      simp [injectMembers, hnode, ih hrest]

/-- Members are put into the first target. -/
theorem injectMembers_append_cons (hbefore : ∀ other ∈ before, other.isTarget target = false)
    (hnode : node.isTarget target = true) :
    injectMembers target members (before ++ node :: after) =
      before ++ node.withMembers members :: after := by
  induction before with
  | nil => simp [injectMembers, hnode]
  | cons first rest ih =>
      obtain ⟨hfirst, hrest⟩ := List.forall_mem_cons.mp hbefore
      simp [injectMembers, hfirst, ih hrest]

end Targets

namespace Node

section Opening

variable {source : SourceText} {place : Place} {node first : Node} {members nodes : List Node}
  {lo hi m : Nat}

/-- The interface begins its members at `m`, right behind its opening brace. -/
structure OpensAt (node : Node) (source : SourceText) (place : Place) (m : Nat) : Prop where
  origin : node.origin = .placed place
  membersAt : place.membersAt = some m
  lt : place.range.start < m
  le : m ≤ place.range.stop
  brace : source.chars[m - 1]? = some '{'
  members : ∃ last, Node.TileAll source m node.children last ∧ last ≤ place.range.stop

theorem opensAt_of_tiles (h : Node.Tiles source lo node hi) (hkind : node.kind = .interface) :
    ∃ place m, node.OpensAt source place m ∧ place.Stands source lo ∧
      place.Opens .interface m ∧ place.range.stop = hi := by
  cases h with
  | @mk _ m last _ _ _ _ _ children place hstands hopens hall hlast =>
      subst hkind
      refine ⟨place, m, ⟨rfl, ?_, hopens.lt, ?_, ?_, last, hall, hlast⟩, hstands, hopens, rfl⟩
      · rw [hopens.membersAt, if_pos rfl]
      · exact Nat.le_trans hall.le hlast
      · rw [← hstands.source_eq]
        exact hopens.brace rfl

/-- An interface with members put into it. -/
theorem bodyText_withMembers (hopen : node.OpensAt source place m) (hsource : place.source = source)
    (hmade : ∀ member ∈ first :: members, member.IsMade) :
    (node.withMembers (first :: members)).bodyText =
      Text.slice source.chars place.range.start m ++
        memberLines (place.memberIndent node.children) (first :: members) ++
        membersText place (place.memberIndent node.children) m true node.children := by
  obtain ⟨kind, name, parent, exported, doc, children, origin⟩ := node
  obtain ⟨horigin, hmembersAt, hlt, -, -, -⟩ := hopen
  cases horigin
  obtain ⟨hfirst, hothers⟩ := List.forall_mem_cons.mp hmade
  subst hsource
  calc _ = membersText place (place.memberIndent (first :: members ++ children))
        place.range.start false (first :: members ++ children) := rfl
    _ = membersText place (place.memberIndent children) place.range.start false
        (first :: (members ++ children)) := by rw [memberIndent_append hmade, List.cons_append]
    _ = _ := membersText_cons_made hfirst hothers hmembersAt (Nat.le_of_lt hlt) _

/-- An interface with members put into it, and all that follows it. -/
theorem statementText_withMembers_append (hopen : node.OpensAt source place m)
    (hstands : place.Stands source lo) (hcloses : place.Opens .interface m)
    (hdocs : node.marks = []) (hmade : ∀ member ∈ first :: members, member.IsMade) :
    (node.withMembers (first :: members)).statementText ++ source.chars.drop place.range.stop =
      Text.slice source.chars lo m ++
        memberLines (place.memberIndent node.children) (first :: members) ++
        continued true
          (if node.children.isEmpty then place.indent else place.memberIndent node.children)
          (source.chars.drop m) := by
  have hbody := bodyText_withMembers hopen hstands.source_eq hmade
  obtain ⟨kind, name, parent, exported, doc, children, origin⟩ := node
  obtain ⟨horigin, -, hlt, -, -, last, hall, hlast⟩ := hopen
  cases horigin
  obtain ⟨hdoc, hchildren⟩ := List.append_eq_nil_iff.mp hdocs
  obtain rfl : doc = none := by simpa using hdoc
  have hle := Nat.le_of_lt hlt
  have hclosed : ∃ i x, m ≤ i ∧ i < place.range.stop ∧ source.chars[i]? = some x ∧
      isBlank x = false := hstands.source_eq ▸ hcloses.closed rfl
  have htail := membersText_append_drop hall hlast hstands.source_eq hle hclosed hchildren
    (place.memberIndent children)
  have hleading : place.leadingText none = Text.slice source.chars lo place.range.start :=
    (place.leadingText_eq hstands none).2
  rw [statementText_placed rfl, hbody]
  simp only [List.append_assoc, htail]
  rw [← List.append_assoc, ← Text.slice_append_slice _ hstands.lo_le hle, ← hleading]
  rfl

/-- An interface with members put into it begins with the character it began with. -/
theorem shows_withMembers (hopen : node.OpensAt source place m) (hstands : place.Stands source lo)
    (hmade : ∀ member ∈ first :: members, member.IsMade) :
    (node.withMembers (first :: members)).Shows source := by
  have horigin : (node.withMembers (first :: members)).origin = .placed place := hopen.origin
  obtain ⟨x, hx, hblank⟩ := hstands.visible
  have hmem := Text.mem_slice hx (Nat.le_refl _) hopen.lt
  refine ⟨by simp [source?, place?, horigin, hstands.source_eq], x, ?_, hblank⟩
  rw [statementText_placed horigin, bodyText_withMembers hopen hstands.source_eq hmade]
  simp [hmem]

end Opening

end Node

namespace Text

/-- The text with members on lines of their own from `m` on.  What stood there follows on a
new line. -/
def withMembers (t : Text) (m : Nat) (members : List Node) (indent tailIndent : Text) : Text :=
  t.take m ++ Node.memberLines indent members ++
    if startsWithBreak (t.drop m) then t.drop m
    else '\n' :: (tailIndent ++ trimStart (t.drop m))

theorem withMembers_eq (t : Text) (m : Nat) (members : List Node) (indent tailIndent : Text) :
    t.withMembers m members indent tailIndent =
      t.take m ++ Node.memberLines indent members ++ continued true tailIndent (t.drop m) := by
  rw [withMembers, continued]
  cases startsWithBreak (t.drop m) <;> rfl

end Text

end Typings
