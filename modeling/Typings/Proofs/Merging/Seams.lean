import Typings.Proofs.Layout.Ends
import Typings.Proofs.Layout.Insertion
import Typings.Proofs.Documentation.Walk

/-!
# The ends and the seam of a merged document

Documents are read, documented and merged, in any order and any number of times.  All nodes that
come up in this way show a character that is not blank, so that a document with statements begins
and ends with one.

**Without statements.**  The trailing text of a document is added behind the last statement and is
trimmed at its end alone.  So a document without statements begins with the white space of its
trailing text, and exports that are put in front of it meet that text as it stands.
-/

namespace Typings

section Origins

/-- The node stands in one of the documents, at any depth, or was made with a text that shows
something. -/
def Node.ComesFrom (documents : List Document) (node : Node) : Prop :=
  (∃ document ∈ documents, node ∈ Node.walkAll document.statements) ∨
    ∀ below ∈ node.walk, below.IsMade ∧ ∃ x ∈ below.text, isBlank x = false

/-- A document that was read, documented or merged. -/
inductive Document.Obtained : Document → Prop
  | read {reading : Nat} {name t : Text} {document : Document} :
      Document.ofText reading name t = .ok document → Document.Obtained document
  | documented {document : Document} :
      Document.Obtained document → Document.Obtained document.documented
  | merged {generated : Document} {documents : List Document} {exports : List Node} :
      Document.Obtained generated → (∀ document ∈ documents, Document.Obtained document) →
      (∀ node ∈ exports, node.ComesFrom documents) →
      ∀ (index : DocIndex) (target : Text),
        Document.Obtained (generated.merge exports index target).document

end Origins

/-- A place that begins with a character that is not blank, in front of all members. -/
structure Place.Begins (place : Place) (children : List Node) : Prop where
  lt : place.range.start < place.range.stop
  visible : ∃ x, place.chars[place.range.start]? = some x ∧ isBlank x = false
  membersAt : ∀ m, place.membersAt = some m → place.range.start < m
  first : ∀ child, children.head? = some child →
    (∃ inner, place.innerPlace? child = some inner ∧ place.range.start < inner.leading.start) ∨
      place.innerPlace? child = none ∧ place.membersAt.isSome = true

namespace Node

section Beginnings

variable {source : SourceText} {node : Node} {members : List Node} {target : Text}
  {index : DocIndex}

/-- The text of the node begins in front of its children. -/
def Begins (node : Node) : Prop :=
  match node.origin with
  | .placed place => place.Begins node.children
  | .made text => ∃ x ∈ text, isBlank x = false

theorem begins_placed {place : Place} (h : node.origin = .placed place) :
    node.Begins ↔ place.Begins node.children := by
  rw [Begins, h]

theorem begins_made (h : node.IsMade) : node.Begins ↔ ∃ x ∈ node.text, isBlank x = false := by
  obtain ⟨text, horigin⟩ := h
  rw [Begins, Node.text, horigin]

/-- The text of a place begins with some of its own characters, whatever its children are. -/
theorem exists_bodyText_eq {place : Place} (horigin : node.origin = .placed place)
    (h : place.Begins node.children) :
    ∃ stop rest, place.range.start < stop ∧
      node.bodyText = place.between place.range.start stop ++ rest := by
  obtain ⟨kind, name, parent, exported, doc, children, origin⟩ := node
  cases horigin
  cases children with
  | nil => exact ⟨place.range.stop, [], h.lt, by rw [List.append_nil]; rfl⟩
  | cons first rest =>
      rw [bodyText, if_neg (by simp), membersText]
      rcases h.first first rfl with ⟨inner, hinner, hlt⟩ | ⟨hinner, hm⟩
      · rw [hinner]
        exact ⟨inner.leading.start, _, hlt, by simp only [continued, Bool.false_and,
          Bool.false_eq_true, if_false, List.append_assoc]; rfl⟩
      · obtain ⟨m, hm⟩ := Option.isSome_iff_exists.mp hm
        have hlt := h.membersAt m hm
        rw [hinner, hm, Option.getD_some, Nat.max_eq_left hlt.le]
        exact ⟨m, _, hlt, List.append_assoc ..⟩

/-- The node has a text that is not blank all over. -/
theorem exists_mem_bodyText (h : node.Begins) : ∃ x ∈ node.bodyText, isBlank x = false := by
  cases horigin : node.origin with
  | made text =>
      have hmade : node.IsMade := ⟨text, horigin⟩
      rw [hmade.bodyText_eq]
      exact (begins_made hmade).mp h
  | placed place =>
      have hplace := (begins_placed horigin).mp h
      obtain ⟨stop, rest, hlt, hbody⟩ := exists_bodyText_eq horigin hplace
      obtain ⟨x, hx, hblank⟩ := hplace.visible
      refine ⟨x, ?_, hblank⟩
      rw [hbody]
      exact List.mem_append_left _ (Text.mem_slice hx le_rfl hlt)

theorem exists_mem_statementText (h : node.Begins) :
    ∃ x ∈ node.statementText, isBlank x = false := by
  obtain ⟨x, hmem, hx⟩ := exists_mem_bodyText h
  exact ⟨x, by rw [statementText_eq]; exact List.mem_append_right _ hmem, hx⟩

/-- A node that stands in a text begins there. -/
theorem begins_of_tiles {lo hi : Nat} (h : Node.Tiles source lo node hi) : node.Begins := by
  cases h with
  | @mk _ inner last kind _ _ _ _ children place hstands hopens hall hlast =>
      refine (begins_placed rfl).mpr ⟨hstands.lt, ?_, ?_, ?_⟩
      · obtain ⟨x, hx, hblank⟩ := hstands.visible
        exact ⟨x, by rw [Place.chars, hstands.source_eq]; exact hx, hblank⟩
      · intro m hm
        rw [hopens.membersAt] at hm
        split at hm
        · exact Option.some.inj hm ▸ hopens.lt
        · cases hm
      · rintro child hchild
        obtain ⟨rest, rfl⟩ := List.head?_eq_some_iff.mp hchild
        cases hall with
        | cons hfirst hrest =>
            obtain ⟨first, hlaid, rfl⟩ := laidOut_of_tiles child hfirst
            have hinner := hlaid.innerPlace?_eq hstands.source_eq hopens.lt.le
              (Nat.le_trans hrest.le hlast)
            exact .inl ⟨first, hinner, hlaid.stands.leading_start ▸ hopens.lt⟩

/-- Documentation does not change where nodes begin. -/
theorem Begins.documented (h : node.Begins) : node.documented.Begins := by
  obtain ⟨kind, name, parent, exported, doc, children, origin⟩ := node
  cases origin with
  | made text => exact h
  | placed place =>
      obtain ⟨hlt, hvisible, hm, hfirst⟩ := (begins_placed rfl).mp h
      refine (begins_placed rfl).mpr ⟨hlt, hvisible, hm, fun child hchild => ?_⟩
      have hheads : (documentedAll children).head? = children.head?.map Node.documented := by
        rw [documentedAll_eq_map, List.head?_map]
      obtain ⟨original, horiginal, rfl⟩ := Option.map_eq_some_iff.mp (hheads ▸ hchild)
      have hplace : place.innerPlace? original.documented = place.innerPlace? original := by
        obtain ⟨_, _, _, _, _, _, _⟩ := original
        rfl
      rw [hplace]
      exact hfirst original horiginal

/-- A target begins in front of the members that are put into it. -/
theorem Begins.withMembers (h : node.Begins) (htarget : node.isTarget target = true)
    (hmade : ∀ member ∈ members, member.IsMade) : (node.withMembers members).Begins := by
  cases members with
  | nil => rwa [withMembers_nil]
  | cons first others =>
      obtain ⟨kind, name, parent, exported, doc, children, origin⟩ := node
      obtain ⟨place, hplace, hm⟩ : ∃ place, origin = .placed place ∧
          place.membersAt.isSome = true := by
        cases origin <;> simp_all [isTarget, place?]
      cases hplace
      obtain ⟨hlt, hvisible, hmembers, -⟩ := (begins_placed rfl).mp h
      refine (begins_placed rfl).mpr ⟨hlt, hvisible, hmembers, fun child hchild => .inr ⟨?_, hm⟩⟩
      obtain rfl : first = child := Option.some.inj hchild
      exact (hmade first List.mem_cons_self).innerPlace?_eq place

/-- A member that describes an export shows its punctuation. -/
theorem begins_of_mem_describeAll {exports : List Node} {member : Node}
    (h : member ∈ describeAll exports index target) : member.Begins := by
  have hmade := isMade_of_mem_describeAll h
  obtain ⟨node, -, hmember⟩ := List.mem_filterMap.mp h
  obtain ⟨name, -, hmember⟩ := Option.bind_eq_some_iff.mp hmember
  obtain ⟨text, htext, rfl⟩ := Option.map_eq_some_iff.mp hmember
  refine (begins_made hmade).mpr ⟨';', ?_, by decide⟩
  change ';' ∈ text
  unfold DeclKind.memberText? at htext
  split at htext
  · obtain rfl := Option.some.inj htext
    simp [Signature.methodText]
  · obtain rfl := Option.some.inj htext
    simp
  · cases htext

end Beginnings

section Walks

variable {node : Node} {members nodes : List Node} {target : Text}

/-- A node of a walk behind an injection was there before, was put in, or is the target. -/
theorem mem_walkAll_injectMembers (h : node ∈ walkAll (injectMembers target members nodes)) :
    node ∈ walkAll nodes ∨ node ∈ walkAll members ∨
      ∃ other ∈ walkAll nodes, other.isTarget target = true ∧
        node = other.withMembers members := by
  induction nodes with
  | nil => cases h
  | cons first rest ih =>
      rw [injectMembers] at h
      split at h
      · rename_i htarget
        have hwalk : (first.withMembers members).walk =
            first.withMembers members :: (walkAll members ++ walkAll first.children) := by
          rw [walk_eq, withMembers, withChildren, walkAll_append]
        rw [walkAll, hwalk, List.cons_append, List.mem_cons, List.mem_append,
          List.mem_append] at h
        rcases h with rfl | (h | h) | h
        · exact .inr (.inr ⟨first, by rw [walkAll, walk_eq]; simp, htarget, rfl⟩)
        · exact .inr (.inl h)
        · exact .inl (by rw [walkAll, walk_eq]; simp [h])
        · exact .inl (by rw [walkAll]; simp [h])
      · rw [walkAll, List.mem_append] at h
        rw [walkAll]
        rcases h with h | h
        · exact .inl (List.mem_append_left _ h)
        · rcases ih h with h | h | ⟨other, hmem, h⟩
          · exact .inl (List.mem_append_right _ h)
          · exact .inr (.inl h)
          · exact .inr (.inr ⟨other, List.mem_append_right _ hmem, h⟩)

/-- Below members that describe exports is nothing. -/
theorem walkAll_describeAll (exports : List Node) (index : DocIndex) (target : Text) :
    walkAll (describeAll exports index target) = describeAll exports index target := by
  have hleaves : ∀ member ∈ describeAll exports index target, member.walk = [member] := by
    intro member hmember
    obtain ⟨node, -, hmember⟩ := List.mem_filterMap.mp hmember
    obtain ⟨name, -, hmember⟩ := Option.bind_eq_some_iff.mp hmember
    obtain ⟨text, -, rfl⟩ := Option.map_eq_some_iff.mp hmember
    rfl
  rw [walkAll_eq_flatMap, List.flatMap_congr hleaves, List.flatMap_singleton']

end Walks

end Node

/-- The exports of a document come from it. -/
theorem Node.comesFrom_of_mem_exports {document : Document} {node : Node}
    (h : node ∈ document.exports) : node.ComesFrom [document] :=
  .inl ⟨document, List.mem_singleton_self document,
    Node.mem_walkAll_of_mem (List.mem_of_mem_filter h)⟩

namespace Document

/-- All nodes that come up by reading, documenting and merging begin with something visible. -/
theorem Obtained.begins {document : Document} (h : document.Obtained) :
    ∀ node ∈ Node.walkAll document.statements, node.Begins := by
  induction h with
  | read h =>
      intro node hnode
      obtain ⟨stop, htiles, -, -⟩ := tileAll_of_ofText ((bare_of_ofText h).symm ▸ h)
      obtain ⟨lo, hi, hnodeTiles⟩ := Node.tiles_of_mem_walkAll _ htiles hnode
      exact Node.begins_of_tiles hnodeTiles
  | documented _ ih =>
      intro node hnode
      rw [Document.documented, Node.walkAll_documentedAll] at hnode
      obtain ⟨original, horiginal, rfl⟩ := List.mem_map.mp hnode
      exact (ih original horiginal).documented
  | @merged generated documents exports _ _ hexports index target ih hdocuments =>
      intro node hnode
      have hstatements : (generated.merge exports index target).document.statements =
          exports ++ injectMembers target (Node.describeAll exports index target)
            generated.statements := rfl
      rw [hstatements, Node.walkAll_append, List.mem_append] at hnode
      rcases hnode with hnode | hnode
      · rw [Node.walkAll_eq_flatMap] at hnode
        obtain ⟨top, htop, hnode⟩ := List.mem_flatMap.mp hnode
        rcases hexports top htop with ⟨document, hdocument, hfound⟩ | hmade
        · exact hdocuments document hdocument node (Node.walk_subset_walkAll _ hfound hnode)
        · obtain ⟨hnodeMade, hshown⟩ := hmade node hnode
          exact (Node.begins_made hnodeMade).mpr hshown
      · rcases Node.mem_walkAll_injectMembers hnode with
          hnode | hnode | ⟨other, hother, htarget, rfl⟩
        · exact ih node hnode
        · rw [Node.walkAll_describeAll] at hnode
          exact Node.begins_of_mem_describeAll hnode
        · exact (ih other hother).withMembers htarget fun _ => Node.isMade_of_mem_describeAll

theorem Obtained.showsAll {document : Document} (h : document.Obtained) : document.ShowsAll := by
  intro node hnode
  exact Node.exists_mem_statementText (h.begins node (Node.mem_walkAll_of_mem hnode))

section Injected

variable {generated : Document} {nodes : List Node} {first : Node}

/-- The document with the members that describe exports put into its target, but without the
exports. -/
def injected (generated : Document) (exports : List Node) (index : DocIndex) (target : Text) :
    Document :=
  { generated with
    statements :=
      injectMembers target (Node.describeAll exports index target) generated.statements }

/-- The first statement keeps its source. -/
theorem head?_injectMembers (h : nodes.head? = some first) (target : Text) (members : List Node) :
    ∃ kept, (injectMembers target members nodes).head? = some kept ∧
      kept.source? = first.source? := by
  obtain ⟨rest, rfl⟩ := List.head?_eq_some_iff.mp h
  rw [injectMembers]
  split
  · exact ⟨_, rfl, rfl⟩
  · exact ⟨_, rfl, rfl⟩

theorem hasContent_injected (h : generated.HasContent) (exports : List Node) (index : DocIndex)
    (target : Text) : (generated.injected exports index target).HasContent := by
  refine h.imp (fun hne hnone => ?_) id
  obtain ⟨first, rest, hstatements⟩ := List.exists_cons_of_ne_nil hne
  have hfirst : generated.statements.head? = some first := by rw [hstatements, List.head?_cons]
  obtain ⟨kept, hkept, -⟩ :=
    head?_injectMembers hfirst target (Node.describeAll exports index target)
  rw [injected, List.eq_nil_iff_forall_not_mem] at hnone
  exact hnone kept (List.mem_of_mem_head? hkept)

end Injected

variable {generated : Document}

/-- **The ends and the seam.**  A document with content ends with one line feed, and begins with
white space exactly if it has no statement and its trailing text begins with white space.  Merged
with exports it is the exports alone, a seam, and the document with its members alone.  The seam
is one blank line if the document has a statement and the last export has another source than the
first of them. -/
theorem Obtained.render_ends (h : generated.Obtained) (hcontent : generated.HasContent) :
    (∃ shown : Text, generated.render = shown ++ ['\n'] ∧ shown.EndsVisibly) ∧
    (generated.render.BeginsVisibly ↔
      generated.statements ≠ [] ∨ Text.openingBlank generated.trailing = []) ∧
    ∀ (documents : List Document) (exports : List Node) (index : DocIndex) (target : Text),
      (∀ document ∈ documents, document.Obtained) →
      (∀ node ∈ exports, node.ComesFrom documents) → exports ≠ [] →
      ∃ above : Text, Document.render ⟨[], exports, []⟩ = above ++ ['\n'] ∧
        above.EndsVisibly ∧
        (Text.trimStart (generated.injected exports index target).render).BeginsVisibly ∧
        (generated.merge exports index target).document.render =
          above ++ seam exports (generated.injected exports index target) ++
            Text.trimStart (generated.injected exports index target).render ∧
        ∀ last first, exports.getLast? = some last → generated.statements.head? = some first →
          sameSource last first = false →
          last.source?.isSome = true ∨ first.source?.isSome = true →
          seam exports (generated.injected exports index target) = ['\n', '\n'] := by
  have hshows := h.showsAll
  refine ⟨render_eq_concat hshows hcontent, beginsVisibly_render_iff hshows hcontent, ?_⟩
  intro documents exports index target hdocuments hexports hne
  have hmerged := (Obtained.merged h hdocuments hexports index target).showsAll
  have hbelow : (generated.injected exports index target).ShowsAll := fun node hnode =>
    hmerged node (List.mem_append_right _ hnode)
  have hbelowContent := hasContent_injected hcontent exports index target
  have habove : ShowsAll ⟨[], exports, []⟩ := fun node hnode =>
    hmerged node (List.mem_append_left _ hnode)
  obtain ⟨above, habove, hends⟩ := render_eq_concat habove (.inl hne)
  refine ⟨above, habove, hends, ?_, ?_, ?_⟩
  · rw [trimStart_render hbelow hbelowContent]
    exact (Text.beginsVisibly_trim (exists_mem_layout hbelow hbelowContent)).append _
  · have hrender := render_below hne hbelow hbelowContent generated.name
    rw [habove, hends.trimEnd_append_newline] at hrender
    exact hrender
  · intro last first hlast hfirst hother hplaced
    obtain ⟨kept, hkept, hsource⟩ := head?_injectMembers hfirst target
      (Node.describeAll exports index target)
    refine seam_eq_blankLine hlast hkept ?_ (by rwa [hsource])
    rwa [sameSource, hsource]

/-- A documented export in front of an interface that takes a member. -/
theorem render_ends_interface :
    ∃ (helpers generated : Document) (above : Text),
      ofText 0 [] "// a\nexport function f(): void;".toList = .ok helpers ∧
      ofText 1 [] "\n// b\ninterface Api \x7b\x7d // end".toList = .ok generated ∧
      generated.HasContent ∧ generated.render.BeginsVisibly ∧
      helpers.documented.exports ≠ [] ∧ above.EndsVisibly ∧
      (generated.merge helpers.documented.exports helpers.index "Api".toList).document.render =
        above ++ ['\n', '\n'] ++ Text.trimStart
          (generated.injected helpers.documented.exports helpers.index "Api".toList).render := by
  obtain ⟨helpers, hhelpers, hexports⟩ := exists_ofText 0 []
    "// a\nexport function f(): void;".toList
    (fun helpers => (helpers.documented.exports.getLast?.bind Node.source?).map
      SourceText.reading = some 0) (by decide +kernel)
  obtain ⟨generated, hgenerated, hstatements⟩ := exists_ofText 1 []
    "\n// b\ninterface Api \x7b\x7d // end".toList
    (fun generated => (generated.statements.head?.bind Node.source?).map
      SourceText.reading = some 1) (by decide +kernel)
  obtain ⟨source, hexports, hreading⟩ := Option.map_eq_some_iff.mp hexports
  obtain ⟨last, hlast, hsource⟩ := Option.bind_eq_some_iff.mp hexports
  obtain ⟨other, hstatements, hotherReading⟩ := Option.map_eq_some_iff.mp hstatements
  obtain ⟨first, hfirst, hother⟩ := Option.bind_eq_some_iff.mp hstatements
  have hdiffer : sameSource last first = false := by
    simp [sameSource, hsource, hother, SourceText.same, hreading, hotherReading]
  have hne : helpers.documented.exports ≠ [] := List.ne_nil_of_mem (List.mem_of_getLast? hlast)
  have hcontent : generated.HasContent :=
    .inl (List.ne_nil_of_mem (List.mem_of_mem_head? hfirst))
  obtain ⟨-, hbegins, hmerges⟩ := Obtained.render_ends (.read hgenerated) hcontent
  obtain ⟨above, -, hends, -, hrender, hseam⟩ :=
    hmerges [helpers.documented] helpers.documented.exports helpers.index "Api".toList
      (by simpa using (Obtained.read hhelpers).documented)
      (fun node hnode => Node.comesFrom_of_mem_exports hnode) hne
  rw [hseam last first hlast hfirst hdiffer (.inl (by simp [hsource]))] at hrender
  exact ⟨helpers, generated, above, hhelpers, hgenerated, hcontent,
    hbegins.mpr (.inl (List.ne_nil_of_mem (List.mem_of_mem_head? hfirst))), hne, hends, hrender⟩

/-- A document without statements begins with a line feed, and one is put behind an export on the
same line. -/
theorem exists_not_render_ends :
    (∃ document, ofText 0 [] "\n// c\n".toList = .ok document ∧ document.HasContent ∧
      document.render = "\n// c\n".toList ∧ ¬ document.render.BeginsVisibly) ∧
    ∃ helpers generated, ofText 0 [] "export function f(): void;\n".toList = .ok helpers ∧
      ofText 1 [] "// end\n".toList = .ok generated ∧ generated.HasContent ∧
      helpers.documented.exports ≠ [] ∧
      (generated.merge helpers.documented.exports helpers.index "Api".toList).document.render =
        "export function f(): void;// end\n".toList := by
  constructor
  · obtain ⟨document, hread, htrailing, hrender⟩ := exists_ofText 0 [] "\n// c\n".toList
      (fun document => Text.trim document.trailing ≠ [] ∧ document.render = "\n// c\n".toList)
      (by decide +kernel)
    refine ⟨document, hread, .inr (Text.exists_mem_of_trim_ne_nil htrailing), hrender, ?_⟩
    rintro ⟨x, rest, hbegins, hx⟩
    obtain rfl : '\n' = x := (List.cons.inj (hrender.symm.trans hbegins)).1
    cases hx
  · obtain ⟨generated, hgenerated, htrailing, hmerges⟩ := exists_ofText 1 [] "// end\n".toList
      (fun generated => Text.trim generated.trailing ≠ [] ∧
        ((ofText 0 [] "export function f(): void;\n".toList).toOption.any fun helpers =>
          decide (helpers.documented.exports.isEmpty = false ∧
            (generated.merge helpers.documented.exports helpers.index
              "Api".toList).document.render = "export function f(): void;// end\n".toList)) = true)
      (by decide +kernel)
    obtain ⟨helpers, hhelpers, hexports, hrender⟩ := exists_ofText 0 [] _ _ hmerges
    exact ⟨helpers, generated, hhelpers, hgenerated,
      .inr (Text.exists_mem_of_trim_ne_nil htrailing), by simpa using hexports, hrender⟩

end Document

end Typings
