import Typings.Proofs.Layout.Copy
import Typings.Proofs.Merging.Injection

/-!
# Generated texts pass through a merge

A merge writes the exported helpers in front of the generated text, which it copies.  Only
the target is changed: the members that describe the helpers are put right behind its opening
brace.
-/

namespace Typings

namespace Document

variable {reading : Nat} {name t target : Text} {generated : Document} {exports : List Node}

theorem marks_eq_nil_of_ofText (h : ofText reading name t = .ok generated) :
    ∀ node ∈ generated.statements, node.marks = [] := by
  rw [← Node.marksAll_eq_nil_iff, ← bare_of_ofText h]
  exact Node.marksAll_bareAll generated.statements

/-- The texts of statements without documentation that tile a stretch are that stretch. -/
theorem flatMap_statementText_of_marks {source : SourceText} {nodes : List Node} {lo hi : Nat}
    (h : Node.TileAll source lo nodes hi) (hdocs : ∀ node ∈ nodes, node.marks = []) :
    nodes.flatMap Node.statementText = Text.slice source.chars lo hi := by
  obtain ⟨-, htexts, -⟩ := flatMap_statementText_eq h
  rw [htexts, Node.editsAll, Node.marksAll_eq_nil_iff.mpr hdocs, List.map_nil, Text.edited]

/-- Statements that were read, behind exports. -/
theorem render_statements (h : ofText reading name t = .ok generated)
    (hne : generated.statements ≠ [])
    (hexports : ∀ node ∈ exports, node.source?.map SourceText.reading ≠ some reading) :
    Document.render { generated with statements := exports ++ generated.statements } =
      behindExports exports (Text.unixLines t) := by
  obtain ⟨stop, htiles, htrailing, -⟩ := tileAll_of_ofText ((bare_of_ofText h).symm ▸ h)
  have htexts := flatMap_statementText_of_marks htiles (marks_eq_nil_of_ofText h)
  rw [render_exports hne (Node.shows_of_tileAll htiles) hexports, htexts, htrailing,
    Text.slice_append_drop _ (Nat.zero_le _), List.drop_zero]

/-- Statements that were read, with members put into one of them, behind exports. -/
theorem render_statements_withMembers {before after members : List Node} {node first : Node}
    (h : ofText reading name t = .ok generated)
    (hstatements : generated.statements = before ++ node :: after)
    (hkind : node.kind = .interface) (hmade : ∀ member ∈ first :: members, member.IsMade)
    (hexports : ∀ node ∈ exports, node.source?.map SourceText.reading ≠ some reading) :
    ∃ place m, node.OpensAt ⟨reading, Text.unixLines t⟩ place m ∧
      Node.IndentsMembers (Text.unixLines t) place node.children
        (place.memberIndent node.children) ∧
      Text.IsIndentAt (Text.unixLines t) place.range.start place.indent ∧
      Document.render { generated with
        statements := exports ++ (before ++ node.withMembers (first :: members) :: after) } =
      behindExports exports (Text.withMembers (Text.unixLines t) m (first :: members)
        (place.memberIndent node.children)
        (if node.children.isEmpty then place.indent else place.memberIndent node.children)) := by
  obtain ⟨stop, htiles, htrailing, -⟩ := tileAll_of_ofText ((bare_of_ofText h).symm ▸ h)
  have hdocs := marks_eq_nil_of_ofText h
  rw [hstatements] at htiles hdocs
  obtain ⟨lo, hbefore, hrest⟩ := htiles.of_append
  cases hrest with
  | cons hnode hafter =>
      obtain ⟨place, m, hopen, hstands, hcloses, rfl⟩ := Node.opensAt_of_tiles hnode hkind
      obtain ⟨last, hmembers, hlast⟩ := hopen.members
      have hsource := hstands.source_eq
      have hindents := Node.indentsMembers_memberIndent hmembers hlast hsource hopen.lt.le
      have hindent : Text.IsIndentAt (Text.unixLines t) place.range.start place.indent := by
        rw [Place.indent, Place.chars, hsource]
        exact Text.isIndentAt_lineIndent _ _
      refine ⟨place, m, hopen, hindents, hindent, ?_⟩
      have hshows : ∀ other ∈ before ++ node.withMembers (first :: members) :: after,
          other.Shows ⟨reading, Text.unixLines t⟩ := by
        intro other hother
        rcases List.mem_append.mp hother with hmem | hmem
        · exact Node.shows_of_tileAll hbefore other hmem
        · rcases List.mem_cons.mp hmem with rfl | hmem
          · exact Node.shows_withMembers hopen hstands hmade
          · exact Node.shows_of_tileAll hafter other hmem
      have htextsBefore := flatMap_statementText_of_marks hbefore
        fun other hmem => hdocs other (by simp [hmem])
      have htextsAfter := flatMap_statementText_of_marks hafter
        fun other hmem => hdocs other (by simp [hmem])
      have htext := Node.statementText_withMembers_append hopen hstands hcloses
        (hdocs node (by simp)) hmade
      -- What follows the target is the rest of the text, so that only its own text is new.
      rw [render_exports (by simp) hshows hexports, htrailing, List.flatMap_append,
        List.flatMap_cons, htextsBefore, htextsAfter, List.append_assoc, List.append_assoc,
        Text.slice_append_drop _ hafter.le, htext, ← List.append_assoc, ← List.append_assoc,
        Text.slice_append_slice _ (Nat.zero_le _) (by have := hstands.lo_le; have := hopen.lt; omega)]
      simp [Text.withMembers_eq, Text.slice]

/-- A merge copies the generated text, behind the exports and with the members that describe
them put into the target, where they are indented as its members are. -/
theorem render_merge (h : ofText reading name t = .ok generated)
    (hne : generated.statements ≠ [])
    (hexports : ∀ node ∈ exports, node.source?.map SourceText.reading ≠ some reading)
    (index : DocIndex) (target : Text) :
    ((Node.describeAll exports index target = [] ∨
        ∀ node ∈ generated.statements, node.isInterfaceNamed target = false) →
      (generated.merge exports index target).document.render =
        behindExports exports (Text.unixLines t)) ∧
    ∀ node, generated.statements.find? (Node.isInterfaceNamed · target) = some node →
      Node.describeAll exports index target ≠ [] →
      ∃ place m, node.OpensAt ⟨reading, Text.unixLines t⟩ place m ∧
        Node.IndentsMembers (Text.unixLines t) place node.children
          (place.memberIndent node.children) ∧
        Text.IsIndentAt (Text.unixLines t) place.range.start place.indent ∧
        (generated.merge exports index target).document.render =
          behindExports exports (Text.withMembers (Text.unixLines t) m
            (Node.describeAll exports index target) (place.memberIndent node.children)
            (if node.children.isEmpty then place.indent
              else place.memberIndent node.children)) := by
  obtain ⟨stop, htiles, -, -⟩ := tileAll_of_ofText ((bare_of_ofText h).symm ▸ h)
  have htarget := Node.isTarget_eq_of_tileAll htiles target
  have hmerge : (generated.merge exports index target).document =
      { generated with statements := exports ++
          injectMembers target (Node.describeAll exports index target) generated.statements } := rfl
  constructor
  · intro hnothing
    have hsame : injectMembers target (Node.describeAll exports index target)
        generated.statements = generated.statements := by
      rcases hnothing with hmembers | hnone
      · rw [hmembers, injectMembers_nil]
      · exact injectMembers_of_forall
          (fun node hnode => (htarget node hnode).trans (hnone node hnode)) _
    rw [hmerge, hsame]
    exact render_statements h hne hexports
  · intro node hfind hmembers
    obtain ⟨hnode, before, after, hstatements, hbefore⟩ := List.find?_eq_some_iff_append.mp hfind
    obtain ⟨first, members, hcons⟩ := List.exists_cons_of_ne_nil hmembers
    have hkind : node.kind = .interface := by
      simp only [Node.isInterfaceNamed, Bool.and_eq_true, beq_iff_eq] at hnode
      exact hnode.1
    have hinject : injectMembers target (Node.describeAll exports index target)
        generated.statements = before ++ node.withMembers (first :: members) :: after := by
      rw [hstatements, hcons]
      refine injectMembers_append_cons (fun other hmem => ?_) ?_
      · rw [htarget other (by simp [hstatements, hmem])]
        simpa using hbefore other hmem
      · rw [htarget node (by simp [hstatements]), hnode]
    have hmade : ∀ member ∈ first :: members, member.IsMade := fun member hmem =>
      Node.isMade_of_mem_describeAll (hcons ▸ hmem)
    rw [hmerge, hinject, hcons]
    exact render_statements_withMembers h hstatements hkind hmade hexports

/-- A documented helper, and a target behind another statement. -/
theorem render_merge_interface :
    ∃ (t : Text) (helpers generated : Document) (node : Node) (place : Place) (m : Nat),
      ofText 1 [] t = .ok generated ∧ generated.statements ≠ [] ∧
      (∀ node ∈ helpers.documented.exports, node.source?.map SourceText.reading ≠ some 1) ∧
      (Node.describeAll helpers.documented.exports helpers.index "Api".toList).length = 1 ∧
      generated.statements.find? (Node.isInterfaceNamed · "Api".toList) = some node ∧
      node.OpensAt ⟨1, Text.unixLines t⟩ place m ∧
      Node.IndentsMembers (Text.unixLines t) place node.children
        (place.memberIndent node.children) ∧
      Text.IsIndentAt (Text.unixLines t) place.range.start place.indent ∧
      (generated.merge helpers.documented.exports helpers.index "Api".toList).document.render =
        behindExports helpers.documented.exports (Text.withMembers (Text.unixLines t) m
          (Node.describeAll helpers.documented.exports helpers.index "Api".toList)
          (place.memberIndent node.children)
          (if node.children.isEmpty then place.indent
            else place.memberIndent node.children)) := by
  obtain ⟨helpers, -, hexports, hmembers⟩ := exists_ofText 0 []
    "/* runs */\nexport function run(count: number): void;".toList
    (fun helpers =>
      (∀ node ∈ helpers.documented.exports, node.source?.map SourceText.reading ≠ some 1) ∧
        (Node.describeAll helpers.documented.exports helpers.index "Api".toList).length = 1)
    (by decide +kernel)
  obtain ⟨generated, hread, hfound⟩ := exists_ofText 1 []
    "type A = 1;\ninterface Api \x7b a(): void \x7d // end".toList
    (fun generated =>
      (generated.statements.find? (Node.isInterfaceNamed · "Api".toList)).isSome = true)
    (by decide +kernel)
  obtain ⟨node, hfind⟩ := Option.isSome_iff_exists.mp hfound
  have hne : generated.statements ≠ [] := List.ne_nil_of_mem (List.mem_of_find?_eq_some hfind)
  have hsome : Node.describeAll helpers.documented.exports helpers.index "Api".toList ≠ [] :=
    List.ne_nil_of_length_pos (by omega)
  obtain ⟨place, m, hopen, hindents, hindent, hrender⟩ :=
    (render_merge hread hne hexports helpers.index "Api".toList).2 node hfind hsome
  exact ⟨_, helpers, generated, node, place, m, hread, hne, hexports, hmembers, hfind, hopen,
    hindents, hindent, hrender⟩

end Document

end Typings
