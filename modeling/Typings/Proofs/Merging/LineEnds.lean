import Typings.Proofs.Documentation.Closing
import Typings.Proofs.Layout.Characters
import Typings.Proofs.Merging.Documentation
import Typings.Proofs.Merging.Outcome
import Typings.Proofs.Merging.Text
import Typings.Proofs.Text.LineEnds

/-!
# Line ends of a merged text

What is read has no carriage return left but the strays of the text.  A merge writes line feeds
only, and everything else that it writes stands in what was read, in the name of a declaration, or
in the banner.

**Where they come from.**  A stray in one of the two texts can come out again, and so can a
carriage return in the name of the generator, which is checked for line feeds only.
-/

namespace Typings

open Syntax

variable {x : Char}

section Documents

/-- Documentation lacks what its comment lacks. -/
theorem DocComment.lacks_of_normalize {raw : Text} {doc : DocComment}
    (h : normalize raw = some doc) (hx : x ∉ raw) : doc.Lacks x := by
  intro line hline hmem
  have hstretch := (infix_of_mem_lines_of_normalize h hline).trans (isInfix_stripDelimiters _)
  exact hx ((isInfix_trim raw).mem (hstretch.mem hmem))

namespace Document

variable {reading : Nat} {title t : Text} {document : Document} {node : Node}

/-- The documentation in front of a node that was read lacks what the text lacks. -/
theorem lacks_commentDoc (h : ofText reading title t = .ok document) (hx : x ∉ Text.unixLines t)
    (hnode : node ∈ Node.walkAll document.statements) :
    ∀ doc ∈ node.commentDoc, doc.Lacks x := by
  intro doc hdoc
  obtain ⟨place, hshaped⟩ := shaped_of_mem_walkAll h hnode
  obtain ⟨raw, hraw, hnormal⟩ := Option.bind_eq_some_iff.mp hdoc
  rw [hshaped.place?_eq, Option.bind_some] at hraw
  obtain ⟨span, -, rfl⟩ := Option.map_eq_some_iff.mp hraw
  rw [hshaped.bounded.source_eq] at hnormal
  exact DocComment.lacks_of_normalize hnormal (Text.not_mem_slice hx _ _)

/-- Every node of a document that was read lacks what the text lacks. -/
theorem lacks_of_ofText (h : ofText reading title t = .ok document) (hx : x ∉ Text.unixLines t) :
    ∀ node ∈ Node.walkAll document.statements, node.Lacks x := by
  intro node hnode
  obtain ⟨place, hshaped⟩ := shaped_of_mem_walkAll h hnode
  refine ⟨?_, by simp [doc_of_mem_walkAll h hnode]⟩
  rw [Node.origin_of_place? hshaped.place?_eq, Origin.chars, Place.chars,
    hshaped.bounded.source_eq]
  exact hx

/-- Documenting a document does not change that. -/
theorem lacks_documented (h : ofText reading title t = .ok document) (hx : x ∉ Text.unixLines t) :
    ∀ node ∈ Node.walkAll document.documented.statements, node.Lacks x := by
  intro node hnode
  rw [documented, Node.walkAll_documentedAll] at hnode
  obtain ⟨original, horiginal, rfl⟩ := List.mem_map.mp hnode
  have hlacks := lacks_of_ofText h hx original horiginal
  refine ⟨?_, ?_⟩
  · obtain ⟨⟩ := original
    exact hlacks.origin
  · rw [Node.doc_documented, doc_of_mem_walkAll h horiginal, Option.or_none]
    exact lacks_commentDoc h hx horiginal

/-- What the index of a document holds lacks what the text lacks. -/
theorem lacks_get?_index (h : ofText reading title t = .ok document) (hx : x ∉ Text.unixLines t)
    (name : Text) : ∀ doc ∈ document.index.get? name, doc.Lacks x := by
  intro doc hdoc
  rw [get?_index_eq] at hdoc
  obtain ⟨node, hnode, hcomment⟩ := List.mem_filterMap.mp (List.mem_of_getLast? hdoc)
  exact lacks_commentDoc h hx (List.mem_filter.mp hnode).1 doc hcomment

/-- The exports of a document lack what its text lacks. -/
theorem lacks_exports (h : ofText reading title t = .ok document) (hx : x ∉ Text.unixLines t) :
    ∀ node ∈ Node.walkAll document.documented.exports, node.Lacks x := by
  intro node hnode
  rw [Node.walkAll_eq_flatMap] at hnode
  obtain ⟨statement, hstatement, hbelow⟩ := List.mem_flatMap.mp hnode
  refine lacks_documented h hx node ?_
  rw [Node.walkAll_eq_flatMap]
  exact List.mem_flatMap.mpr ⟨statement, (List.mem_filter.mp hstatement).1, hbelow⟩

end Document

end Documents

section Members

/-- The characters of a member besides its name and the texts of its types. -/
def memberCharacters : Text :=
  ['(', ')', ',', ' ', ':', ';']

theorem Text.not_mem_joinWith {separator : Text} {pieces : List Text} (hseparator : x ∉ separator)
    (h : ∀ piece ∈ pieces, x ∉ piece) : x ∉ joinWith separator pieces := by
  fun_induction joinWith separator pieces with
  | case1 => exact List.not_mem_nil
  | case2 piece => exact h piece List.mem_cons_self
  | case3 piece next others ih =>
      obtain ⟨hpiece, hrest⟩ := List.forall_mem_cons.mp h
      simp [hpiece, hseparator, ih hrest]

/-- The parts of a signature lack the character. -/
structure Signature.Lacks (x : Char) (signature : Signature) : Prop where
  typeParams : ∀ t ∈ signature.typeParams, x ∉ t
  params : ∀ t ∈ signature.params, x ∉ t
  result : ∀ t ∈ signature.result, x ∉ t

theorem Signature.Lacks.not_mem_methodText (hx : x ∉ memberCharacters) {signature : Signature}
    (h : signature.Lacks x) {name : Text} (hname : x ∉ name) : x ∉ signature.methodText name := by
  simp only [memberCharacters, List.mem_cons, not_or] at hx
  obtain ⟨hopen, hclose, hcomma, hblank, hcolon, hsemicolon, -⟩ := hx
  have htypeParams : x ∉ signature.typeParams.getD [] := by
    cases ht : signature.typeParams with
    | none => exact List.not_mem_nil
    | some t => exact h.typeParams t ht
  have hparams : x ∉ Text.joinWith [',', ' '] signature.params :=
    Text.not_mem_joinWith (by simp [hcomma, hblank]) h.params
  rw [methodText]
  cases ht : signature.result with
  | none => simp [hname, htypeParams, hopen, hparams, hclose, hsemicolon]
  | some t =>
      simp [hname, htypeParams, hopen, hparams, hclose, hcolon, hblank, h.result t ht, hsemicolon]

namespace ReadText

variable {r : ReadText}

theorem lacks_of_kindOf_eq {form : Form} {signature : Signature} (hx : x ∉ r.chars)
    (h : r.kindOf form = .function signature) : signature.Lacks x := by
  have htext : ∀ span, x ∉ r.textOf span := fun span => Text.not_mem_slice hx _ _
  cases form with
  | function spans =>
      obtain rfl := DeclKind.function.inj h
      refine ⟨?_, ?_, ?_⟩
      · intro t ht
        obtain ⟨span, -, rfl⟩ := Option.map_eq_some_iff.mp ht
        exact htext span
      · intro t ht
        obtain ⟨span, -, rfl⟩ := List.mem_map.mp ht
        exact htext _
      · intro t ht
        obtain ⟨span, -, rfl⟩ := Option.map_eq_some_iff.mp ht
        exact htext span
  | _ => cases h

theorem not_mem_of_kindOf_eq {form : Form} {type : Text} (hx : x ∉ r.chars)
    (h : r.kindOf form = .variable (some type)) : x ∉ type := by
  cases form with
  | «variable» ascription =>
      obtain ⟨span, -, rfl⟩ := Option.map_eq_some_iff.mp (DeclKind.variable.inj h)
      exact Text.not_mem_slice hx _ _
  | _ => cases h

end ReadText

namespace Document

variable {reading : Nat} {title t target text : Text} {document : Document} {node member : Node}

/-- The text of a member lacks what the name and the text of the document lack. -/
theorem not_mem_of_memberText (hmember : x ∉ memberCharacters)
    (h : ofText reading title t = .ok document) (hx : x ∉ Text.unixLines t)
    (hnode : node ∈ Node.walkAll document.statements)
    (hname : ∀ name ∈ node.name, x ∉ name) (htext : node.MemberText text) : x ∉ text := by
  obtain ⟨r, -, parent, gap, ⟨⟩, -, -, hsource, -, rfl, -⟩ := exists_nodeOf_of_mem_walkAll h hnode
  have hchars : x ∉ r.chars := by
    rw [ReadText.chars, hsource]
    exact hx
  cases htext with
  | function hown hkind =>
      exact (ReadText.lacks_of_kindOf_eq hchars hkind).not_mem_methodText hmember (hname _ hown)
  | «variable» hown hkind =>
      have htype := ReadText.not_mem_of_kindOf_eq hchars hkind
      have hself := hname _ hown
      simp_all [memberCharacters]

/-- A member that describes an export lacks what the text lacks, unless a name can hold it. -/
theorem lacks_of_describe? (hnames : IsOutsideNames x) (hcharacters : x ∉ memberCharacters)
    (h : ofText reading title t = .ok document) (hx : x ∉ Text.unixLines t)
    (hnode : node ∈ document.documented.exports)
    (hmember : node.describe? document.index target = some member) :
    ∀ other ∈ member.walk, other.Lacks x := by
  obtain ⟨hmem, hexported⟩ := List.mem_filter.mp hnode
  rw [documented, Node.documentedAll_eq_map] at hmem
  obtain ⟨original, horiginal, rfl⟩ := List.mem_map.mp hmem
  rw [Node.exported_documented] at hexported
  rw [Node.describe?_documented] at hmember
  obtain ⟨name, hname, -, houtside⟩ := isName_of_describe? h horiginal hexported hmember
  have hdescribes := Node.describes_of_describe? hmember
  obtain ⟨text, horigin, htext⟩ := hdescribes.text
  intro other hother
  rw [Node.walk_eq, hdescribes.children, Node.walkAll, List.mem_singleton] at hother
  subst hother
  constructor
  · rw [horigin]
    refine not_mem_of_memberText hcharacters h hx (Node.mem_walkAll_of_mem horiginal) ?_ htext
    intro own hown
    obtain rfl := Option.some.inj (hname.symm.trans hown)
    exact houtside x hnames
  · intro doc hdoc
    obtain ⟨qualified, -, hentry⟩ := (hdescribes.doc doc).mp hdoc
    exact lacks_get?_index h hx qualified doc (DocIndex.get?_eq_some_iff.mpr hentry)

end Document

/-- Members are put into nodes without adding a character of another kind. -/
theorem lacks_injectMembers (target : Text) {members nodes : List Node}
    (hmembers : ∀ other ∈ Node.walkAll members, other.Lacks x)
    (hnodes : ∀ other ∈ Node.walkAll nodes, other.Lacks x) :
    ∀ other ∈ Node.walkAll (injectMembers target members nodes), other.Lacks x := by
  induction nodes with
  | nil => exact hnodes
  | cons node rest ih =>
      obtain ⟨hnode, hrest⟩ := List.forall_mem_append.mp hnodes
      rw [injectMembers]
      split
      · rw [Node.walk_eq] at hnode
        obtain ⟨hself, hchildren⟩ := List.forall_mem_cons.mp hnode
        rw [Node.walkAll, Node.walk_eq]
        refine List.forall_mem_append.mpr ⟨List.forall_mem_cons.mpr ⟨⟨hself.origin, hself.doc⟩, ?_⟩,
          hrest⟩
        rw [Node.withMembers, Node.withChildren, Node.walkAll_append]
        exact List.forall_mem_append.mpr ⟨hmembers, hchildren⟩
      · exact List.forall_mem_append.mpr ⟨hnode, ih hrest⟩

end Members

namespace Merged

variable {config : Configuration} {helpersText generatedText : Text} {helpers generated : Document}

/-- A merged document lacks what the two texts lack, unless the layout, a member or a name can
hold it. -/
theorem not_mem_render_merge (hlayout : x ∉ layoutCharacters) (hcharacters : x ∉ memberCharacters)
    (hnames : IsOutsideNames x)
    (hhelpers : Document.ofText 0 config.handAuthored helpersText = .ok helpers)
    (hgenerated : Document.ofText 1 config.generated generatedText = .ok generated)
    (hx : x ∉ Text.unixLines helpersText) (hy : x ∉ Text.unixLines generatedText) :
    x ∉ (generated.merge helpers.documented.exports helpers.index
      config.target).document.render := by
  obtain ⟨stop, -, htrailing, -⟩ :=
    Document.tileAll_of_ofText ((Document.bare_of_ofText hgenerated).symm ▸ hgenerated)
  refine Document.not_mem_render hlayout ?_ ?_
  · rw [Document.merge, Node.walkAll_append]
    refine List.forall_mem_append.mpr ⟨Document.lacks_exports hhelpers hx, ?_⟩
    refine lacks_injectMembers _ ?_ (Document.lacks_of_ofText hgenerated hy)
    intro other hother
    rw [Node.walkAll_eq_flatMap] at hother
    obtain ⟨member, hmember, hbelow⟩ := List.mem_flatMap.mp hother
    obtain ⟨node, hnode, hdescribe⟩ := List.mem_filterMap.mp hmember
    exact Document.lacks_of_describe? hnames hcharacters hhelpers hx hnode hdescribe other hbelow
  · rw [Document.merge]
    dsimp only
    rw [htrailing]
    exact fun hmem => hy (List.mem_of_mem_drop hmem)

/-- The banner is the only other source of a character that a merge does not write by itself. -/
theorem mem_print_iff {document : Document} {generator : Text} (hlayout : x ∉ layoutCharacters)
    (hbanner : x ∉ Document.banner []) (hrender : x ∉ document.render) :
    x ∈ document.print generator ↔ x ∈ generator := by
  have hfeed := ne_lineFeed hlayout
  unfold Document.print
  unfold Document.banner at hbanner ⊢
  generalize "// This file was generated by ".toList = words at hbanner ⊢
  rw [List.append_nil, List.mem_append, not_or, List.mem_singleton] at hbanner
  simp [hbanner, hfeed, hrender]

/-- A lone carriage return comes out again, and a text with two of them before a line feed is
changed by a second pass. -/
theorem exists_return_mem_text :
    ∃ merged, ofTexts .standard [] "type A = 1;\r\r\ntype B = 2;\n".toList = .ok merged ∧
      '\r' ∈ merged.text ∧
      Text.unixLines (Text.unixLines "type A = 1;\r\r\ntype B = 2;\n".toList) ≠
        Text.unixLines "type A = 1;\r\r\ntype B = 2;\n".toList := by
  obtain ⟨merged, hmerge, hreturn⟩ :=
    exists_ok_of_any (ofTexts .standard [] "type A = 1;\r\r\ntype B = 2;\n".toList)
      (fun merged => '\r' ∈ merged.text) (by decide +kernel)
  exact ⟨merged, hmerge, hreturn, by decide +kernel⟩

/-- **One line ending.**  Where every carriage return of the two texts stands before a line feed,
the merged text has one only if the name of the generator has.  In general, one pass leaves the
strays of a text, and a second pass changes nothing unless two carriage returns stood before a
line feed. -/
theorem return_mem_text_iff (hcheck : config.check = .ok ())
    (hhelpers : Document.ofText 0 config.handAuthored helpersText = .ok helpers)
    (hgenerated : Document.ofText 1 config.generated generatedText = .ok generated)
    (hx : ¬ Text.HasStray helpersText) (hy : ¬ Text.HasStray generatedText) :
    (∃ merged, ofTexts config helpersText generatedText = .ok merged ∧
      ('\r' ∈ merged.text ↔ '\r' ∈ config.generator)) ∧
    (∀ t, '\r' ∈ Text.unixLines t ↔ Text.HasStray t) ∧
    ∀ t, Text.unixLines (Text.unixLines t) = Text.unixLines t ↔ ¬ ['\r', '\r', '\n'] <:+: t := by
  refine ⟨⟨ofDocuments helpers generated config,
    ofTexts_eq_ok_iff.mpr ⟨hcheck, helpers, generated, hhelpers, hgenerated, rfl⟩, ?_⟩,
    Text.return_mem_unixLines, Text.unixLines_unixLines_iff⟩
  have hrender := not_mem_render_merge (x := '\r') (by decide) (by decide) (by decide)
    hhelpers hgenerated ((Text.return_mem_unixLines _).not.mpr hx)
    ((Text.return_mem_unixLines _).not.mpr hy)
  exact mem_print_iff (by decide) (by decide) hrender

/-- Documentation and members of texts that are written with both characters throughout. -/
theorem return_mem_text_iff_pairs :
    ∃ helpersText generatedText helpers generated,
      '\r' ∈ helpersText ∧ '\r' ∈ generatedText ∧
      Configuration.standard.check = .ok () ∧
      Document.ofText 0 Configuration.standard.handAuthored helpersText = .ok helpers ∧
      Document.ofText 1 Configuration.standard.generated generatedText = .ok generated ∧
      ¬ Text.HasStray helpersText ∧ ¬ Text.HasStray generatedText ∧
      (∃ merged, ofTexts .standard helpersText generatedText = .ok merged ∧
        ('\r' ∈ merged.text ↔ '\r' ∈ Configuration.standard.generator)) ∧
      (∀ t, '\r' ∈ Text.unixLines t ↔ Text.HasStray t) ∧
      ∀ t, Text.unixLines (Text.unixLines t) = Text.unixLines t ↔
        ¬ ['\r', '\r', '\n'] <:+: t := by
  obtain ⟨helpers, hhelpers, -⟩ := Document.exists_ofText 0 Configuration.standard.handAuthored
    "/** a\r\n * b */\r\nexport function f(x: A): B;\r\n".toList
    (fun document => document.statements.length = 1) (by decide +kernel)
  obtain ⟨generated, hgenerated, -⟩ := Document.exists_ofText 1 Configuration.standard.generated
    "interface CustomEmbindModule \x7b\r\n  y: C;\r\n\x7d\r\n".toList
    (fun document => document.statements.length = 1) (by decide +kernel)
  have hx := (Text.return_mem_unixLines
    "/** a\r\n * b */\r\nexport function f(x: A): B;\r\n".toList).not.mp (by decide +kernel)
  have hy := (Text.return_mem_unixLines
    "interface CustomEmbindModule \x7b\r\n  y: C;\r\n\x7d\r\n".toList).not.mp
    (by decide +kernel)
  have hcheck : Configuration.standard.check = .ok () := by decide +kernel
  exact ⟨_, _, helpers, generated, by decide +kernel, by decide +kernel, hcheck, hhelpers,
    hgenerated, hx, hy, return_mem_text_iff hcheck hhelpers hgenerated hx hy⟩

end Merged

end Typings
