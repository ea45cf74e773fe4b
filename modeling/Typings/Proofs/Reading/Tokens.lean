import Typings.Proofs.Reading.Moves

/-!
# What stands at a token

A token tells what stands in the text where it was read.  A mark stands there as it is
written, and a word is made of the characters that go on with a name, escaped or not.  A line
break before a token stands in the gap between the token before and this one.
-/

namespace Typings
namespace Syntax

section Gaps

namespace Gap

/-- The gap is at the front of the text, and a line break that it passes stands in it unless
one was known before. -/
def Passes (gap : Gap) (t : Text) (sawBreak : Bool) : Prop :=
  ∃ front, t = front ++ gap.rest ∧
    (gap.sawBreak = true → sawBreak = true ∨ ∃ x ∈ front, isLineBreak x = true)

variable {gap : Gap} {t : Text} {sawBreak : Bool} {c : Char}

theorem Passes.nil {gap : Gap} (hrest : gap.rest = t) (hsaw : gap.sawBreak = sawBreak) :
    gap.Passes t sawBreak :=
  ⟨[], hrest.symm, fun h => .inl (hsaw ▸ h)⟩

theorem Passes.cons (c : Char) (h : gap.Passes t sawBreak) : gap.Passes (c :: t) sawBreak := by
  obtain ⟨front, rfl, hbreak⟩ := h
  refine ⟨c :: front, rfl, ?_⟩
  intro hsaw
  rcases hbreak hsaw with hbefore | ⟨x, hx, hline⟩
  · exact .inl hbefore
  · exact .inr ⟨x, List.mem_cons_of_mem _ hx, hline⟩

theorem Passes.cons_lineBreak (hline : isLineBreak c = true) {known : Bool}
    (h : gap.Passes t known) : gap.Passes (c :: t) sawBreak := by
  obtain ⟨front, rfl, -⟩ := h
  exact ⟨c :: front, rfl, fun _ => .inr ⟨c, by simp, hline⟩⟩

theorem passes_readFrom (t : Text) (pos : Nat) (inside : Inside) (sawBreak : Bool)
    (met : List MetComment) : (readFrom t pos inside sawBreak met).Passes t sawBreak := by
  fun_induction readFrom t pos inside sawBreak met with
  | case1 | case2 | case3 | case9 => exact .nil rfl rfl
  | case4 rest pos sawBreak met ih => exact (ih.cons '/').cons '/'
  | case5 rest pos sawBreak met ih => exact (ih.cons '*').cons '/'
  | case6 rest pos start afterBreak sawBreak met ih => exact (ih.cons '/').cons '*'
  | case7 c rest pos sawBreak met _ _ hline ih => exact ih.cons_lineBreak hline
  | case8 c rest pos sawBreak met _ _ _ _ ih => exact ih.cons c
  | case10 c rest pos start afterBreak sawBreak met hline ih => exact ih.cons_lineBreak hline
  | case11 c rest pos start afterBreak sawBreak met _ ih => exact ih.cons c
  | case12 c rest pos start afterBreak sawBreak met _ ih =>
      by_cases hline : isLineBreak c = true
      · exact ih.cons_lineBreak hline
      · have hnone : (sawBreak || isLineBreak c) = sawBreak := by simp [hline]
        rw [hnone] at ih ⊢
        exact ih.cons c

/-- A line break that a gap passes stands between its two ends. -/
theorem exists_lineBreak {t : Text} {pos : Nat} (h : (read t pos false).sawBreak = true) :
    ∃ x ∈ t.take ((read t pos false).stop - pos), isLineBreak x = true := by
  obtain ⟨front, hfront, hbreak⟩ := passes_readFrom t pos .space false []
  change t = front ++ (read t pos false).rest at hfront
  have hreads := reads_read t pos false
  have hle := hreads.stop_le
  have hlength := congrArg List.length hfront
  have hrest := congrArg List.length hreads.rest_eq
  rw [List.length_append] at hlength
  rw [List.length_drop] at hrest
  have htake : t.take ((read t pos false).stop - pos) = front := by
    have hfits : front.length = (read t pos false).stop - pos := by omega
    rw [← hfits]
    exact hfront ▸ List.take_left
  rw [htake]
  exact (hbreak h).resolve_left (by simp)

end Gap

end Gaps

section Words

/-- The character is part of no name, escaped or not. -/
def IsOutsideNames (x : Char) : Prop :=
  x ≠ '\x00' ∧ continuesName x.toNat = false

instance (x : Char) : Decidable (IsOutsideNames x) :=
  inferInstanceAs (Decidable (_ ∧ _))

/-- A text that can name something. -/
def IsName (t : Text) : Prop :=
  t ≠ [] ∧ ∀ x, IsOutsideNames x → x ∉ t

theorem eq_toNat_of_ofNat_eq {code : Nat} {x : Char} (hx : x ≠ '\x00') (h : Char.ofNat code = x) :
    code = x.toNat := by
  by_cases hvalid : code.isValidChar
  · have hnat := congrArg Char.toNat h
    rw [Char.ofNat, dif_pos hvalid] at hnat
    exact hnat
  · rw [Char.ofNat, dif_neg hvalid] at h
    exact absurd h.symm hx

theorem not_mem_readName {fuel : Nat} {t : Text} {taken : Taken (Text × Bool)} {x : Char}
    (h : readName fuel t = some taken) (hx : IsOutsideNames x) : x ∉ taken.value.1 := by
  induction fuel generalizing t taken with
  | zero =>
      obtain rfl := Option.some.inj h
      simp
  | succ fuel ih =>
      unfold readName at h
      split at h
      · contradiction
      · obtain rfl := Option.some.inj h
        simp
      · rename_i previous rest hfuel
        obtain rfl := Nat.succ.inj hfuel
        split at h
        · obtain ⟨escape, -, h⟩ := Option.bind_eq_some_iff.mp h
          split at h
          · rename_i hcontinues
            obtain ⟨more, hmore, h⟩ := Option.bind_eq_some_iff.mp h
            obtain rfl := Option.some.inj h
            have hescape : x ≠ Char.ofNat escape.value := by
              intro heq
              rw [eq_toNat_of_ofNat_eq hx.1 heq.symm, hx.2] at hcontinues
              cases hcontinues
            exact List.not_mem_cons_of_ne_of_not_mem hescape (ih hmore)
          · cases h
        · cases h
      · rename_i previous c rest _ hfuel
        obtain rfl := Nat.succ.inj hfuel
        split at h
        · rename_i hcontinues
          obtain ⟨more, hmore, rfl⟩ := Option.map_eq_some_iff.mp h
          refine List.not_mem_cons_of_ne_of_not_mem ?_ (ih hmore)
          rintro rfl
          rw [hx.2] at hcontinues
          cases hcontinues
        · obtain rfl := Option.some.inj h
          simp

theorem isName_of_readWord {fuel : Nat} {t : Text} {taken : Taken String}
    (h : readWord fuel t = some taken) : IsName taken.value.toList := by
  obtain ⟨name, hname, h⟩ := Option.bind_eq_some_iff.mp h
  have houtside : ∀ x, IsOutsideNames x → x ∉ name.value.1 := fun _ => not_mem_readName hname
  dsimp only at h
  split at h
  · cases h
  · rename_i first rest hvalue
    split at h
    · cases h
    · split at h
      · cases h
      · obtain rfl := Option.some.inj h
        rw [hvalue] at houtside
        exact ⟨by simp [Taken.map, hvalue], by simpa [Taken.map, hvalue] using houtside⟩

/-- A token that is a word can name something. -/
theorem readToken_word {fuel : Nat} {afterBreak : Bool} {t : Text} {word : String}
    (h : (readToken fuel afterBreak t).value = .word word) : IsName word.toList := by
  have hnumber : ¬ IsNumber (.word word) := by simp [IsNumber]
  simp only [readToken] at h
  split at h
  · simp at h
  · rename_i c rest
    split at h
    · cases hs : readString fuel c rest <;> simp [hs, Taken.map, Taken.after] at h
    split at h
    · exact absurd (isNumber_of_getD_readNumber (by simp) h) hnumber
    split at h
    · exact absurd (isNumber_of_getD_readNumber (by simp) h) hnumber
    split at h
    · cases hw : readWord fuel (c :: rest) with
      | none => simp [hw] at h
      | some taken =>
          obtain rfl : taken.value = word := by simpa [hw, Taken.map] using h
          exact isName_of_readWord hw
    · cases hm : readMark afterBreak (c :: rest) <;> simp [hm, Taken.map] at h

end Words

namespace Cursor

section Places

variable {t : Text} {c d : Cursor}

/-- The last move to a later place starts at the earlier place or behind it. -/
theorem exists_past_of_lt (h : c < d) :
    ∃ b size kind length, c ≤ b ∧ b.holds length = true ∧ d = b.past size kind length := by
  have hreaches : c.Reaches d := h.le
  have hne : c ≠ d := h.ne
  clear h
  induction hreaches with
  | refl => exact absurd rfl hne
  | @step c d size kind length hold hrest ih =>
      by_cases heq : c.past size kind length = d
      · exact ⟨c, size, kind, length, le_rfl, hold, heq.symm⟩
      · obtain ⟨b, size', kind', length', hle, hlast, rfl⟩ := ih heq
        exact ⟨b, size', kind', length', (lt_past hold).le.trans hle, hlast, rfl⟩

/-- The token of a place that was reached was read after a gap. -/
theorem exists_following (h : atStart t ≤ c) :
    ∃ size before stop rest sawBreak comments,
      c.token = (following size before stop rest sawBreak comments).token ∧
        c.here = (following size before stop rest sawBreak comments).here := by
  rcases eq_or_lt_of_le h with rfl | hlt
  · obtain ⟨stop, -, hfirst⟩ := exists_first_eq t
    simp only [atStart, hfirst]
    exact ⟨_, _, _, _, _, _, rfl, rfl⟩
  · obtain ⟨b, size, kind, length, -, -, rfl⟩ := exists_past_of_lt hlt
    exact ⟨_, _, _, _, _, _, rfl, rfl⟩

/-- The token of a place that was reached is what stands there, unless it is no token. -/
theorem exists_readToken (h : atStart t ≤ c) (hknown : c.token.kind ≠ .unknown) :
    ∃ fuel afterBreak, c.token.kind = (readToken fuel afterBreak (t.drop c.position)).value ∧
      c.token.span.stop =
        c.position + (readToken fuel afterBreak (t.drop c.position)).length := by
  have hhere := ((sound_atStart t).of_le h).here_eq
  obtain ⟨size, before, stop, rest, sawBreak, comments, htoken, hrest⟩ := exists_following h
  rw [← hhere, hrest, position, htoken]
  rw [htoken] at hknown
  simp only [following] at hknown ⊢
  split at hknown
  · rename_i hclosed
    rw [if_pos hclosed]
    exact ⟨_, _, rfl, rfl⟩
  · exact absurd rfl hknown

/-- A mark other than a question mark stands in the text as it is written. -/
theorem mark_spelled (h : atStart t ≤ c) {text : String} (hmark : c.token.kind = .mark text)
    (hquestion : text ≠ "?") (haccess : text ≠ "?.") :
    text.toList <+: t.drop c.position ∧ c.token.span.stop = c.position + text.toList.length := by
  obtain ⟨fuel, afterBreak, hkind, hstop⟩ := exists_readToken h (by simp [hmark])
  rcases readToken_mark (hkind.symm.trans hmark) with hq | hq | ⟨hopens, hlength⟩
  · exact absurd hq hquestion
  · exact absurd hq haccess
  · exact ⟨hopens, by rw [hstop, hlength]⟩

/-- A mark of one character stands where its token starts, and the token ends behind it. -/
theorem getElem?_of_mark (h : atStart t ≤ c) {text : String} {x : Char}
    (hmark : c.token.kind = .mark text) (htext : text.toList = [x]) (hx : x ≠ '?') :
    t[c.position]? = some x ∧ c.token.span.stop = c.position + 1 := by
  have hquestion : text ≠ "?" := by
    rintro rfl
    exact hx (by simpa using htext.symm)
  have haccess : text ≠ "?." := by
    rintro rfl
    simp at htext
  obtain ⟨⟨rest, hrest⟩, hstop⟩ := mark_spelled h hmark hquestion haccess
  have hhead := congrArg List.head? hrest
  rw [htext, List.head?_drop] at hhead
  rw [htext] at hstop
  exact ⟨hhead.symm, hstop⟩

theorem word_spelled (h : atStart t ≤ c) {word : String} (hword : c.token.kind = .word word) :
    IsName word.toList := by
  obtain ⟨fuel, afterBreak, hkind, -⟩ := exists_readToken h (by simp [hword])
  exact readToken_word (hkind.symm.trans hword)

/-- A place that was moved to comes after the gap behind the token before. -/
theorem position_eq_read (h : atStart t ≤ c) (hlt : c < d) :
    d.position = (Gap.read (t.drop d.lastStop) d.lastStop false).stop := by
  obtain ⟨b, size, kind, length, hle, -, rfl⟩ := exists_past_of_lt hlt
  have hhere := ((sound_atStart t).of_le (h.trans hle)).here_eq
  simp only [past, following_lastStop, following_position, hhere, List.drop_drop]

/-- A line break before a token stands between the token before and this one. -/
theorem exists_lineBreak (h : atStart t ≤ c) (hlt : c < d) (hbreak : d.token.afterBreak = true) :
    ∃ x ∈ Text.slice t d.lastStop d.position, isLineBreak x = true := by
  obtain ⟨b, size, kind, length, hle, -, rfl⟩ := exists_past_of_lt hlt
  have hhere := ((sound_atStart t).of_le (h.trans hle)).here_eq
  simp only [past, following_lastStop, following_position, hhere, List.drop_drop, Text.slice]
  refine Gap.exists_lineBreak ?_
  rw [past, hhere, List.drop_drop] at hbreak
  exact hbreak

end Places

end Cursor

end Syntax
end Typings
