import CodeMigration.Proofs.Places.Tree

/-! # Tokens within the lines of a text

Reading characters never changes the number of the last line to come, and every token takes up a stretch of what is
read. So tokens stand in order, each within the lines of the text, and bear their numbers. -/

namespace CodeMigration.Source

namespace Reader

/-- The number of the last line that is read before the text ends. -/
def lastLine (r : Reader) : Nat := r.line + r.rest.dropLast.count '\n'

/-- Where a reader can come to: no line back, and the same lines to come. -/
structure Reaches (r r' : Reader) : Prop where
  line : r.line ≤ r'.line
  last : r'.lastLine = r.lastLine

theorem Reaches.refl (r : Reader) : r.Reaches r := ⟨Nat.le_refl _, rfl⟩

theorem Reaches.trans {r r' r'' : Reader} (h : r.Reaches r') (h' : r'.Reaches r'') : r.Reaches r'' :=
  ⟨Nat.le_trans h.line h'.line, h'.last.trans h.last⟩

theorem reaches_next (r : Reader) : r.Reaches r.next := by
  obtain ⟨rest, line, col⟩ := r
  match rest with
  | [] => exact .refl _
  | [c] => constructor <;> simp [next, lastLine]
  | c :: d :: rest =>
    by_cases hc : c = '\n'
    · constructor <;> simp [next, lastLine, hc]
      omega
    · constructor <;> simp [next, lastLine, hc]

theorem reaches_skip (k : Nat) (r : Reader) : r.Reaches (r.skip k) := by
  induction k generalizing r with
  | zero => exact .refl r
  | succ k ih => exact (reaches_next r).trans (ih r.next)

theorem reaches_skipComment (r : Reader) : r.Reaches (skipComment r) := by
  unfold skipComment
  split
  · exact reaches_skip _ r
  · exact .refl r

theorem line_le_lastLine (r : Reader) : r.line ≤ r.lastLine := Nat.le_add_right _ _

end Reader

theorem count_dropLast_le {p l : List Char} (h : p <+: l) (c : Char) : p.dropLast.count c ≤ l.dropLast.count c := by
  have htake : p.dropLast <+: l.dropLast := by
    rw [List.dropLast_eq_take, List.dropLast_eq_take, List.prefix_iff_eq_take.1 h, List.length_take, List.take_take]
    exact List.take_prefix_take_left (by omega)
  exact htake.sublist.count_le c

/-- A token within so many lines, as is what it spells apart from its last character. -/
structure Token.Placed (n : Nat) (t : Token) : Prop where
  within : t.span.Within n
  spelled : t.span.line + t.text.toList.dropLast.count '\n' ≤ n

/-- Tokens of a text of so many lines, in the order of the text and with their numbers. -/
structure Orderly (n : Nat) (toks : List Token) : Prop where
  placed : ∀ t ∈ toks, t.Placed n
  sorted : toks.Pairwise fun t u => t.span.line ≤ u.span.line
  numbered : ∀ (i : Nat) (t : Token), toks[i]? = some t → t.index = i

/-- A state of the lexer whose tokens are orderly and lie before what is left. -/
structure LexState.Sound (n : Nat) (s : LexState) : Prop where
  first : 1 ≤ s.reader.line
  last : s.reader.lastLine ≤ n
  before : ∀ t ∈ s.made, t.span.line ≤ s.reader.line
  orderly : Orderly n s.made.reverse

namespace LexState.Sound

variable {n : Nat} {s : LexState}

theorem move (h : s.Sound n) {s' : LexState} (hreader : s.reader.Reaches s'.reader) (hmade : s'.made = s.made) :
    s'.Sound n :=
  ⟨Nat.le_trans h.first hreader.line, hreader.last ▸ h.last,
    fun t ht => Nat.le_trans (h.before t (hmade ▸ ht)) hreader.line, hmade.symm ▸ h.orderly⟩

theorem push (h : s.Sound n) (kind : Kind) (k : Nat) : (s.push kind k).Sound n := by
  obtain ⟨hline, hsame⟩ := Reader.reaches_skip k s.reader
  have hlast : (s.reader.skip k).line ≤ n := Nat.le_trans (Reader.line_le_lastLine _) (hsame ▸ h.last)
  obtain ⟨hplaced, hsorted, hnumbered⟩ := h.orderly
  refine ⟨Nat.le_trans h.first hline, hsame.symm ▸ h.last, ?_, ?_⟩
  · intro t ht
    rcases List.mem_cons.1 ht with rfl | ht
    · exact hline
    · exact Nat.le_trans (h.before t ht) hline
  · simp only [LexState.push, List.reverse_cons]
    refine ⟨?_, ?_, ?_⟩
    · intro t ht
      rcases List.mem_append.1 ht with ht | ht
      · exact hplaced t ht
      · rw [List.mem_singleton.1 ht]
        refine ⟨⟨h.first, hline, hlast⟩, ?_⟩
        rw [String.toList_ofList]
        exact Nat.le_trans (Nat.add_le_add_left (count_dropLast_le (List.take_prefix k _) _) _) h.last
    · refine List.pairwise_append.2 ⟨hsorted, List.pairwise_singleton _ _, ?_⟩
      intro t ht u hu
      rw [List.mem_singleton.1 hu]
      exact h.before t (List.mem_reverse.1 ht)
    · intro i t hi
      rw [List.getElem?_append] at hi
      split at hi
      · exact hnumbered i t hi
      · have hi₀ : i - s.made.reverse.length = 0 := by
          have hlt := (List.getElem?_eq_some_iff.1 hi).1
          rw [List.length_singleton] at hlt
          omega
        rw [hi₀] at hi
        rw [← Option.some.inj hi]
        rw [List.length_reverse] at *
        simp only
        omega

theorem layouts (h : s.Sound n) (kind : Kind) (k : Nat) : (Nat.repeat (fun s => s.pushLayout kind) k s).Sound n := by
  induction k with
  | zero => exact h
  | succ k ih => exact ih.push kind 0

variable {s' : LexState} (h : s.Sound n)
include h

theorem indentTo {wide narrow : Nat} (hs' : indentTo s wide narrow = .ok s') : s'.Sound n := by
  have hsame (indents : List (Nat × Nat)) : { s with indents }.Sound n := h.move (.refl _) rfl
  unfold Source.indentTo at hs'
  simp only at hs'
  split at hs'
  · split at hs'
    · exact Except.ok.inj hs' ▸ h
    · cases hs'
  · split at hs'
    · split at hs'
      · cases hs'
      · split at hs'
        · cases hs'
        · exact Except.ok.inj hs' ▸ (hsame _).push .indent 0
    · split at hs'
      · cases hs'
      · split at hs'
        · cases hs'
        · exact Except.ok.inj hs' ▸ (hsame _).layouts .dedent _

theorem lexLineStart (hs' : lexLineStart s = .ok s') : s'.Sound n := by
  unfold Source.lexLineStart at hs'
  split at hs'
  · cases hs'
  · rename_i i hi
    have hskip := Reader.reaches_skip i.count s.reader
    have hstart : { s with reader := s.reader.skip i.count, lineStart := false }.Sound n := h.move hskip rfl
    simp only at hs'
    split at hs'
    iterate 2
      refine Except.ok.inj hs' ▸ h.move ?_ rfl
      exact hskip.trans ((Reader.reaches_skipComment _).trans (Reader.reaches_next _))
    split at hs'
    · split at hs'
      · exact hstart.indentTo hs'
      · exact hstart.indentTo hs'
    · exact Except.ok.inj hs' ▸ hstart

theorem lexOpen {symbol : Symbol} {c : Char} (hs' : lexOpen s symbol c = .ok s') : s'.Sound n := by
  have hsame (brackets : List (Char × Nat)) : { s with brackets }.Sound n := h.move (.refl _) rfl
  unfold Source.lexOpen at hs'
  split at hs'
  · cases hs'
  · exact Except.ok.inj hs' ▸ (hsame _).push (.symbol symbol) 1

theorem lexClose {symbol : Symbol} {c opening : Char} (hs' : lexClose s symbol c opening = .ok s') : s'.Sound n := by
  have hsame (brackets : List (Char × Nat)) : { s with brackets }.Sound n := h.move (.refl _) rfl
  unfold Source.lexClose at hs'
  split at hs'
  · cases hs'
  · split at hs'
    · exact Except.ok.inj hs' ▸ (hsame _).push (.symbol symbol) 1
    · cases hs'

theorem lexString_finish {quote : Char} {triple : Bool} {opened : Nat} {rest : List Char}
    (hs' : lexString.finish s quote triple opened rest = .ok s') : s'.Sound n := by
  unfold Source.lexString.finish at hs'
  split at hs'
  · exact Except.ok.inj hs' ▸ h.push .string _
  · cases hs'

theorem lexString {letters : Nat} {atQuote : List Char} (hs' : lexString s letters atQuote = .ok s') : s'.Sound n := by
  unfold Source.lexString at hs'
  split at hs'
  · split at hs'
    · exact h.lexString_finish hs'
    · split at hs'
      · exact Except.ok.inj hs' ▸ h.push .string _
      · exact h.lexString_finish hs'
  · split at hs'
    · exact Except.ok.inj hs' ▸ h.push .string _
    · exact h.lexString_finish hs'
  · exact h.lexString_finish hs'
  · exact Except.ok.inj hs' ▸ h

theorem lexName (hs' : lexName s = .ok s') : s'.Sound n := by
  unfold Source.lexName at hs'
  simp only at hs'
  split at hs'
  · cases hs'
  · exact Except.ok.inj hs' ▸ h.push _ _

theorem lexToken (hs' : lexToken s = .ok s') : s'.Sound n := by
  unfold Source.lexToken at hs'
  split at hs'
  · -- The end of the text.
    split at hs'
    · exact Except.ok.inj hs' ▸ h.push .finish 0
    · cases hs'
  split at hs'
  · exact Except.ok.inj hs' ▸ h.move (Reader.reaches_next _) rfl
  split at hs'
  · exact Except.ok.inj hs' ▸ h.move (Reader.reaches_skipComment _) rfl
  split at hs'
  · -- The end of a line.
    split at hs'
    · exact Except.ok.inj hs' ▸ (h.push .newline 1).move (.refl _) rfl
    · exact Except.ok.inj hs' ▸ h.move (Reader.reaches_next _) rfl
  split at hs'
  · -- A line that goes on.
    split at hs'
    · split at hs'
      · cases hs'
      · exact Except.ok.inj hs' ▸ h.move (Reader.reaches_skip 2 _) rfl
    · cases hs'
  split at hs'
  · exact h.lexString hs'
  split at hs'
  · split at hs'
    · exact h.lexString hs'
    · exact h.lexName hs'
  split at hs'
  · split at hs'
    · exact Except.ok.inj hs' ▸ h.push .number _
    · cases hs'
  split at hs'
  · exact h.lexOpen hs'
  · exact h.lexOpen hs'
  · exact h.lexOpen hs'
  · exact h.lexClose hs'
  · exact h.lexClose hs'
  · exact h.lexClose hs'
  · split at hs'
    · exact Except.ok.inj hs' ▸ h.push (.symbol .other) 1
    · cases hs'
  · exact Except.ok.inj hs' ▸ h.push _ _

theorem lexStep (hs' : lexStep s = .ok s') : s'.Sound n := by
  unfold Source.lexStep at hs'
  split at hs'
  · exact h.lexLineStart hs'
  · exact h.lexToken hs'

theorem lexLoop (fuel : Nat) : Orderly n (lexLoop fuel s).list := by
  induction fuel generalizing s with
  | zero => exact h.orderly
  | succ fuel ih =>
    unfold Source.lexLoop
    split
    · exact h.orderly
    · rename_i s' hs'
      split
      · exact (h.lexStep hs').orderly
      · exact ih (h.lexStep hs')

end LexState.Sound

/-- The tokens of a text from a line on, if the lines of the text are within a number. -/
theorem lexFrom_orderly {n line : Nat} {cs : List Char} (hline : 1 ≤ line)
    (hn : line + cs.dropLast.count '\n' ≤ n) (col : Nat) : Orderly n (lexFrom line col cs).list := by
  apply LexState.Sound.lexLoop
  refine ⟨hline, hn, ?_, ?_, ?_, ?_⟩ <;> simp

theorem unifyNewlines_ne_nil (cs : List Char) : unifyNewlines cs ≠ [] := by
  fun_cases unifyNewlines cs <;> simp

theorem count_unifyNewlines_le {cs : List Char} (h : '\r' ∉ cs) :
    (unifyNewlines cs).dropLast.count '\n' ≤ cs.count '\n' := by
  fun_induction unifyNewlines cs with
  | case1 | case2 => simp
  | case3 | case4 | case5 | case6 => simp at h
  | case7 c rest h₁ h₂ h₃ h₄ h₅ ih =>
    rw [List.dropLast_cons_of_ne_nil (unifyNewlines_ne_nil rest), List.count_cons, List.count_cons]
    exact Nat.add_le_add_right (ih fun hr => h (List.mem_cons_of_mem c hr)) _

theorem lex_orderly {s : String} (h : '\r' ∉ s.toList) : Orderly (s.toList.count '\n' + 1) (lex s).list := by
  apply lexFrom_orderly (Nat.le_refl 1)
  have hcount := count_unifyNewlines_le h
  omega

end CodeMigration.Source
