import CodeMigration.Proofs.Places.Parsing
import CodeMigration.Source.Grammar.Strings

/-! # Formatted strings within the lines of a text

An expression between braces is read as a text of its own, from the line where its brace stands. Its lines are
among those of the literal, since what is left to read is always an end of the literal's body. -/

namespace CodeMigration.Source.Grammar

variable {n : Nat}

/-- What is left where a literal part ends. -/
def LiteralEnd.rest : LiteralEnd → List Char
  | .doubled _ rest | .plain _ rest => rest
  | .lone => []

theorem literalPart.brace_suffix (top : Bool) (c : Char) (read rest : List Char) :
    (literalPart.brace top c read rest).rest <:+ c :: rest := by
  unfold literalPart.brace
  split
  · split
    · split
      · exact (List.suffix_cons _ _).trans (List.suffix_cons _ _)
      · split
        · exact List.nil_suffix
        · exact List.suffix_refl _
    · split
      · exact List.nil_suffix
      · exact List.suffix_refl _
  · exact List.suffix_refl _

theorem literalPart_suffix (raw top : Bool) (read cs : List Char) : (literalPart raw top read cs).rest <:+ cs := by
  suffices h : ∀ k, ∀ cs : List Char, cs.length ≤ k → ∀ read, (literalPart raw top read cs).rest <:+ cs ∧
      (literalPart.named raw top read cs).rest <:+ cs from (h _ cs (Nat.le_refl _) read).1
  intro k
  induction k with
  | zero =>
    intro cs hcs read
    obtain rfl := List.eq_nil_of_length_eq_zero (Nat.le_zero.1 hcs)
    exact ⟨List.nil_suffix, List.nil_suffix⟩
  | succ k ih =>
    intro cs hcs read
    have hcons {c : Char} {l rest : List Char} (h : l <:+ rest) : l <:+ c :: rest := h.trans (List.suffix_cons c rest)
    constructor
    · unfold literalPart
      split <;> (try simp only [List.length_cons] at hcs)
      · exact List.nil_suffix
      · split
        · exact hcons (hcons (literalPart.brace_suffix ..))
        · exact hcons (hcons (hcons (ih _ (by omega) _).2))
      · split
        · split
          · rename_i hc
            rw [beq_iff_eq.1 hc]
            exact hcons (hcons (literalPart.brace_suffix ..))
          · exact hcons (hcons (hcons (ih _ (by omega) _).1))
        · exact hcons (hcons (hcons (ih _ (by omega) _).1))
      · exact hcons (literalPart.brace_suffix ..)
      · exact hcons (literalPart.brace_suffix ..)
      · split
        · split <;> (try simp only [List.length_cons] at hcs)
          · exact hcons (hcons (literalPart.brace_suffix ..))
          · exact hcons (hcons (literalPart.brace_suffix ..))
          · exact hcons (hcons (ih _ (by omega) _).1)
        · exact hcons (hcons (ih _ (by omega) _).1)
      · exact literalPart.brace_suffix ..
      · exact literalPart.brace_suffix ..
      · exact hcons (ih _ (by omega) _).1
    · unfold literalPart.named
      split <;> (try simp only [List.length_cons] at hcs)
      · exact List.nil_suffix
      · exact hcons (ih _ (by omega) _).1
      · exact hcons (ih _ (by omega) _).2

/-- The text of an expression, of which some was read before, and what is left make up what was there; something is
left. -/
def Cuts (read cs text rest : List Char) : Prop := ∃ new, text = read.reverse ++ new ∧ new ++ rest = cs ∧ rest ≠ []

theorem Cuts.step {c : Char} {read cs text rest : List Char} (h : Cuts (c :: read) cs text rest) :
    Cuts read (c :: cs) text rest := by
  obtain ⟨new, rfl, rfl, hrest⟩ := h
  exact ⟨c :: new, by simp, rfl, hrest⟩

theorem expressionPart_cuts {quote : Option (Char × Bool)} {open_ read cs text rest : List Char}
    (h : expressionPart quote open_ read cs = .ok (text, rest)) : Cuts read cs text rest := by
  fun_induction expressionPart quote open_ read cs
  case case1 | case2 | case3 | case4 | case13 | case15 | case20 | case22 => cases h
  case case17 | case19 =>
    cases h
    exact ⟨[], by simp, rfl, by simp⟩
  case case16 ih => exact (ih h).step.step
  case case6 ih | case10 ih => exact (ih h).step.step.step
  case case5 ih | case7 ih | case8 ih | case9 ih | case11 ih | case12 ih | case14 ih | case18 ih | case21 ih |
      case23 ih => exact (ih h).step

theorem shownPart_suffix (text rest : List Char) : (shownPart text rest).2 <:+ rest := by
  unfold shownPart
  split
  · exact (List.dropWhile_suffix _).trans (List.suffix_cons _ _)
  · exact List.suffix_refl _

theorem conversionPart_suffix {text rest : List Char} {tail : Tail} (h : conversionPart text rest = .ok tail) :
    tail.rest <:+ rest := by
  have hshown := shownPart_suffix text rest
  unfold conversionPart at h
  simp only at h
  split at h
  · rename_i heq
    rw [heq] at hshown
    split at h
    · cases h
      exact (List.suffix_cons _ _).trans ((List.suffix_cons _ _).trans hshown)
    · cases h
  · cases h
  · cases h
  · cases h
    exact hshown

theorem StringLiteral.split_append {text : List Char} (h : (StringLiteral.split text).body ≠ []) :
    ∃ before behind, text = before ++ (StringLiteral.split text).body ++ behind ∧
      before.length = (StringLiteral.split text).start := by
  simp only [StringLiteral.split] at h ⊢
  generalize StringLiteral.quoteWidth (text.dropWhile StringLiteral.isLetter) = width at h ⊢
  have hwidth : width < (text.dropWhile StringLiteral.isLetter).length := by
    apply Nat.lt_of_not_le
    intro hshort
    rw [List.drop_eq_nil_of_le hshort, List.take_nil] at h
    exact h rfl
  refine ⟨text.takeWhile StringLiteral.isLetter ++ (text.dropWhile StringLiteral.isLetter).take width,
    ((text.dropWhile StringLiteral.isLetter).drop width).drop
      ((text.dropWhile StringLiteral.isLetter).length - 2 * width), ?_, ?_⟩
  · rw [List.append_assoc, List.append_assoc, List.take_append_drop, List.take_append_drop,
      List.takeWhile_append_dropWhile]
  · rw [List.length_append, List.length_map, List.length_take]
    omega

def Piece.Within (n : Nat) : Piece → Prop
  | .points _ => True
  | .value e => e.Within n

theorem joinPieces_within {pieces : List Piece} (h : ∀ p ∈ pieces, p.Within n) :
    ∀ p ∈ joinPieces pieces, p.Within n := by
  fun_induction joinPieces pieces with
  | case1 => exact h
  | case2 rest ih => exact ih fun p hp => h p (List.mem_cons_of_mem _ hp)
  | case3 ns rest hns ms more heq ih =>
    rw [heq] at ih
    have hmore := ih fun p hp => h p (List.mem_cons_of_mem _ hp)
    exact List.forall_mem_cons.2 ⟨trivial, (List.forall_mem_cons.1 hmore).2⟩
  | case4 ns rest hns heq ih =>
    exact List.forall_mem_cons.2 ⟨trivial, ih fun p hp => h p (List.mem_cons_of_mem _ hp)⟩
  | case5 e rest ih =>
    obtain ⟨he, hrest⟩ := List.forall_mem_cons.1 h
    exact List.forall_mem_cons.2 ⟨he, ih hrest⟩

theorem Piece.toExpr_within {span : Span} (hspan : span.Within n) (marked : Bool) {p : Piece} (h : p.Within n) :
    (p.toExpr span marked).Within n := by
  cases p with
  | points ns => exact Expr.within_iff.2 hspan
  | value e => exact h

theorem fstring_within {span : Span} (hspan : span.Within n) (marked : Bool) {pieces : List Piece}
    (h : ∀ p ∈ pieces, p.Within n) :
    (Expr.fstring span ((joinPieces pieces).map (Piece.toExpr span marked))).Within n := by
  refine Expr.within_iff.2 ⟨hspan, fun e he => ?_⟩
  obtain ⟨p, hp, rfl⟩ := List.mem_map.1 he
  exact Piece.toExpr_within hspan marked (joinPieces_within h p hp)

/-- Every construct is read within so many lines. -/
def Go.Reads (n : Nat) (go : Go) : Prop := ∀ {s : Phrase} (rule : Rule s), Grammar.Reads n true (s.Within n) (go rule)

section
variable {go : Go} {token : Token} {span : Span} {c₀ : Cursor} {past : Bool}

theorem Reads.liftCause {α : Type} {Q : α → Prop} {r : Except Cause α} (h : ∀ a, r = .ok a → Q a) :
    Reads n false Q (liftCause r) := by
  intro c₀
  cases r with
  | ok a => exact .pure (h a rfl)
  | error cause => exact .raise

theorem charNames_reads : ReadsAny n false Parse.charNames := fun _ _ _ _ _ hr _ hc => ⟨hc, trivial, hr.memo⟩

theorem literalValue_reads {bytes raw : Bool} {body : List Char} : ReadsAny n false (literalValue bytes raw body) :=
  fun _ => .next charNames_reads fun _ _ => .of (.liftCause fun _ _ => trivial)

theorem fragment_reads (hgo : go.Reads n) {before text : List Char} (hline : 1 ≤ token.span.line)
    (hlines : token.span.line + before.count '\n' + text.count '\n' ≤ n) (ending : Char) :
    Reads n false (Expr.Within n) (fragment go token before text ending) := by
  intro c₀
  unfold fragment
  refine .ite .raise ?_
  have horderly (col : Nat) : Orderly n
      (lexFrom (token.span.line + before.count '\n') col ('(' :: text ++ [')', '\n'])).list := by
    apply lexFrom_orderly (by omega)
    have hlast : ('(' :: text ++ [')', '\n']).dropLast = '(' :: text ++ [')'] := by
      rw [List.dropLast_append_of_ne_nil (by simp)]
      rfl
    rw [hlast, List.count_append, List.count_cons_of_ne (by decide)]
    simp
    omega
  refine .next charNames_reads fun names _ => ?_
  simp only [expressionPlace]
  split
  case h_1 e he => exact .pure ((hgo .starExpressions).parseTokens (horderly _) he)
  case h_2 => exact fun _ _ _ _ _ _ _ => trivial

/-- The lines before and inside the expression behind a brace are among those of the literal. -/
theorem lines_before_brace {text ended inner : List Char} (htoken : token.Placed n)
    (hrest : '{' :: inner <:+ (StringLiteral.split token.text.toList).body) (hcuts : Cuts [] inner text ended) :
    token.span.line +
      (token.text.toList.take ((StringLiteral.split token.text.toList).start +
        ((StringLiteral.split token.text.toList).body.length - ('{' :: inner).length))).count '\n' +
      text.count '\n' ≤ n := by
  obtain ⟨read, hbody⟩ := hrest
  have hne : (StringLiteral.split token.text.toList).body ≠ [] := by
    rw [← hbody]
    simp
  obtain ⟨before, behind, htext, hstart⟩ := StringLiteral.split_append hne
  obtain ⟨_, rfl, rfl, hended⟩ := hcuts
  have hspelled := htoken.spelled
  generalize (StringLiteral.split token.text.toList).body = body at hbody htext ⊢
  generalize (StringLiteral.split token.text.toList).start = start at hstart ⊢
  generalize token.text.toList = chars at htext hspelled ⊢
  subst hbody htext hstart
  have htake : (before ++ (read ++ '{' :: (text ++ ended)) ++ behind).take
      (before.length + ((read ++ '{' :: (text ++ ended)).length - ('{' :: (text ++ ended)).length)) =
        before ++ read := by
    rw [List.length_append, Nat.add_sub_cancel, ← List.length_append, List.append_assoc, List.append_assoc,
      ← List.append_assoc before, List.take_left]
  -- The last character of the literal is not needed: something is left behind the expression.
  have hcut : (before ++ (read ++ '{' :: (text ++ ended)) ++ behind).dropLast =
      before ++ read ++ '{' :: text ++ (ended ++ behind).dropLast := by
    rw [← List.dropLast_append_of_ne_nil (by simp [hended])]
    simp
  rw [hcut, List.count_append, List.count_append] at hspelled
  rw [htake]
  simp at hspelled
  simp
  omega

/-- Pieces within so many lines, with an end of a literal's body behind them. -/
def PiecesWithin (n : Nat) (body : List Char) (r : List Piece × List Char) : Prop :=
  (∀ p ∈ r.1, p.Within n) ∧ r.2 <:+ body

section
variable {body rest : List Char} {pieces : List Char → Parse (List Piece × List Char)}

theorem formatSpec_reads (hspan : span.Within n) (marked : Bool)
    (hpieces : ∀ more, more <:+ body → Reads n false (PiecesWithin n body) (pieces more)) (hrest : rest <:+ body) :
    Reads n false (fun r => (∀ e ∈ r.1, e.Within n) ∧ r.2 <:+ body) (formatSpec span marked pieces rest) := by
  intro c₀
  unfold formatSpec
  split
  · exact .raise
  · refine .next (hpieces _ ((List.suffix_cons _ _).trans hrest)) fun ⟨ps, left⟩ ⟨hps, hleft⟩ => ?_
    exact .ite .raise (.pure ⟨by simpa using fstring_within hspan marked hps, hleft⟩)
  · exact .pure ⟨by simp, hrest⟩

theorem formatValue_reads {value : Expr} {tail : Tail} {spec : Option Expr} (hspan : span.Within n)
    (hvalue : value.Within n) (hspec : ∀ e ∈ spec, e.Within n)
    (hpieces : ∀ more, more <:+ body → Reads n false (PiecesWithin n body) (pieces more)) (hrest : rest <:+ body) :
    Reads n false (PiecesWithin n body) (formatValue span value tail spec pieces rest) := by
  intro c₀
  unfold formatValue
  split
  · refine .next (hpieces _ ((List.suffix_cons _ _).trans hrest)) fun ⟨ps, left⟩ ⟨hps, hleft⟩ => ?_
    have hformatted (conversion : Option Char) : (Expr.formatted span value conversion spec).Within n :=
      Expr.within_iff.2 ⟨hspan, hvalue, hspec⟩
    exact .pure ⟨List.forall_mem_cons.2 ⟨trivial, List.forall_mem_cons.2 ⟨hformatted _, hps⟩⟩, hleft⟩
  · exact .raise

end

theorem formatPieces_reads (hgo : go.Reads n) (htoken : token.Placed n) (hspan : span.Within n) (marked raw : Bool)
    (fuel level : Nat) {rest : List Char} (hrest : rest <:+ (StringLiteral.split token.text.toList).body) :
    Reads n false (PiecesWithin n (StringLiteral.split token.text.toList).body)
      (formatPieces go token span marked raw (StringLiteral.split token.text.toList) fuel level rest) := by
  induction fuel generalizing level rest with
  | zero => exact fun _ => .pure ⟨by simp, hrest⟩
  | succ fuel ih =>
    intro c₀
    have hliteral := literalPart_suffix raw (level == 0) [] rest
    unfold formatPieces
    cases hpart : literalPart raw (level == 0) [] rest with
    | lone => exact .raise
    | doubled text more =>
      rw [hpart] at hliteral
      refine .next literalValue_reads fun ns _ => ?_
      refine .next (ih level (hliteral.trans hrest)) fun ⟨pieces, left⟩ ⟨hpieces, hleft⟩ => ?_
      exact .pure ⟨List.forall_mem_cons.2 ⟨trivial, hpieces⟩, hleft⟩
    | plain text more =>
      rw [hpart] at hliteral
      have hmore := hliteral.trans hrest
      refine .next literalValue_reads fun ns _ => ?_
      split
      case h_1 inner =>
        refine .ite .raise ?_
        refine .next (.liftCause fun r h => expressionPart_cuts (h.trans rfl)) fun ⟨exprText, ended⟩ hcuts => ?_
        have hended : ended <:+ (StringLiteral.split token.text.toList).body := by
          obtain ⟨new, -, rfl, -⟩ := hcuts
          exact (List.suffix_append new ended).trans ((List.suffix_cons _ _).trans hmore)
        have hlines := lines_before_brace htoken hmore hcuts
        refine .next (fragment_reads hgo htoken.within.first hlines _) fun value hvalue => ?_
        refine .next (.liftCause fun _ h => conversionPart_suffix h) fun tail htail => ?_
        refine .next (formatSpec_reads hspan marked (fun _ => ih (level + 1)) (htail.trans hended))
          fun ⟨spec, left⟩ ⟨hspec, hleft⟩ => ?_
        refine .next (formatValue_reads hspan hvalue hspec (fun _ => ih level) hleft)
          fun ⟨pieces, left⟩ ⟨hpieces, hleft⟩ => ?_
        exact .pure ⟨List.forall_mem_cons.2 ⟨trivial, hpieces⟩, hleft⟩
      case h_2 => exact .pure ⟨List.forall_mem_singleton.2 trivial, hmore⟩

def Joined.Within (n : Nat) : Joined → Prop
  | .bytes _ => True
  | .text pieces _ => ∀ p ∈ pieces, p.Within n

theorem Joined.text?_within {sofar : Option Joined} (h : ∀ j ∈ sofar, j.Within n) {before : List Piece}
    {format : Bool} (hbefore : Joined.text? sofar = some (before, format)) : ∀ p ∈ before, p.Within n := by
  unfold Joined.text? at hbefore
  split at hbefore
  · cases hbefore
    simp
  · cases hbefore
    exact h _ rfl
  · cases hbefore

theorem joinLiteral_reads (hgo : go.Reads n) (htoken : token.Placed n) (hspan : span.Within n) (marked : Bool)
    {sofar : Option Joined} (hsofar : ∀ j ∈ sofar, j.Within n) :
    Reads n false (Joined.Within n) (joinLiteral go span marked sofar token) := by
  intro c₀
  unfold joinLiteral
  refine .ite (.ite .raiseAt ?_) (.ite ?_ ?_)
  · refine .next literalValue_reads fun values _ => ?_
    split
    · exact .pure trivial
    · exact .pure trivial
    · exact .raise
  · split
    · exact .raise
    case h_2 before _ hbefore =>
      refine .next (formatPieces_reads hgo htoken hspan marked _ _ 0 (List.suffix_refl _))
        fun ⟨pieces, left⟩ ⟨hpieces, _⟩ => ?_
      exact .pure (List.forall_mem_append.2 ⟨Joined.text?_within hsofar hbefore, hpieces⟩)
  · refine .next literalValue_reads fun plain _ => ?_
    split
    · exact .raise
    case h_2 before _ hbefore =>
      exact .pure (List.forall_mem_append.2
        ⟨Joined.text?_within hsofar hbefore, List.forall_mem_singleton.2 trivial⟩)

theorem joinLiterals_reads (hgo : go.Reads n) (hspan : span.Within n) (marked : Bool) {sofar : Option Joined}
    (hsofar : ∀ j ∈ sofar, j.Within n) {tokens : List Token} (htokens : ∀ t ∈ tokens, t.Placed n) :
    Reads n false (fun r => ∀ j ∈ r, j.Within n) (joinLiterals go span marked sofar tokens) := by
  induction tokens generalizing sofar with
  | nil => exact fun _ => .pure hsofar
  | cons t tokens ih =>
    obtain ⟨ht, htokens⟩ := List.forall_mem_cons.1 htokens
    refine fun _ => .next (joinLiteral_reads hgo ht hspan marked hsofar) fun joined hjoined => ?_
    exact .of (ih (by simpa using hjoined) htokens)

theorem strings_reads (hgo : go.Reads n) : ReadsExpr n (strings go) := by
  unfold strings
  refine .peek fun c₀ start hstart => .pass (.many1 (.accept rfl)) fun tokens htokens => ?_
  refine .spanFrom hstart fun span hspan => ?_
  refine .next (joinLiterals_reads hgo hspan _ (by simp) htokens) fun joined hjoined => ?_
  split
  · exact .expr hspan
  · exact .pure (fstring_within hspan _ (hjoined _ rfl))
  · split
    · exact .expr hspan
    · exact .expr hspan
  · exact .miss

end

end CodeMigration.Source.Grammar
