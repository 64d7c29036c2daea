import CodeMigration.Legacy.Lines
import Mathlib.Data.List.DropRight

/-! # Print statements of one line

A print statement is read on until its brackets are closed, and brackets in its strings count as well. If they leave it
open it takes lines behind it into its call, whatever these are; otherwise it becomes a call by itself. A comma at the
end of a statement with a stream is never taken for one, and stays in the call. -/

namespace CodeMigration.Text

variable {cs : List Char} {c d : Char}

theorem stripRight_eq_self (hd : isBlank d = false) (hlast : cs.getLast? = some d) : stripRight cs = cs := by
  obtain ⟨ds, rfl⟩ := List.getLast?_eq_some_iff.1 hlast
  exact List.rdropWhile_concat_neg isBlank ds d (by simp [hd])

theorem stripLeft_eq_self (hc : isBlank c = false) (hhead : cs.head? = some c) : stripLeft cs = cs := by
  obtain ⟨ds, rfl⟩ := List.head?_eq_some_iff.1 hhead
  exact List.dropWhile_cons_of_neg (by simp [hc])

theorem stripBoth_eq_self (hc : isBlank c = false) (hhead : cs.head? = some c)
    (hd : isBlank d = false) (hlast : cs.getLast? = some d) : stripBoth cs = cs := by
  rw [stripBoth, stripLeft_eq_self hc hhead, stripRight_eq_self hd hlast]

end CodeMigration.Text

namespace CodeMigration.Legacy

open Text (isBlank stripBoth stripRight)

variable {w e f line operand : List Char} {rest : List (List Char)}

/-- The texts that lines are mended to. -/
def mendedTexts (lines : List (List Char)) : List String := (mendPrints none lines).map Prod.fst

/-- A line with a print statement. -/
def printLine (w operand : List Char) : List Char := w ++ "print ".toList ++ operand

def joined (lines : List (List Char)) : List Char := lines.flatMap ('\n' :: ·)

/-- So many of the lines behind a statement are needed to close its brackets, or there are no more. -/
structure Closes (operand : List Char) (rest : List (List Char)) (count : Nat) : Prop where
  le_length : count ≤ rest.length
  stays_open : ∀ k < count, 0 < balance (operand ++ joined (rest.take k))
  closed : count < rest.length → balance (operand ++ joined (rest.take count)) ≤ 0

theorem balance_append (cs ds : List Char) : balance (cs ++ ds) = balance cs + balance ds := by
  simp only [balance, List.count_append]
  omega

/-- A statement with open brackets takes the lines that close them. -/
theorem mendPrints_open (hopen : 0 < balance operand) (rest : List (List Char)) : ∃ count, Closes operand rest count ∧
    mendPrints (some ⟨w, operand, balance operand⟩) rest =
      mendBlock w (operand ++ joined (rest.take count)) :: mendPrints none (rest.drop count) := by
  induction rest generalizing operand with
  | nil => exact ⟨0, ⟨le_rfl, by simp, by simp⟩, by simp [mendPrints, joined]⟩
  | cons line rest ih =>
    have hjoin : ∀ lines : List (List Char),
        operand ++ '\n' :: line ++ joined lines = operand ++ joined (line :: lines) := by
      simp [joined]
    have hbalance : balance operand + balance line = balance (operand ++ '\n' :: line) := by
      rw [balance_append]
      simp [balance]
    simp only [mendPrints, hbalance]
    split
    next hmore =>
      obtain ⟨count, ⟨hle, hbefore, hclosed⟩, heq⟩ := ih hmore
      simp only [hjoin] at hbefore hclosed heq
      refine ⟨count + 1, ⟨Nat.succ_le_succ hle, fun k hk => ?_, fun h => hclosed (Nat.lt_of_succ_lt_succ h)⟩, heq⟩
      cases k with
      | zero => simpa [joined] using hopen
      | succ k => exact hbefore k (Nat.lt_of_succ_lt_succ hk)
    next hclosed =>
      refine ⟨1, ⟨by simp, fun k hk => ?_, fun _ => ?_⟩, by simp [joined]⟩
      · obtain rfl := Nat.lt_one_iff.1 hk
        simpa [joined] using hopen
      · simpa [joined] using Int.not_lt.1 hclosed

/-- An expression as a print statement has it: without blanks around it, in no bracket, with no stream before it and no
comma behind it. -/
structure IsOperand (e : List Char) : Prop where
  head : ∃ c, e.head? = some c ∧ isBlank c = false ∧ c ≠ '('
  last : ∃ c, e.getLast? = some c ∧ isBlank c = false ∧ c ≠ ','
  not_stream : ¬ ['>', '>'] <+: e

structure IsStream (f : List Char) : Prop where
  ne_nil : f ≠ []
  plain : ∀ c ∈ f, isBlank c = false ∧ c ≠ ',' ∧ c ≠ '(' ∧ c ≠ ')'

section
variable (hw : ∀ c ∈ w, isBlank c = true) {c : Char} (hhead : operand.head? = some c) (hc : isBlank c = false)
  (hbracket : c ≠ '(')
include hw hhead hc hbracket

theorem printStatement?_printLine : printStatement? (printLine w operand) = some (w, operand) := by
  obtain ⟨cs, rfl⟩ := List.head?_eq_some_iff.1 hhead
  have hline : printLine w (c :: cs) = w ++ 'p' :: 'r' :: 'i' :: 'n' :: 't' :: ' ' :: c :: cs := by simp [printLine]
  have hindent : (printLine w (c :: cs)).takeWhile isBlank = w := by
    rw [hline, List.takeWhile_append_of_pos hw, List.takeWhile_cons_of_neg (by decide), List.append_nil]
  have hbehind : (printLine w (c :: cs)).dropWhile isBlank = 'p' :: 'r' :: 'i' :: 'n' :: 't' :: ' ' :: c :: cs := by
    rw [hline, List.dropWhile_append_of_pos hw, List.dropWhile_cons_of_neg (by decide)]
  have hspace : isBlank ' ' = true := by decide
  rw [printStatement?, hindent, hbehind]
  simp [printed?, hspace, hc, hbracket]

theorem mendedTexts_of_closed (hclosed : balance operand ≤ 0) : mendedTexts (printLine w operand :: rest) =
    (mendLine (printLine w operand) w operand).1 :: mendedTexts rest := by
  simp [mendedTexts, mendPrints, printStatement?_printLine hw hhead hc hbracket, Int.not_lt.2 hclosed]

theorem mendedTexts_of_open (hopen : 0 < balance operand) : ∃ count, Closes operand rest count ∧
    mendedTexts (printLine w operand :: rest) =
      (mendBlock w (operand ++ joined (rest.take count))).1 :: mendedTexts (rest.drop count) := by
  obtain ⟨count, hcloses, heq⟩ := mendPrints_open (w := w) hopen rest
  refine ⟨count, hcloses, ?_⟩
  simp [mendedTexts, mendPrints, printStatement?_printLine hw hhead hc hbracket, hopen, heq]

end

/-- The operand of a statement with a stream. -/
def toStream (f operand : List Char) : List Char := '>' :: '>' :: (f ++ ',' :: ' ' :: operand)

theorem mendLine_of_stream (h : ['>', '>'] <+: stripBoth operand) : mendLine line w operand =
    (redirect? (stripBoth operand)).elim (String.ofList line, []) fun found =>
      (printCall w found.2 (", file=" ++ String.ofList found.1), [.printTo]) := by
  obtain ⟨more, hmore⟩ := h
  simp only [mendLine, ← hmore, List.cons_append, List.nil_append]
  cases redirect? ('>' :: '>' :: more) <;> rfl

section
variable (hf : IsStream f)
include hf

theorem balance_toStream (operand : List Char) : balance (toStream f operand) = balance operand := by
  have hcount : ∀ c, c = '(' ∨ c = ')' → f.count c = 0 := by
    intro c hc
    rw [List.count_eq_zero]
    intro hin
    obtain ⟨-, -, hne, hne'⟩ := hf.plain c hin
    exact hc.elim hne hne'
  simp [toStream, balance, hcount]

theorem redirect?_toStream {c : Char} (hhead : operand.head? = some c) (hc : isBlank c = false) (hcomma : c ≠ ',') :
    redirect? (toStream f operand) = some (f, operand) := by
  have hplain : ∀ c ∈ f ++ [','], (!isBlank c) = true := by
    simp only [List.forall_mem_append, List.forall_mem_singleton]
    exact ⟨fun c hc => by rw [(hf.plain c hc).1]; rfl, by decide⟩
  have hstart : (f ++ ',' :: ' ' :: operand).dropWhile isBlank = f ++ [','] ++ ' ' :: operand := by
    rw [List.append_cons]
    refine Text.stripLeft_eq_self (c := f.head hf.ne_nil) (hf.plain _ (List.head_mem _)).1 ?_
    simp [List.head?_append, List.head?_eq_some_head hf.ne_nil]
  have hspace : isBlank ' ' = true := by decide
  have hmark : isBlank ',' = false := by decide
  obtain ⟨cs, rfl⟩ := List.head?_eq_some_iff.1 hhead
  obtain ⟨d, run, hrun⟩ := List.exists_cons_of_ne_nil (List.reverse_ne_nil_iff.2 hf.ne_nil)
  have hback : run.reverse ++ [d] = f := by rw [← List.reverse_cons, ← hrun, List.reverse_reverse]
  -- The run without blanks has the comma as well, but what stands behind it is no other comma.
  rw [toStream, redirect?, hstart, List.takeWhile_append_of_pos hplain, List.dropWhile_append_of_pos hplain]
  simp [streamIn?, hspace, hmark, hc, hcomma, hrun, hback]

theorem mendedTexts_toStream (hw : ∀ c ∈ w, isBlank c = true) {c d : Char} (hhead : operand.head? = some c)
    (hc : isBlank c = false) (hcomma : c ≠ ',') (hlast : operand.getLast? = some d) (hd : isBlank d = false)
    (hclosed : balance operand ≤ 0) : mendedTexts (printLine w (toStream f operand) :: rest) =
      printCall w operand (", file=" ++ String.ofList f) :: mendedTexts rest := by
  have hstrip : stripBoth (toStream f operand) = toStream f operand := by
    refine Text.stripBoth_eq_self (c := '>') (by decide) rfl hd ?_
    simp [toStream, List.getLast?_cons, List.getLast?_append, hlast]
  rw [mendedTexts_of_closed hw (c := '>') rfl (by decide) (by decide) ((balance_toStream hf operand).trans_le hclosed)]
  have hstream : ['>', '>'] <+: stripBoth (toStream f operand) := by
    rw [hstrip]
    exact ⟨_, rfl⟩
  rw [mendLine_of_stream hstream, hstrip, redirect?_toStream hf hhead hc hcomma]
  rfl

end

theorem balance_concat_comma (cs : List Char) : balance (cs ++ [',']) = balance cs := by simp [balance]

theorem mendLine_of_not_stream (h : ¬ ['>', '>'] <+: stripBoth operand) : mendLine line w operand =
    if endsWithComma operand then (printCall w (stripBoth (dropComma operand)) ", end=' '", [.printComma])
    else (printCall w operand "", [.print]) := by
  simp only [mendLine]
  split
  next more heq => exact absurd ⟨more, heq.symm⟩ h
  next => rfl

theorem IsOperand.mendedTexts_print (he : IsOperand e) (hw : ∀ c ∈ w, isBlank c = true) (hclosed : balance e ≤ 0) :
    mendedTexts (printLine w e :: rest) = printCall w e "" :: mendedTexts rest := by
  obtain ⟨c, hhead, hc, hbracket⟩ := he.head
  obtain ⟨d, hlast, hd, hcomma⟩ := he.last
  have hends : endsWithComma e = false := by simp [endsWithComma, Text.stripRight_eq_self hd hlast, hlast, hcomma]
  rw [mendedTexts_of_closed hw hhead hc hbracket hclosed, mendLine_of_not_stream, hends]
  · rfl
  · rw [Text.stripBoth_eq_self hc hhead hd hlast]
    exact he.not_stream

theorem IsOperand.mendedTexts_comma (he : IsOperand e) (hw : ∀ c ∈ w, isBlank c = true) (hclosed : balance e ≤ 0) :
    mendedTexts (printLine w (e ++ [',']) :: rest) = printCall w e ", end=' '" :: mendedTexts rest := by
  obtain ⟨c, hhead, hc, hbracket⟩ := he.head
  obtain ⟨d, hlast, hd, -⟩ := he.last
  have hhead' : (e ++ [',']).head? = some c := by simp [hhead]
  have hlast' : (e ++ [',']).getLast? = some ',' := List.getLast?_concat ..
  have hright := Text.stripRight_eq_self (d := ',') (by decide) hlast'
  have hends : endsWithComma (e ++ [',']) = true := by rw [endsWithComma, hright, hlast', beq_self_eq_true]
  have hdrop : dropComma (e ++ [',']) = e := by rw [dropComma, hright, List.dropLast_concat]
  have hstream : ¬ ['>', '>'] <+: e ++ [','] := by
    rw [List.prefix_concat_iff]
    rintro (heq | hprefix)
    · exact absurd (congrArg List.getLast? heq) (by simp)
    · exact he.not_stream hprefix
  rw [← Text.stripBoth_eq_self hc hhead' (by decide) hlast'] at hstream
  rw [mendedTexts_of_closed hw hhead' hc hbracket ((balance_concat_comma e).trans_le hclosed),
    mendLine_of_not_stream hstream, if_pos hends, hdrop, Text.stripBoth_eq_self hc hhead hd hlast]

/-- What becomes of a print statement of one line and of the lines behind it. If the brackets of its expression do not
leave it open, it becomes a call and the lines are mended as if they stood alone; with a stream and a comma at its end the
call has two commas in a row. Otherwise the lines that close the brackets come to stand within the call. -/
theorem print_statements_mended (hw : ∀ c ∈ w, isBlank c = true) (he : IsOperand e) (hf : IsStream f)
    (rest : List (List Char)) :
    (balance e ≤ 0 →
      mendedTexts (printLine w e :: rest) = printCall w e "" :: mendedTexts rest ∧
      mendedTexts (printLine w (e ++ [',']) :: rest) = printCall w e ", end=' '" :: mendedTexts rest ∧
      (e.head? ≠ some ',' →
        mendedTexts (printLine w (toStream f e) :: rest) =
          printCall w e (", file=" ++ String.ofList f) :: mendedTexts rest ∧
        mendedTexts (printLine w (toStream f (e ++ [','])) :: rest) =
          printCall w (e ++ [',']) (", file=" ++ String.ofList f) :: mendedTexts rest)) ∧
    (0 < balance e → ∀ operand ∈ [e, e ++ [','], toStream f e, toStream f (e ++ [','])], ∃ count,
      Closes operand rest count ∧ mendedTexts (printLine w operand :: rest) =
        (mendBlock w (operand ++ joined (rest.take count))).1 :: mendedTexts (rest.drop count)) := by
  obtain ⟨c, hhead, hc, hbracket⟩ := he.head
  obtain ⟨d, hlast, hd, -⟩ := he.last
  have hhead' : (e ++ [',']).head? = some c := by simp [hhead]
  refine ⟨fun hclosed => ⟨he.mendedTexts_print hw hclosed, he.mendedTexts_comma hw hclosed, fun hcomma => ?_⟩, ?_⟩
  · have hne : c ≠ ',' := fun heq => hcomma (heq ▸ hhead)
    exact ⟨mendedTexts_toStream hf hw hhead hc hne hlast hd hclosed, mendedTexts_toStream hf hw hhead' hc hne
      (List.getLast?_concat ..) (by decide) ((balance_concat_comma e).trans_le hclosed)⟩
  · intro hopen operand hoperand
    simp only [List.mem_cons, List.not_mem_nil, or_false] at hoperand
    rcases hoperand with rfl | rfl | rfl | rfl
    · exact mendedTexts_of_open hw hhead hc hbracket hopen
    · exact mendedTexts_of_open hw hhead' hc hbracket (by rwa [balance_concat_comma])
    · exact mendedTexts_of_open hw (c := '>') rfl (by decide) (by decide) (by rwa [balance_toStream hf])
    · exact mendedTexts_of_open hw (c := '>') rfl (by decide) (by decide)
        (by rwa [balance_toStream hf, balance_concat_comma])

theorem print_statements_mended_call : IsOperand "g(x)".toList ∧ IsStream "f".toList ∧
    mendedTexts ["  print >>f, g(x)".toList, "print 1".toList] = ["  print(g(x), file=f)", "print(1)"] := by
  have he : IsOperand "g(x)".toList := ⟨⟨'g', by decide⟩, ⟨')', by decide⟩, by decide⟩
  have hf : IsStream "f".toList := ⟨by decide, List.forall_mem_singleton.2 (by decide)⟩
  have hw : ∀ c ∈ "  ".toList, isBlank c = true := List.all_eq_true.1 (by decide)
  have hclosed := (print_statements_mended hw he hf ["print 1".toList]).1 (by decide)
  exact ⟨he, hf, (hclosed.2.2 (by decide)).1⟩

/-- A bracket in a string, and a line behind it that is no print statement. -/
theorem mendedTexts_bracket_in_string : mendedTexts ["print \"(\"".toList, "x = 1".toList] = ["print(\"(\"\nx = 1)"] := by
  decide +kernel

end CodeMigration.Legacy
