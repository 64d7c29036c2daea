import CodeMigration.Proofs.PrintStatements
import CodeMigration.Proofs.SilentEdits

/-! # Print statements in blocks of lines

The lines of a text fall into blocks, in one way only: a print statement goes with the lines that close its brackets, and
any other line stands alone. Each block is mended to one piece of text. Nothing is noted of a line without a print
statement, nor of a statement whose stream cannot be read, unless its brackets are open. -/

namespace CodeMigration.Legacy

open Text (stripBoth)

/-- So many lines belong to a line: none if it is no print statement, otherwise those that close its brackets. -/
def Takes (line : List Char) (behind : List (List Char)) (count : Nat) : Prop :=
  match printStatement? line with
  | none => count = 0
  | some (_, operand) => Closes operand behind count

/-- Lines that are cut into blocks. -/
inductive InBlocks : List (List Char) → List (List (List Char)) → Prop
  | nil : InBlocks [] []
  | cons {line : List Char} {behind : List (List Char)} {count : Nat} {blocks : List (List (List Char))}
      (htakes : Takes line behind count) (hrest : InBlocks (behind.drop count) blocks) :
      InBlocks (line :: behind) ((line :: behind.take count) :: blocks)

/-- The operand starts like one with a stream, but has none that can be read. -/
def Unread (operand : List Char) : Prop := ['>', '>'] <+: stripBoth operand ∧ redirect? (stripBoth operand) = none

/-- A block, the piece of text that it is mended to and what is noted of it. -/
inductive MendedTo : List (List Char) → String × List LineChange → Prop
  | line {line : List Char} (hline : printStatement? line = none) : MendedTo [line] (String.ofList line, [])
  | unread {line indent operand : List Char} (hprint : printStatement? line = some (indent, operand))
      (hclosed : balance operand ≤ 0) (hunread : Unread operand) : MendedTo [line] (String.ofList line, [])
  | closed {line indent operand : List Char} (hprint : printStatement? line = some (indent, operand))
      (hclosed : balance operand ≤ 0) (hread : ¬ Unread operand) (hnote : (mendLine line indent operand).2.length = 1) :
      MendedTo [line] (mendLine line indent operand)
  | block {line indent operand : List Char} {more : List (List Char)}
      (hprint : printStatement? line = some (indent, operand)) (hopen : 0 < balance operand)
      (hnote : (mendBlock indent (operand ++ joined more)).2.length = 1) :
      MendedTo (line :: more) (mendBlock indent (operand ++ joined more))

variable {line indent operand : List Char} {behind lines : List (List Char)} {count count' : Nat}
  {blocks blocks' : List (List (List Char))}

theorem Closes.le (h : Closes operand behind count) (h' : Closes operand behind count') : count ≤ count' := by
  by_contra hlt
  rw [Nat.not_le] at hlt
  have hopen := h.stays_open count' hlt
  have hclosed := h'.closed (hlt.trans_le h.le_length)
  omega

theorem Takes.unique (h : Takes line behind count) (h' : Takes line behind count') : count = count' := by
  rw [Takes] at h h'
  cases hprint : printStatement? line with
  | none =>
    rw [hprint] at h h'
    exact h.trans h'.symm
  | some found =>
    rw [hprint] at h h'
    exact Nat.le_antisymm (h.le h') (h'.le h)

theorem InBlocks.flatten_eq (h : InBlocks lines blocks) : blocks.flatten = lines := by
  induction h with
  | nil => rfl
  | cons _ _ ih => rw [List.flatten_cons, ih, List.cons_append, List.take_append_drop]

theorem InBlocks.unique (h : InBlocks lines blocks) (h' : InBlocks lines blocks') : blocks' = blocks := by
  induction h generalizing blocks' with
  | nil =>
    cases h'
    rfl
  | cons htakes _ ih =>
    cases h' with
    | cons htakes' hrest' =>
      obtain rfl := htakes.unique htakes'
      rw [ih hrest']

theorem mendedTo_mendLine (hprint : printStatement? line = some (indent, operand)) (hclosed : balance operand ≤ 0) :
    MendedTo [line] (mendLine line indent operand) := by
  by_cases hstream : ['>', '>'] <+: stripBoth operand
  · have hmend : mendLine line indent operand = _ := mendLine_of_stream hstream
    cases hfound : redirect? (stripBoth operand) with
    | none =>
      rw [hmend, hfound]
      exact .unread hprint hclosed ⟨hstream, hfound⟩
    | some found =>
      refine .closed hprint hclosed (fun h => ?_) (by rw [hmend, hfound]; rfl)
      cases h.2.symm.trans hfound
  · refine .closed hprint hclosed (fun h => hstream h.1) ?_
    rw [mendLine_of_not_stream hstream]
    split <;> rfl

/-- One step through the lines: a block is cut off and mended, and what is left is mended as if it stood alone. -/
theorem exists_block (line : List Char) (behind : List (List Char)) : ∃ count piece, Takes line behind count ∧
    MendedTo (line :: behind.take count) piece ∧
    mendPrints none (line :: behind) = piece :: mendPrints none (behind.drop count) := by
  cases hprint : printStatement? line with
  | none => exact ⟨0, _, by simp [Takes, hprint], .line hprint, by simp [mendPrints, hprint]⟩
  | some found =>
    obtain ⟨indent, operand⟩ := found
    by_cases hopen : 0 < balance operand
    · obtain ⟨count, hcloses, heq⟩ := mendPrints_open (w := indent) hopen behind
      exact ⟨count, _, by simpa [Takes, hprint] using hcloses, .block hprint hopen (by rw [mendBlock_notes]; rfl),
        by simp [mendPrints, hprint, hopen, heq]⟩
    · have hclosed := Int.not_lt.1 hopen
      have hcloses : Closes operand behind 0 := ⟨Nat.zero_le _, by simp, fun _ => by simpa [joined] using hclosed⟩
      exact ⟨0, _, by simpa [Takes, hprint] using hcloses, mendedTo_mendLine hprint hclosed,
        by simp [mendPrints, hprint, hopen]⟩

theorem exists_inBlocks (lines : List (List Char)) :
    ∃ blocks, InBlocks lines blocks ∧ List.Forall₂ MendedTo blocks (mendPrints none lines) := by
  induction hlength : lines.length using Nat.strong_induction_on generalizing lines with
  | h n ih =>
    cases lines with
    | nil => exact ⟨[], .nil, .nil⟩
    | cons line behind =>
      obtain ⟨count, piece, htakes, hpiece, heq⟩ := exists_block line behind
      have hlt : (behind.drop count).length < n := by simp at hlength ⊢; omega
      obtain ⟨blocks, hblocks, hpieces⟩ := ih _ hlt (behind.drop count) rfl
      exact ⟨_, .cons htakes hblocks, heq ▸ .cons hpiece hpieces⟩

/-- The lines of a text fall into blocks in one way, and each block is mended to one piece in its place. -/
theorem mended_in_blocks (lines : List (List Char)) : ∃ blocks, InBlocks lines blocks ∧
    (∀ blocks', InBlocks lines blocks' → blocks' = blocks) ∧ blocks.flatten = lines ∧
    List.Forall₂ MendedTo blocks (mendPrints none lines) := by
  obtain ⟨blocks, hblocks, hpieces⟩ := exists_inBlocks lines
  exact ⟨blocks, hblocks, fun _ => hblocks.unique, hblocks.flatten_eq, hpieces⟩

/-- A stream that cannot be read on the last line, in a statement of one line, with an open bracket. -/
theorem unread_stream_in_call : InBlocks ["print >>f(".toList] [["print >>f(".toList]] ∧
    printStatement? "print >>f(".toList = some ([], ">>f(".toList) ∧ Unread ">>f(".toList ∧
    mendPrints none ["print >>f(".toList] = [("print(>>f()", [.printBlock])] ∧
    mendText "print >>f(" = ("print(>>f()", [.printBlock]) := by
  have htakes : Takes "print >>f(".toList [] 0 := ⟨le_rfl, by simp, by simp⟩
  exact ⟨.cons htakes .nil, by decide, ⟨by decide, by decide⟩, by decide +kernel, by decide +kernel⟩

end CodeMigration.Legacy
