import CodeMigration.Json.Bytes
import CodeMigration.Proofs.DiskFrames

/-! # Reading does not lengthen

Neither the characters of bytes nor the texts in a value that is read from characters are more than what was read. -/

namespace CodeMigration.Json

open Text (Bytes DecodeFault)

variable {bytes : Bytes} {position fuel : Nat} {cs rest : List Char} {big negative : Bool} {v : Value}
  {members : List (String × Value)}

theorem length_of_cons {ε α : Type} {r : Except ε (List α)} {a : α} {as : List α} {n : Nat}
    (h : (do return a :: (← r)) = .ok as) (hr : ∀ more, r = .ok more → more.length ≤ n) : as.length ≤ n + 1 := by
  obtain ⟨more, hmore, heq⟩ := of_bind_eq_ok h
  obtain rfl := Except.ok.inj heq
  exact Nat.succ_le_succ (hr more hmore)

/-- A character or a lone half stands for one byte at least. -/
theorem length_decodeFrom {first : UInt8 → Bytes → Except (Nat × Text.DecodeReason) (Char × Nat)} {skip : Nat}
    (h : Text.decodeFrom first position skip bytes = .ok cs) : cs.length ≤ bytes.length := by
  induction bytes generalizing position skip cs with
  | nil =>
    rw [Text.decodeFrom] at h
    obtain rfl := Except.ok.inj h
    exact Nat.le_refl 0
  | cons b bytes ih =>
    cases skip with
    | succ skip =>
      rw [Text.decodeFrom] at h
      exact Nat.le_succ_of_le (ih h)
    | zero =>
      rw [Text.decodeFrom] at h
      split at h
      · simp at h
      · exact length_of_cons h fun _ => ih

theorem length_units16 {ns : List Nat} (h : units16 big position bytes = .ok ns) : ns.length ≤ bytes.length := by
  induction position, bytes using units16.induct big generalizing ns with
  | case1 position =>
    obtain rfl := Except.ok.inj h
    exact Nat.le_refl 0
  | case2 position b => simp [units16] at h
  | case3 position a b rest ih =>
    rw [units16] at h
    exact Nat.le_succ_of_le (length_of_cons h fun _ => ih)

theorem length_joinPairs (ns : List Nat) : (joinPairs ns).length ≤ ns.length := by
  fun_induction joinPairs ns with
  | case1 => exact Nat.le_refl 0
  | case2 n => exact Nat.le_refl 1
  | case3 m n rest _ ih =>
    simp only [List.length_cons]
    omega
  | case4 m n rest _ ih => exact Nat.succ_le_succ ih

theorem length_decode16 (h : decode16 big position bytes = .ok cs) : cs.length ≤ bytes.length := by
  obtain ⟨ns, hns, heq⟩ := of_bind_eq_ok h
  obtain rfl := Except.ok.inj heq
  exact Nat.le_trans (length_joinPairs ns) (length_units16 hns)

theorem length_units32 (h : units32 big position bytes = .ok cs) : cs.length ≤ bytes.length := by
  induction position, bytes using units32.induct big generalizing cs with
  | case1 position =>
    rename_i hlarge
    rw [units32, if_pos hlarge] at h
    simp at h
  | case2 position =>
    rename_i hsmall ih
    rw [units32, if_neg hsmall] at h
    exact Nat.le_trans (length_of_cons h fun _ => ih) (Nat.le_add_right _ 3)
  | case3 position =>
    obtain rfl := Except.ok.inj h
    exact Nat.le_refl 0
  | case4 position b rest hshort => simp [units32] at h

theorem length_charsOf (h : charsOf bytes = .ok cs) : cs.length ≤ bytes.length := by
  have hskip : ∀ {rest : Bytes} (marks : Bytes), cs.length ≤ rest.length → cs.length ≤ (marks ++ rest).length := by
    intro rest marks hle
    rw [List.length_append]
    omega
  rw [charsOf.eq_def] at h
  split at h
  · exact hskip [0, 0, 0xFE, 0xFF] (length_units32 h)
  · exact hskip [0xFF, 0xFE, 0, 0] (length_units32 h)
  · exact hskip [0xFE, 0xFF] (length_decode16 h)
  · exact hskip [0xFF, 0xFE] (length_decode16 h)
  · exact hskip [0xEF, 0xBB, 0xBF] (length_decodeFrom h)
  · exact length_units32 h
  · exact length_decode16 h
  · exact length_units32 h
  · exact length_decode16 h
  · exact length_decode16 h
  · exact length_decode16 h
  · exact length_decodeFrom h

/-- What is made of something that was read leaves what that leaves. -/
theorem exists_of_made {α β : Type} (make : α → β) {r : Except Fault (α × List Char)} {b : β}
    (h : (do let (a, rest) ← r; return (make a, rest)) = .ok (b, rest)) : ∃ a, r = .ok (a, rest) ∧ make a = b := by
  obtain ⟨⟨a, rest'⟩, hr, heq⟩ := of_bind_eq_ok h
  obtain ⟨rfl, rfl⟩ := Prod.mk.inj (Except.ok.inj heq)
  exact ⟨a, hr, rfl⟩

/-- A text has at most as many characters as it was read from, but for half a pair that was read before. -/
theorem length_readChars {high : Option Nat} {text : List Char} (h : readChars high cs = .ok (text, rest)) :
    text.length + rest.length < cs.length + high.toList.length := by
  fun_induction readChars high cs generalizing text rest with
  | case1 high tail =>
    obtain ⟨rfl, rfl⟩ := Prod.mk.inj (Except.ok.inj h)
    cases high with
    | none => simp
    | some high => simp; omega
  | case3 a b c d tail n hn h' hlow ih =>
    obtain ⟨cs, hcs, rfl⟩ := exists_of_made (ofPair h' n :: ·) h
    have hlt := ih hcs
    simp at hlt ⊢
    omega
  | case4 a b c d tail n hn h' hlow hhigh ih =>
    obtain ⟨cs, hcs, rfl⟩ := exists_of_made (ofUnit h' :: ·) h
    have hlt := ih hcs
    simp at hlt ⊢
    omega
  | case5 a b c d tail n hn h' hlow hhigh ih =>
    obtain ⟨cs, hcs, rfl⟩ := exists_of_made (ofUnit h' :: ofUnit n :: ·) h
    have hlt := ih hcs
    simp at hlt ⊢
    omega
  | case6 a b c d tail n hn hhigh ih =>
    have hlt := ih h
    simp at hlt ⊢
    omega
  | case7 a b c d tail n hn hhigh ih =>
    obtain ⟨cs, hcs, rfl⟩ := exists_of_made (ofUnit n :: ·) h
    have hlt := ih hcs
    simp at hlt ⊢
    omega
  | case9 high e tail _ c hc ih | case11 high c tail _ _ _ _ ih =>
    obtain ⟨cs, hcs, rfl⟩ := exists_of_made ((high.map ofUnit).toList ++ c :: ·) h
    have hlt := ih hcs
    cases high <;> simp at hlt ⊢ <;> omega
  | _ => simp at h

theorem length_skipBlanks (cs : List Char) : (skipBlanks cs).length ≤ cs.length := (List.dropWhile_suffix _).length_le

theorem length_readString {text : String} (h : readString cs = .ok (text, rest)) :
    text.length + rest.length < cs.length := by
  obtain ⟨chars, hchars, rfl⟩ := exists_of_made String.ofList h
  have hlt := length_readChars hchars
  rw [String.length_ofList]
  exact hlt

theorem length_digitsOf (cs : List Char) : (digitsOf cs).2.length ≤ cs.length := (List.dropWhile_suffix _).length_le

theorem length_wholeOf (cs : List Char) : (wholeOf cs).2.length ≤ cs.length := by
  rw [wholeOf.eq_def]
  split
  · exact Nat.le_succ _
  · exact length_digitsOf cs

theorem length_readFraction (cs : List Char) : (readFraction cs).2.length ≤ cs.length := by
  rw [readFraction.eq_def]
  split
  · rename_i rest
    have hle := length_digitsOf rest
    split
    · exact Nat.le_refl _
    · rename_i ds rest' _ heq
      rw [heq] at hle
      exact Nat.le_succ_of_le hle
  · exact Nat.le_refl _

theorem length_signOf (cs : List Char) : (Text.signOf cs).2.length ≤ cs.length := by
  rw [Text.signOf.eq_def]
  split
  · exact Nat.le_succ _
  · exact Nat.le_succ _
  · exact Nat.le_refl _

theorem length_readPower (cs : List Char) : (readPower cs).2.length ≤ cs.length := by
  rw [readPower.eq_def]
  split
  · rename_i e rest
    split
    · have hdigits := length_digitsOf (Text.signOf rest).2
      have hsign := length_signOf rest
      simp only
      split
      · exact Nat.le_refl _
      · rename_i ds rest' _ heq
        rw [heq] at hdigits
        simp only [List.length_cons] at hdigits ⊢
        omega
    · exact Nat.le_refl _
  · exact Nat.le_refl _

/-- A text, if it is one, has at most so many characters. -/
def TextWithin (n : Nat) (v : Value) : Prop := ∀ text, v = .string text → text.length ≤ n

/-- So has a text that is a value, and one that is a member of it. -/
def TextsWithin (n : Nat) : Value → Prop
  | .string text => text.length ≤ n
  | .object members => ∀ member ∈ members, TextWithin n member.2
  | _ => True

theorem TextsWithin.textWithin {m n : Nat} (h : TextsWithin m v) (hle : m ≤ n) : TextWithin n v := by
  rintro text rfl
  exact Nat.le_trans h hle

theorem length_readNumber (h : readNumber negative cs = .ok (v, rest)) (n : Nat) :
    rest.length ≤ cs.length ∧ TextsWithin n v := by
  have hwhole := length_wholeOf cs
  have hfraction := length_readFraction (wholeOf cs).2
  have hpower := length_readPower (readFraction (wholeOf cs).2).2
  have hnumber : rest = (readPower (readFraction (wholeOf cs).2).2).2 ∧ TextsWithin n v := by
    rw [readNumber] at h
    simp only at h
    split at h
    · simp at h
    · split at h
      · split at h
        · simp at h
        · obtain ⟨rfl, rfl⟩ := Prod.mk.inj (Except.ok.inj h)
          exact ⟨rfl, trivial⟩
      · obtain ⟨rfl, rfl⟩ := Prod.mk.inj (Except.ok.inj h)
        exact ⟨rfl, trivial⟩
  refine ⟨?_, hnumber.2⟩
  rw [hnumber.1]
  omega

theorem mem_setMember {key : String} {member : String × Value} (h : member ∈ setMember key v members) :
    member.2 = v ∨ member ∈ members := by
  induction members with
  | nil =>
    obtain rfl := List.mem_singleton.1 h
    exact .inl rfl
  | cons other members ih =>
    rw [setMember] at h
    split at h
    · rcases List.mem_cons.1 h with rfl | hmem
      · exact .inl rfl
      · exact .inr (List.mem_cons_of_mem _ hmem)
    · rcases List.mem_cons.1 h with rfl | hmem
      · exact .inr List.mem_cons_self
      · exact (ih hmem).imp_right (List.mem_cons_of_mem _)

section
variable {α : Type} {add : List α → Reading (List α)} {P : List α → Prop} {n : Nat} {close : Char} {before after : List α}
  (hadd : ∀ {before cs after rest}, add before cs = .ok (after, rest) → cs.length ≤ n → P before →
    rest.length ≤ cs.length ∧ P after)
include hadd

theorem length_readParts (h : readParts add close fuel before cs = .ok (after, rest)) (hcs : cs.length ≤ n)
    (hbefore : P before) : rest.length ≤ cs.length ∧ P after := by
  induction fuel generalizing before cs with
  | zero => simp [readParts] at h
  | succ fuel ih =>
    rw [readParts] at h
    obtain ⟨⟨parts, tail⟩, hpart, h⟩ := of_bind_eq_ok h
    obtain ⟨htail, hparts⟩ := hadd hpart hcs hbefore
    have hblanks := length_skipBlanks tail
    simp only at h
    split at h
    · simp at h
    case h_2 c more heq =>
      rw [heq, List.length_cons] at hblanks
      split at h
      · obtain ⟨rfl, rfl⟩ := Prod.mk.inj (Except.ok.inj h)
        exact ⟨by omega, hparts⟩
      · split at h
        · have hmore := length_skipBlanks more
          obtain ⟨hrest, hafter⟩ := ih h (by omega) hparts
          exact ⟨by omega, hafter⟩
        · simp at h

theorem length_readBracketed (h : readBracketed add close fuel cs = .ok (after, rest)) (hcs : cs.length ≤ n) (hnil : P []) :
    rest.length ≤ cs.length ∧ P after := by
  have hblanks := length_skipBlanks cs
  rw [readBracketed] at h
  split at h
  · simp at h
  case h_2 c more heq =>
    rw [heq] at hblanks
    split at h
    · obtain ⟨rfl, rfl⟩ := Prod.mk.inj (Except.ok.inj h)
      rw [List.length_cons] at hblanks
      exact ⟨by omega, hnil⟩
    · obtain ⟨hrest, hafter⟩ := length_readParts hadd h (by omega) hnil
      exact ⟨by omega, hafter⟩

end

/-- What is left behind a value is no more than was there, nor is the text that stands for it. -/
def Shrinks (read : Reading Value) : Prop :=
  ∀ cs rest v, read cs = .ok (v, rest) → rest.length ≤ cs.length ∧ TextsWithin cs.length v

section
variable {read : Reading Value} (hread : Shrinks read)
include hread

theorem Shrinks.addItem {before after : List Value} (h : addItem read before cs = .ok (after, rest)) :
    rest.length ≤ cs.length := by
  obtain ⟨⟨v, tail⟩, hv, h⟩ := of_bind_eq_ok h
  obtain ⟨-, rfl⟩ := Prod.mk.inj (Except.ok.inj h)
  exact (hread _ _ _ hv).1

theorem Shrinks.addMember {n : Nat} {before after : List (String × Value)}
    (h : addMember read before cs = .ok (after, rest)) (hcs : cs.length ≤ n)
    (hbefore : ∀ member ∈ before, TextWithin n member.2) :
    rest.length ≤ cs.length ∧ ∀ member ∈ after, TextWithin n member.2 := by
  rw [Json.addMember.eq_def] at h
  split at h
  · obtain ⟨⟨key, tail⟩, hkey, h⟩ := of_bind_eq_ok h
    have hstring := length_readString hkey
    have hblanks := length_skipBlanks tail
    simp only at h
    split at h
    · rename_i behind heq
      rw [heq, List.length_cons] at hblanks
      obtain ⟨⟨v, more⟩, hv, h⟩ := of_bind_eq_ok h
      obtain ⟨hvalue, htext⟩ := hread _ _ _ hv
      have hblanks' := length_skipBlanks behind
      obtain ⟨rfl, rfl⟩ : setMember key v before = after ∧ more = rest := Prod.mk.inj (Except.ok.inj h)
      rw [List.length_cons] at hcs ⊢
      refine ⟨by omega, fun member hmem => ?_⟩
      rcases mem_setMember hmem with heq | hmem
      · rw [heq]
        exact htext.textWithin (by omega)
      · exact hbefore member hmem
    · simp at h
  · simp at h

theorem Shrinks.readMembers {n : Nat} (h : readBracketed (Json.addMember read) '}' fuel cs = .ok (members, rest))
    (hcs : cs.length ≤ n) : rest.length ≤ cs.length ∧ ∀ member ∈ members, TextWithin n member.2 :=
  length_readBracketed (fun h hcs hbefore => hread.addMember h hcs hbefore) h hcs (List.forall_mem_nil _)

end

theorem shrinks_word (word : List Char) {rest' : List Char} {v' : Value}
    (h : (.ok (v, rest) : Except Fault _) = .ok (v', rest')) (hv : ∀ n, TextsWithin n v) :
    rest'.length ≤ (word ++ rest).length ∧ TextsWithin (word ++ rest).length v' := by
  obtain ⟨rfl, rfl⟩ := Prod.mk.inj (Except.ok.inj h)
  exact ⟨(List.suffix_append word rest).length_le, hv _⟩

theorem Shrinks.succ (ih : Shrinks (readValue fuel)) : Shrinks (readValue (fuel + 1)) := by
  intro cs rest v h
  rw [readValue.eq_def] at h
  simp only at h
  split at h
  · obtain ⟨text, htext, rfl⟩ := exists_of_made Value.string h
    have hlt := length_readString htext
    rw [TextsWithin, List.length_cons]
    omega
  · obtain ⟨members, hmembers, rfl⟩ := exists_of_made Value.object h
    obtain ⟨hle, hwithin⟩ := ih.readMembers hmembers (Nat.le_succ _)
    exact ⟨Nat.le_succ_of_le hle, hwithin⟩
  · obtain ⟨items, hitems, rfl⟩ := exists_of_made Value.array h
    obtain ⟨hle, -⟩ := length_readBracketed (P := fun _ => True) (fun h _ _ => ⟨ih.addItem h, trivial⟩) hitems
      (Nat.le_refl _) trivial
    exact ⟨Nat.le_succ_of_le hle, trivial⟩
  · exact shrinks_word ['n', 'u', 'l', 'l'] h fun _ => trivial
  · exact shrinks_word ['t', 'r', 'u', 'e'] h fun _ => trivial
  · exact shrinks_word ['f', 'a', 'l', 's', 'e'] h fun _ => trivial
  · exact shrinks_word ['N', 'a', 'N'] h fun _ => trivial
  · exact shrinks_word ['I', 'n', 'f', 'i', 'n', 'i', 't', 'y'] h fun _ => trivial
  · exact shrinks_word ['-', 'I', 'n', 'f', 'i', 'n', 'i', 't', 'y'] h fun _ => trivial
  · obtain ⟨hle, hwithin⟩ := length_readNumber h _
    exact ⟨Nat.le_succ_of_le hle, hwithin⟩
  · exact length_readNumber h _

theorem shrinks (fuel : Nat) : Shrinks (readValue fuel) := by
  induction fuel with
  | zero =>
    intro cs rest v h
    simp [readValue] at h
  | succ fuel ih => exact ih.succ

theorem textWithin_of_ofChars (h : ofChars cs = .ok (.object members)) {n : Nat} (hcs : cs.length ≤ n) :
    ∀ member ∈ members, TextWithin n member.2 := by
  obtain ⟨⟨v, rest⟩, hread, hv⟩ := of_bind_eq_ok h
  simp only at hv
  split at hv
  · obtain rfl := Except.ok.inj hv
    have hlength := Nat.le_trans (length_skipBlanks cs) hcs
    exact fun member hmember text heq => Nat.le_trans ((shrinks _ _ _ _ hread).2 member hmember text heq) hlength
  · simp at hv

end CodeMigration.Json
