import CodeMigration.Json.Reader
import Mathlib.Data.List.Basic

/-! # Strings of JSON are read back

Each character is written by itself, as an escape or a pair of escapes or as it is, and reading what was written for it
gives it back, whatever follows. -/

namespace CodeMigration.Json

/-- Digits with zeros in front up to a width. -/
def padded (width n : Nat) : List Char := List.replicate (width - (Nat.toDigits 16 n).length) '0' ++ Nat.toDigits 16 n

theorem padded_succ {width : Nat} (hwidth : 0 < width) (n : Nat) :
    padded (width + 1) n = padded width (n / 16) ++ [(n % 16).digitChar] := by
  rw [padded, padded]
  by_cases h : n < 16
  · have hdiv : n / 16 = 0 := Nat.div_eq_of_lt h
    obtain ⟨k, rfl⟩ : ∃ k, width = k + 1 := ⟨width - 1, by omega⟩
    rw [Nat.toDigits_of_lt_base h, hdiv, Nat.toDigits_zero, Nat.mod_eq_of_lt h]
    simp [List.replicate_succ']
  · rw [Nat.toDigits_of_base_le (by decide) (by omega), List.length_append, List.length_singleton, Nat.add_sub_add_right,
      List.append_assoc]

theorem padded_four {n : Nat} (h : n < 65536) : padded 4 n =
    [(n / 4096).digitChar, (n / 256 % 16).digitChar, (n / 16 % 16).digitChar, (n % 16).digitChar] := by
  have hone : padded 1 (n / 16 / 16 / 16) = [(n / 16 / 16 / 16).digitChar] := by
    rw [padded, Nat.toDigits_of_lt_base (by omega)]
    rfl
  have h₂ : n / 16 / 16 = n / 256 := by omega
  have h₃ : n / 16 / 16 / 16 = n / 4096 := by omega
  rw [padded_succ (by decide), padded_succ (by decide), padded_succ (by decide), hone, h₃, h₂]
  rfl

theorem toList_hexDigits (width n : Nat) : (Text.ofPoints (Text.hexDigits width n)).toList = padded width n := by
  have hchars : ((Nat.toDigits 16 n).map Char.toNat).map Char.ofNat = Nat.toDigits 16 n := by
    rw [List.map_map]
    exact List.map_id'' Char.ofNat_toNat _
  rw [Text.ofPoints, Text.hexDigits, List.map_append, hchars, List.map_replicate, List.length_map,
    String.toList_ofList]
  rfl

theorem toList_unitEscape (n : Nat) : (unitEscape n).toList = '\\' :: 'u' :: padded 4 n := by
  rw [unitEscape, String.toList_append, toList_hexDigits]
  rfl

theorem hexValue?_digitChar : ∀ d < 16, hexValue? d.digitChar = some d := by decide

theorem unit?_padded {n : Nat} (h : n < 65536) :
    unit? (n / 4096).digitChar (n / 256 % 16).digitChar (n / 16 % 16).digitChar (n % 16).digitChar = some n := by
  have hvalue : (((n / 4096) * 16 + n / 256 % 16) * 16 + n / 16 % 16) * 16 + n % 16 = n := by omega
  rw [unit?, hexValue?_digitChar _ (by omega), hexValue?_digitChar _ (by omega), hexValue?_digitChar _ (by omega),
    hexValue?_digitChar _ (by omega)]
  exact congrArg some hvalue

def withChar (c : Char) (r : Except Fault (List Char × List Char)) : Except Fault (List Char × List Char) :=
  r.map fun (cs, rest) => (c :: cs, rest)

theorem withChar_eq_bind (c : Char) (r : Except Fault (List Char × List Char)) :
    (do let (cs, rest) ← r; return (c :: cs, rest)) = withChar c r := by
  cases r <;> rfl

theorem readChars_unitEscape {n : Nat} (h : n < 65536) (hhalf : ¬(0xD800 ≤ n ∧ n < 0xE000)) (rest : List Char) :
    readChars none ((unitEscape n).toList ++ rest) = withChar (Char.ofNat n) (readChars none rest) := by
  have hunit : ofUnit n = Char.ofNat n := by
    rw [ofUnit, if_neg (by simpa using hhalf)]
  have hhigh : isHigh n = false := by
    simp only [isHigh, Bool.and_eq_false_iff, decide_eq_false_iff_not]
    omega
  rw [toList_unitEscape, padded_four h]
  simp only [List.cons_append, List.nil_append, readChars, unit?_padded h, hhigh, hunit, Bool.false_eq_true, if_false]
  exact withChar_eq_bind _ _

theorem readChars_pair {n : Nat} (h : 0x10000 ≤ n) (hlt : n < 0x110000) (rest : List Char) :
    readChars none ((unitEscape (0xD800 + (n - 0x10000) / 1024)).toList ++
      ((unitEscape (0xDC00 + (n - 0x10000) % 1024)).toList ++ rest)) =
        withChar (Char.ofNat n) (readChars none rest) := by
  generalize hhigh : 0xD800 + (n - 0x10000) / 1024 = high
  generalize hlow : 0xDC00 + (n - 0x10000) % 1024 = low
  have hisHigh : isHigh high = true := by
    simp only [isHigh, Bool.and_eq_true, decide_eq_true_eq]
    omega
  have hisLow : isLow low = true := by
    simp only [isLow, Bool.and_eq_true, decide_eq_true_eq]
    omega
  have hpair : ofPair high low = Char.ofNat n := congrArg Char.ofNat (by omega)
  have hhighUnit : high < 65536 := by omega
  have hlowUnit : low < 65536 := by omega
  rw [toList_unitEscape, toList_unitEscape, padded_four hhighUnit, padded_four hlowUnit]
  simp only [List.cons_append, List.nil_append, readChars, unit?_padded hhighUnit, unit?_padded hlowUnit, hisHigh, hisLow,
    hpair, if_true]
  exact withChar_eq_bind _ _

theorem readChars_plain {c : Char} (hquote : c ≠ '"') (hslash : c ≠ '\\') (hcontrol : ¬c.toNat < 32)
    (rest : List Char) : readChars none (c :: rest) = withChar c (readChars none rest) := by
  have htest : (decide (c.toNat < 32) || c == '\\') = false := by simp [hcontrol, hslash]
  rw [readChars.eq_def]
  split
  case h_1 heq => exact absurd (List.cons.inj heq).1 hquote
  case h_2 heq => exact absurd (List.cons.inj heq).1 hslash
  case h_3 heq => exact absurd (List.cons.inj heq).1 hslash
  case h_4 heq =>
    obtain ⟨rfl, rfl⟩ := List.cons.inj heq
    rw [htest]
    exact withChar_eq_bind _ _
  case h_5 heq => cases heq

theorem readChars_writeChar (c : Char) (rest : List Char) :
    readChars none ((writeChar c).toList ++ rest) = withChar c (readChars none rest) := by
  have hof : Char.ofNat c.toNat = c := Char.ofNat_toNat c
  have hvalid : c.toNat < 0xD800 ∨ 0xDFFF < c.toNat ∧ c.toNat < 0x110000 := c.valid
  simp only [writeChar, beq_iff_eq]
  iterate 5
    split
    case isTrue h => subst h; exact withChar_eq_bind _ _
  iterate 2
    split
    case isTrue h => rw [← hof, h]; exact withChar_eq_bind _ _
  split
  case isTrue h => rw [readChars_unitEscape (by omega) (by omega), hof]
  split
  case isTrue h =>
    rename_i hquote hslash _ _ _ _ _ hcontrol
    rw [Char.toString, String.toList_singleton]
    exact readChars_plain hquote hslash hcontrol rest
  split
  case isTrue h => rw [readChars_unitEscape h (by omega), hof]
  case isFalse h => rw [String.toList_append, List.append_assoc, readChars_pair (by omega) (by omega), hof]

theorem readChars_writeChars (cs rest : List Char) :
    readChars none (cs.flatMap (fun c => (writeChar c).toList) ++ '"' :: rest) = .ok (cs, rest) := by
  induction cs with
  | nil => rfl
  | cons c cs ih =>
    rw [List.flatMap_cons, List.append_assoc, readChars_writeChar, ih]
    rfl

theorem toList_writeString (s : String) :
    (writeString s).toList = '"' :: (s.toList.flatMap (fun c => (writeChar c).toList) ++ ['"']) := by
  rw [writeString, String.toList_append, String.toList_append, String.toList_join, List.flatMap_map]
  rfl

theorem readString_writeString (s : String) (rest : List Char) :
    readString (s.toList.flatMap (fun c => (writeChar c).toList) ++ '"' :: rest) = .ok (s, rest) := by
  rw [readString, readChars_writeChars]
  exact congrArg (fun t => Except.ok (t, rest)) String.ofList_toList

end CodeMigration.Json
