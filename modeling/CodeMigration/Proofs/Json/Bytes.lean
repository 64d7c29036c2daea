import CodeMigration.Json.Bytes
import CodeMigration.Proofs.Json.Values
import CodeMigration.Proofs.Utf8

/-! # Bytes of JSON are read back

What is written is ASCII without zeros, so its bytes are taken for UTF-8 and not for a wider form. -/

namespace CodeMigration.Json

open Text (Bytes encode)

def Ascii (cs : List Char) : Prop := ∀ c ∈ cs, 0 < c.toNat ∧ c.toNat < 128

instance (cs : List Char) : Decidable (Ascii cs) := List.decidableBAll _ cs

theorem Ascii.nil : Ascii [] := fun _ hc => absurd hc List.not_mem_nil

variable {c : Char} {cs ds : List Char} {n : Nat} {v : Value} {s : String}

theorem Ascii.cons (hc : 0 < c.toNat ∧ c.toNat < 128) (h : Ascii cs) : Ascii (c :: cs) :=
  List.forall_mem_cons.2 ⟨hc, h⟩

theorem Ascii.append {cs' : List Char} (h : Ascii cs) (h' : Ascii cs') : Ascii (cs ++ cs') :=
  List.forall_mem_append.2 ⟨h, h'⟩

theorem Digits.ascii (h : Digits ds) : Ascii ds := by
  intro c hc
  have hdigit := h c hc
  simp only [isDigit, Bool.and_eq_true, decide_eq_true_eq, Char.le_def] at hdigit
  have hlow : 48 ≤ c.toNat := hdigit.1
  have hhigh : c.toNat ≤ 57 := hdigit.2
  omega

theorem ascii_replicate (hc : 0 < c.toNat ∧ c.toNat < 128) (n : Nat) : Ascii (List.replicate n c) := by
  intro c' hc'
  rwa [List.eq_of_mem_replicate hc']

theorem Blanks.ascii (h : Blanks cs) : Ascii cs := by
  intro c hc
  rcases isBlank_cases (h c hc) with rfl | rfl | rfl | rfl <;> decide

theorem ascii_padded (h : n < 65536) : Ascii (padded 4 n) := by
  have hdigit : ∀ d < 16, 0 < d.digitChar.toNat ∧ d.digitChar.toNat < 128 := by decide
  rw [padded_four h]
  exact .cons (hdigit _ (by omega)) (.cons (hdigit _ (by omega)) (.cons (hdigit _ (by omega))
    (.cons (hdigit _ (by omega)) .nil)))

theorem ascii_unitEscape (h : n < 65536) : Ascii (unitEscape n).toList := by
  rw [toList_unitEscape]
  exact .cons (by decide) (.cons (by decide) (ascii_padded h))

theorem ascii_writeChar (c : Char) : Ascii (writeChar c).toList := by
  have hvalid : c.toNat < 0xD800 ∨ 0xDFFF < c.toNat ∧ c.toNat < 0x110000 := c.valid
  have hword : ∀ e, 0 < e.toNat ∧ e.toNat < 128 → Ascii ['\\', e] := fun e he => .cons (by decide) (.cons he .nil)
  simp only [writeChar, beq_iff_eq]
  split
  case isTrue => exact hword '"' (by decide)
  split
  case isTrue => exact hword '\\' (by decide)
  split
  case isTrue => exact hword 'n' (by decide)
  split
  case isTrue => exact hword 'r' (by decide)
  split
  case isTrue => exact hword 't' (by decide)
  split
  case isTrue => exact hword 'b' (by decide)
  split
  case isTrue => exact hword 'f' (by decide)
  split
  case isTrue h => exact ascii_unitEscape (by omega)
  split
  case isTrue h =>
    rw [Char.toString, String.toList_singleton]
    exact .cons (by omega) .nil
  split
  case isTrue h => exact ascii_unitEscape h
  case isFalse =>
    rw [String.toList_append]
    exact (ascii_unitEscape (by omega)).append (ascii_unitEscape (by omega))

theorem ascii_writeString (s : String) : Ascii (writeString s).toList := by
  have hchars : Ascii (s.toList.flatMap fun c => (writeChar c).toList) := by
    intro c hc
    obtain ⟨c', -, hc'⟩ := List.mem_flatMap.1 hc
    exact ascii_writeChar c' c hc'
  rw [toList_writeString]
  exact .cons (by decide) (hchars.append (.cons (by decide) .nil))

theorem ascii_positional (h : Digits ds) (lead : Int) : Ascii (Decimal.Binary64.positional true ds lead) := by
  have hzeros := fun n => ascii_replicate (show 0 < '0'.toNat ∧ '0'.toNat < 128 by decide) n
  rw [Decimal.Binary64.positional]
  split
  · exact .cons (by decide) (.cons (by decide) ((hzeros _).append h.ascii))
  · have hpadded := fun n => h.ascii.append (hzeros n)
    refine .append (fun c hc => hpadded _ c (List.mem_of_mem_take hc)) ?_
    split
    · exact .cons (by decide) (.cons (by decide) .nil)
    · exact .cons (by decide) fun c hc => hpadded _ c (List.mem_of_mem_drop hc)

theorem ascii_withPower (h : Digits ds) (lead : Int) : Ascii (Decimal.Binary64.withPower ds lead) := by
  obtain ⟨ps, hps, hdigits, -⟩ := powerDigits_spec lead.natAbs
  have htail : Ascii ('e' :: (if lead < 0 then '-' else '+') :: ps) := by
    refine .cons (by decide) (.cons ?_ hdigits.ascii)
    split <;> decide
  rw [Decimal.Binary64.withPower.eq_def]
  simp only [hps]
  refine .append ?_ htail
  split
  · obtain ⟨hd, hrest⟩ := List.forall_mem_cons.1 h.ascii
    exact .cons hd (.cons (by decide) hrest)
  · exact h.ascii

theorem ascii_render (x : Decimal.Binary64) : Ascii (x.render true).toList := by
  rw [Decimal.Binary64.render.eq_def]
  split
  · decide
  · decide
  · dsimp only
    rw [String.toList_ofList]
    split
    · exact ascii_positional (digits_toDigits _) _
    · exact ascii_withPower (digits_toDigits _) _

theorem ascii_writeFloat (negative : Bool) (x : Decimal.Binary64) : Ascii (writeFloat negative x).toList := by
  rw [writeFloat.eq_def]
  split
  · cases negative <;> decide
  · rw [floatText, String.toList_append]
    refine .append ?_ (ascii_render x)
    cases negative <;> decide

theorem ascii_toString_int (n : Int) : Ascii (toString n).toList := by
  rw [Int.toString_eq_repr, Int.repr_eq_if]
  split
  · rw [Nat.toList_repr]
    exact (digits_toDigits _).ascii
  · rw [String.toList_append, Nat.toList_repr]
    exact .append (by decide) (digits_toDigits _).ascii

theorem Ascii.between {first last : String} (hfirst : Ascii first.toList) (hlast : Ascii last.toList) {layout : Layout}
    {depth depth' : Nat} {texts : List String} (h : ∀ t ∈ texts, Ascii t.toList) :
    Ascii (first ++ newline layout depth ++ (comma layout depth).intercalate texts ++ newline layout depth' ++
      last).toList := by
  obtain ⟨blanks, hblanks, hcomma⟩ := exists_toList_comma layout depth
  simp only [String.toList_append, String.toList_intercalate, hcomma]
  refine (((hfirst.append (blanks_newline _ _).ascii).append ?_).append (blanks_newline _ _).ascii).append hlast
  exact Text.forall_mem_intercalate (Ascii.cons (by decide) hblanks.ascii) (List.forall_mem_map.2 h)

theorem ascii_writeAt (h : v.Sendable) (layout : Layout) (depth : Nat) : Ascii (v.writeAt layout depth).toList := by
  induction h generalizing depth with
  | null =>
    rw [Value.writeAt]
    decide
  | bool b =>
    rw [Value.writeAt]
    cases b <;> decide
  | int _ => exact ascii_toString_int _
  | float negative _ => exact ascii_writeFloat negative _
  | nan =>
    rw [Value.writeAt]
    decide
  | string s => exact ascii_writeString s
  | @array items _ ih =>
    cases items with
    | nil =>
      rw [Value.writeAt]
      decide
    | cons v items =>
      rw [Value.writeAt, writeItems_eq_map]
      · exact .between (by decide) (by decide) (List.forall_mem_map.2 fun v hv => ih v hv (depth + 1))
      · exact fun heq => List.cons_ne_nil v items heq
  | @object members _ _ ih =>
    cases members with
    | nil =>
      rw [Value.writeAt]
      decide
    | cons member members =>
      rw [Value.writeAt]
      · refine .between (by decide) (by decide) ?_
        rw [← List.forall_mem_map, writeMembers_eq_map, List.forall_mem_map]
        intro member hmember
        rw [memberText]
        exact (ascii_writeString _).append (.cons (by decide) (.cons (by decide) (ih member hmember (depth + 1))))
      · exact fun heq => List.cons_ne_nil member members heq

theorem firstOrHalf_of_firstChar (b : UInt8) (rest : Bytes) (r : Char × Nat) (h : Text.firstChar b rest = .ok r) :
    firstOrHalf b rest = .ok r := by
  rw [firstOrHalf, h]

theorem bounds_of_mem_encode (h : Ascii s.toList) {b : UInt8} (hb : b ∈ encode s) : b ≠ 0 ∧ b < 128 := by
  obtain ⟨c, hc, hb⟩ := List.mem_flatMap.1 hb
  obtain ⟨hpos, hlt⟩ := h c hc
  have hnat : c.val.toNat = c.toNat := rfl
  have hbyte : (UInt8.ofNat c.toNat).toNat = c.toNat := Text.toNat_byte (by omega)
  simp only [String.utf8EncodeChar, hnat] at hb
  rw [if_pos (by omega), List.mem_singleton] at hb
  subst hb
  rw [ne_eq, ← UInt8.toNat_inj, UInt8.lt_iff_toNat_lt, hbyte]
  exact ⟨hpos.ne', hlt⟩

/-- Bytes without zeros that start with an ASCII character are UTF-8. -/
theorem charsOf_encode (h : Ascii s.toList) : charsOf (encode s) = .ok s.toList := by
  have hbytes := fun b (hb : b ∈ encode s) => bounds_of_mem_encode h hb
  have hdecode : Text.decodeFrom firstOrHalf 0 0 (encode s) = .ok s.toList :=
    Text.decodeFrom_encode firstOrHalf_of_firstChar 0 s.toList
  generalize encode s = bytes at hbytes hdecode ⊢
  rw [charsOf.eq_def]
  split
  case h_3 => exact absurd (hbytes 0xFE List.mem_cons_self).2 (by decide)
  case h_4 => exact absurd (hbytes 0xFF List.mem_cons_self).2 (by decide)
  case h_5 => exact absurd (hbytes 0xEF List.mem_cons_self).2 (by decide)
  case h_12 => exact hdecode
  all_goals exact absurd rfl (hbytes 0 (by simp)).1

/-- A value that can be sent is the value of the bytes that are sent. -/
theorem exists_charsOf_write (h : v.Sendable) : ∃ cs, charsOf (encode v.write) = .ok cs ∧ ofChars cs = .ok v :=
  ⟨_, charsOf_encode (ascii_writeAt h none 0), ofChars_write h⟩

end CodeMigration.Json
