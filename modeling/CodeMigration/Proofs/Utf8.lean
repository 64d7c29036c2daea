import CodeMigration.Text.Utf8
import Mathlib.Tactic.Common

/-! # Texts as bytes and back

A text is read back from its bytes: the first byte of a character says how many follow, and each of those is one that
can follow there. Where ends of lines are unified, a text without carriage returns stays as it is. -/

namespace CodeMigration.Text

theorem toNat_byte {n : Nat} (h : n < 256) : (UInt8.ofNat n).toNat = n := by
  rw [UInt8.toNat_ofNat', Nat.mod_eq_of_lt h]

theorem isContinuation_tail (n : Nat) : isContinuation (UInt8.ofNat (n % 64 + 128)) = true := by
  have htail : (UInt8.ofNat (n % 64 + 128)).toNat = n % 64 + 128 := toNat_byte (by omega)
  simp only [isContinuation, Bool.and_eq_true, decide_eq_true_iff, UInt8.le_iff_toNat_le, UInt8.lt_iff_toNat_lt, htail,
    UInt8.reduceToNat]
  omega

theorem low_tail (n : Nat) : low (UInt8.ofNat (n % 64 + 128)) = n % 64 := by
  rw [low, toNat_byte (by omega)]
  omega

/-- A byte can follow the first one where neither a longer form than needed nor half of a pair comes of it, and
nothing beyond the last character. -/
theorem isSecond_tail {first n : Nat} (hfirst : first < 256) (hthree : first = 0xE0 → 32 ≤ n % 64)
    (hpair : first = 0xED → n % 64 < 32) (hfour : first = 0xF0 → 16 ≤ n % 64) (hlast : first = 0xF4 → n % 64 < 16) :
    isSecond (UInt8.ofNat first) (UInt8.ofNat (n % 64 + 128)) = true := by
  have htail : (UInt8.ofNat (n % 64 + 128)).toNat = n % 64 + 128 := toNat_byte (by omega)
  simp only [isSecond, isContinuation_tail, Bool.true_and, Bool.and_eq_true, Bool.or_eq_true, bne_iff_ne, ne_eq,
    decide_eq_true_iff, UInt8.le_iff_toNat_le, UInt8.lt_iff_toNat_lt, ← UInt8.toNat_inj, htail, toNat_byte hfirst,
    UInt8.reduceToNat]
  omega

section
variable {n : Nat}

theorem firstChar_one (h : n ≤ 0x7F) (rest : Bytes) : firstChar (UInt8.ofNat n) rest = .ok (Char.ofNat n, 1) := by
  have hbyte : (UInt8.ofNat n).toNat = n := toNat_byte (by omega)
  simp only [firstChar.eq_def, UInt8.lt_iff_toNat_lt, hbyte, UInt8.reduceToNat]
  rw [if_pos (by omega)]

theorem firstChar_two (h : 0x7F < n) (h' : n ≤ 0x7FF) (rest : Bytes) :
    firstChar (UInt8.ofNat (n / 64 % 32 + 192)) (UInt8.ofNat (n % 64 + 128) :: rest) = .ok (Char.ofNat n, 2) := by
  have hbyte : (UInt8.ofNat (n / 64 % 32 + 192)).toNat = n / 64 % 32 + 192 := toNat_byte (by omega)
  have hn : (n / 64 % 32 + 192 - 0xC0) * 64 + n % 64 = n := by omega
  simp only [firstChar, UInt8.lt_iff_toNat_lt, hbyte, UInt8.reduceToNat, isContinuation_tail, low_tail, hn, if_true]
  rw [if_neg (by omega), if_neg (by omega), if_pos (by omega)]

theorem firstChar_three (h : 0x7FF < n) (h' : n ≤ 0xFFFF) (hvalid : n.isValidChar) (rest : Bytes) :
    firstChar (UInt8.ofNat (n / 4096 % 16 + 224))
      (UInt8.ofNat (n / 64 % 64 + 128) :: UInt8.ofNat (n % 64 + 128) :: rest) = .ok (Char.ofNat n, 3) := by
  rw [Nat.isValidChar] at hvalid
  have hbyte : (UInt8.ofNat (n / 4096 % 16 + 224)).toNat = n / 4096 % 16 + 224 := toNat_byte (by omega)
  have hsecond : isSecond (UInt8.ofNat (n / 4096 % 16 + 224)) (UInt8.ofNat (n / 64 % 64 + 128)) = true :=
    isSecond_tail (by omega) (by omega) (by omega) (by omega) (by omega)
  have hn : ((n / 4096 % 16 + 224 - 0xE0) * 64 + n / 64 % 64) * 64 + n % 64 = n := by omega
  simp only [firstChar, UInt8.lt_iff_toNat_lt, hbyte, UInt8.reduceToNat, hsecond, isContinuation_tail, low_tail, hn,
    Bool.not_true, Bool.false_eq_true, if_true, if_false]
  rw [if_neg (by omega), if_neg (by omega), if_neg (by omega), if_pos (by omega)]

theorem firstChar_four (h : 0xFFFF < n) (hvalid : n.isValidChar) (rest : Bytes) :
    firstChar (UInt8.ofNat (n / 262144 % 8 + 240))
      (UInt8.ofNat (n / 4096 % 64 + 128) :: UInt8.ofNat (n / 64 % 64 + 128) :: UInt8.ofNat (n % 64 + 128) :: rest) =
      .ok (Char.ofNat n, 4) := by
  rw [Nat.isValidChar] at hvalid
  have hbyte : (UInt8.ofNat (n / 262144 % 8 + 240)).toNat = n / 262144 % 8 + 240 := toNat_byte (by omega)
  have hsecond : isSecond (UInt8.ofNat (n / 262144 % 8 + 240)) (UInt8.ofNat (n / 4096 % 64 + 128)) = true :=
    isSecond_tail (by omega) (by omega) (by omega) (by omega) (by omega)
  have hn : (((n / 262144 % 8 + 240 - 0xF0) * 64 + n / 4096 % 64) * 64 + n / 64 % 64) * 64 + n % 64 = n := by omega
  simp only [firstChar, UInt8.lt_iff_toNat_lt, hbyte, UInt8.reduceToNat, hsecond, isContinuation_tail, low_tail, hn,
    Bool.not_true, Bool.false_eq_true, if_true, if_false]
  rw [if_neg (by omega), if_neg (by omega), if_neg (by omega), if_neg (by omega), if_pos (by omega)]

end

theorem firstChar_utf8EncodeChar (c : Char) (rest : Bytes) : ∃ b bs, String.utf8EncodeChar c = b :: bs ∧
    firstChar b (bs ++ rest) = .ok (c, bs.length + 1) := by
  have hvalid : c.toNat.isValidChar := c.valid
  have hnat : c.val.toNat = c.toNat := rfl
  have hchar : Char.ofNat c.toNat = c := Char.ofNat_toNat c
  simp only [String.utf8EncodeChar, hnat]
  split
  case isTrue h => exact ⟨_, _, rfl, by rw [firstChar_one h, hchar]; rfl⟩
  case isFalse h =>
    split
    case isTrue h' => exact ⟨_, _, rfl, (firstChar_two (by omega) h' rest).trans (by rw [hchar]; rfl)⟩
    case isFalse h' =>
      split
      case isTrue h₃ => exact ⟨_, _, rfl, (firstChar_three (by omega) h₃ hvalid rest).trans (by rw [hchar]; rfl)⟩
      case isFalse => exact ⟨_, _, rfl, (firstChar_four (by omega) hvalid rest).trans (by rw [hchar]; rfl)⟩

section
variable {first : UInt8 → Bytes → Except (Nat × DecodeReason) (Char × Nat)}

theorem decodeFrom_skip (position : Nat) (bs rest : Bytes) :
    decodeFrom first position bs.length (bs ++ rest) = decodeFrom first (position + bs.length) 0 rest := by
  induction bs generalizing position with
  | nil => rfl
  | cons b bs ih =>
    rw [List.length_cons, List.cons_append, decodeFrom, ih]
    congr 1
    omega

theorem decodeFrom_encode (hfirst : ∀ b rest r, firstChar b rest = .ok r → first b rest = .ok r) (position : Nat)
    (cs : List Char) : decodeFrom first position 0 (cs.flatMap String.utf8EncodeChar) = .ok cs := by
  induction cs generalizing position with
  | nil => rfl
  | cons c cs ih =>
    obtain ⟨b, bs, hbytes, hchar⟩ := firstChar_utf8EncodeChar c (cs.flatMap String.utf8EncodeChar)
    rw [List.flatMap_cons, hbytes, List.cons_append, decodeFrom, hfirst _ _ _ hchar]
    simp only [Nat.add_sub_cancel, decodeFrom_skip, ih]
    rfl

end

theorem decode_encode (s : String) : decode (encode s) = .ok s := by
  rw [decode, encode, decodeFrom_encode fun _ _ _ h => h]
  exact congrArg Except.ok (String.ofList_toList)

theorem decodeOr_skip (mark : List Char) (bs rest : Bytes) :
    decodeOr mark bs.length (bs ++ rest) = decodeOr mark 0 rest := by
  induction bs with
  | nil => rfl
  | cons b bs ih =>
    rw [List.length_cons, List.cons_append, decodeOr, ih]

theorem decodeOr_encode (mark : List Char) (s : String) : decodeOr mark 0 (encode s) = s.toList := by
  have hchars (cs : List Char) : decodeOr mark 0 (cs.flatMap String.utf8EncodeChar) = cs := by
    induction cs with
    | nil => rfl
    | cons c cs ih =>
      obtain ⟨b, bs, hbytes, hfirst⟩ := firstChar_utf8EncodeChar c (cs.flatMap String.utf8EncodeChar)
      rw [List.flatMap_cons, hbytes, List.cons_append, decodeOr, hfirst]
      simp only [Nat.add_sub_cancel, decodeOr_skip, ih]
  exact hchars s.toList

theorem forall_mem_intercalate {p : Char → Prop} {sep : List Char} (hsep : ∀ c ∈ sep, p c) {texts : List (List Char)}
    (h : ∀ t ∈ texts, ∀ c ∈ t, p c) : ∀ c ∈ sep.intercalate texts, p c := by
  induction texts with
  | nil => exact fun c hc => absurd hc List.not_mem_nil
  | cons t texts ih =>
    obtain ⟨ht, htexts⟩ := List.forall_mem_cons.1 h
    cases texts with
    | nil => rwa [List.intercalate_singleton]
    | cons t' texts =>
      rw [List.intercalate_cons_cons]
      exact List.forall_mem_append.2 ⟨List.forall_mem_append.2 ⟨ht, hsep⟩, ih htexts⟩

theorem return_not_mem_unifyLineEnds (cs : List Char) : '\r' ∉ unifyLineEnds cs := by
  fun_induction unifyLineEnds cs with
  | case1 => exact List.not_mem_nil
  | case2 rest ih => simpa using ih
  | case3 rest hrest ih => simpa using ih
  | case4 c rest hpair hreturn ih =>
    intro hmem
    rcases List.mem_cons.1 hmem with rfl | hmem
    · exact hreturn rfl
    · exact ih hmem

theorem unifyLineEnds_of_not_mem {cs : List Char} (h : '\r' ∉ cs) : unifyLineEnds cs = cs := by
  fun_induction unifyLineEnds cs with
  | case1 => rfl
  | case2 rest ih | case3 rest hrest ih => exact absurd List.mem_cons_self h
  | case4 c rest hpair hreturn ih => rw [ih fun hmem => h (List.mem_cons_of_mem c hmem)]

end CodeMigration.Text
