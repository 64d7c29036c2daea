import CodeMigration.Json.Reader
import CodeMigration.Proofs.ShortestDecimals

/-! # Numbers of JSON are read back

Integers and floats are read as what was written, if nothing stands behind them that could belong to a number. -/

namespace CodeMigration.Json

theorem natOf_eq (ds : List Char) : natOf ds = Nat.ofDigitChars 10 ds 0 := by
  rw [natOf, Nat.ofDigitChars_eq_foldl]
  simp only [Nat.mul_comm]

theorem natOf_toDigits (n : Nat) : natOf (Nat.toDigits 10 n) = n := by
  rw [natOf_eq, Nat.ofDigitChars_ten_toDigits]

theorem natOf_append (ds ds' : List Char) : natOf (ds ++ ds') = natOf ds * 10 ^ ds'.length + natOf ds' := by
  rw [natOf_eq, natOf_eq, natOf_eq, Nat.ofDigitChars_append, Nat.ofDigitChars_eq_ofDigitChars_zero, Nat.mul_comm]

theorem natOf_replicate_zero (n : Nat) : natOf (List.replicate n '0') = 0 := by
  rw [natOf_eq, Nat.ofDigitChars_replicate_zero, Nat.mul_zero]

def Digits (ds : List Char) : Prop := ∀ d ∈ ds, isDigit d = true

theorem digits_toDigits (n : Nat) : Digits (Nat.toDigits 10 n) := by
  intro d hd
  have hdigit := Nat.isDigit_of_mem_toDigits (by decide) (by decide) hd
  simp only [Char.isDigit, Bool.and_eq_true, decide_eq_true_eq] at hdigit
  simp only [isDigit, Bool.and_eq_true, decide_eq_true_eq, Char.le_def]
  exact hdigit

theorem digits_replicate_zero (n : Nat) : Digits (List.replicate n '0') := by
  intro d hd
  rw [List.eq_of_mem_replicate hd]
  decide

variable {ds ds' rest : List Char} {n : Nat}

theorem Digits.append (h : Digits ds) (h' : Digits ds') : Digits (ds ++ ds') := by
  intro d hd
  exact (List.mem_append.1 hd).elim (h d) (h' d)

/-- What can stand behind a number without belonging to it. -/
def Ends (rest : List Char) : Prop := ∀ c ∈ rest.head?, isDigit c = false ∧ c ≠ '.' ∧ c ≠ 'e' ∧ c ≠ 'E'

theorem digitsOf_append (h : Digits ds) (hrest : ∀ c ∈ rest.head?, isDigit c = false) :
    digitsOf (ds ++ rest) = (ds, rest) := by
  rw [digitsOf, List.takeWhile_append_of_pos h, List.dropWhile_append_of_pos h]
  cases rest with
  | nil => simp
  | cons c rest =>
    have hc : isDigit c = false := hrest c rfl
    simp [hc]

theorem head_toDigits (hn : 0 < n) : ∃ d ds, Nat.toDigits 10 n = d :: ds ∧ d ≠ '0' := by
  induction n using Nat.strongRecOn with
  | ind n ih =>
    by_cases h : n < 10
    · refine ⟨n.digitChar, [], Nat.toDigits_of_lt_base h, ?_⟩
      have hzero : ∀ d < 10, 0 < d → d.digitChar ≠ '0' := by decide
      exact hzero n h hn
    · obtain ⟨d, ds, heq, hd⟩ := ih (n / 10) (by omega) (by omega)
      exact ⟨d, ds ++ [(n % 10).digitChar], by rw [Nat.toDigits_of_base_le (by decide) (by omega), heq]; rfl, hd⟩

/-- How a number starts: with a zero alone or with another digit. -/
structure Whole (ds : List Char) : Prop where
  digits : Digits ds
  nonempty : ds ≠ []
  leading : ds.head? = some '0' → ds = ['0']

theorem whole_toDigits (n : Nat) : Whole (Nat.toDigits 10 n) where
  digits := digits_toDigits n
  nonempty := Nat.toDigits_ne_nil
  leading := by
    intro hzero
    rcases Nat.eq_zero_or_pos n with rfl | hn
    · rfl
    · obtain ⟨d, ds, heq, hd⟩ := head_toDigits hn
      rw [heq] at hzero
      exact absurd (Option.some.inj hzero) hd

theorem wholeOf_append (h : Whole ds) (hrest : ∀ c ∈ rest.head?, isDigit c = false) :
    wholeOf (ds ++ rest) = (ds, rest) := by
  by_cases hzero : ds.head? = some '0'
  · rw [h.leading hzero]
    rfl
  · obtain ⟨d, more, rfl⟩ := List.exists_cons_of_ne_nil h.nonempty
    rw [List.cons_append, wholeOf, ← List.cons_append, digitsOf_append h.digits hrest]
    rintro rest' heq
    exact hzero (congrArg some (List.cons.inj heq).1)

theorem readFraction_none (h : ∀ c ∈ rest.head?, c ≠ '.') : readFraction rest = (none, rest) := by
  rw [readFraction]
  rintro rest' rfl
  exact h '.' rfl rfl

theorem readFraction_some (h : Digits ds) (hne : ds ≠ []) (hrest : ∀ c ∈ rest.head?, isDigit c = false) :
    readFraction ('.' :: (ds ++ rest)) = (some ds, rest) := by
  rw [readFraction, digitsOf_append h hrest]
  obtain ⟨d, more, rfl⟩ := List.exists_cons_of_ne_nil hne
  rfl

theorem readPower_none (h : ∀ c ∈ rest.head?, c ≠ 'e' ∧ c ≠ 'E') : readPower rest = (none, rest) := by
  cases rest with
  | nil => rfl
  | cons c rest =>
    have hc := h c rfl
    rw [readPower, if_neg (by simp [hc.1, hc.2])]

theorem readPower_some (negative : Bool) (h : Digits ds) (hne : ds ≠ []) (hrest : ∀ c ∈ rest.head?, isDigit c = false) :
    readPower ('e' :: (if negative then '-' else '+') :: (ds ++ rest)) =
      (some (if negative then -(natOf ds : Int) else natOf ds), rest) := by
  have hsign : Text.signOf ((if negative then '-' else '+') :: (ds ++ rest)) = (negative, ds ++ rest) := by
    cases negative <;> rfl
  rw [readPower, if_pos (by decide)]
  simp only [hsign, digitsOf_append h hrest]

theorem readNumber_int (negative : Bool) (h : Whole ds) (hlength : ds.length ≤ Text.maxReadDigits) (hrest : Ends rest) :
    readNumber negative (ds ++ rest) = .ok (.int (if negative then -(natOf ds : Int) else natOf ds), rest) := by
  rw [readNumber, wholeOf_append h fun c hc => (hrest c hc).1]
  simp only [List.isEmpty_iff, h.nonempty, if_false, readFraction_none fun c hc => (hrest c hc).2.1,
    readPower_none fun c hc => (hrest c hc).2.2, if_neg (Nat.not_lt.2 hlength)]

theorem readNumber_fraction (negative : Bool) (h : Whole ds) (h' : Digits ds') (hne : ds' ≠ []) (hrest : Ends rest) :
    readNumber negative (ds ++ '.' :: (ds' ++ rest)) =
      .ok (.float negative (.ofDecimal (natOf (ds ++ ds')) (-ds'.length)), rest) := by
  have hpoint : ∀ c ∈ ('.' :: (ds' ++ rest)).head?, isDigit c = false := by
    rintro c ⟨⟩
    rfl
  rw [readNumber, wholeOf_append h hpoint]
  simp only [List.isEmpty_iff, h.nonempty, if_false, readFraction_some h' hne fun c hc => (hrest c hc).1,
    readPower_none fun c hc => (hrest c hc).2.2, Option.getD_some, Option.getD_none, Int.zero_sub]

def pointed : List Char → List Char
  | [] => []
  | ds => '.' :: ds

theorem readNumber_power {ps : List Char} (negative below : Bool) (h : Whole ds) (h' : Digits ds') (hps : Digits ps)
    (hne : ps ≠ []) (hrest : Ends rest) :
    readNumber negative (ds ++ (pointed ds' ++ 'e' :: (if below then '-' else '+') :: (ps ++ rest))) =
      .ok (.float negative (.ofDecimal (natOf (ds ++ ds'))
        ((if below then -(natOf ps : Int) else natOf ps) - ds'.length)), rest) := by
  have hpower := readPower_some below hps hne fun c hc => (hrest c hc).1
  have hmark : ∀ c ∈ ('e' :: (if below then '-' else '+') :: (ps ++ rest)).head?, isDigit c = false ∧ c ≠ '.' := by
    rintro c ⟨⟩
    decide
  cases ds' with
  | nil =>
    rw [pointed, List.nil_append, readNumber, wholeOf_append h fun c hc => (hmark c hc).1]
    simp only [List.isEmpty_iff, h.nonempty, if_false, readFraction_none fun c hc => (hmark c hc).2, hpower]
    rfl
  | cons d ds' =>
    have hpoint : ∀ c ∈ ('.' :: (d :: ds' ++ 'e' :: (if below then '-' else '+') :: (ps ++ rest))).head?,
        isDigit c = false := by
      rintro c ⟨⟩
      rfl
    rw [pointed, List.cons_append, readNumber, wholeOf_append h hpoint]
    · simp only [List.isEmpty_iff, h.nonempty, if_false,
        readFraction_some h' (List.cons_ne_nil d ds') fun c hc => (hmark c hc).1, hpower]
      rfl
    · exact fun heq => List.cons_ne_nil d ds' heq

/-- An integer that is not too long to be read. -/
def Readable (n : Int) : Prop := n.natAbs < 10 ^ Text.maxReadDigits

instance (n : Int) : Decidable (Readable n) := inferInstanceAs (Decidable (_ < _))

theorem readNumber_toDigits (negative : Bool) (h : n < 10 ^ Text.maxReadDigits) (hrest : Ends rest) :
    readNumber negative (Nat.toDigits 10 n ++ rest) = .ok (.int (if negative then -(n : Int) else n), rest) := by
  have hlength : (Nat.toDigits 10 n).length ≤ Text.maxReadDigits :=
    (Nat.length_toDigits_le_iff (by decide) (by decide)).2 h
  rw [readNumber_int negative (whole_toDigits n) hlength hrest, natOf_toDigits]

open Decimal Binary64

theorem natOf_zeros_append (k : Nat) (ds : List Char) : natOf (List.replicate k '0' ++ ds) = natOf ds := by
  rw [natOf_append, natOf_replicate_zero, Nat.zero_mul, Nat.zero_add]

/-- Digits of which the first is not zero. -/
structure Leading (ds : List Char) : Prop where
  digits : Digits ds
  first : ∃ d more, ds = d :: more ∧ d ≠ '0'

theorem Leading.whole (h : Leading ds) : Whole ds := by
  obtain ⟨hdigits, d, more, rfl, hd⟩ := h
  exact ⟨hdigits, List.cons_ne_nil d more, fun hzero => absurd (Option.some.inj hzero) hd⟩

theorem Leading.append (h : Leading ds) (h' : Digits ds') : Leading (ds ++ ds') := by
  obtain ⟨hdigits, d, more, rfl, hd⟩ := h
  exact ⟨hdigits.append h', d, more ++ ds', rfl, hd⟩

theorem Leading.take (h : Leading ds) (n : Nat) : Leading (ds.take (n + 1)) := by
  obtain ⟨hdigits, d, more, rfl, hd⟩ := h
  exact ⟨fun c hc => hdigits c (List.mem_of_mem_take hc), d, more.take n, rfl, hd⟩

theorem leading_toDigits (hn : 0 < n) : Leading (Nat.toDigits 10 n) := ⟨digits_toDigits n, head_toDigits hn⟩

theorem powerDigits_spec (n : Nat) :
    ∃ ps, (if (Nat.toDigits 10 n).length < 2 then '0' :: Nat.toDigits 10 n else Nat.toDigits 10 n) = ps ∧
      Digits ps ∧ ps ≠ [] ∧ natOf ps = n := by
  refine ⟨_, rfl, ?_⟩
  split
  · exact ⟨(digits_replicate_zero 1).append (digits_toDigits n), List.cons_ne_nil _ _,
      (natOf_zeros_append 1 _).trans (natOf_toDigits n)⟩
  · exact ⟨digits_toDigits n, Nat.toDigits_ne_nil, natOf_toDigits n⟩

section
variable {m : Nat} {e : Int} {p : Int} {ds rest : List Char}

/-- Digits that say the number which is written are read as the float. -/
theorem ofDecimal_of_eq (hfloat : IsFloat m e) (hshort : shortest m e = (natOf ds, p)) {n k : Nat} {q : Int}
    (hn : n = natOf ds * 10 ^ k) (hq : q + k = p) : ofDecimal n q = .finite m e := by
  apply ofDecimal_of_shortest hfloat
  rw [hshort, hn, ← hq, zpow_add₀ (by norm_num), zpow_natCast]
  push_cast
  ring

variable (hfloat : IsFloat m e) (hshort : shortest m e = (natOf ds, p)) (hds : Leading ds) (negative : Bool)
  (hrest : Ends rest)

include hfloat hshort hds hrest

theorem readNumber_below {lead : Int} (hlead : p + ds.length - 1 = lead) (hneg : lead < 0) :
    readNumber negative (positional true ds lead ++ rest) = .ok (.float negative (.finite m e), rest) := by
  have hzeros := digits_replicate_zero (-lead - 1).toNat
  have hne : List.replicate (-lead - 1).toNat '0' ++ ds ≠ [] := List.append_ne_nil_of_right_ne_nil _ hds.whole.nonempty
  have hread := readNumber_fraction negative (whole_toDigits 0) (hzeros.append hds.digits) hne hrest
  rw [positional, if_pos hneg]
  refine hread.trans ?_
  rw [ofDecimal_of_eq hfloat hshort (k := 0)]
  · rw [natOf_append, natOf_toDigits, natOf_zeros_append]
    ring
  · rw [List.length_append, List.length_replicate]
    omega

theorem readNumber_above {whole : Nat} (hwhole : p + ds.length = whole) (hle : ds.length ≤ whole) :
    readNumber negative (ds ++ List.replicate (whole - ds.length) '0' ++ ['.', '0'] ++ rest) =
      .ok (.float negative (.finite m e), rest) := by
  have hfirst := hds.append (digits_replicate_zero (whole - ds.length))
  have hread := readNumber_fraction negative hfirst.whole (digits_toDigits 0) (by decide) hrest
  rw [List.append_assoc _ ['.', '0']]
  refine hread.trans ?_
  rw [ofDecimal_of_eq hfloat hshort (k := whole - ds.length + 1)]
  · rw [natOf_append, natOf_append, natOf_replicate_zero, natOf_toDigits, Nat.toDigits_zero, List.length_replicate,
      List.length_singleton]
    ring
  · rw [Nat.toDigits_zero, List.length_singleton]
    omega

theorem readNumber_among {n : Nat} (hwhole : p + ds.length = n + 1) (hlt : n + 1 < ds.length) :
    readNumber negative (ds.take (n + 1) ++ '.' :: ds.drop (n + 1) ++ rest) =
      .ok (.float negative (.finite m e), rest) := by
  have hlast : Digits (ds.drop (n + 1)) := fun c hc => hds.digits c (List.mem_of_mem_drop hc)
  have hread := readNumber_fraction negative (hds.take n).whole hlast (mt List.drop_eq_nil_iff.1 (by omega)) hrest
  rw [List.append_assoc]
  refine hread.trans ?_
  rw [List.take_append_drop, ofDecimal_of_eq hfloat hshort (k := 0)]
  · ring
  · rw [List.length_drop]
    omega

theorem readNumber_positional {lead : Int} (hlead : p + ds.length - 1 = lead) :
    readNumber negative (positional true ds lead ++ rest) = .ok (.float negative (.finite m e), rest) := by
  by_cases hneg : lead < 0
  · exact readNumber_below hfloat hshort hds negative hrest hlead hneg
  · rw [positional, if_neg hneg]
    by_cases hle : ds.length ≤ lead.toNat + 1
    · have hlength : (ds ++ List.replicate (lead.toNat + 1 - ds.length) '0').length = lead.toNat + 1 := by
        rw [List.length_append, List.length_replicate]
        omega
      simp only [List.take_of_length_le hlength.le, List.drop_of_length_le hlength.le, List.isEmpty_nil, if_true]
      exact readNumber_above hfloat hshort hds negative hrest (by omega) hle
    · have hzeros : lead.toNat + 1 - ds.length = 0 := by omega
      have hne : (ds.drop (lead.toNat + 1)).isEmpty = false := by
        rw [List.isEmpty_eq_false_iff]
        exact mt List.drop_eq_nil_iff.1 hle
      simp only [hzeros, List.replicate_zero, List.append_nil, hne, Bool.false_eq_true, if_false]
      exact readNumber_among hfloat hshort hds negative hrest (by omega) (by omega)

theorem readNumber_withPower {lead : Int} (hlead : p + ds.length - 1 = lead) :
    readNumber negative (withPower ds lead ++ rest) = .ok (.float negative (.finite m e), rest) := by
  obtain ⟨ps, htext, hps, hne, hvalue⟩ := powerDigits_spec lead.natAbs
  have hlast : Digits (ds.drop 1) := fun c hc => hds.digits c (List.mem_of_mem_drop hc)
  have hread := readNumber_power negative (decide (lead < 0)) (hds.take 0).whole hlast hps hne hrest
  have hmantissa : withPower ds lead =
      ds.take 1 ++ (pointed (ds.drop 1) ++ 'e' :: (if lead < 0 then '-' else '+') :: ps) := by
    obtain ⟨d, more, rfl, hd⟩ := hds.first
    rw [← htext]
    cases more <;> simp [withPower, pointed]
  have hexp : (if lead < 0 then -(natOf ps : Int) else natOf ps) = lead := by
    rw [hvalue]
    omega
  have hlength : (ds.drop 1).length + 1 = ds.length := by
    rw [List.length_drop]
    have := List.length_pos_iff.2 hds.whole.nonempty
    omega
  simp only [decide_eq_true_eq, hexp] at hread
  rw [hmantissa]
  simp only [List.append_assoc, List.cons_append]
  refine hread.trans ?_
  rw [List.take_append_drop, ofDecimal_of_eq hfloat hshort (k := 0)]
  · ring
  · omega

end

theorem readNumber_render {m : Nat} {e : Int} (hfloat : IsFloat m e) (negative : Bool) (hrest : Ends rest) :
    readNumber negative ((render true (.finite m e)).toList ++ rest) = .ok (.float negative (.finite m e), rest) := by
  have hshort : shortest m e = (natOf (Nat.toDigits 10 (shortest m e).1), (shortest m e).2) := by
    rw [natOf_toDigits]
  have hds := leading_toDigits (shortest_pos hfloat)
  rw [render, String.toList_ofList]
  · split
    · exact readNumber_positional hfloat hshort hds negative hrest rfl
    · exact readNumber_withPower hfloat hshort hds negative hrest rfl
  · exact hfloat.pos.ne'

/-- A float as it comes from a number: zero has one form only. -/
def Plain : Binary64 → Prop
  | .infinite => True
  | .finite m e => IsFloat m e ∨ m = 0 ∧ e = 0

theorem readNumber_zero (negative : Bool) (hrest : Ends rest) :
    readNumber negative ((render true (.finite 0 0)).toList ++ rest) = .ok (.float negative (.finite 0 0), rest) :=
  readNumber_fraction negative (whole_toDigits 0) (digits_toDigits 0) (by decide) hrest

end CodeMigration.Json
