import CodeMigration.Docs.Client
import CodeMigration.Proofs.Patches
import CodeMigration.Proofs.Utf8
import Mathlib.Data.List.SplitBy
import Mathlib.Data.List.TakeWhile

/-! # Queries are read back

A client writes names and values of parameters so that only letters, digits, four marks and percent signs are left, and
a server reads them as they were, whatever characters they have. -/

namespace CodeMigration.Docs

open Text (Bytes encode)

/-- The characters of an escaped text. -/
def IsSafe (c : Char) : Prop := isUnreserved c.toNat = true ∨ c = '%'

instance (c : Char) : Decidable (IsSafe c) := inferInstanceAs (Decidable (_ ∨ _))

def hexChar (n : Nat) : Char := Char.ofNat (if n < 10 then 48 + n else 55 + n)

theorem escapeByte_eq (b : UInt8) : escapeByte b = ['%', hexChar (b.toNat / 16), hexChar (b.toNat % 16)] := rfl

theorem hexChar_spec : ∀ n < 16, isUnreserved (hexChar n).toNat = true ∧ hexDigit? (hexChar n) = some n := by decide

theorem isUnreserved_bounds {n : Nat} (h : isUnreserved n = true) : 32 < n ∧ n < 127 := by
  simp only [isUnreserved, Text.isAsciiAlpha, Text.isAsciiUpper, Text.isAsciiLower, Text.isAsciiDigit, Bool.or_eq_true,
    Bool.and_eq_true, decide_eq_true_eq, beq_iff_eq] at h
  omega

theorem not_isUnreserved_percent : isUnreserved '%'.toNat = false := by decide

theorem percentBytes_escapeByte (b : UInt8) (rest : List Char) :
    percentBytes 0 (escapeByte b ++ rest) = b :: percentBytes 0 rest := by
  have hhigh : b.toNat / 16 < 16 := by
    have := b.toNat_lt
    omega
  have hlow : b.toNat % 16 < 16 := Nat.mod_lt _ (by decide)
  have hbyte : UInt8.ofNat (b.toNat / 16 * 16 + b.toNat % 16) = b := by
    rw [Nat.div_add_mod', UInt8.ofNat_toNat]
  rw [escapeByte_eq]
  simp only [List.cons_append, List.nil_append, percentBytes, beq_self_eq_true, if_true, (hexChar_spec _ hhigh).2,
    (hexChar_spec _ hlow).2, hbyte]

theorem percentBytes_escapeBytes (bs : Bytes) (rest : List Char) :
    percentBytes 0 (bs.flatMap escapeByte ++ rest) = bs ++ percentBytes 0 rest := by
  induction bs with
  | nil => rfl
  | cons b bs ih => rw [List.flatMap_cons, List.append_assoc, percentBytes_escapeByte, ih, List.cons_append]

variable {c mark : Char} {cs path : List Char}

theorem utf8EncodeChar_of_lt (h : c.toNat < 128) : String.utf8EncodeChar c = [UInt8.ofNat c.toNat] := by
  have hnat : c.val.toNat = c.toNat := rfl
  simp only [String.utf8EncodeChar, hnat]
  rw [if_pos (by omega)]

theorem percentBytes_cons_of_ne (h : c ≠ '%') (rest : List Char) :
    percentBytes 0 (c :: rest) = UInt8.ofNat c.toNat :: percentBytes 0 rest := by
  have hc : (c == '%') = false := beq_eq_false_iff_ne.2 h
  rw [percentBytes.eq_def]
  simp only [hc, Bool.false_eq_true, if_false]

theorem percentBytes_escape (cs : List Char) :
    percentBytes 0 (escape isUnreserved cs) = cs.flatMap String.utf8EncodeChar := by
  induction cs with
  | nil => rfl
  | cons c cs ih =>
    have hone : encode (String.ofList [c]) = String.utf8EncodeChar c := by
      rw [encode, String.toList_ofList, List.flatMap_singleton]
    rw [escape, List.flatMap_cons, List.flatMap_cons]
    rw [escape] at ih
    split
    case isTrue h =>
      have hne : c ≠ '%' := by
        rintro rfl
        rw [not_isUnreserved_percent] at h
        cases h
      rw [utf8EncodeChar_of_lt (Nat.lt_succ_of_lt (isUnreserved_bounds h).2), List.singleton_append, List.singleton_append,
        percentBytes_cons_of_ne hne, ih]
    case isFalse => rw [hone, percentBytes_escapeBytes, ih]

theorem length_le_length_escape (keep : Nat → Bool) (cs : List Char) : cs.length ≤ (escape keep cs).length := by
  induction cs with
  | nil => exact Nat.le_refl 0
  | cons c cs ih =>
    have hone : 1 ≤ (escape keep [c]).length := by
      have hbytes := String.length_utf8EncodeChar c
      have hsize := c.utf8Size_pos
      rw [escape, List.flatMap_singleton]
      split
      · exact Nat.le_refl 1
      · simp [encode, escapeByte, List.length_flatMap]
        omega
    have hcons : escape keep (c :: cs) = escape keep [c] ++ escape keep cs := by simp [escape]
    rw [hcons, List.length_append, List.length_cons]
    omega

theorem isSafe_of_mem_escape (h : c ∈ escape isUnreserved cs) : IsSafe c := by
  obtain ⟨c', -, hc⟩ := List.mem_flatMap.1 h
  split at hc
  case isTrue hkeep =>
    obtain rfl := List.mem_singleton.1 hc
    exact .inl hkeep
  case isFalse =>
    obtain ⟨b, -, hb⟩ := List.mem_flatMap.1 hc
    have hhigh : b.toNat / 16 < 16 := by
      have := b.toNat_lt
      omega
    rw [escapeByte_eq, List.mem_cons, List.mem_cons, List.mem_singleton] at hb
    rcases hb with rfl | rfl | rfl
    · exact .inr rfl
    · exact .inl (hexChar_spec _ hhigh).1
    · exact .inl (hexChar_spec _ (Nat.mod_lt _ (by decide))).1

theorem IsSafe.lt (h : IsSafe c) : c.toNat < 128 := by
  rcases h with h | rfl
  · exact Nat.lt_succ_of_lt (isUnreserved_bounds h).2
  · decide

theorem IsSafe.ne (h : IsSafe c) (hmark : isUnreserved mark.toNat = false) (hmark' : mark ≠ '%') : c ≠ mark := by
  rintro rfl
  rcases h with h | h
  · rw [h] at hmark
    cases hmark
  · exact hmark' h

theorem unquote_of_ascii (h : ∀ c ∈ cs, c.toNat < 128) :
    unquote cs = String.ofList (Text.decodeOr [Char.ofNat 0xFFFD] 0 (percentBytes 0 cs)) := by
  cases cs with
  | nil => rfl
  | cons c cs =>
    have hchain : (c :: cs).IsChain fun a b => (decide (a.toNat < 128) == decide (b.toNat < 128)) = true := by
      refine List.Pairwise.isChain (List.pairwise_of_forall_mem_list fun a ha b hb => ?_)
      simp [h a ha, h b hb]
    have hall : (c :: cs).all (·.toNat < 128) = true := by
      rw [List.all_eq_true]
      exact fun a ha => decide_eq_true (h a ha)
    rw [unquote, List.splitBy_of_isChain (List.cons_ne_nil c cs) hchain]
    simp only [List.flatMap_singleton, hall, if_true]

theorem unquote_escape (s : String) : unquote (plusToBlank (escape isUnreserved s.toList)) = s := by
  have hsafe := fun c (hc : c ∈ escape isUnreserved s.toList) => isSafe_of_mem_escape hc
  have hplus : plusToBlank (escape isUnreserved s.toList) = escape isUnreserved s.toList := by
    refine (List.map_congr_left fun c hc => ?_).trans (List.map_id _)
    rw [if_neg (mt beq_iff_eq.1 ((hsafe c hc).ne (by decide) (by decide)))]
    rfl
  have hdecode := Text.decodeOr_encode [Char.ofNat 0xFFFD] s
  rw [encode] at hdecode
  rw [hplus, unquote_of_ascii fun c hc => (hsafe c hc).lt, percentBytes_escape, hdecode, String.ofList_toList]

theorem cut?_append {before : List Char} (h : c ∉ before) (rest : List Char) :
    cut? c (before ++ c :: rest) = some (before, rest) := by
  have hpass : ∀ x ∈ before, (x != c) = true := fun x hx => bne_iff_ne.2 fun heq => h (heq ▸ hx)
  rw [cut?, List.dropWhile_append_of_pos hpass, List.takeWhile_append_of_pos hpass]
  simp

theorem cut?_eq_none (h : c ∉ cs) : cut? c cs = none := by
  have hpass : ∀ x ∈ cs, (x != c) = true := fun x hx => bne_iff_ne.2 fun heq => h (heq ▸ hx)
  rw [cut?, List.dropWhile_eq_nil_iff.2 hpass]

theorem not_mem_escape (hmark : isUnreserved mark.toNat = false) (hmark' : mark ≠ '%') (cs : List Char) :
    mark ∉ escape isUnreserved cs :=
  fun h => (isSafe_of_mem_escape h).ne hmark hmark' rfl

def textParams (pairs : List (String × String)) : Params := pairs.map fun (name, text) => (name, .string text)

def pieceOf (pair : String × String) : List Char :=
  escape isUnreserved pair.1.toList ++ '=' :: escape isUnreserved pair.2.toList

theorem toList_queryOf (pairs : List (String × String)) :
    (queryOf (textParams pairs)).toList = ['&'].intercalate (pairs.map pieceOf) := by
  have hquery : queryOf (textParams pairs) = "&".intercalate ((textParams pairs).flatMap fun p =>
      (paramTexts p.2).map fun t => queryText p.1 ++ "=" ++ queryText t) := rfl
  have hpieces : ((textParams pairs).flatMap fun p => (paramTexts p.2).map fun t => queryText p.1 ++ "=" ++ queryText t) =
      pairs.map fun p => queryText p.1 ++ "=" ++ queryText p.2 := by
    rw [textParams, List.flatMap_map, List.map_eq_flatMap]
    rfl
  rw [hquery, hpieces, String.toList_intercalate, List.map_map]
  congr 1
  refine List.map_congr_left fun pair _ => ?_
  rw [Function.comp_apply, String.toList_append, String.toList_append, queryText, queryText, List.append_assoc]
  simp [pieceOf]

theorem not_mem_pieceOf (hmark : isUnreserved mark.toNat = false) (hmark' : mark ≠ '%') (hne : mark ≠ '=')
    (pair : String × String) : mark ∉ pieceOf pair := by
  rw [pieceOf, List.mem_append, List.mem_cons, not_or, not_or]
  exact ⟨not_mem_escape hmark hmark' _, hne, not_mem_escape hmark hmark' _⟩

/-- A query has safe characters only, besides the marks that divide it. -/
theorem safe_queryOf (pairs : List (String × String)) :
    ∀ c ∈ (queryOf (textParams pairs)).toList, IsSafe c ∨ c = '=' ∨ c = '&' := by
  rw [toList_queryOf]
  apply Text.forall_mem_intercalate
  · intro c hc
    exact .inr (.inr (List.mem_singleton.1 hc))
  · refine List.forall_mem_map.2 fun pair _ c hc => ?_
    rw [pieceOf, List.mem_append, List.mem_cons] at hc
    rcases hc with hc | hc | hc
    · exact .inl (isSafe_of_mem_escape hc)
    · exact .inr (.inl hc)
    · exact .inl (isSafe_of_mem_escape hc)

/-- Parameters are read as they were written, but for those that are empty. -/
theorem parameters_queryOf {pairs : List (String × String)} (h : pairs ≠ []) :
    parameters (queryOf (textParams pairs)) = pairs.filter (·.2 != "") := by
  have hsplit : (['&'].intercalate (pairs.map pieceOf)).splitOn '&' = pairs.map pieceOf :=
    List.splitOn_intercalate '&'
      (List.forall_mem_map.2 fun pair _ => not_mem_pieceOf (by decide) (by decide) (by decide) pair)
      (mt List.map_eq_nil_iff.1 h)
  have hempty : ∀ s : String, (escape isUnreserved s.toList).isEmpty = (s == "") := by
    intro s
    rw [Bool.eq_iff_iff, List.isEmpty_iff, beq_iff_eq]
    constructor
    · intro hnil
      have hback := unquote_escape s
      rw [hnil] at hback
      exact hback.symm
    · rintro rfl
      rfl
  rw [parameters, toList_queryOf, Text.splitChars_eq_splitOn, hsplit, List.filterMap_map, ← List.filterMap_eq_filter]
  refine List.filterMap_congr fun pair _ => ?_
  rw [Function.comp_apply, pieceOf, cut?_append (not_mem_escape (by decide) (by decide) _)]
  simp only [unquote_escape, hempty, Option.guard, bne]
  by_cases hblank : pair.2 = "" <;> simp [hblank]

/-- A path of which no part means anything but itself. -/
structure IsPlainPath (path : List Char) : Prop where
  root : ∃ c cs, path = '/' :: c :: cs ∧ c ≠ '/'
  safe : ∀ c ∈ path, IsSafe c ∨ c = '/'

theorem IsPlainPath.of_all (hroot : ∃ c cs, path = '/' :: c :: cs ∧ c ≠ '/')
    (h : path.all (fun c => decide (IsSafe c ∨ c = '/')) = true) : IsPlainPath path :=
  ⟨hroot, fun c hc => of_decide_eq_true (List.all_eq_true.1 h c hc)⟩

theorem IsPlainPath.ne (h : IsPlainPath path) (hc : c ∈ path) (hmark : isUnreserved mark.toNat = false)
    (hmark' : mark ≠ '%') (hne : mark ≠ '/') : c ≠ mark := by
  rcases h.safe c hc with hsafe | rfl
  · exact hsafe.ne hmark hmark'
  · exact hne.symm

theorem dropParameters_of_not_mem (h : ';' ∉ cs) : dropParameters cs = cs := by
  generalize hlast : (cs.reverse.takeWhile (· != '/')).reverse = last
  have hsuffix : cs = (cs.reverse.dropWhile (· != '/')).reverse ++ last := by
    rw [← hlast, ← List.reverse_append, List.takeWhile_append_dropWhile, List.reverse_reverse]
  have hpass : ∀ c ∈ last, (c != ';') = true := by
    intro c hc
    rw [bne_iff_ne]
    rintro rfl
    exact h (hsuffix ▸ List.mem_append_right _ hc)
  rw [dropParameters, hlast, List.takeWhile_eq_self_iff.2 hpass]
  conv_lhs => rw [hsuffix]
  rw [List.length_append, Nat.add_sub_cancel, List.take_left, ← hsuffix]

theorem not_mem_target {query : List Char} (hpath : IsPlainPath path)
    (hquery : ∀ c ∈ query, IsSafe c ∨ c = '=' ∨ c = '&') (hmark : isUnreserved mark.toNat = false) (hmark' : mark ≠ '%')
    (hother : mark ∉ ['/', '?', '=', '&']) : mark ∉ path ++ '?' :: query := by
  simp only [List.mem_cons, List.not_mem_nil, or_false, not_or] at hother
  rw [List.mem_append, List.mem_cons, not_or, not_or]
  refine ⟨fun hin => hpath.ne hin hmark hmark' hother.1 rfl, hother.2.1, fun hin => ?_⟩
  rcases hquery mark hin with hsafe | heq | heq
  · exact hsafe.ne hmark hmark' rfl
  · exact hother.2.2.1 heq
  · exact hother.2.2.2 heq

theorem ofString_append {query : List Char} (hpath : IsPlainPath path)
    (hquery : ∀ c ∈ query, IsSafe c ∨ c = '=' ∨ c = '&') :
    Target.ofString (String.ofList (path ++ '?' :: query)) = .ok ⟨String.ofList path, String.ofList query⟩ := by
  have hmark (mark : Char) := @not_mem_target mark path query hpath hquery
  obtain ⟨c, cs, hroot, hc⟩ := hpath.root
  have hdrop : (path ++ '?' :: query).dropWhile (fun c => c.toNat ≤ 32) = path ++ '?' :: query := by
    rw [hroot]
    rfl
  have hfilter : (path ++ '?' :: query).filter (fun c => c != '\t' && c != '\r' && c != '\n') = path ++ '?' :: query := by
    rw [List.filter_eq_self]
    intro x hx
    have htab : x ≠ '\t' := fun heq => hmark '\t' (by decide) (by decide) (by decide) (heq ▸ hx)
    have hreturn : x ≠ '\r' := fun heq => hmark '\r' (by decide) (by decide) (by decide) (heq ▸ hx)
    have hfeed : x ≠ '\n' := fun heq => hmark '\n' (by decide) (by decide) (by decide) (heq ▸ hx)
    simp [htab, hreturn, hfeed]
  have hscheme : splitScheme (path ++ '?' :: query) = ("", path ++ '?' :: query) := by
    rw [splitScheme, cut?_eq_none (hmark ':' (by decide) (by decide) (by decide))]
  have hhost : splitHost (path ++ '?' :: query) = ([], path ++ '?' :: query) := by
    rw [hroot, List.cons_append, List.cons_append, splitHost]
    rintro rest heq
    exact hc (List.cons.inj (List.cons.inj heq).2).1
  have hhash : (path ++ '?' :: query).takeWhile (· != '#') = path ++ '?' :: query := by
    rw [List.takeWhile_eq_self_iff]
    exact fun x hx => bne_iff_ne.2 fun heq => hmark '#' (by decide) (by decide) (by decide) (heq ▸ hx)
  have hcut : cut? '?' (path ++ '?' :: query) = some (path, query) :=
    cut?_append (fun hin => hpath.ne hin (by decide) (by decide) (by decide) rfl) query
  have hpath' : dropParameters path = path :=
    dropParameters_of_not_mem fun hin => hpath.ne hin (by decide) (by decide) (by decide) rfl
  have hplain : Target.ofChars "" (path ++ '?' :: query) = ⟨String.ofList path, String.ofList query⟩ := by
    simp only [Target.ofChars, hhash, hcut, Option.getD_some, hpath']
    rfl
  rw [Target.ofString, String.toList_ofList]
  simp only [hdrop, hfilter, hscheme, hhost, hplain]
  rfl

end CodeMigration.Docs
