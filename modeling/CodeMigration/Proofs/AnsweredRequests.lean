import CodeMigration.Proofs.Json.Lengths
import CodeMigration.Proofs.LastLoads

/-! # Which requests are answered

A server answers a request with a text in JSON, or it fails and answers nothing. It fails where the host of an address
cannot be read, where a number that it needs is none, and where the code that it is to check is no text. -/

namespace CodeMigration.Text

/-- Digits of any script with their values; single underscores stand between them only. -/
inductive Spelled : List Char → List Nat → Prop
  | last {c : Char} {d : Nat} (h : decimalValue? c.toNat = some d) : Spelled [c] [d]
  | next {c : Char} {d : Nat} {cs : List Char} {ds : List Nat} (h : decimalValue? c.toNat = some d) (hcs : Spelled cs ds) :
    Spelled (c :: cs) (d :: ds)
  | joined {c : Char} {d : Nat} {cs : List Char} {ds : List Nat} (h : decimalValue? c.toNat = some d)
    (hcs : Spelled cs ds) : Spelled (c :: '_' :: cs) (d :: ds)

variable {cs : List Char} {ds : List Nat}

theorem Spelled.exists_head (h : Spelled cs ds) : ∃ c rest d, cs = c :: rest ∧ decimalValue? c.toNat = some d := by
  cases h with
  | last h | next h hcs | joined h hcs => exact ⟨_, _, _, rfl, h⟩

theorem Spelled.exists_last (h : Spelled cs ds) : ∃ front c d, cs = front ++ [c] ∧ decimalValue? c.toNat = some d := by
  induction h with
  | last h => exact ⟨[], _, _, rfl, h⟩
  | @next c d cs ds h hcs ih =>
    obtain ⟨front, c', d', rfl, h'⟩ := ih
    exact ⟨c :: front, c', d', rfl, h'⟩
  | @joined c d cs ds h hcs ih =>
    obtain ⟨front, c', d', rfl, h'⟩ := ih
    exact ⟨c :: '_' :: front, c', d', rfl, h'⟩

theorem digitValues_eq_some_iff : digitValues cs = some ds ↔ Spelled cs ds := by
  constructor
  · intro h
    fun_induction digitValues cs generalizing ds with
    | case1 => simp at h
    | case2 c =>
      obtain ⟨d, hd, rfl⟩ := Option.map_eq_some_iff.1 h
      exact .last hd
    | case3 c rest ih =>
      obtain ⟨d, hd, hrest⟩ := Option.bind_eq_some_iff.1 h
      obtain ⟨ds', hds, heq⟩ := Option.bind_eq_some_iff.1 hrest
      obtain rfl := Option.some.inj heq
      exact .joined hd (ih hds)
    | case4 c rest hone hjoined ih =>
      obtain ⟨d, hd, hrest⟩ := Option.bind_eq_some_iff.1 h
      obtain ⟨ds', hds, heq⟩ := Option.bind_eq_some_iff.1 hrest
      obtain rfl := Option.some.inj heq
      exact .next hd (ih hds)
  · intro h
    induction h with
    | last h => simp [digitValues, h]
    | @next c d cs ds h hcs ih =>
      -- No digit is an underscore.
      obtain ⟨c', rest, d', rfl, h'⟩ := hcs.exists_head
      have hne : c' ≠ '_' := by
        rintro rfl
        simp [decimalValue?, isAsciiDigit] at h'
      rw [digitValues, h, ih]
      · rfl
      · simp
      · rintro rest' heq
        exact hne (List.cons.inj heq).1
    | @joined c d cs ds h hcs ih => rw [digitValues, h, ih]; rfl

/-- A text that says an integer: digits, a sign in front or none, and blanks around. -/
inductive IntegerText : List Char → Int → Prop
  | positive {before sign digits after : List Char} {values : List Nat} (hbefore : ∀ c ∈ before, isBlank c = true)
    (hsign : sign = [] ∨ sign = ['+']) (hdigits : Spelled digits values) (hafter : ∀ c ∈ after, isBlank c = true)
    (hlength : values.length ≤ maxReadDigits) : IntegerText (before ++ (sign ++ digits) ++ after) (ofDigitValues values)
  | negative {before digits after : List Char} {values : List Nat} (hbefore : ∀ c ∈ before, isBlank c = true)
    (hdigits : Spelled digits values) (hafter : ∀ c ∈ after, isBlank c = true)
    (hlength : values.length ≤ maxReadDigits) :
    IntegerText (before ++ ('-' :: digits) ++ after) (-(ofDigitValues values : Int))

def blanks : List Nat :=
  [9, 10, 11, 12, 13, 28, 29, 30, 31, 32, 0x85, 0xa0, 0x1680, 0x2000, 0x2001, 0x2002, 0x2003, 0x2004, 0x2005, 0x2006,
   0x2007, 0x2008, 0x2009, 0x200a, 0x2028, 0x2029, 0x202f, 0x205f, 0x3000]

theorem mem_blanks {n : Nat} (h : isSpace n = true) : n ∈ blanks := by
  simp only [isSpace, Bool.or_eq_true, Bool.and_eq_true, decide_eq_true_eq, beq_iff_eq] at h
  simp only [blanks, List.mem_cons, List.not_mem_nil, or_false]
  omega

theorem CodeRanges.mem_of_search {bounds : Array (Nat × Nat)} {n fuel lo hi : Nat} {r : Nat × Nat}
    (h : search bounds n fuel lo hi = some r) : r ∈ bounds ∧ r.1 ≤ n ∧ n ≤ r.2 := by
  fun_induction search bounds n fuel lo hi with
  | case3 fuel lo hi hlt mid a b hget hbelow ih => exact ih h
  | case4 fuel lo hi hlt mid a b hget hbelow habove ih => exact ih h
  | case5 fuel lo hi hlt mid a b hget hbelow habove =>
    cases h
    exact ⟨Array.mem_of_getElem? hget, by omega, by omega⟩
  | _ => simp at h

-- A text that is written out is the text of its characters, and with those the kernel has nothing to decode.
theorem CodeRanges.forall_mem_ofText {P : Nat × Nat → Prop} {s : String} (hs : s = String.ofList cs)
    (h : ∀ r ∈ pairs 0 (numbersIn cs), P r) : ∀ r ∈ (ofText s).bounds, P r := by
  intro r hr
  rw [ofText, List.mem_toArray, numbers, hs, String.toList_ofList] at hr
  exact h r hr

set_option maxRecDepth 2000 in
theorem blanks_outside_decimalTable : ∀ r ∈ decimalTable.bounds, ∀ n ∈ blanks, n < r.1 ∨ r.2 < n := by
  refine CodeRanges.forall_mem_ofText rfl ?_
  decide +kernel

theorem not_isBlank_of_digit {c : Char} {d : Nat} (h : decimalValue? c.toNat = some d) : isBlank c = false := by
  by_contra hblank
  rw [Bool.not_eq_false] at hblank
  have hin := mem_blanks hblank
  rw [decimalValue?] at h
  split at h
  · have hnone : ∀ n ∈ blanks, isAsciiDigit n = false := by decide
    simp [hnone _ hin] at h
  · obtain ⟨r, hr, -⟩ := Option.map_eq_some_iff.1 h
    obtain ⟨hmem, hfirst, hlast⟩ := CodeRanges.mem_of_search hr
    have hout := blanks_outside_decimalTable r hmem _ hin
    omega

/-- Blanks around a text are all that is taken off, if it has none at its ends. -/
theorem stripBoth_append {before text after : List Char} (hbefore : ∀ c ∈ before, isBlank c = true)
    (hafter : ∀ c ∈ after, isBlank c = true) (hhead : ∃ c rest, text = c :: rest ∧ isBlank c = false)
    (hlast : ∃ front c, text = front ++ [c] ∧ isBlank c = false) : stripBoth (before ++ text ++ after) = text := by
  have hleft : stripLeft (before ++ text ++ after) = text ++ after := by
    obtain ⟨c, rest, rfl, hc⟩ := hhead
    rw [stripLeft, List.append_assoc, List.dropWhile_append_of_pos hbefore, List.cons_append, List.dropWhile_cons_of_neg]
    rw [hc]
    exact Bool.false_ne_true
  obtain ⟨front, c, rfl, hc⟩ := hlast
  have hafter' : ∀ c ∈ after.reverse, isBlank c = true := fun c hin => hafter c (List.mem_reverse.1 hin)
  rw [stripBoth, hleft, stripRight, List.reverse_append, List.dropWhile_append_of_pos hafter', List.reverse_append,
    List.reverse_singleton, List.singleton_append, List.dropWhile_cons_of_neg]
  · simp
  · rw [hc]
    exact Bool.false_ne_true

theorem exists_around (cs : List Char) : ∃ before after, cs = before ++ stripBoth cs ++ after ∧
    (∀ c ∈ before, isBlank c = true) ∧ ∀ c ∈ after, isBlank c = true := by
  refine ⟨cs.takeWhile isBlank, ((stripLeft cs).reverse.takeWhile isBlank).reverse, ?_, ?_, ?_⟩
  · rw [List.append_assoc, stripBoth, stripRight, ← List.reverse_append, List.takeWhile_append_dropWhile,
      List.reverse_reverse, stripLeft, List.takeWhile_append_dropWhile]
  · exact fun c hc => List.mem_takeWhile_imp hc
  · exact fun c hc => List.mem_takeWhile_imp (List.mem_reverse.1 hc)

theorem exists_sign (cs : List Char) : ∃ sign, cs = sign ++ (signOf cs).2 ∧
    ((signOf cs).1 = true ∧ sign = ['-'] ∨ (signOf cs).1 = false ∧ (sign = [] ∨ sign = ['+'])) := by
  rw [signOf.eq_def]
  split
  · exact ⟨['-'], rfl, .inl ⟨rfl, rfl⟩⟩
  · exact ⟨['+'], rfl, .inr ⟨rfl, .inr rfl⟩⟩
  · exact ⟨[], rfl, .inr ⟨rfl, .inl rfl⟩⟩

theorem signOf_digits {digits : List Char} {values : List Nat} (h : Spelled digits values) :
    signOf digits = (false, digits) := by
  obtain ⟨c, rest, d, rfl, hc⟩ := h.exists_head
  have hminus : c ≠ '-' := by
    rintro rfl
    simp [decimalValue?, isAsciiDigit] at hc
  have hplus : c ≠ '+' := by
    rintro rfl
    simp [decimalValue?, isAsciiDigit] at hc
  simp [signOf, hminus, hplus]

theorem stripBoth_digits {before sign digits after : List Char} {values : List Nat}
    (hbefore : ∀ c ∈ before, isBlank c = true) (hsign : sign ∈ [[], ['+'], ['-']]) (hdigits : Spelled digits values)
    (hafter : ∀ c ∈ after, isBlank c = true) : stripBoth (before ++ (sign ++ digits) ++ after) = sign ++ digits := by
  apply stripBoth_append hbefore hafter
  · obtain ⟨c, rest, d, rfl, hc⟩ := hdigits.exists_head
    simp only [List.mem_cons, List.not_mem_nil, or_false] at hsign
    rcases hsign with rfl | rfl | rfl
    · exact ⟨c, rest, rfl, not_isBlank_of_digit hc⟩
    · exact ⟨'+', c :: rest, rfl, by decide⟩
    · exact ⟨'-', c :: rest, rfl, by decide⟩
  · obtain ⟨front, c, d, rfl, hc⟩ := hdigits.exists_last
    exact ⟨sign ++ front, c, by rw [List.append_assoc], not_isBlank_of_digit hc⟩

theorem readInt_eq_ok_iff {n : Int} : readInt cs = .ok n ↔ IntegerText cs n := by
  constructor
  · intro h
    obtain ⟨before, after, heq, hbefore, hafter⟩ := exists_around cs
    obtain ⟨sign, htext, hsign⟩ := exists_sign (stripBoth cs)
    rw [readInt] at h
    simp only at h
    split at h
    · simp at h
    · rename_i values hvalues
      have hdigits := digitValues_eq_some_iff.1 hvalues
      split at h
      · simp at h
      · rename_i hlength
        have hn := Except.ok.inj h
        rw [Nat.not_lt] at hlength
        rw [heq, htext]
        rcases hsign with ⟨hnegative, rfl⟩ | ⟨hpositive, hsign⟩
        · rw [hnegative, if_pos rfl] at hn
          exact hn ▸ .negative hbefore hdigits hafter hlength
        · rw [hpositive, if_neg Bool.false_ne_true] at hn
          exact hn ▸ .positive hbefore hsign hdigits hafter hlength
  · intro h
    cases h with
    | @positive before sign digits after values hbefore hsign hdigits hafter hlength =>
      have hmem : sign ∈ [[], ['+'], ['-']] := by rcases hsign with rfl | rfl <;> simp
      have hstrip := stripBoth_digits hbefore hmem hdigits hafter
      have hsigned : signOf (sign ++ digits) = (false, digits) := by
        rcases hsign with rfl | rfl
        · exact signOf_digits hdigits
        · rfl
      simp only [readInt, hstrip, hsigned, digitValues_eq_some_iff.2 hdigits]
      rw [if_neg (Nat.not_lt.2 hlength), if_neg Bool.false_ne_true]
    | @negative before digits after values hbefore hdigits hafter hlength =>
      have hstrip := stripBoth_digits hbefore (by simp : ['-'] ∈ [[], ['+'], ['-']]) hdigits hafter
      have hsigned : signOf (['-'] ++ digits) = (true, digits) := rfl
      rw [List.singleton_append] at hstrip hsigned
      simp only [readInt, hstrip, hsigned, digitValues_eq_some_iff.2 hdigits]
      rw [if_neg (Nat.not_lt.2 hlength), if_pos trivial]

end CodeMigration.Text

namespace CodeMigration.Docs

open Json (Value)

def afterScheme (address : String) : String × List Char :=
  splitScheme ((address.toList.dropWhile fun c => c.toNat ≤ 32).filter fun c => c != '\t' && c != '\r' && c != '\n')

def hostOf (address : String) : List Char := (splitHost (afterScheme address).2).1

def Target.within (address : String) : Target := .ofChars (afterScheme address).1 (splitHost (afterScheme address).2).2

def bracketed (host : List Char) : List Char :=
  let inner := ((cut? '[' host).map Prod.snd).getD []
  ((cut? ']' inner).map Prod.fst).getD inner

/-- A host that can be read: in brackets there is an address of the sixth version or a later one, and no character
stands for one that divides addresses. -/
structure IsHost (host : List Char) : Prop where
  brackets : '[' ∈ host ↔ ']' ∈ host
  inner : '[' ∈ host → (bracketed host).head? = some 'v' ∧ isFutureAddress (bracketed host) = true ∨
    (bracketed host).head? ≠ some 'v' ∧ isAddress4 (bracketed host) = false ∧ isAddress6 (bracketed host) = true
  forms : ∀ c ∈ host, c.toNat ∉ dividingForms

theorem isHost_nil : IsHost [] := by
  refine ⟨by simp, fun h => absurd h List.not_mem_nil, fun c hc => absurd hc List.not_mem_nil⟩

variable {host : List Char} {answer : Except Failure Response} {condition : Prop}

theorem checkHost_eq_ok_iff : checkHost host = .ok () ↔ ('[' ∈ host ↔ ']' ∈ host) ∧
    ('[' ∈ host → (bracketed host).head? = some 'v' ∧ isFutureAddress (bracketed host) = true ∨
      (bracketed host).head? ≠ some 'v' ∧ isAddress4 (bracketed host) = false ∧ isAddress6 (bracketed host) = true) := by
  have hinner : ((cut? ']' (((cut? '[' host).map Prod.snd).getD [])).map Prod.fst).getD
      (((cut? '[' host).map Prod.snd).getD []) = bracketed host := rfl
  simp only [checkHost, hinner]
  by_cases hopen : '[' ∈ host
  · by_cases hclose : ']' ∈ host
    · simp only [List.contains_iff_mem.2 hopen, List.contains_iff_mem.2 hclose, bne_self_eq_false, Bool.false_eq_true,
        if_false, if_true, hopen, hclose, true_and, true_implies]
      by_cases hv : (bracketed host).head? = some 'v'
      · by_cases hfuture : isFutureAddress (bracketed host) = true <;> simp [hv, hfuture]
      · by_cases h4 : isAddress4 (bracketed host) = true
        · simp [hv, h4]
        · by_cases h6 : isAddress6 (bracketed host) = true <;> simp [hv, h4, h6]
    · simp [hopen, hclose]
  · by_cases hclose : ']' ∈ host <;> simp [hopen, hclose]

theorem checkForms_eq_ok_iff : checkForms host = .ok () ↔ ∀ c ∈ host, c.toNat ∉ dividingForms := by
  rw [checkForms]
  split
  · rename_i hany
    obtain ⟨c, hc, hform⟩ := List.any_eq_true.1 hany
    simp only [reduceCtorEq, false_iff]
    exact fun h => h c hc (List.contains_iff_mem.1 hform)
  · rename_i hnone
    simp only [true_iff]
    intro c hc hform
    exact hnone (List.any_eq_true.2 ⟨c, hc, List.contains_iff_mem.2 hform⟩)

theorem ofString_eq (address : String) : Target.ofString address = (do
    checkHost (hostOf address)
    checkForms (hostOf address)
    return .within address) := rfl

variable {address text : String} {lib : Library} {n : Int} {length : Option String} {body bytes : Text.Bytes}

theorem ofString_of_isHost (h : IsHost (hostOf address)) : Target.ofString address = .ok (.within address) := by
  rw [ofString_eq, checkHost_eq_ok_iff.2 ⟨h.brackets, h.inner⟩, checkForms_eq_ok_iff.2 h.forms]
  rfl

theorem ofString_of_not_isHost (h : ¬IsHost (hostOf address)) :
    ∃ failure, Target.ofString address = .error failure := by
  rw [ofString_eq]
  cases hhost : checkHost (hostOf address) with
  | error failure => exact ⟨failure, rfl⟩
  | ok _ =>
    cases hforms : checkForms (hostOf address) with
    | error failure => exact ⟨failure, rfl⟩
    | ok _ =>
      obtain ⟨hbrackets, hinner⟩ := checkHost_eq_ok_iff.1 hhost
      exact absurd ⟨hbrackets, hinner, checkForms_eq_ok_iff.1 hforms⟩ h

theorem splitScheme_slash (cs : List Char) : splitScheme ('/' :: cs) = ("", '/' :: cs) := by
  have hcut : cut? ':' ('/' :: cs) = (cut? ':' cs).map fun parts => ('/' :: parts.1, parts.2) := by
    have hdrop : ('/' :: cs).dropWhile (· != ':') = cs.dropWhile (· != ':') := rfl
    have htake : ('/' :: cs).takeWhile (· != ':') = '/' :: cs.takeWhile (· != ':') := rfl
    rw [cut?, cut?, hdrop, htake]
    split <;> rfl
  rw [splitScheme, hcut]
  cases cut? ':' cs with
  | none => rfl
  | some parts => rfl

theorem toList_oneSlash (hslash : address.toList.head? = some '/') :
    ∃ cs, (oneSlash address).toList = '/' :: cs ∧ cs.head? ≠ some '/' ∧ ∀ c ∈ cs, c ∈ address.toList := by
  obtain ⟨rest, hrest⟩ : ∃ rest, address.toList = '/' :: rest := by
    cases h : address.toList with
    | nil => simp [h] at hslash
    | cons c rest => exact ⟨rest, by simp_all⟩
  rw [oneSlash.eq_def, hrest]
  split
  · rename_i more heq
    obtain rfl := (List.cons.inj heq).2
    refine ⟨more.dropWhile (· == '/'), String.toList_ofList, fun hhead => ?_, fun c hc => ?_⟩
    · have hnot := List.head?_dropWhile_not (· == '/') more
      rw [hhead] at hnot
      simp at hnot
    · exact List.mem_cons_of_mem _ (List.mem_cons_of_mem _ ((List.dropWhile_suffix _).mem hc))
  · rename_i hone
    refine ⟨rest, hrest, fun hhead => ?_, fun c hc => List.mem_cons_of_mem _ hc⟩
    obtain ⟨more, rfl⟩ : ∃ more, rest = '/' :: more := by
      cases rest with
      | nil => simp at hhead
      | cons c more => exact ⟨more, by simp_all⟩
    exact hone more rfl

theorem hostOf_slash (hslash : address.toList.head? = some '/')
    (hblank : ∀ c ∈ address.toList, c ∉ ['\t', '\r', '\n']) : hostOf (oneSlash address) = [] := by
  obtain ⟨cs, hcs, hhead, hmem⟩ := toList_oneSlash hslash
  have hfilter : ('/' :: cs).filter (fun c => c != '\t' && c != '\r' && c != '\n') = '/' :: cs := by
    rw [List.filter_eq_self]
    intro c hc
    rcases List.mem_cons.1 hc with rfl | hc
    · decide
    · have hnot := hblank c (hmem c hc)
      simp only [List.mem_cons, List.not_mem_nil, or_false, not_or] at hnot
      simp [hnot]
  have hdrop : ('/' :: cs).dropWhile (fun c => c.toNat ≤ 32) = '/' :: cs := rfl
  rw [hostOf, afterScheme, hcs, hdrop, hfilter, splitScheme_slash]
  simp only
  rw [splitHost]
  rintro rest heq
  rw [(List.cons.inj heq).2] at hhead
  exact hhead rfl

/-- An answer that arrives: its bytes are a text in JSON. -/
structure Response.Sent (r : Response) : Prop where
  status : r.status ∈ [200, 400, 404]
  body : ∃ cs, Json.charsOf r.bytes = .ok cs ∧ Json.ofChars cs = .ok r.body

/-- There is an answer on a condition, and only then. -/
structure Answered (answer : Except Failure Response) (condition : Prop) : Prop where
  sent : condition → ∃ r, answer = .ok r ∧ r.Sent
  failed : ¬condition → ∃ failure, answer = .error failure

theorem Answered.of_sent (h : condition) (hsent : ∃ r, answer = .ok r ∧ r.Sent) : Answered answer condition :=
  ⟨fun _ => hsent, fun hnot => absurd h hnot⟩

theorem Answered.of_failed (h : ¬condition) (hfailed : ∃ failure, answer = .error failure) :
    Answered answer condition :=
  ⟨fun hcondition => absurd hcondition h, fun _ => hfailed⟩

theorem sent_ok {body : Value} (h : body.Sendable) : (ok body).Sent :=
  ⟨List.mem_cons_self, Json.exists_charsOf_write h⟩

theorem sent_refuse {status : Nat} (h : status ∈ [200, 400, 404]) (message : String) : (refuse status message).Sent :=
  ⟨h, Json.exists_charsOf_write (sendable_object (.string message))⟩

structure Library.Sendable (lib : Library) : Prop where
  guides : ∀ entry ∈ lib.guides, entry.2.Sendable
  examples : ∀ entry ∈ lib.examples, entry.2.Sendable

theorem Library.Sendable.guide (h : lib.Sendable) (source target : String) : (lib.guide source target).Sendable := by
  have hsection : ∀ s : String × String × String, (Value.object [("name", .string s.1), ("description", .string s.2.1),
      ("example", .string s.2.2)]).Sendable := by
    intro s
    refine .object (by simp) ?_
    simp only [List.forall_mem_cons]
    exact ⟨.string _, .string _, .string _, fun _ hnil => absurd hnil List.not_mem_nil⟩
  have hguide : ∀ title sections, (Docs.guide title sections).Sendable := by
    intro title sections
    refine .object (by simp) (List.forall_mem_cons.2 ⟨.string title, List.forall_mem_singleton.2 (.array ?_)⟩)
    exact List.forall_mem_map.2 fun s _ => hsection s
  have hdefaults : ∀ entry ∈ defaultGuides, entry.2.Sendable :=
    List.forall_mem_cons.2 ⟨hguide _ _, List.forall_mem_singleton.2 (hguide _ _)⟩
  have hnone : (Value.object []).Sendable := .object List.nodup_nil fun _ hnil => absurd hnil List.not_mem_nil
  exact forall_lookup h.guides _ (forall_lookup hdefaults _ hnone)

theorem Library.Sendable.examplesOf (h : lib.Sendable) (pattern : String) : (lib.examplesOf pattern).Sendable := by
  have hnone : (Value.array []).Sendable := .array fun v hv => absurd hv List.not_mem_nil
  exact forall_lookup h.examples _ (forall_lookup sendable_defaultExamples _ hnone)

theorem sendable_search (text : String) (limit : Int) : (Value.array (search text limit)).Sendable := by
  have hhit : ∀ title url snippet, (hit title url snippet).Sendable := by
    intro title url snippet
    refine .object (by simp) ?_
    simp only [List.forall_mem_cons]
    exact ⟨.string _, .string _, .string _, fun _ hnil => absurd hnil List.not_mem_nil⟩
  have hpages : ∀ page ∈ pages, page.2.Sendable := by
    simp only [pages, List.forall_mem_cons]
    exact ⟨hhit _ _ _, hhit _ _ _, hhit _ _ _, fun _ hnil => absurd hnil List.not_mem_nil⟩
  refine .array fun v hv => ?_
  obtain ⟨page, hpage, rfl⟩ := List.mem_map.1 (List.mem_of_mem_take hv)
  exact hpages page (List.mem_filter.1 hpage).1

def limitText (target : Target) : String := ((parameters target.query).lookup "limit").getD "5"

structure Gettable (address : String) : Prop where
  host : IsHost (hostOf address)
  limit : (Target.within address).path = "/api/search" → ∃ n, Text.IntegerText (limitText (.within address)).toList n

theorem integerOf_eq_ok (h : Text.IntegerText text.toList n) : integerOf text = .ok n := by
  rw [integerOf, Text.readInt_eq_ok_iff.2 h]

theorem integerOf_eq_error (h : ¬∃ n, Text.IntegerText text.toList n) : ∃ failure, integerOf text = .error failure := by
  rw [integerOf]
  cases hread : Text.readInt text.toList with
  | ok n => exact absurd ⟨n, Text.readInt_eq_ok_iff.1 hread⟩ h
  | error fault =>
    cases fault with
    | malformed => exact ⟨_, rfl⟩
    | tooLong digits => exact ⟨_, rfl⟩

theorem get_search (hhost : IsHost (hostOf address)) (hpath : (Target.within address).path = "/api/search") :
    lib.get address = (do
      let limit ← integerOf (limitText (.within address))
      let text := ((parameters (Target.within address).query).lookup "q").getD ""
      return ok (.object [("results", .array (search text limit))])) := by
  rw [Library.get, ofString_of_isHost hhost]
  simp only [bind, Except.bind, hpath, limitText, pure, Except.pure]

theorem get_other (hlib : lib.Sendable) (hhost : IsHost (hostOf address))
    (hpath : (Target.within address).path ≠ "/api/search") : ∃ r, lib.get address = .ok r ∧ r.Sent := by
  rw [Library.get, ofString_of_isHost hhost]
  simp only [bind, Except.bind]
  split
  · exact ⟨_, rfl, sent_ok (sendable_object (.string _))⟩
  · exact ⟨_, rfl, sent_ok (hlib.guide _ _)⟩
  · contradiction
  · exact ⟨_, rfl, sent_ok (sendable_object (hlib.examplesOf _))⟩
  · exact ⟨_, rfl, sent_ok (sendable_object (.string _))⟩
  · split
    · exact ⟨_, rfl, sent_ok (sendable_object (.string _))⟩
    · exact ⟨_, rfl, sent_refuse (by decide) _⟩

theorem answered_get (hlib : lib.Sendable) (address : String) : Answered (lib.get address) (Gettable address) := by
  by_cases hhost : IsHost (hostOf address)
  · by_cases hpath : (Target.within address).path = "/api/search"
    · rw [get_search hhost hpath]
      by_cases hlimit : ∃ n, Text.IntegerText (limitText (.within address)).toList n
      · obtain ⟨n, hn⟩ := hlimit
        refine .of_sent ⟨hhost, fun _ => ⟨n, hn⟩⟩ ?_
        rw [integerOf_eq_ok hn]
        exact ⟨_, rfl, sent_ok (sendable_object (sendable_search _ n))⟩
      · refine .of_failed (fun h => hlimit (h.limit hpath)) ?_
        obtain ⟨failure, hfailure⟩ := integerOf_eq_error hlimit
        rw [hfailure]
        exact ⟨failure, rfl⟩
    · exact .of_sent ⟨hhost, fun h => absurd h hpath⟩ (get_other hlib hhost hpath)
  · refine .of_failed (fun h => hhost h.host) ?_
    obtain ⟨failure, hfailure⟩ := ofString_of_not_isHost hhost
    rw [Library.get, hfailure]
    exact ⟨failure, rfl⟩

def Covered (length : Option String) (body bytes : Text.Bytes) : Prop :=
  ∃ n : Int, (length = none ∧ n = 0 ∨ ∃ text, length = some text ∧ Text.IntegerText text.toList n) ∧
    -1 ≤ n ∧ n < (2 ^ 63 : Int) ∧ bytes = if n < 0 then body else body.take n.toNat

/-- An object in which the code to check is a text, unless it is in a language without checks. -/
def Checkable (request : Value) : Prop :=
  ∃ members, request = .object members ∧
    ((members.lookup "language").getD (.string "python") = .string "python" →
      ∃ text, (members.lookup "code").getD (.string "") = .string text)

/-- Bytes that are characters, and these no JSON at all or a request that can be checked. -/
def Legible (bytes : Text.Bytes) : Prop :=
  ∃ cs, Json.charsOf bytes = .ok cs ∧
    (Json.ofChars cs = .error .malformed ∨ ∃ request, Json.ofChars cs = .ok request ∧ Checkable request)

structure Postable (address : String) (length : Option String) (body : Text.Bytes) : Prop where
  host : IsHost (hostOf address)
  body : (Target.within address).path = "/api/validate" → ∃ bytes, Covered length body bytes ∧ Legible bytes

theorem isText_iff {v : Value} : isText v text = true ↔ v = .string text := by
  rw [isText.eq_def]
  split
  · simp
  · rename_i hne
    simp only [Bool.false_eq_true, false_iff]
    rintro rfl
    exact hne _ rfl

theorem lengthOf_eq_ok_iff : lengthOf length = .ok n ↔
    length = none ∧ n = 0 ∨ ∃ text, length = some text ∧ Text.IntegerText text.toList n := by
  cases length with
  | none => simp [lengthOf, eq_comm]
  | some text =>
    have hiff : integerOf text = .ok n ↔ Text.IntegerText text.toList n := by
      refine ⟨fun h => ?_, integerOf_eq_ok⟩
      by_contra hnot
      by_cases hinteger : ∃ m, Text.IntegerText text.toList m
      · obtain ⟨m, hm⟩ := hinteger
        rw [integerOf_eq_ok hm] at h
        exact hnot (Except.ok.inj h ▸ hm)
      · obtain ⟨failure, hfailure⟩ := integerOf_eq_error hinteger
        simp [hfailure] at h
    simp [lengthOf, hiff]

theorem isCount_iff : isCount n = true ↔ -(2 ^ 63 : Int) ≤ n ∧ n < (2 ^ 63 : Int) := by
  have hbound : (2 ^ 63 : Int) = 0x8000000000000000 := rfl
  rw [hbound, isCount, Bool.and_eq_true, decide_eq_true_iff, decide_eq_true_iff]

theorem bodyOf_eq_ok_iff : bodyOf length body = .ok bytes ↔ Covered length body bytes := by
  constructor
  · intro h
    obtain ⟨n, hn, h⟩ := of_bind_eq_ok h
    refine ⟨n, lengthOf_eq_ok_iff.1 hn, ?_⟩
    by_cases hcount : isCount n = true
    · obtain ⟨-, hhigh⟩ := isCount_iff.1 hcount
      by_cases hlow : n < -1
      · simp [hcount, hlow, bind, Except.bind] at h
      · simp only [hcount, hlow, Bool.not_true, Bool.false_eq_true, if_false] at h
        exact ⟨Int.not_lt.1 hlow, hhigh, (Except.ok.inj h).symm⟩
    · simp [hcount, bind, Except.bind] at h
  · rintro ⟨n, hlength, hlow, hhigh, rfl⟩
    have hcount : isCount n = true := isCount_iff.2 ⟨by omega, hhigh⟩
    rw [bodyOf, lengthOf_eq_ok_iff.2 hlength]
    simp only [bind, Except.bind, hcount, Int.not_lt.2 hlow, Bool.not_true, Bool.false_eq_true, if_false]
    rfl

/-- The numbers of lines are far from too long. -/
theorem sendable_codeIssues {code : String} (h : code.length ≤ 2 ^ 63) : (Value.array (codeIssues code)).Sendable := by
  have hbound : 2 ^ 63 + 1 < 10 ^ Text.maxReadDigits := by decide +kernel
  have hissue : ∀ line message, line < 10 ^ Text.maxReadDigits → (issue line message).Sendable := by
    intro line message hline
    refine .object (by simp) (List.forall_mem_cons.2 ⟨.int ?_, List.forall_mem_singleton.2 (.string message)⟩)
    exact hline
  have hlines : (Text.lines code).length ≤ code.length + 1 := by
    rw [Text.length_lines, ← String.length_toList]
    exact Nat.succ_le_succ List.count_le_length
  refine .array fun v hv => ?_
  obtain ⟨found, hfound, hv⟩ := List.mem_flatten.1 hv
  obtain ⟨i, hi, rfl⟩ := List.mem_mapIdx.1 hfound
  have hline : i + 1 < 10 ^ Text.maxReadDigits := by omega
  rw [lineIssues, List.mem_append] at hv
  rcases hv with hv | hv
  all_goals
    split at hv
    · rw [List.mem_singleton.1 hv]
      exact hissue _ _ hline
    · exact absurd hv List.not_mem_nil

theorem check_of_checkable {members : List (String × Value)} (h : Checkable (.object members))
    (hwithin : ∀ member ∈ members, Json.TextWithin (2 ^ 63) member.2) :
    ∃ r, check (.object members) = .ok r ∧ r.Sent := by
  have hbody : ∀ {issues : List Value}, (Value.array issues).Sendable →
      (Value.object [("valid", .bool issues.isEmpty), ("issues", .array issues)]).Sendable := by
    intro issues hissues
    exact .object (by simp) (List.forall_mem_cons.2 ⟨.bool _, List.forall_mem_singleton.2 hissues⟩)
  obtain ⟨members', heq, hcode⟩ := h
  obtain rfl := Value.object.inj heq
  rw [check]
  by_cases hlanguage : (members.lookup "language").getD (.string "python") = .string "python"
  · obtain ⟨text, htext⟩ := hcode hlanguage
    have hempty : Json.TextWithin (2 ^ 63) (.string "") := by
      intro other heq
      obtain rfl := Value.string.inj heq
      exact Nat.zero_le _
    have hlength : text.length ≤ 2 ^ 63 := forall_lookup hwithin "code" hempty text htext
    simp only [isText_iff.2 hlanguage, htext, if_true]
    exact ⟨_, rfl, sent_ok (hbody (sendable_codeIssues hlength))⟩
  · have hother : isText ((members.lookup "language").getD (.string "python")) "python" = false :=
      Bool.eq_false_iff.2 fun htrue => hlanguage (isText_iff.1 htrue)
    simp only [hother, Bool.false_eq_true, if_false]
    exact ⟨_, rfl, sent_ok (hbody (.array fun v hv => absurd hv List.not_mem_nil))⟩

theorem check_of_not_checkable {request : Value} (h : ¬Checkable request) : ∃ failure, check request = .error failure := by
  rw [check.eq_def]
  split
  · rename_i members
    have hpython : (members.lookup "language").getD (.string "python") = .string "python" := by
      by_contra hother
      exact h ⟨members, rfl, fun heq => absurd heq hother⟩
    have hcode : ∀ text, (members.lookup "code").getD (.string "") ≠ .string text := by
      intro text htext
      exact h ⟨members, rfl, fun _ => ⟨text, htext⟩⟩
    simp only [isText_iff.2 hpython, if_true]
    exact ⟨_, rfl⟩
  · exact ⟨_, rfl⟩

theorem checkBytes_of_legible (h : Legible bytes) (hlength : bytes.length ≤ 2 ^ 63) :
    ∃ r, checkBytes bytes = .ok r ∧ r.Sent := by
  obtain ⟨cs, hchars, hmalformed | ⟨request, hrequest, hcheckable⟩⟩ := h
  · simp only [checkBytes, hchars, hmalformed]
    exact ⟨_, rfl, sent_refuse (by decide) _⟩
  · simp only [checkBytes, hchars, hrequest]
    obtain ⟨members, rfl, -⟩ := id hcheckable
    have hle : cs.length ≤ 2 ^ 63 := Nat.le_trans (Json.length_charsOf hchars) hlength
    exact check_of_checkable hcheckable (Json.textWithin_of_ofChars hrequest hle)

theorem checkBytes_of_not_legible (h : ¬Legible bytes) : ∃ failure, checkBytes bytes = .error failure := by
  rw [checkBytes]
  split
  · exact ⟨_, rfl⟩
  · rename_i cs hchars
    split
    · rename_i request hrequest
      exact check_of_not_checkable fun hcheckable => h ⟨cs, hchars, .inr ⟨request, hrequest, hcheckable⟩⟩
    · exact ⟨_, rfl⟩
    · rename_i hmalformed
      exact absurd ⟨cs, hchars, .inl hmalformed⟩ h

theorem Covered.unique {bytes' : Text.Bytes} (h : Covered length body bytes) (h' : Covered length body bytes') :
    bytes = bytes' := by
  have heq := (bodyOf_eq_ok_iff.2 h).symm.trans (bodyOf_eq_ok_iff.2 h')
  exact Except.ok.inj heq

theorem Covered.length_le (h : Covered length body bytes) : bytes.length ≤ body.length := by
  obtain ⟨n, -, -, -, rfl⟩ := h
  split
  · exact Nat.le_refl _
  · exact List.length_take_le' _ _

theorem answered_post (address : String) (length : Option String) (hbody : body.length ≤ 2 ^ 63) :
    Answered (post address length body) (Postable address length body) := by
  by_cases hhost : IsHost (hostOf address)
  · rw [post, ofString_of_isHost hhost]
    by_cases hpath : (Target.within address).path = "/api/validate"
    · simp only [bind, Except.bind, hpath, beq_self_eq_true, if_true]
      cases hbytes : bodyOf length body with
      | error failure =>
        refine .of_failed (fun h => ?_) ⟨failure, rfl⟩
        obtain ⟨bytes, hcovered, -⟩ := h.body hpath
        rw [bodyOf_eq_ok_iff.2 hcovered] at hbytes
        simp at hbytes
      | ok bytes =>
        have hcovered := bodyOf_eq_ok_iff.1 hbytes
        by_cases hlegible : Legible bytes
        · refine .of_sent ⟨hhost, fun _ => ⟨bytes, hcovered, hlegible⟩⟩ ?_
          exact checkBytes_of_legible hlegible (Nat.le_trans hcovered.length_le hbody)
        · refine .of_failed (fun h => hlegible ?_) (checkBytes_of_not_legible hlegible)
          obtain ⟨bytes', hcovered', hlegible'⟩ := h.body hpath
          rwa [hcovered.unique hcovered']
    · refine .of_sent ⟨hhost, fun h => absurd h hpath⟩ ?_
      simp only [bind, Except.bind, beq_eq_false_iff_ne.2 hpath, Bool.false_eq_true, if_false]
      exact ⟨_, rfl, sent_refuse (by decide) _⟩
  · refine .of_failed (fun h => hhost h.host) ?_
    obtain ⟨failure, hfailure⟩ := ofString_of_not_isHost hhost
    rw [post, hfailure]
    exact ⟨failure, rfl⟩

/-- A server answers a request to read exactly if the host in the address can be read and, for a search, the limit is an
integer. It answers a request to check code exactly if the host can be read and, where code is checked at all, the length
is an integer that can count or -1, the bytes that it covers are characters, and these are no JSON at all or an object
whose code is a text, unless it is in another language. Else it fails. A target that starts with a slash has no host. -/
theorem answered_iff {lib : Library} (hlib : lib.Sendable) (address : String) (length : Option String) {body : Text.Bytes}
    (hbody : body.length ≤ 2 ^ 63) :
    Answered (lib.get address) (Gettable address) ∧ Answered (post address length body) (Postable address length body) ∧
    (address.toList.head? = some '/' → (∀ c ∈ address.toList, c ∉ ['\t', '\r', '\n']) →
      IsHost (hostOf (oneSlash address))) := by
  refine ⟨answered_get hlib address, answered_post address length hbody, fun hslash hblank => ?_⟩
  rw [hostOf_slash hslash hblank]
  exact isHost_nil

/-- The length of a request leaves out a byte that is no character. -/
theorem answered_iff_half : (Library.mk [] [("a_to_b", .nan)] [("", .array [.int (-3)])]).Sendable ∧
    ([0x7B, 0x7D, 0xFF] : Text.Bytes).length ≤ 2 ^ 63 ∧
    Answered ((Library.mk [] [("a_to_b", .nan)] [("", .array [.int (-3)])]).get "//[::1]/api/validate")
      (Gettable "//[::1]/api/validate") ∧
    Answered (post "//[::1]/api/validate" (some " +0_2") [0x7B, 0x7D, 0xFF])
      (Postable "//[::1]/api/validate" (some " +0_2") [0x7B, 0x7D, 0xFF]) := by
  have hint : Json.Readable (-3) := by decide +kernel
  have hlib : (Library.mk [] [("a_to_b", .nan)] [("", .array [.int (-3)])]).Sendable :=
    ⟨List.forall_mem_singleton.2 .nan, List.forall_mem_singleton.2 (.array (List.forall_mem_singleton.2 (.int hint)))⟩
  have hbody : ([0x7B, 0x7D, 0xFF] : Text.Bytes).length ≤ 2 ^ 63 := by decide
  have h := answered_iff hlib "//[::1]/api/validate" (some " +0_2") hbody
  exact ⟨hlib, hbody, h.1, h.2.1⟩

/-- A search whose limit is a word gets no answer. -/
theorem search_unanswered : ({} : Library).get "/api/search?q=python&limit=abc" = .error (.notInteger "abc") := by
  rfl

end CodeMigration.Docs
