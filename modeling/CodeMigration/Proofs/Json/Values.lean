import CodeMigration.Proofs.Json.Numbers
import CodeMigration.Proofs.Json.Strings

/-! # Values of JSON are read back

A value is read as it was written, on one line or on several, if its integers are not too long to be read and no object
has a key twice. -/

namespace CodeMigration.Json

/-- Values that are read back. -/
inductive Value.Sendable : Value → Prop
  | null : Value.Sendable .null
  | bool (b : Bool) : Value.Sendable (.bool b)
  | int {n : Int} (h : Readable n) : Value.Sendable (.int n)
  | float (negative : Bool) {x : Decimal.Binary64} (h : Plain x) : Value.Sendable (.float negative x)
  | nan : Value.Sendable .nan
  | string (s : String) : Value.Sendable (.string s)
  | array {items : List Value} (h : ∀ v ∈ items, Value.Sendable v) : Value.Sendable (.array items)
  | object {members : List (String × Value)} (hkeys : (members.map Prod.fst).Nodup)
      (h : ∀ member ∈ members, Value.Sendable member.2) : Value.Sendable (.object members)

def Blanks (cs : List Char) : Prop := ∀ c ∈ cs, isBlank c = true

variable {cs rest text rest' : List Char} {c : Char} {v : Value} {fuel : Nat} {key : String}
  {members : List (String × Value)} {last cs' : List Char} {before : List (String × Value)} {d : Char}
  {items : List Value} {layout : Layout} {depth : Nat}

theorem skipBlanks_append (h : Blanks cs) : skipBlanks (cs ++ rest) = skipBlanks rest := by
  rw [skipBlanks, List.dropWhile_append_of_pos h]
  rfl

theorem skipBlanks_cons (h : isBlank c = false) (rest : List Char) : skipBlanks (c :: rest) = c :: rest := by
  simp [skipBlanks, h]

theorem isBlank_cases (h : isBlank c = true) : c = ' ' ∨ c = '\t' ∨ c = '\n' ∨ c = '\r' := by
  simpa [isBlank, or_assoc] using h

theorem Ends.append_of_blanks (h : Blanks cs) (hrest : Ends rest) : Ends (cs ++ rest) := by
  cases cs with
  | nil => exact hrest
  | cons c cs =>
    rintro _ ⟨⟩
    rcases isBlank_cases (h c List.mem_cons_self) with rfl | rfl | rfl | rfl <;> decide

theorem blanks_newline (layout : Layout) (depth : Nat) : Blanks (newline layout depth).toList := by
  cases layout with
  | none => exact fun c hc => absurd hc (by simp [newline])
  | some width =>
    intro c hc
    simp only [newline, String.toList_append, String.toList_ofList, List.mem_append, List.mem_replicate] at hc
    rcases hc with hc | ⟨-, rfl⟩
    · simp at hc
      simp [hc, isBlank]
    · rfl

theorem exists_toList_comma (layout : Layout) (depth : Nat) :
    ∃ blanks, Blanks blanks ∧ (comma layout depth).toList = ',' :: blanks := by
  cases layout with
  | none => exact ⟨[' '], by simp [Blanks, isBlank], by simp [comma]⟩
  | some width => exact ⟨_, blanks_newline (some width) depth, by rw [comma, String.toList_append]; rfl⟩

/-- A text that starts with no blank and with no closing bracket, and is read as a value wherever a number may end. -/
structure ReadsBack (v : Value) (text : List Char) : Prop where
  starts : ∃ c cs, text = c :: cs ∧ isBlank c = false ∧ c ≠ ']'
  reads : ∀ fuel rest, text.length < fuel → Ends rest → readValue fuel (text ++ rest) = .ok (v, rest)

theorem ReadsBack.skipBlanks_append (h : ReadsBack v text) (rest : List Char) :
    skipBlanks (text ++ rest) = text ++ rest := by
  obtain ⟨c, cs, rfl, hc, -⟩ := h.starts
  exact skipBlanks_cons hc _

theorem ends_cons (h : isDigit c = false ∧ c ≠ '.' ∧ c ≠ 'e' ∧ c ≠ 'E') : Ends (c :: rest) := by
  rintro _ ⟨⟩
  exact h

theorem exists_intercalate_eq_append {α : Type} (sep t : List α) (ts : List (List α)) :
    ∃ more, sep.intercalate (t :: ts) = t ++ more := by
  cases ts with
  | nil => exact ⟨[], by rw [List.intercalate_singleton, List.append_nil]⟩
  | cons t' ts => exact ⟨_, by rw [List.intercalate_cons_cons, List.append_assoc]⟩

theorem setMember_of_notMem (v : Value) (h : key ∉ before.map Prod.fst) :
    setMember key v before = before ++ [(key, v)] := by
  induction before with
  | nil => rfl
  | cons member before ih =>
    obtain ⟨hne, hbefore⟩ := not_or.1 (mt List.mem_cons.2 h)
    rw [setMember, if_neg (mt beq_iff_eq.1 (Ne.symm hne)), ih hbefore, List.cons_append]

def memberText (text : Value → List Char) (member : String × Value) : List Char :=
  (writeString member.1).toList ++ ':' :: ' ' :: text member.2

theorem foldl_setMember (h : ((before ++ members).map Prod.fst).Nodup) :
    members.foldl (fun before member => setMember member.1 member.2 before) before = before ++ members := by
  induction members generalizing before with
  | nil => exact (List.append_nil before).symm
  | cons member members ih =>
    have hnew : member.1 ∉ before.map Prod.fst := by
      rw [List.map_append, List.nodup_append] at h
      exact fun hmem => h.2.2 _ hmem _ List.mem_cons_self rfl
    rw [List.append_cons] at h ⊢
    rw [List.foldl_cons, setMember_of_notMem _ hnew, ih h]

theorem ReadsBack.addItem (h : ReadsBack v text) (hfuel : text.length < fuel) (hrest : Ends rest) (before : List Value) :
    addItem (readValue fuel) before (text ++ rest) = .ok (before ++ [v], rest) := by
  rw [Json.addItem, h.reads fuel rest hfuel hrest]
  rfl

theorem ReadsBack.addMember (h : ReadsBack v text) (hfuel : text.length < fuel) (hrest : Ends rest)
    (before : List (String × Value)) :
    addMember (readValue fuel) before ((writeString key).toList ++ ':' :: ' ' :: text ++ rest) =
      .ok (setMember key v before, rest) := by
  have hstring := readString_writeString key (':' :: ' ' :: (text ++ rest))
  have hblank : skipBlanks (' ' :: (text ++ rest)) = text ++ rest := h.skipBlanks_append rest
  rw [toList_writeString]
  simp only [List.cons_append, List.append_assoc, List.nil_append, Json.addMember, hstring, bind, Except.bind,
    skipBlanks_cons (show isBlank ':' = false from rfl), hblank, h.reads fuel rest hfuel hrest]
  rfl

theorem intercalate_cons_eq {blanks t t' : List Char} (ts : List (List Char)) :
    (',' :: blanks).intercalate (t :: t' :: ts) = t ++ ',' :: (blanks ++ (',' :: blanks).intercalate (t' :: ts)) := by
  rw [List.intercalate_cons_cons, List.append_assoc, List.cons_append]

section
variable {α : Type} {add : List α → Reading (List α)} {put : List α → α → List α} {text : α → List Char}
  {first blanks close : List Char} (hfirst : Blanks first) (hblanks : Blanks blanks) (hclose : Blanks close)
  {shut : Char} (hshut : shut = ']' ∨ shut = '}') {parts : List α} (hne : parts ≠ []) {n : Nat}
  (hn : ((',' :: blanks).intercalate (parts.map text)).length < n)
  (hstart : ∀ a ∈ parts, ∃ c cs, text a = c :: cs ∧ isBlank c = false ∧ c ≠ shut)
  (hadd : ∀ a ∈ parts, (text a).length < n → ∀ before rest, Ends rest →
    add before (text a ++ rest) = .ok (put before a, rest))

include hblanks hclose hshut hne hn hstart hadd

theorem readParts_intercalate {fuel : Nat} (hfuel : ((',' :: blanks).intercalate (parts.map text)).length < fuel)
    (before : List α) (rest : List Char) :
    readParts add shut fuel before ((',' :: blanks).intercalate (parts.map text) ++ (close ++ shut :: rest)) =
      .ok (parts.foldl put before, rest) := by
  induction parts generalizing before fuel with
  | nil => exact absurd rfl hne
  | cons a parts ih =>
    obtain ⟨fuel, rfl⟩ : ∃ k, fuel = k + 1 := ⟨fuel - 1, by omega⟩
    obtain ⟨ha, hparts⟩ := List.forall_mem_cons.1 hadd
    cases parts with
    | nil =>
      rw [List.map_singleton, List.intercalate_singleton] at hn ⊢
      have hends : Ends (close ++ shut :: rest) := by
        refine .append_of_blanks hclose (ends_cons ?_)
        rcases hshut with rfl | rfl <;> decide
      have hskip : skipBlanks (close ++ shut :: rest) = shut :: rest := by
        rw [skipBlanks_append hclose]
        rcases hshut with rfl | rfl <;> exact skipBlanks_cons rfl _
      simp only [readParts, ha hn before _ hends, bind, Except.bind, hskip, beq_self_eq_true, if_true]
      rfl
    | cons b parts =>
      obtain ⟨c, cs, htext, hc, -⟩ := hstart b (by simp)
      obtain ⟨more, hmore⟩ := exists_intercalate_eq_append (',' :: blanks) (text b) (parts.map text)
      rw [List.map_cons, List.map_cons, intercalate_cons_eq] at hn hfuel ⊢
      simp only [List.length_append, List.length_cons] at hn hfuel
      have hskip (cs : List Char) : skipBlanks (blanks ++ ((',' :: blanks).intercalate (text b :: parts.map text) ++ cs)) =
          (',' :: blanks).intercalate (text b :: parts.map text) ++ cs := by
        rw [skipBlanks_append hblanks, hmore, htext]
        exact skipBlanks_cons hc _
      have hends (cs : List Char) : Ends (',' :: cs) := ends_cons (by decide)
      have hcomma : (',' == shut) = false := by
        rcases hshut with rfl | rfl <;> rfl
      rw [List.append_assoc, List.cons_append, List.append_assoc]
      simp only [readParts, ha (by omega) before _ (hends _), bind, Except.bind,
        skipBlanks_cons (show isBlank ',' = false from rfl), hcomma, hskip, beq_self_eq_true, if_true]
      exact ih (List.cons_ne_nil b parts) (by rw [List.map_cons]; omega) (fun a ha => hstart a (List.mem_cons_of_mem _ ha))
        hparts (by rw [List.map_cons]; omega) (put before a)

include hfirst

theorem readBracketed_intercalate (rest : List Char) :
    readBracketed add shut n (first ++ ((',' :: blanks).intercalate (parts.map text) ++ (close ++ shut :: rest))) =
      .ok (parts.foldl put [], rest) := by
  have hread := readParts_intercalate hblanks hclose hshut hne hn hstart hadd hn [] rest
  obtain ⟨a, parts, rfl⟩ := List.exists_cons_of_ne_nil hne
  obtain ⟨c, cs, htext, hc, hc'⟩ := hstart a List.mem_cons_self
  obtain ⟨more, hmore⟩ := exists_intercalate_eq_append (',' :: blanks) (text a) (parts.map text)
  rw [List.map_cons, hmore, htext] at hread ⊢
  rw [readBracketed, skipBlanks_append hfirst]
  simp only [List.cons_append] at hread ⊢
  rw [skipBlanks_cons hc]
  simp only [beq_false_of_ne hc', Bool.false_eq_true, if_false]
  exact hread

end

attribute [local simp] readValue

theorem readValue_digit (hd : isDigit d = true) (fuel : Nat) (rest : List Char) :
    readValue (fuel + 1) (d :: rest) = readNumber false (d :: rest) := by
  have hne : ∀ c, isDigit c = false → d ≠ c := by
    rintro c hc rfl
    rw [hd] at hc
    cases hc
  rw [readValue]
  all_goals
    intros
    refine hne _ ?_ (List.cons.inj ‹_›).1
    rfl

theorem readValue_minus (hd : isDigit d = true) (fuel : Nat) (rest : List Char) :
    readValue (fuel + 1) ('-' :: d :: rest) = readNumber true (d :: rest) := by
  have hne : d ≠ 'I' := by
    rintro rfl
    cases hd
  rw [readValue]
  rintro rest' heq
  exact hne (List.cons.inj heq).1

theorem ReadsBack.of_word (hstarts : ∃ c cs, text = c :: cs ∧ isBlank c = false ∧ c ≠ ']')
    (h : ∀ fuel rest, readValue (fuel + 1) (text ++ rest) = .ok (v, rest)) : ReadsBack v text := by
  refine ⟨hstarts, fun fuel rest hfuel _ => ?_⟩
  obtain ⟨fuel, rfl⟩ : ∃ n, fuel = n + 1 := ⟨fuel - 1, by omega⟩
  exact h fuel rest

theorem exists_digit_of_readNumber {negative : Bool} {r : Value × List Char} (h : readNumber negative cs = .ok r) :
    ∃ d more, cs = d :: more ∧ isDigit d = true := by
  cases cs with
  | nil => cases h
  | cons c more =>
    refine ⟨c, more, rfl, ?_⟩
    by_contra hc
    have hwhole : wholeOf (c :: more) = ([], c :: more) := by
      rw [wholeOf, digitsOf, List.takeWhile_cons_of_neg hc, List.dropWhile_cons_of_neg hc]
      rintro rest heq
      rw [(List.cons.inj heq).1] at hc
      exact hc rfl
    rw [readNumber, hwhole] at h
    cases h

/-- What is read as a number behind a sign is read as a value with the sign. -/
theorem readsBack_number (negative : Bool)
    (h : ∀ rest, Ends rest → readNumber negative (text ++ rest) = .ok (v, rest)) :
    ReadsBack v ((if negative then ['-'] else []) ++ text) := by
  obtain ⟨d, more, hcons, hd⟩ := exists_digit_of_readNumber (h [] (fun c hc => absurd hc (by simp)))
  rw [List.append_nil] at hcons
  subst hcons
  have hblank : isBlank d = false ∧ d ≠ ']' := by
    constructor
    · rw [Bool.eq_false_iff]
      intro hd'
      rcases isBlank_cases hd' with rfl | rfl | rfl | rfl <;> cases hd
    · rintro rfl
      cases hd
  cases negative with
  | true =>
    refine ⟨⟨'-', d :: more, rfl, rfl, by decide⟩, fun fuel rest hfuel hrest => ?_⟩
    obtain ⟨fuel, rfl⟩ : ∃ n, fuel = n + 1 := ⟨fuel - 1, by omega⟩
    exact (readValue_minus hd fuel (more ++ rest)).trans (h rest hrest)
  | false =>
    refine ⟨⟨d, more, rfl, hblank⟩, fun fuel rest hfuel hrest => ?_⟩
    obtain ⟨fuel, rfl⟩ : ∃ n, fuel = n + 1 := ⟨fuel - 1, by omega⟩
    exact (readValue_digit hd fuel (more ++ rest)).trans (h rest hrest)

theorem readsBack_int {n : Int} (h : Readable n) : ReadsBack (.int n) (toString n).toList := by
  have hread := readsBack_number (decide (n < 0)) fun rest => readNumber_toDigits (decide (n < 0)) h
  have hvalue : (if decide (n < 0) = true then -(n.natAbs : Int) else n.natAbs) = n := by
    simp only [decide_eq_true_eq]
    omega
  have htext : (toString n).toList = (if decide (n < 0) = true then ['-'] else []) ++ Nat.toDigits 10 n.natAbs := by
    rw [Int.toString_eq_repr, Int.repr_eq_if]
    by_cases hneg : n < 0
    · have habs : (-n).toNat = n.natAbs := by omega
      simp [not_le.2 hneg, hneg, habs, Nat.toList_repr]
    · have habs : n.toNat = n.natAbs := by omega
      simp [not_lt.1 hneg, hneg, habs, Nat.toList_repr]
  rw [hvalue] at hread
  rw [htext]
  exact hread

theorem readsBack_infinite (negative : Bool) :
    ReadsBack (.float negative .infinite) (writeFloat negative .infinite).toList := by
  cases negative with
  | false => exact .of_word ⟨'I', _, rfl, rfl, by decide⟩ fun _ _ => by simp [writeFloat]
  | true => exact .of_word ⟨'-', _, rfl, rfl, by decide⟩ fun _ _ => by simp [writeFloat]

theorem readsBack_float (negative : Bool) {x : Decimal.Binary64} (h : Plain x) :
    ReadsBack (.float negative x) (writeFloat negative x).toList := by
  cases x with
  | infinite => exact readsBack_infinite negative
  | finite m e =>
    have htext : (writeFloat negative (.finite m e)).toList =
        (if negative then ['-'] else []) ++ (Decimal.Binary64.render true (.finite m e)).toList := by
      rw [writeFloat, floatText, String.toList_append]
      · cases negative <;> rfl
      · exact Decimal.Binary64.noConfusion
    rw [htext]
    apply readsBack_number
    intro rest hrest
    rcases h with hfloat | ⟨rfl, rfl⟩
    · exact readNumber_render hfloat negative hrest
    · exact readNumber_zero negative hrest

theorem writeItems_eq_map (layout : Layout) (depth : Nat) (items : List Value) :
    writeItems layout depth items = items.map (·.writeAt layout depth) := by
  induction items with
  | nil => rfl
  | cons v items ih => rw [writeItems, ih, List.map_cons]

theorem writeMembers_eq_map (layout : Layout) (depth : Nat) (members : List (String × Value)) :
    (writeMembers layout depth members).map String.toList =
      members.map (memberText fun v => (v.writeAt layout depth).toList) := by
  induction members with
  | nil => rfl
  | cons member members ih =>
    rw [writeMembers, List.map_cons, ih, List.map_cons, memberText, String.toList_append, String.toList_append]
    simp

section
variable {first blanks close : List Char} (hfirst : Blanks first) (hblanks : Blanks blanks) (hclose : Blanks close)
  {text : Value → List Char}

include hfirst hblanks hclose

theorem readsBack_items {items : List Value} (h : ∀ v ∈ items, ReadsBack v (text v)) (hne : items ≠ []) :
    ReadsBack (.array items) ('[' :: (first ++ ((',' :: blanks).intercalate (items.map text) ++ (close ++ [']'])))) := by
  refine ⟨⟨'[', _, rfl, rfl, by decide⟩, fun fuel rest hfuel hrest => ?_⟩
  simp only [List.length_cons, List.length_append] at hfuel
  obtain ⟨fuel, rfl⟩ : ∃ n, fuel = n + 1 := ⟨fuel - 1, by omega⟩
  have hread := readBracketed_intercalate hfirst hblanks hclose (.inl rfl) hne (by omega : _ < fuel)
    (fun v hv => (h v hv).starts) (fun v hv hlength before rest hrest => (h v hv).addItem hlength hrest before) rest
  have hitems : items.foldl (fun before v => before ++ [v]) [] = items := by
    simp [← List.flatMap_def]
  simp only [List.cons_append, List.append_assoc, List.nil_append, readValue, hread, hitems]
  rfl

theorem readsBack_members {members : List (String × Value)} (hkeys : (members.map Prod.fst).Nodup)
    (h : ∀ member ∈ members, ReadsBack member.2 (text member.2)) (hne : members ≠ []) :
    ReadsBack (.object members)
      ('{' :: (first ++ ((',' :: blanks).intercalate (members.map (memberText text)) ++ (close ++ ['}'])))) := by
  refine ⟨⟨'{', _, rfl, rfl, by decide⟩, fun fuel rest hfuel hrest => ?_⟩
  simp only [List.length_cons, List.length_append] at hfuel
  obtain ⟨fuel, rfl⟩ : ∃ n, fuel = n + 1 := ⟨fuel - 1, by omega⟩
  have hstart (member : String × Value) : ∃ c cs, memberText text member = c :: cs ∧ isBlank c = false ∧ c ≠ '}' := by
    rw [memberText, toList_writeString]
    exact ⟨'"', _, rfl, rfl, by decide⟩
  have hadd : ∀ member ∈ members, (memberText text member).length < fuel → ∀ before rest, Ends rest →
      addMember (readValue fuel) before (memberText text member ++ rest) =
        .ok (setMember member.1 member.2 before, rest) := by
    intro member hmember hlength before rest hrest
    rw [memberText, List.length_append, List.length_cons, List.length_cons] at hlength
    exact (h member hmember).addMember (by omega) hrest before
  have hread := readBracketed_intercalate hfirst hblanks hclose (.inr rfl) hne (by omega : _ < fuel)
    (fun member _ => hstart member) hadd rest
  simp only [List.cons_append, List.append_assoc, List.nil_append, readValue, hread]
  rw [foldl_setMember (List.nil_append members ▸ hkeys), List.nil_append]
  rfl

end

theorem readsBack_array (h : ∀ v ∈ items, ReadsBack v (v.writeAt layout (depth + 1)).toList) :
    ReadsBack (.array items) ((Value.array items).writeAt layout depth).toList := by
  cases items with
  | nil =>
    have htext : ((Value.array []).writeAt layout depth).toList = ['[', ']'] := by simp [Value.writeAt]
    rw [htext]
    exact .of_word ⟨'[', [']'], rfl, rfl, by decide⟩ fun _ _ => by simp [readBracketed, skipBlanks, isBlank]
  | cons v items =>
    obtain ⟨blanks, hblanks, hcomma⟩ := exists_toList_comma layout (depth + 1)
    have hread := readsBack_items (blanks_newline layout (depth + 1)) hblanks (blanks_newline layout depth) h
      (List.cons_ne_nil v items)
    rw [Value.writeAt]
    · simpa [writeItems_eq_map, String.toList_intercalate, hcomma, Function.comp_def] using hread
    · exact fun heq => List.cons_ne_nil v items heq

theorem readsBack_object (hkeys : (members.map Prod.fst).Nodup)
    (h : ∀ member ∈ members, ReadsBack member.2 (member.2.writeAt layout (depth + 1)).toList) :
    ReadsBack (.object members) ((Value.object members).writeAt layout depth).toList := by
  cases members with
  | nil =>
    have htext : ((Value.object []).writeAt layout depth).toList = ['{', '}'] := by simp [Value.writeAt]
    rw [htext]
    exact .of_word ⟨'{', ['}'], rfl, rfl, by decide⟩ fun _ _ => by simp [readBracketed, skipBlanks, isBlank]
  | cons member members =>
    obtain ⟨blanks, hblanks, hcomma⟩ := exists_toList_comma layout (depth + 1)
    have hread := @readsBack_members _ _ _ (blanks_newline layout (depth + 1)) hblanks (blanks_newline layout depth)
      (fun v => (v.writeAt layout (depth + 1)).toList) _ hkeys h (List.cons_ne_nil member members)
    rw [← writeMembers_eq_map] at hread
    rw [Value.writeAt]
    · simpa [String.toList_intercalate, hcomma] using hread
    · exact fun heq => List.cons_ne_nil member members heq

theorem readsBack_writeAt (h : v.Sendable) (layout : Layout) (depth : Nat) :
    ReadsBack v (v.writeAt layout depth).toList := by
  induction h generalizing depth with
  | null => exact .of_word ⟨'n', _, by rw [Value.writeAt]; rfl, rfl, by decide⟩ fun _ _ => by simp [Value.writeAt]
  | bool b =>
    rw [Value.writeAt]
    cases b with
    | true => exact .of_word ⟨'t', _, rfl, rfl, by decide⟩ fun _ _ => by simp
    | false => exact .of_word ⟨'f', _, rfl, rfl, by decide⟩ fun _ _ => by simp
  | int h => exact readsBack_int h
  | float negative h => exact readsBack_float negative h
  | nan => exact .of_word ⟨'N', _, by rw [Value.writeAt]; rfl, rfl, by decide⟩ fun _ _ => by simp [Value.writeAt]
  | string s =>
    have hread := fun rest => readString_writeString s rest
    rw [Value.writeAt, toList_writeString]
    refine .of_word ⟨'"', _, rfl, rfl, by decide⟩ fun fuel rest => ?_
    rw [List.cons_append, List.append_assoc, List.singleton_append, readValue, readString_writeString]
    rfl
  | array _ ih => exact readsBack_array fun v hv => ih v hv (depth + 1)
  | object hkeys _ ih => exact readsBack_object hkeys fun member hmember => ih member hmember (depth + 1)

/-- A value that can be sent is the value of its text. -/
theorem ofChars_write (h : v.Sendable) : ofChars v.write.toList = .ok v := by
  have hread := readsBack_writeAt h none 0
  have hskip := hread.skipBlanks_append []
  have hvalue := hread.reads (v.write.toList.length + 1) [] (Nat.lt_succ_self _) fun c hc => absurd hc (by simp)
  rw [List.append_nil] at hskip hvalue
  rw [ofChars]
  rw [Value.write] at hvalue ⊢
  rw [hskip, hvalue]
  rfl

end CodeMigration.Json
