import CodeMigration.Agent.Tester
import Mathlib.Data.List.DropRight
import Mathlib.Tactic.IntervalCases

/-! # Texts between three quotes

A test holds the text of a module between three quotes. Backslashes in it are doubled, and wherever three quotes stand
together a backslash is put before each of them. So the lexer finds the closing quotes and reads the text back, but for
quotes at the end of the text that do not come in threes. One or two that are left over there are taken for closing
ones. -/

namespace CodeMigration.Tester

open Source Text

def escapes (cs : List Char) : List Char :=
  replaceFrom ['"', '"', '"'] ['\\', '"', '\\', '"', '\\', '"'] 0 (replaceFrom ['\\'] ['\\', '\\'] 0 cs)

theorem toList_escaped (content : String) : (escaped content).toList = escapes content.toList := by
  simp [escaped, replace, escapes]

/-- The number of quotes at the end of a text, less those that come in threes. -/
def loose (cs : List Char) : Nat := (cs.rtakeWhile (· == '"')).length % 3

/-- Texts without such quotes, in pieces from the left. -/
inductive InThrees : List Char → Prop where
  | nil : InThrees []
  | quotes {cs : List Char} (rest : InThrees cs) : InThrees ('"' :: '"' :: '"' :: cs)
  | char {k : Nat} {c : Char} {cs : List Char} (few : k ≤ 2) (other : c ≠ '"') (rest : InThrees cs) :
      InThrees (List.replicate k '"' ++ c :: cs)

variable {cs : List Char} {k : Nat} {c : Char} {names : StringLiteral.Names}

theorem InThrees.append {ds : List Char} (h : InThrees cs) (h' : InThrees ds) : InThrees (cs ++ ds) := by
  induction h with
  | nil => exact h'
  | quotes rest ih => exact .quotes ih
  | char few other rest ih =>
    rw [List.append_assoc]
    exact .char few other ih

/-- Every text is one in which quotes come in threes, and the quotes that are left over. -/
theorem exists_inThrees (cs : List Char) : ∃ front, InThrees front ∧ cs = front ++ List.replicate (loose cs) '"' := by
  induction cs using List.reverseRecOn with
  | nil => exact ⟨[], .nil, rfl⟩
  | append_singleton cs c ih =>
    obtain ⟨front, hfront, hcs⟩ := ih
    have hloose : loose cs < 3 := Nat.mod_lt _ (by decide)
    by_cases hc : c = '"'
    · subst hc
      have hnext : loose (cs ++ ['"']) = (loose cs + 1) % 3 := by
        simp [loose]
      have hmore : cs ++ ['"'] = front ++ List.replicate (loose cs + 1) '"' := by
        rw [List.replicate_succ', ← List.append_assoc, ← hcs]
      by_cases hfull : loose cs = 2
      · rw [hnext, hmore, hfull]
        exact ⟨front ++ ['"', '"', '"'], hfront.append (.quotes .nil), by simp⟩
      · rw [hnext, hmore, Nat.mod_eq_of_lt (by omega)]
        exact ⟨front, hfront, rfl⟩
    · have hnone : loose (cs ++ [c]) = 0 := by simp [loose, hc]
      rw [hnone, hcs, List.append_assoc]
      exact ⟨_, hfront.append (.char (Nat.le_of_lt_succ hloose) hc .nil), by simp⟩

theorem escapes_quotes (cs : List Char) :
    escapes ('"' :: '"' :: '"' :: cs) = ['\\', '"', '\\', '"', '\\', '"'] ++ escapes cs := by
  simp [escapes, replaceFrom, List.isPrefixOf]

theorem escapes_few (few : k ≤ 2) : escapes (List.replicate k '"') = List.replicate k '"' := by
  interval_cases k <;> rfl

/-- A backslash is doubled. -/
def escapeChar (c : Char) : List Char := if c = '\\' then ['\\', '\\'] else [c]

theorem escapes_char (few : k ≤ 2) (other : c ≠ '"') (cs : List Char) :
    escapes (List.replicate k '"' ++ c :: cs) = List.replicate k '"' ++ (escapeChar c ++ escapes cs) := by
  by_cases hc : c = '\\'
  · subst hc
    interval_cases k <;> simp [escapes, replaceFrom, List.isPrefixOf, escapeChar]
  · interval_cases k <;>
      simp [escapes, replaceFrom, List.isPrefixOf, escapeChar, hc, Ne.symm hc, Ne.symm other]

theorem scan_char (few : k ≤ 2) (other : c ≠ '"') (count : Nat) (cs : List Char) :
    StringText.scan '"' true 0 count (List.replicate k '"' ++ (escapeChar c ++ cs)) =
      StringText.scan '"' true 0 (count + (k + (escapeChar c).length)) cs := by
  by_cases hc : c = '\\'
  · subst hc
    interval_cases k <;> simp [StringText.scan, escapeChar]
  · interval_cases k <;> simp [StringText.scan, escapeChar, hc, other]

theorem decodeText_char (few : k ≤ 2) (other : c ≠ '"') {fuel : Nat} {ns : List Nat}
    (hrest : ∀ pos, StringLiteral.decode names false fuel pos cs = .ok ns) (pos : Nat) :
    StringLiteral.decode names false (fuel + (k + 1)) pos (List.replicate k '"' ++ (escapeChar c ++ cs)) =
      .ok (List.replicate k 34 ++ c.toNat :: ns) := by
  by_cases hc : c = '\\'
  · subst hc
    interval_cases k <;>
      simp [StringLiteral.decode, StringLiteral.simpleEscape?, escapeChar, hrest, Except.map]
  · interval_cases k <;> simp [StringLiteral.decode, escapeChar, hc, hrest, Except.map]

section
variable {front : List Char} (h : InThrees front)
include h

theorem escapes_append {k : Nat} (few : k ≤ 2) :
    escapes (front ++ List.replicate k '"') = escapes front ++ List.replicate k '"' := by
  induction h with
  | nil => exact escapes_few few
  | quotes rest ih => simp only [List.cons_append, escapes_quotes, ih, List.append_assoc]
  | char few' other rest ih =>
    rw [List.append_assoc, List.cons_append, escapes_char few' other, escapes_char few' other, ih]
    simp only [List.append_assoc]

theorem scan_escapes (count : Nat) (cs : List Char) : StringText.scan '"' true 0 count (escapes front ++ cs) =
    StringText.scan '"' true 0 (count + (escapes front).length) cs := by
  induction h generalizing count with
  | nil => rfl
  | @quotes front rest ih =>
    have hquotes : StringText.scan '"' true 0 count (['\\', '"', '\\', '"', '\\', '"'] ++ (escapes front ++ cs)) =
        StringText.scan '"' true 0 (count + 6) (escapes front ++ cs) := by simp [StringText.scan]
    rw [escapes_quotes, List.append_assoc, hquotes, ih, List.length_append, Nat.add_assoc]
    rfl
  | char few other rest ih =>
    rw [escapes_char few other, List.append_assoc, List.append_assoc, scan_char few other, ih, List.length_append,
      List.length_append, List.length_replicate]
    simp only [Nat.add_assoc]

theorem decodeText_escapes {fuel : Nat} (pos : Nat) (hfuel : (escapes front).length < fuel) :
    StringLiteral.decode names false fuel pos (escapes front) = .ok (front.map Char.toNat) := by
  induction h generalizing fuel pos with
  | nil => cases fuel <;> rfl
  | @quotes front rest ih =>
    have hless : (escapes front).length + 6 < fuel := by simpa [escapes_quotes] using hfuel
    obtain ⟨fuel, rfl⟩ := Nat.exists_eq_add_of_le' (show 3 ≤ fuel by omega)
    have hrest (pos : Nat) : StringLiteral.decode names false fuel pos (escapes front) = .ok (front.map Char.toNat) :=
      ih pos (by omega)
    simp [escapes_quotes, StringLiteral.decode, StringLiteral.simpleEscape?, hrest, Except.map]
  | @char k c front few other rest ih =>
    have hless : k + ((escapeChar c).length + (escapes front).length) < fuel := by
      simpa [escapes_char few other] using hfuel
    have hone : 1 ≤ (escapeChar c).length := by
      rw [escapeChar]
      split <;> simp
    obtain ⟨fuel, rfl⟩ := Nat.exists_eq_add_of_le' (show k + 1 ≤ fuel by omega)
    rw [escapes_char few other, decodeText_char few other fun pos => ih pos (by omega)]
    simp

end

def quoted (content : String) : String := "\"\"\"" ++ escaped content ++ "\"\"\""

/-- A token is a literal that stands for a text. -/
def StandsFor (token : Token) (text : List Char) : Prop :=
  ∀ (go : Grammar.Go) (span : Span) (marked : Bool), Grammar.joinLiteral go span marked none token =
    pure (.text [.points (text.map Char.toNat)] false)

theorem StandsFor.unique {token : Token} {a b : List Char} (ha : StandsFor token a) (hb : StandsFor token b) : a = b := by
  have hpure := (ha (fun _ => Grammar.Parse.miss) .unknown false).symm.trans (hb _ _ _)
  have hhit := congrFun (congrFun (congrFun hpure ⟨fun _ => none, false, false, 0, none⟩) default) ⟨default, #[]⟩
  obtain ⟨hjoined, -, -⟩ := Grammar.Outcome.hit.inj hhit
  have hpoints : a.map Char.toNat = b.map Char.toNat := by simpa using hjoined
  exact List.map_injective_iff.2 (fun c d h => Char.toNat_inj.1 h) hpoints

theorem standsFor_of_toList {token : Token} {front : List Char} (h : InThrees front)
    (htext : token.text.toList = '"' :: '"' :: '"' :: (escapes front ++ ['"', '"', '"'])) : StandsFor token front := by
  intro go span marked
  have hparts : StringLiteral.split token.text.toList = ⟨false, false, false, escapes front, 3⟩ := by
    rw [htext]
    simp [StringLiteral.split, StringLiteral.isLetter, StringLiteral.quoteWidth]
  have hbody (names : StringLiteral.Names) :
      StringLiteral.value names false false (escapes front) = .ok (front.map Char.toNat) :=
    decodeText_escapes h 0 (Nat.lt_succ_self _)
  simp only [Grammar.joinLiteral, Grammar.literalValue, hparts, hbody]
  rfl

theorem rest_skip (k : Nat) (r : Reader) : (r.skip k).rest = r.rest.drop k := by
  induction k generalizing r with
  | zero => rfl
  | succ k ih =>
    rw [Reader.skip, ih, Reader.next]
    cases hrest : r.rest with
    | nil => simp [hrest]
    | cons c cs => dsimp only; split <;> rfl

theorem lexToken_literal {s : LexState} {front back : List Char} (h : InThrees front)
    (hs : s.reader.rest = '"' :: '"' :: '"' :: (escapes front ++ '"' :: '"' :: '"' :: back)) :
    ∃ s' token, lexToken s = .ok s' ∧ s'.made = token :: s.made ∧ token.kind = .string ∧ StandsFor token front ∧
      s'.reader.rest = back := by
  have hscan : StringText.scan '"' true 0 0 (escapes front ++ '"' :: '"' :: '"' :: back) =
      .ok ((escapes front).length + 3) := by
    rw [scan_escapes h]
    simp [StringText.scan]
  have hpieces : s.reader.rest = ('"' :: '"' :: '"' :: (escapes front ++ ['"', '"', '"'])) ++ back := by simp [hs]
  have hlength : ('"' :: '"' :: '"' :: (escapes front ++ ['"', '"', '"'])).length = 3 + ((escapes front).length + 3) := by
    simp; omega
  refine ⟨s.push .string (3 + ((escapes front).length + 3)), _, ?_, rfl, rfl, standsFor_of_toList h ?_, ?_⟩
  · simp [lexToken, hs, lexString, lexString.finish, hscan]
  · rw [String.toList_ofList, hpieces, List.take_left' hlength]
  · exact (rest_skip _ _).trans (by rw [hpieces, List.drop_left' hlength])

theorem mem_of_mem_replaceFrom {part new : List Char} {skip : Nat} (h : c ∈ replaceFrom part new skip cs) :
    c ∈ new ∨ c ∈ cs := by
  fun_induction replaceFrom part new skip cs with
  | case1 => cases h
  | case2 skip d rest ih => exact (ih h).imp_right (List.mem_cons_of_mem d)
  | case3 d rest hpart ih =>
    rcases List.mem_append.1 h with h | h
    · exact .inl h
    · exact (ih h).imp_right (List.mem_cons_of_mem d)
  | case4 d rest hpart ih =>
    rcases List.mem_cons.1 h with rfl | h
    · exact .inr List.mem_cons_self
    · exact (ih h).imp_right (List.mem_cons_of_mem d)

theorem return_not_mem_escapes (h : '\r' ∉ cs) : '\r' ∉ escapes cs := by
  intro hmem
  rcases mem_of_mem_replaceFrom hmem with hnew | hmem
  · revert hnew
    decide
  · rcases mem_of_mem_replaceFrom hmem with hnew | hmem
    · revert hnew
      decide
    · exact h hmem

theorem unifyNewlines_append_cons (h : '\r' ∉ cs) (hc : c ≠ '\n' ∧ c ≠ '\r') (rest : List Char) :
    unifyNewlines (cs ++ c :: rest) = cs ++ c :: unifyNewlines rest := by
  induction cs with
  | nil => simp [unifyNewlines, hc]
  | cons d cs ih =>
    obtain ⟨hd, hcs⟩ := not_or.1 (mt List.mem_cons.2 h)
    rw [List.cons_append, unifyNewlines, ih hcs]
    all_goals simp [Ne.symm hd]

theorem unlines_at {ls : List String} {i : Nat} {l : String} (hl : ls[i]? = some l) (hi : 0 < i)
    (hlast : i + 1 < ls.length) :
    unlines ls = unlines (ls.take i) ++ "\n" ++ (l ++ "\n" ++ unlines (ls.drop (i + 1))) := by
  obtain ⟨hlt, rfl⟩ := List.getElem?_eq_some_iff.1 hl
  have hback : ls.drop (i + 1) ≠ [] := by simpa using hlast
  have hfront : ls.take i ≠ [] := List.ne_nil_of_length_pos (by simp; omega)
  rw [unlines, unlines, unlines, ← String.intercalate_cons_of_ne_nil hback, ← List.drop_eq_getElem_cons hlt,
    ← String.intercalate_append_of_ne_nil hfront (by simp; omega), List.take_append_drop]

theorem exists_plainTest (c : Change) (content : String) : ∃ before between behind : String,
    plainTest c content = before ++ quoted content ++ between ++ quoted content ++ behind := by
  have hline : "    code = \"\"\"" ++ escaped content ++ "\"\"\"" = "    code = " ++ quoted content := by
    rw [quoted, ← String.append_assoc, ← String.append_assoc]
    rfl
  obtain ⟨ls, htest, hfirst, hsecond, hlength⟩ : ∃ ls : List String, plainTest c content = unlines ls ∧
      ls[10]? = some ("    code = \"\"\"" ++ escaped content ++ "\"\"\"") ∧
      (ls.drop 11)[11]? = some ("    code = \"\"\"" ++ escaped content ++ "\"\"\"") ∧ ls.length = 44 :=
    ⟨_, by rw [plainTest, moduleTest], rfl, rfl, rfl⟩
  rw [htest, unlines_at hfirst (by decide) (by omega), unlines_at hsecond (by decide) (by simp; omega), hline]
  refine ⟨unlines (ls.take 10) ++ "\n" ++ "    code = ",
    "\n" ++ unlines ((ls.drop 11).take 11) ++ "\n" ++ "    code = ", "\n" ++ unlines ((ls.drop 11).drop 12), ?_⟩
  simp only [String.append_assoc]

/-- The literal in which a test holds a text is read as one token, and stands for the text less the quotes at its end that
do not come in threes. These are left over. So it stands for the text itself just if there are none. -/
theorem lexToken_quoted (c : Change) {content : String} (hreturn : '\r' ∉ content.toList) :
    (∃ before between behind : String,
      plainTest c content = before ++ quoted content ++ between ++ quoted content ++ behind) ∧
    ∀ (back : String) (s : LexState), s.reader.rest = unifyNewlines (quoted content ++ back).toList →
      ∃ s' token, lexToken s = .ok s' ∧ s'.made = token :: s.made ∧ token.kind = .string ∧
        StandsFor token (content.toList.rdrop (loose content.toList)) ∧
        s'.reader.rest = List.replicate (loose content.toList) '"' ++ unifyNewlines back.toList ∧
        (StandsFor token content.toList ↔ loose content.toList = 0) := by
  refine ⟨exists_plainTest c content, fun back s hs => ?_⟩
  · obtain ⟨front, hfront, hcontent⟩ := exists_inThrees content.toList
    have hfew : loose content.toList ≤ 2 := Nat.le_of_lt_succ (Nat.mod_lt _ (by decide))
    generalize loose content.toList = k at hcontent hfew
    have hkept : content.toList.rdrop k = front := by rw [hcontent]; simp [List.rdrop]
    have hrest : s.reader.rest =
        '"' :: '"' :: '"' :: (escapes front ++ '"' :: '"' :: '"' :: (List.replicate k '"' ++ unifyNewlines back.toList)) := by
      have hquoted : (quoted content ++ back).toList =
          ('"' :: '"' :: '"' :: (escapes content.toList ++ ['"', '"'])) ++ '"' :: back.toList := by
        simp [quoted, toList_escaped]
      rw [hs, hquoted, unifyNewlines_append_cons (by simp [return_not_mem_escapes hreturn]) (by decide), hcontent,
        escapes_append hfront hfew]
      interval_cases k <;> simp
    obtain ⟨s', token, hlex, hmade, hkind, hstands, hleft⟩ := lexToken_literal hfront hrest
    refine ⟨s', token, hlex, hmade, hkind, hkept ▸ hstands, hleft, fun h => ?_, fun hk => ?_⟩
    · have hsame := congrArg List.length ((h.unique hstands).symm.trans rfl)
      rw [hcontent] at hsame
      simpa using hsame
    · subst hk
      rw [hcontent, List.replicate_zero, List.append_nil]
      exact hstands

/-- The lexer before some characters, in the middle of a line. -/
def lexing (cs : List Char) : LexState := ⟨⟨cs, 1, 0⟩, false, [], [], []⟩

theorem lexToken_quoted_of_three :
    '\r' ∉ "a\"\"\"\"\\b\n\"\"\"".toList ∧ ∃ s' token,
      lexToken (lexing (unifyNewlines (quoted "a\"\"\"\"\\b\n\"\"\"" ++ "\n").toList)) = .ok s' ∧
      token ∈ s'.made ∧ StandsFor token "a\"\"\"\"\\b\n\"\"\"".toList ∧ s'.reader.rest = ['\n'] := by
  have hreturn : '\r' ∉ "a\"\"\"\"\\b\n\"\"\"".toList := by decide
  obtain ⟨s', token, hlex, hmade, -, -, hrest, hstands⟩ :=
    (lexToken_quoted ⟨"c", "p", "a.py", "", "", 1, 1, "", 100, true⟩ hreturn).2 "\n" (lexing _) rfl
  exact ⟨hreturn, s', token, hlex, hmade ▸ List.mem_cons_self, hstands.2 (by decide), hrest⟩

/-- A text ends in a quote. The literal ends before it, and the lexer stops at what is left. -/
theorem lex_quoted_of_one :
    (lex ("code = " ++ quoted "x = \"a\"" ++ "\n    \n")).list.map (·.text) =
        ["code", "=", "\"\"\"x = \"a\"\"\""] ∧
      (lex ("code = " ++ quoted "x = \"a\"" ++ "\n    \n")).stop.isSome ∧
      quoted "x = \"a\"" = "\"\"\"x = \"a\"\"\"\"" := by
  refine ⟨?_, ?_, ?_⟩ <;> decide +kernel

end CodeMigration.Tester
