import CodeMigration.Proofs.AnsweredRequests
import Mathlib.Data.List.DropRight

/-! # Issues are read as they are listed

Issues that are listed as they were asked for, five bullets each, are read back one by one. A text of a bullet may look
like anything, like a bullet too, since only the start of a line counts and only what stands behind its first colon. -/

namespace CodeMigration.Text

theorem occurs_append_cons {sep : Char} {part : List Char} (hsep : sep ∉ part) (xs ys : List Char) :
    occurs part (xs ++ sep :: ys) = (occurs part xs || occurs part ys) := by
  have hnil : ∀ {l : List Char}, sep ∉ l → l <+: sep :: ys → l = [] := by
    intro l hl h
    obtain h | ⟨l', rfl, -⟩ := List.prefix_cons_iff.1 h
    · exact h
    · exact absurd List.mem_cons_self hl
  rw [Bool.eq_iff_iff, Bool.or_eq_true, occurs_iff_isInfix, occurs_iff_isInfix, occurs_iff_isInfix]
  refine ⟨fun h => ?_, Or.rec List.infix_append_of_infix_left fun h =>
    List.infix_append_of_infix_right (List.infix_cons h)⟩
  obtain h | h | ⟨l, l', rfl, hl, hl'⟩ := List.infix_append_iff.1 h
  · exact .inl h
  · refine (List.infix_cons_iff.1 h).imp_left fun h => ?_
    rw [hnil hsep h]
    exact List.nil_infix
  · rw [hnil (mt (List.mem_append_right l) hsep) hl', List.append_nil]
    exact .inl hl.isInfix

theorem contains_unlines {part : String} (hsep : '\n' ∉ part.toList) (hpart : part.toList ≠ []) (ls : List String) :
    contains (unlines ls) part = ls.any (contains · part) := by
  rw [contains, unlines, String.toList_intercalate]
  induction ls with
  | nil => simp [occurs, hpart]
  | cons l ls ih =>
    cases ls with
    | nil => simp [contains]
    | cons l' ls =>
      have hnewline : "\n".toList = ['\n'] := rfl
      rw [List.any_cons, ← ih, List.map_cons, List.map_cons, List.intercalate_cons_cons, hnewline, List.append_assoc,
        List.singleton_append, occurs_append_cons hsep, contains]

theorem stripRight_of_stripBoth {cs : List Char} (h : stripBoth cs = cs) : stripRight cs = cs := by
  rw [← h]
  exact List.rdropWhile_idempotent isBlank (stripLeft cs)

theorem isAsciiDigit_of_isDigit {c : Char} (h : Json.isDigit c = true) :
    c.toNat < 128 ∧ isAsciiDigit c.toNat = true := by
  simp only [Json.isDigit, Bool.and_eq_true, decide_eq_true_eq, Char.le_def, UInt32.le_iff_toNat_le] at h
  have hbounds : 48 ≤ c.toNat ∧ c.toNat ≤ 57 := h
  simp only [isAsciiDigit, Bool.and_eq_true, decide_eq_true_eq]
  omega

theorem spelled_of_digits {cs : List Char} (hne : cs ≠ []) (h : Json.Digits cs) :
    Spelled cs (cs.map fun c => c.toNat - '0'.toNat) := by
  induction cs with
  | nil => contradiction
  | cons c cs ih =>
    have hc : decimalValue? c.toNat = some (c.toNat - '0'.toNat) := by
      obtain ⟨hascii, hdigit⟩ := isAsciiDigit_of_isDigit (h c List.mem_cons_self)
      rw [decimalValue?, if_pos hascii, if_pos hdigit]
      rfl
    cases cs with
    | nil => exact .last hc
    | cons c' cs => exact .next hc (ih (List.cons_ne_nil c' cs) fun d hd => h d (List.mem_cons_of_mem c hd))

theorem spelled_toDigits (n : Nat) :
    Spelled (Nat.toDigits 10 n) ((Nat.toDigits 10 n).map fun c => c.toNat - '0'.toNat) :=
  spelled_of_digits Nat.toDigits_ne_nil (Json.digits_toDigits n)

theorem stripBoth_toString (n : Nat) : stripBoth (toString n).toList = (toString n).toList := by
  have hstrip := @stripBoth_digits [] [] _ [] _ (by simp) (by simp) (spelled_toDigits n) (by simp)
  simpa using hstrip

theorem readInt_digits {cs : List Char} (hne : cs ≠ []) (h : Json.Digits cs) :
    readInt cs = if cs.length ≤ maxReadDigits then .ok (Json.natOf cs : Int) else .error (.tooLong cs.length) := by
  have hspelled := spelled_of_digits hne h
  have hstrip : stripBoth cs = cs := by
    simpa using @stripBoth_digits [] [] _ [] _ (by simp) (by simp) hspelled (by simp)
  have hvalue : ofDigitValues (cs.map fun c => c.toNat - '0'.toNat) = Json.natOf cs := List.foldl_map
  simp only [readInt, hstrip, signOf_digits hspelled, digitValues_eq_some_iff.2 hspelled, List.length_map, hvalue]
  by_cases hlength : cs.length ≤ maxReadDigits
  · rw [if_pos hlength, if_neg (Nat.not_lt.2 hlength)]
    rfl
  · rw [if_neg hlength, if_pos (Nat.lt_of_not_le hlength)]

theorem readInt_toDigits {n : Nat} (h : (Nat.toDigits 10 n).length ≤ maxReadDigits) :
    readInt (Nat.toDigits 10 n) = .ok n := by
  rw [readInt_digits Nat.toDigits_ne_nil (Json.digits_toDigits n), if_pos h, Json.natOf_toDigits]

end CodeMigration.Text

namespace CodeMigration.Assistant

open Text (stripBoth stripLeft stripRight isBlank)

def bullet (label text : String) : String := "- " ++ label ++ ": " ++ text

def bulletHead (label : String) : List Char := '-' :: ' ' :: label.toList ++ [':']

/-- What stands behind the colon of a bullet without blanks at its ends. -/
def behindColon (text : String) : List Char := if text.toList = [] then [] else ' ' :: text.toList

theorem toList_bullet (label text : String) : (bullet label text).toList = bulletHead label ++ ' ' :: text.toList := by
  have hdash : "- ".toList = ['-', ' '] := rfl
  have hcolon : ": ".toList = [':', ' '] := rfl
  simp [bullet, bulletHead, hdash, hcolon]

theorem stripBoth_bullet (label : String) {text : String} (h : stripBoth text.toList = text.toList) :
    stripBoth (bullet label text).toList = bulletHead label ++ behindColon text := by
  have hlast := List.rdropWhile_eq_self_iff.1 (Text.stripRight_of_stripBoth h)
  have hleft : stripLeft (bulletHead label ++ ' ' :: text.toList) = bulletHead label ++ ' ' :: text.toList := rfl
  rw [toList_bullet, stripBoth, hleft, behindColon]
  split
  next hnil =>
    rw [hnil, List.append_nil]
    exact (List.rdropWhile_concat_pos isBlank _ ' ' (by decide)).trans
      (List.rdropWhile_concat_neg isBlank _ ':' (by decide))
  next hne =>
    refine List.rdropWhile_eq_self_iff.2 fun _ => ?_
    rw [List.getLast_append_of_ne_nil (List.cons_ne_nil _ _) (List.cons_ne_nil _ _), List.getLast_cons hne]
    exact hlast hne

theorem afterColon?_bulletHead {label : String} (hlabel : ':' ∉ label.toList) (cs : List Char) :
    afterColon? (bulletHead label ++ cs) = some cs := by
  have hhead : ∀ c ∈ '-' :: ' ' :: label.toList, (c != ':') = true := by
    simp only [List.mem_cons, bne_iff_ne, ne_eq]
    rintro c (rfl | rfl | hc) hcolon
    · exact absurd hcolon (by decide)
    · exact absurd hcolon (by decide)
    · exact hlabel (hcolon ▸ hc)
  rw [afterColon?, bulletHead, List.append_assoc, List.dropWhile_append_of_pos hhead]
  simp

theorem stripped_behindColon {text : String} (h : stripBoth text.toList = text.toList) :
    stripped (behindColon text) = text := by
  have hspace : isBlank ' ' = true := by decide
  rw [stripped, behindColon]
  split
  next hnil =>
    rw [← String.ofList_toList (s := text), hnil]
    rfl
  next =>
    rw [stripBoth, stripLeft, List.dropWhile_cons_of_pos hspace]
    exact (congrArg String.ofList h).trans String.ofList_toList

theorem filter_isDigit {cs : List Char} (h : Json.Digits cs) : cs.filter isDigit = cs := by
  refine List.filter_eq_self.2 fun c hc => ?_
  obtain ⟨hascii, hdigit⟩ := Text.isAsciiDigit_of_isDigit (h c hc)
  rw [isDigit, Text.isDecimal, if_pos hascii, hdigit, Bool.true_or]

theorem lineNumber_behindColon {n : Nat} (h : (toString n).length ≤ Text.maxReadDigits) :
    lineNumber (behindColon (toString n)) = n := by
  have hdigits : (toString n).toList = Nat.toDigits 10 n := by simp
  have hfilter : (behindColon (toString n)).filter isDigit = Nat.toDigits 10 n := by
    rw [behindColon, hdigits, if_neg Nat.toDigits_ne_nil, List.filter_cons_of_neg (by decide),
      filter_isDigit (Json.digits_toDigits n)]
  rw [← String.length_toList, hdigits] at h
  rw [lineNumber, hfilter, Text.readInt_toDigits h]
  rfl

structure Issue where
  kind : String
  line : Nat
  code : String
  severity : String
  suggestion : String

/-- A text on one line without blanks at its ends, which does not deny that there are issues. -/
@[mk_iff]
structure PlainText (text : String) : Prop where
  newline : '\n' ∉ text.toList
  strip : Text.strip text = text
  silent : Text.contains text noIssues = false

theorem PlainText.stripBoth_toList {text : String} (h : PlainText text) : stripBoth text.toList = text.toList := by
  have hstrip := congrArg String.toList h.strip
  rwa [Text.strip, String.toList_ofList] at hstrip

theorem plainText_toString (n : Nat) : PlainText (toString n) := by
  have hdigits : (toString n).toList = Nat.toDigits 10 n := by simp
  refine ⟨?_, ?_, ?_⟩
  · rw [hdigits]
    exact fun h => absurd (Json.digits_toDigits n _ h) (by decide)
  · rw [Text.strip, Text.stripBoth_toString, String.ofList_toList]
  · rw [Text.contains, hdigits, ← Bool.not_eq_true, Text.occurs_iff_isInfix]
    intro h
    have hletter : 'N' ∈ Nat.toDigits 10 n := h.subset (by decide)
    exact absurd (Json.digits_toDigits n _ hletter) (by decide)

namespace Issue

structure Plain (i : Issue) : Prop where
  texts : ∀ t ∈ [i.kind, i.code, i.severity, i.suggestion], PlainText t
  lower : Text.lower i.severity = i.severity
  line : (toString i.line).length ≤ Text.maxReadDigits

def labels : List String := ["Pattern type", "Line number(s)", "Code snippet", "Severity", "Suggested approach"]

def fields (i : Issue) : List String := [i.kind, toString i.line, i.code, i.severity, i.suggestion]

def bullets (i : Issue) : List String := List.zipWith bullet labels i.fields

def finding (file : String) (count : Nat) (i : Issue) : Finding :=
  { id := "llm_" ++ toString count, kind := i.kind, description := i.suggestion, place := ⟨file, i.line, i.line, 0, 0⟩,
    code := i.code, severity := i.severity, fix := i.suggestion }

def draft (i : Issue) : Draft := ⟨i.kind, i.line, i.code, i.severity, i.suggestion⟩

def marks (i : Issue) : List Bullet :=
  [.kind i.kind, .line i.line, .code i.code, .severity i.severity, .suggestion i.suggestion]

variable {i : Issue}

theorem Plain.plainText (h : i.Plain) : ∀ t ∈ i.fields, PlainText t := by
  have htexts := h.texts
  simp only [fields, List.forall_mem_cons] at htexts ⊢
  exact ⟨htexts.1, plainText_toString i.line, htexts.2⟩

theorem Plain.ofLine_bullets (h : i.Plain) : i.bullets.map Bullet.ofLine = i.marks := by
  have hstrip : ∀ t ∈ i.fields, stripBoth t.toList = t.toList := fun t ht => (h.plainText t ht).stripBoth_toList
  simp only [fields, List.forall_mem_cons] at hstrip
  obtain ⟨hkind, hline, hcode, hseverity, hsuggestion, -⟩ := hstrip
  simp only [bullets, labels, fields, List.zipWith_cons_cons, List.zipWith_nil_left, List.map_cons, List.map_nil,
    Bullet.ofLine, stripBoth_bullet _ hkind, stripBoth_bullet _ hline, stripBoth_bullet _ hcode,
    stripBoth_bullet _ hseverity, stripBoth_bullet _ hsuggestion]
  -- Each line is told by its label, which holds no colon of its own.
  simp (disch := decide) only [afterColon?_bulletHead, Option.getD_some, Option.map_some, stripped_behindColon hkind,
    lineNumber_behindColon h.line, stripped_behindColon hcode, stripped_behindColon hseverity, h.lower,
    stripped_behindColon hsuggestion]
  rfl

theorem exists_of_mem_bullets {l : String} (h : l ∈ i.bullets) :
    ∃ label ∈ labels, ∃ text ∈ i.fields, l = bullet label text := by
  simp only [bullets, labels, fields, List.zipWith_cons_cons, List.zipWith_nil_left, List.mem_cons, List.not_mem_nil,
    or_false] at h
  rcases h with rfl | rfl | rfl | rfl | rfl
  all_goals exact ⟨_, by simp [labels], _, by simp [fields], rfl⟩

theorem Plain.newline_not_mem (h : i.Plain) : ∀ l ∈ i.bullets, '\n' ∉ l.toList := by
  intro l hl
  obtain ⟨label, hlabel, text, htext, rfl⟩ := exists_of_mem_bullets hl
  have hhead : ∀ label ∈ labels, '\n' ∉ bulletHead label := by decide
  rw [toList_bullet, List.mem_append, List.mem_cons, not_or, not_or]
  exact ⟨hhead label hlabel, by decide, (h.plainText text htext).newline⟩

theorem Plain.silent (h : i.Plain) : ∀ l ∈ i.bullets, Text.contains l noIssues = false := by
  intro l hl
  obtain ⟨label, hlabel, text, htext, rfl⟩ := exists_of_mem_bullets hl
  have hhead : ∀ label ∈ labels, Text.occurs noIssues.toList (bulletHead label) = false := by decide
  rw [Text.contains, toList_bullet, Text.occurs_append_cons (by decide), hhead label hlabel, Bool.false_or]
  exact (h.plainText text htext).silent

theorem draft_ne_empty (i : Issue) : i.draft ≠ {} := by
  intro h
  cases congrArg Draft.kind h

/-- The bullets of an issue end the one before, if there is one, and leave their own. -/
theorem issuesFrom_marks (file : String) (lines : List String) (d : Draft) (count : Nat) (i : Issue)
    (rest : List Bullet) : issuesFrom file lines d count (i.marks ++ rest) =
      if d = {} then issuesFrom file lines i.draft count rest
      else .cons (d.finding file lines count) (issuesFrom file lines i.draft (count + 1) rest) := rfl

theorem issuesFrom_draft (file : String) (lines : List String) (i : Issue) (is : List Issue) (count : Nat) :
    issuesFrom file lines i.draft count (is.flatMap marks) =
      ⟨(i :: is).mapIdx fun k j => j.finding file (count + k), none⟩ := by
  induction is generalizing i count with
  | nil =>
    rw [List.flatMap_nil, issuesFrom, if_neg i.draft_ne_empty]
    rfl
  | cons j is ih =>
    have hshift : (fun k (j : Issue) => j.finding file (count + 1 + k)) =
        fun k j => j.finding file (count + (k + 1)) := by
      funext k j
      rw [Nat.add_assoc, Nat.add_comm 1]
    rw [List.flatMap_cons, issuesFrom_marks, if_neg i.draft_ne_empty, ih, hshift, List.mapIdx_cons (a := i)]
    rfl

end Issue

section
variable {is : List Issue} (h : ∀ i ∈ is, i.Plain)
include h

theorem silent_unlines : Text.contains (Text.unlines (is.flatMap Issue.bullets)) noIssues = false := by
  rw [Text.contains_unlines (by decide) (by decide), List.any_eq_false]
  intro l hl
  obtain ⟨i, hi, hl⟩ := List.mem_flatMap.1 hl
  rw [(h i hi).silent l hl]
  exact Bool.false_ne_true

theorem map_ofLine_lines (hne : is ≠ []) :
    (Text.lines (Text.unlines (is.flatMap Issue.bullets))).map Bullet.ofLine = is.flatMap Issue.marks := by
  have hlines : Text.lines (Text.unlines (is.flatMap Issue.bullets)) = is.flatMap Issue.bullets := by
    refine Text.lines_unlines ?_ fun l hl => ?_
    · obtain ⟨i, rest, rfl⟩ := List.exists_cons_of_ne_nil hne
      exact List.cons_ne_nil _ _
    · obtain ⟨i, hi, hl⟩ := List.mem_flatMap.1 hl
      exact (h i hi).newline_not_mem l hl
  rw [hlines, List.map_flatMap]
  exact List.flatMap_congr fun i hi => (h i hi).ofLine_bullets

/-- Issues that are listed as they are asked for are read one by one, whatever the file holds. -/
theorem issues_of_bullets (file content : String) :
    issues (Text.unlines (is.flatMap Issue.bullets)) file content = ⟨is.mapIdx (Issue.finding file), none⟩ := by
  cases is with
  | nil => rfl
  | cons i is =>
    rw [issues, silent_unlines h, if_neg Bool.false_ne_true, map_ofLine_lines h (List.cons_ne_nil i is),
      List.flatMap_cons, Issue.issuesFrom_marks, if_pos rfl, Issue.issuesFrom_draft]
    simp only [Nat.zero_add]

end

def listedIssues : List Issue :=
  [⟨"- Severity: high", 0, "", "", "- Pattern type: none"⟩, ⟨"", 12, "print 'x'", "low", "a: b"⟩]

theorem issues_of_bullets_listedIssues : (∀ i ∈ listedIssues, i.Plain) ∧
    issues (Text.unlines (listedIssues.flatMap Issue.bullets)) "a.py" "" =
      ⟨listedIssues.mapIdx (Issue.finding "a.py"), none⟩ := by
  have h : ∀ i ∈ listedIssues, i.Plain := by
    simp only [listedIssues, List.forall_mem_cons, List.not_mem_nil, false_imp_iff, implies_true, and_true]
    refine ⟨⟨?_, ?_, ?_⟩, ⟨?_, ?_, ?_⟩⟩
    · simp only [plainText_iff]
      decide +kernel
    · decide +kernel
    · decide +kernel
    · simp only [plainText_iff]
      decide +kernel
    · decide +kernel
    · decide +kernel
  exact ⟨h, issues_of_bullets h "a.py" ""⟩

end CodeMigration.Assistant
