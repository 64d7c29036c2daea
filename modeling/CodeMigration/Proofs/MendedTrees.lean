import CodeMigration.Proofs.PatchedTexts
import Mathlib.Data.List.TakeWhile

/-! # Mended texts and edited trees

A text that has a tree can be mended line by line as well as edited in its tree. Where mending finds nothing, both
come to the same tree if there is nothing to edit. Mending goes by words: for what a test for a key is asked of it
takes the last word before `.has_key(`, so a test on a member becomes a test for a member. -/

namespace CodeMigration

namespace Source

open Legacy (pass)

theorem calleeUse?_unplaced (func : Expr) : Legacy.calleeUse? func.unplaced = Legacy.calleeUse? func := by
  cases func <;> rfl

open Outline (gather gathers)

section
attribute [local simp] Expr.unplaced Expr.outline gather gathers Pass.notesAt

mutual

theorem Expr.notes_unplaced (e : Expr) : e.unplaced.outline.gather pass.notesAt = e.outline.gather pass.notesAt := by
  cases e with
  | call s func args keywords =>
    have hcall : (pass.call .unknown (func.unplaced.edit pass) (editExprs pass (unplacedExprs args))
        (editKeywords pass (unplacedKeywords keywords))).2 =
        (pass.call s (func.edit pass) (editExprs pass args) (editKeywords pass keywords)).2 := by
      refine (Legacy.editCall_notes ..).trans (.trans ?_ (Legacy.editCall_notes ..).symm)
      rw [Legacy.calleeUse?_edit, Legacy.calleeUse?_edit, calleeUse?_unplaced]
    simp [func.notes_unplaced, notesExprs_unplaced, notesKeywords_unplaced, hcall]
  | _ =>
    simp [Expr.notes_unplaced, notesExprs_unplaced, notesOpt_unplaced, notesKeys_unplaced, notesValues_unplaced,
      notesClauses_unplaced, Params.notes_unplaced]

theorem notesExprs_unplaced (es : List Expr) :
    gathers pass.notesAt (exprOutlines (unplacedExprs es)) = gathers pass.notesAt (exprOutlines es) := by
  cases es <;> simp [exprOutlines, unplacedExprs, Expr.notes_unplaced, notesExprs_unplaced]

theorem notesOpt_unplaced (e : Option Expr) :
    gathers pass.notesAt (optOutline (unplacedOpt e)) = gathers pass.notesAt (optOutline e) := by
  cases e <;> simp [optOutline, unplacedOpt, Expr.notes_unplaced]

theorem notesKeywords_unplaced (ks : List Keyword) :
    gathers pass.notesAt (keywordOutlines (unplacedKeywords ks)) = gathers pass.notesAt (keywordOutlines ks) := by
  rcases ks with _ | ⟨⟨⟩, ks⟩ <;> simp [keywordOutlines, unplacedKeywords, Expr.notes_unplaced, notesKeywords_unplaced]

theorem notesKeys_unplaced (items : List DictItem) :
    gathers pass.notesAt (keyOutlines (unplacedItems items)) = gathers pass.notesAt (keyOutlines items) := by
  rcases items with _ | ⟨⟨⟩, items⟩ <;> simp [keyOutlines, unplacedItems, Expr.notes_unplaced, notesKeys_unplaced]

theorem notesValues_unplaced (items : List DictItem) :
    gathers pass.notesAt (valueOutlines (unplacedItems items)) = gathers pass.notesAt (valueOutlines items) := by
  rcases items with _ | ⟨⟨⟩, items⟩ <;> simp [valueOutlines, unplacedItems, Expr.notes_unplaced, notesValues_unplaced]

theorem notesClauses_unplaced (cs : List Clause) :
    gathers pass.notesAt (clauseOutlines (unplacedClauses cs)) = gathers pass.notesAt (clauseOutlines cs) := by
  rcases cs with _ | ⟨⟨⟩, cs⟩ <;>
    simp [clauseOutlines, unplacedClauses, Expr.notes_unplaced, notesExprs_unplaced, notesClauses_unplaced]

theorem notesParams_unplaced (qs : List Param) :
    gathers pass.notesAt (paramOutlines (unplacedParams qs)) = gathers pass.notesAt (paramOutlines qs) ∧
      gathers pass.notesAt (defaultOutlines (unplacedParams qs)) = gathers pass.notesAt (defaultOutlines qs) := by
  rcases qs with _ | ⟨⟨⟩, qs⟩ <;> simp [paramOutlines, defaultOutlines, Param.outline, Param.defaultOutline,
    unplacedParams, Param.unplaced, notesOpt_unplaced, notesParams_unplaced]

theorem notesOptParam_unplaced (q : Option Param) :
    gathers pass.notesAt (optParamOutline (unplacedOptParam q)) = gathers pass.notesAt (optParamOutline q) := by
  rcases q with _ | ⟨⟨⟩⟩ <;> simp [optParamOutline, Param.outline, unplacedOptParam, Param.unplaced, notesOpt_unplaced]

theorem Params.notes_unplaced (qs : Params) :
    qs.unplaced.outline.gather pass.notesAt = qs.outline.gather pass.notesAt := by
  cases qs
  simp [Params.unplaced, Params.outline, notesParams_unplaced, notesOptParam_unplaced]

end

end

attribute [local simp] Expr.notes_unplaced notesExprs_unplaced notesOpt_unplaced notesKeywords_unplaced
  Params.notes_unplaced gather gathers

section
attribute [local simp] Pattern.unplaced Pattern.outline Pass.notesAt

mutual

theorem Pattern.notes_unplaced (q : Pattern) :
    q.unplaced.outline.gather pass.notesAt = q.outline.gather pass.notesAt := by
  cases q with
  | capture q name => cases q <;> simp [unplacedOptPattern, optPatternOutline, Pattern.notes_unplaced]
  | _ => simp [notesPatterns_unplaced]

theorem notesPatterns_unplaced (qs : List Pattern) :
    gathers pass.notesAt (patternOutlines (unplacedPatterns qs)) = gathers pass.notesAt (patternOutlines qs) := by
  cases qs <;> simp [patternOutlines, unplacedPatterns, Pattern.notes_unplaced, notesPatterns_unplaced]

end

end

theorem notesItems_unplaced (items : List WithItem) :
    gathers pass.notesAt (items.map (WithItem.outline ∘ WithItem.unplaced)) =
      gathers pass.notesAt (items.map WithItem.outline) := by
  induction items with
  | nil => rfl
  | cons item items ih => simp [ih, WithItem.outline, WithItem.unplaced, Pass.notesAt]

attribute [local simp] Stmt.unplaced Stmt.notes Stmt.outline notesOf Pattern.notes_unplaced notesItems_unplaced
  replaceDecorators_eq decoratorNotes_eq Legacy.pass_sparesDecorators

mutual

theorem Stmt.notes_unplaced (s : Stmt) : s.unplaced.notes pass = s.notes pass := by
  cases s with
  | assign s targets value =>
    have hnone (s : Span) (ts : List Expr) (e : Expr) : (pass.assign s ts e).2 = [] := rfl
    simp [hnone, Pass.notesAt]
  | importModules s names => rfl
  | importFrom s source names level =>
    have hsame : (pass.importFrom .unknown source names level).2 = (pass.importFrom s source names level).2 := by
      simp only [Legacy.pass, Legacy.editImportFrom]
      split <;> rfl
    simp [hsame, Pass.notesAt]
  | _ => simp [notesStmts_unplaced, notesHandlers_unplaced, notesCases_unplaced, Pass.notesAt]

theorem notesStmts_unplaced (ss : List Stmt) : notesStmts pass (unplacedStmts ss) = notesStmts pass ss := by
  cases ss <;> simp [notesStmts, unplacedStmts, Stmt.notes_unplaced, notesStmts_unplaced]

theorem notesHandlers_unplaced (hs : List Handler) : notesHandlers pass (unplacedHandlers hs) = notesHandlers pass hs := by
  rcases hs with _ | ⟨⟨⟩, hs⟩ <;> simp [notesHandlers, unplacedHandlers, notesStmts_unplaced, notesHandlers_unplaced]

theorem notesCases_unplaced (cs : List Case) : notesCases pass (unplacedCases cs) = notesCases pass cs := by
  rcases cs with _ | ⟨⟨⟩, cs⟩ <;> simp [notesCases, unplacedCases, notesStmts_unplaced, notesCases_unplaced]

end

theorem changes_unplaced (m : Module) : Legacy.changes m.unplaced = Legacy.changes m := notesStmts_unplaced m.body

end Source

namespace Legacy

open Text (isWordChar occurs)

variable {before rest after : List Char} {α : Type} {tests : List KeyTest} {source : String}

theorem occurs_of_append {part : List Char} (h : part <+: rest) : occurs part (before ++ rest) = true :=
  Text.occurs_iff_isInfix.2 (List.infix_append_of_infix_right h.isInfix)

theorem oldKeyTest?_eq_none {b : Bool} {cs : List Char} (h : ¬ ".has_key(".toList <+: cs.dropWhile isWordChar) :
    oldKeyTest? b cs = none := by
  have hdrop : dropText? ".has_key(".toList (cs.dropWhile isWordChar) = none :=
    if_neg (mt List.isPrefixOf_iff_prefix.1 h)
  unfold oldKeyTest?
  rw [hdrop]
  dsimp only
  split <;> rfl

theorem replaceMatches_append {match? : Bool → List Char → Option (Nat × List Char × α)}
    (h : ∀ b, ∀ s ≠ [], s <:+ before → match? b (s ++ rest) = none) (b : Bool) :
    ∃ b', (replaceMatches match? b 0 (before ++ rest)).1 = before ++ (replaceMatches match? b' 0 rest).1 := by
  induction before generalizing b with
  | nil => exact ⟨b, rfl⟩
  | cons c before ih =>
    have hnone : match? b (c :: (before ++ rest)) = none := h b _ (List.cons_ne_nil _ _) (List.suffix_refl _)
    obtain ⟨b', hb'⟩ := ih (fun b s hs hsuffix => h b s hs (hsuffix.trans (List.suffix_cons _ _))) (isWordChar c)
    refine ⟨b', ?_⟩
    rw [List.cons_append, replaceMatches, hnone]
    exact congrArg (c :: ·) hb'

theorem replaceMatches_skip {match? : Bool → List Char → Option (Nat × List Char × α)}
    {taken : List Char} (b : Bool) :
    ∃ b', replaceMatches match? b taken.length (taken ++ rest) = replaceMatches match? b' 0 rest := by
  induction taken generalizing b with
  | nil => exact ⟨b, rfl⟩
  | cons c taken ih =>
    rw [List.cons_append, List.length_cons, replaceMatches]
    exact ih _

/-- A test for a key in a text: what stands before it, the word that it is asked of, and the key. -/
structure KeyTest where
  before : List Char
  name : List Char
  key : List Char

namespace KeyTest

def old (t : KeyTest) : List Char := t.before ++ (t.name ++ (".has_key(".toList ++ (t.key ++ [')'])))

theorem old_append (t : KeyTest) (rest : List Char) :
    t.old ++ rest = t.before ++ (t.name ++ (".has_key(".toList ++ (t.key ++ ')' :: rest))) := by simp [old]

/-- What stands before the word stays in front of the key. -/
def new (t : KeyTest) : List Char := t.before ++ (t.key ++ " in ".toList ++ t.name)

/-- The word is a whole one, and what stands before it has no test. -/
structure IsFirst (t : KeyTest) : Prop where
  word : t.name ≠ [] ∧ ∀ c ∈ t.name, isWordChar c = true
  whole : ∀ c ∈ t.before.getLast?, isWordChar c = false
  key : t.key ≠ [] ∧ ')' ∉ t.key
  first : occurs ".has_key(".toList (t.before ++ (t.name ++ ".has_key".toList)) = false

namespace IsFirst

variable {t : KeyTest} (h : t.IsFirst)
include h

theorem oldKeyTest?_name (b : Bool) (rest : List Char) :
    oldKeyTest? b (t.name ++ (".has_key(".toList ++ (t.key ++ ')' :: rest))) =
      some ((t.name ++ (".has_key(".toList ++ (t.key ++ [')']))).length, t.key ++ " in ".toList ++ t.name, ()) := by
  have hpoint : isWordChar '.' = false := by decide
  have hkey : ∀ c ∈ t.key, (c != ')') = true := fun c hc => by
    simpa using fun heq : c = ')' => h.key.2 (heq ▸ hc)
  have htakeName : (t.name ++ (".has_key(".toList ++ (t.key ++ ')' :: rest))).takeWhile isWordChar = t.name := by
    rw [List.takeWhile_append_of_pos h.word.2]
    simp [hpoint]
  have hdropName : (t.name ++ (".has_key(".toList ++ (t.key ++ ')' :: rest))).dropWhile isWordChar =
      ".has_key(".toList ++ (t.key ++ ')' :: rest) := by
    rw [List.dropWhile_append_of_pos h.word.2]
    simp [hpoint]
  have htake : (t.key ++ ')' :: rest).takeWhile (· != ')') = t.key := by
    rw [List.takeWhile_append_of_pos hkey]
    simp
  have hdrop : (t.key ++ ')' :: rest).dropWhile (· != ')') = ')' :: rest := by
    rw [List.dropWhile_append_of_pos hkey]
    simp
  have hfound : dropText? ".has_key(".toList (".has_key(".toList ++ (t.key ++ ')' :: rest)) =
      some (t.key ++ ')' :: rest) := by
    rw [dropText?, if_pos (List.isPrefixOf_iff_prefix.2 (List.prefix_append _ _)), List.drop_left]
  have hlength : (t.name ++ (".has_key(".toList ++ (t.key ++ ')' :: rest))).length - rest.length =
      (t.name ++ (".has_key(".toList ++ (t.key ++ [')']))).length := by
    simp only [List.length_append, List.length_cons, List.length_nil]
    omega
  unfold oldKeyTest?
  rw [htakeName, hdropName, hfound]
  simp only [List.isEmpty_eq_false_iff.2 h.word.1, Bool.false_eq_true, if_false, Option.bind_eq_bind,
    Option.bind_some, htake, hdrop, hlength, List.isEmpty_eq_false_iff.2 h.key.1]

/-- No test starts before the word: the nine characters would end before the bracket of this one. -/
theorem oldKeyTest?_before (b : Bool) {s : List Char} (hs : s ≠ []) (hsuffix : s <:+ t.before) (rest : List Char) :
    oldKeyTest? b (s ++ (t.name ++ (".has_key(".toList ++ rest))) = none := by
  refine oldKeyTest?_eq_none fun hprefix => ?_
  obtain ⟨front, hbefore⟩ := hsuffix
  have hlast : isWordChar (s.getLast hs) = false :=
    h.whole _ (by rw [← hbefore, List.getLast?_append_of_ne_nil _ hs, List.getLast?_eq_some_getLast hs]; rfl)
  have hrest : s.dropWhile isWordChar ≠ [] := fun hnil => by
    rw [List.dropWhile_eq_nil_iff.1 hnil _ (List.getLast_mem hs)] at hlast
    cases hlast
  rw [List.dropWhile_append, if_neg (by simpa using hrest)] at hprefix
  have hshort : ".has_key(".toList <+: s.dropWhile isWordChar ++ (t.name ++ ".has_key".toList) := by
    refine List.prefix_of_prefix_length_le hprefix ⟨'(' :: rest, by simp⟩ ?_
    have hlength := List.length_pos_iff.2 hrest
    simp only [List.length_append]
    exact Nat.le_trans (by decide) (Nat.add_le_add hlength (Nat.le_add_left 8 _))
  have hoccurs : occurs ".has_key(".toList (front ++ s.takeWhile isWordChar ++
      (s.dropWhile isWordChar ++ (t.name ++ ".has_key".toList))) = true := occurs_of_append hshort
  rw [List.append_assoc, ← List.append_assoc (s.takeWhile isWordChar), List.takeWhile_append_dropWhile,
    ← List.append_assoc, hbefore, h.first] at hoccurs
  cases hoccurs

theorem replaceMatches_old (b : Bool) (rest : List Char) :
    ∃ b', (replaceMatches oldKeyTest? b 0 (t.old ++ rest)).1 = t.new ++ (replaceMatches oldKeyTest? b' 0 rest).1 := by
  have hnone : ∀ b, ∀ s ≠ [], s <:+ t.before →
      oldKeyTest? b (s ++ (t.name ++ (".has_key(".toList ++ (t.key ++ ')' :: rest)))) = none :=
    fun b s hs hsuffix => h.oldKeyTest?_before b hs hsuffix _
  obtain ⟨b₁, hbefore⟩ := replaceMatches_append hnone b
  have hfound := h.oldKeyTest?_name b₁ rest
  obtain ⟨c, name, hname⟩ := List.exists_cons_of_ne_nil h.word.1
  obtain ⟨b₂, hskip⟩ : ∃ b', replaceMatches oldKeyTest? (isWordChar c)
      (name ++ (".has_key(".toList ++ (t.key ++ [')']))).length
      (name ++ (".has_key(".toList ++ (t.key ++ [')'])) ++ rest) = replaceMatches oldKeyTest? b' 0 rest :=
    replaceMatches_skip _
  have htaken : name ++ (".has_key(".toList ++ (t.key ++ ')' :: rest)) =
      name ++ (".has_key(".toList ++ (t.key ++ [')'])) ++ rest := by simp
  refine ⟨b₂, ?_⟩
  rw [old_append, hbefore, new]
  rw [hname, List.cons_append] at hfound ⊢
  rw [replaceMatches, hfound]
  simp only [List.cons_append, List.length_cons, Nat.add_sub_cancel]
  rw [htaken, hskip, List.append_assoc t.before]

end IsFirst

theorem replaceMatches_tests (h : ∀ t ∈ tests, t.IsFirst)
    (hafter : occurs ".has_key(".toList after = false) (b : Bool) :
    (replaceMatches oldKeyTest? b 0 (tests.flatMap old ++ after)).1 = tests.flatMap new ++ after := by
  induction tests generalizing b with
  | nil =>
    have hnone : ∀ b, ∀ s ≠ [], s <:+ after → oldKeyTest? b (s ++ []) = none := by
      rintro b s - ⟨front, rfl⟩
      refine oldKeyTest?_eq_none fun hprefix => ?_
      rw [List.append_nil] at hprefix
      have hoccurs : occurs ".has_key(".toList (front ++ s.takeWhile isWordChar ++ s.dropWhile isWordChar) = true :=
        occurs_of_append hprefix
      rw [List.append_assoc, List.takeWhile_append_dropWhile, hafter] at hoccurs
      cases hoccurs
    obtain ⟨b', hb'⟩ := replaceMatches_append hnone b
    simpa [replaceMatches] using hb'
  | cons t tests ih =>
    obtain ⟨ht, htests⟩ := List.forall_mem_cons.1 h
    obtain ⟨b', hb'⟩ := ht.replaceMatches_old b (tests.flatMap old ++ after)
    rw [List.flatMap_cons, List.append_assoc, hb', ih htests, List.flatMap_cons, List.append_assoc]

end KeyTest

theorem mendCalls_of_notes (h : (mendCalls (mendedPrints source)).2 = []) :
    mendCalls (mendedPrints source) = (source.toList, []) := by
  have hsame : mendCalls (mendedPrints source) = mendedPrints source := mendCalls_tells _ h
  rw [hsame, mendedPrints] at h ⊢
  dsimp only at h ⊢
  rw [(mendPrints_of_notes h).2, ← Text.lines, Text.unlines_lines, h]

theorem mendText_of_tests (h : ∀ t ∈ tests, t.IsFirst)
    (hafter : occurs ".has_key(".toList after = false) (hsource : source.toList = tests.flatMap KeyTest.old ++ after)
    (hcalls : (mendCalls (mendedPrints source)).2 = []) :
    (mendText source).1 = String.ofList (tests.flatMap KeyTest.new ++ after) := by
  have huses : mendUses (mendedPrints source) = mendKeyTests (mendCalls (mendedPrints source)) := rfl
  rw [mendText_eq, huses, mendCalls_of_notes hcalls, mendKeyTests]
  split
  · rw [← KeyTest.replaceMatches_tests h hafter false, ← hsource]
  case isFalse hnone =>
    cases tests with
    | nil => exact congrArg String.ofList hsource
    | cons t tests =>
      refine absurd ?_ hnone
      rw [hsource, List.flatMap_cons, List.append_assoc, KeyTest.old_append, ← List.append_assoc]
      exact occurs_of_append (List.prefix_append _ _)

section
variable {m m' : Source.Module} {text : String}

/-- An edited tree that is read from a text leaves nothing in the tree of the text but tests for a key. -/
theorem changes_of_isReadFrom (hm' : Source.Module.ofString text = .ok m') (h : (edit m).IsReadFrom text) :
    ∀ c ∈ changes m', c = .keyTest := by
  obtain ⟨m'', hm'', hedit⟩ := h
  obtain rfl : m' = m'' := Except.ok.inj (hm'.symm.trans hm'')
  intro c hc
  rw [← Source.changes_unplaced, hedit, Source.changes_unplaced, changes_edit] at hc
  exact List.eq_of_mem_replicate hc

theorem edit_isReadFrom_of_isReadFrom (h : m.IsReadFrom text) :
    (changes m = [] → (edit m).IsReadFrom text) ∧
      ((edit m).IsReadFrom text → ∀ c ∈ changes m, c = .keyTest) := by
  obtain ⟨m', hm', hsame⟩ := h
  refine ⟨fun hnone => ⟨m', hm', by rw [edit_of_changes_nil hnone, hsame]⟩, fun hedit => ?_⟩
  rw [← Source.changes_unplaced m, ← hsame, Source.changes_unplaced]
  exact changes_of_isReadFrom hm' hedit

theorem edit_isReadFrom_iff (hm' : Source.Module.ofString text = .ok m') (hnone : changes m' = []) :
    (edit m).IsReadFrom text ↔ (edit m').unplaced = (edit m).unplaced := by
  rw [edit_of_changes_nil hnone]
  constructor
  · rintro ⟨m'', hm'', hedit⟩
    obtain rfl : m' = m'' := Except.ok.inj (hm'.symm.trans hm'')
    exact hedit
  · exact fun hedit => ⟨m', hm', hedit⟩

end

/-- All functions and methods that get a new name, called without arguments, with what they are called then. -/
def plainCalls : List (String × String) := [
  ("unicode()", "str()"), ("raw_input()", "input()"), ("xrange()", "range()"), ("long()", "int()"),
  ("d.iteritems()", "d.items()"), ("d.iterkeys()", "d.keys()"), ("d.itervalues()", "d.values()")]

def sameCallee : Source.Expr → Source.Expr → Bool
  | .name _ a, .name _ b => a == b
  | .member _ (.name _ d) a, .member _ (.name _ e) b => d == e && a == b
  | _, _ => false

/-- Both are a plain call, of the same. -/
def sameCall (m m' : Source.Module) : Bool :=
  match m.body, m'.body with
  | [.expr _ (.call _ f [] [])], [.expr _ (.call _ g [] [])] => sameCallee f g
  | _, _ => false

theorem unplaced_of_sameCallee {f g : Source.Expr} (h : sameCallee f g = true) : f.unplaced = g.unplaced := by
  unfold sameCallee at h
  split at h
  · simp_all [Source.Expr.unplaced]
  · simp_all [Source.Expr.unplaced]
  · cases h

theorem unplaced_of_sameCall {m m' : Source.Module} (h : sameCall m m' = true) : m.unplaced = m'.unplaced := by
  unfold sameCall at h
  split at h
  · rename_i hbody hbody'
    simp [Source.Module.unplaced, hbody, hbody', Source.unplacedStmts, Source.Stmt.unplaced, Source.Expr.unplaced,
      Source.unplacedExprs, Source.unplacedKeywords, unplaced_of_sameCallee h]
  · cases h

theorem renamed_alike {call : String × String} (hcall : call ∈ plainCalls) {m : Source.Module}
    (hm : Source.Module.ofString call.1 = .ok m) :
    changes m ≠ [] ∧ (mendText call.1).1 = call.2 ∧ (edit m).IsReadFrom (mendText call.1).1 := by
  have hruns : ∀ call ∈ plainCalls, ((mendText call.1).1 == call.2 &&
      (Source.Module.ofString call.1).toOption.any fun m => !(changes m).isEmpty &&
        (Source.Module.ofString (mendText call.1).1).toOption.any (sameCall · (edit m))) = true := by decide +kernel
  have hrun := hruns call hcall
  rw [hm, Bool.and_eq_true, beq_iff_eq] at hrun
  obtain ⟨hchanges, hread⟩ := Bool.and_eq_true_iff.1 hrun.2
  obtain ⟨m', hm', hsame⟩ := exists_ok_of_any hread
  exact ⟨by simpa using hchanges, hrun.1, m', hm', unplaced_of_sameCall hsame⟩

/-- Mending a text that has a tree, against editing the tree. Where mending finds nothing its text has the tree of the
source, and the two ways agree if the edit makes no change, and only if it makes none but for tests for a key. In
general they agree only if nothing but such tests is left in the tree of the mended text; and where nothing is left
there, they agree exactly if an edit makes the same of that tree and of the source, as it does of every plain call that
both rename. Where mending finds tests for a key and nothing else, it turns round each of them with the last word before
`.has_key(`, and what stands before that word stays in front of the key. -/
theorem mended_text_against_edited_tree {source : String} {m : Source.Module}
    (hm : Source.Module.ofString source = .ok m) :
    ((mendText source).2 = [] → m.IsReadFrom (mendText source).1) ∧
    (m.IsReadFrom (mendText source).1 →
      (changes m = [] → (edit m).IsReadFrom (mendText source).1) ∧
      ((edit m).IsReadFrom (mendText source).1 → ∀ c ∈ changes m, c = .keyTest)) ∧
    (∀ m', Source.Module.ofString (mendText source).1 = .ok m' →
      ((edit m).IsReadFrom (mendText source).1 → ∀ c ∈ changes m', c = .keyTest) ∧
      (changes m' = [] → ((edit m).IsReadFrom (mendText source).1 ↔ (edit m').unplaced = (edit m).unplaced))) ∧
    (∀ call ∈ plainCalls, source = call.1 →
      changes m ≠ [] ∧ (mendText source).1 = call.2 ∧ (edit m).IsReadFrom (mendText source).1) ∧
    ∀ (tests : List KeyTest) (after : List Char), (∀ t ∈ tests, t.IsFirst) →
      occurs ".has_key(".toList after = false → source.toList = tests.flatMap KeyTest.old ++ after →
      (mendCalls (mendedPrints source)).2 = [] →
      (mendText source).1 = String.ofList (tests.flatMap KeyTest.new ++ after) := by
  refine ⟨fun hnone => ?_, edit_isReadFrom_of_isReadFrom, fun m' hm' => ?_, ?_,
    fun _ _ h hafter => mendText_of_tests h hafter⟩
  · rw [mendText_of_changes_nil hnone]
    exact ⟨m, hm, rfl⟩
  · exact ⟨changes_of_isReadFrom hm', edit_isReadFrom_iff hm'⟩
  · rintro call hcall rfl
    exact renamed_alike hcall hm

def memberTest : String := "if self.cache.has_key(k):\n    pass\n"

theorem mended_text_against_edited_tree_memberTest :
    ∃ m, Source.Module.ofString memberTest = .ok m ∧
      (∀ t ∈ [KeyTest.mk "if self.".toList "cache".toList "k".toList], t.IsFirst) ∧
      (mendCalls (mendedPrints memberTest)).2 = [] ∧ (mendText memberTest).1 = "if self.k in cache:\n    pass\n" := by
  have hread : (Source.Module.ofString memberTest).toOption.any (fun _ => true) = true := by decide +kernel
  obtain ⟨m, hm, -⟩ := exists_ok_of_any hread
  have htest : ∀ t ∈ [KeyTest.mk "if self.".toList "cache".toList "k".toList], t.IsFirst :=
    List.forall_mem_singleton.2 ⟨⟨by decide, List.all_eq_true.1 (by decide +kernel)⟩, fun c hc => by
      obtain rfl : '.' = c := Option.some.inj hc
      decide, by decide +kernel, by decide +kernel⟩
  have hcalls : (mendCalls (mendedPrints memberTest)).2 = [] := by decide +kernel
  refine ⟨m, hm, htest, hcalls, ?_⟩
  exact (mended_text_against_edited_tree hm).2.2.2.2 _ ":\n    pass\n".toList htest (by decide +kernel)
    (by decide +kernel) hcalls

/-- The mended text asks for another key in another object than the edited tree does. -/
theorem memberTest_not_read_from_mended :
    ∃ m, Source.Module.ofString memberTest = .ok m ∧ (edit m).print = .ok "if k in self.cache:\n    pass" ∧
      (mendText memberTest).1 = "if self.k in cache:\n    pass\n" ∧ ¬ (edit m).IsReadFrom (mendText memberTest).1 := by
  have hprint : ((Source.Module.ofString memberTest).toOption.any fun m =>
      decide ((edit m).print = .ok "if k in self.cache:\n    pass")) = true := by decide +kernel
  obtain ⟨m, hm, hedit⟩ := exists_ok_of_any hprint
  have hmended : (mendText memberTest).1 = "if self.k in cache:\n    pass\n" := by decide +kernel
  have hprints : ((Source.Module.ofString memberTest).toOption.map fun m => (edit m).unplaced.print.toOption) ≠
      (Source.Module.ofString "if self.k in cache:\n    pass\n").toOption.map fun m => m.unplaced.print.toOption := by
    decide +kernel
  refine ⟨m, hm, of_decide_eq_true hedit, hmended, ?_⟩
  rw [hmended]
  rintro ⟨m', hm', hsame⟩
  rw [hm, hm'] at hprints
  apply hprints
  dsimp only [Except.toOption, Option.map_some]
  rw [hsame]

end Legacy

end CodeMigration
