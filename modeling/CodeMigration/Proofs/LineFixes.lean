import CodeMigration.Proofs.Deeds
import CodeMigration.Proofs.Patches

/-! # Fixes line by line

The coder without help copies the lines of a finding out of the transformed text, by their numbers. If the
transformed text has lines of these numbers, what comes out is woven of two texts: inside the findings the lines
are those of the transformed text, everywhere else those of the source. It is the transformed text only if both
texts agree outside the findings, which comments and blank lines already break. -/

namespace CodeMigration

variable {n : Nat} {fs : List Finding} {t : Transformed}

theorem Text.between_eq_drop_take {α : Type} {i j : Int} (hi : 0 ≤ i) (hij : i ≤ j) (xs : List α) :
    between i (min (xs.length : Int) j) xs = (xs.take j.toNat).drop i.toNat := by
  have htake : xs.take (placeIn xs.length (min (xs.length : Int) j)) = xs.take j.toNat := by
    rw [placeIn, if_neg (by omega), List.take_eq_take_iff]
    omega
  rw [between, htake, placeIn, if_neg (by omega), List.drop_eq_drop_iff, List.length_take]
  omega

/-- The lines of a text with the numbers of a finding, or an empty one if there are none. -/
def Finding.linesIn (f : Finding) (new : List String) : List String :=
  match (new.take f.place.endLine.toNat).drop (f.place.startLine - 1).toNat with
  | [] => [""]
  | line :: lines => line :: lines

/-- Those lines in the place of the ones with the same numbers in another text. -/
def Finding.copy (new old : List String) (f : Finding) : List String :=
  old.take (f.place.startLine - 1).toNat ++ f.linesIn new ++ old.drop f.place.endLine.toNat

def fromLast (fs : List Finding) : List Finding := fs.mergeSort fun f g => g.place.startLine ≤ f.place.startLine

theorem fromLast_inFile (fs : List Finding) (file : String) :
    fromLast (fs.map (Finding.inFile file)) = (fromLast fs).map (Finding.inFile file) := by
  refine (List.map_mergeSort ?_).symm
  exact fun _ _ _ _ => rfl

theorem lastFirst_linesFix (fs : List Finding) (t : Transformed) :
    lastFirst (fs.map (Coder.linesFix · t)) = (fromLast fs).map (Coder.linesFix · t) := by
  refine (List.map_mergeSort ?_).symm
  exact fun _ _ _ _ => rfl

def copied (fs : List Finding) (new old : List String) : List String :=
  (fromLast fs).foldl (Finding.copy new) old

section
variable {f : Finding} {t : Transformed}

theorem Text.lines_unlines_copy {source : String} :
    lines (unlines (((lines source).take f.place.endLine.toNat).drop (f.place.startLine - 1).toNat)) =
      f.linesIn (lines source) := by
  unfold Finding.linesIn
  split
  case h_1 h =>
    rw [h]
    decide
  case h_2 line more h =>
    rw [h]
    refine lines_unlines (List.cons_ne_nil line more) fun l hl => ?_
    rw [← h] at hl
    exact newline_not_mem_of_mem_lines (List.mem_of_mem_take (List.mem_of_mem_drop hl))

theorem Coder.applyTo_linesFix (h : f.place.Within n) (old : List String) :
    (linesFix f t).applyTo old = f.copy (Text.lines t.code) old := by
  have ⟨hfirst, horder, _⟩ := h
  have hmax : max 0 (f.place.startLine - 1) = f.place.startLine - 1 := by omega
  have hafter : Text.lines (linesFix f t).after = f.linesIn (Text.lines t.code) := by
    simp only [linesFix]
    rw [hmax, Text.between_eq_drop_take (by omega) (by omega), Text.lines_unlines_copy]
  rw [Change.applyTo, hafter, Text.upTo_eq_take (by simp only [linesFix]; omega),
    Text.fromOn_eq_drop (by simp only [linesFix]; omega)]
  rfl

end

theorem foldl_applyTo_linesFix (h : ∀ f ∈ fs, f.place.Within n)
    (old : List String) : (fs.map (Coder.linesFix · t)).foldl (fun lines c => c.applyTo lines) old =
      fs.foldl (Finding.copy (Text.lines t.code)) old := by
  induction fs generalizing old with
  | nil => rfl
  | cons f fs ih =>
    obtain ⟨hf, hfs⟩ := List.forall_mem_cons.1 h
    rw [List.map_cons, List.foldl_cons, List.foldl_cons, Coder.applyTo_linesFix hf, ih hfs]

theorem patch_linesFix (h : ∀ f ∈ fs, f.place.Within n) (t : Transformed)
    (source : String) : patch (fs.map (Coder.linesFix · t)) source =
      Text.unlines (copied fs (Text.lines t.code) (Text.lines source)) := by
  have hplaces : ∀ f ∈ fromLast fs, f.place.Within n := fun f hf => h f (List.mem_mergeSort.1 hf)
  rw [patch, lastFirst_linesFix, foldl_applyTo_linesFix hplaces, copied]

theorem lines_unlines_copied (fs : List Finding) (code source : String) :
    Text.lines (Text.unlines (copied fs (Text.lines code) (Text.lines source))) =
      copied fs (Text.lines code) (Text.lines source) :=
  Text.lines_unlines_foldl (fun ls f => ⟨_, _, _, by rw [Finding.copy, ← Text.lines_unlines_copy]⟩) source

namespace Coder

def treeFixes (kind : MigrationKind) (texts : Texts) : List Finding → Except Failure (List Change)
  | [] => .ok []
  | f :: fs =>
    match texts.lookup f.place.file with
    | some content => do
      let c ← treeFix kind f content
      return c :: (← treeFixes kind texts fs)
    | none => treeFixes kind texts fs

section
variable {assisted : Bool} {kind : MigrationKind} {style : String} {texts : Texts} {f : Finding} {fs : List Finding}

theorem foldlM_addFix (done : List Change) : fs.foldlM (addFix assisted kind style texts) done =
    (done ++ ·) <$> fixes assisted kind style texts fs := by
  induction fs generalizing done with
  | nil => simp [fixes]
  | cons f fs ih =>
    rw [fixes, List.foldlM_cons, List.foldlM_cons, addFix, addFix]
    cases texts.lookup f.place.file <;> simp [ih]

theorem fixes_cons_none (h : texts.lookup f.place.file = none) :
    fixes assisted kind style texts (f :: fs) = fixes assisted kind style texts fs := by
  rw [fixes, List.foldlM_cons, addFix, h, pure_bind, fixes]

theorem fixes_cons_some {content : String} (h : texts.lookup f.place.file = some content) :
    fixes assisted kind style texts (f :: fs) = (do
      let c ← fix assisted kind style f content
      (c :: ·) <$> fixes assisted kind style texts fs) := by
  rw [fixes, List.foldlM_cons, addFix, h]
  simp [foldlM_addFix]

end

theorem runIn_fixes (kind : MigrationKind) (style : String) (texts : Texts) (fs : List Finding) (o : Outside)
    (w : World) : (fixes false kind style texts fs).runIn o w = (treeFixes kind texts fs, w) := by
  induction fs with
  | nil => rfl
  | cons f fs ih =>
    rw [treeFixes]
    cases hf : texts.lookup f.place.file with
    | none => rw [fixes_cons_none hf, ih]
    | some content =>
      have hfix : (fix false kind style f content).runIn o w = (treeFix kind f content, w) := rfl
      rw [fixes_cons_some hf]
      dsimp only
      cases hc : treeFix kind f content with
      | error fault =>
        rw [Act.runIn_bind_error (hfix.trans (by rw [hc]))]
        rfl
      | ok c =>
        rw [Act.runIn_bind_ok (hfix.trans (by rw [hc])), Act.runIn_map, ih]
        cases treeFixes kind texts fs <;> rfl

section
variable {kind : MigrationKind} {texts : Texts} {file source : String} {fs : List Finding}

theorem treeFixes_of_transformed (hsource : texts.lookup file = some source)
    (ht : transform kind source = .ok t) (hfile : ∀ f ∈ fs, f.place.file = file)
    (hlines : ∀ f ∈ fs, isWholeFile f = false) : treeFixes kind texts fs = .ok (fs.map (linesFix · t)) := by
  induction fs with
  | nil => rfl
  | cons f fs ih =>
    rw [treeFixes, hfile f List.mem_cons_self, hsource,
      ih (fun g hg => hfile g (List.mem_cons_of_mem _ hg)) fun g hg => hlines g (List.mem_cons_of_mem _ hg)]
    simp only [treeFix, ht, hlines f List.mem_cons_self]
    rfl

theorem treeFixes_of_failed {fault : Failure} (hsource : texts.lookup file = some source)
    (ht : transform kind source = .error fault) (hfile : ∀ f ∈ fs, f.place.file = file) (hfs : fs ≠ []) :
    treeFixes kind texts fs = .error fault := by
  cases fs with
  | nil => exact absurd rfl hfs
  | cons f fs =>
    rw [treeFixes, hfile f List.mem_cons_self, hsource]
    simp only [treeFix, ht]
    rfl

end

end Coder

/-- The lines of one text where none of the findings is and those of another, or empty ones if it has no more,
where one is. -/
def woven (fs : List Finding) (new old : List String) : List String :=
  old.mapIdx fun i line => if fs.any (·.place.covers i) then new.getD i "" else line

section
variable {fs : List Finding} {new old : List String}

theorem length_woven : (woven fs new old).length = old.length := List.length_mapIdx

theorem getElem?_woven {i : Nat} (hi : i < old.length) :
    (woven fs new old)[i]? = if fs.any (·.place.covers i) then some (new.getD i "") else old[i]? := by
  rw [woven, List.getElem?_mapIdx, List.getElem?_eq_getElem hi, Option.map_some]
  split <;> rfl

/-- What is woven is the old text exactly if the lines of the findings are the same in both. -/
theorem woven_eq_old_iff : woven fs new old = old ↔
    ∀ i < old.length, fs.any (·.place.covers i) = true → old[i]? = some (new.getD i "") := by
  constructor
  · intro h i hi hcovers
    rw [← h, getElem?_woven hi, if_pos hcovers]
  · intro h
    apply List.ext_getElem?
    intro i
    by_cases hi : i < old.length
    · rw [getElem?_woven hi]
      split
      case isTrue hcovers => exact (h i hi hcovers).symm
      case isFalse => rfl
    · rw [List.getElem?_eq_none (by rw [length_woven]; omega), List.getElem?_eq_none (by omega)]

/-- What is woven is the new text, with a line end, exactly if the old one has its layout. -/
theorem woven_eq_new_iff : woven fs new old = new ++ [""] ↔
    old.length = new.length + 1 ∧
      ∀ i, fs.any (·.place.covers i) = false → old[i]? = (new ++ [""])[i]? := by
  constructor
  · intro h
    have hlength : old.length = new.length + 1 := by
      rw [← length_woven, h, List.length_append, List.length_singleton]
    refine ⟨hlength, fun i hi => ?_⟩
    by_cases hold : i < old.length
    · rw [← h, getElem?_woven hold, if_neg (by rw [hi]; exact Bool.false_ne_true)]
    · rw [List.getElem?_eq_none (by omega),
        List.getElem?_eq_none (by rw [List.length_append, List.length_singleton]; omega)]
  · rintro ⟨hlength, h⟩
    apply List.ext_getElem?
    intro i
    by_cases hold : i < old.length
    · rw [getElem?_woven hold]
      split
      case isTrue =>
        rw [List.getElem?_append, List.getD_eq_getElem?_getD]
        split
        case isTrue hnew => rw [List.getElem?_eq_getElem hnew, Option.getD_some]
        case isFalse hnew =>
          have hi : i - new.length = 0 := by omega
          rw [List.getElem?_eq_none (by omega), hi]
          rfl
      case isFalse hi => exact h i (by simpa using hi)
    · rw [List.getElem?_eq_none (by rw [length_woven]; omega),
        List.getElem?_eq_none (by rw [List.length_append, List.length_singleton]; omega)]

end

/-- The transformed text has the last line of a finding, unless this is its only one. -/
def Finding.EndsIn (f : Finding) (new : List String) : Prop :=
  f.place.startLine < f.place.endLine → f.place.endLine ≤ new.length

instance (f : Finding) (new : List String) : Decidable (f.EndsIn new) :=
  inferInstanceAs (Decidable (f.place.startLine < f.place.endLine → f.place.endLine ≤ new.length))

section
variable {f : Finding} {fs : List Finding} {new old : List String} {n i : Nat}

theorem linesIn_eq (h : f.place.Within n) (hend : f.EndsIn new) : (f.linesIn new).length =
      f.place.endLine.toNat - (f.place.startLine - 1).toNat ∧
    ∀ i < f.place.endLine.toNat - (f.place.startLine - 1).toNat,
      (f.linesIn new)[i]? = some (new.getD ((f.place.startLine - 1).toNat + i) "") := by
  have ⟨hfirst, horder, _⟩ := h
  by_cases hnew : f.place.endLine ≤ new.length
  · have hlength : ((new.take f.place.endLine.toNat).drop (f.place.startLine - 1).toNat).length =
        f.place.endLine.toNat - (f.place.startLine - 1).toNat := by
      rw [List.length_drop, List.length_take_of_le (by omega)]
    have heq : f.linesIn new = (new.take f.place.endLine.toNat).drop (f.place.startLine - 1).toNat := by
      unfold Finding.linesIn
      split
      case h_1 hnil =>
        rw [hnil, List.length_nil] at hlength
        omega
      case h_2 hcons => exact hcons.symm
    rw [heq]
    refine ⟨hlength, fun i hi => ?_⟩
    rw [List.getElem?_drop, List.getElem?_take_of_lt (by omega), List.getD_eq_getElem?_getD,
      List.getElem?_eq_getElem (by omega), Option.getD_some]
  · -- A single line behind the end of the transformed text.
    have hone : f.place.startLine = f.place.endLine := by
      rw [Finding.EndsIn] at hend
      omega
    have hnil : (new.take f.place.endLine.toNat).drop (f.place.startLine - 1).toNat = [] := by
      apply List.drop_eq_nil_of_le
      rw [List.length_take]
      omega
    have heq : f.linesIn new = [""] := by
      rw [Finding.linesIn, hnil]
    have hbeyond : new[(f.place.startLine - 1).toNat + 0]? = none := List.getElem?_eq_none (by omega)
    rw [heq]
    refine ⟨by rw [List.length_singleton]; omega, fun i hi => ?_⟩
    obtain rfl : i = 0 := by omega
    rw [List.getD_eq_getElem?_getD, hbeyond]
    rfl

theorem length_copy (h : f.place.Within n) (hend : f.EndsIn new) (hold : old.length = n) :
    (f.copy new old).length = n := by
  have ⟨hfirst, horder, hlast⟩ := h
  rw [Finding.copy, List.length_append, List.length_append, (linesIn_eq h hend).1, List.length_take,
    List.length_drop]
  omega

theorem getElem?_copy (h : f.place.Within n) (hend : f.EndsIn new) (hold : old.length = n) (i : Nat) :
    (f.copy new old)[i]? = if f.place.covers i then some (new.getD i "") else old[i]? := by
  have ⟨hfirst, horder, hlast⟩ := h
  obtain ⟨hlength, hget⟩ := linesIn_eq h hend
  rw [Finding.copy, getElem?_take_append_drop (by omega) (by omega) hlength]
  split
  case isTrue hi => rw [if_pos ((h.covers_iff i).2 hi), hget _ (by omega), Nat.add_sub_of_le hi.1]
  case isFalse hi => rw [if_neg (mt (h.covers_iff i).1 hi)]

/-- After copies in any order, the lines that a finding covers are those of the new text, the others as before. -/
theorem foldl_copy (h : ∀ f ∈ fs, f.place.Within n) (hend : ∀ f ∈ fs, f.EndsIn new) (hold : old.length = n) :
    (fs.foldl (Finding.copy new) old).length = n ∧ ∀ i, (fs.foldl (Finding.copy new) old)[i]? =
      if fs.any (·.place.covers i) then some (new.getD i "") else old[i]? := by
  induction fs generalizing old with
  | nil => exact ⟨hold, fun i => rfl⟩
  | cons f fs ih =>
    obtain ⟨hf, hfs⟩ := List.forall_mem_cons.1 h
    obtain ⟨hendf, hendfs⟩ := List.forall_mem_cons.1 hend
    obtain ⟨hlength, hget⟩ := ih hfs hendfs (length_copy hf hendf hold)
    refine ⟨hlength, fun i => ?_⟩
    rw [List.foldl_cons, hget, getElem?_copy hf hendf hold, List.any_cons]
    cases f.place.covers i <;> cases fs.any (·.place.covers i) <;> rfl

theorem copied_eq_woven (h : ∀ f ∈ fs, f.place.Within old.length) (hend : ∀ f ∈ fs, f.EndsIn new) :
    copied fs new old = woven fs new old := by
  have hany (i : Nat) : (fromLast fs).any (·.place.covers i) = fs.any (·.place.covers i) :=
    (List.mergeSort_perm fs _).any_eq
  have hplaces : ∀ f ∈ fromLast fs, f.place.Within old.length := fun f hf => h f (List.mem_mergeSort.1 hf)
  have hends : ∀ f ∈ fromLast fs, f.EndsIn new := fun f hf => hend f (List.mem_mergeSort.1 hf)
  obtain ⟨hlength, hget⟩ := foldl_copy hplaces hends rfl
  apply List.ext_getElem?
  intro i
  by_cases hi : i < old.length
  · rw [copied, hget, hany, getElem?_woven hi]
  · rw [List.getElem?_eq_none (by rw [copied]; omega), List.getElem?_eq_none (by rw [length_woven]; omega)]

end

theorem Coder.not_isWholeFile_of_use {f : Finding} {u : Legacy.Use} (h : f.kind = u.kind) :
    isWholeFile f = false := by
  rw [isWholeFile, h]
  cases u with
  | function f => cases f <;> decide
  | method m => cases m <;> decide
  | importModule name successor | importFrom name successor => rfl
  | division | exceptComma => decide

theorem copied_inFile {file : String} {new old : List String} :
    copied (fs.map (Finding.inFile file)) new old = copied fs new old := by
  rw [copied, fromLast_inFile, List.foldl_map]
  rfl

/-- The fixes of the findings in a module copy lines out of the transformed text by their numbers, and nothing
else. With lines enough there to copy, the text that comes out is woven of two, and is one of them only if the
other agrees with it on all the lines that it gives. -/
theorem fixes_copy_by_line_number {source : String} (hreturn : '\r' ∉ source.toList) {m : Source.Module}
    (hm : Source.Module.ofString source = .ok m) (file style : String) (o : Outside) (w : World) :
    ∃ fs, analyze .legacy source = .ok fs ∧ (∀ f ∈ fs, f.place.Within (Text.lines source).length) ∧
      (∀ failure, transform .legacy source = .error failure →
        (Coder.fixes false .legacy style [(file, source)] (fs.map (Finding.inFile file))).runIn o w =
          (if fs.isEmpty then .ok [] else .error failure, w)) ∧
      ∀ t, transform .legacy source = .ok t → ∃ changes text,
        (Coder.fixes false .legacy style [(file, source)] (fs.map (Finding.inFile file))).runIn o w =
          (.ok changes, w) ∧
        applyChanges changes [(file, source)] = [(file, text)] ∧
        text = Text.unlines (copied fs (Text.lines t.code) (Text.lines source)) ∧
        ((∀ f ∈ fs, f.EndsIn (Text.lines t.code)) →
          text = Text.unlines (woven fs (Text.lines t.code) (Text.lines source)) ∧
          (text = source ↔ ∀ i < (Text.lines source).length, fs.any (·.place.covers i) = true →
            (Text.lines source)[i]? = some ((Text.lines t.code).getD i "")) ∧
          (text = t.code ++ "\n" ↔ (Text.lines source).length = (Text.lines t.code).length + 1 ∧
            ∀ i, fs.any (·.place.covers i) = false →
              (Text.lines source)[i]? = (Text.lines t.code ++ [""])[i]?)) := by
  obtain ⟨fs, hfs, hfound⟩ := Legacy.exists_analyze hreturn hm
  have hwithin : ∀ f ∈ fs, f.place.Within (Text.lines source).length := fun f hf => (hfound f hf).1
  have hfile : ∀ f ∈ fs.map (Finding.inFile file), f.place.file = file := by
    intro f hf
    obtain ⟨g, -, rfl⟩ := List.mem_map.1 hf
    rfl
  have hlines : ∀ f ∈ fs.map (Finding.inFile file), Coder.isWholeFile f = false := by
    intro f hf
    obtain ⟨g, hg, rfl⟩ := List.mem_map.1 hf
    obtain ⟨u, hu⟩ := (hfound g hg).2
    exact Coder.not_isWholeFile_of_use hu
  have hlookup : ([(file, source)] : Texts).lookup file = some source := by
    rw [List.lookup_cons_self]
  refine ⟨fs, hfs, hwithin, fun failure hfailure => ?_, fun t ht => ?_⟩
  · rw [Coder.runIn_fixes]
    cases fs with
    | nil => rfl
    | cons f fs => rw [Coder.treeFixes_of_failed hlookup hfailure hfile (List.cons_ne_nil _ _)]; rfl
  · have hplace : ∀ f ∈ fs.map (Finding.inFile file), f.place.Within (Text.lines source).length := by
      intro f hf
      obtain ⟨g, hg, rfl⟩ := List.mem_map.1 hf
      exact ⟨(hwithin g hg).first, (hwithin g hg).order, (hwithin g hg).last⟩
    have hchanged : ∀ c ∈ (fs.map (Finding.inFile file)).map (Coder.linesFix · t), c.file = file := by
      intro c hc
      obtain ⟨f, hf, rfl⟩ := List.mem_map.1 hc
      exact hfile f hf
    refine ⟨(fs.map (Finding.inFile file)).map (Coder.linesFix · t),
      Text.unlines (copied fs (Text.lines t.code) (Text.lines source)), ?_, ?_, rfl, fun hend => ?_⟩
    · rw [Coder.runIn_fixes, Coder.treeFixes_of_transformed hlookup ht hfile hlines]
    · rw [applyChanges_one hchanged, patch_linesFix hplace, copied_inFile]
    · refine ⟨by rw [copied_eq_woven hwithin hend], ?_, ?_⟩
      · rw [← Text.lines_inj, lines_unlines_copied, copied_eq_woven hwithin hend, woven_eq_old_iff]
      · rw [← Text.lines_inj, lines_unlines_copied, copied_eq_woven hwithin hend, Text.lines_append_newline,
          woven_eq_new_iff]

/-- A call over two lines, which are one after the transformation. -/
def wrappedCall : String := "import Queue\nfor k in xrange(\n        3):\n    print(k)\n"

/-- The line behind the call is copied too, and then stands there twice. -/
theorem fixes_copy_by_line_number_wrapped_call :
    '\r' ∉ wrappedCall.toList ∧ (∃ m, Source.Module.ofString wrappedCall = .ok m) ∧
      ∀ o w, ∃ fs changes, analyze .legacy wrappedCall = .ok fs ∧
        (Coder.fixes false .legacy "" [("a.py", wrappedCall)] (fs.map (Finding.inFile "a.py"))).runIn o w =
          (.ok changes, w) ∧
        applyChanges changes [("a.py", wrappedCall)] =
          [("a.py", "import queue as Queue\nfor k in range(3):\n    print(k)\n    print(k)\n")] := by
  have hreturn : '\r' ∉ wrappedCall.toList := by decide
  have hwoven : ((analyze .legacy wrappedCall).toOption.any fun fs => (transform .legacy wrappedCall).toOption.any fun t =>
      decide (∀ f ∈ fs, f.EndsIn (Text.lines t.code)) &&
        Text.unlines (woven fs (Text.lines t.code) (Text.lines wrappedCall)) ==
          "import queue as Queue\nfor k in range(3):\n    print(k)\n    print(k)\n") = true := by decide +kernel
  have hok : (Source.Module.ofString wrappedCall).isOk = true := by decide +kernel
  obtain ⟨m, hm⟩ : ∃ m, Source.Module.ofString wrappedCall = .ok m := by
    cases hm : Source.Module.ofString wrappedCall with
    | error fault =>
      rw [hm] at hok
      cases hok
    | ok m => exact ⟨m, rfl⟩
  refine ⟨hreturn, ⟨m, hm⟩, fun o w => ?_⟩
  obtain ⟨fs, hfs, -, -, hfixed⟩ := fixes_copy_by_line_number hreturn hm "a.py" "" o w
  rw [hfs] at hwoven
  cases ht : transform .legacy wrappedCall with
  | error failure =>
    rw [ht] at hwoven
    cases hwoven
  | ok t =>
    rw [ht] at hwoven
    obtain ⟨hend, htext⟩ := Bool.and_eq_true_iff.1 hwoven
    obtain ⟨changes, text, hrun, happly, -, hkept⟩ := hfixed t ht
    refine ⟨fs, changes, hfs, hrun, ?_⟩
    rw [happly, (hkept (of_decide_eq_true hend)).1, beq_iff_eq.1 htext]

/-- A module with a comment, which the transformed text does not have. -/
def commented : String := "def f():\n    # comment\n    return xrange(3)\n"

/-- The last statement is now beyond the end of the transformed text, and what comes out is no module. -/
theorem commented_fixed_to_no_module :
    (Source.Module.ofString commented).isOk = true ∧
      (∀ o w, ∃ fs changes, analyze .legacy commented = .ok fs ∧
        (Coder.fixes false .legacy "" [("a.py", commented)] (fs.map (Finding.inFile "a.py"))).runIn o w =
          (.ok changes, w) ∧
        applyChanges changes [("a.py", commented)] = [("a.py", "def f():\n    # comment\n\n")]) ∧
      (Source.Module.ofString "def f():\n    # comment\n\n").isOk = false := by
  refine ⟨by decide +kernel, fun o w => ?_, by decide +kernel⟩
  have hfixed : ((analyze .legacy commented).toOption.any fun fs =>
      (Coder.treeFixes .legacy [("a.py", commented)] (fs.map (Finding.inFile "a.py"))).toOption.any fun changes =>
        applyChanges changes [("a.py", commented)] == [("a.py", "def f():\n    # comment\n\n")]) = true := by
    decide +kernel
  cases hfs : analyze .legacy commented with
  | error failure =>
    rw [hfs] at hfixed
    cases hfixed
  | ok fs =>
    rw [hfs] at hfixed
    change (Coder.treeFixes .legacy [("a.py", commented)] (fs.map (Finding.inFile "a.py"))).toOption.any _ = true at hfixed
    cases hchanges : Coder.treeFixes .legacy [("a.py", commented)] (fs.map (Finding.inFile "a.py")) with
    | error failure =>
      rw [hchanges] at hfixed
      cases hfixed
    | ok changes =>
      rw [hchanges] at hfixed
      refine ⟨fs, changes, rfl, ?_, beq_iff_eq.1 hfixed⟩
      rw [Coder.runIn_fixes, hchanges]

end CodeMigration
