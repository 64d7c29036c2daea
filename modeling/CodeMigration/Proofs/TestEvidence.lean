import CodeMigration.Proofs.CoderFiles

/-! # What speaks for the changes

The tester runs a test for each change that was applied, as long as its file can be read. A change in a file that cannot
be read is noted, and has no test; but the verdict is made of the tests that ran. So changes are taken for good if the
tests of the others pass, and with no file that can be read, if none was tested. -/

namespace CodeMigration

open Act

/-- What holds at first of all that is to be done, and is kept up by each step, holds at the end of a fold. -/
theorem Act.foldlM_ends {β γ : Type} {f : β → γ → Act β} {o : Outside} (I : List γ → β → Prop)
    (step : ∀ x xs b w b' w', I (x :: xs) b → (f b x).runIn o w = (.ok b', w') → I xs b') {xs : List γ} {b b' : β}
    {w w' : World} (hb : I xs b) (h : (xs.foldlM f b).runIn o w = (.ok b', w')) : I [] b' := by
  induction xs generalizing b w with
  | nil =>
    cases h
    exact hb
  | cons x xs ih =>
    rw [List.foldlM_cons] at h
    obtain ⟨b₁, w₁, hx, hxs⟩ := runIn_bind_eq_ok.1 h
    exact ih (step x xs b w b₁ w₁ hb hx) hxs

namespace Tester

def testName (c : Change) : String := "test_" ++ c.id

def readable (d : Disk) (changes : List Change) : List Change :=
  changes.filter fun c => (Coder.readNote? d c.file).isNone

def Speaks (reports : List TestReport) (c : Change) : Prop := ∃ r ∈ reports, r.name = testName c ∧ r.passed = true

theorem testName_inj {c c' : Change} : testName c = testName c' ↔ c.id = c'.id := by
  rw [testName, testName, ← String.toList_inj, String.toList_append, String.toList_append, List.append_cancel_left_eq,
    String.toList_inj]

section
variable {s : Setup} {texts : Texts} {repo : String} {o : Outside} {w w' : World} {changes : List Change}
  {reports : List TestReport}

theorem name_of_runTest {name : String} {r : TestReport} (h : (runTest s name repo).runIn o w = (.ok r, w')) :
    r.name = name := by
  rw [runTest, runIn_bind_ok (runIn_observe o w _ _)] at h
  split at h <;>
  · cases h
    rfl

def testAll (s : Setup) (texts : Texts) (repo : String) (changes : List Change) : Act (List TestReport) :=
  forTests s.assisted texts changes fun c _ => runTest s ("test_" ++ c.id) repo

def namesIn (texts : Texts) (changes : List Change) : List String :=
  (changes.filter fun c => (texts.lookup c.file).isSome).map testName

/-- There is a report for each change whose file has a text, in the order of the changes. -/
theorem names_of_testAll (h : (testAll s texts repo changes).runIn o w = (.ok reports, w')) :
    reports.map (·.name) = namesIn texts changes := by
  -- the reports so far and the changes that are left make up the names of all tests
  have hend : reports.map (·.name) ++ namesIn texts [] = namesIn texts changes := by
    refine foldlM_ends (fun rest done => done.map (·.name) ++ namesIn texts rest = namesIn texts changes) ?_ rfl h
    intro c rest done w done' w' hdone hstep
    rw [← hdone, namesIn, namesIn, List.filter_cons]
    cases hlookup : texts.lookup c.file with
    | none =>
      rw [hlookup] at hstep
      cases hstep
      rfl
    | some content =>
      rw [hlookup] at hstep
      obtain ⟨code, w₁, -, hstep⟩ := runIn_bind_eq_ok.1 hstep
      obtain ⟨r, w₂, hr, hstep⟩ := runIn_bind_eq_ok.1 hstep
      cases hstep
      rw [List.map_append, List.map_singleton, name_of_runTest hr, List.append_assoc]
      rfl
  exact (List.append_nil _).symm.trans hend

theorem migration_of_testAll (h : (testAll s texts repo changes).runIn o w = (.ok reports, w')) :
    w'.state = w.state := by
  let P : Deed → Prop := fun d => ∀ w : World, (w.after d).state = w.state
  have hmade : MadeOf P (testAll s texts repo changes) := by
    refine forTests_madeOf _ _ _ _ (fun c content => ?_) fun c _ => runTest_madeOf (fun _ _ _ _ => rfl) ..
    exact .ite (.bind (.ask (fun _ => rfl) fun _ _ => rfl) fun _ => .pure _) (.pure _)
  have hthrough := hmade.through o w
  rw [h] at hthrough
  exact hthrough.keeps (·.state) fun d hd w => hd w

end

section
variable {s : Setup} {o : Outside} {w w' : World}

theorem namesIn_textsOn (d : Disk) (changes : List Change) :
    namesIn (Coder.textsOn d (changes.map (·.file))) changes = (readable d changes).map testName := by
  rw [namesIn, readable]
  refine congrArg _ (List.filter_congr fun c hc => ?_)
  rw [Coder.lookup_textsOn, if_pos (List.mem_map_of_mem hc), Coder.readNote?]
  cases d.readText (.ofString c.file) <;> rfl

/-- All that a run of the tester leaves in the migration: either there is nothing to test, or each change in a file that
can be read has its report, and the verdict is that of the reports. -/
theorem run_cases (h : (run s).runIn o w = (.ok (), w')) :
    w'.state.applied = w.state.applied ∧
      w'.state.errors = w.state.errors ++ (w.state.applied.map (·.file)).filterMap (Coder.readNote? w.disk) ∧
      (w.state.applied = [] ∧ w'.state.testsPassed = true ∧ w'.state.tests = w.state.tests ∨
        w.state.applied ≠ [] ∧ w'.state.testsPassed = w'.state.tests.all (·.passed) ∧
          w'.state.tests.map (·.name) = (readable w.disk w.state.applied).map testName) := by
  have hstart : Agent.tester.start.runIn o w = (.ok (), w.begun .tester) := rfl
  rw [run, runIn_bind_ok hstart, runIn_bind_ok (runIn_get o _)] at h
  dsimp only at h
  split at h
  case isTrue hnone =>
    have hnil : w.state.applied = [] := List.isEmpty_iff.1 hnone
    cases h
    exact ⟨rfl, by rw [hnil]; exact (List.append_nil _).symm, .inl ⟨hnil, rfl, rfl⟩⟩
  case isFalse hsome =>
    have hne : w.state.applied ≠ [] := fun hnil => hsome (List.isEmpty_iff.2 hnil)
    rw [runIn_bind_ok (Coder.runIn_readTexts _ o _)] at h
    obtain ⟨reports, w₁, hreports, h⟩ := runIn_bind_eq_ok.1 h
    have hkept := migration_of_testAll hreports
    rw [World.noting_eq] at hkept
    cases h
    refine ⟨congrArg (·.applied) hkept, congrArg (·.errors) hkept, .inr ⟨hne, rfl, ?_⟩⟩
    exact (names_of_testAll hreports).trans (namesIn_textsOn _ _)

/-- Whether a passed test speaks for a change, where the verdict is good, is told by the files: there is one just if the
file of a change with the same name can be read. What cannot be read is noted, and does not spoil the verdict. -/
theorem speaks_iff_of_testsPassed (h : (run s).runIn o w = (.ok (), w')) (hpassed : w'.state.testsPassed = true) :
    w'.state.applied = w.state.applied ∧
      w'.state.errors = w.state.errors ++ (w.state.applied.map (·.file)).filterMap (Coder.readNote? w.disk) ∧
      ∀ c ∈ w'.state.applied, Speaks w'.state.tests c ↔
        ∃ c' ∈ readable w.disk w.state.applied, c'.id = c.id := by
  obtain ⟨happlied, herrors, ⟨hnil, -⟩ | ⟨-, hall, hnames⟩⟩ := run_cases h
  · refine ⟨happlied, herrors, fun c hc => ?_⟩
    rw [happlied, hnil] at hc
    cases hc
  · refine ⟨happlied, herrors, fun c _ => ?_⟩
    have hpass : ∀ r ∈ w'.state.tests, r.passed = true := List.all_eq_true.1 (hall.symm.trans hpassed)
    calc Speaks w'.state.tests c
        ↔ testName c ∈ w'.state.tests.map (·.name) := by
          rw [Speaks, List.mem_map]
          exact exists_congr fun r => and_congr_right fun hr => and_iff_left (hpass r hr)
      _ ↔ testName c ∈ (readable w.disk w.state.applied).map testName := by rw [hnames]
      _ ↔ ∃ c' ∈ readable w.disk w.state.applied, c'.id = c.id := by
          rw [List.mem_map]
          exact exists_congr fun c' => and_congr_right fun _ => testName_inj

end

def change (id file : String) : Change := { (default : Change) with id, file }

/-- A migration in which some changes were applied, and there is no file but `a.py`. -/
def applying (changes : List Change) : World where
  disk := { here := .dir [("a.py", .file (Text.encode "x = 1\n"))] }
  state := { repoUrl := "", applied := changes }

/-- How it goes if they are tested here, and each test that runs passes. -/
def tested (changes : List Change) : Except Failure Unit × World := (run ⟨false, false, ""⟩).runIn {} (applying changes)

theorem speaks_iff_of_testsPassed_in_two_files :
    ∃ w', tested [change "1" "a.py", change "2" "b.py"] = (.ok (), w') ∧ w'.state.testsPassed = true ∧
      w'.state.applied = [change "1" "a.py", change "2" "b.py"] ∧
      Speaks w'.state.tests (change "1" "a.py") ∧ ¬Speaks w'.state.tests (change "2" "b.py") := by
  have hok : (tested [change "1" "a.py", change "2" "b.py"]).1.isOk = true := by decide +kernel
  have hpassed : (tested [change "1" "a.py", change "2" "b.py"]).2.state.testsPassed = true := by decide +kernel
  obtain ⟨⟨⟩, w', hrun⟩ := exists_runIn_ok hok
  rw [tested, hrun] at hpassed
  obtain ⟨happlied, -, hspeaks⟩ := speaks_iff_of_testsPassed hrun hpassed
  rw [happlied] at hspeaks
  refine ⟨w', hrun, hpassed, happlied, (hspeaks _ (by decide)).2 ?_, mt (hspeaks _ (by decide)).1 ?_⟩ <;> decide +kernel

/-- A change of a file that is not there is taken for good, though nothing was tested. -/
theorem testsPassed_of_lost_file :
    ∃ w', tested [change "c" "missing.py"] = (.ok (), w') ∧ w'.state.testsPassed = true ∧
      w'.state.applied = [change "c" "missing.py"] ∧ ¬Speaks w'.state.tests (change "c" "missing.py") := by
  have hok : (tested [change "c" "missing.py"]).1.isOk = true := by decide +kernel
  have hleft : (tested [change "c" "missing.py"]).2.state.testsPassed = true ∧
      (tested [change "c" "missing.py"]).2.state.applied = [change "c" "missing.py"] ∧
      (tested [change "c" "missing.py"]).2.state.tests = [] := by decide +kernel
  obtain ⟨⟨⟩, w', hrun⟩ := exists_runIn_ok hok
  rw [tested, hrun] at hleft
  refine ⟨w', hrun, hleft.1, hleft.2.1, ?_⟩
  rw [hleft.2.2]
  rintro ⟨r, hr, -⟩
  cases hr

end Tester

end CodeMigration
