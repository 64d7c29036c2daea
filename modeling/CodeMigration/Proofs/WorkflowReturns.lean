import CodeMigration.Proofs.FileByFile
import CodeMigration.Proofs.TransformableTexts
import CodeMigration.Proofs.WorkflowVerdict

/-! # Runs that return

Without the assistant every node but the coder copes with whatever it meets: cloning and publishing note what fails, the
planner passes over a file that it cannot analyse, and the tester reports a test that does not run. The coder alone lets
a failure through, that of a text which it cannot transform. So a run returns exactly if no such text is among those in
which something was found. -/

namespace CodeMigration

open Act

theorem Act.Returns.attempt {α : Type} (t : Act α) : Returns (Act.attempt t) :=
  fun o w => ⟨_, _, runIn_attempt o w t⟩

theorem Act.foldlM_runIn {β γ : Type} {f : β → γ → Act β} {P : β → Prop} {o : Outside}
    (step : ∀ b x w, P b → ∃ b' w', (f b x).runIn o w = (.ok b', w') ∧ P b') (xs : List γ) (b : β) (w : World)
    (hb : P b) : ∃ b' w', (xs.foldlM f b).runIn o w = (.ok b', w') ∧ P b' := by
  induction xs generalizing b w with
  | nil => exact ⟨b, w, rfl, hb⟩
  | cons x xs ih =>
    obtain ⟨b₁, w₁, hrun, hb₁⟩ := step b x w hb
    rw [List.foldlM_cons, runIn_bind_ok hrun]
    exact ih b₁ w₁ hb₁

/-- Every test runs to its end and passes. -/
def Outside.TestsPass (o : Outside) : Prop := ∀ log, ∃ stdout stderr, o.testRun log = .done 0 stdout stderr

namespace Tester

theorem runTest_runIn (s : Setup) (name repo : String) (o : Outside) (w : World) :
    ∃ report w', (runTest s name repo).runIn o w = (.ok report, w') ∧ (o.TestsPass → report.passed = true) := by
  rw [runTest, runIn_bind_ok (runIn_observe o w _ _)]
  split
  all_goals
    rename_i hrun
    refine ⟨_, _, rfl, fun hpass => ?_⟩
    obtain ⟨stdout, stderr, hdone⟩ := hpass _
    cases hrun.symm.trans hdone
  rfl

theorem forTests_runIn (s : Setup) (repo : String) (texts : Texts) (changes : List Change) (o : Outside) (w : World) :
    ∃ reports w', (forTests false texts changes fun c _ => runTest s ("test_" ++ c.id) repo).runIn o w =
      (.ok reports, w') ∧ (o.TestsPass → ∀ r ∈ reports, r.passed = true) := by
  refine foldlM_runIn (P := fun reports : List TestReport => o.TestsPass → ∀ r ∈ reports, r.passed = true) ?_ changes [] w
    fun _ => List.forall_mem_nil _
  intro done c w hdone
  cases texts.lookup c.file with
  | none => exact ⟨done, w, rfl, hdone⟩
  | some content =>
    obtain ⟨report, w', hrun, hpassed⟩ := runTest_runIn s ("test_" ++ c.id) repo o w
    refine ⟨done ++ [report], w', ?_, fun hpass => ?_⟩
    · exact runIn_bind_ok hrun _
    · exact List.forall_mem_append.2 ⟨hdone hpass, List.forall_mem_singleton.2 (hpassed hpass)⟩

/-- Without the assistant the tester always comes to its end, and tests that pass are told so. -/
theorem run_runIn {s : Setup} (hs : s.assisted = false) (o : Outside) (w : World) :
    ∃ w', (run s).runIn o w = (.ok (), w') ∧ (o.TestsPass → w'.state.testsPassed = true) := by
  have hstart : Agent.tester.start.runIn o w = (.ok (), w.begun .tester) := rfl
  rw [run, runIn_bind_ok hstart, runIn_bind_ok (runIn_get o _)]
  dsimp only
  split
  · exact ⟨_, rfl, fun _ => rfl⟩
  · rw [runIn_bind_ok (Coder.runIn_readTexts _ o _), hs]
    obtain ⟨reports, w₁, hrun, hpassed⟩ := forTests_runIn s _ _ _ o _
    rw [runIn_bind_ok hrun, runIn_bind_ok (runIn_updateMigration o w₁ _)]
    exact ⟨_, rfl, fun hpass => List.all_eq_true.2 (hpassed hpass)⟩

end Tester

namespace Workflow

variable {c : Crew} {o : Outside} {w s : World} {n : Node}

/-- A crew none of whose agents has the help of the assistant. -/
structure Crew.IsAlone (c : Crew) : Prop where
  planner : c.plannerAssisted = false
  coder : c.coderAssisted = false
  tester : c.testerAssisted = false

theorem createPull_returns (c : Crew) : Returns (createPull c) := by
  refine .ite (.perform (.said _ _)) (.bind (.perform (.moved .review)) fun _ => .bind (.perform (.said _ _)) fun _ => ?_)
  refine .look fun w => .bind (.attempt _) fun r => ?_
  cases r with
  | error f => exact .perform (.erred _)
  | ok url => exact .perform (.said _ _)

theorem act_tester_runIn (hc : c.IsAlone) {w : World} (hw : w.state.status ≠ .failed) :
    ∃ a, (Node.tester.act c).runIn o w = (.ok (), a) ∧ (o.TestsPass → a.state.testsPassed = true) := by
  rw [Node.act, test_runIn c o _ hw]
  exact Tester.run_runIn hc.tester o _

theorem act_eq_ok (hc : c.IsAlone) (hn : n ≠ .coder) (w : World) : ((n.act c).runIn o w).1 = .ok () := by
  cases n with
  | coder => exact absurd rfl hn
  | clone =>
    rw [Node.act, clone_runIn]
    rcases (cloneSources c).runIn o (cloning w) with ⟨f | ⟨⟩, a⟩ <;> rfl
  | planner =>
    by_cases hw : w.state.status = .failed
    · rw [act_failed c o rfl hw]
    · obtain ⟨w', hrun, -⟩ := Planner.run_unassisted o w
      rw [Node.act, plan, unlessFailed_runs o _ _ hw, hc.planner, hrun]
  | tester =>
    by_cases hw : w.state.status = .failed
    · rw [act_failed c o rfl hw]
    · obtain ⟨a, hrun, -⟩ := @act_tester_runIn c o hc w hw
      rw [hrun]
  | createPull =>
    obtain ⟨⟨⟩, w', hrun⟩ := createPull_returns c o w
    rw [Node.act, hrun]
  | finalize =>
    rw [Node.act, finalize_runIn]
    split <;> rfl

theorem act_coder_eq_ok_iff (hc : c.IsAlone) (w : World) :
    ((Node.coder.act c).runIn o w).1 = .ok () ↔ (w.state.status ≠ .failed →
      ∀ f ∈ w.state.findings, ∀ text, w.disk.readText (.ofString f.place.file) = .ok text →
        IsTransformable w.state.kind text) := by
  by_cases hw : w.state.status = .failed
  · rw [act_failed c o rfl hw]
    exact iff_of_true rfl fun h => absurd hw h
  · have hok := Coder.run_ok_iff w c.client o
    simp only [exists_transform_iff] at hok
    rw [Node.act, code, unlessFailed_runs o _ _ hw, hc.coder, forall_prop_of_true hw]
    refine Iff.trans ?_ hok
    rcases (Coder.run false c.client).runIn o w with ⟨f | ⟨⟩, a⟩ <;> simp

theorem kind_of_enter {a : World} {r : Except Failure Unit} (run : (n.enter c).runIn o w = (r, a)) :
    a.state.kind = w.state.kind := by
  obtain ⟨s, hs, h⟩ := enter_through run
  rw [← hs]
  refine h.keeps (·.state.kind) fun d hd w => ?_
  cases d with
  | replaced m => exact absurd trivial (n.not_ofNone_of_allows hd)
  | _ => rfl

theorem decided_kind (w : World) : (decided w).state.kind = w.state.kind := by
  unfold decided
  split <;> rfl

theorem Reached.kind (h : Reached c o w n s) : s.state.kind = w.state.kind := by
  induction h with
  | start => rfl
  | @step n next s a s' before run edge ih =>
    obtain ⟨-, rfl⟩ := leave_eq_some edge
    split
    · rw [decided_kind, kind_of_enter run, ih]
    · rw [kind_of_enter run, ih]

theorem runGraph_eq_ok_iff (hc : c.IsAlone) (free : ∀ log, o.stepFault log = none) (w : World) :
    ((runGraph c).runIn o w).1 = .ok () ↔ ∀ s, Reached c o w .coder s → s.state.status ≠ .failed →
      ∀ f ∈ s.state.findings, ∀ text, s.disk.readText (.ofString f.place.file) = .ok text →
        IsTransformable w.state.kind text := by
  constructor
  · intro hok s hs
    have henter := enter_eq_ok_of_runGraph (by rw [hok]; rfl) .coder s hs
    rw [enter_runIn (free _), act_coder_eq_ok_iff hc] at henter
    have hkind := hs.kind
    exact hkind ▸ henter
  · intro hall
    obtain ⟨vs, hvs⟩ := runGraph_walk c o w
    refine hvs.eq_ok .start fun n s hs => ?_
    rw [enter_runIn (free _)]
    by_cases hn : n = .coder
    · subst hn
      have hcoder := hall s hs
      rw [← hs.kind] at hcoder
      exact (act_coder_eq_ok_iff hc _).2 hcoder
    · exact act_eq_ok hc hn _

theorem handBack_returns (calm : o.engine.fault = none) (w : World) : ∃ w', handBack.runIn o w = (.ok (), w') := by
  have hfault (w : World) : (failWith o.engine.fault).runIn o w = (.ok (), w) := by
    rw [calm]
    rfl
  rw [handBack, runIn_bind_ok (runIn_read o w)]
  exact ⟨_, (runIn_bind_ok rfl _).trans (runIn_bind_ok (hfault _) _)⟩

theorem exists_run_iff {repoUrl kindName : String} {kind : MigrationKind}
    (named : MigrationKind.ofName kindName = .ok kind) (calm : o.engine.fault = none) :
    (∃ r w', (run c repoUrl kindName).runIn o w = (.ok r, w')) ↔
      ((runGraph c).runIn o (w.after (.replaced { repoUrl, kind }))).1 = .ok () := by
  have hkind : (result (MigrationKind.ofName kindName)).runIn o w = (.ok kind, w) := by
    rw [named]
    rfl
  have hreplaced : (w.after (.replaced { repoUrl, kind })) = { w with state := { repoUrl, kind } } := rfl
  rw [run, runIn_bind_ok hkind, runIn_bind_ok (runIn_updateMigration o w _), hreplaced]
  rcases hgraph : (runGraph c).runIn o { w with state := { repoUrl, kind } } with ⟨failure | ⟨⟩, g⟩
  · rw [runIn_bind_error hgraph]
    refine iff_of_false ?_ fun hfails => ?_
    · rintro ⟨r, w', hreturns⟩
      cases (Prod.mk.inj hreturns).1
    · have hfails : Except.error failure = .ok () := hfails
      cases hfails
  · obtain ⟨w', hback⟩ := handBack_returns calm g
    rw [runIn_bind_ok hgraph, runIn_bind_ok hback]
    exact iff_of_true ⟨_, _, rfl⟩ rfl

theorem Node.next?_ne_clone (n : Node) (w : World) : n.next? w ≠ some .clone := by
  intro h
  cases n with
  | tester =>
    rw [Node.next?] at h
    cases hd : decision w.state <;> rw [hd] at h <;> cases h
  | _ => cases h

theorem Node.eq_clone_of_next? (h : n.next? w = some .planner) : n = .clone := by
  cases n with
  | clone => rfl
  | tester =>
    rw [Node.next?] at h
    cases hd : decision w.state <;> rw [hd] at h <;> cases h
  | _ => cases h

theorem Node.of_next?_eq_coder (h : n.next? w = some .coder) :
    n = .planner ∨ n = .tester ∧ decision w.state = .retry := by
  cases n with
  | planner => exact .inl rfl
  | tester =>
    refine .inr ⟨rfl, ?_⟩
    rw [Node.next?] at h
    cases hd : decision w.state with
    | retry => rfl
    | createPull | fail => rw [hd] at h; cases h
  | _ => cases h

theorem Reached.of_clone (h : Reached c o w .clone s) : s = w := by
  cases h with
  | start => rfl
  | @step n next t a s' before run edge => exact absurd (leave_eq_some edge).1 (n.next?_ne_clone a)

theorem Reached.of_planner (h : Reached c o w .planner s) : (Node.clone.enter c).runIn o w = (.ok (), s) := by
  cases h with
  | @step n next t a s' before run edge =>
    obtain ⟨hnext, rfl⟩ := leave_eq_some edge
    obtain rfl := Node.eq_clone_of_next? hnext
    rwa [before.of_clone] at run

theorem Reached.of_coder (hc : c.IsAlone) (hpass : o.TestsPass) (h : Reached c o w .coder s) :
    ∃ w₁, (Node.clone.enter c).runIn o w = (.ok (), w₁) ∧ (Node.planner.enter c).runIn o w₁ = (.ok (), s) := by
  cases h with
  | @step n next t a s' before run edge =>
    obtain ⟨hnext, rfl⟩ := leave_eq_some edge
    rcases Node.of_next?_eq_coder hnext with rfl | ⟨rfl, hd⟩
    · exact ⟨t, before.of_planner, run⟩
    · obtain ⟨hs, hfalse, -⟩ := (decision_eq_retry_iff _).1 hd
      have ht : t.state.status ≠ .failed := by
        intro ht
        obtain rfl := of_enter_failed (n := .tester) rfl ht run
        exact hs ht
      obtain ⟨b, hrun, htrue⟩ := @act_tester_runIn c o hc (t.after (.event (.entered Node.tester.name))) ht
      obtain ⟨-, rfl⟩ := Prod.mk.inj ((act_of_enter run).symm.trans hrun)
      rw [htrue hpass] at hfalse
      cases hfalse

theorem act_planner_runIn (hc : c.IsAlone) {w : World} (hw : w.state.status ≠ .failed) :
    ∃ s, (Node.planner.act c).runIn o (w.after (.event (.entered Node.planner.name))) = (.ok (), s) ∧
      s.disk = w.disk ∧ s.state.status ≠ .failed ∧ s.state.findings = Planner.found w := by
  have hw' : (w.after (.event (.entered Node.planner.name))).state.status ≠ .failed := hw
  obtain ⟨s, hrun, hdisk, -, -, hfindings, -⟩ :=
    Planner.run_unassisted o (w.after (.event (.entered Node.planner.name)))
  have hact : (Node.planner.act c).runIn o (w.after (.event (.entered Node.planner.name))) = (.ok (), s) := by
    rw [Node.act, plan, unlessFailed_runs o _ _ hw', hc.planner, hrun]
  have hstatus := act_status c o (n := .planner) rfl hw'
  rw [hact] at hstatus
  refine ⟨s, hact, hdisk, ?_, hfindings⟩
  rw [hstatus]
  decide

/-- With tests that pass, a run through the graph ends exactly if every text can be transformed in which the planner
finds something. -/
theorem runGraph_eq_ok_iff_of_testsPass (hc : c.IsAlone) (free : ∀ log, o.stepFault log = none) (hpass : o.TestsPass)
    {w₁ : World} (hclone : (Node.clone.enter c).runIn o w = (.ok (), w₁)) :
    ((runGraph c).runIn o w).1 = .ok () ↔ (w₁.state.status ≠ .failed → ∀ p ∈ w₁.state.files,
      Planner.foundIn w.state.kind (w₁.disk.readText p) ≠ [] →
        ∀ text, w₁.disk.readText (.ofString p.toString) = .ok text → IsTransformable w.state.kind text) := by
  rw [runGraph_eq_ok_iff hc free]
  have hkind := kind_of_enter hclone
  constructor
  · intro hall hw p hp hfound text htext
    obtain ⟨s, hplan, hdisk, hs, hfindings⟩ := @act_planner_runIn c o hc w₁ hw
    rw [← enter_runIn (free _)] at hplan
    have hreached : Reached c o w .coder s :=
      (Reached.start.step hclone (leave_runIn o .clone w₁)).step hplan (leave_runIn o .planner s)
    obtain ⟨f, hf⟩ := List.exists_mem_of_ne_nil _ hfound
    have hmem : f.inFile p.toString ∈ s.state.findings := by
      rw [hfindings, Planner.found, hkind]
      exact List.mem_flatMap.2 ⟨p, hp, List.mem_map_of_mem hf⟩
    refine hall s hreached hs _ hmem text ?_
    rw [hdisk]
    exact htext
  · intro hall s hreached hs f hf text htext
    obtain ⟨w₂, hclone', hplan⟩ := hreached.of_coder hc hpass
    obtain ⟨-, rfl⟩ := Prod.mk.inj (hclone.symm.trans hclone')
    have hw : w₁.state.status ≠ .failed := by
      intro hw
      obtain rfl := of_enter_failed (n := .planner) rfl hw hplan
      exact hs hw
    obtain ⟨s', hplan', hdisk, -, hfindings⟩ := @act_planner_runIn c o hc w₁ hw
    obtain ⟨-, rfl⟩ := Prod.mk.inj ((act_of_enter hplan).symm.trans hplan')
    rw [hfindings, Planner.found, hkind] at hf
    obtain ⟨p, hp, hf⟩ := List.mem_flatMap.1 hf
    obtain ⟨g, hg, rfl⟩ := List.mem_map.1 hf
    rw [hdisk] at htext
    exact hall hw p hp (List.ne_nil_of_mem hg) text htext

/-- Without the assistant and without a limit on its steps, a run returns exactly if the coder can transform every text
in which something was found, wherever it is reached and has not been told that cloning failed. With tests that pass
these are the files of the repository in which the planner finds something: a module cannot be transformed if its edited
tree cannot be printed, or for the new web framework if a route leaves its method open. -/
theorem run_returns_iff_transformable (c : Crew) (alone : c.IsAlone) (o : Outside) (calm : o.engine.fault = none)
    (free : ∀ log, o.stepFault log = none) (w : World) (repoUrl kindName : String) (kind : MigrationKind)
    (named : MigrationKind.ofName kindName = .ok kind) :
    ((∃ r w', (run c repoUrl kindName).runIn o w = (.ok r, w')) ↔
      ∀ s, Reached c o (w.after (.replaced { repoUrl, kind })) .coder s → s.state.status ≠ .failed →
        ∀ f ∈ s.state.findings, ∀ text, s.disk.readText (.ofString f.place.file) = .ok text →
          IsTransformable kind text) ∧
      (o.TestsPass → ∀ w₁, (Node.clone.enter c).runIn o (w.after (.replaced { repoUrl, kind })) = (.ok (), w₁) →
        ((∃ r w', (run c repoUrl kindName).runIn o w = (.ok r, w')) ↔
          (w₁.state.status ≠ .failed → ∀ p ∈ w₁.state.files,
            Planner.foundIn kind (w₁.disk.readText p) ≠ [] →
              ∀ text, w₁.disk.readText (.ofString p.toString) = .ok text → IsTransformable kind text))) := by
  rw [exists_run_iff named calm]
  refine ⟨runGraph_eq_ok_iff alone free _, fun hpass w₁ hclone => ?_⟩
  exact runGraph_eq_ok_iff_of_testsPass alone free hpass hclone

def singleFile (text : String) : Outside where
  clonedFiles _ := [(.ofString "a.py", Text.encode text)]
  testRun _ := .done 0 "" ""

def emptyRoute : String := "@app.route('/', methods=[])\ndef f():\n    pass\n"

def plainRoute : String := "@app.route('/')\ndef f():\n    pass\n"

theorem isAlone_aloneCrew : aloneCrew.IsAlone := ⟨rfl, rfl, rfl⟩

theorem exists_failure_emptyRoute : ∃ failure w',
    (run aloneCrew "https://github.com/o/r" "flask_to_fastapi").runIn (singleFile emptyRoute) {} =
      (.error failure, w') :=
  exists_runIn_error (by decide +kernel)

theorem run_returns_iff_transformable_routes :
    aloneCrew.IsAlone ∧ MigrationKind.ofName "flask_to_fastapi" = .ok .flask ∧
      (∃ r w', (run aloneCrew "https://github.com/o/r" "flask_to_fastapi").runIn (singleFile plainRoute) {} =
        (.ok r, w')) ∧
      (∀ s, Reached aloneCrew (singleFile plainRoute) (World.after {} (.replaced
          { repoUrl := "https://github.com/o/r", kind := .flask })) .coder s → s.state.status ≠ .failed →
        ∀ f ∈ s.state.findings, ∀ text, s.disk.readText (.ofString f.place.file) = .ok text →
          IsTransformable .flask text) ∧
      (∃ failure w', (run aloneCrew "https://github.com/o/r" "flask_to_fastapi").runIn (singleFile emptyRoute) {} =
        (.error failure, w')) ∧
      ∃ s, Reached aloneCrew (singleFile emptyRoute) (World.after {} (.replaced
          { repoUrl := "https://github.com/o/r", kind := .flask })) .coder s ∧ s.state.status ≠ .failed ∧
        ∃ f ∈ s.state.findings, ∃ text, s.disk.readText (.ofString f.place.file) = .ok text ∧
          ¬IsTransformable .flask text := by
  have hplain := run_returns_iff_transformable aloneCrew isAlone_aloneCrew (singleFile plainRoute) rfl
    (fun _ => rfl) {} "https://github.com/o/r" "flask_to_fastapi" .flask rfl
  have hempty := run_returns_iff_transformable aloneCrew isAlone_aloneCrew (singleFile emptyRoute) rfl
    (fun _ => rfl) {} "https://github.com/o/r" "flask_to_fastapi" .flask rfl
  have hreturns : ∃ r w', (run aloneCrew "https://github.com/o/r" "flask_to_fastapi").runIn (singleFile plainRoute) {} =
      (.ok r, w') := exists_runIn_ok (by decide +kernel)
  obtain ⟨failure, w', hfails⟩ := exists_failure_emptyRoute
  have hnot := mt hempty.1.2 (by
    rintro ⟨r, w'', hrun⟩
    cases (Prod.mk.inj (hfails.symm.trans hrun)).1)
  push Not at hnot
  exact ⟨isAlone_aloneCrew, rfl, hreturns, hplain.1.1 hreturns, ⟨failure, w', hfails⟩, hnot⟩

/-- The file can be read as a module, and still the run breaks off. -/
theorem emptyRoute_breaks_run_off :
    (∃ m, Source.Module.ofString emptyRoute = .ok m) ∧
      ∃ failure w', (run aloneCrew "https://github.com/o/r" "flask_to_fastapi").runIn (singleFile emptyRoute) {} =
        (.error failure, w') := by
  constructor
  · have hread : (Source.Module.ofString emptyRoute).isOk = true := by decide +kernel
    cases hm : Source.Module.ofString emptyRoute with
    | ok m => exact ⟨m, rfl⟩
    | error fault =>
      rw [hm] at hread
      cases hread
  · exact exists_failure_emptyRoute

end Workflow

end CodeMigration
