import CodeMigration.Proofs.CoderFiles
import CodeMigration.Proofs.GrowingHistory
import Mathlib.Algebra.BigOperators.Group.List.Basic
import Mathlib.Algebra.GroupWithZero.Nat
import Mathlib.Data.List.Dedup

/-! # What the report of a run tells

A run reports the address of its merge request, how many files it processed and how many changes it applied. What it
really did is known to the nodes: the coder knows which files it wrote, and the last node but one which address the
hub gave. Here both are made to tell. The report says nothing of either, and counts a change as often as it was made. -/

namespace CodeMigration

open Act

namespace Coder

/-- Writes a text, takes its changes for applied, and adds the file to those that were written. -/
def writeNoting (changes : List Change) (written : List String) (e : String × String) : Act (List String) := do
  match ← writeFile e.1 (Text.encode e.2) with
  | none =>
    let done := changes.filter fun c => c.file == e.1 && c.applied
    updateMigration fun m => { m with applied := m.applied ++ done }
    return written ++ [e.1]
  | some f =>
    addError ("Error writing " ++ e.1 ++ ": " ++ f.message)
    return written

/-- Changes the files of the findings, and tells which ones were written. -/
def runNoting (assisted : Bool) (client : Docs.Client) : Act (List String) := do
  Agent.coder.start
  let found := (← get).state.findings
  if found.isEmpty then
    say "coder" "No patterns to fix."
    return []
  else
    loadContext client
    let texts ← readTexts (found.map (·.place.file))
    let m := (← get).state
    let changes ← fixes assisted m.kind m.styleGuide texts found
    let changes := markApplied changes texts
    updateMigration fun m => { m with changes }
    let updated := applyChanges changes texts
    let written ← updated.foldlM (writeNoting changes) []
    let applied := (← get).state.applied.length
    say "coder" ("Applied " ++ toString applied ++ " code changes across " ++ toString updated.length ++ " files.")
    return written

theorem writeText_eq (changes : List Change) (written : List String) (e : String × String) :
    writeText changes e.1 e.2 = (fun _ => ()) <$> writeNoting changes written e := by
  rw [writeText, writeNoting, map_bind]
  refine congrArg (writeFile _ _ >>= ·) (funext fun r => ?_)
  cases r with
  | none | some f => simp only [map_bind, map_pure]; exact (bind_pure_unit).symm

theorem writeTexts_eq (changes : List Change) (texts : Texts) (written : List String) :
    (forIn texts PUnit.unit fun e _ => do
      writeText changes e.1 e.2
      pure (ForInStep.yield PUnit.unit) : Act PUnit) =
        (fun _ => ⟨⟩) <$> texts.foldlM (writeNoting changes) written := by
  induction texts generalizing written with
  | nil => simp
  | cons e texts ih =>
    rw [List.forIn_cons, List.foldlM_cons, writeText_eq changes written e]
    simp only [map_eq_pure_bind, bind_assoc, pure_bind]
    refine congrArg (writeNoting changes written e >>= ·) (funext fun written' => ?_)
    rw [ih written', map_eq_pure_bind]

theorem run_eq_noting (assisted : Bool) (client : Docs.Client) :
    run assisted client = (fun _ => ()) <$> runNoting assisted client := by
  rw [run, runNoting, map_bind]
  refine congrArg (Agent.coder.start >>= ·) (funext fun _ => ?_)
  rw [map_bind]
  refine congrArg (get >>= ·) (funext fun w => ?_)
  dsimp only
  split
  · rfl
  · simp only [writeTexts_eq _ _ [], map_eq_pure_bind, bind_assoc, pure_bind]
    rfl

variable {assisted : Bool} {texts : Texts} {fs : List Finding} {o : Outside} {w w' : World} {kind : MigrationKind}
  {style : String} {changes : List Change}

theorem migration_of_fixes {r : Except Failure (List Change)}
    (h : (fixes assisted kind style texts fs).runIn o w = (r, w')) : w'.state = w.state := by
  have hmade : MadeOf (fun d => ∀ w : World, (w.after d).state = w.state)
      (fixes assisted kind style texts fs) := fixes_madeOf (fun _ _ => rfl) (fun _ _ => rfl) ..
  have hthrough := hmade.through o w
  rw [h] at hthrough
  exact hthrough.keeps (·.state) fun d hd => hd

theorem files_of_fixes (h : (fixes assisted kind style texts fs).runIn o w = (.ok changes, w')) :
    changes.map (·.file) = (fs.map (·.place.file)).filter texts.has := by
  have hfiles := congrArg (List.map (·.2.2)) (marks_of_fixes h).1
  rw [List.map_map, List.map_map] at hfiles
  rw [List.filter_map]
  exact hfiles

theorem runIn_foldlM_writeNoting (changes : List Change) (texts : Texts) (written : List String) (o : Outside)
    (w : World) : (texts.foldlM (writeNoting changes) written).runIn o w =
      (.ok (written ++ writtenFiles (writeAll o w.disk texts).2), wroteTexts o changes texts w) := by
  induction texts generalizing written w with
  | nil => simp [wroteTexts, writeAll, writtenFiles]
  | cons e texts ih =>
    have hcons : wroteTexts o changes (e :: texts) w = wroteTexts o changes texts (wroteText o changes w e) := rfl
    have hone : (writeNoting changes written e).runIn o w =
        (.ok (written ++ writtenFiles [(e.1, (o.write w.disk e.1 (Text.encode e.2)).2)]), wroteText o changes w e) := by
      rw [writeNoting, runIn_bind_ok (runIn_writeFile o w _ _), wroteText]
      rcases o.write w.disk e.1 (Text.encode e.2) with ⟨d, _ | f⟩
      · rfl
      · rw [writtenFiles, List.filterMap_cons_none rfl, List.filterMap_nil, List.append_nil]
        rfl
    have hdisk : (wroteText o changes w e).disk = (o.write w.disk e.1 (Text.encode e.2)).1 := by
      rw [wroteText]
      rcases o.write w.disk e.1 (Text.encode e.2) with ⟨d, _ | f⟩ <;> rfl
    rw [List.foldlM_cons, hcons, runIn_bind_ok hone, ih, hdisk, List.append_assoc, writtenFiles, writtenFiles,
      ← List.filterMap_append]
    rfl

theorem countP_markApplied {written : List String}
    (hfiles : changes.map (·.file) = (fs.map (·.place.file)).filter texts.has)
    (hwritten : ∀ file ∈ written, texts.has file = true) :
    (markApplied changes texts).countP (·.file ∈ written) = fs.countP (·.place.file ∈ written) := by
  have hmarked : (markApplied changes texts).countP (·.file ∈ written) = (changes.map (·.file)).countP (· ∈ written) := by
    rw [markApplied, List.countP_map, List.countP_map]
    refine List.countP_congr fun c _ => ?_
    grind
  rw [hmarked, hfiles, List.countP_filter, List.countP_map]
  refine List.countP_congr fun f _ => ?_
  grind

theorem applied_of_runNoting {client : Docs.Client} {written : List String}
    (h : (runNoting assisted client).runIn o w = (.ok written, w')) : w'.state.applied.length =
      w.state.applied.length + w.state.findings.countP (·.place.file ∈ written) := by
  have hstart : Agent.coder.start.runIn o w = (.ok (), w.begun .coder) := rfl
  have hfindings : (w.begun .coder).state.findings = w.state.findings := rfl
  rw [runNoting, runIn_bind_ok hstart, runIn_bind_ok (runIn_get o _)] at h
  dsimp only at h
  rw [hfindings] at h
  by_cases hnone : w.state.findings.isEmpty = true
  · rw [if_pos hnone] at h
    obtain ⟨hwritten, rfl⟩ := Prod.mk.inj h
    rw [List.isEmpty_iff.1 hnone]
    rfl
  · obtain ⟨w₁, hload, -, hwork⟩ := loadContext_runIn client o (w.begun .coder)
    rw [if_neg hnone, runIn_bind_ok hload, runIn_bind_ok (runIn_readTexts _ o w₁), runIn_bind_ok (runIn_get o _)] at h
    generalize htexts : textsOn w₁.disk (w.state.findings.map (·.place.file)) = texts at h
    obtain ⟨changes, w₂, hfixes, h⟩ := runIn_bind_eq_ok.1 h
    have hchanged : (updateMigration fun m => { m with changes := markApplied changes texts }).runIn o w₂ =
        (.ok (), w₂.after (.changed (markApplied changes texts))) := rfl
    rw [runIn_bind_ok hchanged, runIn_bind_ok (runIn_foldlM_writeNoting _ _ [] o _), wroteTexts_eq, List.nil_append] at h
    obtain ⟨hwritten, rfl⟩ := Prod.mk.inj h
    have hbefore : w₂.state.applied = w.state.applied := by
      have hsame := congrArg Migration.applied hwork
      rw [migration_of_fixes hfixes, World.noting_eq]
      exact hsame
    have hnodup : (texts.map Prod.fst).Nodup := htexts ▸ nodup_textsOn _ _
    have hnames : written.Sublist (texts.map Prod.fst) := by
      rw [← Except.ok.inj hwritten, ← map_fst_applyChanges (markApplied changes texts) hnodup, ← map_fst_writeAll]
      exact writtenFiles_sublist _
    have hhas : ∀ file ∈ written, texts.has file = true := by
      intro file hfile
      simpa [Texts.has] using hnames.subset hfile
    have hcount := (flatMap_applied_perm (fun c hc => has_of_fixes hfixes hc) (hnames.nodup hnodup)).length_eq
    rw [← List.countP_eq_length_filter, countP_markApplied (files_of_fixes hfixes) hhas] at hcount
    rw [← hbefore, ← hcount, ← List.length_append, ← Except.ok.inj hwritten]
    rfl

end Coder

def Event.asksToMerge : Event → Bool
  | .pullCreated .. => true
  | _ => false

namespace Workflow

/-- What a node did beside what it noted in the migration. -/
structure Trace where
  /-- The files that were written. -/
  written : List String := []
  /-- The address that the hub gave to a merge request. -/
  pull : Option String := none

/-- Makes a merge request, and tells its address. -/
def pullNoting (c : Crew) : Act (Option String) := do
  if !c.settings.autoPullRequest then
    say "system" "Auto PR creation disabled, skipping."
    return none
  else
    updateMigration fun m => { m with status := .review }
    say "system" "Creating pull request..."
    let m := (← get).state
    let draft : Repository.PullDraft :=
      { branch := m.branch, title := "[DevAssist] " ++ m.kind.name ++ " Migration", body := PullRequest.report m }
    match ← attempt (Repository.createPull c.access (m.repoPath.getD (.ofString "")) draft) with
    | .ok url =>
      say "system" ("Pull request created: " ++ url)
      return some url
    | .error f =>
      addError ("Failed to create PR: " ++ f.message)
      return none

def Node.noting (c : Crew) : Node → Act Trace
  | .coder => do
    if (← get).state.status != .failed then
      let written ← Coder.runNoting c.coderAssisted c.client
      return { written }
    else return {}
  | .createPull => do
    let pull ← pullNoting c
    return { pull }
  | n => do
    n.act c
    return {}

theorem createPull_eq_noting (c : Crew) : createPull c = (fun _ => ()) <$> pullNoting c := by
  rw [createPull, pullNoting]
  split
  · rfl
  · simp only [map_eq_pure_bind, bind_assoc]
    refine congrArg (updateMigration _ >>= ·) (funext fun _ => congrArg (say _ _ >>= ·) (funext fun _ => ?_))
    refine congrArg (get >>= ·) (funext fun w => congrArg (attempt _ >>= ·) (funext fun r => ?_))
    cases r <;> rfl

theorem Node.act_eq_noting (c : Crew) (n : Node) : n.act c = (fun _ => ()) <$> n.noting c := by
  have hquiet (n : Node) : n.act c = (fun _ => ()) <$> (do n.act c; return ({} : Trace) : Act Trace) := by
    simp only [map_eq_pure_bind, bind_assoc, pure_bind]
    exact bind_pure_unit.symm
  cases n with
  | coder =>
    rw [Node.act, code, unlessFailed, Node.noting, map_bind]
    refine congrArg (get >>= ·) (funext fun w => ?_)
    split
    · rw [Coder.run_eq_noting]
      simp only [map_eq_pure_bind, bind_assoc, pure_bind]
    · rfl
  | createPull =>
    rw [Node.act, createPull_eq_noting, Node.noting]
    simp only [map_eq_pure_bind, bind_assoc, pure_bind]
  | clone => exact hquiet .clone
  | planner => exact hquiet .planner
  | tester => exact hquiet .tester
  | finalize => exact hquiet .finalize

def Visit.trace (c : Crew) (o : Outside) (v : Visit) : Trace :=
  ((v.node.noting c).runIn o (v.before.after (.event (.entered v.node.name)))).1.toOption.getD {}

section
variable {c : Crew} {o : Outside} {n : Node} {w a : World}

theorem noting_of_enter (run : (n.enter c).runIn o w = (.ok (), a)) :
    (n.noting c).runIn o (w.after (.event (.entered n.name))) = (.ok (Visit.trace c o ⟨n, w, a⟩), a) := by
  have hact := act_of_enter run
  rw [Node.act_eq_noting, map_eq_pure_bind] at hact
  obtain ⟨t, w₁, hrun, hpure⟩ := (runIn_bind_eq_ok).1 hact
  cases hpure
  rw [Visit.trace, hrun]
  rfl

theorem written_of_enter (hn : n ≠ .coder) (run : (n.enter c).runIn o w = (.ok (), a)) :
    (Visit.trace c o ⟨n, w, a⟩).written = [] := by
  have hrun := noting_of_enter run
  cases n with
  | coder => exact absurd rfl hn
  | _ =>
    obtain ⟨u, w₁, -, hpure⟩ := runIn_bind_eq_ok.1 hrun
    exact (congrArg Trace.written (Except.ok.inj (Prod.mk.inj hpure).1)).symm

theorem Node.eq_coder_of_allows {cs : List Change} (h : n.Allows (.applied cs)) : n = .coder := by
  cases n <;> simp [Node.Allows, Deed.OfCloneNode, Deed.OfClone, Deed.OfCheckout, Deed.OfPlanner, Deed.OfTester,
    Deed.OfPull, Deed.OfEnd] at h ⊢

theorem processed_of_enter {r : Except Failure Unit} (run : (n.enter c).runIn o w = (r, a)) :
    a.state.processed = w.state.processed := by
  refine enter_keeps run (·.processed) fun d hd m => ?_
  cases d <;> first | rfl | exact absurd trivial (n.not_ofNone_of_allows hd)

/-- Behind a node each finding in a file that was written there counts as one more applied change. -/
theorem applied_of_enter (run : (n.enter c).runIn o w = (.ok (), a)) :
    a.state.applied.length = w.state.applied.length +
      w.state.findings.countP (·.place.file ∈ (Visit.trace c o ⟨n, w, a⟩).written) := by
  by_cases hn : n = .coder
  · subst hn
    have hrun := noting_of_enter run
    rw [Node.noting, runIn_bind_ok (runIn_get o _)] at hrun
    split at hrun
    · obtain ⟨written, w₁, hcoder, hpure⟩ := runIn_bind_eq_ok.1 hrun
      obtain ⟨htrace, rfl⟩ := Prod.mk.inj hpure
      have happlied := Coder.applied_of_runNoting hcoder
      rw [← Except.ok.inj htrace]
      exact happlied
    · obtain ⟨htrace, rfl⟩ := Prod.mk.inj hrun
      rw [← Except.ok.inj htrace]
      simp [World.after]
  · have happlied : a.state.applied = w.state.applied := by
      refine enter_keeps run (·.applied) fun d hd m => ?_
      cases d <;> first
        | rfl
        | exact absurd trivial (n.not_ofNone_of_allows hd)
        | exact absurd (Node.eq_coder_of_allows hd) hn
    rw [happlied, written_of_enter hn run]
    simp

end

section
variable {c : Crew} {o : Outside} {n : Node} {w w' : World} {vs : List Visit} {r : Except Failure Unit}

theorem Walk.processed_eq (h : Walk c o n w vs r w') : w'.state.processed = w.state.processed :=
  h.keeps (·.state.processed) processed_of_enter fun _ _ _ => rfl

/-- Each visit adds to the applied changes one for each finding in a file that was written there. The findings are
those at the end: no file is written before they are known. -/
theorem Walk.applied_length (h : Walk c o n w vs r w') (hr : r = .ok ()) :
    w'.state.applied.length = w.state.applied.length +
      (vs.map fun v => w'.state.findings.countP (·.place.file ∈ (v.trace c o).written)).sum := by
  have hleave {n : Node} {a s : World} {next : Option Node} (edge : n.leave.runIn o a = (.ok next, s)) :
      s.state.applied = a.state.applied := leave_keeps edge (·.state.applied) fun _ _ _ => rfl
  have hvisit {n : Node} {w a : World} {fs : List Finding} (run : (n.enter c).runIn o w = (.ok (), a))
      (hfs : n = .coder → fs = w.state.findings) : a.state.applied.length = w.state.applied.length +
        fs.countP (·.place.file ∈ (Visit.trace c o ⟨n, w, a⟩).written) := by
    rw [applied_of_enter run]
    by_cases hn : n = .coder
    · rw [hfs hn]
    · simp [written_of_enter hn run]
  induction h with
  | raised run => cases hr
  | ended run edge =>
    obtain rfl := leave_eq_none edge
    rw [hleave edge, hvisit run fun h => Node.noConfusion h, List.map_singleton, List.sum_singleton]
  | @moved n next w a w₁ w' vs r run edge rest ih =>
    rw [ih hr, hleave edge, hvisit run, List.map_cons, List.sum_cons, Nat.add_assoc]
    rintro rfl
    exact congrArg (·.2.2.2.2.2) ((Walk.moved run edge rest).task_eq ⟨Node.noConfusion, Node.noConfusion⟩).1

end

/-- A report that tells what was done. -/
structure Accurate (r : Outcome) (did : List Trace) : Prop where
  pull : ∀ t ∈ did, ∀ url, t.pull = some url → r.pullRequest = url
  processed : r.state.summary.processed = (did.flatMap Trace.written).dedup.length
  applied : r.state.summary.applied ≤ r.state.summary.findings

/-- An engine that hands back a migration as a whole, or with no field missing. -/
def HandsBackAll (e : Engine) : Prop := e.missing = none ∨ e.missing = some []

theorem returned_empty (e : Engine) (m : Migration) :
    (m.processed = [] → (returned e m).processed = []) ∧ (m.applied = [] → (returned e m).applied = []) := by
  unfold returned
  cases e.messages <;> cases e.missing <;> simp +contextual [ofFields]

theorem returned_figures {e : Engine} (h : HandsBackAll e) (m : Migration) :
    (returned e m).findings = m.findings ∧ (returned e m).applied = m.applied := by
  unfold returned
  rcases h with h | h <;> rw [h] <;> cases e.messages <;> exact ⟨rfl, rfl⟩

/-- A run that returns says nothing of a merge request and of the files that it wrote, and counts a change as applied
once for each round in which its file was written. So its report is accurate just if no file was written, and no
address given. -/
theorem report_of_run (c : Crew) (o : Outside) (w : World) (repoUrl kindName : String) {r : Outcome}
    (hrun : ((run c repoUrl kindName).runIn o w).1 = .ok r) :
    ∃ kind vs g, Walk c o .clone (w.after (.replaced { repoUrl, kind })) vs (.ok ()) g ∧
      let did := vs.map (Visit.trace c o)
      r.pullRequest = "" ∧ r.state.summary.processed = 0 ∧
      (HandsBackAll o.engine → r.state.summary.applied =
        (did.map fun t => r.state.findings.countP (·.place.file ∈ t.written)).sum) ∧
      (Accurate r did ↔ ∀ t ∈ did, t.written = [] ∧ ∀ url, t.pull = some url → url = "") := by
  obtain ⟨f, hfails⟩ | ⟨kind, g, hgraph, hruns⟩ := run_handing c o w repoUrl kindName
  · cases (hfails o.engine.missing).symm.trans hrun
  obtain rfl : outcome (returned o.engine g.state) = r := Except.ok.inj ((hruns o.engine.missing).symm.trans hrun)
  obtain ⟨vs, hwalk⟩ := runGraph_walk c o (w.after (.replaced { repoUrl, kind }))
  rw [hgraph] at hwalk
  have hprocessed : (returned o.engine g.state).processed.length = 0 :=
    congrArg List.length ((returned_empty o.engine g.state).1 hwalk.processed_eq)
  have happlied : g.state.applied.length =
      ((vs.map (Visit.trace c o)).map fun t => g.state.findings.countP (·.place.file ∈ t.written)).sum := by
    rw [List.map_map]
    exact (hwalk.applied_length rfl).trans (Nat.zero_add _)
  refine ⟨kind, vs, g, hwalk, rfl, hprocessed, fun hall => ?_, fun hacc t ht => ?_, fun hnone => ?_⟩
  · obtain ⟨hf, ha⟩ := returned_figures hall g.state
    exact (congrArg List.length ha).trans (happlied.trans (by rw [outcome, hf]))
  · have hdedup := List.length_eq_zero_iff.1 (hacc.processed.symm.trans hprocessed)
    have hwritten := List.flatMap_eq_nil_iff.1 ((List.dedup_eq_nil _).1 hdedup)
    exact ⟨hwritten t ht, fun url hurl => (hacc.pull t ht url hurl).symm⟩
  · have hwritten : (vs.map (Visit.trace c o)).flatMap Trace.written = [] :=
      List.flatMap_eq_nil_iff.2 fun t ht => (hnone t ht).1
    have hzero : g.state.applied = [] := by
      rw [← List.length_eq_zero_iff, happlied]
      refine List.sum_eq_zero fun k hk => ?_
      obtain ⟨t, ht, rfl⟩ := List.mem_map.1 hk
      rw [(hnone t ht).1]
      simp
    exact {
      pull := fun t ht url hurl => ((hnone t ht).2 url hurl).symm
      processed := by rw [hwritten]; exact hprocessed
      applied := by
        have happlied := congrArg List.length ((returned_empty o.engine g.state).2 hzero)
        exact happlied.trans_le (Nat.zero_le _) }

theorem report_of_flaky_run : ∃ r kind vs g,
    ((run aloneCrew "https://github.com/o/r" "py2to3").runIn flakyOutside {}).1 = .ok r ∧
    Walk aloneCrew flakyOutside .clone (World.after {} (.replaced { repoUrl := "https://github.com/o/r", kind })) vs
      (.ok ()) g ∧
    r.pullRequest = "" ∧ r.state.summary.processed = 0 ∧
    ((vs.map (Visit.trace aloneCrew flakyOutside)).map fun t =>
      r.state.findings.countP (·.place.file ∈ t.written)).sum = 2 := by
  have happlied : ((run aloneCrew "https://github.com/o/r" "py2to3").runIn flakyOutside {}).1.toOption.map
      (·.state.summary.applied) = some 2 := by decide +kernel
  obtain ⟨r, hr, htwo⟩ := Option.map_eq_some_iff.1 happlied
  cases hrun : ((run aloneCrew "https://github.com/o/r" "py2to3").runIn flakyOutside {}).1 with
  | error f =>
    rw [hrun] at hr
    cases hr
  | ok r' =>
    rw [hrun] at hr
    cases hr
    obtain ⟨kind, vs, g, hwalk, hpull, hprocessed, hsum, -⟩ := report_of_run _ _ _ _ _ hrun
    exact ⟨r, kind, vs, g, rfl, hwalk, hpull, hprocessed, (hsum (.inl rfl)).symm.trans htwo⟩

/-- With one finding in one file, a second round counts a second change. The file is written and a merge request made,
but the report shows neither. -/
theorem flaky_run_misreported :
    let ran := (run aloneCrew "https://github.com/o/r" "py2to3").runIn flakyOutside {}
    ran.1.toOption.map (fun r => (r.pullRequest, r.state.summary.processed, r.state.summary.findings,
      r.state.summary.applied)) = some ("", 0, 1, 2) ∧
    (ran.2.disk.readText (.ofString ".devassist_work/r/a.py")).toOption = some "range(3)\n" ∧
    ran.2.log.countP Event.asksToMerge = 1 ∧
    flakyOutside.pullUrl ran.2.log = "https://github.com/o/r/pull/1" := by
  refine ⟨?_, ?_, ?_, rfl⟩ <;> decide +kernel

end Workflow

end CodeMigration
