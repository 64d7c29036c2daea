import CodeMigration.Proofs.AgentDeeds

/-! # What the nodes of a run do

Each node keeps to events of its own, and what decides where a run goes is changed in few places: a clone
that fails, an agent that takes the migration up, the tester, and the last node. -/

namespace CodeMigration

open Act

namespace Deed

/-- What is done once the place for a clone is free. -/
def OfCheckout : Deed → Prop
  | .event (.cloned ..) | .event (.opened _) | .event (.headCreated _) | .event (.headChecked _) => True
  | .disk _ | .said .. | .cloned .. | .listed _ => True
  | _ => False

def OfClone : Deed → Prop
  | .event (.commanded ..) => True
  | d => d.OfCheckout

theorem OfCheckout.ofClone {d : Deed} (h : d.OfCheckout) : d.OfClone := by
  unfold OfClone
  split
  · trivial
  · exact h

def OfCloneNode (d : Deed) : Prop := d.OfClone ∨ d = .moved .failed ∨ ∃ text, d = .erred text

def OfPull : Deed → Prop
  | .event (.opened _) | .event .staged | .event (.configured ..) | .event (.committed _) => True
  | .event (.pushed _) | .event (.connected _) | .event (.fetched _) | .event (.pullCreated ..) => True
  | .connected _ | .said .. | .erred _ | .moved _ => True
  | _ => False

def OfEnd : Deed → Prop
  | .said .. | .moved _ => True
  | _ => False

/-- What is done between two nodes, and before the first and after the last. -/
def OfNone : Deed → Prop
  | .event (.entered _) | .replaced _ | .registered _ => True
  | _ => False

/-- What is done to count the rounds and to judge them. -/
def OfTesting : Deed → Prop
  | .counted | .passed | .judged _ => True
  | _ => False

/-- What leaves the registry of jobs as it is. -/
def OffRegistry (d : Deed) : Prop := ∀ r, d ≠ .registered r

end Deed

namespace Repository

variable {P : Deed → Prop}

theorem onClone_madeOf {α : Type} {e : Event} {f : Outside → Log → α} (he : P (.event e))
    (natural : ∀ o h engine log, f ((o.hearing h).withEngine engine) log = f o (h log)) : MadeOf P (onClone e f) := by
  refine .bind (.observe he fun o h engine log => ?_) fun seen => .bind (.failWith seen.1) fun _ => .pure seen.2
  exact Prod.ext rfl (natural o h engine log)

theorem doOnClone_madeOf {e : Event} (he : P (.event e)) : MadeOf P (doOnClone e) :=
  onClone_madeOf he fun _ _ _ _ => rfl

theorem vacate_madeOf (hd : ∀ d, P (.disk d)) (path : FilePath) : MadeOf P (vacate path) := by
  refine .look (fun _ _ => rfl) fun w => ?_
  split
  · exact .bind (.onDisk hd) fun _ => .ite (.fail _) (.ite (.fail _) (.pure ()))
  · exact .fail _
  · exact .fail _
  · exact .pure ()

theorem clone_madeOf (a : Access) (url workDir : String) : MadeOf Deed.OfCheckout (clone a url workDir) := by
  refine .bind (vacate_madeOf (fun _ => trivial) _) fun _ => ?_
  refine .bind (.observe trivial fun _ _ _ _ => rfl) fun fault => .bind (.failWith fault) fun _ => ?_
  refine .bind (.consult _ fun _ _ _ _ => rfl) fun files => .bind (.onDisk fun _ => trivial) fun _ => ?_
  refine .bind (.forIn (fun ⟨file, content⟩ _ => ?_) _ _) fun _ => .pure _
  exact .bind (.onDisk fun _ => trivial) fun _ => .pure _

theorem switchTo_madeOf (path : FilePath) (branch : String) (ho : P (.event (.opened path)))
    (hn : P (.event (.headCreated branch))) (hc : P (.event (.headChecked branch))) :
    MadeOf P (switchTo path branch) := by
  refine .bind (onClone_madeOf ho fun _ _ _ _ => rfl) fun heads => ?_
  exact .ite (.bind (doOnClone_madeOf hn) fun _ => doOnClone_madeOf hc) (doOnClone_madeOf hc)

theorem commitStaged_madeOf (message : String) : MadeOf Deed.OfPull (commitStaged message) := by
  refine .bind (doOnClone_madeOf trivial) fun _ => .bind (doOnClone_madeOf trivial) fun _ => ?_
  exact onClone_madeOf trivial fun _ _ _ _ => rfl

theorem commit_madeOf (path : FilePath) (message : String) : MadeOf Deed.OfPull (commit path message) := by
  refine .bind (doOnClone_madeOf trivial) fun _ => .bind (onClone_madeOf trivial fun _ _ _ _ => rfl) fun seen => ?_
  exact .ite (.pure "") (commitStaged_madeOf message)

theorem push_madeOf (path : FilePath) (branch : String) : MadeOf Deed.OfPull (push path branch) :=
  .bind (doOnClone_madeOf trivial) fun _ => .bind (.observe trivial fun _ _ _ _ => rfl) fun fault => .failWith fault

theorem atHub_madeOf {e : Event} (he : P (.event e)) (complaint : String) : MadeOf P (atHub e complaint) := by
  refine .bind (.observe he fun _ _ _ _ => rfl) fun fault => ?_
  cases fault with
  | none => exact .pure ()
  | some reason => exact .fail _

theorem fetch_madeOf (a : Access) (name complaint : String) : MadeOf Deed.OfPull (fetch a name complaint) := by
  refine .look (fun _ _ => rfl) fun w => .ite ?_ (atHub_madeOf trivial complaint)
  refine .bind (.record trivial) fun _ => .bind (.perform (.connected true) trivial) fun _ => ?_
  exact atHub_madeOf trivial complaint

theorem origin_madeOf (path : FilePath) : MadeOf Deed.OfPull (origin path) :=
  .bind (onClone_madeOf trivial fun _ _ _ _ => rfl) fun _ => .result _

theorem askToMerge_madeOf (a : Access) (repo : String) (draft : PullDraft) :
    MadeOf Deed.OfPull (askToMerge a repo draft) :=
  .bind (fetch_madeOf a _ _) fun _ => .bind (atHub_madeOf trivial _) fun _ => .consult _ fun _ _ _ _ => rfl

theorem createPull_madeOf (a : Access) (path : FilePath) (draft : PullDraft) :
    MadeOf Deed.OfPull (createPull a path draft) :=
  .bind (origin_madeOf path) fun _ => .bind (commit_madeOf path _) fun _ => .bind (push_madeOf path _) fun _ =>
    askToMerge_madeOf a _ draft

end Repository

namespace Workflow

variable (c : Crew) (o : Outside) (w : World)

theorem clearWorkDir_madeOf (path : FilePath) : MadeOf Deed.OfClone (clearWorkDir path) := by
  have hquiet : MadeOf Deed.OfClone (removeQuietly path) := .modifyDisk (·.removeDir path) fun _ => trivial
  have hcommand : MadeOf Deed.OfClone (removeByCommand path) := by
    refine .bind (.observe trivial fun _ _ _ _ => rfl) fun removes => .ite ?_ (.pure ())
    exact .modifyDisk (·.removeFile path) fun _ => trivial
  refine .look (fun _ _ => rfl) fun w => .ite (.bind hquiet fun _ => ?_) (.pure ())
  exact .look (fun _ _ => rfl) fun w => .outside (fun _ _ _ => rfl) fun o => .ite hcommand (.pure ())

theorem cloneSources_checkout : ∃ rest : Act Unit,
    cloneSources c = (clearWorkDir (.ofString c.settings.workDir) >>= fun _ => rest) ∧
      MadeOf Deed.OfCheckout rest := by
  refine ⟨_, rfl, .look (fun _ _ => rfl) fun w => ?_⟩
  refine .bind (Repository.clone_madeOf _ _ _) fun path => ?_
  refine .bind (.perform (.cloned path c.settings.branch) trivial) fun _ => ?_
  refine .bind (Repository.switchTo_madeOf path _ trivial trivial trivial) fun _ => ?_
  refine .bind (.consult _ fun _ _ _ _ => rfl) fun fault => ?_
  refine .bind (.failWith fault) fun _ => .look (fun _ _ => rfl) fun w => ?_
  exact .bind (.perform (.listed (discover w.disk path)) trivial) fun _ => .say trivial

theorem cloneSources_madeOf : MadeOf Deed.OfClone (cloneSources c) := by
  obtain ⟨rest, he, hrest⟩ := cloneSources_checkout c
  rw [he]
  exact .bind (clearWorkDir_madeOf _) fun _ => hrest.mono fun _ => Deed.OfCheckout.ofClone

def cloning : World := w.after (.said "system" ("Cloning repository: " ++ w.state.repoUrl))

def cloneFailed (f : Failure) : World :=
  (w.after (.erred ("Failed to clone repository: " ++ f.message))).after (.moved .failed)

theorem clone_madeOf : MadeOf Deed.OfCloneNode (clone c) := by
  refine .look (fun _ _ => rfl) fun w => .bind (.say (.inl trivial)) fun _ => ?_
  refine .bind (.attempt ((cloneSources_madeOf c).mono fun _ => .inl)) fun r => ?_
  cases r with
  | error f => exact .bind (.addError (.inr (.inr ⟨_, rfl⟩))) fun _ => .perform (.moved .failed) (.inr (.inl rfl))
  | ok u => exact .pure ()

theorem clone_runIn :
    (clone c).runIn o w =
      match (cloneSources c).runIn o (cloning w) with
      | (.ok (), a) => (.ok (), a)
      | (.error f, a) => (.ok (), cloneFailed a f) := by
  rw [clone, runIn_bind_ok (runIn_get o w), runIn_bind_ok (runIn_say o w _ _), runIn_bind, runIn_attempt, ← cloning]
  rcases (cloneSources c).runIn o (cloning w) with ⟨f | u, a⟩ <;> rfl

theorem unlessFailed_madeOf {P : Deed → Prop} {act : Act Unit} (h : MadeOf P act) : MadeOf P (unlessFailed act) :=
  .look (fun _ _ => rfl) fun _ => .ite h (.pure ())

@[simp] theorem unlessFailed_failed (act : Act Unit) (h : w.state.status = .failed) :
    (unlessFailed act).runIn o w = (.ok (), w) := by
  rw [unlessFailed, runIn_bind_ok (runIn_get o w)]
  simp [h]

@[simp] theorem unlessFailed_runs (act : Act Unit) (h : w.state.status ≠ .failed) :
    (unlessFailed act).runIn o w = act.runIn o w := by
  rw [unlessFailed, runIn_bind_ok (runIn_get o w)]
  simp [h]

theorem test_runIn (h : w.state.status ≠ .failed) :
    (test c).runIn o w = (Tester.run c.testing).runIn o (w.after .counted) := by
  rw [test, unlessFailed_runs o w _ h]
  rfl

theorem createPull_madeOf : MadeOf Deed.OfPull (createPull c) := by
  refine .ite (.say trivial) (.bind (.perform (.moved .review) trivial) fun _ => .bind (.say trivial) fun _ => ?_)
  refine .look (fun _ _ => rfl) fun w => .bind (.attempt (Repository.createPull_madeOf _ _ _)) fun r => ?_
  cases r with
  | error f => exact .addError trivial
  | ok url => exact .say trivial

theorem finalize_madeOf : MadeOf Deed.OfEnd finalize :=
  .look (fun _ _ => rfl) fun _ => .ite
    (.bind (.perform (.moved .completed) trivial) fun _ => .say trivial)
    (.bind (.perform (.moved .failed) trivial) fun _ => .say trivial)

theorem finalize_runIn :
    finalize.runIn o w =
      if w.state.testsPassed then
        (.ok (), (w.after (.moved .completed)).after (.said "system" "Migration completed successfully!"))
      else (.ok (), (w.after (.moved .failed)).after (.said "system" "Migration failed. Please review errors.")) := by
  rw [finalize, runIn_bind_ok (runIn_get o w)]
  split <;> rfl

def Node.Allows : Node → Deed → Prop
  | .clone, d => d.OfCloneNode
  | .planner, d => d = .began .planner ∨ d.OfPlanner
  | .coder, d => d = .began .coder ∨ d.OfCoder
  | .tester, d => d = .counted ∨ d = .began .tester ∨ d.OfTester
  | .createPull, d => d.OfPull
  | .finalize, d => d.OfEnd

theorem Node.act_madeOf (n : Node) : MadeOf n.Allows (n.act c) := by
  cases n with
  | clone => exact clone_madeOf c
  | planner => exact unlessFailed_madeOf ((Planner.run_leads _).madeOf trivial)
  | coder => exact unlessFailed_madeOf ((Coder.run_leads _ _).madeOf trivial)
  | tester =>
    refine unlessFailed_madeOf (.bind (.perform .counted (.inl rfl)) fun _ => ?_)
    exact ((Tester.run_leads _).madeOf trivial).mono fun d => .inr
  | createPull => exact createPull_madeOf c
  | finalize => exact finalize_madeOf

theorem Node.not_ofNone_of_allows (n : Node) {d : Deed} (h : n.Allows d) : ¬d.OfNone := by
  intro hd
  unfold Deed.OfNone at hd
  split at hd
  all_goals
    cases n <;> simp [Node.Allows, Deed.OfCloneNode, Deed.OfClone, Deed.OfCheckout, Deed.OfPlanner, Deed.OfCoder,
      Deed.OfTester, Deed.OfPull, Deed.OfEnd] at h hd

theorem Node.eq_tester_of_allows {n : Node} {d : Deed} (h : n.Allows d) (hd : d.OfTesting) : n = .tester := by
  unfold Deed.OfTesting at hd
  split at hd
  all_goals
    cases n <;> simp [Node.Allows, Deed.OfCloneNode, Deed.OfClone, Deed.OfCheckout, Deed.OfPlanner, Deed.OfCoder,
      Deed.OfPull, Deed.OfEnd] at h hd ⊢

section
variable {P : Deed → Prop}

theorem enter_madeOf (n : Node) : MadeOf Deed.OffRegistry (n.enter c) := by
  refine .bind (.consult _ fun _ _ _ _ => rfl) fun _ => .bind (.failWith _) fun _ => ?_
  refine .bind (.record fun _ => Deed.noConfusion) fun _ => (n.act_madeOf c).mono ?_
  rintro _ h r rfl
  exact n.not_ofNone_of_allows h trivial

theorem route_madeOf (h : ∀ role content, P (.said role content)) : MadeOf P route :=
  .look (fun _ _ => rfl) fun _ =>
    .ite (.pure _) (.ite (.pure _) (.ite (.bind (.say (h _ _)) fun _ => .pure _) (.pure _)))

theorem rounds_madeOf (n : Nat) : MadeOf Deed.OffRegistry (rounds c n) := by
  have hround : MadeOf Deed.OffRegistry (round c) :=
    .bind (enter_madeOf c .coder) fun _ => .bind (enter_madeOf c .tester) fun _ =>
      route_madeOf fun _ _ _ => Deed.noConfusion
  induction n with
  | zero => exact hround
  | succ n ih =>
    refine .bind hround fun r => ?_
    cases r with
    | retry => exact ih
    | createPull | fail => exact .pure _

theorem runGraph_madeOf : MadeOf Deed.OffRegistry (runGraph c) := by
  refine .bind (enter_madeOf c .clone) fun _ => .bind (enter_madeOf c .planner) fun _ => ?_
  refine .look (fun _ _ => rfl) fun w => .bind (rounds_madeOf c _) fun r => ?_
  cases r with
  | retry => exact .pure ()
  | createPull => exact .bind (enter_madeOf c .createPull) fun _ => enter_madeOf c .finalize
  | fail => exact enter_madeOf c .finalize

theorem handBack_madeOf (hr : ∀ r, P (.registered r)) (hm : ∀ m, P (.replaced m)) : MadeOf P handBack := by
  refine .engine hr (fun _ _ => rfl) fun o => ?_
  exact .bind (.modifyRegistry o.engine.meanwhile hr) fun _ => .bind (.failWith _) fun _ => .updateMigration _ hm

theorem run_madeOf (repoUrl kindName : String) : MadeOf (fun _ => True) (run c repoUrl kindName) := by
  refine .bind (.result _) fun kind => .bind (.updateMigration _ fun _ => trivial) fun _ => ?_
  refine .bind ((runGraph_madeOf c).mono fun _ _ => trivial) fun _ => ?_
  refine .bind (handBack_madeOf (fun _ => trivial) fun _ => trivial) fun _ => ?_
  exact .look (fun _ _ => rfl) fun _ => .pure _

theorem Crew.setUp_madeOf (hw : ∀ text, P (.event (.wrote text))) (hc : ∀ b, P (.connected b)) (s : Settings) :
    MadeOf P (Crew.setUp s) := by
  have hsetUp : ∀ a : Agent, MadeOf P (a.setUp s) := by
    refine fun a => .ite (.outside (fun _ _ _ => rfl) fun o => ?_) (.bind (.record (hw _)) fun _ => .pure false)
    cases o.assistantFault with
    | none => exact .pure true
    | some text => exact .bind (.record (hw _)) fun _ => .pure false
  refine .bind (.perform (.connected false) (hc _)) fun _ => .bind (hsetUp .planner) fun _ => ?_
  exact .bind (hsetUp .coder) fun _ => .bind (hsetUp .tester) fun _ => .pure _

end

end Workflow

end CodeMigration
