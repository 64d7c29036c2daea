import CodeMigration.Program
import CodeMigration.Proofs.WorkflowVerdict

/-! # What is published, and who decides

A run commits, pushes or asks for a merge exactly if the settings of the environment ask for it, the tests
passed, and the clone can be opened and staged. What the caller wishes has no part in it: neither a wish for no
pull request nor one for a dry run reaches the workflow. -/

namespace CodeMigration

open Act

variable {α β : Type}

def Act.publishes (t : Act α) (o : Outside) (w : World) : Bool :=
  ((t.runIn o w).2.log.drop w.log.length).any Event.publishes

/-- A deed that publishes nothing. -/
def Deed.Quiet (d : Deed) : Prop := ∀ e, d = .event e → e.publishes = false

theorem Deed.quiet_event {e : Event} (he : e.publishes = false) : (Deed.event e).Quiet := by
  rintro e' ⟨⟩
  exact he

namespace Act

variable {P Q : Deed → Prop} {o : Outside} {w : World} {t : Act α} {f : α → Act β}

theorem publishes_of_log {es : Log} (h : (t.runIn o w).2.log = w.log ++ es) :
    t.publishes o w = es.any Event.publishes := by
  rw [publishes, h, List.drop_left]

theorem MadeOf.not_publishes (h : MadeOf Deed.Quiet t) (o : Outside) (w : World) : t.publishes o w = false := by
  obtain ⟨es, hlog, hes⟩ := (h.through o w).log
  rw [publishes_of_log hlog, List.any_eq_false]
  intro e he
  rw [hes e he e rfl]
  exact Bool.false_ne_true

/-- What is published in two acts in a row is published in the first, or in the second if there is one. -/
theorem publishes_bind (ht : MadeOf P t) (hf : ∀ a, MadeOf Q (f a)) :
    (t >>= f).publishes o w = (t.publishes o w || match t.runIn o w with
      | (.ok a, w') => (f a).publishes o w'
      | (.error _, _) => false) := by
  obtain ⟨es, hlog, -⟩ := (ht.through o w).log
  rw [publishes_of_log hlog]
  rcases hrun : t.runIn o w with ⟨e | a, w'⟩
  · rw [hrun] at hlog
    rw [Bool.or_false]
    exact publishes_of_log (by rw [runIn_bind_error hrun]; exact hlog)
  · rw [hrun] at hlog
    have hlog : w'.log = w.log ++ es := hlog
    obtain ⟨es', hlog', -⟩ := ((hf a).through o w').log
    have hall : ((t >>= f).runIn o w).2.log = w.log ++ (es ++ es') := by
      rw [runIn_bind_ok hrun, hlog', hlog, List.append_assoc]
    rw [publishes_of_log hall, List.any_append]
    exact congrArg (es.any Event.publishes || ·) (publishes_of_log hlog').symm

theorem publishes_quiet_bind (ht : MadeOf Deed.Quiet t) (hf : ∀ a, MadeOf P (f a)) :
    (t >>= f).publishes o w = match t.runIn o w with
      | (.ok a, w') => (f a).publishes o w'
      | (.error _, _) => false := by
  rw [publishes_bind ht hf, ht.not_publishes, Bool.false_or]

theorem publishes_bind_quiet (ht : MadeOf P t) (hf : ∀ a, MadeOf Deed.Quiet (f a)) :
    (t >>= f).publishes o w = t.publishes o w := by
  rw [publishes_bind ht hf]
  rcases t.runIn o w with ⟨e | a, w'⟩
  · exact Bool.or_false _
  · exact (congrArg (t.publishes o w || ·) ((hf a).not_publishes o w')).trans (Bool.or_false _)

/-- An act that leaves no trace in the log, before another. -/
theorem publishes_bind_of_log {a : α} {w' : World} (hrun : t.runIn o w = (.ok a, w'))
    (hlog : w'.log = w.log) (f : α → Act β) : (t >>= f).publishes o w = (f a).publishes o w' := by
  rw [publishes, publishes, runIn_bind_ok hrun, hlog]

theorem publishes_result_bind (r : Except Failure α) (f : α → Act β) : (result r >>= f).publishes o w = match r with
      | .ok a => (f a).publishes o w
      | .error _ => false := by
  cases r with
  | ok a => exact publishes_bind_of_log (runIn_result o w (.ok a)) rfl f
  | error e =>
    have hlog : ((result (.error e) >>= f).runIn o w).2.log = w.log ++ [] := by
      rw [runIn_bind_error (runIn_result o w (.error e)), List.append_nil]
    exact publishes_of_log hlog

theorem publishes_observe_bind {e : Event} {f : Outside → Log → α} {k : α → Act β} (hk : ∀ a, MadeOf P (k a))
    (natural : ∀ o h engine log, f ((o.hearing h).withEngine engine) log = f o (h log)) :
    (observe e f >>= k).publishes o w =
      (e.publishes || (k (f o (w.log ++ [e]))).publishes o (w.after (.event e))) := by
  have he : MadeOf (fun _ => True) (observe e f) := .observe trivial natural
  have hlog : ((observe e f).runIn o w).2.log = w.log ++ [e] := rfl
  rw [publishes_bind he hk, publishes_of_log hlog, List.any_cons, List.any_nil, Bool.or_false]
  rfl

end Act

namespace Repository

variable {P : Deed → Prop} {o : Outside} {w : World}

theorem onClone_runIn (e : Event) (f : Outside → Log → α) :
    (onClone e f).runIn o w = match o.gitFault (w.log ++ [e]) with
      | none => (.ok (f o (w.log ++ [e])), w.after (.event e))
      | some text => (.error (.reported text), w.after (.event e)) := by
  rw [onClone, runIn_bind_ok (runIn_observe o w _ _)]
  cases o.gitFault (w.log ++ [e]) <;> rfl

theorem onClone_publishes (e : Event) (f : Outside → Log → α) : (onClone e f).publishes o w = e.publishes := by
  have hlog : ((onClone e f).runIn o w).2.log = w.log ++ [e] := by
    rw [onClone_runIn]
    cases o.gitFault (w.log ++ [e]) <;> rfl
  rw [publishes_of_log hlog, List.any_cons, List.any_nil, Bool.or_false]

/-- What follows a call on a clone is done if that did not fail. -/
theorem publishes_onClone_bind {e : Event} {f : Outside → Log → α} {k : α → Act β} (hk : ∀ a, MadeOf P (k a))
    (natural : ∀ o h engine log, f ((o.hearing h).withEngine engine) log = f o (h log)) :
    (onClone e f >>= k).publishes o w = (e.publishes ||
      (o.gitFault (w.log ++ [e])).isNone && (k (f o (w.log ++ [e]))).publishes o (w.after (.event e))) := by
  have he : MadeOf (fun _ => True) (onClone e f) := onClone_madeOf trivial natural
  rw [publishes_bind he hk, onClone_publishes, onClone_runIn]
  cases o.gitFault (w.log ++ [e]) <;> rfl

theorem publishes_doOnClone_bind {e : Event} {k : Unit → Act β} (hk : ∀ a, MadeOf P (k a)) :
    (doOnClone e >>= k).publishes o w =
      (e.publishes || (o.gitFault (w.log ++ [e])).isNone && (k ()).publishes o (w.after (.event e))) :=
  publishes_onClone_bind hk fun _ _ _ _ => rfl

/-- Whether what is staged comes to be committed behind a log. -/
def commits (o : Outside) (log : Log) : Bool :=
  let named := log ++ [.configured "user" "name" authorName]
  (o.gitFault named).isNone && (o.gitFault (named ++ [.configured "user" "email" authorEmail])).isNone

/-- Whether a clone at a path can be staged behind a log, and then comes to be committed or, if there is nothing to
commit, to be pushed. -/
def stages (o : Outside) (path : FilePath) (log : Log) : Bool :=
  let opened := log ++ [.opened path]
  let staged := opened ++ [.staged]
  (o.gitFault opened).isNone && ((o.gitFault staged).isNone &&
    if !o.isDirty staged && (o.untracked staged).isEmpty then (o.gitFault (staged ++ [.opened path])).isNone
    else commits o staged)

/-- Whether a clone at a path comes to be handed over behind a log: it can be opened, its origin is read, and it
can be staged. -/
def handsOver (o : Outside) (path : FilePath) (log : Log) : Bool :=
  let opened := log ++ [.opened path]
  (o.gitFault opened).isNone && ((RemoteUrl.owner (o.remoteUrl opened)).isOk && stages o path opened)

theorem push_publishes (path : FilePath) (branch : String) {k : Unit → Act α} (hk : ∀ a, MadeOf (fun _ => True) (k a)) :
    (push path branch >>= k).publishes o w = (o.gitFault (w.log ++ [.opened path])).isNone := by
  have hfail : ∀ fault, MadeOf (fun _ => True) (failWith fault >>= k) := fun fault => .bind (.failWith fault) hk
  have hpush : ∀ a : Unit, MadeOf (fun _ => True) (observe (.pushed branch) Outside.pushFault >>= fun fault =>
      failWith fault >>= k) := fun _ => .bind (.observe trivial fun _ _ _ _ => rfl) hfail
  simp only [push, bind_assoc]
  rw [publishes_doOnClone_bind hpush, publishes_observe_bind hfail fun _ _ _ _ => rfl]
  simp [Event.publishes]

theorem commitStaged_publishes (message : String) {k : String → Act α} (hk : ∀ a, MadeOf (fun _ => True) (k a)) :
    (commitStaged message >>= k).publishes o w = commits o w.log := by
  have hcommit : ∀ a : Unit, MadeOf (fun _ => True) (onClone (.committed message) Outside.sha >>= k) := fun _ =>
    .bind (onClone_madeOf trivial fun _ _ _ _ => rfl) hk
  have hemail : ∀ a : Unit, MadeOf (fun _ => True) (doOnClone (.configured "user" "email" authorEmail) >>= fun _ =>
      onClone (.committed message) Outside.sha >>= k) := fun _ => .bind (doOnClone_madeOf trivial) hcommit
  simp only [commitStaged, bind_assoc]
  rw [publishes_doOnClone_bind hemail, publishes_doOnClone_bind hcommit, publishes_onClone_bind hk fun _ _ _ _ => rfl]
  simp [Event.publishes, World.after, commits]

/-- Committing and then pushing: one of them is come to unless an earlier call fails, whatever follows. -/
theorem commit_push_publishes (path : FilePath) (message branch : String) {k : Unit → Act α}
    (hk : ∀ a, MadeOf (fun _ => True) (k a)) :
    (commit path message >>= fun _ => push path branch >>= k).publishes o w = stages o path w.log := by
  have hpush : ∀ a : String, MadeOf (fun _ => True) (push path branch >>= k) := fun _ =>
    .bind ((push_madeOf path branch).mono fun _ _ => trivial) hk
  have hcommit : ∀ seen : Bool × List String, MadeOf (fun _ => True)
      ((if !seen.1 && seen.2.isEmpty then pure "" else commitStaged message) >>= fun _ =>
        push path branch >>= k) := fun seen =>
    .bind (.ite (.pure "") ((commitStaged_madeOf message).mono fun _ _ => trivial)) hpush
  have hstage := fun a : Unit => MadeOf.bind
    (onClone_madeOf (P := fun _ => True) (e := .staged) (f := fun o log => (o.isDirty log, o.untracked log)) trivial
      fun _ _ _ _ => rfl) hcommit
  have hseen : ∀ (seen : Bool × List String) (w : World),
      ((if !seen.1 && seen.2.isEmpty then pure "" else commitStaged message) >>= fun _ =>
        push path branch >>= k).publishes o w =
      if !seen.1 && seen.2.isEmpty then (o.gitFault (w.log ++ [.opened path])).isNone else commits o w.log := by
    intro seen w
    split
    · rw [pure_bind, push_publishes path branch hk]
    · rw [commitStaged_publishes message hpush]
  simp only [commit, bind_assoc]
  rw [publishes_doOnClone_bind hstage, publishes_onClone_bind hcommit fun _ _ _ _ => rfl, hseen]
  rfl

theorem createPull_publishes (a : Access) (path : FilePath) (draft : PullDraft) :
    (createPull a path draft).publishes o w = handsOver o path w.log := by
  have hrest : ∀ r : Except Failure (String × String), MadeOf Deed.OfPull (result r >>= fun repo =>
      commit path ("[DevAssist] Migration changes\n\n" ++ draft.title) >>= fun _ =>
        push path draft.branch >>= fun _ => askToMerge a (repo.1 ++ "/" ++ repo.2) draft) := fun r =>
    .bind (.result r) fun repo => .bind (commit_madeOf path _) fun _ => .bind (push_madeOf path _) fun _ =>
      askToMerge_madeOf a _ draft
  have hopened := publishes_onClone_bind (e := .opened path) (f := Outside.remoteUrl) (o := o) (w := w)
    (fun url => hrest (RemoteUrl.owner url)) fun _ _ _ _ => rfl
  simp only [createPull, origin, bind_assoc]
  rw [hopened, publishes_result_bind]
  cases howner : RemoteUrl.owner (o.remoteUrl (w.log ++ [.opened path])) with
  | error f => simp [handsOver, howner, Event.publishes, Except.isOk, Except.toBool]
  | ok repo =>
    have hpushed := commit_push_publishes (o := o) (w := w.after (.event (.opened path))) path
      ("[DevAssist] Migration changes\n\n" ++ draft.title) draft.branch
      fun _ => (askToMerge_madeOf a (repo.1 ++ "/" ++ repo.2) draft).mono fun _ _ => trivial
    simp only [handsOver, howner, hpushed]
    rfl

end Repository

namespace Workflow

variable {o : Outside} {w : World}

theorem createPull_publishes (c : Crew) : (createPull c).publishes o w =
      (c.settings.autoPullRequest && Repository.handsOver o (w.state.repoPath.getD (.ofString "")) w.log) := by
  have hsay : ∀ role content, MadeOf Deed.Quiet (say role content) := fun role content =>
    .say fun _ h => Deed.noConfusion h
  unfold createPull
  split
  case isTrue hauto =>
    rw [(hsay _ _).not_publishes]
    simp_all
  case isFalse hauto =>
    have hauto : c.settings.autoPullRequest = true := by simpa using hauto
    rw [hauto, Bool.true_and, publishes_bind_of_log (runIn_updateMigration o w _) rfl,
      publishes_bind_of_log (runIn_say o _ _ _) rfl, publishes_bind_of_log (runIn_get o _) rfl,
      publishes_bind_quiet (.attempt (Repository.createPull_madeOf _ _ _)) ?_]
    · exact Repository.createPull_publishes _ _ _
    · intro r
      cases r with
      | error f => exact .addError fun _ h => Deed.noConfusion h
      | ok url => exact hsay _ _

/-- A visit publishes something only to the node for it, if the engine lets it be entered, the settings ask for that
and the clone can be handed over then. -/
theorem Visit.publishes_iff {c : Crew} {v : Visit} {r : Except Failure Unit}
    (run : (v.node.enter c).runIn o v.before = (r, v.after)) :
    v.events.any Event.publishes = true ↔ v.node = .createPull ∧ c.settings.autoPullRequest = true ∧
      o.stepFault v.before.log = none ∧ Repository.handsOver o (v.before.state.repoPath.getD (.ofString ""))
        (v.before.log ++ [.entered Node.createPull.name]) = true := by
  have hpull : v.node = .createPull → (v.events.any Event.publishes = ((o.stepFault v.before.log).isNone &&
      (c.settings.autoPullRequest && Repository.handsOver o (v.before.state.repoPath.getD (.ofString ""))
        (v.before.log ++ [.entered Node.createPull.name])))) := by
    intro hn
    have hevents : v.events.any Event.publishes = (Node.createPull.enter c).publishes o v.before := by
      rw [Visit.events, Act.publishes, ← hn, run]
    have hquiet : MadeOf Deed.Quiet (record (.entered Node.createPull.name)) := .record (Deed.quiet_event rfl)
    rw [hevents, Node.enter, publishes_bind_of_log (runIn_consult o v.before _) rfl]
    cases o.stepFault v.before.log with
    | some text => exact publishes_result_bind (.error (.reported text)) _
    | none =>
      rw [failWith, pure_bind, publishes_quiet_bind hquiet fun _ => Node.act_madeOf c .createPull]
      exact createPull_publishes c
  constructor
  · intro hany
    obtain ⟨e, he, hpub⟩ := List.any_eq_true.1 hany
    obtain ⟨pre, post, hsplit⟩ := List.append_of_mem he
    have hn := (Visit.publications run hsplit hpub).1
    rw [hpull hn, Bool.and_eq_true_iff, Bool.and_eq_true_iff, Option.isNone_iff_eq_none] at hany
    exact ⟨hn, hany.2.1, hany.1, hany.2.2⟩
  · rintro ⟨hn, hauto, hstep, hover⟩
    rw [hpull hn, hauto, hstep, hover]
    rfl

/-- A run publishes something exactly if the settings ask for that, and it comes to the node for it with a clone that
can be handed over. -/
theorem runGraph_publishes_iff (c : Crew) (o : Outside) (w : World) :
    (runGraph c).publishes o w = true ↔ c.settings.autoPullRequest = true ∧ ∃ s, Reached c o w .createPull s ∧
      o.stepFault s.log = none ∧ Repository.handsOver o (s.state.repoPath.getD (.ofString ""))
        (s.log ++ [.entered Node.createPull.name]) = true := by
  obtain ⟨vs, hvs⟩ := runGraph_walk c o w
  rw [publishes_of_log hvs.log, List.any_flatMap, List.any_eq_true]
  constructor
  · rintro ⟨v, hv, hany⟩
    obtain ⟨q, run, -⟩ := hvs.visited v hv
    obtain ⟨hn, hauto, hover⟩ := (Visit.publishes_iff run).1 hany
    exact ⟨hauto, v.before, hn ▸ hvs.reached .start v hv, hover⟩
  · rintro ⟨hauto, s, hs, hover⟩
    obtain ⟨a, hv⟩ := hs.visit hvs
    obtain ⟨q, run, -⟩ := hvs.visited _ hv
    exact ⟨_, hv, (Visit.publishes_iff run).2 ⟨rfl, hauto, hover⟩⟩

/-- A run from a world on comes to publish something: the settings ask for that, the node for it is reached within the
limit on steps, and the clone can be handed over there. -/
def ComesToPublish (c : Crew) (o : Outside) (repoUrl kindName : String) (w : World) : Prop :=
  c.settings.autoPullRequest = true ∧ ∃ kind s, MigrationKind.ofName kindName = .ok kind ∧
    Reached c o (w.after (.replaced { repoUrl, kind })) .createPull s ∧ o.stepFault s.log = none ∧
    Repository.handsOver o (s.state.repoPath.getD (.ofString "")) (s.log ++ [.entered Node.createPull.name]) = true

theorem run_publishes_iff (c : Crew) (o : Outside) (repoUrl kindName : String) (w : World) :
    (run c repoUrl kindName).publishes o w = true ↔ ComesToPublish c o repoUrl kindName w := by
  have hback : ∀ a : Unit, MadeOf Deed.Quiet (handBack >>= fun _ => get >>= fun w : World =>
      pure (outcome w.state)) := fun _ =>
    .bind (handBack_madeOf (fun _ _ => Deed.noConfusion) fun _ _ => Deed.noConfusion) fun _ =>
      .look (fun _ _ => rfl) fun _ => .pure _
  unfold ComesToPublish run
  rw [publishes_result_bind]
  cases hkind : MigrationKind.ofName kindName with
  | error f => simp
  | ok kind =>
    dsimp only
    rw [publishes_bind_of_log (runIn_updateMigration o w _) rfl, publishes_bind_quiet (runGraph_madeOf c) hback]
    refine (runGraph_publishes_iff c o _).trans (and_congr_right fun _ => ?_)
    constructor
    · rintro ⟨s, hs, hover⟩
      exact ⟨kind, s, rfl, hs, hover⟩
    · rintro ⟨kind', s, ⟨⟩, hs, hover⟩
      exact ⟨s, hs, hover⟩

theorem setUp_quiet (s : Settings) : MadeOf Deed.Quiet (Crew.setUp s) :=
  Crew.setUp_madeOf (fun _ => Deed.quiet_event rfl) (fun _ _ => Deed.noConfusion) s

/-- A crew is set up by the settings of the environment, and what it does then is published. -/
theorem setUp_publishes_iff (env : Environment) {k : Crew → Act α} (hk : ∀ c, MadeOf (fun _ => True) (k c)) :
    (result (Settings.ofEnvironment env) >>= fun s => Crew.setUp s >>= k).publishes o w = true ↔
      ∃ s c w₁, Settings.ofEnvironment env = .ok s ∧ (Crew.setUp s).runIn o w = (.ok c, w₁) ∧
        (k c).publishes o w₁ = true := by
  rw [publishes_result_bind]
  cases Settings.ofEnvironment env with
  | error f => simp
  | ok s =>
    dsimp only
    rw [publishes_quiet_bind (setUp_quiet s) hk]
    constructor
    · intro h
      rcases hrun : (Crew.setUp s).runIn o w with ⟨f | c, w₁⟩
      · rw [hrun] at h
        cases h
      · rw [hrun] at h
        exact ⟨s, c, w₁, rfl, hrun, h⟩
    · rintro ⟨s', c, w₁, ⟨⟩, hrun, h⟩
      rw [hrun]
      exact h

end Workflow

namespace Program

variable {o : Outside} {w : World}

theorem printMarked_quiet (text : String) : MadeOf Deed.Quiet (printMarked text) := .record (Deed.quiet_event rfl)

theorem showOutcome_quiet (r : Outcome) : MadeOf Deed.Quiet (showOutcome r) := by
  have herrors : MadeOf Deed.Quiet (showErrors r.state.errors) := by
    refine .ite (.bind (printMarked_quiet _) fun _ => ?_) (.pure ())
    exact .bind (.forIn (fun e _ => .bind (printMarked_quiet _) fun _ => .pure _) _ _) fun _ => .pure _
  refine .bind (printMarked_quiet _) fun _ => .bind (.record (Deed.quiet_event rfl)) fun _ => ?_
  exact .bind herrors fun _ => .ite (printMarked_quiet _) (.pure ())

theorem runWorkflow_madeOf (env : Environment) (url kind : String) :
    MadeOf (fun _ => True) (runWorkflow env url kind) := by
  refine .bind (.result _) fun s => .bind ((Workflow.setUp_quiet s).mono fun _ _ => trivial) fun c => ?_
  refine .bind (Workflow.run_madeOf c url kind) fun r => .bind (.record trivial) fun _ => ?_
  exact (showOutcome_quiet r).mono fun _ _ => trivial

theorem close_quiet (task : String) (r : Except Failure Unit) : MadeOf Deed.Quiet (close task r) := by
  cases r with
  | ok u => exact .bind (.record (Deed.quiet_event rfl)) fun _ => .pure 0
  | error f =>
    refine .bind (.record (Deed.quiet_event rfl)) fun _ => .bind (printMarked_quiet _) fun _ => ?_
    exact .bind (.record (Deed.quiet_event rfl)) fun _ => .bind (.record (Deed.quiet_event rfl)) fun _ => .pure 1

theorem underWay_madeOf (task : String) {work : Act Unit} (hwork : MadeOf (fun _ => True) work) :
    MadeOf (fun _ => True) (underWay task work) :=
  .bind (.record trivial) fun _ => .bind (.attempt hwork) fun r => (close_quiet task r).mono fun _ _ => trivial

theorem underWay_publishes (task : String) {work : Act Unit} (hwork : MadeOf (fun _ => True) work) :
    (underWay task work).publishes o w = work.publishes o (w.after (.event (.started task))) := by
  have hstart : MadeOf Deed.Quiet (record (.started task)) := .record (Deed.quiet_event rfl)
  rw [underWay, publishes_quiet_bind hstart fun _ => .bind (.attempt hwork) fun r =>
    (close_quiet task r).mono fun _ _ => trivial]
  exact publishes_bind_quiet (.attempt hwork) (close_quiet task)

def announcement (r : MigrateRequest) : Log :=
  [.printed ("\n[bold blue]DevAssist[/bold blue] v" ++ version),
    .printed ("Migration type: [cyan]" ++ r.kind ++ "[/cyan]"),
    .printed ("Repository: [cyan]" ++ r.url ++ "[/cyan]\n")] ++
  if r.dryRun then [.printed "[yellow]Dry run mode - no changes will be made[/yellow]\n"] else []

theorem announce_runIn (r : MigrateRequest) :
    (announce r).runIn o w = (.ok (), { w with log := w.log ++ announcement r }) := by
  have hlines : ∀ a b c : Event, w.log ++ [a] ++ [b] ++ [c] = w.log ++ [a, b, c] := by simp
  rw [announce, printMarked, printMarked, printMarked, runIn_bind_ok (runIn_record o w _),
    runIn_bind_ok (runIn_record o _ _), runIn_bind_ok (runIn_record o _ _)]
  dsimp only
  rw [hlines, announcement]
  split
  · rw [printMarked, runIn_record, List.append_assoc]
  · rw [runIn_pure, List.append_nil]

theorem runWorkflow_publishes_iff (env : Environment) (url kind : String) :
    (runWorkflow env url kind).publishes o w = true ↔ ∃ s c w₁, Settings.ofEnvironment env = .ok s ∧
      (Workflow.Crew.setUp s).runIn o w = (.ok c, w₁) ∧ Workflow.ComesToPublish c o url kind w₁ := by
  have hshow : ∀ r : Outcome, MadeOf Deed.Quiet (record .finished >>= fun _ => showOutcome r) := fun r =>
    .bind (.record (Deed.quiet_event rfl)) fun _ => showOutcome_quiet r
  have hrun : ∀ c, (Workflow.run c url kind >>= fun r => record .finished >>= fun _ => showOutcome r).publishes =
      (Workflow.run c url kind).publishes := by
    intro c
    funext o w
    exact publishes_bind_quiet (Workflow.run_madeOf c url kind) hshow
  rw [runWorkflow, Workflow.setUp_publishes_iff env fun c => .bind (Workflow.run_madeOf c url kind) fun r =>
    (hshow r).mono fun _ _ => trivial]
  simp only [hrun, Workflow.run_publishes_iff]

/-- The log with another event in it, behind the first so many. -/
def inserted (n : Nat) (e : Event) (log : Log) : Log := log.take n ++ e :: log.drop n

theorem inserted_append {n : Nat} (e : Event) {log : Log} (x : Event) (h : n ≤ log.length) :
    inserted n e (log ++ [x]) = inserted n e log ++ [x] := by
  rw [inserted, inserted, List.take_append_of_le_length h, List.drop_append_of_le_length h, List.append_assoc,
    List.cons_append]

def announced (r : MigrateRequest) (w : World) : World :=
  { w with log := w.log ++ announcement r ++ [.started "Running migration workflow..."] }

theorem migrate_publishes_iff (env : Environment) (r : MigrateRequest) (o : Outside) (w : World) :
    (migrate env r).publishes o w = true ↔ ∃ s c w₁, Settings.ofEnvironment env = .ok s ∧
      (Workflow.Crew.setUp s).runIn o (announced r w) = (.ok c, w₁) ∧
      Workflow.ComesToPublish c o r.url r.kind w₁ := by
  have hannounce : MadeOf Deed.Quiet (announce r) := by
    refine .bind (printMarked_quiet _) fun _ => .bind (printMarked_quiet _) fun _ => ?_
    exact .bind (printMarked_quiet _) fun _ => .ite (printMarked_quiet _) (.pure ())
  have hwork := runWorkflow_madeOf env r.url r.kind
  rw [migrate, publishes_quiet_bind hannounce fun _ => underWay_madeOf _ hwork, announce_runIn]
  dsimp only
  rw [underWay_publishes _ hwork, runWorkflow_publishes_iff]
  rfl

def dryRunLine : Event := .printed "[yellow]Dry run mode - no changes will be made[/yellow]\n"

/-- A dry run is the run that it would be otherwise, but that a line is shown and all services hear of it. -/
theorem migrate_dryRun (env : Environment) (r : MigrateRequest) (o : Outside) (w : World) :
    let h := inserted (w.log.length + 3) dryRunLine
    let done := (migrate env { r with dryRun := false }).runIn (o.hearing h) w
    (migrate env { r with dryRun := true }).runIn o w = (done.1, { done.2 with log := h done.2.log }) := by
  intro h done
  have hwork := underWay_madeOf "Running migration workflow..." (runWorkflow_madeOf env r.url r.kind)
  let shown : World := { w with log := w.log ++ announcement { r with dryRun := false } }
  have hlength : shown.log.length = w.log.length + 3 := List.length_append
  have hlog : h shown.log = shown.log ++ [dryRunLine] := by
    change inserted _ _ _ = _
    rw [inserted, ← hlength, List.take_length, List.drop_length]
  have hline : announcement { r with dryRun := true } = announcement { r with dryRun := false } ++ [dryRunLine] := rfl
  have hshown : { w with log := w.log ++ announcement { r with dryRun := true } } =
      { shown with log := h shown.log } := by
    rw [hlog, hline, ← List.append_assoc]
  have hdone : done = (underWay "Running migration workflow..." (runWorkflow env r.url r.kind)).runIn
      (o.hearing h) shown := runIn_bind_ok (announce_runIn _) _
  rw [migrate, runIn_bind_ok (announce_runIn _), hshown, hdone]
  exact hwork.runIn_elsewhere o (.inl rfl) (fun log e hlog => inserted_append _ e hlog) shown
    (Nat.le_of_eq hlength.symm)

end Program

namespace Service

theorem updateJob_runIn (o : Outside) (w : World) (id : String) (f : Job → Job) :
    (updateJob id f).runIn o w = (.ok (), w.after (.registered (w.registry.update id f))) := rfl

theorem updateJob_madeOf {P : Deed → Prop} (hr : ∀ r, P (.registered r)) (id : String) (f : Job → Job) :
    MadeOf P (updateJob id f) := .modifyRegistry (·.update id f) hr

theorem runRepo_madeOf (env : Environment) (id : String) (r : RepoRequest) :
    MadeOf (fun _ => True) (runRepo env id r) := by
  refine .bind (updateJob_madeOf (fun _ => trivial) id _) fun _ => .bind (.result _) fun s => ?_
  refine .bind ((Workflow.setUp_quiet s).mono fun _ _ => trivial) fun c => ?_
  exact .bind (updateJob_madeOf (fun _ => trivial) id _) fun _ => Workflow.run_madeOf c _ _

theorem processRepo_publishes_iff (env : Environment) (id : String) (r : RepoRequest) (o : Outside) (w : World) :
    (processRepo env id r).publishes o w = true ↔ w.registry.has id = true ∧
      ∃ s c w₁, Settings.ofEnvironment env = .ok s ∧
        (Workflow.Crew.setUp s).runIn o (w.after (.registered (w.registry.update id (taken r)))) = (.ok c, w₁) ∧
        Workflow.ComesToPublish c o r.url r.kind (w₁.after (.registered (w₁.registry.update id processing))) := by
  have hquiet : ∀ f, MadeOf Deed.Quiet (updateJob id f) := updateJob_madeOf (fun _ _ => Deed.noConfusion) id
  have hprocess : ∀ (c : Workflow.Crew) (w : World),
      (updateJob id processing >>= fun _ => Workflow.run c r.url r.kind).publishes o w = true ↔
        Workflow.ComesToPublish c o r.url r.kind (w.after (.registered (w.registry.update id processing))) := by
    intro c w
    rw [publishes_bind_of_log (updateJob_runIn o w id processing) rfl, Workflow.run_publishes_iff]
  rw [processRepo, publishes_bind_of_log (runIn_get o w) rfl]
  split
  case isTrue hid =>
    rw [publishes_bind_quiet (.attempt (runRepo_madeOf env id r)) ?_]
    · change (runRepo env id r).publishes o w = true ↔ _
      rw [runRepo, publishes_bind_of_log (updateJob_runIn o w id (taken r)) rfl,
        Workflow.setUp_publishes_iff env fun c => .bind (updateJob_madeOf (fun _ => trivial) id _) fun _ =>
          Workflow.run_madeOf c _ _]
      simp only [hprocess, hid, true_and]
    · intro result
      cases result with
      | ok outcome => exact hquiet _
      | error f => exact .look (fun _ _ => rfl) fun w => .ite (hquiet _) (.pure ())
  case isFalse hid =>
    have hnothing : (pure () : Act Unit).publishes o w = false := MadeOf.not_publishes (.pure ()) o w
    rw [hnothing]
    simp [hid]

end Service

/-- The settings of the environment, the tests and the clone decide whether a migration publishes something, and a
wish for no pull request or for a dry run has no part in it, neither in the program nor in the service. A dry run
does all that the run would do otherwise, to each file, and only shows another line. -/
theorem publication_by_settings_alone (env : Environment) (o : Outside) (w : World) :
    (∀ r : Program.MigrateRequest, (Program.migrate env r).publishes o w = true ↔
      ∃ s c w₁, Settings.ofEnvironment env = .ok s ∧
        (Workflow.Crew.setUp s).runIn o (Program.announced r w) = (.ok c, w₁) ∧
        Workflow.ComesToPublish c o r.url r.kind w₁) ∧
    (∀ (id : String) (r : Service.RepoRequest), (Service.processRepo env id r).publishes o w = true ↔
      w.registry.has id = true ∧
        ∃ s c w₁, Settings.ofEnvironment env = .ok s ∧
          (Workflow.Crew.setUp s).runIn o (w.after (.registered (w.registry.update id (Service.taken r)))) =
            (.ok c, w₁) ∧
          Workflow.ComesToPublish c o r.url r.kind
            (w₁.after (.registered (w₁.registry.update id Service.processing)))) ∧
    ∀ r : Program.MigrateRequest,
      let h := Program.inserted (w.log.length + 3) Program.dryRunLine
      let done := (Program.migrate env { r with dryRun := false }).runIn (o.hearing h) w
      (Program.migrate env { r with dryRun := true }).runIn o w = (done.1, { done.2 with log := h done.2.log }) :=
  ⟨fun r => Program.migrate_publishes_iff env r o w, fun id r => Service.processRepo_publishes_iff env id r o w,
    fun r => Program.migrate_dryRun env r o w⟩

/-- A caller who wishes for no pull request and a dry run gets a commit and a rewritten file. -/
theorem declined_migration_publishes :
    (Program.run [] 80 ["migrate", "https://github.com/o/r", "--no-pr", "--dry-run"]).publishes
        Workflow.flakyOutside {} = true ∧
      (((Program.run [] 80 ["migrate", "https://github.com/o/r", "--no-pr", "--dry-run"]).runIn
        Workflow.flakyOutside {}).2.disk.readBytes (.ofString ".devassist_work/r/a.py")).toOption =
          some (Text.encode "range(3)\n") ∧
      (Service.processRepo [] (Registry.identifier 0) { url := "https://github.com/o/r", pullRequest := false }).publishes
        Workflow.flakyOutside { registry := ({} : Registry).add { status := "pending", kind := "py2to3" } } = true := by
  refine ⟨?_, ?_, ?_⟩ <;> decide +kernel

end CodeMigration
