import CodeMigration.Proofs.WorkflowWalk

/-! # The verdict on a run

A run that returns has completed or failed. It has completed exactly if its last tests passed, and exactly
then the node that asks for a merge was executed. Nothing is published before the last tester is done, and
where cloning fails nothing is done any more. -/

namespace CodeMigration

open Act

/-- Whether something was handed on for others to see. -/
def Event.publishes : Event → Bool
  | .committed _ | .pushed _ | .pullCreated .. => true
  | _ => false

/-- Whether the assistant was asked, a program was run, or something was handed on. -/
def Event.works : Event → Bool
  | .asked _ | .tested .. | .commanded .. => true
  | e => e.publishes

namespace Workflow

variable {c : Crew} {o : Outside} {n : Node} {e : Event} {r : Except Failure Unit} {a w w' : World} {vs : List Visit}

theorem Node.eq_createPull_of_publishes (h : n.Allows (.event e)) (he : e.publishes = true) : n = .createPull := by
  cases n with
  | createPull => rfl
  | clone =>
    rcases h with h | h | ⟨text, h⟩
    · cases e <;> first | exact False.elim h | cases he
    · cases h
    · cases h
  | planner | coder =>
    rcases h with h | h
    · cases h
    · cases e <;> first | exact False.elim h | cases he
  | tester =>
    rcases h with h | h | h
    · cases h
    · cases h
    · cases e <;> first | exact False.elim h | cases he
  | finalize => exact False.elim h

def Visit.events (v : Visit) : Log := v.after.log.drop v.before.log.length

theorem Visit.events_eq {v : Visit}
    (run : (v.node.act c).runIn o (v.before.after (.event (.entered v.node.name))) = (r, v.after)) :
    ∃ es, v.after.log = v.before.log ++ .entered v.node.name :: es ∧ v.events = .entered v.node.name :: es ∧
      ∀ e ∈ es, v.node.Allows (.event e) := by
  obtain ⟨es, hlog, hes⟩ := ((v.node.act_madeOf c).through o (v.before.after (.event (.entered v.node.name)))).log
  rw [run] at hlog
  have hlog' : v.after.log = v.before.log ++ .entered v.node.name :: es := by
    rw [hlog]
    exact List.append_assoc _ _ _
  exact ⟨es, hlog', by rw [Visit.events, hlog', List.drop_left], hes⟩

theorem Visit.log_eq {v : Visit} (run : (v.node.enter c).runIn o v.before = (r, v.after)) :
    v.after.log = v.before.log ++ v.events := by
  obtain run | ⟨hsame, -⟩ := enter_cases run
  · obtain ⟨es, hlog, hev, -⟩ := Visit.events_eq run
    rw [hev, hlog]
  · rw [Visit.events, hsame, List.drop_length, List.append_nil]

@[simp] theorem decided_log (w : World) : (decided w).log = w.log := by
  unfold decided
  split <;> rfl

theorem leave_log {next : Option Node} (edge : n.leave.runIn o a = (.ok next, w)) : w.log = a.log := by
  rw [leave_runIn] at edge
  obtain ⟨-, rfl⟩ := Prod.mk.inj edge
  split <;> simp

theorem Walk.log (h : Walk c o n w vs r w') : w'.log = w.log ++ vs.flatMap Visit.events := by
  induction h with
  | @raised n w a f run =>
    rw [List.flatMap_singleton]
    exact Visit.log_eq (v := ⟨n, w, a⟩) run
  | @ended n w a w' run edge =>
    rw [List.flatMap_singleton, leave_log edge]
    exact Visit.log_eq (v := ⟨n, w, a⟩) run
  | @moved n next w a w₁ w' vs r run edge rest ih =>
    have hlog : a.log = w.log ++ Visit.events ⟨n, w, a⟩ := Visit.log_eq (v := ⟨n, w, a⟩) run
    rw [ih, leave_log edge, hlog, List.flatMap_cons, List.append_assoc]

theorem Node.name_injective : Function.Injective Node.name := by
  intro n n' h
  cases n <;> cases n' <;> first | rfl | exact absurd h (by decide)

theorem Walk.entered_mem_iff (h : Walk c o n w vs (.ok ()) w') (m : Node) :
    .entered m.name ∈ vs.flatMap Visit.events ↔ m ∈ vs.map Visit.node := by
  have hvisit : ∀ v ∈ vs, (.entered m.name ∈ v.events ↔ v.node = m) := by
    intro v hv
    obtain ⟨q, run, hq⟩ := h.visited v hv
    rw [hq rfl] at run
    obtain ⟨es, -, hev, hes⟩ := Visit.events_eq (act_of_enter run)
    rw [hev, List.mem_cons]
    constructor
    · rintro (he | he)
      · exact (Node.name_injective (Event.entered.inj he)).symm
      · exact absurd trivial (v.node.not_ofNone_of_allows (hes _ he))
    · rintro rfl
      exact .inl rfl
  rw [List.mem_flatMap, List.mem_map]
  constructor
  · rintro ⟨v, hv, he⟩
    exact ⟨v, hv, (hvisit v hv).1 he⟩
  · rintro ⟨v, hv, hm⟩
    exact ⟨v, hv, (hvisit v hv).2 hm⟩

theorem Walk.finalize_nodes (h : Walk c o .finalize w vs r w') : vs.map Visit.node = [.finalize] := by
  cases h with
  | raised run => rfl
  | ended run edge => rfl
  | moved run edge rest => cases (leave_eq_some edge).1

/-- In the events of a visit only those behind its start can publish something, and only if it is one to the node
for it. -/
theorem Visit.publications {v : Visit} (run : (v.node.enter c).runIn o v.before = (r, v.after)) {pre post : Log}
    (hsplit : v.events = pre ++ e :: post) (he : e.publishes = true) :
    v.node = .createPull ∧ ∃ mid, pre = .entered v.node.name :: mid ∧ (∀ m : Node, .entered m.name ∉ mid) ∧
      ∀ m : Node, .entered m.name ∉ post := by
  obtain run | ⟨hsame, -⟩ := enter_cases run
  case inr =>
    rw [Visit.events, hsame, List.drop_length] at hsplit
    exact absurd hsplit.symm (by simp)
  obtain ⟨es, -, hev, hes⟩ := Visit.events_eq run
  rw [hev] at hsplit
  cases pre with
  | nil =>
    obtain ⟨rfl, -⟩ := List.cons.inj hsplit
    cases he
  | cons x mid =>
    obtain ⟨rfl, rfl⟩ := List.cons.inj hsplit
    have hnone : ∀ m : Node, .entered m.name ∉ mid ++ e :: post := fun m hm =>
      v.node.not_ofNone_of_allows (hes _ hm) trivial
    refine ⟨Node.eq_createPull_of_publishes (hes e (by simp)) he, mid, rfl, fun m hm => ?_, fun m hm => ?_⟩
    · exact hnone m (List.mem_append_left _ hm)
    · exact hnone m (List.mem_append_right _ (List.mem_cons_of_mem _ hm))

/-- Whatever is published is so behind the last tester, once the node for it was entered. -/
theorem Walk.publications (h : Walk c o n w vs r w') (hr : r = .ok ()) {pre post : Log}
    (hsplit : vs.flatMap Visit.events = pre ++ e :: post) (he : e.publishes = true) :
    ∃ front mid, pre = front ++ .entered Node.createPull.name :: mid ∧ .entered Node.tester.name ∉ mid ∧
      .entered Node.tester.name ∉ post := by
  induction h generalizing pre with
  | @raised n w a f run | @ended n w a w' run edge =>
    rw [List.flatMap_singleton] at hsplit
    obtain ⟨hn, mid, rfl, hmid, hpost⟩ := Visit.publications (v := ⟨n, w, a⟩) run hsplit he
    exact ⟨[], mid, by rw [hn]; rfl, hmid .tester, hpost .tester⟩
  | @moved n next w a w₁ w' vs r run edge rest ih =>
    rw [List.flatMap_cons] at hsplit
    rcases List.append_eq_append_iff.1 hsplit with ⟨pre', rfl, hrest⟩ | ⟨post', hfirst, hrest⟩
    · obtain ⟨front, mid, rfl, hmid, hpost⟩ := ih hr hrest
      exact ⟨_ ++ front, mid, (List.append_assoc _ _ _).symm, hmid, hpost⟩
    · cases post' with
      | nil =>
        have hrest : vs.flatMap Visit.events = [] ++ e :: post := hrest.symm
        obtain ⟨front, mid, hfront, -⟩ := ih hr hrest
        simp at hfront
      | cons x post' =>
        obtain ⟨rfl, rfl⟩ := List.cons.inj hrest
        obtain ⟨hn, mid, rfl, hmid, hpost⟩ := Visit.publications (v := ⟨n, w, a⟩) run hfirst he
        refine ⟨[], mid, by rw [hn]; rfl, hmid .tester, fun hmem => ?_⟩
        rcases List.mem_append.1 hmem with hmem | hmem
        · exact hpost .tester hmem
        · -- behind the node that publishes there is only the last one
          have hn : n = .createPull := hn
          subst hn
          obtain rfl := Option.some.inj (leave_eq_some edge).1
          subst hr
          rw [rest.entered_mem_iff, rest.finalize_nodes] at hmem
          simp at hmem

/-- What holds of the tests where a node is entered: they passed if a merge is to be asked for, and up to the
tester none did. -/
def Node.Expects : Node → Migration → Prop
  | .createPull, m => m.testsPassed = true
  | .finalize, _ => True
  | _, m => m.testsPassed = false

theorem tester_testsPassed_iff (run : (Node.tester.enter c).runIn o w = (.ok (), a))
    (hw : w.state.testsPassed = false) : a.state.testsPassed = true ↔ decision a.state = .createPull := by
  rw [decision_eq_createPull_iff]
  refine ⟨fun ha => ⟨?_, ha⟩, And.right⟩
  by_cases hs : w.state.status = .failed
  · obtain rfl := of_enter_failed (n := .tester) rfl hs run
    exact absurd (hw.symm.trans ha) (by decide)
  · rw [status_of_enter (n := .tester) rfl hs run]
    decide

/-- Along an edge the tests are as the next node expects, and the last node is entered with tests that passed only
from the node that publishes. -/
theorem Node.Expects.step {next : Node} {w₁ : World} (hn : n.Expects w.state)
    (run : (n.enter c).runIn o w = (.ok (), a)) (edge : n.leave.runIn o a = (.ok (some next), w₁)) :
    next.Expects w₁.state ∧ (next = .finalize → (w₁.state.testsPassed = true ↔ n = .createPull)) := by
  obtain ⟨hnext, rfl⟩ := leave_eq_some edge
  cases n with
  | clone | planner | coder =>
    cases hnext
    exact ⟨(testsPassed_of_enter Node.noConfusion run).trans hn, Node.noConfusion⟩
  | createPull =>
    cases hnext
    exact ⟨trivial, fun _ => iff_of_true ((testsPassed_of_enter Node.noConfusion run).trans hn) rfl⟩
  | finalize => cases hnext
  | tester =>
    obtain rfl := Option.some.inj hnext
    have hpass := tester_testsPassed_iff run hn
    rw [if_pos rfl, decided_testsPassed]
    cases hd : decision a.state with
    | retry =>
      obtain ⟨-, hfalse, -⟩ := (decision_eq_retry_iff _).1 hd
      exact ⟨(decided_testsPassed a).trans hfalse, Node.noConfusion⟩
    | createPull => exact ⟨(decided_testsPassed a).trans (hpass.2 hd), Node.noConfusion⟩
    | fail =>
      rw [hd] at hpass
      exact ⟨trivial, fun _ => iff_of_false (fun ha => Route.noConfusion (hpass.1 ha)) Node.noConfusion⟩

theorem finalize_ended (run : (Node.finalize.enter c).runIn o w = (.ok (), a)) :
    a.state.testsPassed = w.state.testsPassed ∧
      a.state.status = if a.state.testsPassed then .completed else .failed := by
  have hpass := testsPassed_of_enter Node.noConfusion run
  refine ⟨hpass, ?_⟩
  rw [hpass]
  have run := act_of_enter run
  rw [Node.act, finalize_runIn] at run
  change (if w.state.testsPassed then _ else _) = _ at run
  cases ht : w.state.testsPassed with
  | true =>
    rw [ht, if_pos rfl] at run
    obtain ⟨-, rfl⟩ := Prod.mk.inj run
    rfl
  | false =>
    rw [ht, if_neg Bool.false_ne_true] at run
    obtain ⟨-, rfl⟩ := Prod.mk.inj run
    rfl

/-- A walk ends completed or failed as its tests say, and they passed exactly if the node that publishes was
visited. -/
theorem Walk.verdict (h : Walk c o n w vs r w') (hr : r = .ok ()) (hn : n.Expects w.state) :
    w'.state.status = (if w'.state.testsPassed then .completed else .failed) ∧
      if n = .finalize then w'.state.testsPassed = w.state.testsPassed
      else (w'.state.testsPassed = true ↔ .createPull ∈ vs.map Visit.node) := by
  induction h with
  | raised run => cases hr
  | ended run edge =>
    obtain rfl := leave_eq_none edge
    rw [leave_runIn] at edge
    obtain ⟨-, rfl⟩ := Prod.mk.inj edge
    obtain ⟨hpass, hstatus⟩ := finalize_ended run
    exact ⟨hstatus, hpass⟩
  | @moved n next w a w₁ w' vs r run edge rest ih =>
    obtain ⟨hexp, hlast⟩ := hn.step run edge
    obtain ⟨hstatus, hpass⟩ := ih hr hexp
    have hn' : n ≠ .finalize := by
      rintro rfl
      cases (leave_eq_some edge).1
    refine ⟨hstatus, ?_⟩
    rw [if_neg hn', List.map_cons, List.mem_cons]
    by_cases hnext : next = .finalize
    · subst hnext
      rw [if_pos rfl] at hpass
      rw [hpass, hlast rfl, rest.finalize_nodes]
      simp [eq_comm]
    · rw [if_neg hnext] at hpass
      have hpull : n ≠ .createPull := by
        rintro rfl
        exact hnext (Option.some.inj (leave_eq_some edge).1).symm
      rw [hpass, or_iff_right (Ne.symm hpull)]

def removal (path : FilePath) : Event := .commanded ["cmd", "/c", "rmdir", "/s", "/q", path.toString] 30

theorem modifyDisk_log (o : Outside) (f : Disk → Except FileFault Disk) (w : World) :
    ((modify fun w => match f w.disk with
      | .ok disk => { w with disk }
      | .error _ => w : Act Unit).runIn o w).2.log = w.log := by
  have hmade : MadeOf (fun d => ∃ disk, d = .disk disk) _ := MadeOf.modifyDisk f fun disk => ⟨disk, rfl⟩
  refine (hmade.through o w).keeps World.log fun d hd w => ?_
  obtain ⟨disk, rfl⟩ := hd
  rfl

theorem removeByCommand_log (o : Outside) (path : FilePath) (w : World) :
    ((removeByCommand path).runIn o w).2.log = w.log ++ [removal path] := by
  rw [removeByCommand, runIn_bind_ok (runIn_observe o w _ _)]
  split
  · exact modifyDisk_log o (·.removeFile path) _
  · rfl

theorem clearWorkDir_log (o : Outside) (path : FilePath) (w : World) :
    ((clearWorkDir path).runIn o w).2.log = w.log ∨
      o.platform = "Windows" ∧ ((clearWorkDir path).runIn o w).2.log = w.log ++ [removal path] := by
  rw [clearWorkDir, runIn_bind_ok (runIn_get o w)]
  split
  · have hquiet : ((removeQuietly path).runIn o w).2.log = w.log := modifyDisk_log o (·.removeDir path) w
    rcases hrun : (removeQuietly path).runIn o w with ⟨f | ⟨⟩, w₁⟩
    · rw [hrun] at hquiet
      rw [runIn_bind_error hrun]
      exact .inl hquiet
    · rw [hrun] at hquiet
      have hquiet : w₁.log = w.log := hquiet
      rw [runIn_bind_ok hrun, runIn_bind_ok (runIn_get o w₁), runIn_bind_ok (runIn_read o w₁), ← hquiet]
      split
      case isTrue hwindows =>
        obtain ⟨-, hplatform⟩ := Bool.and_eq_true_iff.1 hwindows
        exact .inr ⟨eq_of_beq hplatform, removeByCommand_log o path w₁⟩
      case isFalse => exact .inl rfl
  · exact .inl rfl

/-- Wherever cloning breaks off, no more was done outside than to have the work directory removed, and to clone. -/
theorem cloneSources_log (c : Crew) (o : Outside) (w : World) :
    ∃ es, ((cloneSources c).runIn o w).2.log = w.log ++ es ∧
      ∀ e ∈ es, Deed.OfCheckout (.event e) ∨ o.platform = "Windows" ∧ e = removal (.ofString c.settings.workDir) := by
  obtain ⟨rest, he, hrest⟩ := cloneSources_checkout c
  have hclear := clearWorkDir_log o (.ofString c.settings.workDir) w
  have hcleared : ∃ es, ((clearWorkDir (.ofString c.settings.workDir)).runIn o w).2.log = w.log ++ es ∧
      ∀ e ∈ es, o.platform = "Windows" ∧ e = removal (.ofString c.settings.workDir) := by
    rcases hclear with hlog | ⟨hplatform, hlog⟩
    · exact ⟨[], by simpa using hlog, by simp⟩
    · exact ⟨_, hlog, fun e he => ⟨hplatform, List.mem_singleton.1 he⟩⟩
  obtain ⟨es, hlog, hes⟩ := hcleared
  rw [he]
  rcases hrun : (clearWorkDir (.ofString c.settings.workDir)).runIn o w with ⟨f | ⟨⟩, w₁⟩
  · rw [runIn_bind_error hrun]
    rw [hrun] at hlog
    exact ⟨es, hlog, fun e he => .inr (hes e he)⟩
  · rw [runIn_bind_ok hrun]
    rw [hrun] at hlog
    obtain ⟨es', hlog', hes'⟩ := (hrest.through o w₁).log
    refine ⟨es ++ es', by rw [hlog', hlog, List.append_assoc], fun e he => ?_⟩
    rcases List.mem_append.1 he with he | he
    · exact .inr (hes e he)
    · exact .inl (hes' e he)

/-- Where the migration has failed all nodes are passed by: nothing is done but to note them, and to say so. -/
theorem Walk.of_failed (h : Walk c o n w vs r w') (hr : r = .ok ()) (hn : n ≠ .clone ∧ n ≠ .createPull)
    (hs : w.state.status = .failed) (hp : w.state.testsPassed = false) :
    w'.state.status = .failed ∧ w'.state.errors = w.state.errors ∧ w'.disk = w.disk ∧
      ∃ ns : List Node, w'.log = w.log ++ ns.map (Event.entered ·.name) := by
  induction h with
  | raised run => cases hr
  | ended run edge =>
    obtain rfl := leave_eq_none edge
    have run := act_of_enter run
    rw [Node.act, finalize_runIn] at run
    obtain ⟨-, rfl⟩ := Prod.mk.inj ((if_neg (ne_true_of_eq_false hp)).symm.trans run)
    obtain ⟨-, rfl⟩ := Prod.mk.inj edge
    exact ⟨rfl, rfl, rfl, [.finalize], rfl⟩
  | @moved n next w a w₁ w' vs r run edge rest ih =>
    obtain ⟨hnext, rfl⟩ := leave_eq_some edge
    have hagent : ∃ ag, n.agent? = some ag := by
      cases n with
      | clone => exact absurd rfl hn.1
      | createPull => exact absurd rfl hn.2
      | finalize => cases hnext
      | _ => exact ⟨_, rfl⟩
    obtain ⟨ag, hagent⟩ := hagent
    obtain rfl := of_enter_failed hagent hs run
    have hd : decision (w.after (.event (.entered n.name))).state = .fail := if_pos hs
    have hdecided : (if n = .tester then decided (w.after (.event (.entered n.name))) else
        w.after (.event (.entered n.name))) = w.after (.event (.entered n.name)) := by
      rw [decided, hd]
      split <;> rfl
    rw [hdecided] at ih
    have hnext' : next ≠ .clone ∧ next ≠ .createPull := by
      cases n with
      | tester =>
        rw [Node.next?, hd] at hnext
        cases hnext
        exact ⟨Node.noConfusion, Node.noConfusion⟩
      | planner | coder =>
        cases hnext
        exact ⟨Node.noConfusion, Node.noConfusion⟩
      | _ => cases hagent
    obtain ⟨hstatus, herrors, hdisk, ns, hlog⟩ := ih hr hnext' hs hp
    exact ⟨hstatus, herrors, hdisk, n :: ns, by rw [hlog]; exact List.append_assoc _ _ _⟩

theorem works_of_ofCheckout (h : Deed.OfCheckout (.event e)) : e.works = false := by
  cases e <;> first | rfl | exact False.elim h

def cloneStart (w : World) (repoUrl : String) (kind : MigrationKind) : World :=
  cloning ((w.after (.replaced { repoUrl, kind })).after (.event (.entered Node.clone.name)))

theorem runGraph_cloneFailed {g : World} {repoUrl : String} {kind : MigrationKind} {f : Failure}
    (hf : (cloneSources c).runIn o (cloneStart w repoUrl kind) = (.error f, a))
    (hg : (runGraph c).runIn o (w.after (.replaced { repoUrl, kind })) = (.ok (), g)) :
    g.state.status = .failed ∧ "Failed to clone repository: " ++ f.message ∈ g.state.errors ∧
      g.disk = a.disk ∧ ∃ events, g.log = w.log ++ events ∧ ∀ e ∈ events, e.works = true →
        o.platform = "Windows" ∧ e = removal (.ofString c.settings.workDir) := by
  obtain ⟨vs, hwalk⟩ := runGraph_walk c o (w.after (.replaced { repoUrl, kind }))
  have hcalm := enter_eq_ok_of_runGraph (by rw [hg]; rfl) .clone _ .start
  rcases hclone : (Node.clone.enter c).runIn o (w.after (.replaced { repoUrl, kind })) with ⟨q, b⟩
  rw [hclone] at hcalm
  obtain rfl : q = .ok () := hcalm
  obtain rfl : b = cloneFailed a f := by
    have hact := act_of_enter hclone
    unfold cloneStart at hf
    rw [Node.act, clone_runIn, hf] at hact
    exact (Prod.mk.inj hact).2.symm
  have hp : (cloneFailed a f).state.testsPassed = false := testsPassed_of_enter Node.noConfusion hclone
  rw [hg] at hwalk
  obtain ⟨us, hrest, -⟩ := hwalk.of_moved (s := cloneFailed a f) hclone rfl
  obtain ⟨hstatus, herrors, hdisk, ns, hlog⟩ := hrest.of_failed rfl ⟨Node.noConfusion, Node.noConfusion⟩ rfl hp
  obtain ⟨es, hes, hclean⟩ := cloneSources_log c o (cloneStart w repoUrl kind)
  rw [hf] at hes
  have hes : (cloneFailed a f).log = w.log ++ [.entered Node.clone.name] ++ es := hes
  refine ⟨hstatus, ?_, hdisk, _, by rw [hlog, hes, List.append_assoc, List.append_assoc], ?_⟩
  · rw [herrors]
    exact List.mem_append_right _ (List.mem_singleton_self _)
  · intro e he hwork
    simp only [List.mem_append, List.mem_singleton, List.mem_map] at he
    rcases he with rfl | he | ⟨n, -, rfl⟩
    · cases hwork
    · refine (hclean e he).resolve_left fun hcheckout => ?_
      rw [works_of_ofCheckout hcheckout] at hwork
      cases hwork
    · cases hwork

theorem returned_of_whole {e : Engine} (whole : e.missing = none) (m : Migration) :
    ∃ messages, returned e m = { m with messages } := by
  unfold returned
  rw [whole]
  cases e.messages with
  | none => exact ⟨m.messages, rfl⟩
  | some values => exact ⟨_, rfl⟩

theorem handBack_ok (h : handBack.runIn o w = (.ok (), w')) (whole : o.engine.missing = none) :
    ∃ messages registry, w' = { w with state := { w.state with messages }, registry } := by
  obtain ⟨messages, hm⟩ := returned_of_whole whole w.state
  rw [handBack, runIn_bind_ok (runIn_read o w)] at h
  obtain ⟨⟨⟩, w₁, hregistry, h⟩ := runIn_bind_eq_ok.1 h
  obtain ⟨⟨⟩, w₂, hfault, h⟩ := runIn_bind_eq_ok.1 h
  obtain ⟨-, rfl⟩ := Prod.mk.inj hregistry
  obtain ⟨-, rfl⟩ := Prod.mk.inj h
  cases hf : o.engine.fault with
  | some reason =>
    rw [hf] at hfault
    cases hfault
  | none =>
    rw [hf] at hfault
    obtain ⟨-, rfl⟩ := Prod.mk.inj hfault
    exact ⟨messages, _, by rw [← hm]; rfl⟩

/-- A run that returns tells of the world behind the last node, but for messages and jobs. -/
theorem run_ok {repoUrl kindName : String} {r : Outcome} (returns : (run c repoUrl kindName).runIn o w = (.ok r, w'))
    (whole : o.engine.missing = none) : ∃ kind g messages registry, MigrationKind.ofName kindName = .ok kind ∧
      (runGraph c).runIn o (w.after (.replaced { repoUrl, kind })) = (.ok (), g) ∧
      w' = { g with state := { g.state with messages }, registry } ∧ r.state = w'.state ∧
      r.success = (w'.state.status == .completed) := by
  obtain ⟨kind, w₁, hresult, returns⟩ := runIn_bind_eq_ok.1 returns
  obtain ⟨hkind, rfl⟩ := Prod.mk.inj hresult
  rw [runIn_bind_ok (runIn_updateMigration o w _)] at returns
  obtain ⟨⟨⟩, g, hg, returns⟩ := runIn_bind_eq_ok.1 returns
  obtain ⟨⟨⟩, w₂, hback, returns⟩ := runIn_bind_eq_ok.1 returns
  obtain ⟨messages, registry, rfl⟩ := handBack_ok hback whole
  rw [runIn_bind_ok (runIn_get o _)] at returns
  obtain ⟨hr, rfl⟩ := Prod.mk.inj returns
  obtain rfl := Except.ok.inj hr
  exact ⟨kind, g, messages, registry, hkind, hg, rfl, rfl, rfl⟩

/-- A run that returns has completed or failed. It is a success exactly if it completed, exactly if its tests
passed, and exactly if the node that publishes was executed. All that is published is so in a run that completes,
behind the last tester. If cloning failed, then the run failed with that for an error, no file was touched any more,
and nothing was asked, run or published but for the command that clears the work directory. -/
theorem run_verdict (c : Crew) (o : Outside) (w w' : World) (repoUrl kindName : String) (r : Outcome)
    (returns : (run c repoUrl kindName).runIn o w = (.ok r, w')) (whole : o.engine.missing = none) :
    ∃ kind events, MigrationKind.ofName kindName = .ok kind ∧ w'.log = w.log ++ events ∧
      (r.state.status = .completed ∨ r.state.status = .failed) ∧
      (r.success = true ↔ r.state.status = .completed) ∧
      (r.state.status = .completed ↔ r.state.testsPassed = true) ∧
      (r.state.testsPassed = true ↔ .entered Node.createPull.name ∈ events) ∧
      (∀ pre e post, events = pre ++ e :: post → e.publishes = true → r.state.status = .completed ∧
        ∃ front mid, pre = front ++ .entered Node.createPull.name :: mid ∧
          .entered Node.tester.name ∉ mid ∧ .entered Node.tester.name ∉ post) ∧
      ∀ f a, (cloneSources c).runIn o (cloneStart w repoUrl kind) = (.error f, a) →
        r.state.status = .failed ∧ "Failed to clone repository: " ++ f.message ∈ r.state.errors ∧
        w'.disk = a.disk ∧
        ∀ e ∈ events, e.works = true → o.platform = "Windows" ∧ e = removal (.ofString c.settings.workDir) := by
  obtain ⟨kind, g, messages, registry, hkind, hg, rfl, hr, hsuccess⟩ := run_ok returns whole
  obtain ⟨vs, hvs⟩ := runGraph_walk c o (w.after (.replaced { repoUrl, kind }))
  rw [hg] at hvs
  obtain ⟨hstatus, hpull⟩ := hvs.verdict rfl rfl
  rw [if_neg Node.noConfusion, ← hvs.entered_mem_iff] at hpull
  have hdone : r.state.status = .completed ↔ g.state.testsPassed = true := by
    rw [hr]
    change g.state.status = _ ↔ _
    rw [hstatus]
    cases g.state.testsPassed <;> decide
  have hpass : r.state.testsPassed = g.state.testsPassed := by rw [hr]
  refine ⟨kind, vs.flatMap Visit.events, hkind, hvs.log, ?_, ?_, ?_, ?_, ?_, ?_⟩
  · rw [hr]
    change g.state.status = _ ∨ g.state.status = _
    rw [hstatus]
    cases g.state.testsPassed <;> decide
  · rw [hsuccess, beq_iff_eq, hr]
  · rw [hpass, hdone]
  · rw [hpass, hpull]
  · intro pre e post hsplit he
    obtain ⟨front, mid, hpre, hmid, hpost⟩ := hvs.publications rfl hsplit he
    refine ⟨hdone.2 (hpull.2 ?_), front, mid, hpre, hmid, hpost⟩
    rw [hsplit, hpre]
    simp
  · intro f a hf
    obtain ⟨hfailed, herror, hdisk, events, hlog, hworks⟩ := runGraph_cloneFailed hf hg
    obtain rfl : vs.flatMap Visit.events = events := List.append_cancel_left (hvs.log.symm.trans hlog)
    rw [hr]
    exact ⟨hfailed, herror, hdisk, hworks⟩

/-- A system on which directories are removed by a command, and a repository that cannot be cloned. -/
def blockedOutside : Outside where
  cloneFault _ := some "blocked"
  platform := "Windows"

/-- A file stands where the work directory is to be. -/
def blockedWorld : World where
  disk := { here := .dir [(".devassist_work", .file (Text.encode "a file"))] }

theorem run_verdict_flaky_blocked :
    flakyOutside.engine.missing = none ∧ blockedOutside.engine.missing = none ∧
      (∃ r w', (run aloneCrew "https://github.com/o/r" "py2to3").runIn flakyOutside {} = (.ok r, w') ∧
        r.success = true ∧ r.state.testsPassed = true ∧
        ∃ pre e post, w'.log = pre ++ e :: post ∧ e.publishes = true ∧ .entered Node.createPull.name ∈ pre ∧
          .entered Node.tester.name ∉ post) ∧
      ∃ r w' f a, (run aloneCrew "https://github.com/o/r" "py2to3").runIn blockedOutside blockedWorld = (.ok r, w') ∧
        (cloneSources aloneCrew).runIn blockedOutside (cloneStart blockedWorld "https://github.com/o/r" .legacy) =
          (.error f, a) ∧
        r.state.status = .failed ∧ "Failed to clone repository: " ++ f.message ∈ r.state.errors ∧
        w'.disk = a.disk ∧ ∀ e ∈ w'.log, e.works = true → e = removal (.ofString ".devassist_work") := by
  refine ⟨rfl, rfl, ?_, ?_⟩
  · have hall : (((run aloneCrew "https://github.com/o/r" "py2to3").runIn flakyOutside {}).1.isOk &&
        ((run aloneCrew "https://github.com/o/r" "py2to3").runIn flakyOutside {}).2.log.any Event.publishes) =
          true := by decide +kernel
    obtain ⟨hok, hany⟩ := Bool.and_eq_true_iff.1 hall
    obtain ⟨r, w', hrun⟩ := exists_runIn_ok hok
    rw [hrun] at hany
    obtain ⟨e, he, hpub⟩ := List.any_eq_true.1 hany
    obtain ⟨pre, post, hsplit⟩ := List.append_of_mem he
    obtain ⟨kind, events, -, hlog, -, hsuccess, hpass, -, hpubs, -⟩ := run_verdict _ _ _ _ _ _ _ hrun rfl
    have hlog : w'.log = events := hlog
    obtain ⟨hcomp, front, mid, hpre, -, hpost⟩ := hpubs pre e post (hlog ▸ hsplit) hpub
    refine ⟨r, w', hrun, hsuccess.2 hcomp, hpass.1 hcomp, pre, e, post, hsplit, hpub, ?_, hpost⟩
    rw [hpre]
    simp
  · obtain ⟨r, w', hrun⟩ := exists_runIn_ok (t := run aloneCrew "https://github.com/o/r" "py2to3")
      (o := blockedOutside) (w := blockedWorld) (by decide +kernel)
    obtain ⟨f, a, hclone⟩ := exists_runIn_error (t := cloneSources aloneCrew) (o := blockedOutside)
      (w := cloneStart blockedWorld "https://github.com/o/r" .legacy) (by decide +kernel)
    obtain ⟨kind, events, hkind, hlog, -, -, -, -, -, hfailed⟩ := run_verdict _ _ _ _ _ _ _ hrun rfl
    cases hkind
    obtain ⟨hstatus, herror, hdisk, hworks⟩ := hfailed f a hclone
    have hlog : w'.log = events := hlog
    refine ⟨r, w', f, a, hrun, hclone, hstatus, herror, hdisk, fun e he hwork => ?_⟩
    rw [hlog] at he
    exact (hworks e he hwork).2

def isCommand : Event → Bool
  | .commanded .. => true
  | _ => false

/-- A program is run in a run that returns although cloning fails in it. -/
theorem run_blocked_commands :
    ∃ r w' f a, (run aloneCrew "https://github.com/o/r" "py2to3").runIn blockedOutside blockedWorld = (.ok r, w') ∧
      (cloneSources aloneCrew).runIn blockedOutside (cloneStart blockedWorld "https://github.com/o/r" .legacy) =
        (.error f, a) ∧
      ∃ command seconds, .commanded command seconds ∈ w'.log := by
  have hany : ((run aloneCrew "https://github.com/o/r" "py2to3").runIn blockedOutside blockedWorld).2.log.any
      isCommand = true := by decide +kernel
  obtain ⟨r, w', hrun⟩ := exists_runIn_ok (t := run aloneCrew "https://github.com/o/r" "py2to3")
    (o := blockedOutside) (w := blockedWorld) (by decide +kernel)
  obtain ⟨f, a, hclone⟩ := exists_runIn_error (t := cloneSources aloneCrew) (o := blockedOutside)
    (w := cloneStart blockedWorld "https://github.com/o/r" .legacy) (by decide +kernel)
  rw [hrun] at hany
  obtain ⟨e, he, hcommand⟩ := List.any_eq_true.1 hany
  refine ⟨r, w', f, a, hrun, hclone, ?_⟩
  cases e with
  | commanded command seconds => exact ⟨command, seconds, he⟩
  | _ => cases hcommand

end Workflow

end CodeMigration
