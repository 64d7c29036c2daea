import CodeMigration.Proofs.HandedBack

/-! # The history of a run

All nodes work on one migration. What they say, what goes wrong and which changes they apply is only ever added to it,
in every round and also where a node breaks off; and what the planner hands on is what all later nodes work with. -/

namespace CodeMigration

open Act

namespace Migration

/-- What is to be done: for which repository, where it was cloned to, in which files and upon which findings. -/
def task (m : Migration) : String × Option FilePath × String × MigrationKind × List FilePath × List Finding :=
  (m.repoUrl, m.repoPath, m.branch, m.kind, m.files, m.findings)

/-- A migration that goes on where another one stood, with all that was written down for it. -/
structure GrowsTo (m m' : Migration) : Prop where
  messages : m.messages <+: m'.messages
  errors : m.errors <+: m'.errors
  applied : m.applied <+: m'.applied

theorem GrowsTo.refl (m : Migration) : m.GrowsTo m := ⟨List.prefix_rfl, List.prefix_rfl, List.prefix_rfl⟩

theorem GrowsTo.trans {m m' m'' : Migration} (h : m.GrowsTo m') (h' : m'.GrowsTo m'') : m.GrowsTo m'' :=
  ⟨h.messages.trans h'.messages, h.errors.trans h'.errors, h.applied.trans h'.applied⟩

/-- No deed takes anything out of a history, except that another migration may come in the place of one. -/
theorem growsTo_after (m : Migration) {d : Deed} (hd : ∀ new, d ≠ .replaced new) : m.GrowsTo (m.after d) := by
  cases d with
  | said role content => exact ⟨List.prefix_append _ _, List.prefix_rfl, List.prefix_rfl⟩
  | erred text => exact ⟨List.prefix_rfl, List.prefix_append _ _, List.prefix_rfl⟩
  | applied changes => exact ⟨List.prefix_rfl, List.prefix_rfl, List.prefix_append _ _⟩
  | replaced new => exact absurd rfl (hd new)
  | _ => exact ⟨List.prefix_rfl, List.prefix_rfl, List.prefix_rfl⟩

end Migration

/-- What says what is to be done. -/
def Deed.OfTask : Deed → Prop
  | .cloned .. | .listed _ | .found _ => True
  | _ => False

theorem World.migration_after (w : World) (d : Deed) : (w.after d).state = w.state.after d := by
  cases d <;> rfl

theorem Act.Through.growsTo {P : Deed → Prop} {w w' : World} (h : Through P w w') (hr : ∀ m, ¬P (.replaced m)) :
    w.state.GrowsTo w'.state := by
  induction h with
  | refl => exact .refl _
  | tail _ step ih =>
    obtain ⟨d, hd, rfl⟩ := step
    rw [World.migration_after]
    exact ih.trans (Migration.growsTo_after _ fun new he => hr new (he ▸ hd))

namespace Workflow

variable {c : Crew} {o : Outside} {n : Node} {w a w' : World} {vs : List Visit} {r : Except Failure Unit}
  {next : Option Node} {p : Visit} {before behind : List Visit}

theorem enter_growsTo (run : (n.enter c).runIn o w = (r, a)) : w.state.GrowsTo a.state := by
  obtain ⟨s, hs, h⟩ := enter_through run
  rw [← hs]
  exact h.growsTo fun _ h => n.not_ofNone_of_allows h trivial

theorem leave_growsTo (edge : n.leave.runIn o w = (.ok next, a)) : w.state.GrowsTo a.state := by
  rw [leave_runIn] at edge
  obtain ⟨-, rfl⟩ := Prod.mk.inj edge
  split
  · unfold decided
    split
    · rw [World.migration_after]
      refine Migration.growsTo_after _ fun new he => ?_
      cases he
    · exact .refl _
  · exact .refl _

theorem enter_keeps {γ : Type} (run : (n.enter c).runIn o w = (r, a)) (f : Migration → γ)
    (hf : ∀ d, n.Allows d → ∀ m : Migration, f (m.after d) = f m) : f a.state = f w.state := by
  obtain ⟨s, hs, h⟩ := enter_through run
  rw [← hs]
  refine h.keeps (fun w => f w.state) fun d hd w => ?_
  rw [World.migration_after]
  exact hf d hd w.state

def Node.IsLate (n : Node) : Prop := n ≠ .clone ∧ n ≠ .planner

theorem Node.not_late_of_allows {d : Deed} (h : n.Allows d) (hd : d.OfTask) : ¬n.IsLate := by
  rintro ⟨hclone, hplanner⟩
  unfold Deed.OfTask at hd
  split at hd
  all_goals
    cases n <;> simp [Node.Allows, Deed.OfCoder, Deed.OfTester, Deed.OfPull, Deed.OfEnd] at h hd hclone hplanner

/-- Only the first two nodes say what is to be done. -/
theorem task_of_enter (hn : n.IsLate) (run : (n.enter c).runIn o w = (r, a)) :
    a.state.task = w.state.task := by
  refine enter_keeps run Migration.task fun d hd m => ?_
  cases d <;> first
    | rfl
    | exact absurd trivial (n.not_ofNone_of_allows hd)
    | exact absurd hn (Node.not_late_of_allows hd trivial)

theorem task_of_leave (edge : n.leave.runIn o w = (.ok next, a)) : a.state.task = w.state.task :=
  leave_keeps edge (·.state.task) fun _ _ _ => rfl

/-- No edge leads back to the first two nodes, but for the one between them. -/
theorem late_of_leave {next : Node} (hn : n ≠ .clone) (edge : n.leave.runIn o w = (.ok (some next), a)) :
    next.IsLate := by
  obtain ⟨hnext, -⟩ := leave_eq_some edge
  cases n with
  | clone => exact absurd rfl hn
  | tester =>
    obtain rfl := Option.some.inj hnext
    cases decision w.state <;> exact ⟨Node.noConfusion, Node.noConfusion⟩
  | finalize => cases hnext
  | _ =>
    obtain rfl := Option.some.inj hnext
    exact ⟨Node.noConfusion, Node.noConfusion⟩

/-- From each visit to the next, and from the first world to the last, histories only grow. -/
theorem Walk.growsTo (h : Walk c o n w vs r w') : w.state.GrowsTo w'.state ∧
    (∀ v ∈ vs, w.state.GrowsTo v.before.state ∧ v.before.state.GrowsTo v.after.state ∧
      v.after.state.GrowsTo w'.state) ∧
    vs.Pairwise fun u v => u.after.state.GrowsTo v.before.state := by
  induction h with
  | raised run =>
    refine ⟨enter_growsTo run, fun v hv => ?_, List.pairwise_singleton _ _⟩
    obtain rfl := List.mem_singleton.1 hv
    exact ⟨.refl _, enter_growsTo run, .refl _⟩
  | ended run edge =>
    refine ⟨(enter_growsTo run).trans (leave_growsTo edge), fun v hv => ?_, List.pairwise_singleton _ _⟩
    obtain rfl := List.mem_singleton.1 hv
    exact ⟨.refl _, enter_growsTo run, leave_growsTo edge⟩
  | moved run edge rest ih =>
    obtain ⟨hend, hvisits, hpairs⟩ := ih
    have hnode := enter_growsTo run
    have hedge := leave_growsTo edge
    refine ⟨(hnode.trans hedge).trans hend, fun v hv => ?_, List.pairwise_cons.2 ⟨fun v hv => ?_, hpairs⟩⟩
    · rcases List.mem_cons.1 hv with rfl | hv
      · exact ⟨.refl _, hnode, hedge.trans hend⟩
      · obtain ⟨hbefore, hvisit, hafter⟩ := hvisits v hv
        exact ⟨(hnode.trans hedge).trans hbefore, hvisit, hafter⟩
    · exact hedge.trans (hvisits v hv).1

theorem Walk.task_eq (h : Walk c o n w vs r w') (hn : n.IsLate) : w'.state.task = w.state.task ∧
    ∀ v ∈ vs, v.before.state.task = w.state.task ∧ v.after.state.task = w.state.task := by
  induction h with
  | raised run =>
    refine ⟨task_of_enter hn run, fun v hv => ?_⟩
    obtain rfl := List.mem_singleton.1 hv
    exact ⟨rfl, task_of_enter hn run⟩
  | ended run edge =>
    refine ⟨(task_of_leave edge).trans (task_of_enter hn run), fun v hv => ?_⟩
    obtain rfl := List.mem_singleton.1 hv
    exact ⟨rfl, task_of_enter hn run⟩
  | moved run edge rest ih =>
    obtain ⟨hend, hvisits⟩ := ih (late_of_leave hn.1 edge)
    have hnext := (task_of_leave edge).trans (task_of_enter hn run)
    refine ⟨hend.trans hnext, fun v hv => ?_⟩
    rcases List.mem_cons.1 hv with rfl | hv
    · exact ⟨rfl, task_of_enter hn run⟩
    · exact (hvisits v hv).imp (·.trans hnext) (·.trans hnext)

theorem Visit.of_singleton_eq {v : Visit} (h : [v] = before ++ p :: behind) : p = v ∧ behind = [] := by
  cases before with
  | nil =>
    obtain ⟨rfl, rfl⟩ := List.cons.inj h
    exact ⟨rfl, rfl⟩
  | cons b before => simp at h

theorem Walk.task_behind_planner (h : Walk c o n w vs r w') (hvs : vs = before ++ p :: behind)
    (hp : p.node = .planner) : w'.state.task = p.after.state.task ∧
      ∀ v ∈ behind, v.before.state.task = p.after.state.task ∧
        v.after.state.task = p.after.state.task := by
  induction h generalizing before with
  | raised run =>
    obtain ⟨rfl, rfl⟩ := Visit.of_singleton_eq hvs
    exact ⟨rfl, fun v hv => absurd hv List.not_mem_nil⟩
  | ended run edge =>
    obtain ⟨rfl, rfl⟩ := Visit.of_singleton_eq hvs
    exact ⟨task_of_leave edge, fun v hv => absurd hv List.not_mem_nil⟩
  | moved run edge rest ih =>
    cases before with
    | cons b before => exact ih (List.cons.inj hvs).2
    | nil =>
      obtain ⟨rfl, rfl⟩ := List.cons.inj hvs
      obtain rfl : _ = Node.planner := hp
      obtain ⟨hend, hvisits⟩ := rest.task_eq (late_of_leave Node.noConfusion edge)
      have hnext := task_of_leave edge
      exact ⟨hend.trans hnext, fun v hv => (hvisits v hv).imp (·.trans hnext) (·.trans hnext)⟩

/-- Whatever a run of the graph comes to, and whether its nodes return or raise: each node leaves the messages, errors
and applied changes of the migration as they were and adds others behind them, and nothing is lost between two nodes
either. From the end of the planner to the end of the run it stays the same for which repository, path, branch and kind
of migration the run is, in which files, and upon which findings. -/
theorem history_only_grows (c : Crew) (o : Outside) (w : World) :
    ∃ vs, Walk c o .clone w vs ((runGraph c).runIn o w).1 ((runGraph c).runIn o w).2 ∧
      (∀ v ∈ vs, v.before.state.GrowsTo v.after.state ∧
        v.after.state.GrowsTo ((runGraph c).runIn o w).2.state) ∧
      (vs.Pairwise fun u v => u.after.state.GrowsTo v.before.state) ∧
      ∀ before p behind, vs = before ++ p :: behind → p.node = .planner →
        ((runGraph c).runIn o w).2.state.task = p.after.state.task ∧
        ∀ v ∈ behind, v.before.state.task = p.after.state.task ∧
          v.after.state.task = p.after.state.task := by
  obtain ⟨vs, hvs⟩ := runGraph_walk c o w
  obtain ⟨-, hvisits, hpairs⟩ := hvs.growsTo
  exact ⟨vs, hvs, fun v hv => (hvisits v hv).2, hpairs, fun before p behind hsplit hp =>
    hvs.task_behind_planner hsplit hp⟩

/-- In a run of two rounds the changes of the first stand in front of those of the second. -/
theorem history_only_grows_flaky : ∃ first p behind w',
    Walk aloneCrew flakyOutside .clone {} (first :: p :: behind) (.ok ()) w' ∧ p.node = .planner ∧
      (∀ v ∈ behind, v.before.state.GrowsTo v.after.state ∧ v.after.state.task = p.after.state.task) ∧
      w'.state.applied.length = 2 := by
  have hok : ((runGraph aloneCrew).runIn flakyOutside {}).1.isOk = true := by decide +kernel
  have happlied : ((runGraph aloneCrew).runIn flakyOutside {}).2.state.applied.length = 2 := by decide +kernel
  obtain ⟨vs, hvs, hvisits, -, htask⟩ := history_only_grows aloneCrew flakyOutside {}
  generalize (runGraph aloneCrew).runIn flakyOutside {} = result at *
  obtain ⟨f | ⟨⟩, w'⟩ := result
  · cases hok
  obtain ⟨k, ending, hnodes, -⟩ := hvs.continues rfl
  obtain ⟨first, late, rfl, -, hnodes⟩ := List.map_eq_cons_iff.1 hnodes
  obtain ⟨p, behind, rfl, hp, -⟩ := List.map_eq_cons_iff.1 hnodes
  refine ⟨first, p, behind, w', hvs, hp, fun v hv => ⟨?_, ?_⟩, happlied⟩
  · exact (hvisits v (List.mem_cons_of_mem _ (List.mem_cons_of_mem _ hv))).1
  · exact ((htask [first] p behind rfl hp).2 v hv).2

end Workflow

end CodeMigration
