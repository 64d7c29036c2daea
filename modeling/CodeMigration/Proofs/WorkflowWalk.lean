import CodeMigration.Proofs.NodeDeeds
import Mathlib.Algebra.Order.Group.Int
import Mathlib.Order.Lattice

/-! # Walks through the graph of a run

A run executes a node, follows the edge out of it to the next, and ends behind the last node or where a node
raises. The graph has a cycle, from the tester back to the coder, and no bound of its own. Here walks are
defined by nodes and edges alone. Every run is such a walk, and a walk on which no node raises visits the
coder and the tester in turn, as often as rounds are left at most, before it ends. -/

namespace CodeMigration.Workflow

open Act

variable {c : Crew} {o : Outside} {n : Node} {w a w' s : World} {r : Except Failure Unit} {vs : List Visit}
  {m : Migration} {ns : List Node}

theorem enter_cases (run : (n.enter c).runIn o w = (r, a)) :
    (n.act c).runIn o (w.after (.event (.entered n.name))) = (r, a) ∨ a = w ∧ ∃ f, r = .error f := by
  rw [Node.enter, runIn_bind_ok (runIn_consult o w _)] at run
  cases hstep : o.stepFault w.log with
  | none =>
    rw [hstep] at run
    exact .inl run
  | some text =>
    rw [hstep] at run
    obtain ⟨rfl, rfl⟩ := Prod.mk.inj run
    exact .inr ⟨rfl, _, rfl⟩

theorem act_of_enter (run : (n.enter c).runIn o w = (.ok (), a)) :
    (n.act c).runIn o (w.after (.event (.entered n.name))) = (.ok (), a) := by
  obtain run | ⟨-, f, hf⟩ := enter_cases run
  · exact run
  · cases hf

theorem enter_through (run : (n.enter c).runIn o w = (r, a)) :
    ∃ s, s.state = w.state ∧ Through n.Allows s a := by
  obtain run | ⟨rfl, -⟩ := enter_cases run
  · have h := (n.act_madeOf c).through o (w.after (.event (.entered n.name)))
    rw [run] at h
    exact ⟨w.after (.event (.entered n.name)), rfl, h⟩
  · exact ⟨_, rfl, Relation.ReflTransGen.refl⟩

theorem enter_runIn {w : World} (ho : o.stepFault w.log = none) (c : Crew) (n : Node) :
    (n.enter c).runIn o w = (n.act c).runIn o (w.after (.event (.entered n.name))) := by
  rw [Node.enter, runIn_bind_ok (runIn_consult o w _), ho]
  rfl

def Node.agent? : Node → Option Agent
  | .planner => some .planner
  | .coder => some .coder
  | .tester => some .tester
  | _ => none

theorem act_failed (c : Crew) (o : Outside) {a : Agent} (hn : n.agent? = some a) (hw : w.state.status = .failed) :
    (n.act c).runIn o w = (.ok (), w) := by
  cases n <;> first | exact unlessFailed_failed o _ _ hw | cases hn

theorem of_enter_failed {a : Agent} (hn : n.agent? = some a) (hw : w.state.status = .failed)
    (run : (n.enter c).runIn o w = (.ok (), s)) : s = w.after (.event (.entered n.name)) :=
  (Prod.mk.inj ((act_of_enter run).symm.trans (act_failed c o hn hw))).2

/-- An agent that works leaves the migration in its own status, which is not the failed one. -/
theorem act_status (c : Crew) (o : Outside) {a : Agent} (hn : n.agent? = some a) (hw : w.state.status ≠ .failed) :
    ((n.act c).runIn o w).2.state.status = a.status := by
  cases n with
  | clone | createPull | finalize => cases hn
  | planner =>
    cases hn
    rw [Node.act, plan, unlessFailed_runs o _ _ hw]
    exact ((Planner.run_leads _).through o _).status_eq (fun _ => id) (fun _ => id) fun _ => id
  | coder =>
    cases hn
    rw [Node.act, code, unlessFailed_runs o _ _ hw]
    exact ((Coder.run_leads _ _).through o _).status_eq (fun _ => id) (fun _ => id) fun _ => id
  | tester =>
    cases hn
    rw [Node.act, test_runIn c o _ hw]
    exact ((Tester.run_leads _).through o _).status_eq (fun _ => id) (fun _ => id) fun _ => id

theorem status_of_enter {ag : Agent} (hn : n.agent? = some ag) (hw : w.state.status ≠ .failed)
    (run : (n.enter c).runIn o w = (.ok (), a)) : a.state.status = ag.status := by
  have h := act_status c o (w := w.after (.event (.entered n.name))) hn hw
  rwa [act_of_enter run] at h

theorem testsPassed_of_enter (hn : n ≠ .tester) (run : (n.enter c).runIn o w = (r, a)) :
    a.state.testsPassed = w.state.testsPassed := by
  obtain ⟨s, hs, h⟩ := enter_through run
  rw [← hs]
  exact h.testsPassed_eq (fun _ h => n.not_ofNone_of_allows h trivial)
    (fun h => hn (Node.eq_tester_of_allows h trivial)) fun _ h => hn (Node.eq_tester_of_allows h trivial)

theorem pace_of_enter (hn : n ≠ .tester) (run : (n.enter c).runIn o w = (r, a)) :
    a.state.pace = w.state.pace := by
  obtain ⟨s, hs, h⟩ := enter_through run
  rw [← hs]
  exact h.pace_eq (fun _ h => n.not_ofNone_of_allows h trivial) fun h => hn (Node.eq_tester_of_allows h trivial)

theorem act_tester_pace (c : Crew) (o : Outside) (hw : w.state.status ≠ .failed) :
    ((Node.tester.act c).runIn o w).2.state.pace = (w.state.iteration + 1, w.state.maxIterations) := by
  rw [Node.act, test_runIn c o _ hw]
  exact ((Tester.run_leads _).through o _).pace_eq (fun _ => id) id

theorem pace_le_of_enter (run : (n.enter c).runIn o w = (r, a)) :
    a.state.iteration ≤ w.state.iteration + 1 ∧ a.state.maxIterations = w.state.maxIterations := by
  have hle (h : a.state.pace = w.state.pace) : a.state.iteration ≤ w.state.iteration + 1 ∧
      a.state.maxIterations = w.state.maxIterations := by
    obtain ⟨hi, hm⟩ := Prod.mk.inj h
    exact ⟨(le_of_eq hi).trans (by omega), hm⟩
  by_cases hn : n = .tester
  · subst hn
    obtain run | ⟨rfl, -⟩ := enter_cases run
    · by_cases hw : w.state.status = .failed
      · obtain ⟨-, rfl⟩ := Prod.mk.inj (run.symm.trans (act_failed c o rfl hw))
        exact hle rfl
      · have h := act_tester_pace c o (w := w.after (.event (.entered Node.tester.name))) hw
        rw [run] at h
        obtain ⟨hi, hm⟩ := Prod.mk.inj h
        exact ⟨le_of_eq hi, hm⟩
    · exact hle rfl
  · exact hle (pace_of_enter hn run)

def decision (m : Migration) : Route :=
  if m.status = .failed then .fail
  else if m.testsPassed then .createPull
  else if m.iteration < m.maxIterations then .retry
  else .fail

theorem decision_eq_retry_iff (m : Migration) :
    decision m = .retry ↔ m.status ≠ .failed ∧ m.testsPassed = false ∧ m.iteration < m.maxIterations := by
  unfold decision
  split
  · simp_all
  · split
    · simp_all
    · split <;> simp_all

theorem decision_eq_createPull_iff (m : Migration) :
    decision m = .createPull ↔ m.status ≠ .failed ∧ m.testsPassed = true := by
  unfold decision
  split
  · simp_all
  · split
    · simp_all
    · split <;> simp_all

/-- The world behind a decision: another round is announced. -/
def decided (w : World) : World :=
  if decision w.state = .retry then
    w.after (.said "system" ("Tests failed, attempting retry " ++ toString (w.state.iteration + 1) ++ "/" ++
      toString w.state.maxIterations))
  else w

theorem route_runIn (o : Outside) (w : World) : route.runIn o w = (.ok (decision w.state), decided w) := by
  rw [route, runIn_bind_ok (runIn_get o w)]
  unfold decided decision
  by_cases hf : w.state.status = .failed
  · simp [hf]
  · by_cases hp : w.state.testsPassed = true
    · simp [hf, hp]
    · by_cases hi : w.state.iteration < w.state.maxIterations
      · simp only [beq_iff_eq, hf, hp, hi, if_true, if_false, Bool.false_eq_true]
        rfl
      · simp [hf, hp, hi]

@[simp] theorem decided_testsPassed (w : World) : (decided w).state.testsPassed = w.state.testsPassed := by
  unfold decided
  split <;> rfl

@[simp] theorem decided_iteration (w : World) : (decided w).state.iteration = w.state.iteration := by
  unfold decided
  split <;> rfl

@[simp] theorem decided_maxIterations (w : World) :
    (decided w).state.maxIterations = w.state.maxIterations := by
  unfold decided
  split <;> rfl

def Route.node : Route → Node
  | .retry => .coder
  | .createPull => .createPull
  | .fail => .finalize

/-- Follows the edge out of a node; there is none out of the last. -/
def Node.leave : Node → Act (Option Node)
  | .clone => return some .planner
  | .planner => return some .coder
  | .coder => return some .tester
  | .tester => do return some (← route).node
  | .createPull => return some .finalize
  | .finalize => return none

def Node.next? (n : Node) (w : World) : Option Node :=
  match n with
  | .clone => some .planner
  | .planner => some .coder
  | .coder => some .tester
  | .tester => some (decision w.state).node
  | .createPull => some .finalize
  | .finalize => none

theorem leave_runIn (o : Outside) (n : Node) (w : World) :
    n.leave.runIn o w = (.ok (n.next? w), if n = .tester then decided w else w) := by
  cases n with
  | tester =>
    rw [Node.leave, runIn_bind_ok (route_runIn o w)]
    rfl
  | _ => rfl

/-- A node that was executed: the worlds in which it was entered and which it left. -/
structure Visit where
  node : Node
  before : World
  after : World

/-- Nodes are executed and edges followed, from a node on: what was visited, and how it ended. -/
inductive Walk (c : Crew) (o : Outside) : Node → World → List Visit → Except Failure Unit → World → Prop where
  | raised {n : Node} {w a : World} {f : Failure} (run : (n.enter c).runIn o w = (.error f, a)) :
      Walk c o n w [⟨n, w, a⟩] (.error f) a
  | ended {n : Node} {w a w' : World} (run : (n.enter c).runIn o w = (.ok (), a))
      (edge : n.leave.runIn o a = (.ok none, w')) : Walk c o n w [⟨n, w, a⟩] (.ok ()) w'
  | moved {n next : Node} {w a w₁ w' : World} {vs : List Visit} {r : Except Failure Unit}
      (run : (n.enter c).runIn o w = (.ok (), a)) (edge : n.leave.runIn o a = (.ok (some next), w₁))
      (rest : Walk c o next w₁ vs r w') : Walk c o n w (⟨n, w, a⟩ :: vs) r w'

/-- Nodes that a run from a world can come to, and in which worlds. -/
inductive Reached (c : Crew) (o : Outside) (w : World) : Node → World → Prop where
  | start : Reached c o w .clone w
  | step {n next : Node} {s a s' : World} (before : Reached c o w n s)
      (run : (n.enter c).runIn o s = (.ok (), a)) (edge : n.leave.runIn o a = (.ok (some next), s')) :
      Reached c o w next s'

theorem Walk.of_moved {next : Node} (h : Walk c o n w vs r w') (run : (n.enter c).runIn o w = (.ok (), a))
    (edge : n.leave.runIn o a = (.ok (some next), s)) : ∃ us, Walk c o next s us r w' ∧ vs = ⟨n, w, a⟩ :: us := by
  cases h with
  | raised run' => cases run.symm.trans run'
  | ended run' edge' =>
    obtain ⟨-, rfl⟩ := Prod.mk.inj (run.symm.trans run')
    cases edge.symm.trans edge'
  | moved run' edge' rest =>
    obtain ⟨-, rfl⟩ := Prod.mk.inj (run.symm.trans run')
    cases edge.symm.trans edge'
    exact ⟨_, rest, rfl⟩

theorem Walk.unique {w₁ w₂ : World} {us : List Visit} {q : Except Failure Unit} (h : Walk c o n w vs r w₁)
    (h' : Walk c o n w us q w₂) : vs = us ∧ r = q ∧ w₁ = w₂ := by
  induction h generalizing us q w₂ with
  | raised run =>
    cases h' with
    | raised run' =>
      obtain ⟨hf, rfl⟩ := Prod.mk.inj (run.symm.trans run')
      cases hf
      exact ⟨rfl, rfl, rfl⟩
    | ended run' edge' | moved run' edge' rest' => cases run.symm.trans run'
  | ended run edge =>
    cases h' with
    | raised run' => cases run.symm.trans run'
    | ended run' edge' =>
      obtain ⟨-, rfl⟩ := Prod.mk.inj (run.symm.trans run')
      obtain ⟨-, rfl⟩ := Prod.mk.inj (edge.symm.trans edge')
      exact ⟨rfl, rfl, rfl⟩
    | moved run' edge' rest' =>
      obtain ⟨-, rfl⟩ := Prod.mk.inj (run.symm.trans run')
      cases edge.symm.trans edge'
  | moved run edge rest ih =>
    obtain ⟨vs', rest', rfl⟩ := h'.of_moved run edge
    obtain ⟨rfl, rfl, rfl⟩ := ih rest'
    exact ⟨rfl, rfl, rfl⟩

/-- A node is executed first, and a walk goes on from it as the rest of an act does. -/
theorem Walk.enter_then {k : Act Unit}
    (hk : ∀ a, (n.enter c).runIn o w = (.ok (), a) → ∃ next w₁ vs, n.leave.runIn o a = (.ok (some next), w₁) ∧
      Walk c o next w₁ vs (k.runIn o a).1 (k.runIn o a).2) :
    ∃ vs, Walk c o n w vs ((n.enter c >>= fun _ => k).runIn o w).1 ((n.enter c >>= fun _ => k).runIn o w).2 := by
  rcases hrun : (n.enter c).runIn o w with ⟨f | ⟨⟩, a⟩
  · rw [runIn_bind_error hrun]
    exact ⟨_, .raised hrun⟩
  · rw [runIn_bind_ok hrun]
    obtain ⟨next, w₁, vs, edge, rest⟩ := hk a hrun
    exact ⟨_, .moved hrun edge rest⟩

theorem finalize_walk (c : Crew) (o : Outside) (w : World) :
    ∃ vs, Walk c o .finalize w vs ((Node.finalize.enter c).runIn o w).1 ((Node.finalize.enter c).runIn o w).2 := by
  rcases hrun : (Node.finalize.enter c).runIn o w with ⟨f | ⟨⟩, a⟩
  · exact ⟨_, .raised hrun⟩
  · exact ⟨_, .ended hrun (leave_runIn o .finalize a)⟩

theorem finish_walk (c : Crew) (o : Outside) (r : Route) (hr : r ≠ .retry) (w : World) :
    ∃ vs, Walk c o r.node w vs ((finish c r).runIn o w).1 ((finish c r).runIn o w).2 := by
  cases r with
  | retry => exact absurd rfl hr
  | fail => exact finalize_walk c o w
  | createPull =>
    refine Walk.enter_then fun a _ => ?_
    obtain ⟨vs, hvs⟩ := finalize_walk c o a
    exact ⟨.finalize, a, vs, leave_runIn o .createPull a, hvs⟩

/-- What is done with a decision when at most so many further rounds are made. -/
def proceed (c : Crew) : Nat → Route → Act Unit
  | n + 1, .retry => rounds c n >>= finish c
  | _, r => finish c r

theorem proceed_of_ne_retry (c : Crew) (n : Nat) {r : Route} (hr : r ≠ .retry) : proceed c n r = finish c r := by
  cases r with
  | retry => exact absurd rfl hr
  | createPull | fail => cases n <;> rfl

theorem rounds_bind_finish (c : Crew) (n : Nat) :
    rounds c n >>= finish c =
      Node.coder.enter c >>= fun _ => Node.tester.enter c >>= fun _ => route >>= proceed c n := by
  cases n with
  | zero =>
    have hproceed : proceed c 0 = finish c := by
      funext r
      cases r <;> rfl
    simp only [rounds, round, bind_assoc, hproceed]
  | succ n =>
    simp only [rounds, round, bind_assoc]
    refine congrArg (Node.coder.enter c >>= ·) (funext fun _ => ?_)
    refine congrArg (Node.tester.enter c >>= ·) (funext fun _ => ?_)
    refine congrArg (route >>= ·) (funext fun r => ?_)
    cases r with
    | retry => rfl
    | createPull | fail => exact pure_bind _ _

/-- Where another round follows a test, that test was made and counted. -/
theorem tester_retry (run : (Node.tester.enter c).runIn o w = (.ok (), a)) (hd : decision a.state = .retry) :
    a.state.iteration = w.state.iteration + 1 ∧ a.state.maxIterations = w.state.maxIterations ∧
      a.state.iteration < w.state.maxIterations := by
  obtain ⟨hs, -, hlt⟩ := (decision_eq_retry_iff _).1 hd
  have hw : w.state.status ≠ .failed := by
    intro hw
    obtain rfl := of_enter_failed (n := .tester) rfl hw run
    exact hs hw
  have hpace := act_tester_pace c o (w := w.after (.event (.entered Node.tester.name))) hw
  rw [act_of_enter run] at hpace
  obtain ⟨hi, hm⟩ := Prod.mk.inj hpace
  exact ⟨hi, hm, hm ▸ hlt⟩

/-- A round is a walk from the coder if a walk goes on from where another round is decided on. -/
theorem round_walk {n : Nat} (hnext : ∀ a, a.state.iteration = w.state.iteration + 1 →
      a.state.maxIterations = w.state.maxIterations → a.state.iteration < w.state.maxIterations →
      ∃ vs, Walk c o .coder (decided a) vs ((proceed c n .retry).runIn o (decided a)).1
        ((proceed c n .retry).runIn o (decided a)).2) :
    ∃ vs, Walk c o .coder w vs ((rounds c n >>= finish c).runIn o w).1 ((rounds c n >>= finish c).runIn o w).2 := by
  rw [rounds_bind_finish]
  refine Walk.enter_then fun a hcoder => ?_
  obtain ⟨hi, hm⟩ := Prod.mk.inj (pace_of_enter Node.noConfusion hcoder)
  have htester : ∃ vs, Walk c o .tester a vs _ _ := Walk.enter_then fun b hb => by
    have edge := leave_runIn o .tester b
    rw [runIn_bind_ok (route_runIn o b)]
    by_cases hd : decision b.state = .retry
    · obtain ⟨hib, hmb, hlt⟩ := tester_retry hb hd
      obtain ⟨vs, hvs⟩ := hnext b (hib.trans (by rw [hi])) (hmb.trans hm) (hm ▸ hlt)
      exact ⟨.coder, decided b, vs, by rw [edge, Node.next?, hd]; rfl, by rw [hd]; exact hvs⟩
    · rw [proceed_of_ne_retry c n hd]
      obtain ⟨vs, hvs⟩ := finish_walk c o _ hd (decided b)
      exact ⟨_, decided b, vs, edge, hvs⟩
  obtain ⟨vs, hvs⟩ := htester
  exact ⟨.tester, a, vs, leave_runIn o .coder a, hvs⟩

/-- The rounds that are left are enough: where another one is made, one of them is used up. -/
theorem rounds_walk (c : Crew) (o : Outside) (n : Nat) (w : World)
    (hn : w.state.maxIterations - w.state.iteration ≤ n) :
    ∃ vs, Walk c o .coder w vs ((rounds c n >>= finish c).runIn o w).1 ((rounds c n >>= finish c).runIn o w).2 := by
  induction n generalizing w with
  | zero =>
    refine round_walk fun a hi hm hlt => ?_
    omega
  | succ n ih =>
    refine round_walk fun a hi hm hlt => ih (decided a) ?_
    rw [decided_maxIterations, decided_iteration]
    omega

theorem runGraph_walk (c : Crew) (o : Outside) (w : World) :
    ∃ vs, Walk c o .clone w vs ((runGraph c).runIn o w).1 ((runGraph c).runIn o w).2 := by
  refine Walk.enter_then fun a _ => ?_
  have hplan : ∃ vs, Walk c o .planner a vs _ _ := Walk.enter_then fun b _ => by
    rw [runIn_bind_ok (runIn_get o b)]
    obtain ⟨vs, hvs⟩ := rounds_walk c o (b.state.maxIterations - b.state.iteration).toNat b
      (Int.self_le_toNat _)
    exact ⟨.coder, b, vs, leave_runIn o .planner b, hvs⟩
  obtain ⟨vs, hvs⟩ := hplan
  exact ⟨.planner, a, vs, leave_runIn o .clone a, hvs⟩

theorem leave_eq_some {next : Node} (edge : n.leave.runIn o a = (.ok (some next), w)) :
    n.next? a = some next ∧ w = if n = .tester then decided a else a := by
  rw [leave_runIn] at edge
  obtain ⟨h, hw⟩ := Prod.mk.inj edge
  exact ⟨Except.ok.inj h, hw.symm⟩

theorem leave_eq_none (edge : n.leave.runIn o a = (.ok none, w)) : n = .finalize := by
  rw [leave_runIn] at edge
  have h := Except.ok.inj (Prod.mk.inj edge).1
  cases n <;> first | rfl | cases h

def roundNodes (k : Nat) : List Node := (List.replicate k [Node.coder, .tester]).flatten

theorem roundNodes_succ (k : Nat) : roundNodes (k + 1) = .coder :: .tester :: roundNodes k := rfl

/-- How walks end. -/
def IsEnding (ns : List Node) : Prop := ns = [.finalize] ∨ ns = [.createPull, .finalize]

/-- Some nodes first, then at least one round but not more than are left, then an end. -/
def IsCourse (m : Migration) (lead ns : List Node) : Prop :=
  ∃ k ending, ns = lead ++ roundNodes k ++ ending ∧ IsEnding ending ∧ 1 ≤ k ∧
    (k : Int) ≤ max 1 (m.maxIterations - m.iteration)

/-- The nodes that a walk visits from a node on until it ends. -/
def Node.Continues (m : Migration) (ns : List Node) : Node → Prop
  | .clone => IsCourse m [.clone, .planner] ns
  | .planner => IsCourse m [.planner] ns
  | .coder => IsCourse m [] ns
  | .tester => IsCourse m [] (.coder :: ns)
  | .createPull => ns = [.createPull, .finalize]
  | .finalize => ns = [.finalize]

theorem IsCourse.lead {lead : List Node} (h : IsCourse m lead ns) (n : Node) : IsCourse m (n :: lead) (n :: ns) := by
  obtain ⟨k, ending, rfl, h⟩ := h
  exact ⟨k, ending, rfl, h⟩

theorem IsCourse.of_pace {m' : Migration} {lead : List Node} (h : IsCourse m lead ns) (hp : m.pace = m'.pace) :
    IsCourse m' lead ns := by
  obtain ⟨k, ending, hns, he, hk, hle⟩ := h
  obtain ⟨hi, hm⟩ := Prod.mk.inj hp
  exact ⟨k, ending, hns, he, hk, by rw [← hi, ← hm]; exact hle⟩

theorem IsCourse.last (m : Migration) {ending : List Node} (he : IsEnding ending) :
    IsCourse m [] (.coder :: .tester :: ending) :=
  ⟨1, ending, rfl, he, le_rfl, le_max_left _ _⟩

/-- A round before others: it is one of those that were left. -/
theorem IsCourse.again {m' : Migration} (h : IsCourse m' [] ns) (hi : m'.iteration = m.iteration + 1)
    (hm : m'.maxIterations = m.maxIterations) (hlt : m'.iteration < m.maxIterations) :
    IsCourse m [] (.coder :: .tester :: ns) := by
  obtain ⟨k, ending, rfl, he, hk, hle⟩ := h
  refine ⟨k + 1, ending, ?_, he, by omega, ?_⟩
  · rw [roundNodes_succ]
    rfl
  · push_cast
    omega

theorem Walk.continues (h : Walk c o n w vs r w') (hr : r = .ok ()) : n.Continues w.state (vs.map Visit.node) := by
  induction h with
  | raised run => cases hr
  | ended run edge =>
    obtain rfl := leave_eq_none edge
    rfl
  | @moved n next w a w₁ w' vs r run edge rest ih =>
    have ih := ih hr
    obtain ⟨hnext, rfl⟩ := leave_eq_some edge
    rw [List.map_cons]
    cases n with
    | clone =>
      cases hnext
      exact (IsCourse.lead ih .clone).of_pace (pace_of_enter Node.noConfusion run)
    | planner =>
      cases hnext
      exact (IsCourse.lead ih .planner).of_pace (pace_of_enter Node.noConfusion run)
    | coder =>
      cases hnext
      exact IsCourse.of_pace ih (pace_of_enter Node.noConfusion run)
    | createPull =>
      cases hnext
      exact congrArg (List.cons Node.createPull) ih
    | finalize => cases hnext
    | tester =>
      obtain rfl := Option.some.inj hnext
      cases hd : decision a.state with
      | retry =>
        rw [hd] at ih
        have hcourse : IsCourse (decided a).state [] (vs.map Visit.node) := ih
        obtain ⟨hi, hm, hlt⟩ := tester_retry run hd
        refine hcourse.again ?_ ?_ ?_
        · rw [decided_iteration, hi]
        · rw [decided_maxIterations, hm]
        · rwa [decided_iteration]
      | createPull =>
        rw [hd] at ih
        exact IsCourse.last _ (.inr ih)
      | fail =>
        rw [hd] at ih
        exact IsCourse.last _ (.inl ih)

theorem Walk.head {v : Visit} (h : Walk c o n w (v :: vs) r w') : v.node = n := by
  cases h <;> rfl

/-- A visit to the coder follows the planner, or a tester that left failed tests and a round to go. -/
theorem Walk.before_coder {before behind : List Visit} {u v : Visit} (h : Walk c o n w vs r w')
    (hvs : vs = before ++ u :: v :: behind) (hv : v.node = .coder) :
    u.node = .planner ∨ u.node = .tester ∧ decision u.after.state = .retry := by
  induction h generalizing before with
  | raised run | ended run edge => simp [List.cons_eq_append_iff] at hvs
  | @moved n next w a w₁ w' vs r run edge rest ih =>
    cases before with
    | cons b before => exact ih (List.cons.inj hvs).2
    | nil =>
      obtain ⟨rfl, rfl⟩ := List.cons.inj hvs
      obtain ⟨hnext, -⟩ := leave_eq_some edge
      rw [← rest.head, hv] at hnext
      cases n with
      | planner => exact .inl rfl
      | tester =>
        refine .inr ⟨rfl, ?_⟩
        cases hd : decision a.state with
        | retry => rfl
        | createPull | fail => rw [Node.next?, hd] at hnext; cases hnext
      | _ => cases hnext

/-- A visit goes from the world in which the node is entered to the one that the node leaves. -/
theorem Walk.visited (h : Walk c o n w vs r w') :
    ∀ v ∈ vs, ∃ q, (v.node.enter c).runIn o v.before = (q, v.after) ∧ (r = .ok () → q = .ok ()) := by
  induction h with
  | raised run | ended run edge =>
    intro v hv
    obtain rfl := List.mem_singleton.mp hv
    exact ⟨_, run, id⟩
  | moved run edge rest ih =>
    intro v hv
    rcases List.mem_cons.mp hv with rfl | hv
    · exact ⟨_, run, fun _ => rfl⟩
    · exact ih v hv

theorem Walk.reached (h : Walk c o n s vs r w') (hs : Reached c o w n s) : ∀ v ∈ vs, Reached c o w v.node v.before := by
  induction h with
  | raised run | ended run edge =>
    intro v hv
    obtain rfl := List.mem_singleton.mp hv
    exact hs
  | moved run edge rest ih =>
    intro v hv
    rcases List.mem_cons.mp hv with rfl | hv
    · exact hs
    · exact ih (hs.step run edge) v hv

/-- Rounds done never exceed those that may be done, but for a first one; those nodes that a test is still to
follow leave room for it. -/
theorem Reached.iteration_le (h : Reached c o w n s) : s.state.maxIterations = w.state.maxIterations ∧
      s.state.iteration ≤ max w.state.maxIterations (w.state.iteration + 1) ∧
      (n ≠ .createPull → n ≠ .finalize →
        s.state.iteration + 1 ≤ max w.state.maxIterations (w.state.iteration + 1)) := by
  induction h with
  | start => exact ⟨rfl, by omega, fun _ _ => le_max_right _ _⟩
  | @step n next s a s' before run edge ih =>
    obtain ⟨hmax, hle, hroom⟩ := ih
    obtain ⟨hnext, rfl⟩ := leave_eq_some edge
    by_cases hn : n = .tester
    · subst hn
      have ha := pace_le_of_enter run
      have hroom := hroom Node.noConfusion Node.noConfusion
      rw [if_pos rfl, decided_maxIterations, decided_iteration]
      refine ⟨ha.2.trans hmax, by omega, fun hpull hend => ?_⟩
      have hd : decision a.state = .retry := by
        obtain rfl := Option.some.inj hnext
        cases hd : decision a.state with
        | retry => rfl
        | createPull => exact absurd (by rw [hd]; rfl) hpull
        | fail => exact absurd (by rw [hd]; rfl) hend
      obtain ⟨-, -, hlt⟩ := tester_retry run hd
      omega
    · have hpace := pace_of_enter hn run
      obtain ⟨hi, hm⟩ := Prod.mk.inj hpace
      rw [if_neg hn]
      refine ⟨hm.trans hmax, by omega, fun hpull hend => ?_⟩
      have hearly : n ≠ .createPull ∧ n ≠ .finalize := by
        constructor
        · rintro rfl
          exact hend (Option.some.inj hnext).symm
        · rintro rfl
          cases hnext
      have := hroom hearly.1 hearly.2
      omega

theorem Walk.eq_ok (h : Walk c o n s vs r w') (hs : Reached c o w n s)
    (calm : ∀ n s, Reached c o w n s → ((n.enter c).runIn o s).1 = .ok ()) : r = .ok () := by
  induction h with
  | raised run =>
    have hok := calm _ _ hs
    rw [run] at hok
    cases hok
  | ended run edge => rfl
  | moved run edge rest ih => exact ih (hs.step run edge)

/-- What was reached lies on the walk: it goes on from there, and ends in the same way. -/
theorem Reached.walk (hs : Reached c o w n s) (h : Walk c o .clone w vs r w') :
    ∃ us, Walk c o n s us r w' ∧ us <:+ vs := by
  induction hs with
  | start => exact ⟨vs, h, List.suffix_rfl⟩
  | step before run edge ih =>
    obtain ⟨us, hus, hsuffix⟩ := ih
    obtain ⟨rest, hrest, rfl⟩ := hus.of_moved run edge
    exact ⟨rest, hrest, (List.suffix_cons _ _).trans hsuffix⟩

theorem Reached.visit (hs : Reached c o w n s) (h : Walk c o .clone w vs r w') : ∃ a, ⟨n, s, a⟩ ∈ vs := by
  obtain ⟨us, hus, hsuffix⟩ := hs.walk h
  cases hus with
  | raised run | ended run edge => exact ⟨_, hsuffix.subset (List.mem_singleton_self _)⟩
  | moved run edge rest => exact ⟨_, hsuffix.subset List.mem_cons_self⟩

theorem enter_eq_ok_of_runGraph (h : ((runGraph c).runIn o w).1.isOk = true) (n : Node) (s : World)
    (hs : Reached c o w n s) : ((n.enter c).runIn o s).1 = .ok () := by
  obtain ⟨vs, hvs⟩ := runGraph_walk c o w
  generalize (runGraph c).runIn o w = result at h hvs
  obtain ⟨r, w'⟩ := result
  obtain ⟨us, hus, -⟩ := hs.walk hvs
  cases hus with
  | raised run => cases h
  | ended run edge => rw [run]
  | moved run edge rest => rw [run]

/-- If no node raises where a run comes to, the run ends, and it has executed the first two nodes, then the
coder and the tester in turn, at least once and not more often than rounds were left, and then the last nodes.
The coder is executed again only behind a tester that left failed tests and a round to go. Wherever it comes to, the
rounds done are not more than there may be, but for a first one. -/
theorem runGraph_course (c : Crew) (o : Outside) (w : World)
    (calm : ∀ n s, Reached c o w n s → ((n.enter c).runIn o s).1 = .ok ()) :
    ∃ vs w', Walk c o .clone w vs (.ok ()) w' ∧ (runGraph c).runIn o w = (.ok (), w') ∧
      (∀ us r w₁, Walk c o .clone w us r w₁ → us = vs) ∧
      (∃ k ending, vs.map Visit.node = [.clone, .planner] ++ roundNodes k ++ ending ∧
        (ending = [.finalize] ∨ ending = [.createPull, .finalize]) ∧
        1 ≤ k ∧ (k : Int) ≤ max 1 (w.state.maxIterations - w.state.iteration)) ∧
      (∀ before u v behind, vs = before ++ u :: v :: behind → v.node = .coder → u.node = .planner ∨
        u.node = .tester ∧ u.after.state.status ≠ .failed ∧ u.after.state.testsPassed = false ∧
          u.after.state.iteration < w.state.maxIterations) ∧
      (∀ n s, Reached c o w n s →
        s.state.iteration ≤ max w.state.maxIterations (w.state.iteration + 1) ∧
        ((n.enter c).runIn o s).2.state.iteration ≤
          max w.state.maxIterations (w.state.iteration + 1)) := by
  obtain ⟨vs, hvs⟩ := runGraph_walk c o w
  have hok := hvs.eq_ok .start calm
  rw [hok] at hvs
  refine ⟨vs, _, hvs, Prod.ext hok rfl, ?_, hvs.continues rfl, ?_, ?_⟩
  · intro us r w₁ hus
    exact (hus.unique hvs).1
  · intro before u v behind hsplit hv
    refine (hvs.before_coder hsplit hv).imp id fun ⟨htester, hd⟩ => ⟨htester, ?_⟩
    obtain ⟨hs, hp, hlt⟩ := (decision_eq_retry_iff _).1 hd
    have hu : u ∈ vs := by simp [hsplit]
    have hreached := hvs.reached .start u hu
    obtain ⟨q, hrun, -⟩ := hvs.visited u hu
    have hmax : u.after.state.maxIterations = w.state.maxIterations :=
      (pace_le_of_enter hrun).2.trans hreached.iteration_le.1
    exact ⟨hs, hp, hmax ▸ hlt⟩
  · intro n s hs
    obtain ⟨-, hle, hroom⟩ := hs.iteration_le
    refine ⟨hle, ?_⟩
    rcases hrun : (n.enter c).runIn o s with ⟨q, a⟩
    by_cases hn : n = .tester
    · subst hn
      exact (pace_le_of_enter hrun).1.trans (hroom Node.noConfusion Node.noConfusion)
    · exact (le_of_eq (Prod.mk.inj (pace_of_enter hn hrun)).1).trans hle

def aloneCrew : Crew := ⟨{}, false, false, false⟩

/-- A repository with an old call in its only file, and tests of which the first fails. -/
def flakyOutside : Outside where
  clonedFiles _ := [(.ofString "a.py", Text.encode "xrange(3)\n")]
  testRun log :=
    let tests := log.countP fun
      | .tested .. => true
      | _ => false
    .done (if tests = 1 then 1 else 0) "" ""

theorem runGraph_course_flaky :
    (∀ n s, Reached aloneCrew flakyOutside {} n s → ((n.enter aloneCrew).runIn flakyOutside s).1 = .ok ()) ∧
      ∃ vs w', Walk aloneCrew flakyOutside .clone {} vs (.ok ()) w' ∧
        (∃ k ending, vs.map Visit.node = [.clone, .planner] ++ roundNodes k ++ ending ∧
          (ending = [.finalize] ∨ ending = [.createPull, .finalize]) ∧ 1 ≤ k ∧ k ≤ 3) ∧
        w'.state.iteration = 2 := by
  have hall : (((runGraph aloneCrew).runIn flakyOutside {}).1.isOk &&
      ((runGraph aloneCrew).runIn flakyOutside {}).2.state.iteration == 2) = true := by decide +kernel
  obtain ⟨hok, hi⟩ := Bool.and_eq_true_iff.1 hall
  have calm := enter_eq_ok_of_runGraph hok
  refine ⟨calm, ?_⟩
  obtain ⟨vs, w', hwalk, hrun, -, ⟨k, ending, hns, he, hk, hle⟩, -⟩ := runGraph_course _ _ _ calm
  have hmax : max 1 (3 - 0) = (3 : Int) := rfl
  rw [hrun] at hi
  exact ⟨vs, w', hwalk, ⟨k, ending, hns, he, hk, Int.ofNat_le.1 (hle.trans (le_of_eq hmax))⟩, beq_iff_eq.1 hi⟩

end CodeMigration.Workflow
