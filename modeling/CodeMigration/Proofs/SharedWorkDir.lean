import CodeMigration.Proofs.CloneSpots
import CodeMigration.Proofs.WorkflowWalk
import Mathlib.Logic.Function.Basic

/-! # Migrations that share a work directory

Several migrations with the same settings have the same work directory. Their nodes may be executed in any order. It is
shown for every such order that a job leaves the clones of the others alone, with one exception: the node in which it
clones removes them all. So of two jobs that have both cloned, at most one still has its clone. -/

namespace CodeMigration.Workflow

open Act

/-- A migration under way, and the node that comes next. -/
structure Job where
  crew : Crew
  state : Migration
  connected : Bool := false
  next : Option Node := some .clone

def Job.start (c : Crew) (url : String) (kind : MigrationKind) : Job :=
  { crew := c, state := { repoUrl := url, kind } }

/-- The world as a job sees it: all is shared but what belongs to the migration itself. -/
def Job.worldIn (j : Job) (w : World) : World := { w with state := j.state, connected := j.connected }

/-- Executes a node, and says which comes next. -/
def visit (c : Crew) (n : Node) : Act (Option Node) := do
  n.enter c
  n.leave

/-- A job executes its next node. It has ended if there is none, or once a node fails. -/
def Job.step (o : Outside) (j : Job) (w : World) : Job × World :=
  match j.next with
  | none => (j, w)
  | some n =>
    let r := (visit j.crew n).runIn o (j.worldIn w)
    ({ j with state := r.2.state, connected := r.2.connected, next := r.1.toOption.join }, r.2)

section
variable {o : Outside} {s : CloneSpot} {url : String} {c : Crew} {n : Node} {j : Job} {w : World}

theorem visit_keeps (h : o.IsQuiet) {d₀ : Disk} {cloned : Option FilePath} (c : Crew) (hn : n ≠ .clone) :
    Keeps o (Held (s.KeepsLeaving url d₀ cloned)) (fun _ => True) (visit c n) := by
  rw [visit]
  have hsteps : MadeOf Deed.Minor (consult Outside.stepFault >>= failWith) :=
    .bind (.consult _ fun _ _ _ _ => rfl) fun _ => .failWith _
  have henter : n.enter c = consult Outside.stepFault >>= failWith >>= fun _ => record (.entered n.name) >>= fun _ =>
      n.act c := by
    simp only [Node.enter, bind_assoc]
  rw [henter]
  refine .bind (.bind (.minor hsteps) fun _ _ => .bind (.minor (.record trivial)) fun _ _ => s.act_keeps h c hn) ?_
  intro _ _
  refine .minor ?_
  cases n with
  | tester => exact .bind (route_madeOf fun _ _ => trivial) fun _ => .pure _
  | _ => exact .pure _

theorem visit_clone_runIn (free : ∀ log, o.stepFault log = none) (c : Crew) (w : World) :
    ((visit c .clone).runIn o w).2 = ((clone c).runIn o (w.after (.event (.entered Node.clone.name)))).2 := by
  have hact : Node.clone.act c = clone c := rfl
  rw [visit, runIn_bind, enter_runIn (free _), hact]
  rcases (clone c).runIn o (w.after (.event (.entered Node.clone.name))) with ⟨e | u, w₁⟩ <;> rfl

theorem Job.step_of_cloned (h : o.IsQuiet) (hj : s.KeepsTo url j.state.holdings) (hn : j.next ≠ some .clone) :
    s.KeepsLeaving url w.disk j.state.repoPath (j.step o w).2.disk (j.step o w).1.state.holdings := by
  rw [step]
  cases hnext : j.next with
  | none => exact ⟨hj, .refl s w.disk, rfl⟩
  | some n =>
    have hclone : n ≠ .clone := fun heq => hn (heq ▸ hnext)
    exact (visit_keeps h j.crew hclone (j.worldIn w) ⟨hj, .refl s w.disk, rfl⟩).1

theorem Job.step_of_cloning (h : o.ClonesPlain) (free : ∀ log, o.stepFault log = none)
    (hdir : s.dir = .ofString j.crew.settings.workDir) (hname : s.name = RemoteUrl.repoName url)
    (hj : s.KeepsTo url j.state.holdings) (hn : j.next = some .clone) :
    s.KeepsSole url (j.step o w).2.disk (j.step o w).1.state.holdings := by
  rw [step, hn]
  have hsole : Held (s.KeepsSole url) ((visit j.crew .clone).runIn o (j.worldIn w)).2 := by
    rw [visit_clone_runIn free]
    exact CloneSpot.clone_sole h hdir hname hj
  exact hsole

theorem Job.step_crew : (j.step o w).1.crew = j.crew := by
  rw [step]
  cases j.next <;> rfl

end

/-- Jobs in one world. -/
structure Jobs (ι : Type) where
  job : ι → Job
  world : World

namespace Jobs

variable {ι : Type}

/-- Jobs that are started with the same settings for repositories of different names. -/
structure Sharing (settings : Settings) (s : Jobs ι) : Prop where
  started : ∀ i, ∃ c url kind, s.job i = .start c url kind ∧ c.settings = settings
  straight : ".." ∉ (FilePath.ofString settings.workDir).parts
  plain : ∀ i, FilePath.IsPlain (RemoteUrl.repoName (s.job i).state.repoUrl)
  distinct : ∀ i j,
    RemoteUrl.repoName (s.job i).state.repoUrl = RemoteUrl.repoName (s.job j).state.repoUrl → i = j

/-- The spots of jobs that share a work directory. -/
structure Spots (settings : Settings) (spot : ι → CloneSpot) (url : ι → String) : Prop where
  dir : ∀ i, (spot i).dir = .ofString settings.workDir
  name : ∀ i, (spot i).name = RemoteUrl.repoName (url i)
  distinct : ∀ i j, (spot i).name = (spot j).name → i = j

/-- What holds at all times: every job keeps to its clone, and of two that have cloned one has lost it. -/
structure Inv (settings : Settings) (spot : ι → CloneSpot) (url : ι → String) (s : Jobs ι) : Prop where
  settings : ∀ i, (s.job i).crew.settings = settings
  keeps : ∀ i, (spot i).KeepsTo (url i) (s.job i).state.holdings
  apart : ∀ i j, i ≠ j → (s.job i).state.repoPath ≠ none → (s.job j).state.repoPath ≠ none →
    ((spot i).tree s.world.disk).at? (spot i).parts = none ∨ ((spot j).tree s.world.disk).at? (spot j).parts = none

section
variable {settings : Settings} {spot : ι → CloneSpot} {url : ι → String} (h : Spots settings spot url) {i j : ι}
include h

theorem Spots.tree_eq (i j : ι) (d : Disk) : (spot j).tree d = (spot i).tree d := by
  rw [CloneSpot.tree, CloneSpot.tree, h.dir, h.dir]

theorem Spots.parts_eq (i j : ι) : (spot j).parts = (spot i).dir.parts ++ [(spot j).name] := by
  rw [CloneSpot.parts, h.dir, h.dir]

theorem Spots.find_of_leaves {d d' : Disk} (hleaves : (spot i).Leaves d d') (hij : j ≠ i) :
    ((spot j).tree d').find (spot j).parts = ((spot j).tree d).find (spot j).parts := by
  rw [h.tree_eq i j, h.tree_eq i j, h.parts_eq i j]
  exact hleaves.others _ fun heq => hij (h.distinct j i heq)

theorem Spots.at?_of_sole {d : Disk} (hsole : (spot i).Sole d) (hij : j ≠ i) :
    ((spot j).tree d).at? (spot j).parts = none := by
  rw [h.tree_eq i j, h.parts_eq i j]
  exact hsole.others _ fun heq => hij (h.distinct j i heq)

end

section
variable {settings : Settings} {s : Jobs ι} (h : Sharing settings s)

/-- Jobs that are just started have spots of their own. -/
def Sharing.spot (i : ι) : CloneSpot where
  dir := .ofString settings.workDir
  name := RemoteUrl.repoName (s.job i).state.repoUrl
  normal := FilePath.isNormal_ofString _
  straight := h.straight
  plain := h.plain i

theorem Sharing.spots : Spots settings h.spot fun i => (s.job i).state.repoUrl where
  dir _ := by simp only [spot]
  name _ := by simp only [spot]
  distinct i j := by simpa only [spot] using h.distinct i j

theorem Sharing.inv : Inv settings h.spot (fun i => (s.job i).state.repoUrl) s := by
  refine ⟨fun i => ?_, fun i => ?_, fun i j _ hi _ => ?_⟩
  all_goals obtain ⟨c, url, kind, hjob, hsettings⟩ := h.started i
  · rw [hjob]
    exact hsettings
  · have hholdings : (s.job i).state.holdings = ⟨(s.job i).state.repoUrl, none, [], []⟩ := by
      rw [hjob]
      rfl
    rw [hholdings]
    exact ⟨rfl, nofun, nofun, nofun⟩
  · rw [hjob] at hi
    exact absurd rfl hi

end

variable [DecidableEq ι]

/-- One of the jobs executes its next node. -/
def step (o : Outside) (s : Jobs ι) (i : ι) : Jobs ι :=
  let (j, w) := (s.job i).step o s.world
  { job := Function.update s.job i j, world := w }

/-- Jobs take turns, in any order. -/
def run (o : Outside) (s : Jobs ι) (turns : List ι) : Jobs ι := turns.foldl (step o) s

section
variable {o : Outside} {settings : Settings} {spot : ι → CloneSpot} {url : ι → String} {s : Jobs ι} {i j : ι}

theorem job_step_self (o : Outside) (s : Jobs ι) (i : ι) : (s.step o i).job i = ((s.job i).step o s.world).1 :=
  Function.update_self ..

theorem job_step_of_ne (o : Outside) (s : Jobs ι) (h : j ≠ i) : (s.step o i).job j = s.job j :=
  Function.update_of_ne h ..

theorem world_step (o : Outside) (s : Jobs ι) (i : ι) : (s.step o i).world = ((s.job i).step o s.world).2 := rfl

/-- What holds at all times is kept by every step. -/
theorem Inv.step (hquiet : o.IsQuiet) (hplain : o.ClonesPlain) (free : ∀ log, o.stepFault log = none)
    (h : Spots settings spot url) (hs : Inv settings spot url s) (i : ι) : Inv settings spot url (s.step o i) := by
  have hsettings (j : ι) : ((s.step o i).job j).crew.settings = settings := by
    by_cases hj : j = i
    · rw [hj, job_step_self, Job.step_crew, hs.settings]
    · rw [job_step_of_ne o s hj, hs.settings]
  have hothers {j : ι} (hj : j ≠ i) : (spot j).KeepsTo (url j) ((s.step o i).job j).state.holdings := by
    rw [job_step_of_ne o s hj]
    exact hs.keeps j
  by_cases hnext : (s.job i).next = some .clone
  · have hdir : (spot i).dir = .ofString (s.job i).crew.settings.workDir := by rw [hs.settings, h.dir]
    obtain ⟨hkeeps, hsole⟩ := Job.step_of_cloning (w := s.world) hplain free hdir (h.name i) (hs.keeps i) hnext
    refine ⟨hsettings, fun j => ?_, fun j k hjk _ _ => ?_⟩
    · by_cases hj : j = i
      · rw [hj, job_step_self]
        exact hkeeps
      · exact hothers hj
    · rw [world_step]
      by_cases hj : j = i
      · exact .inr (h.at?_of_sole hsole (hj ▸ hjk.symm))
      · exact .inl (h.at?_of_sole hsole hj)
  · have hleaving := Job.step_of_cloned (w := s.world) hquiet (hs.keeps i) hnext
    have hgone (j : ι) (hj : ((spot j).tree s.world.disk).at? (spot j).parts = none) :
        ((spot j).tree (s.step o i).world.disk).at? (spot j).parts = none := by
      rw [world_step]
      by_cases hji : j = i
      · subst hji
        exact hleaving.leaves.gone hj
      · rw [FileTree.at?, h.find_of_leaves hleaving.leaves hji]
        exact hj
    have hcloned (j : ι) : ((s.step o i).job j).state.repoPath = (s.job j).state.repoPath := by
      by_cases hj : j = i
      · rw [hj, job_step_self]
        exact hleaving.cloned
      · rw [job_step_of_ne o s hj]
    refine ⟨hsettings, fun j => ?_, fun j k hjk hj hk => ?_⟩
    · by_cases hj : j = i
      · rw [hj, job_step_self]
        exact hleaving.keeps
      · exact hothers hj
    · rw [hcloned] at hj hk
      exact (hs.apart j k hjk hj hk).imp (hgone j) (hgone k)

theorem Inv.run (hquiet : o.IsQuiet) (hplain : o.ClonesPlain) (free : ∀ log, o.stepFault log = none)
    (h : Spots settings spot url) (hs : Inv settings spot url s) (turns : List ι) :
    Inv settings spot url (s.run o turns) := by
  induction turns generalizing s with
  | nil => exact hs
  | cons i turns ih => exact ih (hs.step hquiet hplain free h i)

end

/-- However the nodes of jobs with one work directory follow each other, a job that is not about to clone leaves
everything as it is in the clones of the others, and one that clones leaves nothing of them. So of two jobs that have
cloned, one has no clone any more. -/
theorem clones_survive_all_but_cloning {o : Outside} (hquiet : o.IsQuiet) (hplain : o.ClonesPlain)
    (free : ∀ log, o.stepFault log = none) {settings : Settings} {start : Jobs ι} (h : Sharing settings start)
    (turns : List ι) :
    (∀ i j p, i ≠ j → ((start.run o turns).job j).state.repoPath = some p →
      (((start.run o turns).job i).next ≠ some .clone →
        ((start.run o turns).step o i).world.disk.find p = (start.run o turns).world.disk.find p) ∧
      (((start.run o turns).job i).next = some .clone →
        ((start.run o turns).step o i).world.disk.isThere p = false)) ∧
    ∀ i j p q, i ≠ j → ((start.run o turns).job i).state.repoPath = some p →
      ((start.run o turns).job j).state.repoPath = some q →
      (start.run o turns).world.disk.isThere p = false ∨ (start.run o turns).world.disk.isThere q = false := by
  have hspots := h.spots
  have hs := h.inv.run hquiet hplain free hspots turns
  have hnone {d : Disk} {i : ι} (hd : ((h.spot i).tree d).at? (h.spot i).parts = none) :
      d.isThere (h.spot i).path = false := by
    rw [Disk.isThere_eq_false, CloneSpot.find_path]
    intro t ht
    rw [FileTree.at?_eq_some.2 ht] at hd
    cases hd
  refine ⟨fun i j p hij hp => ⟨fun hnext => ?_, fun hnext => ?_⟩, fun i j p q hij hp hq => ?_⟩
  · have hleaving := Job.step_of_cloned (w := (start.run o turns).world) hquiet (hs.keeps i) hnext
    rw [(hs.keeps j).path p hp, CloneSpot.find_path, CloneSpot.find_path, world_step,
      hspots.find_of_leaves hleaving.leaves hij.symm]
  · have hdir : (h.spot i).dir = .ofString ((start.run o turns).job i).crew.settings.workDir := by
      rw [hs.settings, hspots.dir]
    obtain ⟨-, hsole⟩ :=
      Job.step_of_cloning (w := (start.run o turns).world) hplain free hdir (hspots.name i) (hs.keeps i) hnext
    rw [(hs.keeps j).path p hp, world_step]
    exact hnone (hspots.at?_of_sole hsole hij.symm)
  · rw [(hs.keeps i).path p hp, (hs.keeps j).path q hq]
    exact (hs.apart i j hij (by simp [hp]) (by simp [hq])).imp hnone hnone

/-- Repositories with one file, and an assistant that is never asked. -/
def oneFileOutside : Outside where
  clonedFiles _ := [(.ofString "a.py", Text.encode "x = 1\n")]

def twoJobs : Jobs Bool where
  job second := .start aloneCrew (if second then "https://github.com/o/b" else "https://github.com/o/a") .legacy
  world := {}

theorem sharing_twoJobs : Sharing {} twoJobs where
  started i := ⟨aloneCrew, _, .legacy, rfl, rfl⟩
  straight := by decide +kernel
  plain := by decide +kernel
  distinct := by decide +kernel

theorem clones_survive_all_but_cloning_twoJobs :
    oneFileOutside.IsQuiet ∧ oneFileOutside.ClonesPlain ∧ Sharing {} twoJobs ∧
      ((twoJobs.run oneFileOutside [false]).job false).state.repoPath = some (.ofString ".devassist_work/a") ∧
      ((twoJobs.run oneFileOutside [false]).job true).next = some .clone ∧
      ((twoJobs.run oneFileOutside [false]).step oneFileOutside true).world.disk.isThere
        (.ofString ".devassist_work/a") = false := by
  have hquiet : oneFileOutside.IsQuiet := fun log dir text => nofun
  have hfiles : PlainFiles [(.ofString "a.py", Text.encode "x = 1\n")] := by decide +kernel
  have hplain : oneFileOutside.ClonesPlain := fun _ => hfiles
  have hpath : ((twoJobs.run oneFileOutside [false]).job false).state.repoPath =
      some (.ofString ".devassist_work/a") := by decide +kernel
  have hnext : ((twoJobs.run oneFileOutside [false]).job true).next = some .clone := by decide +kernel
  have hsteps := (clones_survive_all_but_cloning hquiet hplain (fun _ => rfl) sharing_twoJobs [false]).1
  exact ⟨hquiet, hplain, sharing_twoJobs, hpath, hnext, (hsteps true false _ (by decide) hpath).2 hnext⟩

/-- The clone of the first job is there until the second one clones. The first does not see that it has nothing left,
and ends well. -/
theorem second_clone_removes_first :
    (twoJobs.run oneFileOutside [false]).world.disk.isThere (.ofString ".devassist_work/a/a.py") = true ∧
      (twoJobs.run oneFileOutside [false, true]).world.disk.isThere (.ofString ".devassist_work/a") = false ∧
      ((twoJobs.run oneFileOutside [false, true, false, false, false, false, false]).job false).next = none ∧
      ((twoJobs.run oneFileOutside [false, true, false, false, false, false, false]).job false).state.status =
        .completed := by
  decide +kernel

end Jobs

end CodeMigration.Workflow
