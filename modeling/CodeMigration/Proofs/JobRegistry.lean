import CodeMigration.Proofs.JobDeeds

/-! # The registry of jobs

Jobs are made, asked for and deleted by calls, and done by tasks that wait until they are run. Whatever is called and
whenever tasks are run, a job in the registry says that it has ended exactly if it was completed or has failed, and it
has an error exactly if it failed. Results belong to completed jobs that were not deleted. -/

namespace CodeMigration

open Act

/-- A job says that it has ended exactly if it was completed or has failed, and has an error exactly if it failed. -/
structure Job.InOrder (j : Job) : Prop where
  completed : j.completed = true ↔ j.status = "completed" ∨ j.status = "failed"
  error : j.error.isSome = true ↔ j.status = "failed"

theorem Job.IsNew.inOrder {j : Job} (h : j.IsNew) : j.InOrder := by
  constructor <;> simp [h.status, h.completed, h.error]

theorem Job.Completes.inOrder {f : Job → Job} (h : Job.Completes f) {j : Job} (hj : j.error = none) :
    (f j).InOrder := by
  constructor <;> simp [h.status j, h.completed j, h.error j, hj]

theorem Job.Fails.inOrder {f : Job → Job} (h : Job.Fails f) (j : Job) : (f j).InOrder := by
  constructor <;> simp [h.status j, h.completed j, h.error j]

/-- All listed jobs are in order, and results belong to completed ones. -/
structure Registry.InOrder (r : Registry) : Prop where
  listed : ∀ id, r.has id = true → ∃ j, r.jobs.lookup id = some j ∧ j.InOrder
  results : ∀ id path, (id, path) ∈ r.results →
    r.has id = true ∧ ∃ j, r.jobs.lookup id = some j ∧ j.status = "completed"

namespace Service

/-- The task of a job, which waits to be run. -/
inductive Task where
  | repo (id : String) (r : RepoRequest)
  | upload (u : Upload)

def Task.id : Task → String
  | repo id _ => id
  | upload u => u.id

def Task.act (env : Environment) : Task → Act Unit
  | repo id r => processRepo env id r
  | upload u => processUpload u

inductive Call where
  | migrateRepo (r : RepoRequest)
  | migrateArchive (name : String) (content : Text.Bytes) (kind : String)
  | status (id : String)
  | download (id : String)
  | delete (id : String)

inductive Answer where
  | started (t : Task)
  | status (j : Job)
  | download (d : Download)
  | deleted

def Call.act : Call → Act Answer
  | migrateRepo r => do
    let id ← startRepo r
    return .started (.repo id r)
  | migrateArchive name content kind => do
    let u ← startUpload name content kind
    return .started (.upload u)
  | status id => do
    let j ← Service.status id
    return .status j
  | download id => do
    let d ← Service.download id
    return .download d
  | delete id => do
    Service.delete id
    return .deleted

/-- What happens to a service: it is called, or one of the waiting tasks is run. -/
inductive Move where
  | call (o : Outside) (c : Call)
  | task (o : Outside) (env : Environment) (i : Nat)

def Move.outside : Move → Outside
  | call o _ | task o _ _ => o

structure State where
  world : World
  waiting : List Task := []

namespace State

/-- A task that was started waits; one that was run does not wait any more. -/
def step (s : State) : Move → State
  | .call o c =>
    match c.act.runIn o s.world with
    | (.ok (.started t), w) => ⟨w, s.waiting ++ [t]⟩
    | (_, w) => ⟨w, s.waiting⟩
  | .task o env i =>
    match s.waiting[i]? with
    | some t => ⟨((t.act env).runIn o s.world).2, s.waiting.eraseIdx i⟩
    | none => s

def run (s : State) (moves : List Move) : State := moves.foldl step s

end State

variable {o : Outside} {s : State} {c : Call} {w : World}

/-- A task that is run for a listed job ends it, and one for a deleted job changes nothing. -/
theorem Task.act_registry (t : Task) (env : Environment) (ho : ∀ r, o.engine.meanwhile r = r) (w : World) :
    (w.registry.has t.id = false ∧ ((t.act env).runIn o w).2.registry = w.registry) ∨
    (w.registry.has t.id = true ∧ Done w.registry t.id ((t.act env).runIn o w).2.registry) := by
  cases t with
  | repo id r => exact processRepo_registry ho env r w
  | upload u => exact processUpload_registry u o w

/-- All that a move can do to the registry and to the tasks that wait. -/
inductive Turns (r : Registry) (ts : List Task) : Registry → List Task → Prop where
  | rest : Turns r ts r ts
  | added {j : Job} (hj : j.IsNew) : Turns r ts (r.add j) ts
  | started {j : Job} {t : Task} (hj : j.IsNew) (ht : t.id = r.nextId) : Turns r ts (r.add j) (ts ++ [t])
  | deleted (id : String) : Turns r ts ((r.unlist id).dropResult id) ts
  | idled (i : Nat) : Turns r ts r (ts.eraseIdx i)
  | done {r' : Registry} {i : Nat} {t : Task} (ht : ts[i]? = some t) (listed : r.has t.id = true)
      (hdone : Done r t.id r') : Turns r ts r' (ts.eraseIdx i)

theorem State.step_call_error {f : Failure} (h : c.act.runIn o s.world = (.error f, w)) :
    s.step (.call o c) = ⟨w, s.waiting⟩ := by
  rw [step, h]

theorem State.step_call_started {t : Task} (h : c.act.runIn o s.world = (.ok (.started t), w)) :
    s.step (.call o c) = ⟨w, s.waiting ++ [t]⟩ := by
  rw [step, h]

theorem State.call_turns (s : State) (o : Outside) (c : Call) :
    Turns s.world.registry s.waiting (s.step (.call o c)).world.registry (s.step (.call o c)).waiting := by
  cases c with
  | migrateRepo r =>
    obtain ⟨code, text, hrun⟩ | ⟨j, hj, hrun⟩ := startRepo_runIn o s.world r
    · rw [step_call_error (runIn_bind_error hrun _)]
      exact .rest
    · rw [step_call_started (runIn_bind_ok hrun _)]
      exact .started hj rfl
  | migrateArchive name content kind =>
    obtain ⟨code, text, hrun⟩ | ⟨j, w', hj, hw', hcase⟩ := startUpload_runIn o s.world name content kind
    · rw [step_call_error (runIn_bind_error hrun _)]
      exact .rest
    · obtain ⟨u, hrun, htaken⟩ | ⟨fault, path, hrun⟩ := hcase
      · rw [step_call_started (runIn_bind_ok hrun _), hw']
        exact .started hj htaken.id
      · rw [step_call_error (runIn_bind_error hrun _), hw']
        exact .added hj
  | status id =>
    have hrun := status_runIn o s.world id
    by_cases hid : s.world.registry.has id
    · rw [if_pos hid] at hrun
      rw [step, Call.act, runIn_bind_ok hrun]
      exact .rest
    · rw [if_neg hid] at hrun
      rw [step_call_error (runIn_bind_error hrun _)]
      exact .rest
  | download id =>
    obtain ⟨hsame, -⟩ := download_runIn o s.world id
    rcases hrun : (Service.download id).runIn o s.world with ⟨f | d, w'⟩
    · rw [hrun] at hsame
      obtain rfl : w' = s.world := hsame
      rw [step_call_error (runIn_bind_error hrun _)]
      exact .rest
    · rw [hrun] at hsame
      obtain rfl : w' = s.world := hsame
      rw [step, Call.act, runIn_bind_ok hrun]
      exact .rest
  | delete id =>
    have hrun := delete_runIn o s.world id
    by_cases hid : s.world.registry.has id
    · rw [if_pos hid] at hrun
      rw [step, Call.act, runIn_bind_ok hrun]
      exact .deleted id
    · rw [if_neg hid] at hrun
      rw [step_call_error (runIn_bind_error hrun _)]
      exact .rest

theorem State.step_turns (s : State) (m : Move) (hm : ∀ r, m.outside.engine.meanwhile r = r) :
    Turns s.world.registry s.waiting (s.step m).world.registry (s.step m).waiting := by
  cases m with
  | call o c => exact s.call_turns o c
  | task o env i =>
    cases ht : s.waiting[i]? with
    | none =>
      rw [step, ht]
      exact .rest
    | some t =>
      rw [step, ht]
      obtain ⟨-, hsame⟩ | ⟨hlisted, hdone⟩ := t.act_registry (o := o) env hm s.world
      · dsimp only
        rw [hsame]
        exact .idled i
      · exact .done ht hlisted hdone

/-- The registry is in order, its jobs are numbered, and each task that waits has a new job of its own. -/
structure Orderly (r : Registry) (ts : List Task) : Prop where
  inOrder : r.InOrder
  numbered : ∀ id j, r.jobs.lookup id = some j → ∃ k < r.jobs.length, id = Registry.identifier k
  waiting : ∀ t ∈ ts, ∃ j, r.jobs.lookup t.id = some j ∧ j.IsNew
  apart : (ts.map Task.id).Nodup

section
variable {r : Registry} {ts : List Task} {id : String} {j new : Job} {t : Task} {i : Nat} {f : Job → Job}

theorem lookup_update_of_ne {other : String} (h : other ≠ id) :
    (r.update id f).jobs.lookup other = r.jobs.lookup other := by
  rw [r.lookup_update]
  simp only [if_neg h, Option.map_id']

namespace Orderly

variable (h : Orderly r ts)
include h

theorem lookup_nextId : r.jobs.lookup r.nextId = none := by
  cases hj : r.jobs.lookup r.nextId with
  | none => rfl
  | some j =>
    obtain ⟨k, hk, hid⟩ := h.numbered _ j hj
    have : r.jobs.length = k := Registry.identifier_injective hid
    omega

theorem ne_nextId (hj : r.jobs.lookup id = some j) : id ≠ r.nextId := by
  rintro rfl
  rw [h.lookup_nextId] at hj
  cases hj

theorem lookup_add (new : Job) (hj : r.jobs.lookup id = some j) : (r.add new).jobs.lookup id = some j := by
  rw [r.lookup_add new h.lookup_nextId, if_neg (h.ne_nextId hj), hj]

theorem add (hnew : new.IsNew) : Orderly (r.add new) ts where
  inOrder.listed id hid := by
    rw [r.has_add, Bool.or_eq_true, beq_iff_eq] at hid
    obtain hid | rfl := hid
    · obtain ⟨j, hj, hin⟩ := h.inOrder.listed id hid
      exact ⟨j, h.lookup_add new hj, hin⟩
    · refine ⟨new, ?_, hnew.inOrder⟩
      rw [r.lookup_add new h.lookup_nextId, if_pos rfl]
  inOrder.results id path hpath := by
    obtain ⟨hid, j, hj, hstatus⟩ := h.inOrder.results id path hpath
    refine ⟨?_, j, h.lookup_add new hj, hstatus⟩
    rw [r.has_add, hid, Bool.true_or]
  numbered id j hj := by
    have hlength : (r.add new).jobs.length = r.jobs.length + 1 := by simp [Registry.add]
    rw [r.lookup_add new h.lookup_nextId] at hj
    split at hj
    case isTrue hid => exact ⟨r.jobs.length, by omega, hid⟩
    case isFalse =>
      obtain ⟨k, hk, hid⟩ := h.numbered id j hj
      exact ⟨k, by omega, hid⟩
  waiting t ht := by
    obtain ⟨j, hj, hin⟩ := h.waiting t ht
    exact ⟨j, h.lookup_add new hj, hin⟩
  apart := h.apart

theorem start (hnew : new.IsNew) (ht : t.id = r.nextId) : Orderly (r.add new) (ts ++ [t]) where
  __ := h.add hnew
  waiting t' ht' := by
    rw [List.mem_append, List.mem_singleton] at ht'
    obtain ht' | rfl := ht'
    · exact (h.add hnew).waiting t' ht'
    · refine ⟨new, ?_, hnew⟩
      rw [r.lookup_add new h.lookup_nextId, if_pos ht]
  apart := by
    rw [List.map_append, List.map_singleton, List.nodup_append]
    refine ⟨h.apart, by simp, fun id hid other hother hsame => ?_⟩
    obtain ⟨t', ht', rfl⟩ := List.mem_map.1 hid
    obtain ⟨j, hj, -⟩ := h.waiting t' ht'
    exact h.ne_nextId hj (hsame.trans ((List.mem_singleton.1 hother).trans ht))

theorem delete (id : String) : Orderly ((r.unlist id).dropResult id) ts where
  inOrder.listed other hother := by
    have hlisted : (r.unlist id).has other = true := hother
    rw [r.has_unlist, Bool.and_eq_true] at hlisted
    exact h.inOrder.listed other hlisted.1
  inOrder.results other path hpath := by
    rw [Registry.mem_dropResult] at hpath
    obtain ⟨hpath, hne⟩ := hpath
    obtain ⟨hother, hcompleted⟩ := h.inOrder.results other path hpath
    refine ⟨?_, hcompleted⟩
    change (r.unlist id).has other = true
    rw [r.has_unlist, hother, Bool.true_and, bne_iff_ne]
    exact hne
  numbered := h.numbered
  waiting := h.waiting
  apart := h.apart

theorem eraseIdx (i : Nat) : Orderly r (ts.eraseIdx i) where
  inOrder := h.inOrder
  numbered := h.numbered
  waiting t ht := h.waiting t (List.mem_of_mem_eraseIdx ht)
  apart := h.apart.sublist ((List.eraseIdx_sublist ts i).map _)

theorem id_ne {t' : Task} (ht : ts[i]? = some t) (ht' : t' ∈ ts.eraseIdx i) : t'.id ≠ t.id := by
  obtain ⟨k, hk, ht'⟩ := List.mem_eraseIdx_iff_getElem?.1 ht'
  intro hsame
  have hid : (ts.map Task.id)[k]? = some t'.id := by rw [List.getElem?_map, ht', Option.map_some]
  have hid' : (ts.map Task.id)[i]? = some t.id := by rw [List.getElem?_map, ht, Option.map_some]
  obtain ⟨hlt, -⟩ := List.getElem?_eq_some_iff.1 hid
  exact hk ((List.getElem?_inj hlt h.apart).1 (by rw [hid, hid', hsame]))

/-- The job of a task that waits can be brought to an end. -/
theorem update (ht : ts[i]? = some t) (hf : ∀ j, j.error = none → (f j).InOrder) :
    Orderly (r.update t.id f) (ts.eraseIdx i) := by
  obtain ⟨new, hlookup, hnew⟩ := h.waiting t (List.mem_of_getElem? ht)
  have hself : (r.update t.id f).jobs.lookup t.id = some (f new) := by
    rw [r.lookup_update, hlookup, Option.map_some, if_pos rfl]
  refine ⟨⟨fun id hid => ?_, fun id path hpath => ?_⟩, fun id j hj => ?_, fun t' ht' => ?_, (h.eraseIdx i).apart⟩
  · by_cases hsame : id = t.id
    · exact ⟨f new, hsame ▸ hself, hf new hnew.error⟩
    · rw [lookup_update_of_ne hsame]
      exact h.inOrder.listed id hid
  · obtain ⟨hid, j, hj, hstatus⟩ := h.inOrder.results id path hpath
    have hne : id ≠ t.id := by
      -- A job that waits is not completed.
      rintro rfl
      obtain rfl := Option.some.inj (hlookup.symm.trans hj)
      rw [hnew.status] at hstatus
      exact absurd hstatus (by decide)
    refine ⟨hid, j, ?_, hstatus⟩
    rw [lookup_update_of_ne hne, hj]
  · have hlength : (r.update t.id f).jobs.length = r.jobs.length := by simp [Registry.update]
    rw [r.lookup_update] at hj
    obtain ⟨j', hj', -⟩ := Option.map_eq_some_iff.1 hj
    obtain ⟨k, hk, hid⟩ := h.numbered id j' hj'
    exact ⟨k, by omega, hid⟩
  · rw [lookup_update_of_ne (h.id_ne ht ht')]
    exact (h.eraseIdx i).waiting t' ht'

theorem done (ht : ts[i]? = some t) (listed : r.has t.id = true) {r' : Registry}
    (hdone : Done r t.id r') : Orderly r' (ts.eraseIdx i) := by
  cases hdone with
  | failed hf => exact h.update ht fun j _ => hf.inOrder j
  | completed hf => exact h.update ht fun j => hf.inOrder
  | @archived f hf path =>
    have hupdate := h.update (f := f) ht fun j => hf.inOrder
    refine ⟨⟨hupdate.inOrder.listed, fun id other hother => ?_⟩, hupdate.numbered, hupdate.waiting, hupdate.apart⟩
    rw [Registry.mem_setResult] at hother
    obtain ⟨hother, -⟩ | hother := hother
    · exact hupdate.inOrder.results id other hother
    · obtain ⟨rfl, -⟩ := Prod.mk.inj hother
      obtain ⟨j, hj, -⟩ := h.waiting t (List.mem_of_getElem? ht)
      refine ⟨listed, f j, ?_, hf.status j⟩
      change (r.update t.id f).jobs.lookup t.id = some (f j)
      rw [r.lookup_update, hj, Option.map_some, if_pos rfl]

theorem turns {r' : Registry} {ts' : List Task} (hturns : Turns r ts r' ts') : Orderly r' ts' := by
  cases hturns with
  | rest => exact h
  | added hj => exact h.add hj
  | started hj ht => exact h.start hj ht
  | deleted id => exact h.delete id
  | idled i => exact h.eraseIdx i
  | done ht listed hdone => exact h.done ht listed hdone

end Orderly

end

theorem orderly_run {moves : List Move} (hmoves : ∀ m ∈ moves, ∀ r, m.outside.engine.meanwhile r = r)
    (hs : Orderly s.world.registry s.waiting) : Orderly (s.run moves).world.registry (s.run moves).waiting := by
  induction moves generalizing s with
  | nil => exact hs
  | cons m moves ih =>
    obtain ⟨hm, hmoves⟩ := List.forall_mem_cons.1 hmoves
    exact ih hmoves (hs.turns (s.step_turns m hm))

theorem orderly_empty : Orderly {} [] where
  inOrder.listed id hid := by cases hid
  inOrder.results id path hpath := by cases hpath
  numbered id j hj := by cases hj
  waiting t ht := by cases ht
  apart := .nil

/-- A state that a service comes to from an empty registry, by engines that forget no jobs. -/
def State.Reached (s : State) : Prop :=
  ∃ w moves, w.registry = {} ∧ (∀ m ∈ moves, ∀ r, m.outside.engine.meanwhile r = r) ∧ s = State.run ⟨w, []⟩ moves

theorem State.Reached.orderly (h : s.Reached) : Orderly s.world.registry s.waiting := by
  obtain ⟨w, moves, hw, hmoves, rfl⟩ := h
  apply orderly_run hmoves
  rw [hw]
  exact orderly_empty

theorem Call.registry_of_rejected {w' : World} {code : Nat} {text : String}
    (h : c.act.runIn o w = (.error (.rejected code text), w')) : w'.registry = w.registry := by
  cases c with
  | migrateRepo r =>
    obtain ⟨code, text, hrun⟩ | ⟨j, -, hrun⟩ := startRepo_runIn o w r
    · rw [Call.act, runIn_bind_error hrun] at h
      cases h
      rfl
    · rw [Call.act, runIn_bind_ok hrun] at h
      cases h
  | migrateArchive name content kind =>
    obtain ⟨code, text, hrun⟩ | ⟨j, w₁, -, -, ⟨u, hrun, -⟩ | ⟨fault, path, hrun⟩⟩ :=
      startUpload_runIn o w name content kind
    · rw [Call.act, runIn_bind_error hrun] at h
      cases h
      rfl
    · rw [Call.act, runIn_bind_ok hrun] at h
      cases h
    · rw [Call.act, runIn_bind_error hrun] at h
      cases h
  | status id =>
    rw [Call.act, runIn_bind, status_runIn] at h
    split at h
    · cases h
    case h_2 heq =>
      cases h
      rw [← (Prod.mk.inj heq).2]
  | download id =>
    obtain ⟨hsame, -⟩ := download_runIn o w id
    rw [Call.act, runIn_bind] at h
    split at h
    · cases h
    case h_2 heq =>
      cases h
      rw [heq] at hsame
      rw [← hsame]
  | delete id =>
    rw [Call.act, runIn_bind, delete_runIn] at h
    by_cases hid : w.registry.has id
    · rw [if_pos hid] at h
      cases h
    · rw [if_neg hid] at h
      cases h
      rfl

theorem Orderly.job_of_done {r : Registry} {ts : List Task} (h : Orderly r ts) {i : Nat} {t : Task}
    (ht : ts[i]? = some t) {r' : Registry} (hdone : Done r t.id r') :
    ∃ j, r'.jobs.lookup t.id = some j ∧ j.completed = true := by
  obtain ⟨new, hnew, -⟩ := h.waiting t (List.mem_of_getElem? ht)
  have hlookup (f : Job → Job) : (r.update t.id f).jobs.lookup t.id = some (f new) := by
    rw [r.lookup_update, hnew, Option.map_some, if_pos rfl]
  cases hdone with
  | failed hf | completed hf | archived hf path => exact ⟨_, hlookup _, hf.completed new⟩

/-- In every state that a service comes to, its jobs are in order and results belong to completed jobs. A result is
fetched only for such a job, a call that is turned away leaves the registry as it is, and a task that waits for a
listed job brings it to an end. -/
theorem registry_in_order_always {s : State} (hs : s.Reached) :
    s.world.registry.InOrder ∧
    (∀ o id d, ((download id).runIn o s.world).1 = .ok d → s.world.registry.has id = true ∧ ∃ j path,
      s.world.registry.jobs.lookup id = some j ∧ j.status = "completed" ∧ (id, path) ∈ s.world.registry.results) ∧
    (∀ (c : Call) o code text w', c.act.runIn o s.world = (.error (.rejected code text), w') →
      w'.registry = s.world.registry) ∧
    ∀ o env i t, (∀ r, o.engine.meanwhile r = r) → s.waiting[i]? = some t → s.world.registry.has t.id = true →
      ∃ j, (s.step (.task o env i)).world.registry.jobs.lookup t.id = some j ∧ j.completed = true := by
  have horderly := hs.orderly
  refine ⟨horderly.inOrder, fun o id d hd => ?_, fun c o code text w' => Call.registry_of_rejected, ?_⟩
  · obtain ⟨hlisted, -, hresult⟩ := (download_runIn o s.world id).2 d hd
    obtain ⟨path, hpath⟩ := Option.isSome_iff_exists.1 hresult
    have hmem : (id, path) ∈ s.world.registry.results := by
      obtain ⟨before, behind, hresults, -⟩ := List.lookup_eq_some_iff.1 hpath
      rw [hresults]
      exact List.mem_append_right _ List.mem_cons_self
    obtain ⟨-, j, hj, hstatus⟩ := horderly.inOrder.results id path hmem
    exact ⟨hlisted, j, path, hj, hstatus, hmem⟩
  · intro o env i t ho ht hlisted
    have hstep : s.step (.task o env i) = ⟨((t.act env).runIn o s.world).2, s.waiting.eraseIdx i⟩ := by
      rw [State.step, ht]
    obtain ⟨hunlisted, -⟩ | ⟨-, hdone⟩ := t.act_registry env ho s.world
    · rw [hlisted] at hunlisted
      cases hunlisted
    · rw [hstep]
      exact horderly.job_of_done ht hdone

/-- Three jobs, one of which is deleted while its task waits, and a call that is turned away. -/
def busyMoves : List Move :=
  [.call {} (.migrateArchive "a.zip" (Archive.toBytes {} []) "py2to3"), .call {} (.migrateRepo { url := "u" }),
    .call {} (.migrateArchive "b.zip" [1] "py2to3"), .call {} (.migrateArchive "c.txt" [] "py2to3"),
    .call {} (.delete (Registry.identifier 1)), .task {} [] 2, .task {} [] 1, .task {} [] 0]

theorem registry_in_order_always_busyMoves :
    (State.run ⟨{}, []⟩ busyMoves).world.registry.InOrder ∧
    (State.run ⟨{}, []⟩ busyMoves).world.registry.listed = [Registry.identifier 0, Registry.identifier 2] ∧
    (State.run ⟨{}, []⟩ busyMoves).world.registry.jobs.map (fun p => p.2.status) = ["completed", "pending", "failed"] ∧
    (State.run ⟨{}, []⟩ busyMoves).world.registry.results.map Prod.fst = [Registry.identifier 0] := by
  have hreached : (State.run ⟨{}, []⟩ busyMoves).Reached := by
    refine ⟨{}, busyMoves, rfl, ?_, rfl⟩
    simp [busyMoves, Move.outside]
  refine ⟨(registry_in_order_always hreached).1, ?_, ?_, ?_⟩ <;> decide +kernel

end Service

end CodeMigration
