import CodeMigration.Proofs.Json.Strings
import CodeMigration.Proofs.KeptFiles
import CodeMigration.Proofs.Publication

/-! # What is done to jobs

Calls make jobs, look at them and delete them. The task of a job ends it: the job was completed or has failed, and an
archive that was packed is a result. A task whose job was deleted changes no job. -/

namespace CodeMigration

open Act

namespace Registry

def hexChars : List Char := "0123456789abcdef".toList

def hexValue (cs : List Char) : Nat := cs.foldl (fun n c => 16 * n + hexChars.idxOf c) 0

theorem hexValue_append_singleton (cs : List Char) (c : Char) :
    hexValue (cs ++ [c]) = 16 * hexValue cs + hexChars.idxOf c := by
  rw [hexValue, List.foldl_append, hexValue, List.foldl_cons, List.foldl_nil]

theorem toDigits_hex (n : Nat) :
    hexValue (Nat.toDigits 16 n) = n ∧ ∀ c ∈ Nat.toDigits 16 n, c ∈ hexChars := by
  have hdigit : ∀ d < 16, hexChars.idxOf d.digitChar = d ∧ d.digitChar ∈ hexChars := by decide
  induction n using Nat.strongRecOn with
  | ind n ih =>
    rw [Nat.toDigits_eq_if (by decide)]
    split
    case isTrue h => simp [hexValue, hdigit n h]
    case isFalse h =>
      obtain ⟨hvalue, hchars⟩ := ih (n / 16) (by omega)
      obtain ⟨hindex, hlast⟩ := hdigit _ (Nat.mod_lt n (by decide))
      rw [hexValue_append_singleton, hvalue, hindex, Nat.div_add_mod]
      exact ⟨rfl, List.forall_mem_append.2 ⟨hchars, List.forall_mem_singleton.2 hlast⟩⟩

theorem hexValue_replicate_append (k : Nat) (cs : List Char) :
    hexValue (List.replicate k '0' ++ cs) = hexValue cs := by
  induction k with
  | zero => rfl
  | succ k ih => exact ih

theorem identifier_toList (n : Nat) :
    (identifier n).toList = Json.padded 8 n ++ "-0000-4000-8000-000000000000".toList := by
  rw [identifier, String.toList_append, Json.toList_hexDigits]

theorem identifier_injective : Function.Injective identifier := by
  intro n k h
  have hdigits := congrArg String.toList h
  rw [identifier_toList, identifier_toList] at hdigits
  have hvalues := congrArg hexValue (List.append_cancel_right hdigits)
  rwa [Json.padded, Json.padded, hexValue_replicate_append, hexValue_replicate_append, (toDigits_hex n).1,
    (toDigits_hex k).1] at hvalues

theorem identifier_isPlain (n : Nat) : '/' ∉ (identifier n).toList ∧ 2 < (identifier n).toList.length := by
  rw [identifier_toList]
  constructor
  · rw [Json.padded, List.mem_append, List.mem_append]
    rintro ((hmem | hmem) | hmem)
    · exact absurd (List.eq_of_mem_replicate hmem) (by decide)
    · exact absurd ((toDigits_hex n).2 _ hmem) (by decide)
    · exact absurd hmem (by decide)
  · rw [List.length_append]
    have hsuffix : "-0000-4000-8000-000000000000".toList.length = 28 := by decide
    omega

section
variable (r : Registry) (id : String) (f g : Job → Job)

theorem lookup_update (other : String) :
    (r.update id f).jobs.lookup other = (r.jobs.lookup other).map fun j => if other = id then f j else j := by
  change (r.jobs.map fun p => if p.1 == id then (p.1, f p.2) else (p.1, p.2)).lookup other = _
  induction r.jobs with
  | nil => rfl
  | cons p jobs ih =>
    obtain ⟨name, j⟩ := p
    rw [List.map_cons]
    by_cases hother : other = name
    · subst hother
      by_cases hid : other = id <;> simp [hid]
    · have hne : (other == name) = false := beq_false_of_ne hother
      split <;> simp only [List.lookup_cons, hne, ih]

theorem update_update : (r.update id f).update id g = r.update id (g ∘ f) := by
  simp only [update, List.map_map]
  congr 2
  funext p
  by_cases hp : p.1 = id <;> simp [hp]

theorem update_id : r.update id (fun j => j) = r := by
  simp [update]

theorem lookup_add (j : Job) (h : r.jobs.lookup r.nextId = none) (other : String) :
    (r.add j).jobs.lookup other = if other = r.nextId then some j else r.jobs.lookup other := by
  rw [add, List.lookup_append]
  split
  case isTrue hother => simp [hother, h]
  case isFalse hother => simp [List.lookup_cons, beq_false_of_ne hother]

theorem has_add (j : Job) (other : String) : (r.add j).has other = (r.has other || other == r.nextId) := by
  simp [has, add, beq_eq_decide]

theorem has_unlist (other : String) : (r.unlist id).has other = (r.has other && other != id) := by
  rw [Bool.eq_iff_iff]
  simp [has, unlist]

theorem mem_dropResult {p : String × FilePath} : p ∈ (r.dropResult id).results ↔ p ∈ r.results ∧ p.1 ≠ id := by
  simp [dropResult]

theorem mem_setResult {path : FilePath} {p : String × FilePath} :
    p ∈ (r.setResult id path).results ↔ (p ∈ r.results ∧ p.1 ≠ id) ∨ p = (id, path) := by
  rw [setResult, List.mem_append, mem_dropResult, List.mem_singleton]

end

end Registry

/-- A job whose task was not run. -/
structure Job.IsNew (j : Job) : Prop where
  status : j.status = "pending"
  completed : j.completed = false
  error : j.error = none

def Job.KeepsError (f : Job → Job) : Prop := ∀ j, (f j).error = j.error

/-- What is done to a job that had no error completes it. -/
structure Job.Completes (f : Job → Job) : Prop where
  status : ∀ j, (f j).status = "completed"
  completed : ∀ j, (f j).completed = true
  error : Job.KeepsError f

/-- What is done to a job makes it fail. -/
structure Job.Fails (f : Job → Job) : Prop where
  status : ∀ j, (f j).status = "failed"
  completed : ∀ j, (f j).completed = true
  error : ∀ j, (f j).error.isSome = true

namespace Service

section
variable (o : Outside) (w : World) (id : String)

theorem checkKind_eq_error {kind : String} {f : Failure} (h : checkKind kind = .error f) :
    ∃ code text, f = .rejected code text := by
  rw [checkKind] at h
  split at h
  · cases h
  · cases h
    exact ⟨_, _, rfl⟩

theorem create_runIn (j : Job) :
    (create j).runIn o w = (.ok w.registry.nextId, { w with registry := w.registry.add j }) := rfl

theorem startRepo_runIn (r : RepoRequest) :
    (∃ code text, (startRepo r).runIn o w = (.error (.rejected code text), w)) ∨
    ∃ j : Job, j.IsNew ∧
      (startRepo r).runIn o w = (.ok w.registry.nextId, { w with registry := w.registry.add j }) := by
  unfold startRepo
  split
  case isTrue => exact .inl ⟨_, _, rfl⟩
  case isFalse =>
    dsimp only
    cases hkind : checkKind r.kind with
    | error f =>
      obtain ⟨code, text, rfl⟩ := checkKind_eq_error hkind
      exact .inl ⟨code, text, rfl⟩
    | ok u => exact .inr ⟨_, ⟨rfl, rfl, rfl⟩, rfl⟩

/-- An archive that was taken in, and the worlds before and behind. -/
structure TakenIn (content : Text.Bytes) (u : Upload) (w w' : World) : Prop where
  id : u.id = w.registry.nextId
  workDir : u.workDir = .ofString ("/tmp/" ++ u.id)
  archive : u.archive = u.workDir.child "upload.zip"
  disk : w.disk.place u.archive content = .ok w'.disk

theorem startUpload_runIn (name : String) (content : Text.Bytes) (kind : String) :
    (∃ code text, (startUpload name content kind).runIn o w = (.error (.rejected code text), w)) ∨
    ∃ (j : Job) (w' : World), j.IsNew ∧ w'.registry = w.registry.add j ∧
      ((∃ u, (startUpload name content kind).runIn o w = (.ok u, w') ∧ TakenIn content u w w') ∨
        ∃ fault path, (startUpload name content kind).runIn o w = (.error (.file fault path), w')) := by
  unfold startUpload
  split
  case isTrue => exact .inl ⟨_, _, rfl⟩
  case isFalse =>
    dsimp only
    cases hkind : checkKind kind with
    | error f =>
      obtain ⟨code, text, rfl⟩ := checkKind_eq_error hkind
      exact .inl ⟨code, text, rfl⟩
    | ok u =>
      right
      rw [runIn_bind_ok (runIn_result o w _), runIn_bind_ok (create_runIn o w _)]
      generalize hdir : FilePath.ofString ("/tmp/" ++ w.registry.nextId) = dir
      generalize harchive : dir.child "upload.zip" = archive
      cases hplace : w.disk.place archive content with
      | error fault =>
        rw [runIn_bind_error (runIn_onDisk_error hplace)]
        exact ⟨_, _, ⟨rfl, rfl, rfl⟩, rfl, .inr ⟨fault, _, rfl⟩⟩
      | ok disk =>
        rw [runIn_bind_ok (runIn_onDisk_ok hplace)]
        exact ⟨_, _, ⟨rfl, rfl, rfl⟩, rfl, .inl ⟨_, rfl, rfl, hdir.symm, harchive.symm, hplace⟩⟩

theorem status_runIn :
    (status id).runIn o w = (if w.registry.has id then .ok (w.registry.job id) else .error notFound, w) := by
  rw [status, runIn_bind_ok (runIn_get o w)]
  dsimp only
  split <;> rfl

theorem download_runIn : ((download id).runIn o w).2 = w ∧ ∀ d, ((download id).runIn o w).1 = .ok d →
    w.registry.has id = true ∧ (w.registry.job id).status = "completed" ∧
      (w.registry.results.lookup id).isSome = true := by
  rw [download, runIn_bind, status_runIn]
  by_cases hid : w.registry.has id
  · rw [if_pos hid]
    dsimp only
    split
    case isTrue => exact ⟨rfl, fun d hd => by cases hd⟩
    case isFalse hstatus =>
      have hcompleted : (w.registry.job id).status = "completed" := by simpa using hstatus
      rw [runIn_bind_ok (runIn_get o w)]
      cases hpath : w.registry.results.lookup id with
      | none => exact ⟨rfl, fun d hd => by cases hd⟩
      | some path =>
        dsimp only
        rw [runIn_bind_ok (runIn_get o w)]
        refine ⟨?_, fun _ _ => ⟨hid, hcompleted, rfl⟩⟩
        cases w.disk.readBytes path <;> rfl
  · rw [if_neg hid]
    exact ⟨rfl, fun d hd => by cases hd⟩

theorem dropResult_of_lookup_eq_none {r : Registry} (h : r.results.lookup id = none) : r.dropResult id = r := by
  have hall : r.results.filter (fun p => p.1 != id) = r.results := by
    rw [List.filter_eq_self]
    intro p hp
    have := List.lookup_eq_none_iff.1 h p hp
    simpa [bne, Bool.beq_comm] using this
  rw [Registry.dropResult]
  exact congrArg (fun results => { r with results }) hall

theorem removeQuietly_runIn (path : FilePath) : (Workflow.removeQuietly path).runIn o w =
    (.ok (), { w with disk := (w.disk.removeDir path).toOption.getD w.disk }) := by
  rw [Workflow.removeQuietly, runIn_modify]
  cases w.disk.removeDir path <;> rfl

/-- The world in which a job was deleted. What it left goes with its result. -/
def deleted (id : String) (w : World) : World where
  __ := w
  disk := match w.registry.results.lookup id with
    | none => w.disk
    | some path => (w.disk.removeDir path.parent).toOption.getD w.disk
  registry := (w.registry.unlist id).dropResult id

theorem delete_runIn :
    (delete id).runIn o w = if w.registry.has id then (.ok (), deleted id w) else (.error notFound, w) := by
  rw [delete, runIn_bind_ok (runIn_get o w)]
  dsimp only
  by_cases hid : w.registry.has id
  · rw [if_neg (by simp [hid]), if_pos hid, deleted]
    cases hpath : w.registry.results.lookup id with
    | none =>
      have hsame := dropResult_of_lookup_eq_none (r := w.registry.unlist id) id hpath
      rw [hsame]
      rfl
    | some path =>
      rw [runIn_bind_ok rfl]
      dsimp only
      rw [runIn_bind_ok (removeQuietly_runIn o _ path.parent)]
      rfl
  · rw [if_pos (by simp [hid]), if_neg hid]
    rfl

end

/-- What is done if the work on an archive breaks off. -/
def giveUp (u : Upload) (f : Failure) : Act Unit := do
  updateJob u.id fun j => { j with status := "failed", error := some f.message, completed := true }
  Workflow.removeQuietly u.workDir

/-- Work that may break off, and what is returned then. -/
def guarded {α : Type} (u : Upload) (otherwise : α) (t : Act α) : Act α := do
  match ← attempt t with
  | .ok a => return a
  | .error f => do
    giveUp u f
    return otherwise

def begun (u : Upload) (w : World) : World :=
  w.after (.registered (w.registry.update u.id fun j => { j with status := "processing" }))

section
variable {u : Upload} {o : Outside} {w w' : World}

theorem guarded_ok {α : Type} {a : α} {t : Act α} (h : t.runIn o w = (.ok a, w')) (otherwise : α) :
    (guarded u otherwise t).runIn o w = (.ok a, w') := by
  rw [guarded, runIn_bind_ok (runIn_attempt o w t), h]
  rfl

theorem guarded_error {α : Type} {f : Failure} {t : Act α} (h : t.runIn o w = (.error f, w')) (otherwise : α) :
    (guarded u otherwise t).runIn o w = (.ok otherwise, ((giveUp u f).runIn o w').2) := by
  rw [guarded, runIn_bind_ok (runIn_attempt o w t), h]
  rfl

theorem guarded_congr {α : Type} {t t' : Act α} (h : t.runIn o w = t'.runIn o w') (otherwise : α) :
    (guarded u otherwise t).runIn o w = (guarded u otherwise t').runIn o w' := by
  rcases ht' : t'.runIn o w' with ⟨f | a, w₁⟩
  · rw [guarded_error ht', guarded_error (h.trans ht')]
  · rw [guarded_ok ht', guarded_ok (h.trans ht')]

theorem processUpload_of_unlisted (h : w.registry.has u.id = false) :
    (processUpload u).runIn o w = (.error (.noJob u.id), w) := by
  rw [processUpload, runIn_bind_ok (runIn_get o w), h]
  rfl

theorem processUpload_of_listed (h : w.registry.has u.id = true) :
    (processUpload u).runIn o w = (guarded u () (workOn u)).runIn o (begun u w) := by
  rw [processUpload, runIn_bind_ok (runIn_get o w), h, Bool.not_true, if_neg Bool.false_ne_true]
  dsimp only
  rw [runIn_bind_ok (updateJob_runIn o w _ _), runIn_bind_ok (runIn_attempt o _ _), ← begun]
  rcases hrun : (workOn u).runIn o (begun u w) with ⟨f | ⟨⟩, w'⟩
  · rw [guarded_error hrun]
    rfl
  · rw [guarded_ok hrun]
    rfl

end

/-- A job was changed, but not its error. -/
def Edited (r : Registry) (id : String) (r' : Registry) : Prop := ∃ f, Job.KeepsError f ∧ r' = r.update id f

section
variable {α : Type} {o : Outside} {w : World} {r : Registry} {id : String} {r' : Registry} {f : Job → Job}
  {I : Registry → Prop}

theorem Edited.refl (r : Registry) (id : String) : Edited r id r := ⟨fun j => j, fun _ => rfl, (r.update_id id).symm⟩

theorem Edited.update (h : Edited r id r') (hf : Job.KeepsError f) : Edited r id (r'.update id f) := by
  obtain ⟨g, hg, rfl⟩ := h
  exact ⟨f ∘ g, fun j => (hf (g j)).trans (hg j), r.update_update id g f⟩

theorem keeps_of_offRegistry {t : Act α} (h : MadeOf Deed.OffRegistry t) :
    Keeps o (fun w => I w.registry) (fun _ => True) t := by
  refine fun w hw => ⟨?_, fun _ _ => trivial⟩
  have hsame : (t.runIn o w).2.registry = w.registry := by
    refine (h.through o w).keeps (·.registry) fun d hd w => ?_
    cases d with
    | registered r => exact absurd rfl (hd r)
    | _ => rfl
  change I (t.runIn o w).2.registry
  rw [hsame]
  exact hw

theorem updateJob_keeps (hf : Job.KeepsError f) :
    Keeps o (fun w => Edited r id w.registry) (fun _ => True) (updateJob id f) :=
  fun _ hw => ⟨hw.update hf, fun _ _ => trivial⟩

theorem handBack_keeps (ho : ∀ r, o.engine.meanwhile r = r) :
    Keeps o (fun w => I w.registry) (fun _ => True) Workflow.handBack := by
  refine .outside (.bind (Q := fun _ => True) (fun w hw => ⟨?_, fun _ _ => trivial⟩) fun _ _ => ?_)
  · change I (o.engine.meanwhile w.registry)
    rw [ho]
    exact hw
  · refine keeps_of_offRegistry (.bind (.failWith _) fun _ => ?_)
    exact .updateMigration _ fun _ _ => Deed.noConfusion

theorem run_keeps (ho : ∀ r, o.engine.meanwhile r = r) (c : Workflow.Crew) (url kind : String) :
    Keeps o (fun w => I w.registry) (fun _ => True) (Workflow.run c url kind) := by
  refine .bind (keeps_of_offRegistry (.result _)) fun kind _ => ?_
  refine .bind (keeps_of_offRegistry (.updateMigration _ fun _ _ => Deed.noConfusion)) fun _ _ => ?_
  refine .bind (keeps_of_offRegistry (Workflow.runGraph_madeOf c)) fun _ _ => .bind (handBack_keeps ho) fun _ _ => ?_
  exact .look fun _ _ => .pure trivial

theorem runRepo_keeps (ho : ∀ r, o.engine.meanwhile r = r) (env : Environment) (q : RepoRequest) :
    Keeps o (fun w => Edited r id w.registry) (fun _ => True) (runRepo env id q) := by
  refine .bind (updateJob_keeps fun _ => rfl) fun _ _ => .bind (keeps_of_offRegistry (.result _)) fun s _ => ?_
  have hsetUp : MadeOf Deed.OffRegistry (Workflow.Crew.setUp s) :=
    Workflow.Crew.setUp_madeOf (fun _ _ => Deed.noConfusion) (fun _ _ => Deed.noConfusion) s
  refine .bind (keeps_of_offRegistry hsetUp) fun c _ => .bind (updateJob_keeps fun _ => rfl) fun _ _ => ?_
  exact run_keeps ho c _ _

/-- How the task of a job leaves the registry: the job has ended, and perhaps there is a result. -/
inductive Done (r : Registry) (id : String) : Registry → Prop where
  | failed {f : Job → Job} (hf : Job.Fails f) : Done r id (r.update id f)
  | completed {f : Job → Job} (hf : Job.Completes f) : Done r id (r.update id f)
  | archived {f : Job → Job} (hf : Job.Completes f) (path : FilePath) : Done r id ((r.update id f).setResult id path)

theorem Edited.fail (h : Edited r id r') (hf : Job.Fails f) : Done r id (r'.update id f) := by
  obtain ⟨g, -, rfl⟩ := h
  rw [Registry.update_update]
  exact .failed ⟨fun j => hf.status (g j), fun j => hf.completed (g j), fun j => hf.error (g j)⟩

theorem Edited.complete (h : Edited r id r') (hf : Job.Completes f) : Done r id (r'.update id f) := by
  obtain ⟨g, hg, rfl⟩ := h
  rw [Registry.update_update]
  exact .completed ⟨fun j => hf.status (g j), fun j => hf.completed (g j), fun j => (hf.error (g j)).trans (hg j)⟩

theorem Edited.archive (h : Edited r id r') (hf : Job.Completes f) (path : FilePath) :
    Done r id ((r'.update id f).setResult id path) := by
  obtain ⟨g, hg, rfl⟩ := h
  rw [Registry.update_update]
  exact .archived ⟨fun j => hf.status (g j), fun j => hf.completed (g j), fun j => (hf.error (g j)).trans (hg j)⟩ path

theorem ended_cases (q : Outcome) : Job.Fails (ended q) ∨ Job.Completes (ended q) := by
  cases hq : q.success with
  | true =>
    right
    constructor <;> intro j <;> simp [ended, hq]
  | false =>
    left
    constructor <;> intro j <;> simp [ended, hq]

theorem processRepo_registry (ho : ∀ r, o.engine.meanwhile r = r) (env : Environment) (q : RepoRequest) (w : World) :
    (w.registry.has id = false ∧ ((processRepo env id q).runIn o w).2.registry = w.registry) ∨
    (w.registry.has id = true ∧ Done w.registry id ((processRepo env id q).runIn o w).2.registry) := by
  rw [processRepo, runIn_bind_ok (runIn_get o w)]
  split
  case isTrue hid =>
    refine .inr ⟨hid, ?_⟩
    obtain ⟨hedited, -⟩ := runRepo_keeps ho env q w (.refl w.registry id)
    rw [runIn_bind_ok (runIn_attempt o w _)]
    rcases hrun : (runRepo env id q).runIn o w with ⟨f | outcome, w₁⟩
    · rw [hrun] at hedited
      have hlisted : w₁.registry.has id = true := by
        obtain ⟨g, -, hg⟩ := hedited
        rw [hg]
        exact hid
      dsimp only
      rw [runIn_bind_ok (runIn_get o w₁), if_pos hlisted]
      exact hedited.fail ⟨fun _ => rfl, fun _ => rfl, fun _ => rfl⟩
    · rw [hrun] at hedited
      rcases ended_cases outcome with hends | hends
      · exact hedited.fail hends
      · exact hedited.complete hends
  case isFalse hid => exact .inl ⟨by simpa using hid, rfl⟩

theorem extract_madeOf (dir : FilePath) (es : List ArchiveEntry) : MadeOf Deed.OffRegistry (extract dir es) := by
  induction es with
  | nil => exact .pure ()
  | cons e es ih => exact .bind (.onDisk fun _ _ => Deed.noConfusion) fun _ => ih

theorem migrateSource_madeOf (u : Upload) (p : Progress) (source : List String) :
    MadeOf Deed.OffRegistry (migrateSource u p source) := by
  refine .look (fun _ _ => rfl) fun w => ?_
  cases w.disk.readBytes _ with
  | error _ => exact .pure p
  | ok bytes =>
    refine .ite (.bind (.attempt (.onDisk fun _ _ => Deed.noConfusion)) fun _ => .pure _) (.pure _)

theorem unpack_keeps (u : Upload) :
    Keeps o (fun w => Edited r u.id w.registry) (fun _ => True) (unpack u) := by
  have hdisk {path : String} {f : Disk → Except FileFault Disk} :
      Keeps o (fun w => Edited r u.id w.registry) (fun _ => True) (onDisk path f) :=
    keeps_of_offRegistry (.onDisk fun _ _ => Deed.noConfusion)
  refine .bind hdisk fun _ _ => .look fun w _ => ?_
  cases w.disk.readBytes u.archive with
  | error fault => exact keeps_of_offRegistry (.fail _)
  | ok bytes =>
    refine .outside (.bind (keeps_of_offRegistry (extract_madeOf _ _)) fun _ _ => ?_)
    cases (Archive.ofBytes o.packing bytes).failure with
    | some f => exact keeps_of_offRegistry (.fail f)
    | none =>
      refine .look fun w _ => .bind (updateJob_keeps fun _ => rfl) fun _ _ => .bind hdisk fun _ _ => ?_
      refine .bind hdisk fun _ _ => .bind (.forIn (fun q _ _ => ?_) _) fun _ _ => .pure trivial
      exact .bind hdisk fun _ _ => .pure trivial

theorem pack_runIn (u : Upload) (p : Progress) (o : Outside) (w : World) :
    (∃ fault f, w.disk.write u.resultPath ((packed w.disk u.migratedDir).toBytes o.packing) = .error fault ∧
      Job.KeepsError f ∧ (pack u p).runIn o w =
        (.error (.file fault u.resultPath.toString), { w with registry := w.registry.update u.id f })) ∨
    ∃ disk f, w.disk.write u.resultPath ((packed w.disk u.migratedDir).toBytes o.packing) = .ok disk ∧
      Job.Completes f ∧ (pack u p).runIn o w =
        (.ok (), { w with disk, registry := (w.registry.update u.id f).setResult u.id u.resultPath }) := by
  rw [pack, runIn_bind_ok (updateJob_runIn o w _ _), runIn_bind_ok (runIn_get o _), runIn_bind_ok (runIn_read o _)]
  dsimp only [World.after]
  let found (j : Job) : Job := { j with found := p.found, fixed := p.fixed }
  cases hwrite : w.disk.write u.resultPath ((packed w.disk u.migratedDir).toBytes o.packing) with
  | error fault =>
    rw [runIn_bind_error (runIn_onDisk_error hwrite)]
    exact .inl ⟨fault, found, rfl, fun _ => rfl, rfl⟩
  | ok disk =>
    rw [runIn_bind_ok (runIn_onDisk_ok hwrite)]
    let finished (j : Job) : Job := { j with status := "completed", completed := true }
    refine .inr ⟨disk, finished ∘ found, rfl, ⟨fun _ => rfl, fun _ => rfl, fun _ => rfl⟩, ?_⟩
    rw [← Registry.update_update]
    rfl

/-- The work on an archive ends with a result, or it breaks off before there is one. -/
theorem workOn_registry (u : Upload) (hw : Edited r u.id w.registry) {a : Except Failure Unit} {w' : World}
    (hrun : (workOn u).runIn o w = (a, w')) :
    (∀ f, a = .error f → Edited r u.id w'.registry) ∧ (a = .ok () → Done r u.id w'.registry) := by
  obtain ⟨hunpacked, -⟩ := unpack_keeps u w hw
  rw [workOn] at hrun
  rcases hunpack : (unpack u).runIn o w with ⟨f | ⟨sources, p⟩, w₁⟩
  · rw [runIn_bind_error hunpack] at hrun
    cases hrun
    rw [hunpack] at hunpacked
    exact ⟨fun _ _ => hunpacked, fun h => by cases h⟩
  rw [runIn_bind_ok hunpack] at hrun
  dsimp only at hrun
  rw [hunpack] at hunpacked
  have hsources : MadeOf Deed.OffRegistry (sources.foldlM (migrateSource u) p) := .foldlM (migrateSource_madeOf u) _ _
  obtain ⟨hmigrated, -⟩ := keeps_of_offRegistry (o := o) (I := Edited r u.id) hsources w₁ hunpacked
  rcases hfold : (sources.foldlM (migrateSource u) p).runIn o w₁ with ⟨f | q, w₂⟩
  · rw [runIn_bind_error hfold] at hrun
    cases hrun
    rw [hfold] at hmigrated
    exact ⟨fun _ _ => hmigrated, fun h => by cases h⟩
  rw [runIn_bind_ok hfold] at hrun
  rw [hfold] at hmigrated
  obtain ⟨fault, f, -, hf, hpack⟩ | ⟨disk, f, -, hf, hpack⟩ := pack_runIn u q o w₂
  · rw [hpack] at hrun
    cases hrun
    exact ⟨fun _ _ => hmigrated.update hf, fun h => by cases h⟩
  · rw [hpack] at hrun
    cases hrun
    exact ⟨fun _ h => (by cases h), fun _ => hmigrated.archive hf u.resultPath⟩

theorem processUpload_registry (u : Upload) (o : Outside) (w : World) :
    (w.registry.has u.id = false ∧ ((processUpload u).runIn o w).2.registry = w.registry) ∨
    (w.registry.has u.id = true ∧ Done w.registry u.id ((processUpload u).runIn o w).2.registry) := by
  cases hid : w.registry.has u.id with
  | false =>
    rw [processUpload_of_unlisted hid]
    exact .inl ⟨rfl, rfl⟩
  | true =>
    refine .inr ⟨rfl, ?_⟩
    rw [processUpload_of_listed hid]
    have hbegun : Edited w.registry u.id (begun u w).registry :=
      (Edited.refl w.registry u.id).update (f := fun j => { j with status := "processing" }) fun _ => rfl
    rcases hrun : (workOn u).runIn o (begun u w) with ⟨f | ⟨⟩, w₁⟩
    · obtain ⟨hedited, -⟩ := workOn_registry u hbegun hrun
      rw [guarded_error hrun, giveUp, runIn_bind_ok (updateJob_runIn o w₁ _ _), removeQuietly_runIn]
      let failed (j : Job) : Job := { j with status := "failed", error := some f.message, completed := true }
      have hfails : Job.Fails failed := ⟨fun _ => rfl, fun _ => rfl, fun _ => rfl⟩
      exact (hedited f rfl).fail hfails
    · obtain ⟨-, hdone⟩ := workOn_registry u hbegun hrun
      rw [guarded_ok hrun]
      exact hdone rfl

end

end Service

end CodeMigration
