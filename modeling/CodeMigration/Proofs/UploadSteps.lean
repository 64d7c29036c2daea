import CodeMigration.Proofs.JobDeeds

/-! # The task of an archive, step by step

The task of an archive waits for each of its sources to be migrated, and meanwhile others have their turn. Here the task
is cut at these points. If nobody else takes a turn it comes to what it does in one go. -/

namespace CodeMigration.Service

open Act

/-- Where a task waits: a source was read and is being migrated, and others are left. -/
structure Pause where
  progress : Progress
  source : List String
  bytes : Text.Bytes
  rest : List (List String)

/-- Goes on to the next source that can be read, or packs what there is. -/
def advance (u : Upload) (p : Progress) : List (List String) → Act (Option Pause)
  | [] => do
    pack u p
    return none
  | source :: rest => do
    match (← get).disk.readBytes ⟨p.code.root, p.code.parts ++ source⟩ with
    | .error _ => advance u p rest
    | .ok bytes => return some ⟨p, source, bytes, rest⟩

/-- Takes up a source that was migrated. -/
def settle (u : Upload) (q : Pause) : Act Progress := do
  let r := fixText u.kind (looseText q.bytes)
  if !r.code.isEmpty then
    let path : FilePath := ⟨u.migratedDir.root, u.migratedDir.parts ++ q.source⟩
    let _ ← attempt (onDisk path.toString (·.place path (Text.encode r.code)))
  return { q.progress with found := q.progress.found + r.found, fixed := q.progress.fixed + r.fixed }

def resume (u : Upload) (q : Pause) : Act (Option Pause) := do advance u (← settle u q) q.rest

def begin (u : Upload) : Act (Option Pause) := do
  let (sources, p) ← unpack u
  advance u p sources

def start (u : Upload) : Act (Option Pause) := do
  if !(← get).registry.has u.id then fail (.noJob u.id)
  updateJob u.id fun j => { j with status := "processing" }
  guarded u none (begin u)

/-- Where a task is. -/
inductive Stage where
  | scheduled
  | paused (q : Pause)
  | finished (r : Except Failure Unit)

structure Scene where
  stage : Stage
  world : World

namespace Scene

def ofRun : Except Failure (Option Pause) × World → Scene
  | (.ok (some q), w) => ⟨.paused q, w⟩
  | (.ok none, w) => ⟨.finished (.ok ()), w⟩
  | (.error f, w) => ⟨.finished (.error f), w⟩

def ofEnd (run : Except Failure Unit × World) : Scene := ⟨.finished run.1, run.2⟩

/-- One turn of a task, up to where it waits again. -/
def goOn (u : Upload) (o : Outside) (s : Scene) : Scene :=
  match s.stage with
  | .scheduled => ofRun ((start u).runIn o s.world)
  | .paused q => ofRun ((guarded u none (resume u q)).runIn o s.world)
  | .finished _ => s

section
variable (u : Upload) (o : Outside) (w : World)

theorem goOn_scheduled : goOn u o ⟨.scheduled, w⟩ = ofRun ((start u).runIn o w) := rfl

theorem goOn_paused (q : Pause) : goOn u o ⟨.paused q, w⟩ = ofRun ((guarded u none (resume u q)).runIn o w) := rfl

end

end Scene

section
variable {u : Upload} {o : Outside} {w : World} {p : Progress} {source : List String} {fault : FileFault}
  {bytes : Text.Bytes}

theorem migrateSource_of_error (h : w.disk.readBytes ⟨p.code.root, p.code.parts ++ source⟩ = .error fault) :
    (migrateSource u p source).runIn o w = (.ok p, w) := by
  rw [migrateSource, runIn_bind_ok (runIn_get o w), h]
  rfl

theorem migrateSource_of_ok (h : w.disk.readBytes ⟨p.code.root, p.code.parts ++ source⟩ = .ok bytes)
    (rest : List (List String)) :
    (migrateSource u p source).runIn o w = (settle u ⟨p, source, bytes, rest⟩).runIn o w := by
  rw [migrateSource, runIn_bind_ok (runIn_get o w), h]
  rfl

theorem advance_of_error (h : w.disk.readBytes ⟨p.code.root, p.code.parts ++ source⟩ = .error fault)
    (rest : List (List String)) : (advance u p (source :: rest)).runIn o w = (advance u p rest).runIn o w := by
  rw [advance, runIn_bind_ok (runIn_get o w), h]

theorem advance_of_ok (h : w.disk.readBytes ⟨p.code.root, p.code.parts ++ source⟩ = .ok bytes)
    (rest : List (List String)) :
    (advance u p (source :: rest)).runIn o w = (.ok (some ⟨p, source, bytes, rest⟩), w) := by
  rw [advance, runIn_bind_ok (runIn_get o w), h]
  rfl

theorem exists_settle (u : Upload) (o : Outside) (q : Pause) (w : World) :
    ∃ p w', (settle u q).runIn o w = (.ok p, w') := by
  unfold settle
  dsimp only
  split
  case isTrue =>
    rw [runIn_bind_ok (runIn_attempt o w _)]
    exact ⟨_, _, rfl⟩
  case isFalse => exact ⟨_, _, rfl⟩

theorem settle_madeOf (u : Upload) (q : Pause) : MadeOf Deed.OffRegistry (settle u q) :=
  .ite (.bind (.attempt (.onDisk fun _ _ => Deed.noConfusion)) fun _ => .pure _) (.pure _)

end

section
variable {u : Upload} {o : Outside} {w w' : World}

def workOff (u : Upload) (p : Progress) (sources : List (List String)) : Act Unit := do
  let p ← sources.foldlM (migrateSource u) p
  pack u p

theorem workOff_cons {p p' : Progress} {source : List String} (h : (migrateSource u p source).runIn o w = (.ok p', w'))
    (rest : List (List String)) : (workOff u p (source :: rest)).runIn o w = (workOff u p' rest).runIn o w' := by
  have hfold : workOff u p (source :: rest) =
      migrateSource u p source >>= fun p' => workOff u p' rest := by
    rw [workOff, List.foldlM_cons, bind_assoc]
    rfl
  rw [hfold, runIn_bind_ok h]

theorem resume_runIn {q : Pause} {p : Progress} (h : (settle u q).runIn o w = (.ok p, w')) :
    (resume u q).runIn o w = (advance u p q.rest).runIn o w' := runIn_bind_ok h _

theorem exists_goOn_advance (u : Upload) (o : Outside) (sources : List (List String)) (p : Progress) (w : World) :
    ∃ n, (Scene.goOn u o)^[n] (.ofRun ((guarded u none (advance u p sources)).runIn o w)) =
      .ofEnd ((guarded u () (workOff u p sources)).runIn o w) := by
  induction sources generalizing p w with
  | nil =>
    refine ⟨0, ?_⟩
    have hadvance : advance u p [] = pack u p >>= fun _ => pure none := rfl
    have hwork : workOff u p [] = pack u p := rfl
    rw [hadvance, hwork]
    rcases hpack : (pack u p).runIn o w with ⟨f | ⟨⟩, w'⟩
    · rw [guarded_error (runIn_bind_error hpack _), guarded_error hpack]
      rfl
    · rw [guarded_ok (runIn_bind_ok hpack _), guarded_ok hpack]
      rfl
  | cons source rest ih =>
    cases hread : w.disk.readBytes ⟨p.code.root, p.code.parts ++ source⟩ with
    | error fault =>
      rw [guarded_congr (advance_of_error hread rest),
        guarded_congr (workOff_cons (migrateSource_of_error hread) rest)]
      exact ih p w
    | ok bytes =>
      obtain ⟨p', w', hsettle⟩ := exists_settle u o ⟨p, source, bytes, rest⟩ w
      obtain ⟨n, hn⟩ := ih p' w'
      refine ⟨n + 1, ?_⟩
      have hpaused : Scene.ofRun (.ok (some ⟨p, source, bytes, rest⟩), w) = ⟨.paused ⟨p, source, bytes, rest⟩, w⟩ := rfl
      rw [Function.iterate_succ_apply, guarded_ok (advance_of_ok hread rest), hpaused, Scene.goOn_paused,
        guarded_congr (resume_runIn hsettle), hn,
        guarded_congr (workOff_cons ((migrateSource_of_ok hread rest).trans hsettle) rest)]

theorem start_of_unlisted (h : w.registry.has u.id = false) : (start u).runIn o w = (.error (.noJob u.id), w) := by
  rw [start, runIn_bind_ok (runIn_get o w), h]
  rfl

theorem start_of_listed (h : w.registry.has u.id = true) :
    (start u).runIn o w = (guarded u none (begin u)).runIn o (begun u w) := by
  rw [start, runIn_bind_ok (runIn_get o w), h]
  rfl

/-- The turns of a task alone do what the task does in one go. -/
theorem exists_goOn_scheduled (u : Upload) (o : Outside) (w : World) :
    ∃ n, (Scene.goOn u o)^[n] ⟨.scheduled, w⟩ = .ofEnd ((processUpload u).runIn o w) := by
  have hfirst (n : Nat) : (Scene.goOn u o)^[n + 1] ⟨.scheduled, w⟩ =
      (Scene.goOn u o)^[n] (.ofRun ((start u).runIn o w)) := Function.iterate_succ_apply _ _ _
  cases hlisted : w.registry.has u.id with
  | false =>
    refine ⟨1, ?_⟩
    rw [hfirst, start_of_unlisted hlisted, processUpload_of_unlisted hlisted]
    rfl
  | true =>
    rw [processUpload_of_listed hlisted]
    rcases hunpack : (unpack u).runIn o (begun u w) with ⟨f | ⟨sources, p⟩, w'⟩
    · have hbegin : (begin u).runIn o (begun u w) = (.error f, w') := runIn_bind_error hunpack _
      have hwork : (workOn u).runIn o (begun u w) = (.error f, w') := runIn_bind_error hunpack _
      refine ⟨1, ?_⟩
      rw [hfirst, start_of_listed hlisted, guarded_error hbegin, guarded_error hwork]
      rfl
    · obtain ⟨n, hn⟩ := exists_goOn_advance u o sources p w'
      refine ⟨n + 1, ?_⟩
      have hbegin : (begin u).runIn o (begun u w) = (advance u p sources).runIn o w' := runIn_bind_ok hunpack _
      have hwork : (workOn u).runIn o (begun u w) = (workOff u p sources).runIn o w' := runIn_bind_ok hunpack _
      rw [hfirst, start_of_listed hlisted, guarded_congr hbegin, hn, guarded_congr hwork]

end

section
variable {u : Upload} {o : Outside} {w w' : World}

theorem advance_cases (u : Upload) (o : Outside) (p : Progress) (sources : List (List String)) (w : World) :
    (∃ q, (advance u p sources).runIn o w = (.ok (some q), w) ∧ q.source ∈ sources ∧ q.rest ⊆ sources ∧
      q.rest.length < sources.length) ∨
    ∃ r w', (pack u p).runIn o w = (r, w') ∧ (advance u p sources).runIn o w = (r.map fun _ => none, w') := by
  induction sources with
  | nil =>
    right
    rcases hpack : (pack u p).runIn o w with ⟨f | ⟨⟩, w'⟩
    · exact ⟨_, w', rfl, runIn_bind_error hpack _⟩
    · exact ⟨_, w', rfl, runIn_bind_ok hpack _⟩
  | cons source rest ih =>
    cases hread : w.disk.readBytes ⟨p.code.root, p.code.parts ++ source⟩ with
    | error fault =>
      rw [advance_of_error hread]
      obtain ⟨q, hrun, hsource, hrest, hlength⟩ | hrun := ih
      · refine .inl ⟨q, hrun, List.mem_cons_of_mem _ hsource, fun s hs => List.mem_cons_of_mem _ (hrest hs), ?_⟩
        rw [List.length_cons]
        omega
      · exact .inr hrun
    | ok bytes =>
      refine .inl ⟨_, advance_of_ok hread rest, List.mem_cons_self, fun s hs => List.mem_cons_of_mem _ hs, ?_⟩
      exact Nat.lt_succ_self _

theorem ofRun_guarded_advance (u : Upload) (o : Outside) (p : Progress) (sources : List (List String)) (w : World) :
    (∃ q, Scene.ofRun ((guarded u none (advance u p sources)).runIn o w) = ⟨.paused q, w⟩ ∧
      q.rest.length < sources.length) ∨
    ∃ w', Scene.ofRun ((guarded u none (advance u p sources)).runIn o w) = ⟨.finished (.ok ()), w'⟩ := by
  obtain ⟨q, hrun, -, -, hlength⟩ | ⟨r, w', -, hrun⟩ := advance_cases u o p sources w
  · rw [guarded_ok hrun]
    exact .inl ⟨q, rfl, hlength⟩
  · right
    cases r with
    | error f =>
      rw [guarded_error hrun]
      exact ⟨_, rfl⟩
    | ok =>
      rw [guarded_ok hrun]
      exact ⟨_, rfl⟩

theorem exists_goOn_paused (u : Upload) (o : Outside) {n : Nat} {q : Pause} (hq : q.rest.length < n) (w : World) :
    ∃ k r, ((Scene.goOn u o)^[k] ⟨.paused q, w⟩).stage = .finished r := by
  induction n generalizing q w with
  | zero => omega
  | succ n ih =>
    obtain ⟨p, w', hsettle⟩ := exists_settle u o q w
    have hturn : Scene.goOn u o ⟨.paused q, w⟩ = .ofRun ((guarded u none (advance u p q.rest)).runIn o w') := by
      rw [Scene.goOn_paused, guarded_congr (resume_runIn hsettle)]
    obtain ⟨q', hnext, hlength⟩ | ⟨w₁, hnext⟩ := ofRun_guarded_advance u o p q.rest w'
    · obtain ⟨k, r, hk⟩ := ih (q := q') (by omega) w'
      refine ⟨k + 1, r, ?_⟩
      rw [Function.iterate_succ_apply, hturn, hnext, hk]
    · refine ⟨1, .ok (), ?_⟩
      rw [Function.iterate_one, hturn, hnext]

/-- A task that has its turn often enough comes to an end, whatever happens before. -/
theorem exists_goOn_finished (u : Upload) (o : Outside) (s : Scene) :
    ∃ k r, ((Scene.goOn u o)^[k] s).stage = .finished r := by
  obtain ⟨stage, w⟩ := s
  cases stage with
  | finished r => exact ⟨0, r, rfl⟩
  | paused q => exact exists_goOn_paused u o (Nat.lt_succ_self _) w
  | scheduled =>
    obtain ⟨n, hn⟩ := exists_goOn_scheduled u o w
    exact ⟨n, _, by rw [hn]; rfl⟩

end

end CodeMigration.Service
