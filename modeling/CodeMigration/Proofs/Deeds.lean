import CodeMigration.Workflow
import Mathlib.Logic.Relation

/-! # What acts are made of

An act changes the world by single deeds only. `MadeOf P t` says that the act `t` looks at the world and
at the outside, and does no deed but those that `P` allows. From it follows, whatever the outside does and
wherever the act breaks off, that a chain of such deeds leads from the world before to the world behind. -/

namespace CodeMigration

inductive Deed where
  | event (e : Event)
  | disk (d : Disk)
  | said (role content : String)
  | erred (text : String)
  | cloned (path : FilePath) (branch : String)
  | listed (files : List FilePath)
  | began (a : Agent)
  | moved (s : Status)
  | found (findings : List Finding)
  | styled (text : String)
  | changed (changes : List Change)
  | applied (changes : List Change)
  | counted
  | passed
  | judged (reports : List TestReport)
  | connected (b : Bool)
  | registered (r : Registry)
  | replaced (m : Migration)

def Migration.after (m : Migration) : Deed → Migration
  | .said role content => m.addMessage role content
  | .erred text => m.addError text
  | .cloned path branch => { m with repoPath := some path, branch }
  | .listed files => { m with files }
  | .began a => { m with status := a.status, agent := a.name }
  | .moved s => { m with status := s }
  | .found findings => { m with findings }
  | .styled text => { m with styleGuide := text }
  | .changed changes => { m with changes }
  | .applied changes => { m with applied := m.applied ++ changes }
  | .counted => { m with iteration := m.iteration + 1 }
  | .passed => { m with testsPassed := true }
  | .judged reports => { m with tests := reports, testsPassed := reports.all (·.passed) }
  | .replaced new => new
  | _ => m

def Migration.pace (m : Migration) : Int × Int := (m.iteration, m.maxIterations)

def World.after (w : World) : Deed → World
  | .event e => { w with log := w.log ++ [e] }
  | .disk disk => { w with disk }
  | .connected connected => { w with connected }
  | .registered registry => { w with registry }
  | d => { w with state := w.state.after d }

/-- The outside as it is for one who hears of all that was done in another form. -/
def Outside.hearing (o : Outside) (h : Log → Log) : Outside where
  assistantFault := o.assistantFault
  reply log := o.reply (h log)
  cloneFault log := o.cloneFault (h log)
  gitFault log := o.gitFault (h log)
  searchFault log := o.searchFault (h log)
  clonedFiles log := o.clonedFiles (h log)
  heads log := o.heads (h log)
  isDirty log := o.isDirty (h log)
  untracked log := o.untracked (h log)
  sha log := o.sha (h log)
  remoteUrl log := o.remoteUrl (h log)
  pushFault log := o.pushFault (h log)
  diff log := o.diff (h log)
  hubFault log := o.hubFault (h log)
  repoInfo log := o.repoInfo (h log)
  pullUrl log := o.pullUrl (h log)
  testRun log := o.testRun (h log)
  docs log := o.docs (h log)
  listenFault log := o.listenFault (h log)
  commandFault log := o.commandFault (h log)
  commandRemoves log := o.commandRemoves (h log)
  platform := o.platform
  loopRuns := o.loopRuns
  stepFault log := o.stepFault (h log)
  engine := o.engine
  packing := o.packing
  writeFault := o.writeFault

/-- The outside with another engine to run the steps of a migration. -/
def Outside.withEngine (o : Outside) (engine : Engine) : Outside := { o with engine }

namespace Act

variable {α β : Type} {γ : Type} {w w' : World} {e : Event}

def perform (d : Deed) : Act Unit := modify (·.after d)

section
variable (o : Outside) (w : World) {w' : World} {path : String} {f : Disk → Except FileFault Disk}

@[simp] theorem runIn_pure (a : α) : (pure a : Act α).runIn o w = (.ok a, w) := rfl

@[simp] theorem runIn_result (r : Except Failure α) : (result r).runIn o w = (r, w) := rfl

@[simp] theorem runIn_get : (get : Act World).runIn o w = (.ok w, w) := rfl

theorem runIn_modify (f : World → World) : (modify f : Act Unit).runIn o w = (.ok (), f w) := rfl

@[simp] theorem runIn_read : (read : Act Outside).runIn o w = (.ok o, w) := rfl

@[simp] theorem runIn_perform (d : Deed) : (perform d).runIn o w = (.ok (), w.after d) := rfl

@[simp] theorem runIn_record (e : Event) :
    (record e).runIn o w = (.ok (), { w with log := w.log ++ [e] }) := rfl

@[simp] theorem runIn_consult (f : Outside → Log → α) : (consult f).runIn o w = (.ok (f o w.log), w) := rfl

@[simp] theorem runIn_observe (e : Event) (f : Outside → Log → α) :
    (observe e f).runIn o w = (.ok (f o (w.log ++ [e])), { w with log := w.log ++ [e] }) := rfl

@[simp] theorem runIn_updateMigration (f : Migration → Migration) :
    (updateMigration f).runIn o w = (.ok (), { w with state := f w.state }) := rfl

@[simp] theorem runIn_say (role content : String) :
    (say role content).runIn o w = (.ok (), w.after (.said role content)) := rfl

@[simp] theorem runIn_attempt (t : Act α) :
    (attempt t).runIn o w = (.ok (t.runIn o w).1, (t.runIn o w).2) := rfl

theorem runIn_bind (t : Act α) (f : α → Act β) : (t >>= f).runIn o w =
      match t.runIn o w with
      | (.ok a, w') => (f a).runIn o w'
      | (.error e, w') => (.error e, w') := by
  change ExceptT.bindCont (fun a => f a o) (t o w).1 (t o w).2 = _
  unfold runIn
  rcases t o w with ⟨r | r, w'⟩ <;> rfl

variable {o w} {t : Act α}

theorem runIn_bind_ok {a : α} (h : t.runIn o w = (.ok a, w')) (f : α → Act β) :
    (t >>= f).runIn o w = (f a).runIn o w' := by
  rw [runIn_bind, h]

theorem runIn_bind_error {e : Failure} (h : t.runIn o w = (.error e, w')) (f : α → Act β) :
    (t >>= f).runIn o w = (.error e, w') := by
  rw [runIn_bind, h]

theorem runIn_bind_eq_ok {f : α → Act β} {b : β} :
    (t >>= f).runIn o w = (.ok b, w') ↔ ∃ a w₁, t.runIn o w = (.ok a, w₁) ∧ (f a).runIn o w₁ = (.ok b, w') := by
  rcases h : t.runIn o w with ⟨e | a, w₁⟩
  · rw [runIn_bind_error h]
    simp
  · rw [runIn_bind_ok h]
    constructor
    · exact fun hf => ⟨a, w₁, rfl, hf⟩
    · rintro ⟨a', w₂, he, hf⟩
      cases he
      exact hf

theorem runIn_map (f : α → β) (t : Act α) : (f <$> t).runIn o w = ((t.runIn o w).1.map f, (t.runIn o w).2) := by
  rw [map_eq_pure_bind, runIn_bind]
  rcases t.runIn o w with ⟨e | a, w'⟩ <;> rfl

theorem runIn_onDisk_ok {disk : Disk} (h : f w.disk = .ok disk) :
    (onDisk path f).runIn o w = (.ok (), { w with disk }) := by
  rw [onDisk, runIn_bind_ok (runIn_get o w), h]
  rfl

theorem runIn_onDisk_error {fault : FileFault} (h : f w.disk = .error fault) :
    (onDisk path f).runIn o w = (.error (.file fault path), w) := by
  rw [onDisk, runIn_bind_ok (runIn_get o w), h]
  rfl

theorem runIn_writeFile (o : Outside) (w : World) (file : String) (content : Text.Bytes) :
    (writeFile file content).runIn o w =
      (.ok (o.write w.disk file content).2, w.after (.disk (o.write w.disk file content).1)) := rfl

theorem exists_runIn_ok (h : (t.runIn o w).1.isOk = true) : ∃ a w', t.runIn o w = (.ok a, w') := by
  rcases hrun : t.runIn o w with ⟨f | a, w'⟩
  · rw [hrun] at h
    cases h
  · exact ⟨a, w', rfl⟩

theorem exists_runIn_error (h : (t.runIn o w).1.isOk = false) : ∃ f w', t.runIn o w = (.error f, w') := by
  rcases hrun : t.runIn o w with ⟨f | a, w'⟩
  · exact ⟨f, w', rfl⟩
  · rw [hrun] at h
    cases h

end

/-- An act that looks around, and does nothing but what is allowed. What it looks at is not the log: only the
outside goes by that. Nor is it the engine, unless the act may change the registry of jobs. -/
inductive MadeOf (P : Deed → Prop) : {α : Type} → Act α → Prop where
  | pure {α : Type} (a : α) : MadeOf P (Pure.pure a : Act α)
  | fail {α : Type} (f : Failure) : MadeOf P (Act.fail f : Act α)
  | bind {α β : Type} {t : Act α} {f : α → Act β} (first : MadeOf P t) (next : ∀ a, MadeOf P (f a)) :
      MadeOf P (t >>= f)
  | attempt {α : Type} {t : Act α} (part : MadeOf P t) : MadeOf P (Act.attempt t)
  | perform (d : Deed) (allowed : P d) : MadeOf P (Act.perform d)
  | look {α : Type} {f : World → Act α} (blind : ∀ w log, f { w with log } = f w) (next : ∀ w, MadeOf P (f w)) :
      MadeOf P (get >>= f)
  | outside {α : Type} {f : Outside → Act α} (deaf : ∀ o h engine, f ((o.hearing h).withEngine engine) = f o)
      (next : ∀ o, MadeOf P (f o)) : MadeOf P (read >>= f)
  | engine {α : Type} {f : Outside → Act α} (allowed : ∀ r, P (.registered r)) (deaf : ∀ o h, f (o.hearing h) = f o)
      (next : ∀ o, MadeOf P (f o)) : MadeOf P (read >>= f)
  | consult {α : Type} (f : Outside → Log → α)
      (natural : ∀ o h engine log, f ((o.hearing h).withEngine engine) log = f o (h log)) : MadeOf P (Act.consult f)

def Through (P : Deed → Prop) : World → World → Prop :=
  Relation.ReflTransGen fun w w' => ∃ d, P d ∧ w' = w.after d

variable {P Q : Deed → Prop} {t : Act α}

theorem MadeOf.through (h : MadeOf P t) (o : Outside) (w : World) : Through P w (t.runIn o w).2 := by
  induction h generalizing w with
  | pure a | fail f => exact .refl
  | @bind α β t f first next ih ih' =>
    rw [runIn_bind]
    have h₁ := ih w
    rcases hr : t.runIn o w with ⟨e | a, w'⟩
    · simpa [hr] using h₁
    · rw [hr] at h₁
      exact h₁.trans (ih' a w')
  | attempt part ih => exact ih w
  | perform d allowed => exact .single ⟨d, allowed, rfl⟩
  | @look α f blind next ih =>
    rw [runIn_bind_ok (runIn_get o w)]
    exact ih w w
  | @outside α f deaf next ih | @engine α f allowed deaf next ih =>
    rw [runIn_bind_ok (runIn_read o w)]
    exact ih o w
  | consult f natural => exact .refl

theorem MadeOf.mono (h : MadeOf P t) (hPQ : ∀ d, P d → Q d) : MadeOf Q t := by
  induction h with
  | pure a => exact .pure a
  | fail f => exact .fail f
  | bind first next ih ih' => exact .bind ih ih'
  | attempt part ih => exact .attempt ih
  | perform d allowed => exact .perform d (hPQ d allowed)
  | look blind next ih => exact .look blind ih
  | outside deaf next ih => exact .outside deaf ih
  | engine allowed deaf next ih => exact .engine (fun r => hPQ _ (allowed r)) deaf ih
  | consult f natural => exact .consult f natural

theorem Through.keeps (h : Through P w w') (f : World → γ) (hf : ∀ d, P d → ∀ w, f (w.after d) = f w) : f w' = f w := by
  induction h with
  | refl => rfl
  | tail _ step ih =>
    obtain ⟨d, hd, rfl⟩ := step
    rw [hf d hd, ih]

theorem Through.log (h : Through P w w') : ∃ es, w'.log = w.log ++ es ∧ ∀ e ∈ es, P (.event e) := by
  induction h with
  | refl => exact ⟨[], by simp, by simp⟩
  | tail _ step ih =>
    obtain ⟨d, hd, rfl⟩ := step
    obtain ⟨es, hlog, hes⟩ := ih
    by_cases he : ∃ e, d = .event e
    · obtain ⟨e, rfl⟩ := he
      refine ⟨es ++ [e], by simp [World.after, hlog], fun x hx => ?_⟩
      rcases List.mem_append.mp hx with hx | hx
      · exact hes x hx
      · obtain rfl := List.mem_singleton.mp hx
        exact hd
    · refine ⟨es, ?_, hes⟩
      rw [← hlog]
      cases d <;> first | rfl | exact absurd ⟨_, rfl⟩ he

theorem MadeOf.log_length_le (h : MadeOf P t) (o : Outside) (w : World) :
    w.log.length ≤ (t.runIn o w).2.log.length := by
  obtain ⟨es, hlog, -⟩ := (h.through o w).log
  rw [hlog, List.length_append]
  omega

/-- Of an outside that hears of all that was done in another form, an act has what it would have where that form is
the log. Events behind the first few must be heard of as they are. The outside may have another engine, if the act
leaves the registry of jobs alone. -/
theorem MadeOf.runIn_elsewhere (ht : MadeOf P t) (o : Outside) {engine : Engine}
    (hengine : engine = o.engine ∨ ∀ r, ¬P (.registered r)) {h : Log → Log} {n : Nat}
    (hh : ∀ log e, n ≤ log.length → h (log ++ [e]) = h log ++ [e]) (w : World) (hw : n ≤ w.log.length) :
    t.runIn o { w with log := h w.log } = ((t.runIn ((o.hearing h).withEngine engine) w).1,
      { (t.runIn ((o.hearing h).withEngine engine) w).2 with
        log := h (t.runIn ((o.hearing h).withEngine engine) w).2.log }) := by
  induction ht generalizing w with
  | pure a | fail f => rfl
  | @bind α β t f first next ih ih' =>
    have hstep := ih w hw
    have hgrown := first.log_length_le ((o.hearing h).withEngine engine) w
    rcases hrun : t.runIn ((o.hearing h).withEngine engine) w with ⟨e | a, w'⟩
    · rw [hrun] at hstep
      rw [runIn_bind_error hrun, runIn_bind_error hstep]
    · rw [hrun] at hstep hgrown
      rw [runIn_bind_ok hrun, runIn_bind_ok hstep]
      exact ih' a w' (Nat.le_trans hw hgrown)
  | attempt part ih =>
    rw [runIn_attempt, runIn_attempt, ih w hw]
  | perform d allowed =>
    cases d with
    | event e =>
      rw [runIn_perform, runIn_perform]
      exact congrArg (fun log => (Except.ok (), { w with log })) (hh w.log e hw).symm
    | _ => rfl
  | @look α f blind next ih =>
    rw [runIn_bind_ok (runIn_get o _), runIn_bind_ok (runIn_get _ w), blind]
    exact ih w w hw
  | @outside α f deaf next ih =>
    rw [runIn_bind_ok (runIn_read o _), runIn_bind_ok (runIn_read _ w), deaf]
    exact ih o w hw
  | @engine α f allowed deaf next ih =>
    obtain rfl := hengine.resolve_right fun hno => hno default (allowed default)
    have hdeaf : f ((o.hearing h).withEngine o.engine) = f o := deaf o h
    rw [runIn_bind_ok (runIn_read o _), runIn_bind_ok (runIn_read _ w), hdeaf]
    exact ih o w hw
  | consult f natural => rw [runIn_consult, runIn_consult, natural]

section
variable {w w' : World} (h : Through P w w')
include h

variable (hr : ∀ m, ¬P (.replaced m))
include hr

theorem Through.status_eq (hb : ∀ a, ¬P (.began a)) (hm : ∀ s, ¬P (.moved s)) :
    w'.state.status = w.state.status := by
  refine h.keeps (·.state.status) fun d hP w => ?_
  cases d <;> first | rfl | exact absurd hP (hb _) | exact absurd hP (hm _) | exact absurd hP (hr _)

theorem Through.testsPassed_eq (hp : ¬P .passed) (hj : ∀ reports, ¬P (.judged reports)) :
    w'.state.testsPassed = w.state.testsPassed := by
  refine h.keeps (·.state.testsPassed) fun d hP w => ?_
  cases d <;> first | rfl | exact absurd hP hp | exact absurd hP (hj _) | exact absurd hP (hr _)

/-- Rounds are counted in one way only, and how many there may be is never changed. -/
theorem Through.pace_eq (hc : ¬P .counted) : w'.state.pace = w.state.pace := by
  refine h.keeps (·.state.pace) fun d hP w => ?_
  cases d <;> first | rfl | exact absurd hP hc | exact absurd hP (hr _)

end

theorem MadeOf.result (r : Except Failure α) : MadeOf P (result r) := by
  cases r with
  | error f => exact .fail f
  | ok a => exact .pure a

theorem MadeOf.failWith (reason : Option String) : MadeOf P (failWith reason) := by
  cases reason with
  | none => exact .pure ()
  | some text => exact .fail _

theorem MadeOf.record (he : P (.event e)) : MadeOf P (record e) := .perform (.event e) he

theorem MadeOf.observe {f : Outside → Log → α} (he : P (.event e))
    (natural : ∀ o h engine log, f ((o.hearing h).withEngine engine) log = f o (h log)) : MadeOf P (observe e f) :=
  .bind (.record he) fun _ => .consult f natural

theorem MadeOf.say {role content : String} (h : P (.said role content)) : MadeOf P (say role content) :=
  .perform (.said role content) h

theorem MadeOf.addError {text : String} (h : P (.erred text)) : MadeOf P (addError text) :=
  .perform (.erred text) h

def onNewDisk (path : String) : Except FileFault Disk → Act Unit
  | .ok disk => Act.perform (.disk disk)
  | .error fault => Act.fail (.file fault path)

theorem MadeOf.onDisk {path : String} {f : Disk → Except FileFault Disk} (h : ∀ d, P (.disk d)) :
    MadeOf P (onDisk path f) := by
  have he : Act.onDisk path f = get >>= fun w => onNewDisk path (f w.disk) := by
    funext o w
    change (Act.onDisk path f).runIn o w = Act.runIn (get >>= _) o w
    rw [runIn_bind_ok (runIn_get o w), Act.onDisk, runIn_bind_ok (runIn_get o w)]
    cases f w.disk <;> rfl
  rw [he]
  refine .look (fun _ _ => rfl) fun w => ?_
  cases f w.disk with
  | error fault => exact .fail _
  | ok disk => exact .perform (.disk disk) (h disk)

theorem MadeOf.writeFile (h : ∀ d, P (.disk d)) (file : String) (content : Text.Bytes) :
    MadeOf P (writeFile file content) := by
  refine .outside (fun _ _ _ => rfl) fun o => .look (fun _ _ => rfl) fun w => ?_
  exact .bind (.perform (.disk (o.write w.disk file content).1) (h _)) fun _ => .pure _

/-- A change of the disk that may fail without being noticed. -/
theorem MadeOf.modifyDisk (f : Disk → Except FileFault Disk) (h : ∀ d, P (.disk d)) :
    MadeOf P (modify fun w => match f w.disk with
      | .ok disk => { w with disk }
      | .error _ => w : Act Unit) := by
  have he : (modify fun w => match f w.disk with
      | .ok disk => { w with disk }
      | .error _ => w : Act Unit) = get >>= fun w => match f w.disk with
      | .ok disk => Act.perform (.disk disk)
      | .error _ => Pure.pure () := by
    funext o w
    change (Except.ok (), match f w.disk with
      | .ok disk => { w with disk }
      | .error _ => w) = Act.runIn (get >>= _) o w
    rw [runIn_bind_ok (runIn_get o w)]
    cases f w.disk <;> rfl
  rw [he]
  refine .look (fun _ _ => rfl) fun w => ?_
  cases f w.disk with
  | error fault => exact .pure ()
  | ok disk => exact .perform (.disk disk) (h disk)

theorem MadeOf.updateMigration (f : Migration → Migration) (h : ∀ m, P (.replaced m)) :
    MadeOf P (updateMigration f) := by
  have he : Act.updateMigration f = get >>= fun w => Act.perform (.replaced (f w.state)) := rfl
  rw [he]
  exact .look (fun _ _ => rfl) fun w => .perform (.replaced (f w.state)) (h _)

theorem MadeOf.modifyRegistry (f : Registry → Registry) (h : ∀ r, P (.registered r)) :
    MadeOf P (modify fun w => { w with registry := f w.registry } : Act Unit) := by
  have he : (modify fun w => { w with registry := f w.registry } : Act Unit) =
      get >>= fun w => Act.perform (.registered (f w.registry)) := rfl
  rw [he]
  exact .look (fun _ _ => rfl) fun w => .perform (.registered (f w.registry)) (h _)

theorem MadeOf.ite {c : Prop} [Decidable c] {t e : Act α} (ht : MadeOf P t) (he : MadeOf P e) :
    MadeOf P (if c then t else e) := by
  split
  · exact ht
  · exact he

theorem MadeOf.foldlM {f : β → γ → Act β} (h : ∀ b x, MadeOf P (f b x)) (xs : List γ) (b : β) :
    MadeOf P (xs.foldlM f b) := by
  induction xs generalizing b with
  | nil => exact .pure b
  | cons x xs ih =>
    rw [List.foldlM_cons]
    exact .bind (h b x) ih

theorem MadeOf.mapM {f : γ → Act β} (h : ∀ x, MadeOf P (f x)) (xs : List γ) : MadeOf P (xs.mapM f) := by
  induction xs with
  | nil =>
    rw [List.mapM_nil]
    exact .pure []
  | cons x xs ih =>
    rw [List.mapM_cons]
    exact .bind (h x) fun b => .bind ih fun bs => .pure (b :: bs)

theorem MadeOf.forIn {f : γ → β → Act (ForInStep β)} (h : ∀ x b, MadeOf P (f x b)) (xs : List γ) (b : β) :
    MadeOf P (forIn xs b f) := by
  induction xs generalizing b with
  | nil =>
    rw [List.forIn_nil]
    exact .pure b
  | cons x xs ih =>
    rw [List.forIn_cons]
    refine .bind (h x b) fun r => ?_
    cases r with
    | done b => exact .pure b
    | yield b => exact ih b

theorem MadeOf.ask {prompt : Assistant.Prompt} (he : P (.event (.asked prompt))) (hd : ∀ d, P (.disk d)) :
    MadeOf P (ask prompt) := by
  refine .bind (.observe he fun _ _ _ _ => rfl) fun reply => ?_
  cases reply with
  | answer text => exact .pure text
  | failure text => exact .fail _
  | removal dir text => exact .bind (.modifyDisk (·.removeDir dir) hd) fun _ => .pure text

end Act

end CodeMigration
