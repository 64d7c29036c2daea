import CodeMigration.Proofs.CoderFiles
import CodeMigration.Proofs.NodeDeeds

/-! # Runs that keep files

With an assistant that only answers, the planner and the tester touch no file, and the coder writes only over files in
which something was found. What is found stands under the names of the files of the migration. -/

namespace CodeMigration

open Act

/-- An act that keeps an invariant, however it ends, and whose result has a property. -/
def Act.Keeps {α : Type} (o : Outside) (I : World → Prop) (Q : α → Prop) (t : Act α) : Prop :=
  ∀ w, I w → I (t.runIn o w).2 ∧ ∀ a, (t.runIn o w).1 = .ok a → Q a

/-- A deed that touches no file, and neither the files of a migration nor what was found in them. -/
def Deed.Minor : Deed → Prop
  | .disk _ | .cloned .. | .listed _ | .found _ | .replaced _ => False
  | _ => True

/-- What a migration knows of its repository. -/
structure Holdings where
  repoUrl : String
  repoPath : Option FilePath
  files : List FilePath
  findings : List Finding

def Migration.holdings (m : Migration) : Holdings := ⟨m.repoUrl, m.repoPath, m.files, m.findings⟩

/-- Something that holds of the files and of what the migration knows. -/
def Held (J : Disk → Holdings → Prop) (w : World) : Prop := J w.disk w.state.holdings

theorem World.after_minor (w : World) {d : Deed} (h : d.Minor) :
    (w.after d).disk = w.disk ∧ (w.after d).state.holdings = w.state.holdings := by
  cases d <;> first | exact ⟨rfl, rfl⟩ | cases h

namespace Act.Keeps

variable {α β : Type} {o : Outside} {I : World → Prop} {J : Disk → Holdings → Prop} {Q : α → Prop} {R : β → Prop}
  {t : Act α}

theorem pure {a : α} (h : Q a) : Keeps o I Q (Pure.pure a) := by
  refine fun w hw => ⟨hw, fun b hb => ?_⟩
  cases hb
  exact h

theorem bind {f : α → Act β} (first : Keeps o I Q t) (next : ∀ a, Q a → Keeps o I R (f a)) : Keeps o I R (t >>= f) := by
  intro w hw
  obtain ⟨hkept, hresult⟩ := first w hw
  rcases hrun : t.runIn o w with ⟨e | a, w₁⟩
  · rw [hrun] at hkept
    rw [runIn_bind_error hrun]
    exact ⟨hkept, nofun⟩
  · rw [hrun] at hkept hresult
    rw [runIn_bind_ok hrun]
    exact next a (hresult a rfl) w₁ hkept

theorem attempt (h : Keeps o I Q t) : Keeps o I (fun r => ∀ a, r = .ok a → Q a) (Act.attempt t) := by
  intro w hw
  obtain ⟨hkept, hresult⟩ := h w hw
  refine ⟨hkept, fun r hr a ha => hresult a ?_⟩
  rw [← ha]
  exact Except.ok.inj hr

theorem look {f : World → Act α} (next : ∀ w, I w → Keeps o I Q (f w)) : Keeps o I Q (get >>= f) := by
  intro w hw
  rw [runIn_bind_ok (runIn_get o w)]
  exact next w hw w hw

theorem outside {f : Outside → Act α} (next : Keeps o I Q (f o)) : Keeps o I Q (read >>= f) := by
  intro w hw
  rw [runIn_bind_ok (runIn_read o w)]
  exact next w hw

theorem ite {c : Prop} [Decidable c] {t e : Act α} (ht : Keeps o I Q t) (he : Keeps o I Q e) :
    Keeps o I Q (if c then t else e) := by
  split
  · exact ht
  · exact he

theorem mono {Q' : α → Prop} (h : Keeps o I Q t) (hQ : ∀ a, Q a → Q' a) : Keeps o I Q' t :=
  fun w hw => ⟨(h w hw).1, fun a ha => hQ a ((h w hw).2 a ha)⟩

theorem foldlM {γ : Type} {f : β → γ → Act β} {xs : List γ} (h : ∀ x ∈ xs, ∀ b, R b → Keeps o I R (f b x)) {b : β}
    (hb : R b) : Keeps o I R (xs.foldlM f b) := by
  induction xs generalizing b with
  | nil => exact .pure hb
  | cons x xs ih =>
    obtain ⟨hx, hxs⟩ := List.forall_mem_cons.1 h
    rw [List.foldlM_cons]
    exact .bind (hx b hb) fun _ => ih hxs

theorem mapM {γ : Type} {f : γ → Act β} {xs : List γ} (h : ∀ x ∈ xs, Keeps o I R (f x)) :
    Keeps o I (fun bs => ∀ b ∈ bs, R b) (xs.mapM f) := by
  induction xs with
  | nil =>
    rw [List.mapM_nil]
    exact .pure nofun
  | cons x xs ih =>
    obtain ⟨hx, hxs⟩ := List.forall_mem_cons.1 h
    rw [List.mapM_cons]
    exact .bind hx fun b hb => .bind (ih hxs) fun bs hbs => .pure (List.forall_mem_cons.2 ⟨hb, hbs⟩)

theorem forIn {γ : Type} {f : γ → β → Act (ForInStep β)} {xs : List γ}
    (h : ∀ x ∈ xs, ∀ b, Keeps o I (fun _ => True) (f x b)) (b : β) :
    Keeps o I (fun _ => True) (ForIn.forIn xs b f) := by
  induction xs generalizing b with
  | nil =>
    rw [List.forIn_nil]
    exact .pure trivial
  | cons x xs ih =>
    obtain ⟨hx, hxs⟩ := List.forall_mem_cons.1 h
    rw [List.forIn_cons]
    refine .bind (hx b) fun r _ => ?_
    cases r with
    | done b => exact .pure trivial
    | yield b => exact ih hxs b

theorem consult {f : Outside → Log → α} (h : ∀ log, Q (f o log)) : Keeps o I Q (Act.consult f) := by
  refine fun w hw => ⟨hw, fun a ha => ?_⟩
  cases ha
  exact h w.log

theorem perform {d : Deed} (h : ∀ w, I w → I (w.after d)) : Keeps o I (fun _ => True) (Act.perform d) :=
  fun w hw => ⟨h w hw, fun _ _ => trivial⟩

theorem onDisk {path : String} {f : Disk → Except FileFault Disk}
    (h : ∀ w d, I w → f w.disk = .ok d → I (w.after (.disk d))) : Keeps o I (fun _ => True) (Act.onDisk path f) := by
  intro w hw
  refine ⟨?_, fun _ _ => trivial⟩
  rw [Act.onDisk, runIn_bind_ok (runIn_get o w)]
  cases hd : f w.disk with
  | error fault => exact hw
  | ok d => exact h w d hw hd

theorem writeFile {file : String} {content : Text.Bytes}
    (h : ∀ w bytes d, I w → w.disk.write (.ofString file) bytes = .ok d → I (w.after (.disk d))) :
    Keeps o I (fun _ => True) (Act.writeFile file content) := by
  refine fun w hw => ⟨?_, fun _ _ => trivial⟩
  rw [runIn_writeFile]
  obtain hkept | ⟨bytes, hwrite⟩ := o.write_cases w.disk file content
  · rw [hkept]
    exact hw
  · exact h w bytes _ hw hwrite

theorem modifyDisk (f : Disk → Except FileFault Disk) (h : ∀ w d, I w → f w.disk = .ok d → I (w.after (.disk d))) :
    Keeps o I (fun _ => True) (modify fun w => match f w.disk with
      | .ok disk => { w with disk }
      | .error _ => w : Act Unit) := by
  refine fun w hw => ⟨?_, fun _ _ => trivial⟩
  change I (match f w.disk with
    | .ok disk => { w with disk }
    | .error _ => w)
  cases hd : f w.disk with
  | error fault => exact hw
  | ok d => exact h w d hw hd

/-- Where only minor deeds are done, all that is said of files and of what a migration knows of them stays true. -/
theorem of_madeOf {P : Deed → Prop} (h : MadeOf P t) (hP : ∀ d, P d → d.Minor) :
    Keeps o (Held J) (fun _ => True) t := by
  refine fun w hw => ⟨?_, fun _ _ => trivial⟩
  have hdisk := (h.through o w).keeps World.disk fun d hd w => (w.after_minor (hP d hd)).1
  have hholdings := (h.through o w).keeps (·.state.holdings) fun d hd w => (w.after_minor (hP d hd)).2
  change J (t.runIn o w).2.disk (t.runIn o w).2.state.holdings
  rw [hdisk, hholdings]
  exact hw

theorem minor (h : MadeOf Deed.Minor t) : Keeps o (Held J) (fun _ => True) t := .of_madeOf h fun _ => id

end Act.Keeps

/-- An assistant that only answers. -/
def Outside.IsQuiet (o : Outside) : Prop := ∀ log dir text, o.reply log ≠ .removal dir text

section
variable {o : Outside} {J : Disk → Holdings → Prop}

theorem Act.Keeps.ask (h : o.IsQuiet) (prompt : Assistant.Prompt) : Keeps o (Held J) (fun _ => True) (ask prompt) := by
  intro w hw
  refine ⟨?_, fun _ _ => trivial⟩
  rw [Act.ask, runIn_bind_ok (runIn_observe o w _ _)]
  cases hreply : o.reply (w.log ++ [.asked prompt]) with
  | answer text | failure text => exact hw
  | removal dir text => exact absurd hreply (h _ dir text)

theorem Agent.start_keeps (a : Agent) : Keeps o (Held J) (fun _ => True) a.start :=
  fun _ hw => ⟨hw, fun _ _ => trivial⟩

namespace Planner

theorem place_of_mem_issuesFrom {file : String} {lines : List String} {draft : Assistant.Draft} {count : Nat}
    {bullets : List Assistant.Bullet} : ∀ f ∈ (Assistant.issuesFrom file lines draft count bullets).items,
      f.place.file = file := by
  fun_induction Assistant.issuesFrom file lines draft count bullets <;>
    simp_all [Partial.cons, Assistant.Draft.finding]

theorem place_of_mem_issues {answer file content : String} :
    ∀ f ∈ (Assistant.issues answer file content).items, f.place.file = file := by
  rw [Assistant.issues]
  split
  · nofun
  · exact place_of_mem_issuesFrom

theorem place_of_mem_treeFindings {kind : MigrationKind} {file content : String} :
    ∀ f ∈ (treeFindings kind file content).items, f.place.file = file := by
  rw [treeFindings]
  cases analyze kind content with
  | error failure => nofun
  | ok fs =>
    intro f hf
    obtain ⟨g, -, rfl⟩ := List.mem_map.1 hf
    rfl

theorem findings_keeps (h : o.IsQuiet) (assisted : Bool) (kind : MigrationKind) (file content : String) :
    Keeps o (Held J) (fun found => ∀ f ∈ found.items, f.place.file = file)
      (findings assisted kind file content) := by
  refine .ite (.bind (Q := fun found => ∀ f ∈ found.items, f.place.file = file) ?_ fun found hfound => .pure ?_)
    (.pure place_of_mem_treeFindings)
  · refine .bind (.attempt (.ask h _)) fun r _ => ?_
    cases r with
    | error failure => exact .pure nofun
    | ok answer => exact .pure place_of_mem_issues
  · rw [Partial.append]
    cases (treeFindings kind file content).failure with
    | some failure => exact place_of_mem_treeFindings
    | none => exact List.forall_mem_append.2 ⟨place_of_mem_treeFindings, hfound⟩

theorem planFile_keeps (h : o.IsQuiet) (assisted : Bool) (kind : MigrationKind) (file : FilePath) :
    Keeps o (Held J) (fun fs => ∀ f ∈ fs, f.place.file = file.toString)
      (planFile assisted kind file) := by
  have hcomplain (failure : Failure) : Keeps o (Held J) (fun _ => True)
      (addError ("Error analyzing " ++ file.toString ++ ": " ++ failure.message)) := .minor (.addError trivial)
  refine .look fun w _ => ?_
  cases w.disk.readText file with
  | error failure => exact .bind (hcomplain failure) fun _ _ => .pure nofun
  | ok content =>
    refine .bind (findings_keeps h assisted kind file.toString content) fun found hfound => ?_
    cases found.failure with
    | none => exact .pure hfound
    | some failure => exact .bind (hcomplain failure) fun _ _ => .pure hfound

/-- The planner keeps what does not hang on where things are found, as long as it holds for the files that it reads. -/
theorem run_keeps (h : o.IsQuiet) (assisted : Bool) (good : String → Prop)
    (hfiles : ∀ d hs, J d hs → ∀ p ∈ hs.files, good p.toString)
    (hfound : ∀ d hs fs, J d hs → (∀ f ∈ fs, good f.place.file) → J d { hs with findings := fs }) :
    Keeps o (Held J) (fun _ => True) (run assisted) := by
  refine .bind (Agent.planner.start_keeps) fun _ _ => .look fun w hw => ?_
  have hplan : Keeps o (Held J) (fun found => ∀ fs ∈ found, ∀ f ∈ fs, good f.place.file)
      (w.state.files.mapM (planFile assisted w.state.kind)) := by
    refine .mapM fun p hp => (planFile_keeps h assisted _ p).mono fun fs hfs f hf => ?_
    rw [hfs f hf]
    exact hfiles _ _ hw p hp
  refine .bind hplan fun found hgood => .bind (.perform (d := .found found.flatten) fun w hw => ?_) fun _ _ => ?_
  · refine hfound _ _ _ hw fun f hf => ?_
    obtain ⟨fs, hfs, hf⟩ := List.mem_flatten.1 hf
    exact hgood fs hfs f hf
  · exact .minor (.say trivial)

end Planner

namespace Coder

theorem readTexts_keeps (files : List String) :
    Keeps o (Held J) (fun texts => (texts.map Prod.fst).Nodup ∧ ∀ e ∈ texts, e.1 ∈ files)
      (readTexts files) := by
  intro w hw
  rw [runIn_readTexts]
  refine ⟨?_, fun texts htexts => ?_⟩
  · rw [World.noting_eq]
    exact hw
  · cases htexts
    have hnodup := nodup_textsOn w.disk files
    refine ⟨hnodup, fun e he => ?_⟩
    have hlookup := lookup_of_mem hnodup he
    rw [lookup_textsOn] at hlookup
    split at hlookup
    case isTrue hfile => exact hfile
    case isFalse => cases hlookup

theorem fixes_keeps (h : o.IsQuiet) (assisted : Bool) (kind : MigrationKind) (style : String) (texts : Texts)
    (fs : List Finding) : Keeps o (Held J) (fun _ => True) (fixes assisted kind style texts fs) := by
  refine .foldlM (fun f _ done _ => ?_) trivial
  rw [addFix]
  cases texts.lookup f.place.file with
  | none => exact .pure trivial
  | some content =>
    refine .bind (Q := fun _ => True) ?_ fun _ _ => .pure trivial
    exact .ite (.bind (.ask h _) fun _ _ => .pure trivial) (.minor (.result _))

theorem run_keeps (h : o.IsQuiet) (assisted : Bool) (client : Docs.Client) (good : String → Prop)
    (hfound : ∀ d hs, J d hs → ∀ f ∈ hs.findings, good f.place.file)
    (hwrite : ∀ d hs file content d', J d hs → good file → d.write (.ofString file) content = .ok d' → J d' hs) :
    Keeps o (Held J) (fun _ => True) (run assisted client) := by
  have hcontext : Keeps o (Held J) (fun _ => True) (loadContext client) := by
    refine .of_madeOf (loadContext_madeOf client) fun d hd => ?_
    unfold Deed.OfContext at hd
    split at hd <;> trivial
  refine .bind (Agent.coder.start_keeps) fun _ _ => .look fun w hw => .ite (.minor (.say trivial)) ?_
  refine .bind hcontext fun _ _ => .bind (readTexts_keeps _) fun texts htexts => .look fun w' _ => ?_
  refine .bind (fixes_keeps h assisted _ _ texts _) fun changes _ => ?_
  refine .bind (.minor (.perform (.changed (markApplied changes texts)) trivial)) fun _ _ => ?_
  refine .bind (.forIn (fun e he _ => ?_) _) fun _ _ => .look fun _ _ => .minor (.say trivial)
  have hgood : good e.1 := by
    rw [applyChanges_eq_map _ htexts.1] at he
    obtain ⟨e', he', rfl⟩ := List.mem_map.1 he
    obtain ⟨f, hf, hfile⟩ := List.mem_map.1 (htexts.2 e' he')
    exact hfile ▸ hfound _ _ hw f hf
  refine .bind (Q := fun _ => True) ?_ fun _ _ => .pure trivial
  refine .bind (.writeFile fun w bytes d hw hd => hwrite _ _ _ bytes d hw hgood hd) fun r _ => ?_
  cases r with
  | none => exact .minor (.perform (.applied _) trivial)
  | some failure => exact .minor (.addError trivial)

end Coder

namespace Tester

theorem run_keeps (h : o.IsQuiet) (s : Setup) : Keeps o (Held J) (fun _ => True) (run s) := by
  refine .bind (Agent.tester.start_keeps) fun _ _ => .look fun w _ => .ite ?_ ?_
  · exact .bind (.minor (.say trivial)) fun _ _ => .minor (.perform .passed trivial)
  · refine .bind (Coder.readTexts_keeps _) fun texts _ => ?_
    refine .bind (Q := fun _ => True) (.foldlM (fun c _ done _ => ?_) trivial) fun reports _ =>
      .bind (.minor (.perform (.judged reports) trivial)) fun _ _ => .minor (.say trivial)
    cases texts.lookup c.file with
    | none => exact .pure trivial
    | some content =>
      refine .bind (Q := fun _ => True) ?_ fun code _ => ?_
      · exact .ite (.bind (.ask h _) fun _ _ => .pure trivial) (.pure trivial)
      · exact .bind (.minor (runTest_madeOf (fun _ _ _ => trivial) s _ _)) fun _ _ => .pure trivial

end Tester

end

end CodeMigration
