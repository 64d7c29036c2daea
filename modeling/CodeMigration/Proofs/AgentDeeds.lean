import CodeMigration.Proofs.Deeds

/-! # What agents do

Each agent takes the migration up and then keeps to deeds of its own. None of them commits, pushes or asks
for a merge, and only the tester counts rounds or says whether tests passed. -/

namespace CodeMigration

open Act

namespace Deed

def OfPlanner : Deed → Prop
  | .event (.asked _) | .disk _ | .said .. | .erred _ | .found _ => True
  | _ => False

/-- What is done to learn what the documentation says. -/
def OfContext : Deed → Prop
  | .event (.requested ..) | .event (.wrote _) | .said .. | .styled _ => True
  | _ => False

def OfCoder : Deed → Prop
  | .event (.asked _) | .event (.requested ..) | .event (.wrote _) => True
  | .disk _ | .said .. | .erred _ | .styled _ | .changed _ | .applied _ => True
  | _ => False

theorem OfContext.ofCoder {d : Deed} (h : d.OfContext) : d.OfCoder := by
  unfold OfContext at h
  split at h <;> trivial

def OfTester : Deed → Prop
  | .event (.asked _) | .event (.tested ..) | .disk _ | .said .. | .erred _ | .passed | .judged _ => True
  | _ => False

end Deed

/-- An act that takes the migration up as an agent and then does only what is allowed. -/
def Agent.Leads (a : Agent) (P : Deed → Prop) (t : Act Unit) : Prop :=
  ∃ rest : Act Unit, t = (a.start >>= fun _ => rest) ∧ MadeOf P rest

def World.begun (w : World) (a : Agent) : World := (w.after (.began a)).after (.said "system" a.greeting)

variable {P : Deed → Prop}

theorem Agent.Leads.through {a : Agent} {t : Act Unit} (h : a.Leads P t) (o : Outside)
    (w : World) : Through P (w.begun a) (t.runIn o w).2 := by
  obtain ⟨rest, rfl, hrest⟩ := h
  have hstart : a.start.runIn o w = (.ok (), w.begun a) := rfl
  rw [runIn_bind_ok hstart]
  exact hrest.through o (w.begun a)

theorem Agent.Leads.madeOf {a : Agent} {t : Act Unit} (h : a.Leads P t)
    (hs : P (.said "system" a.greeting)) : MadeOf (fun d => d = .began a ∨ P d) t := by
  obtain ⟨rest, rfl, hrest⟩ := h
  refine .bind (.bind (.perform (.began a) (.inl rfl)) fun _ => .say (.inr hs)) fun _ => ?_
  exact hrest.mono fun d => .inr

namespace Planner

theorem assistedFindings_madeOf (kind : MigrationKind) (file content : String) :
    MadeOf Deed.OfPlanner (assistedFindings kind file content) := by
  refine .bind (.attempt (.ask trivial fun _ => trivial)) fun r => ?_
  cases r with
  | error f | ok answer => exact .pure _

theorem findings_madeOf (assisted : Bool) (kind : MigrationKind) (file content : String) :
    MadeOf Deed.OfPlanner (findings assisted kind file content) :=
  .ite (.bind (assistedFindings_madeOf kind file content) fun _ => .pure _) (.pure _)

theorem planFile_madeOf (assisted : Bool) (kind : MigrationKind) (file : FilePath) :
    MadeOf Deed.OfPlanner (planFile assisted kind file) := by
  refine .look (fun _ _ => rfl) fun w => ?_
  cases w.disk.readText file with
  | error f => exact .bind (.addError trivial) fun _ => .pure _
  | ok content =>
    refine .bind (findings_madeOf assisted kind file.toString content) fun found => ?_
    cases found.failure with
    | none => exact .pure _
    | some f => exact .bind (.addError trivial) fun _ => .pure _

theorem run_leads (assisted : Bool) : Agent.planner.Leads Deed.OfPlanner (run assisted) := by
  refine ⟨_, rfl, .look (fun _ _ => rfl) fun w => .bind (.mapM (planFile_madeOf assisted _) _) fun found => ?_⟩
  exact .bind (.perform (.found found.flatten) trivial) fun _ => .say trivial

end Planner

namespace Docs.Client

theorem request_madeOf (c : Client) (path : String) (params : Params) (sent : Option Json.Value) :
    MadeOf Deed.OfContext (c.request path params sent) := by
  refine .ite ?_ (.pure none)
  dsimp only
  split
  · exact .pure none
  · refine .bind (.observe trivial fun _ _ _ _ => rfl) fun reply => ?_
    cases reply with
    | unreachable => exact .pure none
    | fixed status body => exact .pure _
    | library => exact .ite (.pure none) (.look (fun _ _ => rfl) fun w => .pure _)

theorem member_madeOf (c : Client) (path : String) (params : Params) (key : String) (default : Json.Value) :
    MadeOf Deed.OfContext (c.member path params key default) := by
  refine .bind (c.request_madeOf path params none) fun answer => ?_
  split <;> exact .pure _

theorem guide_madeOf (c : Client) (source target : Json.Value) : MadeOf Deed.OfContext (c.guide source target) :=
  .bind (c.request_madeOf _ _ none) fun _ => .pure _

end Docs.Client

namespace Coder

theorem fetchContext_madeOf (client : Docs.Client) (kind : MigrationKind) :
    MadeOf Deed.OfContext (fetchContext client kind) := by
  refine .bind (client.member_madeOf _ _ _ _) fun style => .bind (client.guide_madeOf _ _) fun guide => ?_
  rcases addGuide (addStyle {} style) guide with ⟨c, _ | f⟩
  · exact .pure c
  · exact .bind (.record trivial) fun _ => .pure c

theorem loadContext_madeOf (client : Docs.Client) : MadeOf Deed.OfContext (loadContext client) := by
  refine .look (fun _ _ => rfl) fun w => .ite (.outside (fun _ _ _ => rfl) fun o => .ite (.say trivial) ?_) (.pure ())
  refine .bind (fetchContext_madeOf client _) fun c => ?_
  exact .bind (.perform (.styled c.text) trivial) fun _ => .ite (.say trivial) (.pure ())

theorem readTexts_madeOf (h : ∀ text, P (.erred text)) (files : List String) : MadeOf P (readTexts files) := by
  refine .foldlM (fun texts file => .ite (.pure texts) (.look (fun _ _ => rfl) fun w => ?_)) files []
  cases w.disk.readText (.ofString file) with
  | error f => exact .bind (.addError (h _)) fun _ => .pure texts
  | ok text => exact .pure _

/-- Changes are made without a note in the migration. -/
theorem fixes_madeOf (ha : ∀ prompt, P (.event (.asked prompt))) (hd : ∀ d, P (.disk d))
    (assisted : Bool) (kind : MigrationKind) (styleGuide : String) (texts : Texts) (fs : List Finding) :
    MadeOf P (fixes assisted kind styleGuide texts fs) := by
  have hfix (f : Finding) (content : String) : MadeOf P (fix assisted kind styleGuide f content) :=
    .ite (.bind (.ask (ha _) hd) fun _ => .pure _) (.result _)
  refine .foldlM (fun done f => ?_) fs []
  rw [addFix]
  cases texts.lookup f.place.file with
  | none => exact .pure done
  | some content => exact .bind (hfix f content) fun _ => .pure _

theorem writeText_madeOf (changes : List Change) (file text : String) :
    MadeOf Deed.OfCoder (writeText changes file text) := by
  refine .bind (.writeFile (fun _ => trivial) file _) fun r => ?_
  cases r with
  | none => exact .perform (.applied (changes.filter fun c => c.file == file && c.applied)) trivial
  | some f => exact .addError trivial

theorem run_leads (assisted : Bool) (client : Docs.Client) : Agent.coder.Leads Deed.OfCoder (run assisted client) := by
  refine ⟨_, rfl, .look (fun _ _ => rfl) fun w => .ite (.say trivial) ?_⟩
  refine .bind ((loadContext_madeOf client).mono fun _ => Deed.OfContext.ofCoder) fun _ => ?_
  refine .bind (readTexts_madeOf (fun _ => trivial) _) fun texts => ?_
  refine .look (fun _ _ => rfl) fun w' => ?_
  refine .bind (fixes_madeOf (fun _ => trivial) (fun _ => trivial) assisted _ _ texts _) fun changes => ?_
  refine .bind (.perform (.changed (markApplied changes texts)) trivial) fun _ => ?_
  refine .bind (.forIn (fun ⟨file, text⟩ _ => ?_) _ _) fun _ => .look (fun _ _ => rfl) fun _ => .say trivial
  exact .bind (writeText_madeOf _ file text) fun _ => .pure _

end Coder

namespace Tester

theorem test_madeOf (assisted : Bool) (c : Change) (content : String) :
    MadeOf Deed.OfTester (test assisted c content) :=
  .ite (.bind (.ask trivial fun _ => trivial) fun _ => .pure _) (.pure _)

theorem runTest_madeOf (h : ∀ command limit dir, P (.event (.tested command limit dir)))
    (s : Setup) (name repo : String) : MadeOf P (runTest s name repo) := by
  refine .bind (.observe ?_ fun _ _ _ _ => rfl) fun r => ?_
  · split <;> exact h ..
  · cases r <;> exact .pure _

theorem forTests_madeOf {α : Type} (assisted : Bool) (texts : Texts) (changes : List Change)
    (f : Change → String → Act α) (ht : ∀ c content, MadeOf P (test assisted c content))
    (hf : ∀ c code, MadeOf P (f c code)) : MadeOf P (forTests assisted texts changes f) := by
  refine .foldlM (fun done c => ?_) changes []
  cases texts.lookup c.file with
  | none => exact .pure done
  | some content => exact .bind (ht c content) fun code => .bind (hf c code) fun _ => .pure _

theorem run_leads (s : Setup) : Agent.tester.Leads Deed.OfTester (run s) := by
  refine ⟨_, rfl, .look (fun _ _ => rfl) fun w => .ite (.bind (.say trivial) fun _ => .perform .passed trivial) ?_⟩
  refine .bind (Coder.readTexts_madeOf (fun _ => trivial) _) fun texts => ?_
  refine .bind (forTests_madeOf _ texts _ _ (test_madeOf _) fun c _ => runTest_madeOf (fun _ _ _ => trivial) s _ _)
    fun reports => ?_
  exact .bind (.perform (.judged reports) trivial) fun _ => .say trivial

end Tester

end CodeMigration
