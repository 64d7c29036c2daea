import CodeMigration.Proofs.EchoedFixes
import CodeMigration.Proofs.KeptFiles

/-! # Runs of the coder as a whole

All changes are at hand before the first file is written, and nothing that is done from then on can break the run off.
So a run that fails has left every file alone, and its migration holds the findings and changes that it held before.
Without the assistant no change depends on what the documentation says: two runs of the coder on the same migration
and files, with any two servers of documentation, come to the same end. -/

namespace CodeMigration

open Act

namespace Coder

/-- Why a finding in a text has no fix: the assistant reports a failure when it is asked for one, or, without the
assistant, the text cannot be transformed. -/
def FixFails (o : Outside) (assisted : Bool) (kind : MigrationKind) (f : Finding) (content : String)
    (failure : Failure) : Prop :=
  if assisted then
    ∃ log style text, o.reply (log ++ [.asked (Assistant.fixPrompt kind style f content)]) = .failure text ∧
      failure = .reported text
  else transform kind content = .error failure

section
variable {o : Outside} {kind : MigrationKind} {texts : Texts}

theorem ask_of_quiet (hquiet : o.IsQuiet) (prompt : Assistant.Prompt) (w : World) :
    ∃ r, (ask prompt).runIn o w = (r, w.after (.event (.asked prompt))) ∧
      ∀ failure, r = .error failure →
        ∃ text, o.reply (w.log ++ [.asked prompt]) = .failure text ∧ failure = .reported text := by
  rw [ask, runIn_bind_ok (runIn_observe o w _ _)]
  cases hreply : o.reply (w.log ++ [.asked prompt]) with
  | answer text =>
    refine ⟨.ok text, rfl, fun failure hfailure => ?_⟩
    cases hfailure
  | failure text =>
    refine ⟨.error (.reported text), rfl, fun failure hfailure => ?_⟩
    exact ⟨text, rfl, (Except.error.inj hfailure).symm⟩
  | removal dir text => exact absurd hreply (hquiet _ dir text)

def fixBy (content : String) (t : Transformed) (f : Finding) : Change :=
  if isWholeFile f then wholeFileFix f content t else linesFix f t

theorem treeFix_eq_map (f : Finding) (content : String) :
    treeFix kind f content = (transform kind content).map (fixBy content · f) := by
  rw [treeFix]
  cases transform kind content <;> rfl

theorem transform_of_treeFix_error {f : Finding} {content : String} {failure : Failure}
    (h : treeFix kind f content = .error failure) : transform kind content = .error failure := by
  rw [treeFix_eq_map] at h
  cases ht : transform kind content with
  | error e =>
    rw [ht] at h
    have he : e = failure := Except.error.inj h
    rw [he]
  | ok t =>
    rw [ht] at h
    cases h

/-- With an assistant that only answers, a fix leaves nothing behind but what was asked. -/
theorem fix_of_quiet (hquiet : o.IsQuiet) (assisted : Bool) (style : String) (f : Finding) (content : String)
    (w : World) :
    ∃ r log, (fix assisted kind style f content).runIn o w = (r, { w with log }) ∧
      ∀ failure, r = .error failure → FixFails o assisted kind f content failure := by
  cases assisted with
  | false =>
    refine ⟨treeFix kind f content, w.log, rfl, fun failure hfailure => ?_⟩
    exact transform_of_treeFix_error hfailure
  | true =>
    have hfix : fix true kind style f content = assistedFix kind style f content := rfl
    obtain ⟨r, hask, hfails⟩ := ask_of_quiet hquiet (Assistant.fixPrompt kind style f content) w
    rw [hfix, assistedFix]
    cases r with
    | error e =>
      refine ⟨.error e, _, runIn_bind_error hask _, fun failure hfailure => ?_⟩
      obtain ⟨text, hreply, htext⟩ := hfails e rfl
      exact ⟨w.log, style, text, hreply, (Except.error.inj hfailure).symm.trans htext⟩
    | ok answer =>
      refine ⟨.ok _, _, runIn_bind_ok hask _, fun failure hfailure => ?_⟩
      cases hfailure

/-- The same for all fixes: they leave nothing behind but what was asked, and if they fail then so does that of a
finding whose file has a text. -/
theorem fixes_of_quiet (hquiet : o.IsQuiet) (assisted : Bool) (style : String) (fs : List Finding) (w : World) :
    ∃ r log, (fixes assisted kind style texts fs).runIn o w = (r, { w with log }) ∧
      ∀ failure, r = .error failure → ∃ f ∈ fs, ∃ content, texts.lookup f.place.file = some content ∧
        FixFails o assisted kind f content failure := by
  induction fs generalizing w with
  | nil =>
    refine ⟨.ok [], w.log, rfl, fun failure hfailure => ?_⟩
    cases hfailure
  | cons f fs ih =>
    have hlater {failure : Failure} (h : ∃ g ∈ fs, ∃ content, texts.lookup g.place.file = some content ∧
        FixFails o assisted kind g content failure) : ∃ g ∈ f :: fs, ∃ content,
          texts.lookup g.place.file = some content ∧ FixFails o assisted kind g content failure := by
      obtain ⟨g, hg, hfails⟩ := h
      exact ⟨g, List.mem_cons_of_mem _ hg, hfails⟩
    cases hlookup : texts.lookup f.place.file with
    | none =>
      obtain ⟨r, log, hrest, hfails⟩ := ih w
      rw [fixes_cons_none hlookup]
      exact ⟨r, log, hrest, fun failure hfailure => hlater (hfails failure hfailure)⟩
    | some content =>
      obtain ⟨r, log, hfix, hfails⟩ := @fix_of_quiet o kind hquiet assisted style f content w
      rw [fixes_cons_some hlookup]
      cases r with
      | error e =>
        rw [runIn_bind_error hfix]
        exact ⟨_, log, rfl, fun failure hfailure => ⟨f, List.mem_cons_self, content, hlookup,
          hfails failure (congrArg _ (Except.error.inj hfailure))⟩⟩
      | ok c =>
        obtain ⟨r, log', hrest, hfails⟩ := ih { w with log }
        rw [runIn_bind_ok hfix, runIn_map, hrest]
        refine ⟨_, log', rfl, fun failure hfailure => hlater (hfails failure ?_)⟩
        cases r with
        | error e => exact hfailure
        | ok cs => cases hfailure

end

/-- With an assistant that touches no file, a run of the coder that fails has changed no file, and the migration holds
the findings, the changes and the applied changes that it held before. What failed is the fix of a finding in a file
that could be read. -/
theorem run_error_leaves_all {o : Outside} (hquiet : o.IsQuiet) {assisted : Bool} {client : Docs.Client}
    {w w' : World} {failure : Failure} (hrun : (run assisted client).runIn o w = (.error failure, w')) :
    w'.disk = w.disk ∧ w'.state.changes = w.state.changes ∧ w'.state.applied = w.state.applied ∧
      w'.state.findings = w.state.findings ∧
      ∃ f ∈ w.state.findings, ∃ content, w.disk.readText (.ofString f.place.file) = .ok content ∧
        FixFails o assisted w.state.kind f content failure := by
  by_cases hfound : w.state.findings = []
  · rw [run_of_no_findings assisted client o hfound] at hrun
    cases hrun
  · obtain ⟨w₁, hload, hdisk, hwork⟩ := loadContext_runIn client o (w.begun .coder)
    replace hdisk : w₁.disk = w.disk := hdisk
    have hkind : w₁.state.kind = w.state.kind := (congrArg Migration.kind hwork :)
    -- Up to the fixes nothing is written, and the fixes write nothing either.
    obtain ⟨r, log, hfixes, hfails⟩ := @fixes_of_quiet o w₁.state.kind
      (textsOn w₁.disk (w.state.findings.map (·.place.file))) hquiet assisted w₁.state.styleGuide
      w.state.findings (w₁.noting ((w.state.findings.map (·.place.file)).filterMap (readNote? w₁.disk)))
    cases r with
    | ok changes =>
      obtain ⟨said, hok⟩ := run_of_fixes hfound hload rfl hfixes
      rw [hok] at hrun
      cases hrun
    | error e =>
      rw [run_of_failed_fixes hfound hload rfl hfixes, World.noting_eq] at hrun
      cases hrun
      refine ⟨hdisk, (congrArg Migration.changes hwork :), (congrArg Migration.applied hwork :),
        (congrArg Migration.findings hwork :), ?_⟩
      obtain ⟨f, hf, content, hlookup, hfail⟩ := hfails failure rfl
      rw [lookup_textsOn, if_pos (List.mem_map_of_mem hf), hdisk] at hlookup
      exact ⟨f, hf, content, eq_ok_of_toOption hlookup, hkind ▸ hfail⟩

def twoCalls : World where
  disk := { here := .dir [("a.py", .file (Text.encode "xrange(1)\n")), ("b.py", .file (Text.encode "xrange(2)\n"))] }
  state :=
    { repoUrl := ""
      findings := ["a.py", "b.py"].map fun file =>
        { id := "ast_1", kind := "xrange_usage", description := "", place := ⟨file, 1, 1, 0, 9⟩, code := "xrange" } }

/-- An assistant that answers once and then reports that it is out of reach. -/
def answersOnce : Outside where
  reply log := if log.length ≤ 1 then .answer "range(1)" else .failure "out of reach"

theorem isQuiet_answersOnce : answersOnce.IsQuiet := by
  intro log dir text h
  simp only [answersOnce] at h
  split at h <;> cases h

theorem run_error_leaves_all_twoCalls :
    answersOnce.IsQuiet ∧ ∃ failure w', (run true ⟨"", false⟩).runIn answersOnce twoCalls = (.error failure, w') ∧
      w'.log.length = 2 ∧ w'.disk = twoCalls.disk ∧ w'.state.changes = [] ∧ w'.state.applied = [] ∧
      w'.state.findings = twoCalls.state.findings := by
  have hfails : ((run true ⟨"", false⟩).runIn answersOnce twoCalls).1.isOk = false := by decide +kernel
  have hasked : ((run true ⟨"", false⟩).runIn answersOnce twoCalls).2.log.length = 2 := by decide +kernel
  obtain ⟨failure, w', hrun⟩ := exists_runIn_error hfails
  obtain ⟨hdisk, hchanges, happlied, hfindings, -⟩ := run_error_leaves_all isQuiet_answersOnce hrun
  rw [hrun] at hasked
  exact ⟨isQuiet_answersOnce, failure, w', hrun, hasked, hdisk, hchanges, happlied, hfindings⟩

end Coder

/-- Two worlds with the same files, and with migrations that differ at most in what was said and in the style guide. -/
structure World.Alike (w v : World) : Prop where
  disk : w.disk = v.disk
  work : w.state.work = v.state.work

namespace World.Alike

variable {w v : World}

theorem symm (h : w.Alike v) : v.Alike w := ⟨h.disk.symm, h.work.symm⟩

theorem trans {u : World} (h : w.Alike v) (h' : v.Alike u) : w.Alike u :=
  ⟨h.disk.trans h'.disk, h.work.trans h'.work⟩

variable (h : w.Alike v)
include h

theorem kind : w.state.kind = v.state.kind := (congrArg Migration.kind h.work :)

theorem findings : w.state.findings = v.state.findings := (congrArg Migration.findings h.work :)

theorem after (d : Deed) : (w.after d).Alike (v.after d) := by
  have hmigration (w : World) : (w.after d).state = w.state.after d := by
    cases d <;> rfl
  have hwork (m : Migration) : (m.after d).work = (m.work.after d).work := by
    cases d <;> rfl
  refine ⟨?_, ?_⟩
  · cases d <;> first | rfl | exact h.disk
  · rw [hmigration, hmigration, hwork, h.work, ← hwork]

theorem said {role content : String} : (w.after (.said role content)).Alike v := ⟨h.disk, h.work⟩

theorem begun (a : Agent) : (w.begun a).Alike (v.begun a) := (h.after (.began a)).after (.said "system" a.greeting)

theorem noting (notes : List String) : (w.noting notes).Alike (v.noting notes) := by
  induction notes generalizing w v with
  | nil => exact h
  | cons note notes ih => exact ih (h.after (.erred note))

end World.Alike

namespace Coder

variable {w v : World}

theorem wroteTexts_alike (h : w.Alike v) (o : Outside) (changes : List Change) (texts : Texts) :
    (wroteTexts o changes texts w).Alike (wroteTexts o changes texts v) := by
  have hwork (applied : List Change) (errors : List String) :=
    congrArg (fun m : Migration => { m with applied := m.applied ++ applied, errors := m.errors ++ errors }) h.work
  rw [wroteTexts_eq, wroteTexts_eq, h.disk]
  exact ⟨rfl, hwork _ _⟩

/-- The world in which the coder has taken the migration up and has noted which files it cannot read. -/
def opened (w : World) : World :=
  (w.begun .coder).noting ((w.state.findings.map (·.place.file)).filterMap (readNote? w.disk))

theorem opened_alike (h : w.Alike v) : (opened w).Alike (opened v) := by
  rw [opened, opened, h.disk, h.findings]
  exact (h.begun .coder).noting _

theorem closed_alike (h : w.Alike v) (o : Outside) (changes : List Change) (texts : Texts) :
    (closed o changes texts w).Alike (closed o changes texts v) := wroteTexts_alike (h.after _) o _ _

theorem closed_outside {o o' : Outside} (h : o'.writeFault = o.writeFault) : closed o' = closed o := by
  have hwrite : o'.write = o.write := by
    funext d file content
    rw [Outside.write, Outside.write, h]
  funext changes texts w
  rw [closed, closed, wroteTexts, wroteTexts]
  congr 1
  funext w e
  rw [wroteText, wroteText, hwrite]

/-- A run without the assistant where there are findings is told by the files and the migration alone, but for what
was said and the style guide. -/
theorem run_unassisted (hfound : w.state.findings ≠ []) (client : Docs.Client) (o : Outside) :
    (∀ failure, treeFixes w.state.kind (foundTexts w) w.state.findings = .error failure →
      ∃ w', (run false client).runIn o w = (.error failure, w') ∧ w'.Alike (opened w)) ∧
    ∀ changes, treeFixes w.state.kind (foundTexts w) w.state.findings = .ok changes →
      ∃ w', (run false client).runIn o w = (.ok (), w') ∧ w'.Alike (closed o changes (foundTexts w) (opened w)) := by
  obtain ⟨w₁, hload, hdisk, hwork⟩ := loadContext_runIn client o (w.begun .coder)
  have hloaded : w₁.Alike (w.begun .coder) := ⟨hdisk, hwork⟩
  replace hdisk : w₁.disk = w.disk := hdisk
  have hkind : w₁.state.kind = w.state.kind := hloaded.kind
  have htexts : textsOn w₁.disk (w.state.findings.map (·.place.file)) = foundTexts w := by
    rw [hdisk, foundTexts]
  have hopened : (w₁.noting ((w.state.findings.map (·.place.file)).filterMap (readNote? w₁.disk))).Alike
      (opened w) := by
    rw [hdisk]
    exact hloaded.noting _
  have hfixes := runIn_fixes w₁.state.kind w₁.state.styleGuide (foundTexts w) w.state.findings o
    (w₁.noting ((w.state.findings.map (·.place.file)).filterMap (readNote? w₁.disk)))
  refine ⟨fun failure hfailure => ?_, fun changes hchanges => ?_⟩
  · rw [← hkind] at hfailure
    rw [hfailure] at hfixes
    exact ⟨_, run_of_failed_fixes hfound hload htexts hfixes, hopened⟩
  · rw [← hkind] at hchanges
    rw [hchanges] at hfixes
    obtain ⟨said, hrun⟩ := run_of_fixes hfound hload htexts hfixes
    exact ⟨_, hrun, (closed_alike hopened o changes (foundTexts w)).said⟩

/-- Without the assistant the coder does the same in worlds alike, whatever the documentation says in each of them. -/
theorem run_alike (h : w.Alike v) (client client' : Docs.Client) {o o' : Outside} (ho : o'.writeFault = o.writeFault) :
    ((run false client).runIn o w).1 = ((run false client').runIn o' v).1 ∧
      ((run false client).runIn o w).2.Alike ((run false client').runIn o' v).2 := by
  by_cases hfound : w.state.findings = []
  · rw [run_of_no_findings false client o hfound, run_of_no_findings false client' o' (h.findings ▸ hfound)]
    exact ⟨rfl, (h.begun .coder).after (.said "coder" _)⟩
  · obtain ⟨hfails, hruns⟩ := run_unassisted hfound client o
    obtain ⟨hfails', hruns'⟩ := run_unassisted (h.findings ▸ hfound) client' o'
    rw [closed_outside ho] at hruns'
    -- The fixes go by the texts, the findings and the kind of migration, which are the same in both.
    have htexts : foundTexts v = foundTexts w := by
      rw [foundTexts, foundTexts, h.disk, h.findings]
    rw [htexts, ← h.kind, ← h.findings] at hfails' hruns'
    cases hfixes : treeFixes w.state.kind (foundTexts w) w.state.findings with
    | error failure =>
      obtain ⟨w', hrun, hw'⟩ := hfails failure hfixes
      obtain ⟨v', hrun', hv'⟩ := hfails' failure hfixes
      rw [hrun, hrun']
      exact ⟨rfl, hw'.trans ((opened_alike h).trans hv'.symm)⟩
    | ok changes =>
      obtain ⟨w', hrun, hw'⟩ := hruns changes hfixes
      obtain ⟨v', hrun', hv'⟩ := hruns' changes hfixes
      rw [hrun, hrun']
      exact ⟨rfl, hw'.trans ((closed_alike (opened_alike h) o _ _).trans hv'.symm)⟩

/-- Without the assistant the coder does not go by the documentation. With any two clients and services outside that
keep the same files from being written, and any two libraries, it fails in both runs in the same way or in neither, and
behind both the files are the same, and so is the migration but for what was said and the style guide. -/
theorem run_ignores_documentation (w : World) (library : Docs.Library) (client client' : Docs.Client) (o o' : Outside) :
    let other := (run false client').runIn { o' with writeFault := o.writeFault } { w with library }
    ((run false client).runIn o w).1 = other.1 ∧ ((run false client).runIn o w).2.disk = other.2.disk ∧
      ((run false client).runIn o w).2.state.work = other.2.state.work := by
  have halike : w.Alike { w with library } := ⟨rfl, rfl⟩
  obtain ⟨hresult, hdisk, hwork⟩ :=
    @run_alike w { w with library } halike client client' o { o' with writeFault := o.writeFault } rfl
  exact ⟨hresult, hdisk, hwork⟩

end Coder

end CodeMigration
