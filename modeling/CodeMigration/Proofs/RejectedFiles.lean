import CodeMigration.Proofs.FileByFile

/-! # Files that are no modules

A text that cannot be read as a module is one finding for the planner. The coder transforms it as a whole, and puts
what comes out in the place of all its lines. So the file holds exactly the transformed text in the end, which is the
way of every file in an old dialect. A file beside it can spoil this: if something was found there, and its text cannot
be transformed, the run breaks off and nothing is written. -/

namespace CodeMigration

open Act

/-- That a text was read in vain, for a reason on one of its lines or on none. -/
def FailsWithin (content : String) : Except Source.Fault Source.Module → Prop
  | .error fault => ∀ n ∈ fault.line, 1 ≤ n ∧ n ≤ (Text.lines content).length
  | .ok _ => False

instance (content : String) : DecidablePred (FailsWithin content)
  | .error fault => inferInstanceAs (Decidable (∀ n ∈ fault.line, 1 ≤ n ∧ n ≤ (Text.lines content).length))
  | .ok _ => inferInstanceAs (Decidable False)

/-- A text without carriage returns that is no module. -/
def IsRejected (content : String) : Prop :=
  '\r' ∉ content.toList ∧ FailsWithin content (Source.Module.ofString content)

instance : DecidablePred IsRejected := fun _ => inferInstanceAs (Decidable (_ ∧ _))

theorem textOf_encode {content : String} (h : '\r' ∉ content.toList) : textOf (Text.encode content) = .ok content := by
  rw [textOf, Text.decode_encode]
  dsimp only
  rw [Text.unifyLineEnds_of_not_mem h, String.ofList_toList]

namespace IsRejected

variable {content : String} (h : IsRejected content)
include h

theorem exists_fault : ∃ fault, Source.Module.ofString content = .error fault ∧
    ∀ n ∈ fault.line, 1 ≤ n ∧ n ≤ (Text.lines content).length := by
  obtain ⟨-, hfails⟩ := h
  cases hread : Source.Module.ofString content with
  | ok m =>
    rw [hread] at hfails
    cases hfails
  | error fault =>
    rw [hread] at hfails
    exact ⟨fault, rfl, hfails⟩

theorem analyze_eq (kind : MigrationKind) : ∃ f, analyze kind content = .ok [f] ∧ f.kind = "syntax_error" := by
  obtain ⟨fault, hread, hline⟩ := h.exists_fault
  rw [analyze, hread]
  dsimp only
  rw [faultFinding]
  cases hn : fault.line with
  | none => exact ⟨_, rfl, rfl⟩
  | some n =>
    obtain ⟨hfirst, hlast⟩ := hline n hn
    have hget : (Text.lines content)[n - 1]? = some ((Text.lines content).get ⟨n - 1, by omega⟩) :=
      List.getElem?_eq_getElem _
    dsimp only
    rw [hget]
    exact ⟨_, rfl, rfl⟩

/-- The text can be transformed, and for the new web framework it stays as it is. -/
theorem transform_eq (kind : MigrationKind) :
    ∃ t, transform kind content = .ok t ∧ (kind = .flask → t.code = content) := by
  obtain ⟨fault, hread, -⟩ := h.exists_fault
  cases kind with
  | legacy =>
    rw [transform, Legacy.transform, hread]
    exact ⟨_, rfl, nofun⟩
  | flask =>
    rw [transform, Flask.transform, hread]
    exact ⟨_, rfl, fun _ => rfl⟩

end IsRejected

theorem patch_whole {c : Change} {text : String} (hfirst : c.startLine = 1)
    (hlast : c.endLine = (Text.lines text).length) : patch [c] text = c.after := by
  have hlines : c.applyTo (Text.lines text) = Text.lines c.after := by
    rw [Change.applyTo, hfirst, hlast, Text.upTo_eq_take (by omega), Text.fromOn_eq_drop (by omega)]
    simp
  rw [patch, lastFirst, List.mergeSort_singleton]
  exact (congrArg Text.unlines hlines).trans (Text.unlines_lines c.after)

section
variable {kind : MigrationKind} {content : String} {f : Finding} {t : Transformed}
  (hfound : analyze kind content = .ok [f]) (hkind : f.kind = "syntax_error") (ht : transform kind content = .ok t)
include hfound hkind ht

theorem Coder.ownChanges_whole :
    ownChanges kind (.ok content) = [{ wholeFileFix f content t with applied := true }] := by
  have hwhole : isWholeFile f = true := by
    rw [isWholeFile, hkind]
    rfl
  rw [ownChanges, Planner.foundIn, hfound]
  simp [fixIn?, ht, appliedFix, fixBy, hwhole, Except.toOption]

theorem Coder.bytesAfter_whole (hreturn : '\r' ∉ content.toList) :
    bytesAfter kind (Text.encode content) = Text.encode t.code := by
  have hpatch : patch [{ wholeFileFix f content t with applied := true }] content = t.code := patch_whole rfl rfl
  rw [bytesAfter, textOf_encode hreturn]
  dsimp only
  rw [Coder.ownChanges_whole hfound hkind ht, hpatch, Planner.foundIn, hfound]
  rfl

end

/-- A file that is no module is one finding for the planner. The coder behind it comes to an end exactly if every text
can be transformed in which something was found, and then, where no write fails, the file holds its transformed text
and nothing else, which for the new web framework is the text that it held. There is one change for it, from the first
line to the last, and it was applied. -/
theorem rejected_file_written_whole {w : World} (hlist : IsListing w.state.files) {p : FilePath}
    (hp : p ∈ w.state.files) {content : String} (hrejected : IsRejected content)
    (hbytes : w.disk.readBytes p = .ok (Text.encode content)) (client : Docs.Client) {o : Outside}
    (ho : o.WritesAll) :
    ∃ w₁ f t, (Planner.run false).runIn o w = (.ok (), w₁) ∧
      w₁.state.findingsIn p.toString = [f] ∧ f.kind = "syntax_error" ∧
      transform w.state.kind content = .ok t ∧ (w.state.kind = .flask → t.code = content) ∧
      ((∃ w₂, (Coder.run false client).runIn o w₁ = (.ok (), w₂)) ↔
        ∀ q ∈ w.state.files, ∀ text, w.disk.readText q = .ok text →
          Planner.foundIn w.state.kind (.ok text) ≠ [] → ∃ t, transform w.state.kind text = .ok t) ∧
      ∀ w₂, (Coder.run false client).runIn o w₁ = (.ok (), w₂) →
        w₂.disk.readBytes p = .ok (Text.encode t.code) ∧
        ∃ c, w₂.state.changesIn p.toString = [c] ∧ c.startLine = 1 ∧ c.endLine = (Text.lines content).length ∧
          c.before = content ∧ c.after = t.code ∧
          w₂.state.appliedIn p.toString = w.state.appliedIn p.toString ++ [c] := by
  obtain ⟨f, hfound, hkind⟩ := hrejected.analyze_eq w.state.kind
  obtain ⟨t, ht, hflask⟩ := hrejected.transform_eq w.state.kind
  have htext := textOf_encode hrejected.1
  obtain ⟨w₁, hplan, hplanned, hdisk, hfiles, hsame, -, happlied⟩ := Planner.run_isPlanned hlist o
  have hfindings := hplanned.findingsIn_eq (hfiles ▸ hp)
  rw [hsame, hdisk, Disk.readText_of_readBytes hbytes, htext, Planner.foundIn, hfound] at hfindings
  have hreturns := Coder.run_returns_iff hplanned client o
  rw [hfiles, hsame, hdisk] at hreturns
  refine ⟨w₁, f.inFile p.toString, t, hplan, hfindings, hkind, ht, hflask, hreturns, fun w₂ hrun => ?_⟩
  obtain ⟨hcontent, hfindings₂, hgains⟩ := Coder.run_treats ho hplanned hrun (hfiles ▸ hp) (hdisk ▸ hbytes)
  rw [hsame, Coder.bytesAfter_whole hfound hkind ht hrejected.1] at hcontent
  rw [hsame, htext, Coder.ownChanges_whole hfound hkind ht] at hgains
  have hne : w₂.state.findings ≠ [] := by
    intro hnone
    exact List.cons_ne_nil _ _ (hgains.unchanged hnone).2
  refine ⟨hcontent, _, hgains.changes hne, rfl, rfl, rfl, rfl, ?_⟩
  rw [hgains.applied, Migration.appliedIn, happlied]
  rfl

def oldPrint : String := "print \"x\"\n"

/-- A migration of two files, the first of them in the old dialect. -/
def besideOldPrint (text : String) : World where
  disk := { here := .dir [("a.py", .file (Text.encode oldPrint)), ("b.py", .file (Text.encode text))] }
  state := { repoUrl := "", files := ["a.py", "b.py"].map FilePath.ofString }

theorem isRejected_oldPrint : IsRejected oldPrint := by decide +kernel

theorem code_oldPrint : (transform .legacy oldPrint).toOption.map Transformed.code = some "print(\"x\")\n" := by
  decide +kernel

theorem isListing_besideOldPrint (text : String) : IsListing (besideOldPrint text).state.files :=
  isListing_ofStrings (by decide +kernel)

theorem rejected_file_written_whole_oldPrint :
    IsRejected oldPrint ∧ ∃ w₁ w₂ f c, (Planner.run false).runIn {} (besideOldPrint "xrange(3)\n") = (.ok (), w₁) ∧
      w₁.state.findingsIn "a.py" = [f] ∧ f.kind = "syntax_error" ∧
      (Coder.run false ⟨"", false⟩).runIn {} w₁ = (.ok (), w₂) ∧
      w₂.disk.readBytes (.ofString "a.py") = .ok (Text.encode "print(\"x\")\n") ∧
      w₂.state.changesIn "a.py" = [c] ∧ c.startLine = 1 ∧ c.endLine = 2 := by
  have hok : ((planAndCode ⟨"", false⟩).runIn {} (besideOldPrint "xrange(3)\n")).1.isOk = true := by decide +kernel
  have hbytes : (besideOldPrint "xrange(3)\n").disk.readBytes (.ofString "a.py") = .ok (Text.encode oldPrint) := by
    decide +kernel
  have hlines : (Text.lines oldPrint).length = 2 := by decide +kernel
  have hp : FilePath.ofString "a.py" ∈ (besideOldPrint "xrange(3)\n").state.files :=
    List.mem_map_of_mem (by decide)
  obtain ⟨w₁, f, t, hplan, hfindings, hkind, ht, -, -, hwritten⟩ :=
    rejected_file_written_whole (isListing_besideOldPrint _) hp isRejected_oldPrint hbytes ⟨"", false⟩
      (o := {}) (fun _ _ => rfl)
  obtain ⟨⟨⟩, w₂, hrun⟩ := exists_runIn_ok hok
  rw [planAndCode, runIn_bind_ok hplan] at hrun
  obtain ⟨hcontent, c, hchanges, hfirst, hlast, -⟩ := hwritten w₂ hrun
  have htransform : transform .legacy oldPrint = .ok t := ht
  have hcode := code_oldPrint
  rw [htransform] at hcode
  rw [Option.some.inj hcode] at hcontent
  rw [toString_ofString_a] at hfindings hchanges
  exact ⟨isRejected_oldPrint, w₁, w₂, f, c, hplan, hfindings, hkind, hrun, hcontent, hchanges, hfirst,
    hlast.trans (congrArg _ hlines)⟩

/-- A call with an escape character inside a formatted string, where it can be printed neither as it is nor with a
backslash. -/
def unprintableCall : String := "xrange(f\"\x7b'\x1b'\x7d\")\n"

/-- The file beside it cannot be transformed, and so the file in the old dialect is left as it was. -/
theorem oldPrint_left_beside_unprintableCall :
    IsRejected oldPrint ∧ ∃ w₁ w₂ failure,
      (Planner.run false).runIn {} (besideOldPrint unprintableCall) = (.ok (), w₁) ∧
      (Coder.run false ⟨"", false⟩).runIn {} w₁ = (.error failure, w₂) ∧
      w₂.disk.readText (.ofString "a.py") = .ok oldPrint ∧
      (transform .legacy oldPrint).toOption.map Transformed.code = some "print(\"x\")\n" := by
  have hfails : ((planAndCode ⟨"", false⟩).runIn {} (besideOldPrint unprintableCall)).1.isOk = false := by
    decide +kernel
  have htext : (((planAndCode ⟨"", false⟩).runIn {} (besideOldPrint unprintableCall)).2.disk.readText
      (.ofString "a.py")).toOption = some oldPrint := by
    decide +kernel
  obtain ⟨w₁, hplan, -⟩ := Planner.run_unassisted {} (besideOldPrint unprintableCall)
  obtain ⟨failure, w₂, hrun⟩ := exists_runIn_error hfails
  rw [hrun] at htext
  rw [planAndCode, runIn_bind_ok hplan] at hrun
  exact ⟨isRejected_oldPrint, w₁, w₂, failure, hplan, hrun, eq_ok_of_toOption htext, code_oldPrint⟩

end CodeMigration
