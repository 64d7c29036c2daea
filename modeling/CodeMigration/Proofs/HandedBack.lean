import CodeMigration.Proofs.WorkflowVerdict

/-! # What an engine hands back

Behind the last node the engine hands the migration back, as it is or as a list of its fields. No node goes by the
engine, so up to there a run is the same in both forms. From the fields the migration is made anew. One field is not
asked for although a run may have set it: the style guide. -/

namespace CodeMigration

open Act

namespace Workflow

theorem leave_keeps {γ : Type} {n : Node} {o : Outside} {a s : World} {next : Option Node}
    (edge : n.leave.runIn o a = (.ok next, s)) (f : World → γ)
    (hf : ∀ role content w, f (w.after (.said role content)) = f w) : f s = f a := by
  rw [leave_runIn] at edge
  obtain ⟨-, rfl⟩ := Prod.mk.inj edge
  split
  · unfold decided
    split
    · exact hf _ _ a
    · rfl
  · rfl

theorem Walk.keeps {γ : Type} {c : Crew} {o : Outside} {n : Node} {w w' : World} {vs : List Visit}
    {r : Except Failure Unit} (h : Walk c o n w vs r w') (f : World → γ)
    (hf : ∀ {n : Node} {w a : World} {r : Except Failure Unit}, (n.enter c).runIn o w = (r, a) → f a = f w)
    (hsaid : ∀ role content w, f (w.after (.said role content)) = f w) : f w' = f w := by
  induction h with
  | raised run => exact hf run
  | ended run edge => exact (leave_keeps edge f hsaid).trans (hf run)
  | moved run edge rest ih => exact ih.trans ((leave_keeps edge f hsaid).trans (hf run))

theorem runGraph_maxIterations (c : Crew) (o : Outside) (w : World) :
    ((runGraph c).runIn o w).2.state.maxIterations = w.state.maxIterations := by
  obtain ⟨vs, hvs⟩ := runGraph_walk c o w
  exact hvs.keeps (·.state.maxIterations) (fun run => (pace_le_of_enter run).2) fun _ _ _ => rfl

end Workflow

/-- A migration without its style guide. -/
def Migration.unstyled (m : Migration) : Migration := { m with styleGuide := "" }

def Outcome.unstyled (r : Outcome) : Outcome := { r with state := r.state.unstyled }

/-- The outside with an engine that hands back a migration as it is, or as fields without some of them. -/
def Outside.handing (o : Outside) (missing : Option (List String)) : Outside :=
  o.withEngine { o.engine with missing }

namespace Workflow

/-- Of the fields that are not asked for one is never changed in a run. The other is the style guide. -/
theorem returned_fields (e : Engine) {m : Migration} (h : m.maxIterations = 3) :
    returned { e with missing := some [] } m = (returned { e with missing := none } m).unstyled := by
  obtain ⟨⟩ := m
  cases h
  unfold returned
  cases e.messages <;> rfl

/-- What a run comes to behind the last node. -/
def close : Act Outcome := do
  handBack
  return outcome (← get).state

theorem close_runIn (o : Outside) (g : World) : (close.runIn o g).1 =
    o.engine.fault.elim (.ok (outcome (returned o.engine g.state))) fun text => .error (.reported text) := by
  rw [close, handBack, bind_assoc, runIn_bind_ok (runIn_read o g)]
  dsimp only
  cases o.engine.fault <;> rfl

/-- However a migration is handed back, the run fails in the same way, or it tells of the same migration. -/
theorem run_handing (c : Crew) (o : Outside) (w : World) (repoUrl kindName : String) :
    (∃ f, ∀ missing, ((run c repoUrl kindName).runIn (o.handing missing) w).1 = .error f) ∨
    ∃ kind g, (runGraph c).runIn o (w.after (.replaced { repoUrl, kind })) = (.ok (), g) ∧ ∀ missing,
      ((run c repoUrl kindName).runIn (o.handing missing) w).1 =
        .ok (outcome (returned { o.engine with missing } g.state)) := by
  cases hkind : MigrationKind.ofName kindName with
  | error f =>
    refine .inl ⟨f, fun missing => ?_⟩
    rw [run, hkind]
    rfl
  | ok kind =>
    have hrun (missing : Option (List String)) : (run c repoUrl kindName).runIn (o.handing missing) w =
        (runGraph c >>= fun _ => close).runIn (o.handing missing) (w.after (.replaced { repoUrl, kind })) := by
      rw [run, hkind]
      rfl
    have hgraph (missing : Option (List String)) :
        (runGraph c).runIn (o.handing missing) (w.after (.replaced { repoUrl, kind })) =
          (runGraph c).runIn o (w.after (.replaced { repoUrl, kind })) :=
      ((runGraph_madeOf c).runIn_elsewhere o (.inr fun r h => h r rfl) (h := id) (n := 0) (fun _ _ _ => rfl) _
        (Nat.zero_le _)).symm
    rcases hg : (runGraph c).runIn o (w.after (.replaced { repoUrl, kind })) with ⟨f | ⟨⟩, g⟩
    · refine .inl ⟨f, fun missing => ?_⟩
      rw [hrun, runIn_bind_error ((hgraph missing).trans hg)]
    · have hclose (missing : Option (List String)) := close_runIn (o.handing missing) g
      have hfault (missing : Option (List String)) : (o.handing missing).engine.fault = o.engine.fault := rfl
      simp only [hrun, runIn_bind_ok ((hgraph _).trans hg), hclose, hfault]
      cases o.engine.fault with
      | some text => exact .inl ⟨.reported text, fun _ => rfl⟩
      | none => exact .inr ⟨kind, g, hg, fun _ => rfl⟩

theorem unstyled_eq_self_iff (r : Outcome) : r.unstyled = r ↔ r.state.styleGuide = "" := by
  constructor
  · intro h
    exact (congrArg (·.state.styleGuide) h).symm
  · intro h
    obtain ⟨_, ⟨⟩⟩ := r
    cases h
    rfl

/-- A migration that is handed back as fields has lost its style guide, and nothing else. -/
theorem fields_lose_style_guide_only (c : Crew) (o : Outside) (w : World) (repoUrl kindName : String) :
    let whole := (run c repoUrl kindName).runIn (o.handing none) w
    let fields := (run c repoUrl kindName).runIn (o.handing (some [])) w
    fields.1 = whole.1.map Outcome.unstyled ∧
      (fields.1 = whole.1 ↔ ∀ r, whole.1 = .ok r → r.state.styleGuide = "") := by
  dsimp only
  obtain ⟨f, hfails⟩ | ⟨kind, g, hgraph, hruns⟩ := run_handing c o w repoUrl kindName
  · rw [hfails, hfails]
    refine ⟨rfl, iff_of_true rfl fun r hr => ?_⟩
    cases hr
  · have hmax := runGraph_maxIterations c o (w.after (.replaced { repoUrl, kind }))
    rw [hgraph] at hmax
    have hunstyled : outcome (returned { o.engine with missing := some [] } g.state) =
        (outcome (returned { o.engine with missing := none } g.state)).unstyled := by
      rw [returned_fields o.engine hmax]
      rfl
    rw [hruns, hruns, hunstyled]
    refine ⟨rfl, ?_⟩
    rw [Except.ok.injEq, unstyled_eq_self_iff]
    constructor
    · rintro hstyle r hr
      cases hr
      exact hstyle
    · exact fun hall => hall _ rfl

def studiousCrew : Crew := ⟨{ docsEnabled := true }, false, false, false⟩

/-- A repository with an old call in its only file, and a server that knows how to write. -/
def documentedOutside : Outside where
  clonedFiles _ := [(.ofString "a.py", Text.encode "xrange(3)\n")]
  docs _ := .fixed 200 (Text.encode "\x7b\"content\": \"Use spaces.\"\x7d")

/-- The style guide of a run that tells of one, by how the migration is handed back. -/
theorem style_guide_lost_in_fields :
    ((run studiousCrew "https://github.com/o/r" "py2to3").runIn (documentedOutside.handing none) {}).1.toOption.map
      (·.state.styleGuide) = some "## Company Style Guide\nUse spaces." ∧
    ((run studiousCrew "https://github.com/o/r" "py2to3").runIn (documentedOutside.handing (some [])) {}).1.toOption.map
      (·.state.styleGuide) = some "" := by
  constructor <;> decide +kernel

end Workflow

end CodeMigration
