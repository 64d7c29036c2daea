import CodeMigration.Proofs.Places.Targets
import CodeMigration.Source.Reader

/-! # Statements within the lines of a text

With statements all constructs are known to keep to the lines, so the knot of the grammar is tied for them too:
every node of a module that is read from a text has its place among the lines of the text, and no import of names in it
is without names. -/

namespace CodeMigration.Source.Grammar

variable {n : Nat} {go : Go} (hgo : go.Reads n)

section

theorem augmentedOp_reads : ReadsAny n true augmentedOp := by
  refine fun _ => .firstOf fun p hp => ?_
  obtain ⟨⟨s, op⟩, _, rfl⟩ := List.mem_map.1 hp
  exact .cross .sym <| .pure trivial

theorem names_reads : ReadsAny n true names := fun _ =>
  .pass (.sepBy1 nameToken_reads .sym) fun _ _ => .pure trivial

theorem dottedName_reads : ReadsAny n true dottedName := fun _ =>
  .pass (.sepBy1 nameToken_reads .sym) fun _ _ => .pure trivial

theorem aliasOf_reads : ReadsAny n false aliasOf := by
  have hname : ReadsAny n true (do let _ ← Parse.word .as_; let t ← nameToken; pure (Token.ident t)) :=
    fun _ => .cross .word <| .next nameToken_reads fun _ _ => .pure trivial
  exact hname.opt.imp fun _ _ => trivial

theorem importName_reads : ReadsStmt n importName := by
  have halias : ReadsAny n true (do let n ← dottedName; let a ← aliasOf; pure (Alias.mk n a)) := fun _ =>
    .pass dottedName_reads fun _ _ => .next aliasOf_reads fun _ _ => .pure trivial
  exact .spanned fun _ => .cross .word <| .next (.sepBy1 halias .sym) fun _ _ =>
    .stmt fun _ hs => hs

theorem importAsNames_reads : Reads n true (· ≠ []) importAsNames := by
  have halias : ReadsAny n true
      (do let t ← nameToken; let a ← aliasOf; pure (Alias.mk (Token.ident t) a)) := fun _ =>
    .pass nameToken_reads fun _ _ => .next aliasOf_reads fun _ _ => .pure trivial
  exact halias.sepBy1_ne_nil .sym

theorem importTargets_reads : Reads n true (· ≠ []) importTargets := fun _ =>
  .alt (.cross .sym <| .next importAsNames_reads fun _ hnames => .skip (.opt .sym) <|
    .skip .sym <| .pure hnames) <|
  .alt (.pass importAsNames_reads fun _ hnames => .skip (.notAhead .sym) <| .pure hnames) <|
  .alt (.cross .sym <| .pure (List.cons_ne_nil _ _)) <| .alt .explaining .miss

theorem dots_reads : ReadsAny n true dots := fun _ =>
  .or (.cross .sym <| .pure trivial) (.cross .sym <| .pure trivial)

theorem importFrom_reads : ReadsStmt n importFrom :=
  .or (.spanned fun _ => .cross .word <| .next (.many dots_reads) fun _ _ =>
      .next dottedName_reads fun _ _ => .skip .word <| .next importTargets_reads fun _ hnames =>
      .pure fun _ hs => ⟨Stmt.within_iff.2 hs, hnames⟩)
    (.spanned fun _ => .cross .word <| .next (.many1 dots_reads) fun _ _ => .skip .word <|
      .next importTargets_reads fun _ hnames => .pure fun _ hs => ⟨Stmt.within_iff.2 hs, hnames⟩)

theorem wordStmt_reads {w : Word} {make : Span → Stmt} (h : ∀ s, s.Within n → (make s).PartsWithin n)
    (hcomplete : ∀ s, (make s).Complete := by exact fun _ => trivial) : ReadsStmt n (wordStmt w make) := fun _ =>
  .pass .word fun _ ht => .pure ⟨Stmt.within_iff.2 (h _ ht.within), hcomplete _⟩

theorem namesStmt_reads {w : Word} {make : Span → List String → Stmt}
    (h : ∀ s ns, s.Within n → (make s ns).PartsWithin n)
    (hcomplete : ∀ s ns, (make s ns).Complete := by exact fun _ _ => trivial) : ReadsStmt n (namesStmt w make) :=
  .spanned fun _ => .cross .word <| .next names_reads fun _ _ => .stmt (fun s hs => h s _ hs) fun s => hcomplete s _

include hgo

theorem assigned_reads : ReadsExpr n (assigned go) :=
  .or (hgo .yieldExpr) (hgo .starExpressions)

theorem hintValue_reads : Reads n false (fun e => ∀ e' ∈ e, e'.Within n) (hintValue go) :=
  .opt (.behind .sym (assigned_reads hgo))

theorem assignment_reads : ReadsStmt n (assignment go) := by
  have htarget : ReadsExpr n (do let t ← go .starTargets; let _ ← Parse.sym .equal; pure t) :=
    fun _ => .pass (hgo .starTargets) fun _ ht => .skip .sym <| .pure ht
  have haugmented : Reads n true (fun r => r.1.Within n)
      (do let t ← go .singleTarget; let op ← augmentedOp; pure (t, op)) := fun _ =>
    .pass (hgo .singleTarget) fun _ ht => .next augmentedOp_reads fun _ _ => .pure ht
  refine fun _ => .one (.spanned fun _ => ?_) <| .one (.spanned fun _ => ?_) <|
    .one (.spanned fun _ => ?_) <| .alt ?_ .miss
  · exact .pass nameExpr_reads fun _ ht => .skip .sym <| .next (hgo .expression) fun _ ha =>
      .next (hintValue_reads hgo) fun _ hv => .stmt fun _ hs => ⟨hs, ht, ha, hv⟩
  · exact .pass (.or (.between (hgo .singleTarget)) (hgo .singleSubscript)) fun _ ht => .skip .sym <|
      .next (hgo .expression) fun _ ha => .next (hintValue_reads hgo) fun _ hv => .stmt fun _ hs => ⟨hs, ht, ha, hv⟩
  · exact .pass htarget.many1 fun _ hts => .next (assigned_reads hgo) fun _ hv => .skip (.notAhead .sym) <|
      .stmt fun _ hs => ⟨hs, hts, hv⟩
  · refine .ofPast (.peek fun _ _ hstart => .ifFits haugmented (fun (_, _) ht => ?_) .explaining)
    exact .pass (assigned_reads hgo) fun _ hv => .spanFrom hstart fun _ hs =>
      .pure ⟨Stmt.within_iff.2 ⟨hs, ht, hv⟩, trivial⟩

theorem returnStmt_reads : ReadsStmt n (returnStmt go) :=
  .spanned fun _ => .cross .word <| .next (.opt (hgo .starExpressions)) fun _ he =>
    .stmt fun _ hs => ⟨hs, he⟩

theorem raiseStmt_reads : ReadsStmt n (raiseStmt go) := by
  refine .or (.spanned fun _ => ?_) (.spanned fun _ => ?_)
  · exact .cross .word <| .next (hgo .expression) fun _ he => .next (.opt (.behind .word (hgo .expression))) fun _ hc =>
      .stmt fun _ hs => ⟨hs, forall_mem_some he, hc⟩
  · exact .cross .word <| .stmt fun _ hs => ⟨hs, nofun, nofun⟩

theorem delStmt_reads : ReadsStmt n (delStmt go) := by
  have hend : Reads n false (Token.Placed n) (Parse.sym .semi <|> Parse.accept .newline) := fun _ =>
    .or (.of .sym) (.of .acceptAny)
  exact fun _ => .or (.spanned fun _ => .cross .word <| .next (hgo .delTargets) fun _ hes =>
    .skip hend.ahead <| .stmt fun _ hs => ⟨hs, hes⟩) .explaining

theorem assertStmt_reads : ReadsStmt n (assertStmt go) :=
  .spanned fun _ => .cross .word <| .next (hgo .expression) fun _ htest =>
    .next (.opt (.behind .sym (hgo .expression))) fun _ hm => .stmt fun _ hs => ⟨hs, htest, hm⟩

theorem simpleStmt_reads : ReadsStmt n (simpleStmt go) := by
  have hexpr {rule : Rule .expr} : ReadsStmt n
      (Parse.spanned do let e ← go rule; pure fun s => Stmt.expr s e) :=
    .spanned fun _ => .pass (hgo rule) fun _ he => .stmt fun _ hs => ⟨hs, he⟩
  exact fun _ => .one (assignment_reads hgo) <| .one hexpr <|
    .one (returnStmt_reads hgo) <| .one importName_reads <| .one importFrom_reads <|
    .one (raiseStmt_reads hgo) <|
    .one (wordStmt_reads fun _ hs => hs) <|
    .one (delStmt_reads hgo) <| .one hexpr <| .one (assertStmt_reads hgo) <|
    .one (wordStmt_reads fun _ hs => hs) <|
    .one (wordStmt_reads fun _ hs => hs) <|
    .one (namesStmt_reads fun _ _ hs => hs) <|
    .one (namesStmt_reads fun _ _ hs => hs) .miss

theorem simpleStmts_reads : ReadsList n (Stmt.Sound n) (simpleStmts go) := fun _ =>
  .or (.pass (hgo .simpleStmt) fun _ hs => .skip (.notAhead .sym) <| .skip .acceptAny <|
      .pure (List.forall_mem_singleton.2 hs))
    (.pass (.sepBy1 (hgo .simpleStmt) .sym) fun _ hss => .skip (.opt .sym) <| .skip .acceptAny <|
      .pure hss)

end

section

include hgo

theorem block_reads : ReadsList n (Stmt.Sound n) (block go) := fun _ =>
  .alt (.skip .acceptAny <| .skip .acceptAny <| .pass (hgo .statements) fun _ hss =>
    .skip .acceptAny <| .pure hss) <|
  .one (hgo .simpleStmts) <| .alt .explaining .miss

theorem elseBlock_reads : ReadsList n (Stmt.Sound n) (elseBlock go) := fun _ =>
  .or .explaining (.cross .word <| .skip (.force rfl) <| .of (hgo .block))

theorem branch_reads {w : Word} {what : String} : ReadsStmt n (branch go w what) := by
  refine fun _ => .alt .explaining <| .one (.spanned fun _ => ?_) <|
    .one (.spanned fun _ => ?_) .miss
  · exact .cross .word <| .next (hgo .namedExpression) fun _ htest => .skip .sym <|
      .next (hgo .block) fun _ hbody => .next (hgo .elifStmt) fun _ hrest =>
      .pure fun _ hs => Stmt.sound_ifElse hs hbody htest (List.forall_mem_singleton.2 hrest)
  · exact .cross .word <| .next (hgo .namedExpression) fun _ htest => .skip .sym <|
      .next (hgo .block) fun _ hbody => .next (.opt (hgo .elseBlock)) fun _ horelse =>
      .pure fun _ hs => Stmt.sound_ifElse hs hbody htest (forall_mem_getD horelse)

theorem whileStmt_reads : ReadsStmt n (whileStmt go) := fun _ =>
  .or .explaining (.spanned fun _ => .cross .word <| .next (hgo .namedExpression) fun _ htest =>
    .skip .sym <| .next (hgo .block) fun _ hbody => .next (.opt (hgo .elseBlock)) fun _ horelse =>
    .pure fun _ hs =>
      ⟨Stmt.within_iff.2 ⟨hs, htest, within_of_sound hbody, within_of_sound (forall_mem_getD horelse)⟩,
        completeStmts_of_sound hbody, completeStmts_of_sound (forall_mem_getD horelse)⟩)

theorem forStmt_reads : ReadsStmt n (forStmt go) := by
  refine fun _ => .or .explaining (.ofPast (.peek fun _ _ hstart =>
    .ifFits (forHead_reads hgo) (fun (_, _) htarget => ?_) .explaining))
  exact .pass (hgo .starExpressions) fun _ hiter => .skip .sym <| .next (hgo .block) fun _ hbody =>
    .next (.opt (hgo .elseBlock)) fun _ horelse => .spanFrom hstart fun _ hs => .pure
    ⟨Stmt.within_iff.2 ⟨hs, htarget, hiter, within_of_sound hbody, within_of_sound (forall_mem_getD horelse)⟩,
      completeStmts_of_sound hbody, completeStmts_of_sound (forall_mem_getD horelse)⟩

theorem withItem_reads : Reads n true (WithItem.Within n) (withItem go) := by
  have hend : ReadsToken n (Parse.firstOf [Parse.sym .comma, Parse.sym .rpar, Parse.sym .colon]) :=
    fun _ => .one .sym <| .one .sym <| .one .sym .miss
  exact fun _ => .alt (.pass (hgo .expression) fun _ he => .skip .word <| .next (hgo .starTarget) fun _ ht =>
      .skip hend.ahead <| .pure ⟨he, forall_mem_some ht⟩) <|
    .alt .explaining <| .alt (.pass (hgo .expression) fun _ he => .pure ⟨he, nofun⟩) .miss

theorem withStmt_reads : ReadsStmt n (withStmt go) := by
  refine fun _ => .alt .explaining <| .one (.spanned fun _ => ?_) <|
    .one (.spanned fun _ => ?_) <| .alt .explaining .miss
  · exact .next (.opt .word) fun _ _ => .cross .word <| .next (.between (.commaList (withItem_reads hgo)))
      fun _ hitems => .skip .sym <| .next (hgo .block) fun _ hbody =>
      .pure fun _ hs => Stmt.sound_withBlock hs hbody hitems
  · exact .next (.opt .word) fun _ _ => .cross .word <|
      .next (.sepBy1 (withItem_reads hgo) .sym) fun _ hitems => .skip .sym <|
      .next (hgo .block) fun _ hbody => .pure fun _ hs => Stmt.sound_withBlock hs hbody hitems

theorem exceptBlock_reads {star : Bool} : Reads n true (Handler.Sound n) (exceptBlock go star) := by
  have htyped {c₀ : Cursor} : ReadsOn n c₀ true true (fun f => ∀ s, Span.Within n s → Handler.Sound n (f s)) (do
      let type ← go .expression
      let name ← aliasOf
      let _ ← colon
      let body ← go .block
      pure fun s => .mk s (some type) name body) :=
    .next (hgo .expression) fun _ htype => .next aliasOf_reads fun _ _ => .skip .sym <|
      .next (hgo .block) fun _ hbody => .pure fun _ hs => Handler.sound hs hbody (forall_mem_some htype)
  have hstar : ReadsAny n true (do let _ ← Parse.sym .star) := fun _ =>
    .cross .sym <| .pure trivial
  refine fun _ => .alt .explaining <| .one (.spanned fun _ => ?_) <|
    .one (.spanned fun _ => ?_) <| .alt .explaining .miss
  · exact .cross .word <| .ite (.next hstar fun _ _ => htyped) htyped
  · exact .ite .missNext <| .cross .word <| .skip .sym <|
      .next (hgo .block) fun _ hbody => .pure fun _ hs => Handler.sound hs hbody nofun

theorem finallyBlock_reads : ReadsList n (Stmt.Sound n) (finallyBlock go) := fun _ =>
  .or .explaining (.cross .word <| .skip (.force rfl) <| .of (hgo .block))

theorem tryHandlers_reads {star : Bool} : ReadsStmt n (tryHandlers go star) :=
  .spanned fun _ => .cross .word <| .skip (.force rfl) <| .next (hgo .block) fun _ hbody =>
    .next (exceptBlock_reads hgo).many1 fun _ hhandlers => .next (.opt (hgo .elseBlock)) fun _ horelse =>
    .next (finallyBlock_reads hgo).opt fun _ hcleanup => .pure fun _ hs =>
      Stmt.sound_tryBlock hs hbody hhandlers (forall_mem_getD horelse) (forall_mem_getD hcleanup)

theorem tryStmt_reads : ReadsStmt n (tryStmt go) := fun _ =>
  .alt .explaining <|
  .one (.spanned fun _ => .cross .word <| .skip (.force rfl) <|
    .next (hgo .block) fun _ hbody => .next (finallyBlock_reads hgo) fun _ hcleanup => .pure fun _ hs =>
      Stmt.sound_tryBlock hs hbody (List.forall_mem_nil _) (List.forall_mem_nil _) hcleanup) <|
  .one (tryHandlers_reads hgo) <| .one (tryHandlers_reads hgo) .miss

theorem subject_reads : ReadsExpr n (subject go) :=
  .or (.spanned fun _ => .pass (hgo .starNamed) fun _ he => .skip .sym <|
      .next (.opt (hgo .starNameds)) fun _ hes => .node fun _ hs =>
        ⟨hs, List.forall_mem_cons.2 ⟨he, forall_mem_getD hes⟩⟩)
    (hgo .namedExpression)

theorem guard_reads : ReadsExpr n (guard go) := .behind .word (hgo .namedExpression)

theorem caseBlock_reads : Reads n true (Case.Sound n) (caseBlock go) := fun _ =>
  .or .explaining (.cross .softWord <| .next (hgo .patterns) fun _ hp =>
    .next (guard_reads hgo).opt fun _ hg => .skip .sym <| .next (hgo .block) fun _ hbody =>
    .pure ⟨⟨hp, hg, within_of_sound hbody⟩, completeStmts_of_sound hbody, trivial⟩)

theorem matchStmt_reads : ReadsStmt n (matchStmt go) := fun _ =>
  .or (.spanned fun _ => .cross .softWord <| .next (subject_reads hgo) fun _ he =>
      .skip .sym <| .skip .acceptAny <| .skip .acceptAny <|
      .next (caseBlock_reads hgo).many1 fun _ hcases => .skip .acceptAny <|
      .pure fun _ hs => ⟨Stmt.within_iff.2 ⟨hs, he, fun c hc => (hcases c hc).within⟩, completeCases_of_sound hcases⟩)
    .explaining

theorem decorators_reads : ReadsList n (Expr.Within n) (decorators go) := by
  have hone : ReadsExpr n
      (do let _ ← Parse.sym .at; let e ← go .namedExpression; let _ ← Parse.accept .newline; pure e) := fun _ =>
    .cross .sym <| .next (hgo .namedExpression) fun _ he => .skip .acceptAny <| .pure he
  exact hone.many1

theorem functionDef_reads {decorators : List Expr} (hdecorators : ∀ e ∈ decorators, e.Within n) :
    ReadsStmt n (functionDef go decorators) := by
  have hdefault {o : Option Params} (h : ∀ ps ∈ o, ps.Within n) : (o.getD default).Within n := by
    cases o with
    | none => exact Params.within_default
    | some ps => exact h ps rfl
  exact fun _ => .or .explaining (.spanned fun _ => .next (.opt .word) fun _ _ => .cross .word <|
    .next nameToken_reads fun _ _ => .skip (.force rfl) <| .next (.opt (hgo .params)) fun _ hparams =>
    .skip .sym <| .next (.opt (.behind .sym (hgo .expression))) fun _ hreturns => .skip (.force rfl) <|
    .next (hgo .block) fun _ hbody => .pure fun _ hs =>
      ⟨Stmt.within_iff.2 ⟨hs, (hdefault hparams).outline, within_of_sound hbody, hdecorators, hreturns⟩,
        completeStmts_of_sound hbody⟩)

theorem classDef_reads {decorators : List Expr} (hdecorators : ∀ e ∈ decorators, e.Within n) :
    ReadsStmt n (classDef go decorators) := by
  refine fun _ => .or .explaining (.spanned fun _ => .cross .word <| .next nameToken_reads fun _ _ =>
    .next (.opt (.between (.opt (hgo .arguments)))) fun args hargs => .skip .sym <|
    .next (hgo .block) fun _ hbody => .pure fun _ hs => ?_)
  have hargs' : ∀ a ∈ args.bind id, a.Within n := by
    intro a ha
    obtain ⟨args', hargs', ha⟩ := Option.bind_eq_some_iff.1 ha
    exact hargs args' hargs' a ha
  refine ⟨Stmt.within_iff.2 ⟨hs, forall_mem_getD ?_, forall_mem_getD ?_, within_of_sound hbody, hdecorators⟩,
    completeStmts_of_sound hbody⟩
  all_goals
    intro es hes
    obtain ⟨a, ha, rfl⟩ := Option.map_eq_some_iff.1 hes
  · exact (hargs' a ha).1
  · exact (hargs' a ha).2

theorem decorated_reads {definition : List Expr → Parse Stmt}
    (h : ∀ ds, (∀ e ∈ ds, e.Within n) → ReadsStmt n (definition ds)) :
    ReadsStmt n (decorated go definition) := fun _ =>
  .or (.pass (decorators_reads hgo) fun ds hds => .of (h ds hds)) (.ofPast (h [] (List.forall_mem_nil _)))

theorem compoundStmt_reads : ReadsStmt n (compoundStmt go) := by
  have hdef : ReadsToken n
      (Parse.firstOf [Parse.word .def_, Parse.sym .at, Parse.word .async_]) := fun _ =>
    .one .word <| .one .sym <| .one .word .miss
  exact fun _ => .alt (.skip hdef.ahead <| .ofPast (decorated_reads hgo fun _ => functionDef_reads hgo)) <|
    .alt (.skip (.ahead .word) <| .ofPast (branch_reads hgo)) <|
    .alt (.skip (.ahead (.or .word .sym)) <| .ofPast (decorated_reads hgo fun _ => classDef_reads hgo)) <|
    .alt (.skip (.ahead (.or .word .word)) <| .ofPast (withStmt_reads hgo)) <|
    .alt (.skip (.ahead (.or .word .word)) <| .ofPast (forStmt_reads hgo)) <|
    .alt (.skip (.ahead .word) <| .ofPast (tryStmt_reads hgo)) <|
    .alt (.skip (.ahead .word) <| .ofPast (whileStmt_reads hgo)) <|
    .one (matchStmt_reads hgo) .miss

theorem statements_reads : ReadsList n (Stmt.Sound n) (statements go) := by
  have hone : ReadsList n (Stmt.Sound n)
      ((do let s ← compoundStmt go; pure [s]) <|> go .simpleStmts) := fun _ =>
    .or (.pass (compoundStmt_reads hgo) fun _ hs => .pure (List.forall_mem_singleton.2 hs)) (.ofPast (hgo .simpleStmts))
  exact fun _ => .pass hone.many1 fun _ hsss => .pure fun s hs => by
    obtain ⟨ss, hss, hs⟩ := List.mem_flatten.1 hs
    exact hsss ss hss s hs

theorem file_reads : Reads n false (fun ss => ∀ s ∈ ss, s.Sound n) (file go) := fun _ =>
  .next (.opt (hgo .statements)) fun _ hss => .skip .acceptAny <| .pure (forall_mem_getD hss)

theorem body_reads : Go.Reads n (body go) := by
  intro s rule
  cases rule with
  | expression => exact expression_reads hgo
  | plainExpression => exact plainExpression_reads hgo
  | expressions => exact tupled_reads (hgo .expression)
  | starExpressions => exact tupled_reads (hgo .starExpression)
  | starExpression => exact starExpression_reads hgo
  | starNamed => exact starNamed_reads hgo
  | starNameds => exact starNameds_reads hgo
  | assignmentExpression => exact assignmentExpression_reads hgo
  | namedExpression => exact namedExpression_reads hgo
  | badNamed => exact badNamed_reads hgo
  | disjunction => exact logical_reads (hgo .conjunction)
  | conjunction => exact logical_reads (hgo .inversion)
  | inversion => exact inversion_reads hgo
  | comparison => exact comparison_reads hgo
  | bitwiseOr => exact leftGrouped_reads (hgo .bitwiseXor)
  | bitwiseXor => exact leftGrouped_reads (hgo .bitwiseAnd)
  | bitwiseAnd => exact leftGrouped_reads (hgo .shift)
  | shift => exact leftGrouped_reads (hgo .sum)
  | sum => exact leftGrouped_reads (hgo .term)
  | term => exact leftGrouped_reads (hgo .factor)
  | factor => exact factor_reads hgo
  | power => exact power_reads hgo
  | awaitPrimary => exact awaitPrimary_reads hgo
  | primary => exact primary_reads hgo
  | slices => exact slices_reads hgo
  | atom => exact atom_reads hgo
  | strings => exact strings_reads hgo
  | list => exact bracketed_reads (hgo .starNameds)
  | tuple => exact tuple_reads hgo
  | generator => exact generator_reads hgo
  | lambda => exact lambda_reads hgo
  | yieldExpr => exact yieldExpr_reads hgo
  | starredExpression => exact starred_reads (hgo .expression)
  | clauses => exact (clause_reads hgo).many1
  | arguments => exact arguments_reads hgo
  | args => exact args_reads hgo
  | params | lambdaParams => exact params_reads hgo
  | starTargets => exact starTargets_reads hgo
  | starTarget => exact starTarget_reads hgo
  | starTargetAtom => exact starTargetAtom_reads hgo
  | singleTarget => exact singleTarget_reads hgo
  | singleSubscript => exact singleSubscript_reads hgo
  | targetPrimary => exact targetPrimary_reads hgo
  | delTarget => exact delTarget_reads hgo
  | delTargets => exact delTargets_reads hgo
  | annotatedBad => exact annotatedBad_reads hgo
  | block => exact block_reads hgo
  | statements => exact statements_reads hgo
  | simpleStmts => exact simpleStmts_reads hgo
  | simpleStmt => exact simpleStmt_reads hgo
  | elifStmt => exact branch_reads hgo
  | elseBlock => exact elseBlock_reads hgo
  | patterns => exact patterns_reads hgo
  | pattern => exact pattern_reads hgo
  | orPattern => exact orPattern_reads hgo
  | closedPattern => exact closedPattern_reads hgo
  | maybeSequence => exact maybeSequence_reads hgo
  | openSequence => exact openSequence_reads hgo
  | positionalPatterns => exact (hgo .pattern).sepBy1 .sym

end

theorem run_reads (depth : Nat) : Go.Reads n (run depth) := by
  -- Without depth nothing is read, so it plays no part here whether a depth is enough.
  induction depth with
  | zero => exact fun _ _ => .miss
  | succ depth ih =>
    intro s rule
    show Reads n true (s.Within n) (if rule.isMemoized then Parse.memoized rule.number s (body (run depth) rule)
      else body (run depth) rule)
    split
    · exact (body_reads ih rule).memoized
    · exact body_reads ih rule

end CodeMigration.Source.Grammar

namespace CodeMigration.Source

variable {text : String} {names : StringLiteral.Names} {m : Module}

theorem Module.sound_of_ofString {n : Nat} (hlex : Orderly n (lex text).list) (h : Module.ofString text names = .ok m) :
    ∀ s ∈ m.body, s.Sound n := by
  unfold Module.ofString at h
  split at h
  case isTrue => cases h
  case isFalse =>
    simp only at h
    generalize hbody : Grammar.parseTokens names false (lex text) _ = r at h
    cases r with
    | error fault => cases h
    | ok body =>
      obtain rfl : Module.mk body = m := Except.ok.inj h
      exact (Grammar.file_reads (Grammar.run_reads _)).parseTokens hlex hbody

/-- Every node of a module has its place among the lines of the text that it was read from. -/
theorem Module.within_of_ofString (hreturn : '\r' ∉ text.toList) (h : Module.ofString text names = .ok m) :
    m.outline.Within (text.toList.count '\n' + 1) := by
  have hstmts := Module.sound_of_ofString (lex_orderly hreturn) h
  exact Outline.within_node.2 ⟨nofun, forall_mem_stmtOutlines.2 (within_of_sound hstmts)⟩

/-- Every import of names in a module that is read from a text has names. -/
theorem Module.complete_of_ofString (h : Module.ofString text names = .ok m) : m.Complete :=
  completeStmts_of_sound (Module.sound_of_ofString (lexFrom_orderly (Nat.le_refl 1) (Nat.le_refl _) _) h)

end CodeMigration.Source
