import CodeMigration.Proofs.Places.Expressions
import CodeMigration.Source.Grammar.Parameter
import CodeMigration.Source.Grammar.Pattern
import CodeMigration.Source.Grammar.Target

/-! # Targets, parameters and patterns within the lines of a text -/

namespace CodeMigration.Source.Grammar

variable {n : Nat} {go : Go} (hgo : go.Reads n)

section

theorem trailerAhead_reads : ReadsAny n false trailerAhead :=
  .ahead (Q := Token.Placed n) fun _ => .alt (.of .sym) <| .alt (.of .sym) <| .alt (.of .sym) .miss

theorem noTrailerAhead_reads : ReadsAny n false noTrailerAhead :=
  .notAhead (Q := Token.Placed n) fun _ => .alt (.of .sym) <| .alt (.of .sym) <| .alt (.of .sym) .miss

include hgo

theorem targetPrimary_reads : ReadsExpr n (targetPrimary go) :=
  .peek fun _ _ hstart => .pass (hgo .atom) fun _ he => .skip trailerAhead_reads <|
    .extend (fun _ he => trailer_reads hgo hstart trailerAhead_reads he) he

theorem singleSubscript_reads : ReadsExpr n (singleSubscript go) :=
  .or (.spanned fun _ => .pass (hgo .targetPrimary) fun _ he => .skip .sym <|
      .next nameToken_reads fun _ _ => .skip noTrailerAhead_reads <|
      .node fun _ hs => ⟨hs, he⟩)
    (.spanned fun _ => .pass (hgo .targetPrimary) fun _ he => 
      .next (.between (hgo .slices)) fun _ hindex => .skip noTrailerAhead_reads <|
      .node fun _ hs => ⟨hs, he, hindex⟩)

theorem singleTarget_reads : ReadsExpr n (singleTarget go) := fun _ =>
  .one (hgo .singleSubscript) <| .one nameExpr_reads <|
    .one (.between (hgo .singleTarget)) .miss

theorem starTargets_reads : ReadsExpr n (starTargets go) := fun _ =>
  .or (.pass (hgo .starTarget) fun _ he => .skip (.notAhead .sym) <| .pure he)
    (.spanned fun _ => .pass (.commaList (hgo .starTarget)) fun _ hes =>
      .node fun _ hs => ⟨hs, hes⟩)

theorem starTarget_reads : ReadsExpr n (starTarget go) :=
  .or (.spanned fun _ => .cross .sym <| .skip (.notAhead .sym) <|
      .next (hgo .starTarget) fun _ he => .node fun _ hs => ⟨hs, he⟩)
    (hgo .starTargetAtom)

theorem targetTupleItems_reads : ReadsList n (Expr.Within n) (targetTupleItems go) := by
  refine fun _ => .or (.pass (hgo .starTarget) fun e he => ?_) (.pass (hgo .starTarget) fun e he => ?_)
  · exact .next (.many1 (.behind .sym (hgo .starTarget))) fun _ hes => .skip (.opt .sym) <|
      .pure (List.forall_mem_cons.2 ⟨he, hes⟩)
  · exact .skip .sym <| .pure (List.forall_mem_singleton.2 he)

theorem starTargetAtom_reads : ReadsExpr n (starTargetAtom go) := fun _ =>
  .or (.ofPast (hgo .singleSubscript)) <|
  .one nameExpr_reads <|
  .one (.between (hgo .starTargetAtom)) <|
  .one (bracketed_reads (targetTupleItems_reads hgo)) <|
  .one (bracketed_reads (.commaList (hgo .starTarget))) .miss

theorem delTargets_reads : ReadsList n (Expr.Within n) (delTargets go) := .commaList (hgo .delTarget)

theorem delTarget_reads : ReadsExpr n (delTarget go) := fun _ =>
  .one (hgo .singleSubscript) <|
  .one nameExpr_reads <|
  .one (.between (hgo .delTarget)) <|
  .one (bracketed_reads (hgo .delTargets)) <|
  .one (bracketed_reads (hgo .delTargets)) .miss

theorem annotatedBad_reads : ReadsExpr n (annotatedBad go) := fun _ =>
  .one (hgo .list) <| .one (hgo .tuple) <| .one (.between (hgo .annotatedBad)) .miss

omit hgo

variable {ofLambda : Bool}

theorem paramEnd_reads : ReadsAny n false (paramEnd ofLambda) := fun _ =>
  .or (.skip .sym <| .pure trivial) (.of (.ahead .sym))

theorem slash_reads : ReadsAny n true (slash ofLambda) := .behind .sym paramEnd_reads

include hgo

theorem hint_reads : Reads n false (fun a => ∀ e ∈ a, e.Within n) (hint go ofLambda) := fun _ =>
  .ite (.pure (by simp)) (.of (.opt (.behind .sym (hgo .expression))))

theorem bareParam_reads : Reads n true (Param.Within n) (bareParam go ofLambda) := fun _ =>
  .pass nameToken_reads fun _ _ => .next (hint_reads hgo) fun _ ha => .pure ⟨ha, by simp⟩

theorem paramNoDefault_reads : Reads n true (Param.Within n) (paramNoDefault go ofLambda) := fun _ =>
  .pass (bareParam_reads hgo) fun _ hp => .next paramEnd_reads fun _ _ => .pure hp

theorem paramStarHint_reads : Reads n true (Param.Within n) (paramStarHint go ofLambda) := fun _ =>
  .pass nameToken_reads fun _ _ => .skip .sym <| .next (hgo .starExpression) fun _ ha =>
    .next paramEnd_reads fun _ _ => .pure ⟨forall_mem_some ha, by simp⟩

theorem defaultValue_reads : ReadsExpr n (defaultValue go ofLambda) := fun _ =>
  .or (.cross .sym <| .of (hgo .expression)) .explaining

omit hgo in
theorem Param.setDefault_within {p : Param} (hp : p.Within n) {d : Option Expr} (hd : ∀ e ∈ d, e.Within n) :
    (Param.setDefault p d).Within n := by
  obtain ⟨name, hint, default⟩ := p
  exact ⟨hp.1, hd⟩

theorem paramWithDefault_reads : Reads n true (Param.Within n) (paramWithDefault go ofLambda) := fun _ =>
  .pass (bareParam_reads hgo) fun _ hp => .next (defaultValue_reads hgo) fun _ hd => .next paramEnd_reads fun _ _ =>
    .pure (Param.setDefault_within hp (forall_mem_some hd))

theorem paramMaybeDefault_reads : Reads n true (Param.Within n) (paramMaybeDefault go ofLambda) := fun _ =>
  .pass (bareParam_reads hgo) fun _ hp => .next (.opt (defaultValue_reads hgo)) fun _ hd =>
    .next paramEnd_reads fun _ _ => .pure (Param.setDefault_within hp hd)

theorem slashNoDefault_reads : ReadsList n (Param.Within n) (slashNoDefault go ofLambda) := fun _ =>
  .pass (.many1 (paramNoDefault_reads hgo)) fun _ hps => .next slash_reads fun _ _ => .pure hps

theorem slashWithDefault_reads : ReadsList n (Param.Within n) (slashWithDefault go ofLambda) :=
  fun _ => .next (.many (paramNoDefault_reads hgo)) fun _ hps => .pass (.many1 (paramWithDefault_reads hgo))
    fun _ hqs => .next slash_reads fun _ _ => .pure (List.forall_mem_append.2 ⟨hps, hqs⟩)

theorem keywordsParam_reads : Reads n true (Param.Within n) (keywordsParam go ofLambda) := fun _ =>
  .or .explaining (.cross .sym <| .of (paramNoDefault_reads hgo))

omit hgo in
def StarEtc.Within (n : Nat) (s : StarEtc) : Prop :=
  (∀ p ∈ s.rest, p.Within n) ∧ (∀ p ∈ s.keywordOnly, p.Within n) ∧ ∀ p ∈ s.keywords, p.Within n

theorem starEtc_reads : Reads n true (StarEtc.Within n) (starEtc go ofLambda) := by
  intro c₀
  refine .alt .explaining <| .alt ?_ <| .alt ?_ <| .alt ?_ <| .alt ?_ .miss
  · exact .cross .sym <| .next (paramNoDefault_reads hgo) fun _ hp =>
      .next (.many (paramMaybeDefault_reads hgo)) fun _ hps => .next (.opt (keywordsParam_reads hgo)) fun _ hk =>
      .pure ⟨forall_mem_some hp, hps, hk⟩
  · exact .ite .missNext <| .cross .sym <| .next (paramStarHint_reads hgo) fun _ hp =>
      .next (.many (paramMaybeDefault_reads hgo)) fun _ hps => .next (.opt (keywordsParam_reads hgo)) fun _ hk =>
      .pure ⟨forall_mem_some hp, hps, hk⟩
  · exact .cross .sym <| .skip .sym <| .next (.many1 (paramMaybeDefault_reads hgo)) fun _ hps =>
      .next (.opt (keywordsParam_reads hgo)) fun _ hk => .pure ⟨by simp, hps, hk⟩
  · exact .pass (keywordsParam_reads hgo) fun _ hk => .pure ⟨by simp, by simp, forall_mem_some hk⟩

omit hgo in
theorem makeParams_within {positional plain : List Param} (hpositional : ∀ p ∈ positional, p.Within n)
    (hplain : ∀ p ∈ plain, p.Within n) {star : Option StarEtc} (hstar : ∀ s ∈ star, s.Within n) :
    (makeParams positional plain star).Within n := by
  cases star with
  | none => exact ⟨hpositional, hplain, by simp, by simp, by simp⟩
  | some s => exact ⟨hpositional, hplain, (hstar s rfl).1, (hstar s rfl).2.1, (hstar s rfl).2.2⟩

theorem params_reads : Reads n true (Params.Within n) (params go ofLambda) := by
  refine fun _ => .or .explaining ?_
  refine .alt ?_ <| .alt ?_ <| .alt ?_ <| .alt ?_ <| .alt ?_ .miss
  · exact .pass (slashNoDefault_reads hgo) fun _ ha => .next (.many (paramNoDefault_reads hgo)) fun _ hb =>
      .next (.many (paramWithDefault_reads hgo)) fun _ hc => .next (.opt (starEtc_reads hgo)) fun _ hd =>
      .pure (makeParams_within ha (List.forall_mem_append.2 ⟨hb, hc⟩) hd)
  · exact .pass (slashWithDefault_reads hgo) fun _ ha => .next (.many (paramWithDefault_reads hgo)) fun _ hb =>
      .next (.opt (starEtc_reads hgo)) fun _ hd => .pure (makeParams_within ha hb hd)
  · exact .pass (.many1 (paramNoDefault_reads hgo)) fun _ ha => .next (.many (paramWithDefault_reads hgo)) fun _ hb =>
      .next (.opt (starEtc_reads hgo)) fun _ hd =>
      .pure (makeParams_within (List.forall_mem_nil _) (List.forall_mem_append.2 ⟨ha, hb⟩) hd)
  · exact .pass (.many1 (paramWithDefault_reads hgo)) fun _ ha => .next (.opt (starEtc_reads hgo)) fun _ hd =>
      .pure (makeParams_within (List.forall_mem_nil _) ha hd)
  · exact .pass (starEtc_reads hgo) fun _ hd =>
      .pure (makeParams_within (List.forall_mem_nil _) (List.forall_mem_nil _) (forall_mem_some hd))

omit hgo

theorem realNumber_reads : ReadsExpr n realNumber := fun _ =>
  .pass number_reads fun _ he => .ite .raiseAt (.pure he)

theorem imaginaryNumber_reads : ReadsExpr n imaginaryNumber := fun _ =>
  .pass number_reads fun _ he => .ite (.pure he) .raiseAt

theorem signedNumber_reads {number : Parse Expr} (h : ReadsExpr n number) :
    ReadsExpr n (signedNumber number) :=
  .or h (.spanned fun _ => .cross .sym <| .next h fun _ he =>
    .node fun _ hs => ⟨hs, he⟩)

theorem complexNumber_reads : ReadsExpr n complexNumber := by
  have hop {op : Symbol} {value : BinaryOp} : ReadsAny n true (do let _ ← Parse.sym op; pure value) := fun _ =>
    .cross .sym <| .pure trivial
  exact .peek fun _ _ hstart => .pass (signedNumber_reads realNumber_reads) fun _ ha => .next (.or hop hop) fun _ _ =>
    .next imaginaryNumber_reads fun _ hb => .spanFrom hstart fun _ hs => .expr ⟨hs, ha, hb⟩

theorem numberPattern_reads : ReadsExpr n numberPattern := fun _ =>
  .or (.pass (signedNumber_reads number_reads) fun _ he => .skip (.notAhead (.or .sym .sym)) <| .pure he)
    (.ofPast complexNumber_reads)

theorem singletonPattern_reads : ReadsPattern n singletonPattern := by
  have hconstant : ReadsExpr n (Parse.firstOf [constant .none_ .null,
      constant .true_ (.bool true), constant .false_ (.bool false)]) := fun _ =>
    .one constant_reads <| .one constant_reads <| .one constant_reads .miss
  refine fun _ => .pass hconstant fun e _ => ?_
  split
  · exact .pattern trivial
  · exact .miss

theorem notReference_reads : ReadsAny n false notReference :=
  .notAhead (Q := Token.Placed n) fun _ => .alt (.of .sym) <| .alt (.of .sym) <| .alt (.of .sym) .miss

theorem captureTarget_reads : ReadsAny n true captureTarget := fun _ =>
  .next (.notAhead .softWord) fun _ _ => .pass nameToken_reads fun _ _ => .next notReference_reads fun _ _ =>
    .pure trivial

theorem dotted_reads : ReadsExpr n dotted := by
  refine .peek fun c₀ start hstart => .pass nameExpr_reads fun e he => ?_
  have hmember (e : Expr) (he : e.Within n) : ReadsOn n c₀ true true (Expr.Within n) (do
      let _ ← Parse.sym .dot
      let t ← nameToken
      let span ← Parse.spanFrom start
      pure (.member span e (Token.ident t))) :=
    .skip .sym <| .next nameToken_reads fun _ _ => .spanFrom hstart fun _ hs =>
      .expr ⟨hs, he⟩
  exact .bind (hmember e he) fun e he => .extend hmember he

theorem nameOrDotted_reads : ReadsExpr n nameOrDotted :=
  .or dotted_reads nameExpr_reads

theorem starPattern_reads : ReadsPattern n starPattern := fun _ =>
  .or (.cross .sym <| .next captureTarget_reads fun _ _ => .pattern trivial)
    (.cross .sym <| .skip .softWord <| .pattern trivial)

theorem spreadPattern_reads : ReadsAny n true spreadPattern := .behind .sym captureTarget_reads

include hgo

theorem literalPattern_reads : ReadsPattern n (literalPattern go) := fun _ =>
  .or (.pass (.or numberPattern_reads (hgo .strings)) fun _ he => .pattern he) (.ofPast singletonPattern_reads)

theorem maybeStar_reads : ReadsPattern n (maybeStar go) :=
  .or starPattern_reads (hgo .pattern)

theorem maybeSequence_reads : ReadsList n (Pattern.Within n) (maybeSequence go) := .commaList (maybeStar_reads hgo)

theorem openSequence_reads : ReadsList n (Pattern.Within n) (openSequence go) := fun _ =>
  .pass (maybeStar_reads hgo) fun _ hp => .skip .sym <| .next (.opt (hgo .maybeSequence)) fun _ hps =>
    .pure (List.forall_mem_cons.2 ⟨hp, forall_mem_getD hps⟩)

theorem patterns_reads : ReadsPattern n (patterns go) := fun _ =>
  .or (.pass (hgo .openSequence) fun _ hps => .pattern hps) (.ofPast (hgo .pattern))

theorem pattern_reads : ReadsPattern n (pattern go) := fun _ =>
  .alt (.pass (hgo .orPattern) fun _ hp => .skip .word <| .next captureTarget_reads fun _ _ =>
    .pattern (forall_mem_some hp)) <|
  .alt .explaining <| .one (hgo .orPattern) .miss

theorem orPattern_reads : ReadsPattern n (orPattern go) := by
  refine fun _ => .pass (.sepBy1 (hgo .closedPattern) .sym) fun ps hps => ?_
  split
  · exact .pure (hps _ List.mem_cons_self)
  · exact .pattern hps

theorem literalKey_reads : ReadsExpr n (literalKey go) := fun _ =>
  .one numberPattern_reads <| .one (hgo .strings) <| .one constant_reads <| .one constant_reads <|
    .one constant_reads .miss

theorem keyPattern_reads : Reads n true (fun item => item.1.Within n ∧ item.2.Within n) (keyPattern go) := fun _ =>
  .pass (.or (literalKey_reads hgo) dotted_reads) fun _ hkey => .skip .sym <| .next (hgo .pattern) fun _ hp =>
    .pure ⟨hkey, hp⟩

omit hgo in
theorem mapping_within {items : List (Expr × Pattern)} (h : ∀ item ∈ items, item.1.Within n ∧ item.2.Within n)
    {rest : Option String} : (Pattern.mapping (items.map Prod.fst) (items.map Prod.snd) rest).Within n := by
  refine Pattern.within_iff.2 ⟨fun e he => ?_, fun p hp => ?_⟩
  · obtain ⟨item, hitem, rfl⟩ := List.mem_map.1 he
    exact (h item hitem).1
  · obtain ⟨item, hitem, rfl⟩ := List.mem_map.1 hp
    exact (h item hitem).2

theorem mappingPattern_reads : ReadsPattern n (mappingPattern go) := by
  have hitems := Reads.sepBy1 (keyPattern_reads hgo) (.sym (s := .comma))
  refine fun _ => .alt ?_ <| .alt ?_ <| .alt ?_ <| .alt ?_ .miss
  · exact .cross .sym <| .skip .sym <|
      .pattern ⟨List.forall_mem_nil _, List.forall_mem_nil _⟩
  · exact .cross .sym <| .next spreadPattern_reads fun _ _ => .skip (.opt .sym) <|
      .skip .sym <| .pattern ⟨List.forall_mem_nil _, List.forall_mem_nil _⟩
  · exact .cross .sym <| .next hitems fun _ hitems => .skip .sym <|
      .next spreadPattern_reads fun _ _ => .skip (.opt .sym) <| .skip .sym <|
      .pure (mapping_within hitems)
  · exact .pass (.between (.commaList (keyPattern_reads hgo))) fun _ hitems => .pure (mapping_within hitems)

theorem namedPatterns_reads : Reads n true (fun named => ∀ item ∈ named, item.2.Within n) (namedPatterns go) := by
  have hnamed : Reads n true (fun item => item.2.Within n) (namedPattern go) := fun _ =>
    .pass nameToken_reads fun _ _ => .skip .sym <| .next (hgo .pattern) fun _ hp => .pure hp
  exact .sepBy1 hnamed .sym

omit hgo in
theorem classOf_within {cls : Expr} (hcls : cls.Within n) {ps : List Pattern} (hps : ∀ p ∈ ps, p.Within n)
    {named : List (String × Pattern)} (hnamed : ∀ item ∈ named, item.2.Within n) :
    (Pattern.classOf cls ps (named.map Prod.fst) (named.map Prod.snd)).Within n := by
  refine Pattern.within_iff.2 ⟨hcls, hps, fun p hp => ?_⟩
  obtain ⟨item, hitem, rfl⟩ := List.mem_map.1 hp
  exact hnamed item hitem

theorem classPattern_reads : ReadsPattern n (classPattern go) := by
  refine fun _ => .alt ?_ <| .alt ?_ <| .alt ?_ <| .alt ?_ <| .alt .explaining .miss
  · exact .pass nameOrDotted_reads fun _ hcls => .skip .sym <| .skip .sym <|
      .pure (classOf_within hcls (List.forall_mem_nil _) (List.forall_mem_nil _))
  · exact .pass nameOrDotted_reads fun _ hcls => .skip .sym <| .next (hgo .positionalPatterns) fun _ hps =>
      .skip (.opt .sym) <| .skip .sym <| .pure (classOf_within hcls hps (List.forall_mem_nil _))
  · exact .pass nameOrDotted_reads fun _ hcls => .skip .sym <| .next (namedPatterns_reads hgo)
      fun _ hnamed => .skip (.opt .sym) <| .skip .sym <|
      .pure (classOf_within hcls (List.forall_mem_nil _) hnamed)
  · exact .pass nameOrDotted_reads fun _ hcls => .skip .sym <| .next (hgo .positionalPatterns) fun _ hps =>
      .skip .sym <| .next (namedPatterns_reads hgo) fun _ hnamed => .skip (.opt .sym) <|
      .skip .sym <| .pure (classOf_within hcls hps hnamed)

theorem closedPattern_reads : ReadsPattern n (closedPattern go) := fun _ =>
  .one (literalPattern_reads hgo) <|
  .alt (.pass captureTarget_reads fun _ _ => .pattern (by simp [Pattern.PartsWithin])) <|
  .alt (.cross .softWord <| .pattern (by simp [Pattern.PartsWithin])) <|
  .alt (.pass dotted_reads fun _ he => .next notReference_reads fun _ _ => .pattern he) <|
  .one (.between (hgo .pattern)) <|
  .alt (.pass (.between (.opt (hgo .maybeSequence))) fun _ hps => .pattern (forall_mem_getD hps)) <|
  .alt (.pass (.between (.opt (hgo .openSequence))) fun _ hps => .pattern (forall_mem_getD hps)) <|
  .one (mappingPattern_reads hgo) <| .one (classPattern_reads hgo) .miss

end

end CodeMigration.Source.Grammar
