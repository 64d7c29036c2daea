import CodeMigration.Proofs.Places.Strings
import CodeMigration.Source.Grammar.Expression

/-! # Expressions within the lines of a text

One lemma for each construct: it passes over a token and what it gives is within the lines of the text, if the
constructs it needs do so. -/

namespace CodeMigration.Source.Grammar

variable {n : Nat} {go : Go} {α : Type} {operand : Parse Expr}

theorem forall_mem_some {P : α → Prop} {a : α} (h : P a) : ∀ a' ∈ some a, P a' :=
  fun _ ha' => Option.some.inj ha' ▸ h

theorem forall_mem_getD {P : α → Prop} {o : Option (List α)} (h : ∀ as ∈ o, ∀ a ∈ as, P a) : ∀ a ∈ o.getD [], P a := by
  cases o with
  | none => simp
  | some as => exact h as rfl

def LateArg.Within (n : Nat) : LateArg → Prop
  | .positional e => e.Within n
  | .keyword k => k.Within n

theorem nameToken_reads : ReadsToken n nameToken := .accept rfl

theorem nameExpr_reads : ReadsExpr n nameExpr :=
  .spanned fun _ => .pass nameToken_reads fun _ _ => .node fun _ hs => hs

theorem tupled_reads {item : Parse Expr} (h : ReadsExpr n item) :
    ReadsExpr n (tupled item) := by
  refine .peek fun c₀ start hstart => .pass h fun first hfirst => .ifFits .sym (fun _ _ => ?_) (.pure hfirst)
  refine .next (.opt (.sepBy1 h .sym)) fun rest hrest => ?_
  have hend : ReadsOn n c₀ true true (Expr.Within n)
      (do let span ← Parse.spanFrom start; pure (.display span .tuple (first :: rest.getD []))) :=
    .spanFrom hstart fun s hs => .pure (Expr.within_iff.2
      ⟨hs, List.forall_mem_cons.2 ⟨hfirst, forall_mem_getD hrest⟩⟩)
  exact .ite (.skip (.opt .sym) <| hend) (.pureNext hend)

theorem starred_reads (h : ReadsExpr n operand) : ReadsExpr n (starred operand) :=
  .spanned fun _ => .cross .sym <| .next h fun _ he => .node fun _ hs => ⟨hs, he⟩

theorem notAssigned_reads : ReadsAny n false notAssigned :=
  .notAhead (Q := Token.Placed n) fun _ => .or (.of .sym) (.of .sym)

theorem logical_reads {op : LogicalOp} {w : Word} (h : ReadsExpr n operand) :
    ReadsExpr n (logical op w operand) := by
  refine .peek fun c₀ start hstart => .pass h fun first hfirst => .next (.many (.behind .word h)) fun rest hrest => ?_
  refine .ite (.pure hfirst) (.spanFrom hstart fun s hs => .pure ?_)
  exact Expr.within_iff.2 ⟨hs, List.forall_mem_cons.2 ⟨hfirst, hrest⟩⟩

theorem compareOp_reads : ReadsAny n true compareOp := by
  intro c₀
  have hsym {s : Symbol} {op : CompareOp} :
      ReadsOn n c₀ false true (fun _ => True) (do let _ ← Parse.sym s; pure op) := .cross .sym <| .pure trivial
  have hword {w : Word} {op : CompareOp} :
      ReadsOn n c₀ false true (fun _ => True) (do let _ ← Parse.word w; pure op) :=
    .cross .word <| .pure trivial
  have hwords {w w' : Word} {op : CompareOp} :
      ReadsOn n c₀ false true (fun _ => True) (do let _ ← Parse.word w; let _ ← Parse.word w'; pure op) :=
    .cross .word <| .skip .word <| .pure trivial
  exact .alt hsym <| .alt hsym <| .alt hsym <| .alt hsym <| .alt hsym <| .alt hsym <|
    .alt hwords <| .alt hword <| .alt hwords <| .alt hword .miss

theorem leftGrouped_reads {ops : List (Symbol × BinaryOp)} (h : ReadsExpr n operand) :
    ReadsExpr n (leftGrouped ops operand) := by
  refine .peek fun c₀ start hstart => .pass h fun first hfirst => .extend (fun left hleft => ?_) hfirst
  refine .next (show ReadsAny n true _ from fun _ => .firstOf fun p hp => ?_) fun op _ => ?_
  · obtain ⟨⟨s, op⟩, _, rfl⟩ := List.mem_map.1 hp
    exact .cross .sym <| .pure trivial
  · refine .next h fun right hright => .spanFrom hstart fun s hs => .pure ?_
    exact Expr.within_iff.2 ⟨hs, hleft, hright⟩

section
variable (hgo : go.Reads n)
include hgo

theorem starExpression_reads : ReadsExpr n (starExpression go) :=
  .or (starred_reads (hgo .bitwiseOr)) (hgo .expression)

theorem starNamed_reads : ReadsExpr n (starNamed go) :=
  .or (starred_reads (hgo .bitwiseOr)) (hgo .namedExpression)

theorem starNameds_reads : ReadsList n (Expr.Within n) (starNameds go) := .commaList (hgo .starNamed)

theorem assignmentExpression_reads : ReadsExpr n (assignmentExpression go) :=
  .spanned fun _ => .pass nameExpr_reads fun _ htarget => .skip .sym <|
    .next (hgo .expression) fun _ hvalue => .node fun _ hs => ⟨hs, htarget, hvalue⟩

theorem unassigned_reads : ReadsExpr n (unassigned go) := fun _ =>
  .pass (hgo .expression) fun _ he => .skip (.notAhead .sym) <| .pure he

theorem namedExpression_reads : ReadsExpr n (namedExpression go) := fun _ =>
  .one (hgo .assignmentExpression) (.alt .explaining (.one (unassigned_reads hgo) .miss))

theorem badNamed_reads : ReadsExpr n (badNamed go) := fun _ =>
  .alt (.next (hgo .expression) fun _ _ => .skip .sym <| .next (hgo .expression) fun _ _ => .raiseAt) <|
  .alt (.next nameToken_reads fun _ _ => .skip .sym <| .next (hgo .bitwiseOr) fun _ _ =>
    .skip notAssigned_reads <| .raiseAt) <|
  .alt (.next (.notAhead (Q := Expr.Within n) fun _ => .alt (.of (hgo .list)) <| .alt (.of (hgo .tuple)) <|
      .alt (.of (hgo .generator)) .miss) fun _ _ =>
    .next (.notAhead (Q := Token.Placed n) fun _ => .alt (.of .word) <| .alt (.of .word) <|
      .alt (.of .word) .miss) fun _ _ =>
    .next (hgo .bitwiseOr) fun _ _ => .skip .sym <| .next (hgo .bitwiseOr) fun _ _ =>
    .skip notAssigned_reads <| .raiseAt) .miss

theorem conditional_reads : ReadsExpr n (conditional go) :=
  .spanned fun _ => .pass (hgo .disjunction) fun _ hbody => .skip .word <|
    .next (hgo .disjunction) fun _ htest => .skip .word <| .next (hgo .expression) fun _ horelse =>
    .node fun _ hs => ⟨hs, htest, hbody, horelse⟩

theorem plainExpression_reads : ReadsExpr n (plainExpression go) := fun _ =>
  .one (conditional_reads hgo) <| .one (hgo .disjunction) <| .one (hgo .lambda) .miss

theorem expression_reads : ReadsExpr n (expression go) := fun _ =>
  .alt .explaining <| .alt .explaining <| .one (plainExpression_reads hgo) .miss

theorem lambda_reads : ReadsExpr n (lambda go) := by
  refine .spanned fun _ => .cross .word <| .next (.opt (hgo .lambdaParams)) fun params hparams => ?_
  refine .skip .sym <| .next (hgo .expression) fun body hbody => .pure fun s hs => ?_
  refine Expr.within_iff.2 ⟨hs, Params.Within.outline ?_, hbody⟩
  cases params with
  | none => exact Params.within_default
  | some params => exact hparams params rfl

theorem yieldExpr_reads : ReadsExpr n (yieldExpr go) :=
  .spanned fun _ => .cross .word <| .or
    (.skip .word <| .next (hgo .expression) fun _ he => .node fun _ hs => ⟨hs, he⟩)
    (.next (.opt (hgo .starExpressions)) fun _ he => .node fun _ hs => ⟨hs, he⟩)

theorem inversion_reads : ReadsExpr n (inversion go) :=
  .or (.spanned fun _ => .cross .word <| .next (hgo .inversion) fun _ he =>
    .node fun _ hs => ⟨hs, he⟩) (hgo .comparison)

theorem comparison_reads : ReadsExpr n (comparison go) := by
  have hcompared : Reads n true (fun pair => pair.2.Within n) (compared go) := fun _ =>
    .pass compareOp_reads fun _ _ => .next (hgo .bitwiseOr) fun _ he => .pure he
  refine .peek fun c₀ start hstart => .pass (hgo .bitwiseOr) fun left hleft => ?_
  refine .next hcompared.many fun pairs hpairs => .ite (.pure hleft) (.spanFrom hstart fun s hs => .pure ?_)
  refine Expr.within_iff.2 ⟨hs, hleft, fun e he => ?_⟩
  obtain ⟨pair, hpair, rfl⟩ := List.mem_map.1 he
  exact hpairs pair hpair

theorem signed_reads {s : Symbol} {op : UnaryOp} : ReadsExpr n (signed go s op) :=
  .spanned fun _ => .cross .sym <| .next (hgo .factor) fun _ he =>
    .node fun _ hs => ⟨hs, he⟩

theorem factor_reads : ReadsExpr n (factor go) := fun _ =>
  .one (signed_reads hgo) <| .one (signed_reads hgo) <|
    .one (signed_reads hgo) <| .one (hgo .power) .miss

theorem power_reads : ReadsExpr n (power go) := by
  refine .peek fun c₀ start hstart => .pass (hgo .awaitPrimary) fun base hbase => ?_
  exact .ifFits (.behind .sym (hgo .factor)) (fun exponent hexponent => .spanFrom hstart fun s hs =>
    .expr ⟨hs, hbase, hexponent⟩) (.pure hbase)

theorem awaitPrimary_reads : ReadsExpr n (awaitPrimary go) :=
  .or (.spanned fun _ => .cross .word <| .next (hgo .primary) fun _ he =>
    .node fun _ hs => ⟨hs, he⟩) (hgo .primary)

omit hgo in
theorem call_within {s : Span} (hs : s.Within n) {func : Expr} (hfunc : func.Within n) {args : Option Args}
    (hargs : ∀ a ∈ args, a.Within n) : (Expr.call s func ((args.map Args.positional).getD [])
      ((args.map Args.keywords).getD [])).Within n := by
  cases args with
  | none => exact Expr.within_iff.2 ⟨hs, hfunc, by simp, by simp⟩
  | some args => exact Expr.within_iff.2 ⟨hs, hfunc, (hargs args rfl).1, (hargs args rfl).2⟩

theorem trailer_reads {c₀ : Cursor} {start : Token} (hstart : c₀.rest.head? = some start) {behind : Parse Unit}
    (hb : ReadsAny n false behind) {e : Expr} (he : e.Within n) :
    ReadsOn n c₀ true true (Expr.Within n) (trailer go behind start e) :=
  .alt (.skip .sym <| .next nameToken_reads fun _ _ => .spanFrom hstart fun _ hs => .skip hb <|
    .expr ⟨hs, he⟩) <|
  .alt (.next (hgo .generator) fun _ hg => .spanFrom hstart fun _ hs => .skip hb <|
    .expr ⟨hs, he, List.forall_mem_singleton.2 hg, by simp⟩) <|
  .alt (.next (.between (.opt (hgo .arguments))) fun _ hargs =>
    .spanFrom hstart fun _ hs => .skip hb <| .pure (call_within hs he hargs)) <|
  .alt (.next (.between (hgo .slices)) fun _ hindex =>
    .spanFrom hstart fun _ hs => .skip hb <| .expr ⟨hs, he, hindex⟩) .miss

theorem primary_reads : ReadsExpr n (primary go) :=
  .peek fun _ _ hstart => .pass (hgo .atom) fun _ he =>
    .extend (fun _ he => trailer_reads hgo hstart (fun _ => .pure trivial) he) he

theorem oneSlice_reads : ReadsExpr n (oneSlice go) := by
  refine .or (.spanned fun _ => ?_) (hgo .namedExpression)
  refine .next (.opt (hgo .expression)) fun lower hlower => .cross .sym ?_
  refine .next (.opt (hgo .expression)) fun upper hupper => ?_
  refine .next (.opt (.behind .sym (.opt (hgo .expression)))) fun step hstep => ?_
  refine .pure fun s hs => Expr.within_iff.2 ⟨hs, hlower, hupper, ?_⟩
  cases step with
  | none => simp
  | some step => exact hstep step rfl

theorem slices_reads : ReadsExpr n (slices go) := fun _ =>
  .or (.pass (oneSlice_reads hgo) fun _ he => .skip (.notAhead .sym) <| .pure he)
    (.spanned fun _ => .pass (.commaList (.or (oneSlice_reads hgo) (hgo .starredExpression))) fun _ hes =>
      .node fun _ hs => ⟨hs, hes⟩)

omit hgo in
theorem lateArgs_within {early : List Expr} (hearly : ∀ e ∈ early, e.Within n) {late : List LateArg}
    (hlate : ∀ a ∈ late, a.Within n) : (Args.mk (early ++ late.filterMap LateArg.positional?)
      (late.filterMap LateArg.keyword?)).Within n := by
  refine ⟨List.forall_mem_append.2 ⟨hearly, fun e he => ?_⟩, fun k hk => ?_⟩
  · obtain ⟨a, ha, hae⟩ := List.mem_filterMap.1 he
    cases a with
    | positional e' => exact Option.some.inj hae ▸ hlate _ ha
    | keyword k => cases hae
  · obtain ⟨a, ha, hak⟩ := List.mem_filterMap.1 hk
    cases a with
    | positional e => cases hak
    | keyword k' => exact Option.some.inj hak ▸ hlate _ ha

theorem keywordArg_reads : Reads n true (LateArg.Within n) (keywordArg go) := fun _ =>
  .pass nameToken_reads fun _ _ => .skip .sym <| .next (hgo .expression) fun _ he => .pure he

theorem keywordOrStarred_reads : Reads n true (LateArg.Within n) (keywordOrStarred go) := fun _ =>
  .alt .explaining <| .one (keywordArg_reads hgo) <|
    .alt (.pass (hgo .starredExpression) fun _ he => .pure he) .miss

theorem keywordOrSpread_reads : Reads n true (LateArg.Within n) (keywordOrSpread go) := fun _ =>
  .alt .explaining <| .one (keywordArg_reads hgo) <|
    .alt (.cross .sym <| .next (hgo .expression) fun _ he => .pure he) .miss

theorem lateArgs_reads : ReadsList n (LateArg.Within n) (lateArgs go) := by
  have hstarred := Reads.sepBy1 (keywordOrStarred_reads hgo) (.sym (s := .comma))
  have hspread := Reads.sepBy1 (keywordOrSpread_reads hgo) (.sym (s := .comma))
  refine fun _ => .alt (.pass hstarred fun _ ha => .skip .sym <| .next hspread fun _ hb => ?_) <|
    .one hstarred <| .one hspread .miss
  exact .pure (List.forall_mem_append.2 ⟨ha, hb⟩)

theorem positionalArg_reads : ReadsExpr n (positionalArg go) := fun _ =>
  .or (.ofPast (hgo .starredExpression)) <| .pass (.or (hgo .assignmentExpression) (unassigned_reads hgo)) fun _ he =>
    .skip (.notAhead .sym) <| .pure he

theorem args_reads : Reads n true (Args.Within n) (args go) := by
  refine fun _ => .or ?_ ?_
  · refine .pass (.sepBy1 (positionalArg_reads hgo) .sym) fun early hearly => ?_
    refine .next (.opt (.behind .sym (lateArgs_reads hgo))) fun late hlate => ?_
    exact .pure (lateArgs_within hearly (forall_mem_getD hlate))
  · exact .pass (lateArgs_reads hgo) fun late hlate => .pure (lateArgs_within (List.forall_mem_nil _) hlate)

theorem arguments_reads : Reads n true (Args.Within n) (arguments go) := fun _ =>
  .or (.pass (hgo .args) fun _ ha => .skip (.opt .sym) <| .skip (.ahead .sym) <| .pure ha) .explaining

theorem forHead_reads : Reads n true (fun r => r.2.Within n) (forHead go) := fun _ =>
  .next (.opt .word) fun _ _ => .cross .word <| .next (hgo .starTargets) fun _ htarget => .skip .word <| .pure htarget

theorem clause_reads : Reads n true (Clause.Within n) (clause go) := by
  refine fun _ => .ifFits (forHead_reads hgo) (fun ⟨async, target⟩ htarget => ?_) .explaining
  exact .pass (hgo .disjunction) fun _ hiter => .next (.many (.behind .word (hgo .disjunction))) fun _ hconditions =>
    .pure ⟨htarget, hiter, hconditions⟩

theorem comprehension_reads {kind : ComprehensionKind} {opening closing : Symbol} {element : Parse Expr}
    (h : ReadsExpr n element) :
    ReadsExpr n (comprehension go kind opening closing element) := fun _ =>
  .or (.spanned fun _ => .cross .sym <| .next h fun _ he => .next (hgo .clauses) fun _ hcs =>
    .skip .sym <| .node fun _ hs => ⟨hs, he, hcs⟩) .explaining

theorem generator_reads : ReadsExpr n (generator go) :=
  comprehension_reads hgo <| .or (hgo .assignmentExpression) (unassigned_reads hgo)

omit hgo in
theorem bracketed_reads {kind : DisplayKind} {opening closing : Symbol} {items : Parse (List Expr)}
    (h : ReadsList n (Expr.Within n) items) : ReadsExpr n (bracketed kind opening closing items) :=
  .spanned fun _ => .pass (.between (.opt h)) fun _ hes => .node fun _ hs => ⟨hs, forall_mem_getD hes⟩

theorem set_reads : ReadsExpr n (set go) :=
  .spanned fun _ => .pass (.between (hgo .starNameds)) fun _ hes => .node fun _ hs => ⟨hs, hes⟩

theorem tuple_reads : ReadsExpr n (tuple go) :=
  bracketed_reads fun _ => .pass (hgo .starNamed) fun _ he => .skip .sym <| .next (.opt (hgo .starNameds))
    fun _ hrest => .pure (List.forall_mem_cons.2 ⟨he, forall_mem_getD hrest⟩)

theorem group_reads : ReadsExpr n (group go) := fun _ =>
  .or (.ofPast (.between (.or (hgo .yieldExpr) (hgo .namedExpression)))) .explaining

theorem pair_reads : Reads n true (fun pair => pair.1.Within n ∧ pair.2.Within n) (pair go) := fun _ =>
  .pass (hgo .expression) fun _ hkey => .skip .sym <| .next (hgo .expression) fun _ hvalue =>
    .pure ⟨hkey, hvalue⟩

theorem dictItem_reads : Reads n true (DictItem.Within n) (dictItem go) := fun _ =>
  .or (.cross .sym <| .next (hgo .bitwiseOr) fun _ he => .pure he)
    (.pass (pair_reads hgo) fun _ hpair => .pure hpair)

theorem badValue_reads : ReadsAny n false (badValue go) := fun _ =>
  .alt (.next (hgo .expression) fun _ _ => .skip .sym <| .next .sym fun _ _ =>
      .next (hgo .bitwiseOr) fun _ _ => .raiseAt) <|
    .alt (.next (hgo .expression) fun _ _ => .next .sym fun _ _ => .skip (.ahead (.or .sym .sym)) <| .raiseAt) .miss

theorem badItems_reads : ReadsAny n false (badItems go) := fun _ =>
  .or (.next (.sepBy1 (dictItem_reads hgo) .sym) fun _ _ => .skip .sym <| .or
    (.next (hgo .expression) fun _ _ => .skip (.notAhead .sym) <| .raiseAt) (.of (badValue_reads hgo)))
    (.of (badValue_reads hgo))

theorem dict_reads : ReadsExpr n (dict go) := fun _ =>
  .or (.spanned fun _ => .pass (.between (.opt (.commaList (dictItem_reads hgo)))) fun _ hitems =>
      .node fun _ hs => ⟨hs, forall_mem_getD hitems⟩)
    (.skip (.between (badItems_reads hgo)) .miss)

theorem dictComprehension_reads : ReadsExpr n (dictComprehension go) := fun _ =>
  .or (.spanned fun _ => .cross .sym <| .next (pair_reads hgo) fun _ hpair =>
    .next (hgo .clauses) fun _ hcs => .skip .sym <|
    .node fun _ hs => ⟨hs, hpair.1, hpair.2, hcs⟩) .explaining

omit hgo

theorem number_reads : ReadsExpr n number := by
  refine fun _ => .pass (.accept rfl) fun t ht => ?_
  split
  · exact .expr ht.within
  · exact .raiseAt

theorem constant_reads {w : Word} {value : Literal} : ReadsExpr n (constant w value) := fun _ =>
  .pass .word fun _ ht => .expr ht.within

theorem constants_reads : ReadsExpr n constants := fun _ =>
  .one constant_reads <| .one constant_reads <| .one constant_reads .miss

include hgo

theorem atom_reads : ReadsExpr n (atom go) := fun _ =>
  .one nameExpr_reads <|
  .one constants_reads <|
  .alt (.skip (.ahead (.accept rfl)) <| .ofPast (hgo .strings)) <|
  .one number_reads <|
  .alt (.skip (.ahead .sym) <| .one (hgo .tuple) <| .one (group_reads hgo) <|
    .one (hgo .generator) .miss) <|
  .alt (.skip (.ahead .sym) <| .one (hgo .list) <|
    .one (comprehension_reads hgo (hgo .namedExpression)) .miss) <|
  .alt (.skip (.ahead .sym) <| .one (dict_reads hgo) <| .one (set_reads hgo) <|
    .one (dictComprehension_reads hgo) <|
    .one (comprehension_reads hgo (hgo .namedExpression)) .miss) <|
  .alt (.pass .sym fun _ ht => .expr ht.within) .miss

end

end CodeMigration.Source.Grammar
