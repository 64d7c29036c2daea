import CodeMigration.Proofs.SilentEdits

/-! # Texts patched by regular expressions

If something is found in a text and no change is made in its tree, the text is handed to regular expressions, whether
it has a tree or not. What was found is then of a kind for which there is no replacement, and the expressions may hit
other parts of the text, within its strings and comments too. Where none of them matches, the text stays as it is. -/

namespace CodeMigration

variable {text source : String} {m : Source.Module} {fs : List Finding} {t : Transformed}

namespace Source

mutual

def Expr.unplaced : Expr → Expr
  | .name _ id => .name .unknown id
  | .literal _ value => .literal .unknown value
  | .member _ value attr => .member .unknown value.unplaced attr
  | .byteMember _ value attr => .byteMember .unknown value.unplaced attr
  | .subscript _ value index => .subscript .unknown value.unplaced index.unplaced
  | .slice _ lower upper step => .slice .unknown (unplacedOpt lower) (unplacedOpt upper) (unplacedOpt step)
  | .starred _ value => .starred .unknown value.unplaced
  | .call _ func args keywords => .call .unknown func.unplaced (unplacedExprs args) (unplacedKeywords keywords)
  | .unary _ op operand => .unary .unknown op operand.unplaced
  | .binary _ op left right => .binary .unknown op left.unplaced right.unplaced
  | .logical _ op values => .logical .unknown op (unplacedExprs values)
  | .compare _ left ops rights => .compare .unknown left.unplaced ops (unplacedExprs rights)
  | .conditional _ test body orelse => .conditional .unknown test.unplaced body.unplaced orelse.unplaced
  | .lambda _ params body => .lambda .unknown params.unplaced body.unplaced
  | .walrus _ target value => .walrus .unknown target.unplaced value.unplaced
  | .await _ value => .await .unknown value.unplaced
  | .yield _ value => .yield .unknown (unplacedOpt value)
  | .yieldFrom _ value => .yieldFrom .unknown value.unplaced
  | .display _ kind items => .display .unknown kind (unplacedExprs items)
  | .dict _ items => .dict .unknown (unplacedItems items)
  | .comprehension _ kind element clauses =>
    .comprehension .unknown kind element.unplaced (unplacedClauses clauses)
  | .dictComprehension _ key value clauses =>
    .dictComprehension .unknown key.unplaced value.unplaced (unplacedClauses clauses)
  | .fstring _ parts => .fstring .unknown (unplacedExprs parts)
  | .formatted _ value conversion spec => .formatted .unknown value.unplaced conversion (unplacedOpt spec)

def unplacedExprs : List Expr → List Expr
  | [] => []
  | e :: rest => e.unplaced :: unplacedExprs rest

def unplacedOpt : Option Expr → Option Expr
  | none => none
  | some e => some e.unplaced

def unplacedKeywords : List Keyword → List Keyword
  | [] => []
  | .mk name value :: rest => .mk name value.unplaced :: unplacedKeywords rest

def unplacedItems : List DictItem → List DictItem
  | [] => []
  | .pair key value :: rest => .pair key.unplaced value.unplaced :: unplacedItems rest
  | .spread value :: rest => .spread value.unplaced :: unplacedItems rest

def unplacedClauses : List Clause → List Clause
  | [] => []
  | .mk async target iter conditions :: rest =>
    .mk async target.unplaced iter.unplaced (unplacedExprs conditions) :: unplacedClauses rest

def Param.unplaced : Param → Param
  | .mk name hint default => .mk name (unplacedOpt hint) (unplacedOpt default)

def unplacedParams : List Param → List Param
  | [] => []
  | q :: rest => q.unplaced :: unplacedParams rest

def unplacedOptParam : Option Param → Option Param
  | none => none
  | some q => some q.unplaced

def Params.unplaced : Params → Params
  | .mk positional plain rest keywordOnly keywords =>
    .mk (unplacedParams positional) (unplacedParams plain) (unplacedOptParam rest) (unplacedParams keywordOnly)
      (unplacedOptParam keywords)

end

mutual

def Pattern.unplaced : Pattern → Pattern
  | .value e => .value e.unplaced
  | .singleton value => .singleton value
  | .sequence items => .sequence (unplacedPatterns items)
  | .mapping keys items rest => .mapping (unplacedExprs keys) (unplacedPatterns items) rest
  | .classOf cls items names named =>
    .classOf cls.unplaced (unplacedPatterns items) names (unplacedPatterns named)
  | .star name => .star name
  | .capture q name => .capture (unplacedOptPattern q) name
  | .anyOf choices => .anyOf (unplacedPatterns choices)

def unplacedPatterns : List Pattern → List Pattern
  | [] => []
  | q :: rest => q.unplaced :: unplacedPatterns rest

def unplacedOptPattern : Option Pattern → Option Pattern
  | none => none
  | some q => some q.unplaced

end

def WithItem.unplaced (item : WithItem) : WithItem := ⟨item.context.unplaced, unplacedOpt item.target⟩

mutual

def Stmt.unplaced : Stmt → Stmt
  | .expr _ value => .expr .unknown value.unplaced
  | .assign _ targets value => .assign .unknown (unplacedExprs targets) value.unplaced
  | .augAssign _ target op value => .augAssign .unknown target.unplaced op value.unplaced
  | .annAssign _ target hint value simple =>
    .annAssign .unknown target.unplaced hint.unplaced (unplacedOpt value) simple
  | .ret _ value => .ret .unknown (unplacedOpt value)
  | .delete _ targets => .delete .unknown (unplacedExprs targets)
  | .assert _ test message => .assert .unknown test.unplaced (unplacedOpt message)
  | .raise _ exc cause => .raise .unknown (unplacedOpt exc) (unplacedOpt cause)
  | .pass _ => .pass .unknown
  | .breakLoop _ => .breakLoop .unknown
  | .continueLoop _ => .continueLoop .unknown
  | .global _ names => .global .unknown names
  | .nonlocal _ names => .nonlocal .unknown names
  | .importModules _ names => .importModules .unknown names
  | .importFrom _ source names level => .importFrom .unknown source names level
  | .functionDef _ async name params body decorators returns =>
    .functionDef .unknown async name params.unplaced (unplacedStmts body) (unplacedExprs decorators)
      (unplacedOpt returns)
  | .classDef _ name bases keywords body decorators =>
    .classDef .unknown name (unplacedExprs bases) (unplacedKeywords keywords) (unplacedStmts body)
      (unplacedExprs decorators)
  | .ifElse _ test body orelse => .ifElse .unknown test.unplaced (unplacedStmts body) (unplacedStmts orelse)
  | .whileLoop _ test body orelse => .whileLoop .unknown test.unplaced (unplacedStmts body) (unplacedStmts orelse)
  | .forLoop _ async target iter body orelse =>
    .forLoop .unknown async target.unplaced iter.unplaced (unplacedStmts body) (unplacedStmts orelse)
  | .withBlock _ async items body => .withBlock .unknown async (items.map WithItem.unplaced) (unplacedStmts body)
  | .tryBlock _ star body handlers orelse cleanup =>
    .tryBlock .unknown star (unplacedStmts body) (unplacedHandlers handlers) (unplacedStmts orelse)
      (unplacedStmts cleanup)
  | .matchCases _ subject cases => .matchCases .unknown subject.unplaced (unplacedCases cases)

def unplacedStmts : List Stmt → List Stmt
  | [] => []
  | s :: rest => s.unplaced :: unplacedStmts rest

def unplacedHandlers : List Handler → List Handler
  | [] => []
  | .mk _ type name body :: rest =>
    .mk .unknown (unplacedOpt type) name (unplacedStmts body) :: unplacedHandlers rest

def unplacedCases : List Case → List Case
  | [] => []
  | .mk q guard body :: rest => .mk q.unplaced (unplacedOpt guard) (unplacedStmts body) :: unplacedCases rest

end

def Module.unplaced (m : Module) : Module := ⟨unplacedStmts m.body⟩

/-- A text has a tree, and but for places it is a given one. -/
def Module.IsReadFrom (m : Module) (text : String) : Prop :=
  ∃ m', Module.ofString text = .ok m' ∧ m'.unplaced = m.unplaced

end Source

theorem Text.ofPoints_toPoints (s : String) : Text.ofPoints (Text.toPoints s) = s := by
  have hchars : (s.toList.map Char.toNat).map Char.ofNat = s.toList := by
    rw [List.map_map]
    exact (List.map_congr_left fun c _ => Char.ofNat_toNat c).trans (List.map_id _)
  rw [Text.ofPoints, Text.toPoints, hchars, String.ofList_toList]

namespace Regex

variable {c : Compiled}

theorem replaceFrom_of_searchFrom {fuel : Nat} {pieces : List Piece} {points before : List Nat}
    {position : Nat} (h : searchFrom c fuel before position points = none) :
    replaceFrom c fuel pieces before position 0 points = points := by
  induction points generalizing before position with
  | nil => rw [replaceFrom]
  | cons n points ih =>
    rw [searchFrom] at h
    rw [replaceFrom]
    cases hmatch : matchNodes c.widths fuel c.flags c.nodes ⟨before, n :: points, position, []⟩ some with
    | some place =>
      rw [hmatch] at h
      cases h
    | none =>
      rw [hmatch] at h
      exact congrArg (n :: ·) (ih h)

theorem Compiled.replace_of_search? (h : c.search? text = none)
    (pieces : List Piece) : c.replace pieces text = text := by
  rw [Compiled.replace]
  exact (congrArg Text.ofPoints (replaceFrom_of_searchFrom h)).trans (Text.ofPoints_toPoints text)

end Regex

namespace Fix

def fits (f : Fix) (text : String) : Bool := (Regex.compile f.pattern).toOption.any fun c => (c.search? text).isSome

theorem apply_of_not_fits {f : Fix} (h : f.fits text = false) : f.apply text = text := by
  rw [fits] at h
  rw [apply]
  cases hc : Regex.compile f.pattern with
  | error e => rfl
  | ok c =>
    rw [hc] at h
    exact Regex.Compiled.replace_of_search? (Option.isSome_eq_false_iff.1 h |> Option.isNone_iff_eq_none.1) f.pieces

theorem applyAll_of_not_fits {fixes : List Fix} (h : ∀ f ∈ fixes, f.fits text = false) :
    applyAll fixes text = text := by
  induction fixes with
  | nil => rfl
  | cons f fixes ih =>
    obtain ⟨hf, hrest⟩ := List.forall_mem_cons.1 h
    rw [applyAll, List.foldl_cons, apply_of_not_fits hf]
    exact ih hrest

end Fix

namespace Legacy

theorem isUnfixed_of_changes_nil (h : changes m = [])
    (hfs : scan source m = .ok fs) : ∀ f ∈ fs, IsUnfixed f.kind f.description := by
  intro f hf
  obtain ⟨q, hq, hreports⟩ := exists_reports_of_mem (forall₂_reports hfs) hf
  have hnone : ((usesAt (Source.SourceText.ofString source).plain (sites m)).filterMap fun q => q.2.change?) = [] := by
    rw [usesAt_filterMap]
    exact List.Perm.eq_nil (h ▸ (changes_perm_sites m).symm)
  rw [hreports.kind, hreports.description]
  exact (listed_of_mem_usesAt q hq).replacementFor?.2.1 (List.filterMap_eq_nil_iff.1 hnone q hq)

end Legacy

namespace Flask

open Source

def IsUnfixed (kind : String) : Prop :=
  kind ∈ ["flask_method_decorator", "flask_request_form", "flask_request_args", "flask_request_json",
    "flask_request_files", "flask_request_cookies", "flask_render_template", "flask_redirect"]

instance (kind : String) : Decidable (IsUnfixed kind) := inferInstanceAs (Decidable (_ ∈ _))

theorem isUnfixed_verb : IsUnfixed "flask_method_decorator" := by decide

theorem isUnfixed_renderTemplate : IsUnfixed "flask_render_template" := by decide

theorem isUnfixed_redirect : IsUnfixed "flask_redirect" := by decide

theorem isUnfixed_requestPart (part : RequestPart) : IsUnfixed ("flask_request_" ++ part.name) := by
  cases part <;> decide +kernel

variable {told : Told} {function : String} {q : Span × Site}

theorem isUnfixed_of_decorator {e : Expr} (h : ∀ n ∈ (editDecorator e).2, n.IsName) (hq : q ∈ decoratorSites function e)
    (htold : q.2.told = .ok told) : IsUnfixed told.kind := by
  unfold decoratorSites at hq
  split at hq
  · rename_i s ms value attr args keywords
    split at hq
    · rename_i hroute
      cases beq_iff_eq.1 hroute
      simp only [editDecorator] at h
      split at h
      · exact (h _ List.mem_cons_self).elim
      · exact (h _ List.mem_cons_self).elim
    · split at hq
      · cases List.mem_singleton.1 hq
        cases htold
        exact isUnfixed_verb
      · cases hq
  · cases hq

theorem isUnfixed_of_inner {l : Label} (h : pass.Silent Event.IsName l) (hq : q ∈ innerSites function l)
    (htold : q.2.told = .ok told) : IsUnfixed told.kind := by
  unfold innerSites at hq
  split at hq
  · obtain ⟨part, -, hpart⟩ := Option.map_eq_some_iff.1 (Option.mem_toList.1 hq)
    cases hpart
    cases htold
    exact isUnfixed_requestPart part
  · rename_i s ns id args keywords
    obtain ⟨helper, hid, hhelper⟩ := Option.map_eq_some_iff.1 (Option.mem_toList.1 hq)
    cases hhelper
    cases htold
    unfold Helper.ofName? at hid
    split at hid <;> cases hid
    · exact (h (.change .jsonifyCall) List.mem_cons_self).elim
    · exact isUnfixed_renderTemplate
    · exact isUnfixed_redirect
    · exact (h (.change .abortCall) List.mem_cons_self).elim
  · cases hq

theorem not_mem_importSites {s : Span} {names : List Alias} {level : Nat}
    (hflask : isFlaskModule source = true) (h : ∀ n ∈ (editImportFrom s (some source) names level).2, n.IsName)
    (q : Span × Site) : q ∉ importSites s names := by
  intro hq
  obtain ⟨⟨name, what⟩, hname, hwhat⟩ := List.mem_filterMap.1 hq
  dsimp only at hwhat
  split at hwhat
  · rename_i hany
    obtain ⟨a, ha, haname⟩ := List.any_eq_true.1 hany
    -- Each of the names that are reported is one of those that are replaced.
    have hmoved : a.name ∈ movedNames := by
      rw [beq_iff_eq.1 haname]
      simp only [List.mem_cons, Prod.mk.injEq, List.not_mem_nil, or_false] at hname
      rcases hname with ⟨rfl, -⟩ | ⟨rfl, -⟩ | ⟨rfl, -⟩ | ⟨rfl, -⟩ <;> decide
    exact not_mem_movedNames_of_notes hflask h a ha hmoved
  · cases hwhat

theorem isUnfixed_of_site {m : Module} (hm : m.Complete) (h : changes m = .ok []) (hq : q ∈ sites m)
    (htold : q.2.told = .ok told) : IsUnfixed told.kind := by
  have hspares := Module.spares_of_notes pass_tells hm (isName_of_changes h)
  obtain ⟨o, ho, hq⟩ := List.mem_flatMap.1 hq
  have hsilent := (hspares o ho).1
  unfold sitesOf at hq
  split at hq
  case h_1 s source names level hl =>
    rw [hl] at hsilent
    have hevents : ∀ n ∈ (editImportFrom s (some source) names level).2, n.IsName := hsilent
    split at hq
    · rename_i hflask
      exact absurd hq (not_mem_importSites hflask hevents q)
    · cases hq
  case h_2 hl =>
    rw [hl] at hsilent
    exact (hsilent (.change .createApp) List.mem_concat_self).elim
  case h_3 hl =>
    rw [hl] at hsilent
    rcases List.mem_append.1 hq with hq | hq
    · obtain ⟨e, he, hq⟩ := List.mem_flatMap.1 hq
      exact isUnfixed_of_decorator (fun n hn => hsilent n (List.mem_flatMap.2 ⟨e, he, hn⟩)) hq htold
    · obtain ⟨l, hl, hq⟩ := List.mem_flatMap.1 hq
      obtain ⟨o', ho', rfl⟩ := Outline.mem_breadthFirst hl
      exact isUnfixed_of_inner (hspares o' (Outline.mem_preorder_trans ho' ho)).1 hq htold
  case h_4 => cases hq

end Flask

def Finding.IsUnfixed (f : Finding) : MigrationKind → Prop
  | .legacy => Legacy.IsUnfixed f.kind f.description
  | .flask => Flask.IsUnfixed f.kind

/-- If a module can be transformed and no change is noted, nothing that is found in it has a replacement. -/
theorem isUnfixed_of_transform {kind : MigrationKind} (hm : Source.Module.ofString source = .ok m)
    (ht : transform kind source = .ok t) (hnone : t.changes = []) (hfs : analyze kind source = .ok fs) : ∀ f ∈ fs, f.IsUnfixed kind := by
  rw [analyze, hm] at hfs
  cases kind with
  | legacy =>
    rw [transform, Legacy.transform, hm] at ht
    dsimp only at ht
    obtain ⟨code, -, ht⟩ := of_bind_eq_ok ht
    cases ht
    exact Legacy.isUnfixed_of_changes_nil (List.map_eq_nil_iff.1 hnone) hfs
  | flask =>
    rw [transform, Flask.transform, hm] at ht
    dsimp only at ht
    obtain ⟨cs, hchanges, ht⟩ := of_bind_eq_ok ht
    obtain ⟨code, -, ht⟩ := of_bind_eq_ok ht
    cases ht
    rw [List.map_eq_nil_iff.1 hnone] at hchanges
    intro f hf
    obtain ⟨q, hq, ⟨told, htold, hkind, -⟩, -⟩ := Flask.exists_tells_of_report hfs hf
    rw [Finding.IsUnfixed, hkind]
    exact Flask.isUnfixed_of_site (Source.Module.complete_of_ofString hm) hchanges hq htold

/-- A text in whose tree no change is noted is left alone, unless something is found in it and it can be
transformed. -/
theorem fixText_of_no_changes {name : String}
    (hnone : ∀ t, transform (kindFor name) source = .ok t → t.changes = []) :
    (fixText name source).fixed = 0 ∧ (fixText name source).code = source ∨
      ∃ fs t, analyze (kindFor name) source = .ok fs ∧ fs ≠ [] ∧ transform (kindFor name) source = .ok t ∧
        fixText name source = ⟨fs.length, fs.length, Fix.applyAll (Fix.forName name) source⟩ := by
  obtain ⟨-, hr⟩ | ⟨fs, hfs, ⟨-, hr⟩ | ⟨t, ht, hr⟩⟩ := fixText_cases name source
  · exact .inl (by simp [hr])
  · exact .inl (by simp [hr])
  · rw [fixedText, if_pos (hnone t ht)] at hr
    by_cases hfound : fs = []
    · exact .inl (by simp [hr, hfound])
    · exact .inr ⟨fs, t, hfs, hfound, ht, by rw [hr, if_neg hfound]⟩

/-- A text that has a tree, with no change of the tree noted, is left as it is or patched. It is patched if something
is found in it; then none of that has a replacement, and all of it is counted as fixed. The tree of the result is that
of the text, but for places, if nothing is found, if no pattern matches anywhere in the text, or else exactly if the
patched text happens to have this tree. -/
theorem unnoted_text_left_or_patched {name source : String} {m : Source.Module}
    (hm : Source.Module.ofString source = .ok m)
    (hnone : ∀ t, transform (kindFor name) source = .ok t → t.changes = []) :
    ((fixText name source).fixed = 0 → (fixText name source).code = source) ∧
      ((fixText name source).fixed ≠ 0 →
        (fixText name source).code = Fix.applyAll (Fix.forName name) source ∧
        ∃ fs, analyze (kindFor name) source = .ok fs ∧ (fixText name source).fixed = fs.length ∧
          ∀ f ∈ fs, f.IsUnfixed (kindFor name)) ∧
      ((∀ f ∈ Fix.forName name, f.fits source = false) → (fixText name source).code = source) ∧
      (m.IsReadFrom (fixText name source).code ↔
        (fixText name source).fixed = 0 ∨ m.IsReadFrom (Fix.applyAll (Fix.forName name) source)) := by
  have hsame : m.IsReadFrom source := ⟨m, hm, rfl⟩
  rcases fixText_of_no_changes hnone with ⟨hfixed, hcode⟩ | ⟨fs, t, hfs, hne, ht, hresult⟩
  · refine ⟨fun _ => hcode, fun h => absurd hfixed h, fun _ => hcode, ?_⟩
    rw [hcode]
    exact ⟨fun _ => .inl hfixed, fun _ => hsame⟩
  · have hpos : fs.length ≠ 0 := mt List.length_eq_zero_iff.1 hne
    rw [hresult]
    refine ⟨fun h => absurd h hpos, fun _ => ⟨rfl, fs, hfs, rfl, ?_⟩, fun h => Fix.applyAll_of_not_fits h, ?_⟩
    · exact isUnfixed_of_transform hm ht (hnone t ht) hfs
    · exact ⟨.inr, fun h => h.resolve_left hpos⟩

/-- A division, for which there is no replacement, and a text that reads like an old call. -/
def quotedCall : String := "x = 4 / 2\ns = 'xrange(3)'\n"

theorem transform_quotedCall (ht : transform (kindFor "py2to3") quotedCall = .ok t) :
    t.changes = [] := by
  have hnone : ((transform (kindFor "py2to3") quotedCall).toOption.map Transformed.changes) = some [] := by
    decide +kernel
  rw [ht] at hnone
  exact Option.some.inj hnone

theorem exists_ofString_quotedCall : ∃ m, Source.Module.ofString quotedCall = .ok m := by
  have hread : (Source.Module.ofString quotedCall).toOption.any (fun _ => true) = true := by decide +kernel
  obtain ⟨m, hm, -⟩ := Legacy.exists_ok_of_any hread
  exact ⟨m, hm⟩

theorem fixText_quotedCall : fixText "py2to3" quotedCall = ⟨1, 1, "x = 4 / 2\ns = 'range(3)'\n"⟩ := by decide +kernel

theorem unnoted_text_left_or_patched_quotedCall :
    ∃ m, Source.Module.ofString quotedCall = .ok m ∧
      (∀ t, transform (kindFor "py2to3") quotedCall = .ok t → t.changes = []) ∧
      (fixText "py2to3" quotedCall).fixed = 1 ∧
      (fixText "py2to3" quotedCall).code = Fix.applyAll (Fix.forName "py2to3") quotedCall ∧
      (m.IsReadFrom (fixText "py2to3" quotedCall).code ↔
        m.IsReadFrom (Fix.applyAll (Fix.forName "py2to3") quotedCall)) := by
  obtain ⟨m, hm⟩ := exists_ofString_quotedCall
  have hfixed : (fixText "py2to3" quotedCall).fixed = 1 := by rw [fixText_quotedCall]
  have hpatched : (fixText "py2to3" quotedCall).fixed ≠ 0 := hfixed ▸ Nat.one_ne_zero
  have hnone : ∀ t, transform (kindFor "py2to3") quotedCall = .ok t → t.changes = [] := fun _ => transform_quotedCall
  obtain ⟨-, hpatch, -, hread⟩ := unnoted_text_left_or_patched hm hnone
  exact ⟨m, hm, hnone, hfixed, (hpatch hpatched).1, hread.trans (or_iff_right hpatched)⟩

/-- The call within the text gives way, so the tree is not what it was. -/
theorem quotedCall_not_read_from_code :
    ∃ m t, Source.Module.ofString quotedCall = .ok m ∧ transform (kindFor "py2to3") quotedCall = .ok t ∧
      t.changes = [] ∧ (fixText "py2to3" quotedCall).code = "x = 4 / 2\ns = 'range(3)'\n" ∧
      ¬ m.IsReadFrom (fixText "py2to3" quotedCall).code := by
  obtain ⟨m, hm⟩ := exists_ofString_quotedCall
  have hsome : (transform (kindFor "py2to3") quotedCall).toOption.any (fun _ => true) = true := by decide +kernel
  obtain ⟨t, ht, -⟩ := Legacy.exists_ok_of_any hsome
  have hcode : (fixText "py2to3" quotedCall).code = "x = 4 / 2\ns = 'range(3)'\n" := by rw [fixText_quotedCall]
  have hprints : ((Source.Module.ofString quotedCall).toOption.map fun m => m.unplaced.print.toOption) ≠
      (Source.Module.ofString "x = 4 / 2\ns = 'range(3)'\n").toOption.map fun m => m.unplaced.print.toOption := by
    decide +kernel
  refine ⟨m, t, hm, ht, transform_quotedCall ht, hcode, ?_⟩
  rw [hcode]
  rintro ⟨m', hm', hsame⟩
  rw [hm, hm'] at hprints
  apply hprints
  dsimp only [Except.toOption, Option.map_some]
  rw [hsame]

end CodeMigration
