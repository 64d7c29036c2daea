import CodeMigration.Proofs.SilentEdits

/-! # Trees that were moved to the new web framework

An edit replaces the calls, the assignments and the imports that the new framework has no use for. A call can give way
to what it was given, so a new callee or a new assigned value may come to light on the way; since parts are edited
before the node around them, it is seen there. After one edit none of them is left, anywhere in the tree, and a tree
that has none of them and no routes is kept. -/

namespace CodeMigration.Flask

open Source
open Outline (Alls)

/-- A node that an edit has nothing to replace at: no call of `jsonify` or `abort` by its plain name, no plain assignment
of what `Flask` or `Blueprint` gives when called so, and no import of a moved name from a module of the old framework.
An assignment with a hint or an operator is no concern of an edit. -/
def IsMoved : Label → Prop
  | .expr (.call _ (.name _ id) _ _) => id ≠ "jsonify" ∧ id ≠ "abort"
  | .stmt (.assign _ _ (.call _ (.name _ id) _ _)) => id ≠ "Flask" ∧ id ≠ "Blueprint"
  | .stmt (.importFrom _ (some name) names _) => isFlaskModule name = true → ∀ a ∈ names, a.name ∉ movedNames
  | _ => True

variable {P : Label → Prop} {args : List Expr} {func e : Expr} {s : Span} {keywords : List Keyword}

theorem all_headD (h : Alls P (exprOutlines args)) (he : e.outline.All P) : (args.headD e).outline.All P := by
  cases args with
  | nil => exact he
  | cons a args => exact (Outline.alls_cons.1 h).1

/-- What takes the place of a call with moved parts. The first argument of `jsonify` is one of these parts, and a call
that stays is none of the two. -/
theorem all_editCall (hfunc : func.outline.All IsMoved) (hargs : Alls IsMoved (exprOutlines args))
    (hkeywords : Alls IsMoved (keywordOutlines keywords)) : (editCall s func args keywords).1.outline.All IsMoved := by
  have hempty : (Expr.dict .unknown []).outline.All IsMoved := by
    simp [Expr.outline, keyOutlines, valueOutlines, IsMoved]
  have hcode : (Expr.literal .unknown (.int 500)).outline.All IsMoved := by simp [Expr.outline, IsMoved]
  unfold editCall
  split
  case h_1 => exact all_headD hargs hempty
  case h_2 =>
    have hvalue := all_headD hargs hcode
    simp only [Expr.outline, exprOutlines, keywordOutlines, List.cons_append, List.nil_append, Outline.all_node,
      Outline.alls_cons, Outline.alls_nil]
    exact ⟨⟨by decide, by decide⟩, ⟨trivial, trivial⟩, ⟨trivial, hvalue, trivial⟩, trivial⟩
  case h_3 hjsonify habort =>
    rw [Expr.outline, Outline.all_node]
    refine ⟨?_, by simp [hfunc, hargs, hkeywords]⟩
    cases func with
    | name ns id =>
      refine ⟨?_, ?_⟩
      · rintro rfl
        exact hjsonify ns rfl
      · rintro rfl
        exact habort ns rfl
    | _ => trivial

theorem alls_keywords (h : (Expr.call s func args keywords).outline.All P) : Alls P (keywordOutlines keywords) :=
  (Outline.alls_append.1 (Outline.all_node.1 h).2).2

theorem all_urlPrefix? (h : Alls P (keywordOutlines keywords)) : ∀ e ∈ urlPrefix? keywords, e.outline.All P := by
  fun_induction urlPrefix? keywords with
  | case1 =>
    intro e he
    cases he
  | case2 value rest =>
    rintro e ⟨⟩
    obtain ⟨hvalue, -⟩ := Outline.alls_cons.1 h
    exact (Outline.alls_cons.1 (Outline.all_node.1 hvalue).2).1
  | case3 k rest hk ih =>
    obtain ⟨name, value⟩ := k
    exact ih (Outline.alls_cons.1 h).2

theorem all_editAssign {targets : List Expr} {value : Expr} (htargets : Alls IsMoved (exprOutlines targets))
    (hvalue : value.outline.All IsMoved) : (editAssign s targets value).1.outline.All IsMoved := by
  unfold editAssign
  split
  case h_1 => simp [Stmt.outline, Expr.outline, exprOutlines, IsMoved, htargets, alls_keywords hvalue]
  case h_2 cs ns args keywords =>
    have hprefix := all_urlPrefix? (alls_keywords hvalue)
    cases hfirst : urlPrefix? keywords with
    | none => simp [Stmt.outline, Expr.outline, exprOutlines, keywordOutlines, IsMoved, htargets]
    | some e => simp [Stmt.outline, Expr.outline, exprOutlines, keywordOutlines, IsMoved, htargets, hprefix e hfirst]
  case h_3 hflask hblueprint =>
    rw [Stmt.outline, Outline.all_node]
    refine ⟨?_, by simp [htargets, hvalue]⟩
    cases value with
    | call cs func args keywords =>
      cases func with
      | name ns id =>
        refine ⟨?_, ?_⟩
        · rintro rfl
          exact hflask cs ns args keywords rfl
        · rintro rfl
          exact hblueprint cs ns args keywords rfl
      | _ => trivial
    | _ => trivial

theorem isFlaskModule_fastapi : isFlaskModule "fastapi" = false := by decide +kernel

theorem all_importFrom {source : Option String} {names : List Alias} {level : Nat}
    (h : ∀ name ∈ source, isFlaskModule name = true → ∀ a ∈ names, a.name ∉ movedNames) :
    (Stmt.importFrom s source names level).outline.All IsMoved := by
  rw [Stmt.outline, Outline.all_node]
  refine ⟨?_, Outline.alls_nil⟩
  cases source with
  | none => trivial
  | some name => exact h name rfl

theorem all_editImportFrom (s : Span) (source : Option String) (names : List Alias) (level : Nat) :
    ∀ t ∈ (editImportFrom s source names level).1, t.outline.All IsMoved := by
  intro t ht
  cases source with
  | none =>
    cases ht
    apply all_importFrom
    intro name hname
    cases hname
  | some name =>
    by_cases hflask : isFlaskModule name = true
    · rw [editImportFrom_of_flask hflask] at ht
      split at ht
      · cases ht
        apply all_importFrom
        rintro name' ⟨⟩ hflask'
        rw [isFlaskModule_fastapi] at hflask'
        cases hflask'
      · split at ht
        · cases ht
          apply all_importFrom
          intro name' _ _ a ha
          simpa using (List.mem_filter.1 ha).2
        · cases ht
    · rw [editImportFrom, if_neg hflask] at ht
      cases ht
      apply all_importFrom
      rintro name' ⟨⟩ hflask'
      exact absurd hflask' hflask

theorem pass_turns_moved : pass.Turns (fun _ => True) IsMoved where
  inner _ := trivial
  handler _ _ _ := trivial
  expr e he _ := by
    cases e with
    | call => cases he
    | _ => trivial
  stmt s s' hs _ h := by
    cases s with
    | assign | importModules | importFrom => cases hs
    | _ =>
      cases h
      trivial
  call _ _ _ _ _ hfunc hargs hkeywords := all_editCall hfunc hargs hkeywords
  assign _ _ _ _ htargets hvalue := all_editAssign htargets hvalue
  importModules s names _ := Outline.all_node.2 ⟨trivial, Outline.alls_nil⟩
  importFrom s source names level _ := all_editImportFrom s source names level
  decorator _ _ _ _ := trivial

/-- Where a route stands and what is said of it, if a decorator is one. -/
def route? : Expr → Option (Span × List Keyword)
  | .call s (.member _ _ attr) _ keywords => if attr = "route" then some (s, keywords) else none
  | _ => none

/-- A function without routes and an import that names something, or any other node. -/
def IsSettled : Label → Prop
  | .stmt (.functionDef _ false _ _ _ decorators _) => ∀ e ∈ decorators, route? e = none
  | .stmt (.importFrom _ _ names _) => names ≠ []
  | _ => True

/-- A decorator that is no route is kept, and nothing is noted about it. -/
theorem editDecorator_of_route? (h : route? e = none) : editDecorator e = (e, []) := by
  unfold editDecorator
  split
  · cases h
  · rfl

theorem keeps_of_isMoved {l : Label} (hmoved : IsMoved l) (hsettled : IsSettled l) : pass.Keeps l := by
  cases l with
  | expr e =>
    cases e with
    | call s func args keywords =>
      cases func with
      | name ns id =>
        obtain ⟨hjsonify, habort⟩ := hmoved
        simp [Pass.Keeps, pass, editCall, hjsonify, habort]
      | _ => rfl
    | _ => trivial
  | stmt s =>
    cases s with
    | assign s targets value =>
      cases value with
      | call cs func args keywords =>
        cases func with
        | name ns id =>
          obtain ⟨hflask, hblueprint⟩ := hmoved
          simp [Pass.Keeps, pass, editAssign, hflask, hblueprint]
        | _ => rfl
      | _ => rfl
    | importModules s names => rfl
    | importFrom s source names level =>
      refine editImportFrom_of_staying s level ?_ hsettled
      rintro name ⟨⟩
      exact hmoved
    | functionDef s async name params body decorators returns =>
      cases async with
      | true => rfl
      | false =>
        have hsame : decorators.map (fun e => (editDecorator e).1) = decorators.map id :=
          List.map_congr_left fun e he => by rw [editDecorator_of_route? (hsettled e he)]; rfl
        rw [List.map_id] at hsame
        exact hsame
    | _ => trivial
  | _ => trivial

/-- Whatever the tree, after an edit there is no call of `jsonify` or `abort`, no plain assignment of an application or a
blueprint of the old framework and no import of a moved name from it. -/
theorem all_edit_isMoved (m : Module) : (edit m).outline.All IsMoved := by
  apply Module.all_edit pass_turns_moved
  intro o _
  trivial

/-- Where there are no routes to replace, the trees of this form are exactly those that an edit keeps. -/
theorem edit_eq_self_iff {m : Module} (hsettled : m.outline.All IsSettled) : edit m = m ↔ m.outline.All IsMoved := by
  refine ⟨fun hkept => hkept ▸ all_edit_isMoved m, fun hm => ?_⟩
  apply Module.edit_of_keeps
  intro o ho
  exact keeps_of_isMoved (hm o ho) (hsettled o ho)

end CodeMigration.Flask
