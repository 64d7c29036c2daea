import CodeMigration.Proofs.RouteOrder
import Mathlib.Data.List.Perm.Basic

/-! # Uses in functions that lie in functions

A scan looks through all that a plain function holds, the functions inside it as well, and then visits these in their
turn. So a use is reported once for each plain function around it: once just if it lies in one of them only. -/

namespace CodeMigration.Flask

open Source

mutual

/-- The nodes of an outline, each with the plain functions around it, the outermost first. -/
def nested (around : List String) : Outline → List (List String × Label)
  | .node l ps => (around, l) :: nesteds (around ++ (functionAt l).map Prod.fst) ps

def nesteds (around : List String) : List Outline → List (List String × Label)
  | [] => []
  | o :: os => nested around o ++ nesteds around os

end

section
variable {α : Type} (f : Label → List α)

/-- Something that is said of nodes, once for each function around them. -/
def repeated (qs : List (List String × Label)) : List α := qs.flatMap fun q => q.1.flatMap fun _ => f q.2

def belowFunctions (os : List Outline) : List α :=
  (Outline.preorders os).flatMap fun q => (functionAt q.label).flatMap fun _ => q.tell f

variable {f}

mutual

theorem repeated_nested_perm (hf : ∀ l, functionAt l ≠ [] → f l = []) (around : List String) : ∀ o : Outline,
    (repeated f (nested around o)).Perm ((around.flatMap fun _ => o.tell f) ++ belowFunctions f [o])
  | .node l ps => by
    have hbelow : belowFunctions f [.node l ps] =
        (((functionAt l).map Prod.fst).flatMap fun _ => Outline.tells f ps) ++ belowFunctions f ps := by
      by_cases h : functionAt l = [] <;> simp [belowFunctions, Outline.preorders, Outline.preorder, Outline.label, h]
      rw [hf l h, List.nil_append, List.flatMap_map]
    have hparts := repeated_nesteds_perm hf (around ++ (functionAt l).map Prod.fst) ps
    have htells := List.flatMap_append_perm around (fun _ => f l) fun _ => Outline.tells f ps
    rw [nested, repeated, List.flatMap_cons, hbelow]
    simp only [Outline.tell_node]
    refine (hparts.append_left _).trans (.trans (.of_eq ?_) (htells.append_right _))
    simp only [List.flatMap_append, List.append_assoc]

theorem repeated_nesteds_perm (hf : ∀ l, functionAt l ≠ [] → f l = []) (around : List String) : ∀ os : List Outline,
    (repeated f (nesteds around os)).Perm ((around.flatMap fun _ => Outline.tells f os) ++ belowFunctions f os)
  | [] => by simp [repeated, nesteds, belowFunctions, Outline.preorders]
  | o :: os => by
    have hbelow : belowFunctions f (o :: os) = belowFunctions f [o] ++ belowFunctions f os := by
      simp [belowFunctions, Outline.preorders]
    have hsplit := (repeated_nested_perm hf around o).append (repeated_nesteds_perm hf around os)
    have htells := List.flatMap_append_perm around (fun _ => o.tell f) fun _ => Outline.tells f os
    rw [nesteds, repeated, List.flatMap_append, hbelow]
    simp only [Outline.tells_cons]
    refine hsplit.trans ?_
    refine .trans ?_ (htells.append_right _)
    simp only [List.append_assoc]
    exact (List.perm_append_comm_assoc ..).append_left _

end

end

/-- Where a use stands that is looked for inside of functions, and the kind that it is reported as. -/
def use? : Label → Option (Location × String)
  | .expr (.member s (.name _ "request") attr) =>
    (RequestPart.ofName? attr).map fun part => (.ofSpan s, "flask_request_" ++ part.name)
  | .expr (.call s (.name _ id) _ _) => (Helper.ofName? id).map fun h => (.ofSpan s, (h.told "").kind)
  | _ => none

def uses (m : Module) : List (List String × Location × String) :=
  (nested [] m.outline).filterMap fun q => (use? q.2).map (q.1, ·)

def useKinds : List String :=
  ["flask_request_form", "flask_request_args", "flask_request_json", "flask_request_files", "flask_request_cookies",
    "flask_jsonify_call", "flask_render_template", "flask_redirect", "flask_abort"]

def isOfUse (f : Finding) : Bool := useKinds.contains f.kind

def Site.use? (q : Span × Site) : Option (Location × String) :=
  match q.2 with
  | requestPart part _ => some (.ofSpan q.1, "flask_request_" ++ part.name)
  | helper h _ => some (.ofSpan q.1, (h.told "").kind)
  | _ => none

theorem filterMap_use?_innerSites (function : String) (l : Label) :
    (innerSites function l).filterMap Site.use? = (use? l).toList := by
  unfold innerSites
  split
  · rw [use?]
    cases RequestPart.ofName? _ <;> rfl
  · rw [use?]
    cases Helper.ofName? _ <;> rfl
  · rename_i hpart hhelper
    rw [use?.eq_3 l hpart hhelper]
    rfl

theorem filterMap_use?_decoratorSites (function : String) (e : Expr) :
    (decoratorSites function e).filterMap Site.use? = [] := by
  unfold decoratorSites
  split
  · split
    · rfl
    · split <;> rfl
  · rfl

theorem Tells.isOfUse_of_use? {q : Span × Site} {f : Finding} (h : Tells q f) (hq : Site.use? q = none) :
    isOfUse f = false := by
  obtain ⟨s, site⟩ := q
  obtain ⟨t, ht, hkind, -⟩ := h.told
  rw [isOfUse, hkind]
  cases site with
  | imported what =>
    cases ht
    cases what <;> decide
  | route function keywords =>
    obtain ⟨ms, -, ht⟩ := of_bind_eq_ok ht
    obtain ⟨fix, -, ht⟩ := of_bind_eq_ok ht
    cases ht
    rfl
  | appCreation name | verb name =>
    cases ht
    rfl
  | requestPart part function | helper what function => cases hq

theorem Tells.use?_eq {q : Span × Site} {f : Finding} {u : Location × String} (h : Tells q f)
    (hq : Site.use? q = some u) : isOfUse f = true ∧ u = (f.place, f.kind) := by
  obtain ⟨s, site⟩ := q
  obtain ⟨t, ht, hkind, -⟩ := h.told
  rw [isOfUse, hkind, h.place]
  cases site with
  | requestPart part function =>
    cases ht
    cases hq
    cases part <;> exact ⟨rfl, rfl⟩
  | helper what function =>
    cases ht
    cases hq
    cases what <;> exact ⟨rfl, rfl⟩
  | _ => cases hq

theorem filterMap_use?_sites_perm (m : Module) :
    ((sites m).filterMap Site.use?).Perm (belowFunctions (fun l => (use? l).toList) [m.outline]) := by
  rw [sites, List.filterMap_flatMap, belowFunctions, Outline.preorders, Outline.preorders, List.append_nil]
  refine .flatMap_left _ fun o _ => ?_
  rw [filterMap_sitesOf (fun _ _ => rfl) fun _ _ => rfl]
  refine .flatMap_left _ fun f _ => ?_
  have hdecorators : (f.2.flatMap (decoratorSites f.1)).filterMap Site.use? = [] := by
    simp [List.filterMap_flatMap, filterMap_use?_decoratorSites]
  have hinner : (o.breadthFirst.flatMap (innerSites f.1)).filterMap Site.use? =
      o.breadthFirst.flatMap fun l => (use? l).toList := by
    simp [List.filterMap_flatMap, filterMap_use?_innerSites]
  rw [hdecorators, hinner, List.nil_append]
  refine ((Outline.levels_perm o).flatMap_right _).trans (.of_eq ?_)
  rw [List.flatMap_map, Outline.tell]

theorem repeated_nested_eq (m : Module) :
    repeated (fun l => (use? l).toList) (nested [] m.outline) =
      (uses m).flatMap fun u => List.replicate u.1.length u.2 := by
  rw [repeated, uses, List.filterMap_eq_flatMap_toList, List.flatMap_assoc]
  refine List.flatMap_congr fun q _ => ?_
  cases use? q.2 <;> simp [← List.map_eq_flatMap]

/-- A use is reported once for each plain function around it, at its place and as what it is: not at all outside of
functions, and once just if it lies in one of them. -/
theorem uses_reported_by_functions {source : String} {m : Module} {fs : List Finding} (h : scan source m = .ok fs) :
    ((fs.filter isOfUse).map fun f => (f.place, f.kind)).Perm
      ((uses m).flatMap fun u => List.replicate u.1.length u.2) := by
  have hfound : (sites m).filterMap Site.use? = (fs.filter isOfUse).map fun f => (f.place, f.kind) := by
    rw [← List.forall₂_eq_eq_eq, List.forall₂_map_right_iff]
    exact forall₂_picked Tells.isOfUse_of_use? Tells.use?_eq (forall₂_tells h)
  have hfunctions : ∀ l, functionAt l ≠ [] → (use? l).toList = [] := by
    intro l hl
    unfold functionAt at hl
    split at hl
    · rfl
    · exact absurd rfl hl
  rw [← hfound, ← repeated_nested_eq]
  exact (filterMap_use?_sites_perm m).trans (repeated_nested_perm hfunctions [] m.outline).symm

/-- Two uses in a function, one of them in a function inside it. -/
def nestedUses : String := "def f():\n    def g():\n        return jsonify(1)\n    return request.args\n"

theorem uses_reported_by_functions_nestedUses :
    ∃ m fs, Module.ofString nestedUses = .ok m ∧ scan nestedUses m = .ok fs ∧
      (uses m).map (fun u => (u.1, u.2.2)) = [(["f", "g"], "flask_jsonify_call"), (["f"], "flask_request_args")] ∧
      ((fs.filter isOfUse).map fun f => (f.place, f.kind)).Perm
        ((uses m).flatMap fun u => List.replicate u.1.length u.2) := by
  have hruns : ((Module.ofString nestedUses).toOption.any fun m => (scan nestedUses m).toOption.any fun _ =>
      (uses m).map (fun u => (u.1, u.2.2)) ==
        [(["f", "g"], "flask_jsonify_call"), (["f"], "flask_request_args")]) = true := by
    decide +kernel
  obtain ⟨m, hm, hruns⟩ := Legacy.exists_ok_of_any hruns
  obtain ⟨fs, hfs, hruns⟩ := Legacy.exists_ok_of_any hruns
  exact ⟨m, fs, hm, hfs, beq_iff_eq.1 hruns, uses_reported_by_functions hfs⟩

/-- There is one call, and it is reported twice. -/
theorem nestedUses_reported_twice :
    ((Module.ofString nestedUses).toOption.bind fun m => (scan nestedUses m).toOption.map fun fs =>
      (((uses m).map (·.2.2)).count "flask_jsonify_call", (fs.map (·.kind)).count "flask_jsonify_call")) =
      some (1, 2) := by
  decide +kernel

end CodeMigration.Flask
