import CodeMigration.Proofs.FlaskEdits
import CodeMigration.Proofs.TransformableTexts

/-! # Routes, found and replaced

A scan walks through a tree and reports the routes of a function before it goes on to what the function holds. An edit
replaces them at the same moment, and edits the rest behind them. So both come by the same routes in the same order,
however functions and classes are nested, and what the scan proposes for a route with one method is what the edit
does. -/

namespace CodeMigration

namespace Flask

open Source

def routesAt : Label → List (Span × List Keyword)
  | .stmt (.functionDef _ false _ _ _ decorators _) => decorators.filterMap route?
  | _ => []

/-- The routes of a module, those of a function before those of the functions in it. -/
def routes (m : Module) : List (Span × List Keyword) := m.outline.tell routesAt

/-- What is noted about a route: the method that it becomes, or why it has none. -/
def routeEvent (keywords : List Keyword) : Event :=
  match routeMethod keywords with
  | .ok m => .change (.route m)
  | .error f => .fault f

theorem editDecorator_notes (e : Expr) : (editDecorator e).2 = (route? e).toList.map fun r => routeEvent r.2 := by
  cases hroute : route? e with
  | none => rw [editDecorator_of_route? hroute, Option.toList, List.map_nil]
  | some r =>
    unfold route? at hroute
    split at hroute
    case h_1 s ms value attr args keywords =>
      split at hroute
      case isTrue hattr =>
        cases hroute
        subst hattr
        simp only [editDecorator, routeEvent, Option.toList, List.map_cons, List.map_nil]
        cases routeMethod keywords <;> rfl
      case isFalse => cases hroute
    case h_2 => cases hroute

theorem isOfRoute_routeEvent (keywords : List Keyword) : (routeEvent keywords).isOfRoute = true := by
  rw [routeEvent]
  cases routeMethod keywords <;> rfl

theorem filter_decoratorNotesAt (l : Label) :
    (pass.decoratorNotesAt l).filter Event.isOfRoute = (routesAt l).map fun r => routeEvent r.2 := by
  cases l with
  | stmt s =>
    cases s with
    | functionDef s async name params body decorators returns =>
      cases async with
      | true => rfl
      | false =>
        have hnotes : pass.decoratorNotesAt (.stmt (.functionDef s false name params body decorators returns)) =
            (decorators.filterMap route?).map fun r => routeEvent r.2 := by
          rw [List.filterMap_eq_flatMap_toList, List.map_flatMap]
          exact List.flatMap_congr fun e _ => editDecorator_notes e
        rw [hnotes, List.filter_eq_self.2]
        · rfl
        · intro n hn
          obtain ⟨r, -, rfl⟩ := List.mem_map.1 hn
          exact isOfRoute_routeEvent r.2
    | _ => rfl
  | _ => rfl

/-- The edit notes one thing about each route, in the order of the routes. -/
theorem filter_events (m : Module) :
    (events m).filter Event.isOfRoute = (routes m).map fun r => routeEvent r.2 := by
  rw [events, Module.filter_notes pass_notesOnly_isOfRoute, routes, Outline.tell, Outline.tell, List.filter_flatMap,
    List.map_flatMap]
  exact List.flatMap_congr fun q _ => filter_decoratorNotesAt q.label

def isRouteText (text : String) : Bool := "@route() -> @".toList.isPrefixOf text.toList

theorem isRouteText_text (c : Change) : isRouteText c.text = (Event.change c).isOfRoute := by
  cases c with
  | imported what => cases what <;> decide +kernel
  | createApp | createRouter | jsonifyCall | abortCall => decide +kernel
  | route m =>
    have hprefix : "@route() -> @".toList <+: (Change.route m).text.toList := by
      simp only [Change.text, String.toList_append, List.append_assoc]
      exact List.prefix_append _ _
    exact List.isPrefixOf_iff_prefix.2 hprefix

theorem map_change_filter {es : List Event} (h : ∀ n ∈ es, ¬n.IsFault) :
    ((changesOf es).filter fun c => (Event.change c).isOfRoute).map Event.change = es.filter Event.isOfRoute := by
  induction es with
  | nil => rfl
  | cons e es ih =>
    obtain ⟨he, hes⟩ := List.forall_mem_cons.1 h
    cases e with
    | change c =>
      rw [changesOf, List.filter_cons, List.filter_cons]
      split
      · rw [List.map_cons, ih hes]
      · exact ih hes
    | app name => exact ih hes
    | fault f => exact absurd trivial he

variable {ks : List Keyword} {α : Type} {q : Span × Site} {f : Finding}

theorem routeMethod_eq_ok {m : Method} (h : routeMethod ks = .ok m) :
    ∃ x more, Method.ofKeywords ks = .ok (x :: more) ∧ m = x.lower := by
  rw [routeMethod] at h
  obtain ⟨ms, hms, h⟩ := of_bind_eq_ok h
  cases ms with
  | nil => cases h
  | cons x more =>
    cases h
    exact ⟨x, more, hms, rfl⟩

theorem exists_of_routeEvent {c : Change} (h : routeEvent ks = .change c) :
    ∃ m, routeMethod ks = .ok m ∧ c = .route m := by
  unfold routeEvent at h
  split at h
  case h_1 m hm =>
    cases h
    exact ⟨m, hm, rfl⟩
  case h_2 => cases h

def RouteReplaced (r : Span × List Keyword) (text : String) : Prop :=
  ∃ x more, Method.ofKeywords r.2 = .ok (x :: more) ∧ text = "@route() -> @" ++ x.lower.shown ++ "()"

theorem forall₂_replaced {m : Module} {cs : List Change} (h : changes m = .ok cs) :
    List.Forall₂ RouteReplaced (routes m) ((cs.map Change.text).filter isRouteText) := by
  have hfaults : ∀ n ∈ events m, ¬n.IsFault := by
    rw [← faultOf?_eq_none_iff]
    rw [changes] at h
    cases hfault : faultOf? (events m) with
    | none => rfl
    | some f =>
      rw [hfault] at h
      cases h
  have hcs : changesOf (events m) = cs := by
    rw [changes, (faultOf?_eq_none_iff _).2 hfaults] at h
    exact Except.ok.inj h
  have hevents : (cs.filter fun c => (Event.change c).isOfRoute).map Event.change =
      (routes m).map fun r => routeEvent r.2 := by
    rw [← hcs, map_change_filter hfaults, filter_events]
  have htexts : (cs.map Change.text).filter isRouteText =
      (cs.filter fun c => (Event.change c).isOfRoute).map Change.text := by
    rw [List.filter_map]
    congr 2
    funext c
    exact isRouteText_text c
  rw [htexts]
  generalize cs.filter (fun c => (Event.change c).isOfRoute) = replaced at hevents
  generalize routes m = rs at hevents
  clear h hfaults hcs htexts
  induction rs generalizing replaced with
  | nil =>
    rw [List.map_nil, List.map_eq_nil_iff] at hevents
    rw [hevents]
    exact .nil
  | cons r rs ih =>
    cases replaced with
    | nil => cases hevents
    | cons c replaced =>
      obtain ⟨hhead, htail⟩ := List.cons.inj hevents
      obtain ⟨method, hmethod, rfl⟩ := exists_of_routeEvent hhead.symm
      obtain ⟨x, more, hx, rfl⟩ := routeMethod_eq_ok hmethod
      exact .cons ⟨x, more, hx, rfl⟩ (ih _ htail)

def Site.route? (q : Span × Site) : Option (Span × List Keyword) :=
  match q.2 with
  | route _ keywords => some (q.1, keywords)
  | _ => none

theorem filterMap_decoratorSites (function : String) (e : Expr) :
    (decoratorSites function e).filterMap Site.route? = (Flask.route? e).toList := by
  cases e with
  | call s func args keywords =>
    cases func with
    | member ms value attr =>
      simp only [decoratorSites, Flask.route?, beq_iff_eq]
      by_cases hroute : attr = "route"
      · rw [if_pos hroute, if_pos hroute]
        rfl
      · rw [if_neg hroute, if_neg hroute]
        split <;> rfl
    | _ => rfl
  | _ => rfl

theorem filterMap_innerSites (function : String) (l : Label) : (innerSites function l).filterMap Site.route? = [] := by
  rw [List.filterMap_eq_nil_iff]
  intro q hq
  unfold innerSites at hq
  split at hq
  · obtain ⟨part, -, rfl⟩ := Option.map_eq_some_iff.1 (Option.mem_toList.1 hq)
    rfl
  · obtain ⟨helper, -, rfl⟩ := Option.map_eq_some_iff.1 (Option.mem_toList.1 hq)
    rfl
  · cases hq

/-- The plain function that a node is, with its decorators. -/
def functionAt : Label → List (String × List Expr)
  | .stmt (.functionDef _ false name _ _ decorators _) => [(name, decorators)]
  | _ => []

/-- Of all sites of a node, those that are not about imports and applications are the sites of a function. -/
theorem filterMap_sitesOf {pick : Span × Site → Option α} (himported : ∀ s what, pick (s, .imported what) = none)
    (happ : ∀ s name, pick (s, .appCreation name) = none) (o : Outline) :
    (sitesOf o).filterMap pick = (functionAt o.label).flatMap fun f =>
      (f.2.flatMap (decoratorSites f.1)).filterMap pick ++
        (o.breadthFirst.flatMap (innerSites f.1)).filterMap pick := by
  unfold sitesOf
  split
  case h_1 s name names level hl =>
    rw [hl]
    refine List.filterMap_eq_nil_iff.2 fun q hq => ?_
    split at hq
    · obtain ⟨⟨imported, what⟩, -, hq⟩ := List.mem_filterMap.1 hq
      dsimp only at hq
      split at hq <;> cases hq
      exact himported s what
    · cases hq
  case h_2 s targets cs ns args keywords hl =>
    rw [hl]
    refine List.filterMap_eq_nil_iff.2 fun q hq => ?_
    obtain ⟨target, -, hq⟩ := List.mem_filterMap.1 hq
    split at hq <;> cases hq
    exact happ s _
  case h_3 s name params body decorators returns hl =>
    rw [hl, functionAt, List.flatMap_singleton, List.filterMap_append]
  case h_4 hother =>
    unfold functionAt
    split
    case h_1 hl => exact absurd hl (hother _ _ _ _ _ _)
    case h_2 => rfl

theorem filterMap_route?_sitesOf (o : Outline) : (sitesOf o).filterMap Site.route? = routesAt o.label := by
  have hinner (name : String) : (o.breadthFirst.flatMap (innerSites name)).filterMap Site.route? = [] := by
    rw [List.filterMap_flatMap, List.flatMap_eq_nil_iff]
    exact fun l _ => filterMap_innerSites name l
  rw [filterMap_sitesOf (fun _ _ => rfl) fun _ _ => rfl]
  unfold functionAt routesAt
  split
  · rw [List.flatMap_singleton, hinner, List.append_nil, List.filterMap_flatMap, List.filterMap_eq_flatMap_toList]
    exact List.flatMap_congr fun e _ => filterMap_decoratorSites _ e
  · rfl

theorem filterMap_sites (m : Module) : (sites m).filterMap Site.route? = routes m := by
  rw [sites, List.filterMap_flatMap, routes, Outline.tell]
  exact List.flatMap_congr fun o _ => filterMap_route?_sitesOf o

def isOfRoute (f : Finding) : Bool := f.kind == "flask_route_decorator"

def RouteFound (r : Span × List Keyword) (f : Finding) : Prop :=
  f.place = .ofSpan r.1 ∧ ∃ ms, Method.ofKeywords r.2 = .ok ms ∧ routeFix ms = .ok f.fix

theorem Tells.isOfRoute_of_route? (h : Tells q f) (hq : Site.route? q = none) : isOfRoute f = false := by
  obtain ⟨s, site⟩ := q
  obtain ⟨t, ht, hkind, -⟩ := h.told
  rw [isOfRoute, hkind, beq_eq_false_iff_ne]
  cases site with
  | imported what =>
    cases ht
    cases what <;> decide
  | appCreation name =>
    cases ht
    simp
  | route function keywords => cases hq
  | verb name =>
    cases ht
    simp
  | requestPart part function =>
    cases ht
    cases part <;> simp [RequestPart.name]
  | helper what function =>
    cases ht
    cases what <;> simp [Helper.told]

theorem Tells.routeFound {r : Span × List Keyword} (h : Tells q f) (hq : Site.route? q = some r) :
    isOfRoute f = true ∧ RouteFound r f := by
  obtain ⟨s, site⟩ := q
  obtain ⟨t, ht, hkind, hfix⟩ := h.told
  cases site with
  | route function keywords =>
    cases hq
    obtain ⟨ms, hms, ht⟩ := of_bind_eq_ok ht
    obtain ⟨fix, hrouteFix, ht⟩ := of_bind_eq_ok ht
    cases ht
    refine ⟨?_, h.place, ms, hms, ?_⟩
    · rw [isOfRoute, hkind]
      rfl
    · rw [hrouteFix, hfix]
  | _ => cases hq

/-- If the findings of some kind are about the sites that are picked, they are so in the order of the sites. -/
theorem forall₂_picked {pick : Span × Site → Option α} {keep : Finding → Bool} {R : α → Finding → Prop}
    (hnone : ∀ {q f}, Tells q f → pick q = none → keep f = false)
    (hsome : ∀ {q f a}, Tells q f → pick q = some a → keep f = true ∧ R a f) {qs : List (Span × Site)}
    {fs : List Finding} (h : List.Forall₂ Tells qs fs) : List.Forall₂ R (qs.filterMap pick) (fs.filter keep) := by
  induction h with
  | nil => exact .nil
  | @cons q f qs fs hq _ ih =>
    cases ha : pick q with
    | none =>
      rw [List.filterMap_cons_none ha, List.filter_cons_of_neg (by simp [hnone hq ha])]
      exact ih
    | some a =>
      obtain ⟨hkeep, hr⟩ := hsome hq ha
      rw [List.filterMap_cons_some ha, List.filter_cons_of_pos hkeep]
      exact .cons hr ih

theorem getElem?_of_forall₂ {β : Type} {R : α → β → Prop} {xs : List α} {ys : List β} (h : List.Forall₂ R xs ys)
    {i : Nat} {x : α} {y : β} (hx : xs[i]? = some x) (hy : ys[i]? = some y) : R x y := by
  obtain ⟨hi, rfl⟩ := List.getElem?_eq_some_iff.1 hx
  obtain ⟨hj, rfl⟩ := List.getElem?_eq_some_iff.1 hy
  exact h.get hi hj

/-- A scan and an edit that both come to an end tell of the same routes in the same order: each of them once by a
finding and once by a text of the log, and where a route has one method, the finding names the method that the log
has. -/
theorem routes_found_as_replaced {source : String} {m : Module} {fs : List Finding} {cs : List Change}
    (hfs : scan source m = .ok fs) (hcs : changes m = .ok cs) :
    (fs.filter isOfRoute).length = (routes m).length ∧
    ((cs.map Change.text).filter isRouteText).length = (routes m).length ∧
    ∀ (i : Nat) (r : Span × List Keyword) (f : Finding) (text : String), (routes m)[i]? = some r →
      (fs.filter isOfRoute)[i]? = some f → ((cs.map Change.text).filter isRouteText)[i]? = some text →
      f.place = .ofSpan r.1 ∧ ∃ x more, Method.ofKeywords r.2 = .ok (x :: more) ∧
        text = "@route() -> @" ++ x.lower.shown ++ "()" ∧
        (more = [] → f.fix = "Use @app." ++ x.lower.shown ++ "('/path') decorator") := by
  have hfound : List.Forall₂ RouteFound (routes m) (fs.filter isOfRoute) := by
    rw [← filterMap_sites]
    exact forall₂_picked Tells.isOfRoute_of_route? Tells.routeFound (forall₂_tells hfs)
  have hreplaced := forall₂_replaced hcs
  refine ⟨hfound.length_eq.symm, hreplaced.length_eq.symm, ?_⟩
  intro i r f text hr hf htext
  obtain ⟨hplace, ms, hms, hfix⟩ := getElem?_of_forall₂ hfound hr hf
  obtain ⟨x, more, hx, htext⟩ := getElem?_of_forall₂ hreplaced hr htext
  refine ⟨hplace, x, more, hx, htext, ?_⟩
  rintro rfl
  -- Both sides read the methods of the same keywords.
  obtain rfl := Except.ok.inj (hms.symm.trans hx)
  exact (Except.ok.inj hfix).symm

/-- Routes above each other inside a class, and one more inside their function. -/
def nestedRoutes : String :=
  "class K:\n @a.route(p)\n @a.route(p, methods=['PUT'])\n def f():\n  @a.route(p, methods=['PUT', 'GET'])\n" ++
    "  def g(): pass\n"

theorem routes_found_as_replaced_nestedRoutes :
    ∃ m fs cs, Module.ofString nestedRoutes = .ok m ∧ scan nestedRoutes m = .ok fs ∧ changes m = .ok cs ∧
      (fs.filter isOfRoute).map (·.fix) = ["Use @app.get('/path') decorator", "Use @app.put('/path') decorator",
        "Split into multiple routes: @app.put, @app.get()"] ∧
      (cs.map Change.text).filter isRouteText =
        ["@route() -> @get()", "@route() -> @put()", "@route() -> @put()"] ∧
      (fs.filter isOfRoute).length = (routes m).length := by
  have hruns : ((Module.ofString nestedRoutes).toOption.any fun m =>
      (scan nestedRoutes m).toOption.any fun fs => (changes m).toOption.any fun cs =>
        (fs.filter isOfRoute).map (·.fix) == ["Use @app.get('/path') decorator", "Use @app.put('/path') decorator",
          "Split into multiple routes: @app.put, @app.get()"] &&
        (cs.map Change.text).filter isRouteText ==
          ["@route() -> @get()", "@route() -> @put()", "@route() -> @put()"]) = true := by
    decide +kernel
  obtain ⟨m, hm, hruns⟩ := Legacy.exists_ok_of_any hruns
  obtain ⟨fs, hfs, hruns⟩ := Legacy.exists_ok_of_any hruns
  obtain ⟨cs, hcs, hruns⟩ := Legacy.exists_ok_of_any hruns
  obtain ⟨hfixes, htexts⟩ := Bool.and_eq_true_iff.1 hruns
  exact ⟨m, fs, cs, hm, hfs, hcs, beq_iff_eq.1 hfixes, beq_iff_eq.1 htexts, (routes_found_as_replaced hfs hcs).1⟩

end Flask

end CodeMigration
