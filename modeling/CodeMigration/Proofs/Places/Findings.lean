import CodeMigration.Proofs.DiskFrames
import CodeMigration.Proofs.Outlines
import CodeMigration.Proofs.Places.Statements
import CodeMigration.Transform
import Mathlib.Data.List.Forall2

/-! # Findings within the lines of a text

The analysis of a text that is a module does not fail, and what it finds are lines that the text has. -/

namespace CodeMigration

open Source

variable {n : Nat} {s : Span} {l : Label} {m : Module} {source : String}

theorem Text.length_splitChars (sep : Char) (cs : List Char) : (splitChars sep cs).length = cs.count sep + 1 := by
  induction cs with
  | nil => rfl
  | cons c cs ih =>
    rw [splitChars, List.count_cons]
    split
    · rw [List.length_cons, ih]
    · cases h : splitChars sep cs with
      | nil =>
        rw [h] at ih
        cases ih
      | cons piece more =>
        rw [h] at ih
        exact ih

theorem Text.length_lines (s : String) : (lines s).length = s.toList.count '\n' + 1 := by
  rw [lines, List.length_map, length_splitChars]

/-- A place in a text of so many lines. -/
structure Location.Within (n : Nat) (l : Location) : Prop where
  first : 1 ≤ l.startLine
  order : l.startLine ≤ l.endLine
  last : l.endLine ≤ n

theorem Location.within_ofSpan (h : s.Within n) : (Location.ofSpan s).Within n :=
  ⟨Int.ofNat_le.2 h.first, Int.ofNat_le.2 h.order, Int.ofNat_le.2 h.last⟩

namespace Legacy

theorem span_of_mem_sitesOf {site : Site} (h : (s, site) ∈ sitesOf l) : l.span? = some s := by
  unfold sitesOf at h
  split at h
  · obtain ⟨u, -, hu⟩ := Option.map_eq_some_iff.1 (Option.mem_toList.1 h)
    cases hu
    rfl
  · split at h
    · cases List.mem_singleton.1 h
      rfl
    · cases h
  · obtain ⟨a, -, ha⟩ := List.mem_filterMap.1 h
    obtain ⟨new, -, hnew⟩ := Option.map_eq_some_iff.1 ha
    cases hnew
    rfl
  · obtain ⟨new, -, hnew⟩ := Option.map_eq_some_iff.1 (Option.mem_toList.1 h)
    cases hnew
    rfl
  · cases List.mem_singleton.1 h
    rfl
  · cases h

theorem sites_within (h : m.outline.Within n) : ∀ p ∈ sites m, p.1.Within n := by
  rintro ⟨s, site⟩ hp
  obtain ⟨o, ho, hsite⟩ := List.mem_flatMap.1 hp
  exact h o ho s (span_of_mem_sitesOf hsite)

section
variable {src : SourceText}

theorem exists_resolve (hs : s.Within src.plain.length) (site : Site) :
    resolve src.plain (s, site) = .ok none ∨ ∃ u, resolve src.plain (s, site) = .ok (some (s, u)) := by
  cases site with
  | use u => exact .inr ⟨u, rfl⟩
  | namedHandler =>
    have hline : s.line - 1 < src.plain.length := by
      have ⟨hfirst, horder, hlast⟩ := hs
      omega
    rw [resolve, List.getElem?_eq_getElem hline]
    simp only
    split
    · exact .inr ⟨.exceptComma, rfl⟩
    · exact .inl rfl

theorem exists_segment (hs : s.Within src.plain.length) : ∃ code, src.segment? s = some code := by
  have hline : s.line - 1 < src.plain.length := by
    have ⟨hfirst, horder, hlast⟩ := hs
    omega
  rw [SourceText.segment?, List.getElem?_eq_getElem hline]
  cases src.cut? s with
  | none => exact ⟨_, rfl⟩
  | some code => exact ⟨code, rfl⟩

theorem exists_report {ps : List (Span × Site)} (h : ∀ p ∈ ps, p.1.Within src.plain.length) (count : Nat) :
    ∃ fs, report src count ps = .ok fs ∧
      ∀ f ∈ fs, f.place.Within src.plain.length ∧ ∃ u : Use, f.kind = u.kind := by
  induction ps generalizing count with
  | nil => exact ⟨[], rfl, nofun⟩
  | cons p ps ih =>
    obtain ⟨s, site⟩ := p
    obtain ⟨hs, hps⟩ := List.forall_mem_cons.1 h
    rcases exists_resolve hs site with hresolve | ⟨u, hresolve⟩
    · obtain ⟨fs, hreport, hfs⟩ := ih hps count
      refine ⟨fs, ?_, hfs⟩
      rw [report, hresolve]
      exact hreport
    · obtain ⟨fs, hreport, hfs⟩ := ih hps (count + 1)
      obtain ⟨code, hcode⟩ := exists_segment hs
      let f : Finding :=
        { id := "ast_" ++ toString (count + 1), kind := u.kind, description := u.description,
          place := .ofSpan s, code, severity := u.severity, fix := u.fix }
      refine ⟨f :: fs, ?_, List.forall_mem_cons.2 ⟨⟨Location.within_ofSpan hs, u, rfl⟩, hfs⟩⟩
      rw [report, hresolve]
      simp only [Except.bind, bind, hcode, hreport]
      rfl

end

theorem exists_analyze (hreturn : '\r' ∉ source.toList)
    (hm : Module.ofString source = .ok m) :
    ∃ fs, analyze .legacy source = .ok fs ∧
      ∀ f ∈ fs, f.place.Within (Text.lines source).length ∧ ∃ u : Use, f.kind = u.kind := by
  have hsites := sites_within (Module.within_of_ofString hreturn hm)
  rw [← Text.length_lines] at hsites
  obtain ⟨fs, hreport, hfs⟩ := @exists_report (.ofString source) _ hsites 0
  refine ⟨fs, ?_, hfs⟩
  rw [analyze, hm]
  exact hreport

end Legacy

namespace Flask

variable {function : String} {e : Expr} {s : Span} {site : Site} {n count : Nat} {src : SourceText}
  {qs : List (Span × Site)} {fs : List Finding}

theorem span_of_mem_decoratorSites (h : (s, site) ∈ decoratorSites function e) : e.span = s := by
  unfold decoratorSites at h
  split at h
  · split at h
    · cases List.mem_singleton.1 h
      rfl
    · split at h
      · cases List.mem_singleton.1 h
        rfl
      · cases h
  · cases h

theorem span_of_mem_innerSites (h : (s, site) ∈ innerSites function l) : l.span? = some s := by
  unfold innerSites at h
  split at h
  · obtain ⟨part, -, hpart⟩ := Option.map_eq_some_iff.1 (Option.mem_toList.1 h)
    cases hpart
    rfl
  · obtain ⟨helper, -, hhelper⟩ := Option.map_eq_some_iff.1 (Option.mem_toList.1 h)
    cases hhelper
    rfl
  · cases h

theorem mem_exprOutlines {es : List Expr} (h : e ∈ es) : e.outline ∈ exprOutlines es := by
  induction es with
  | nil => cases h
  | cons e' es ih =>
    rw [exprOutlines]
    rcases List.mem_cons.1 h with rfl | h
    · exact List.mem_cons_self
    · exact List.mem_cons_of_mem _ (ih h)

theorem sitesOf_within {o : Outline} (hown : o.IsOwn) (h : o.Within n) : ∀ p ∈ sitesOf o, p.1.Within n := by
  rintro ⟨s, site⟩ hp
  have hlabel : ∀ t ∈ o.label.span?, t.Within n := h o (by cases o; exact List.mem_cons_self)
  unfold sitesOf at hp
  split at hp
  case h_1 _ names _ hl =>
    rw [hl] at hlabel
    split at hp
    · obtain ⟨⟨name, what⟩, -, hwhat⟩ := List.mem_filterMap.1 hp
      dsimp only at hwhat
      split at hwhat
      · cases hwhat
        exact hlabel _ rfl
      · cases hwhat
    · cases hp
  case h_2 hl =>
    rw [hl] at hlabel
    obtain ⟨target, -, htarget⟩ := List.mem_filterMap.1 hp
    split at htarget
    · cases htarget
      exact hlabel _ rfl
    · cases htarget
  case h_3 name params body decorators returns hl =>
    rcases List.mem_append.1 hp with hp | hp
    · obtain ⟨e, he, hsite⟩ := List.mem_flatMap.1 hp
      have heo : e.outline ∈ o.preorder := by
        rw [Outline.IsOwn, hl] at hown
        rw [hown, Stmt.outline, Outline.preorder, List.mem_cons, Outline.mem_preorders]
        refine .inr ⟨e.outline, ?_, by cases e <;> exact List.mem_cons_self⟩
        simp [mem_exprOutlines he]
      refine h e.outline heo s ?_
      rw [Expr.outline_label, Label.span?, span_of_mem_decoratorSites hsite]
      rfl
    · obtain ⟨l, hl, hsite⟩ := List.mem_flatMap.1 hp
      obtain ⟨q, hq, rfl⟩ := Outline.mem_breadthFirst hl
      exact h q hq s (span_of_mem_innerSites hsite)
  case h_4 => cases hp

theorem sites_within (h : m.outline.Within n) : ∀ p ∈ sites m, p.1.Within n := by
  intro p hp
  obtain ⟨o, ho, hsite⟩ := List.mem_flatMap.1 hp
  exact sitesOf_within (m.own o ho) (fun q hq => h q (Outline.mem_preorder_trans hq ho)) p hsite

/-- A finding tells what a site is told as, at its place. -/
structure Tells (q : Span × Site) (f : Finding) : Prop where
  told : ∃ t, q.2.told = .ok t ∧ f.kind = t.kind ∧ f.fix = t.fix
  place : f.place = .ofSpan q.1

theorem forall₂_tells (h : report src count qs = .ok fs) : List.Forall₂ Tells qs fs := by
  induction qs generalizing count fs with
  | nil =>
    cases h
    exact .nil
  | cons q qs ih =>
    obtain ⟨s, site⟩ := q
    rw [report] at h
    obtain ⟨t, ht, h⟩ := of_bind_eq_ok h
    split at h
    case h_1 => cases h
    case h_2 code hcode =>
      obtain ⟨more, hmore, h⟩ := of_bind_eq_ok h
      cases h
      exact .cons ⟨⟨t, ht, rfl, rfl⟩, rfl⟩ (ih hmore)

theorem exists_tells_of_report (hreport : report src count qs = .ok fs) {f : Finding} (hf : f ∈ fs) :
    ∃ q ∈ qs, Tells q f := by
  obtain ⟨i, hi, rfl⟩ := List.getElem_of_mem hf
  have htells := forall₂_tells hreport
  exact ⟨_, List.getElem_mem _, htells.get (htells.length_eq ▸ hi) hi⟩

end Flask

theorem within_of_analyze {kind : MigrationKind} (hreturn : '\r' ∉ source.toList)
    (hm : Module.ofString source = .ok m) {fs : List Finding} (h : analyze kind source = .ok fs) :
    ∀ f ∈ fs, f.place.Within (Text.lines source).length := by
  have hwithin := Module.within_of_ofString hreturn hm
  rw [← Text.length_lines] at hwithin
  cases kind with
  | legacy =>
    obtain ⟨gs, hgs, hplaces⟩ := Legacy.exists_analyze hreturn hm
    cases hgs.symm.trans h
    exact fun f hf => (hplaces f hf).1
  | flask =>
    rw [analyze, hm] at h
    intro f hf
    obtain ⟨q, hq, htells⟩ := Flask.exists_tells_of_report h hf
    rw [htells.place]
    exact Location.within_ofSpan (Flask.sites_within hwithin q hq)

end CodeMigration
