import CodeMigration.Transform

/-! # Transformers that are used again

A call notes in a list that it starts itself, so the lists of earlier answers stay as they are and what was noted
before, by a call that failed among others, is not in its answer. The name of the application does stay, but no answer
depends on it. -/

namespace CodeMigration.Transformer

open Source

variable {t t' : Transformer} {kind : MigrationKind} {old : List (List String)} {changes : List String}

/-- Calls for several texts, one after the other. -/
def calls (t : Transformer) : List String → Transformer × List (Except Failure Result)
  | [] => (t, [])
  | source :: rest =>
    let (next, result) := t.call source
    let (last, results) := next.calls rest
    (last, result :: results)

/-- The answer to a text as it reads when the call ends. -/
def answer (t : Transformer) (source : String) : Except Failure Transformed :=
  (t.call source).2.map (t.call source).1.read

/-- A transformer in the midst of a call: behind the lists of others stands the one that it notes in. -/
structure Noting (t : Transformer) (kind : MigrationKind) (old : List (List String)) (changes : List String) : Prop where
  kind_eq : t.kind = kind
  lists_eq : t.lists = old ++ [changes]
  noted_eq : t.noted = old.length

theorem Noting.note (h : t.Noting kind old changes) (text : String) :
    (t.note text).Noting kind old (changes ++ [text]) where
  kind_eq := h.kind_eq
  lists_eq := by
    have hlast : (old ++ [changes]).modify old.length (· ++ [text]) = old ++ [changes ++ [text]] := by
      clear h
      induction old with
      | nil => rfl
      | cons cs old ih => simpa using ih
    rw [Transformer.note, h.lists_eq, h.noted_eq, hlast]
  noted_eq := h.noted_eq

theorem Noting.notes {α : Type} {text : α → String} (h : t.Noting kind old changes) (cs : List α) :
    (cs.foldl (fun t c => t.note (text c)) t).Noting kind old (changes ++ cs.map text) := by
  induction cs generalizing t changes with
  | nil => simpa using h
  | cons c cs ih => simpa using ih (h.note (text c))

/-- A pass that fails leaves a part of its changes in the list, one that does not fail leaves them all. -/
theorem Noting.follow (h : t.Noting kind old changes) (events : List Flask.Event) :
    (t.follow events).2 = Flask.faultOf? events ∧ ∃ more, (t.follow events).1.Noting kind old (changes ++ more) ∧
      (Flask.faultOf? events = none → more = (Flask.changesOf events).map Flask.Change.text) := by
  induction events generalizing t changes with
  | nil => exact ⟨rfl, [], by simpa [Transformer.follow] using h, fun _ => rfl⟩
  | cons e events ih =>
    cases e with
    | change c =>
      obtain ⟨hfault, more, hmore, hall⟩ := ih (h.note c.text)
      refine ⟨hfault, c.text :: more, by simpa [Transformer.follow] using hmore, fun hnone => ?_⟩
      rw [hall hnone]
      rfl
    | app name =>
      have hnamed : { t with app := name }.Noting kind old changes := ⟨h.kind_eq, h.lists_eq, h.noted_eq⟩
      exact ih hnamed
    | fault f => exact ⟨rfl, [], by simpa [Transformer.follow] using h, fun hnone => by cases hnone⟩

/-- An edited tree is printed with all the changes in the list, or the call fails as the transformation does. -/
theorem Noting.visit (h : t.Noting kind old []) {source : String} {m : Module} (hm : Module.ofString source = .ok m) :
    ∃ changes, (t.visit m).1.Noting kind old changes ∧
      ((t.visit m).2.bind printed).map (⟨·, changes⟩) = transform kind source := by
  have hkind := h.kind_eq
  cases kind with
  | legacy =>
    refine ⟨(Legacy.changes m).map Legacy.Change.text, ?_, ?_⟩
    · simpa [Transformer.visit, hkind] using h.notes (Legacy.changes m)
    · simp only [Transformer.visit, hkind, transform, Legacy.transform, hm]
      rfl
  | flask =>
    obtain ⟨hfault, changes, hnoting, hall⟩ := h.follow (Flask.events m)
    refine ⟨changes, by simpa [Transformer.visit, hkind] using hnoting, ?_⟩
    simp only [Transformer.visit, hkind, hfault, transform, Flask.transform, hm, Flask.changes]
    cases hnone : Flask.faultOf? (Flask.events m) with
    | some f => rfl
    | none =>
      rw [hall hnone]
      rfl

theorem read_eq {r : Result} (h : t.lists <+: t'.lists) (hr : r.changes < t.lists.length) : t'.read r = t.read r := by
  obtain ⟨more, hmore⟩ := h
  simp [read, ← hmore, List.getElem?_append_left hr]

/-- A call only adds lists, its result has one of them, and this says what the transformation of the text says. -/
theorem call_spec (t : Transformer) (source : String) :
    (t.call source).1.kind = t.kind ∧ t.lists <+: (t.call source).1.lists ∧
      (∀ r, (t.call source).2 = .ok r → r.changes < (t.call source).1.lists.length) ∧
      t.answer source = transform t.kind source := by
  let start : Transformer := { t with lists := t.lists ++ [[]], noted := t.lists.length }
  have hstart : start.Noting t.kind t.lists [] := ⟨rfl, rfl, rfl⟩
  cases hm : Module.ofString source with
  | error fault =>
    have hcall : t.call source =
        ({ start with lists := start.lists ++ [(fallback t.kind source).changes] },
          .ok ⟨(fallback t.kind source).code, start.lists.length⟩) := by
      simp only [call, hm, start]
    rw [answer, hcall]
    refine ⟨rfl, ⟨_, (List.append_assoc ..).symm⟩, ?_, ?_⟩
    · rintro r ⟨⟩
      simp
    · cases hkind : t.kind <;> simp [transform, Legacy.transform, Flask.transform, hm, fallback, Except.map, read]
  | ok m =>
    obtain ⟨changes, hnoting, htransform⟩ := hstart.visit hm
    have hcall : t.call source =
        ((start.visit m).1, ((start.visit m).2.bind printed).map (⟨·, t.lists.length⟩)) := by
      rw [← hnoting.noted_eq]
      simp only [call, hm]
      cases (start.visit m).2 <;> rfl
    rw [answer, hcall, hnoting.lists_eq, ← htransform]
    refine ⟨hnoting.kind_eq, List.prefix_append _ _, ?_, ?_⟩
    · intro r hr
      cases hcode : (start.visit m).2.bind printed with
      | error f => simp [hcode, Except.map] at hr
      | ok code =>
        obtain rfl : ⟨code, t.lists.length⟩ = r := by simpa [hcode, Except.map] using hr
        simp
    · cases (start.visit m).2.bind printed <;> simp [Except.map, read, hnoting.lists_eq]

theorem calls_spec (t : Transformer) (sources : List String) :
    (t.calls sources).1.kind = t.kind ∧ t.lists <+: (t.calls sources).1.lists := by
  induction sources generalizing t with
  | nil => exact ⟨rfl, List.prefix_rfl⟩
  | cons source sources ih =>
    obtain ⟨hkind, hlists, -⟩ := t.call_spec source
    obtain ⟨hkinds, hmore⟩ := ih (t.call source).1
    exact ⟨hkinds.trans hkind, hlists.trans hmore⟩

/-- The results of calls, read in whatever state the transformer is after them and others. -/
theorem read_calls (t last : Transformer) (sources : List String) (h : (t.calls sources).1.lists <+: last.lists) :
    (t.calls sources).2.map (·.map last.read) = sources.map (transform t.kind) := by
  induction sources generalizing t with
  | nil => rfl
  | cons source sources ih =>
    obtain ⟨hkind, -, hrange, hanswer⟩ := t.call_spec source
    obtain ⟨-, hmore⟩ := (t.call source).1.calls_spec sources
    have hhead : (t.call source).2.map last.read = transform t.kind source := by
      rw [← hanswer, answer]
      cases hr : (t.call source).2 with
      | error f => rfl
      | ok r => exact congrArg Except.ok (read_eq (hmore.trans h) (hrange r hr))
    simp only [calls, List.map_cons, hhead]
    rw [ih (t.call source).1 h, hkind]

/-- A transformer that was used before, whatever is left in it, answers every row of texts as new ones would, one for
each text; and so its answers still read after any further calls. -/
theorem calls_eq_new (t : Transformer) (sources later : List String) :
    (t.calls sources).2.map (·.map (t.calls sources).1.read) = sources.map (answer { kind := t.kind }) ∧
      (t.calls sources).2.map (·.map ((t.calls sources).1.calls later).1.read) =
        sources.map (answer { kind := t.kind }) ∧
      answer { kind := t.kind } = transform t.kind := by
  have hnew : answer { kind := t.kind } = transform t.kind := by
    funext source
    exact (call_spec { kind := t.kind } source).2.2.2
  rw [hnew]
  exact ⟨t.read_calls _ sources List.prefix_rfl, t.read_calls _ sources (calls_spec _ later).2, rfl⟩

end CodeMigration.Transformer
