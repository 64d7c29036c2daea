import CodeMigration.Proofs.LastLoads

/-! # Keys of migration guides

A guide is kept under one text, its two names with a mark between them. The mark may stand in a name as well, and then
two pairs of names can have one key: a guide that is loaded for one of them is answered for the other. -/

namespace CodeMigration.Docs

open Json (Value)

/-- The key of one pair, cut at a later mark, gives another pair. The two marks may share a character. -/
def LaterCut (source target source' target' : String) : Prop :=
  (∃ middle, source' = source ++ "_to_" ++ middle ∧ target = middle ++ "_to_" ++ target') ∨
    source' = source ++ "_to" ∧ target = "to_" ++ target'

/-- One pair of names is the other, or is got from it by another cut of its key. -/
def SharesKey (source target source' target' : String) : Prop :=
  source = source' ∧ target = target' ∨
    LaterCut source target source' target' ∨ LaterCut source' target' source target

variable {source target source' target' : String}

theorem LaterCut.guideKey_eq (h : LaterCut source target source' target') :
    guideKey source target = guideKey source' target' := by
  rw [guideKey, guideKey, ← String.toList_inj]
  obtain ⟨middle, rfl, rfl⟩ | ⟨rfl, rfl⟩ := h <;> simp

/-- What stands between two marks of one text, the first at its start: nothing if they are one mark. -/
theorem mark_append_eq {as ys ys' : List Char} (h : "_to_".toList ++ ys = as ++ ("_to_".toList ++ ys')) :
    (as = [] ∧ ys = ys') ∨ (as = "_to".toList ∧ ys = "to_".toList ++ ys') ∨
      ∃ middle, as = "_to_".toList ++ middle ∧ ys = middle ++ ("_to_".toList ++ ys') := by
  rcases as with _ | ⟨a, _ | ⟨b, _ | ⟨c, _ | ⟨d, middle⟩⟩⟩⟩ <;> simp at h ⊢ <;> grind

theorem laterCut_of_append {as : List Char} (hsource : source'.toList = source.toList ++ as)
    (htarget : "_to_".toList ++ target.toList = as ++ ("_to_".toList ++ target'.toList)) :
    source = source' ∧ target = target' ∨ LaterCut source target source' target' := by
  obtain ⟨rfl, ht⟩ | ⟨rfl, ht⟩ | ⟨middle, rfl, ht⟩ := mark_append_eq htarget
  · rw [List.append_nil] at hsource
    exact .inl ⟨(String.toList_inj.1 hsource).symm, String.toList_inj.1 ht⟩
  · refine .inr (.inr ⟨?_, ?_⟩) <;> rw [← String.toList_inj, String.toList_append] <;> assumption
  · refine .inr (.inl ⟨String.ofList middle, ?_, ?_⟩) <;> rw [← String.toList_inj] <;> simp_all

theorem guideKey_eq_iff :
    guideKey source target = guideKey source' target' ↔ SharesKey source target source' target' := by
  constructor
  · intro h
    rw [guideKey, guideKey, ← String.toList_inj] at h
    simp only [String.toList_append, List.append_assoc] at h
    obtain ⟨as, hs, ht⟩ | ⟨as, hs, ht⟩ := List.append_eq_append_iff.1 h
    · exact (laterCut_of_append hs ht).imp_right .inl
    · exact (laterCut_of_append hs ht).imp (fun h => ⟨h.1.symm, h.2.symm⟩) .inr
  · rintro (⟨rfl, rfl⟩ | h | h)
    · rfl
    · exact h.guideKey_eq
    · exact h.guideKey_eq.symm

/-- The target of a request for the guide of a pair. -/
def guideTarget (source target : String) : String :=
  targetOf "/api/migration-guide" [("source", source), ("target", target)]

theorem isPlainPath_guide : IsPlainPath "/api/migration-guide".toList :=
  .of_all ⟨'a', _, rfl, by decide⟩ (by decide)

theorem get_guideTarget (lib : Library) (source target : String) :
    lib.get (guideTarget source target) = .ok (ok (lib.guide source target)) := by
  have hparams : parameters (queryOf (textParams [("source", source), ("target", target)])) =
      [("source", source), ("target", target)].filter (·.2 != "") := parameters_queryOf (List.cons_ne_nil _ _)
  unfold Library.get guideTarget
  rw [ofString_target isPlainPath_guide]
  generalize queryOf (textParams [("source", source), ("target", target)]) = query at hparams ⊢
  have hsource : ((parameters query).lookup "source").getD "" = source := by
    rw [hparams]
    by_cases hs : source = "" <;> by_cases ht : target = "" <;> simp [hs, ht]
  have htarget : ((parameters query).lookup "target").getD "" = target := by
    rw [hparams]
    by_cases hs : source = "" <;> by_cases ht : target = "" <;> simp [hs, ht, List.lookup_cons]
  simp only [bind, Except.bind, hsource, htarget]
  rfl

theorem guide_loadGuide (lib : Library) (g : Value) : (lib.loadGuide source target g).guide source' target' =
    if guideKey source target = guideKey source' target' then g else lib.guide source' target' := by
  rw [Library.guide, Library.loadGuide, lookup_set]
  split <;> rfl

/-- A load that is not for a pair with the key of another one. -/
def Load.Spares (source target : String) : Load → Prop
  | .guide source' target' _ => ¬SharesKey source' target' source target
  | _ => True

theorem Load.Spares.guide_into {load : Load} (h : load.Spares source target) (lib : Library) :
    (load.into lib).guide source target = lib.guide source target := by
  cases load with
  | guide source' target' g => rw [Load.into, guide_loadGuide, if_neg (mt guideKey_eq_iff.1 h)]
  | style | examples => rfl

theorem guide_foldl_of_spares (loads : List Load) (h : ∀ load ∈ loads, load.Spares source target) (lib : Library) :
    (loads.foldl (fun lib load => load.into lib) lib).guide source target = lib.guide source target := by
  induction loads generalizing lib with
  | nil => rfl
  | cons load loads ih =>
    obtain ⟨hload, hloads⟩ := List.forall_mem_cons.1 h
    rw [List.foldl_cons, ih hloads, hload.guide_into]

/-- Loading a guide for one pair never changes the answer for another just if no cut of one of their keys gives the
other. If one does, the guide is answered for both. Nor does any row of loads that all spare the pair change it. -/
theorem guide_answers_kept_iff (lib : Library) (source target source' target' : String) :
    ((∀ g, (lib.loadGuide source target g).get (guideTarget source' target') = lib.get (guideTarget source' target')) ↔
      ¬SharesKey source target source' target') ∧
    (SharesKey source target source' target' → ∀ g,
      (lib.loadGuide source target g).get (guideTarget source' target') = .ok (ok g)) ∧
    ∀ loads : List Load, (∀ load ∈ loads, load.Spares source' target') →
      (loads.foldl (fun lib load => load.into lib) lib).get (guideTarget source' target') =
        lib.get (guideTarget source' target') := by
  have hshared : SharesKey source target source' target' → ∀ g,
      (lib.loadGuide source target g).get (guideTarget source' target') = .ok (ok g) := by
    intro h g
    rw [get_guideTarget, guide_loadGuide, if_pos (guideKey_eq_iff.2 h)]
  refine ⟨⟨fun h hkey => ?_, fun h g => ?_⟩, hshared, fun loads h => ?_⟩
  · have : Nontrivial Value := ⟨.null, .array [], Value.noConfusion⟩
    obtain ⟨g, hg⟩ := exists_ne (lib.guide source' target')
    have hsame := h g
    rw [hshared hkey, get_guideTarget] at hsame
    exact hg (congrArg Response.body (Except.ok.inj hsame))
  · rw [get_guideTarget, get_guideTarget, guide_loadGuide, if_neg (mt guideKey_eq_iff.1 h)]
  · rw [get_guideTarget, get_guideTarget, guide_foldl_of_spares loads h]

/-- Two pairs with the key `a_to_b_to_c`. -/
theorem guide_answered_for_later_cut :
    (({} : Library).get "/api/migration-guide?source=a&target=b_to_c", (Library.loadGuide {} "a_to_b" "c"
      (.object [("x", .int 1)])).get "/api/migration-guide?source=a&target=b_to_c") =
      (.ok (ok (.object [])), .ok (ok (.object [("x", .int 1)]))) := by
  have htarget : "/api/migration-guide?source=a&target=b_to_c" = guideTarget "a" "b_to_c" := by decide +kernel
  rw [htarget, get_guideTarget, get_guideTarget]
  rfl

end CodeMigration.Docs
