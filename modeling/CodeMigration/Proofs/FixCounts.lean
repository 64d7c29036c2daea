import CodeMigration.Proofs.PatchedTexts

/-! # What is counted as found and as fixed

The count of what was fixed is that of the changes, or of the findings where no change is noted. So it can exceed the
count of what was found, and it can be there for a text that stays as it is. In a module that is brought up to date it
never exceeds it; a text that is no module has one finding, and as many changes as its lines need. -/

namespace CodeMigration

open Source

variable {name source : String}

theorem found_lt_fixed_iff : (fixText name source).found < (fixText name source).fixed ↔
    ∃ fs t, analyze (kindFor name) source = .ok fs ∧ transform (kindFor name) source = .ok t ∧
      fs.length < t.changes.length := by
  obtain ⟨⟨failure, hfs⟩, hr⟩ | ⟨fs, hfs, ⟨⟨failure, ht⟩, hr⟩ | ⟨t, ht, hr⟩⟩ := fixText_cases name source
  · simp [hr, hfs]
  · simp [hr, ht]
  · by_cases hchanges : t.changes = [] <;> simp [hr, hfs, ht, fixedText, hchanges]

/-- A text that is counted as fixed stays as it is if its changes leave it so, or if no expression changes it. -/
theorem code_eq_iff (h : 0 < (fixText name source).fixed) : (fixText name source).code = source ↔
    ∃ t, transform (kindFor name) source = .ok t ∧
      if t.changes = [] then Fix.applyAll (Fix.forName name) source = source else t.code = source := by
  obtain ⟨-, hr⟩ | ⟨fs, hfs, ⟨-, hr⟩ | ⟨t, ht, hr⟩⟩ := fixText_cases name source
  · simp [hr] at h
  · simp [hr] at h
  · rw [hr] at h ⊢
    by_cases hchanges : t.changes = []
    · have hfound : fs ≠ [] := by
        rintro rfl
        simp [fixedText, hchanges] at h
      simp [ht, fixedText, hchanges, hfound]
    · simp [ht, fixedText, hchanges]

theorem Legacy.length_changes_le {m : Module} {fs : List Finding} (h : Legacy.scan source m = .ok fs) :
    (Legacy.changes m).length ≤ fs.length := by
  have hreports := (forall₂_reports h).length_eq
  rw [(changes_perm_sites m).length_eq, ← usesAt_filterMap (SourceText.ofString source).plain, ← hreports]
  exact List.length_filterMap_le _ _

theorem fixed_le_found_of_module {m : Module} (hname : kindFor name = .legacy) (hm : Module.ofString source = .ok m) :
    (fixText name source).fixed ≤ (fixText name source).found := by
  rw [← Nat.not_lt, found_lt_fixed_iff, hname]
  rintro ⟨fs, t, hfs, ht, hlt⟩
  rw [analyze, hm] at hfs
  rw [transform, Legacy.transform, hm] at ht
  obtain ⟨code, -, ht⟩ := of_bind_eq_ok ht
  cases ht
  rw [List.length_map] at hlt
  exact absurd (Legacy.length_changes_le hfs) (Nat.not_le.2 hlt)

theorem exists_transform_of_no_module {fault : Fault} (hm : Module.ofString source = .error fault)
    (kind : MigrationKind) : ∃ t, transform kind source = .ok t ∧
      t.changes.length = if kind = .legacy then (Legacy.mendText source).2.length else 0 := by
  cases kind with
  | legacy =>
    rw [transform, Legacy.transform, hm]
    cases Legacy.mendText source with
    | mk code changes => exact ⟨_, rfl, List.length_map _⟩
  | flask =>
    rw [transform, Flask.transform, hm]
    exact ⟨_, rfl, rfl⟩

/-- A text that is no module has at most one finding, and more changes only if its lines do. -/
theorem counts_of_no_module {fault : Fault} (hm : Module.ofString source = .error fault) :
    (fixText name source).found ≤ 1 ∧ ((fixText name source).found < (fixText name source).fixed ↔
      kindFor name = .legacy ∧ (fixText name source).found = 1 ∧ 2 ≤ (Legacy.mendText source).2.length) := by
  obtain ⟨t, ht, hlength⟩ := exists_transform_of_no_module hm (kindFor name)
  rw [found_lt_fixed_iff, ht]
  obtain ⟨⟨failure, hfs⟩, hr⟩ | ⟨fs, hfs, ⟨⟨failure, ht'⟩, hr⟩ | ⟨t', ht', hr⟩⟩ := fixText_cases name source
  · simp [hr, hfs]
  · cases ht.symm.trans ht'
  · obtain rfl := Except.ok.inj (ht.symm.trans ht')
    have hone : fs.length = 1 := by
      rw [analyze, hm] at hfs
      obtain ⟨f, -, hfs⟩ := of_bind_eq_ok hfs
      cases hfs
      rfl
    have hfound : (fixedText name source fs t).found = 1 := by
      rw [fixedText]
      split <;> exact hone
    rw [hr, hfound, hfs]
    cases hkind : kindFor name with
    | legacy => simp_all [Nat.succ_le_iff]
    | flask => simp_all

/-- More is counted as fixed than as found just if there are more changes than findings: never in a module that is
brought up to date, and in a text that is no module if its one finding comes with two changes of its lines or more. And
what is counted as fixed may be a text that stays: one that its changes, or the expressions if there are none, leave. -/
theorem fix_counts (name source : String) :
    ((fixText name source).found < (fixText name source).fixed ↔
      ∃ fs t, analyze (kindFor name) source = .ok fs ∧ transform (kindFor name) source = .ok t ∧
        fs.length < t.changes.length) ∧
    (∀ m, kindFor name = .legacy → Module.ofString source = .ok m →
      (fixText name source).fixed ≤ (fixText name source).found) ∧
    (∀ fault, Module.ofString source = .error fault →
      (fixText name source).found ≤ 1 ∧ ((fixText name source).found < (fixText name source).fixed ↔
        kindFor name = .legacy ∧ (fixText name source).found = 1 ∧ 2 ≤ (Legacy.mendText source).2.length)) ∧
    (0 < (fixText name source).fixed → ((fixText name source).code = source ↔
      ∃ t, transform (kindFor name) source = .ok t ∧
        if t.changes = [] then Fix.applyAll (Fix.forName name) source = source else t.code = source)) :=
  ⟨found_lt_fixed_iff, fun _ => fixed_le_found_of_module, fun _ => counts_of_no_module, code_eq_iff⟩

/-- Two statements in a text that is no module; a division, for which there is no replacement; and a part of an
application, which is replaced and not found. -/
theorem fixText_counts_apart :
    fixText "py2to3" "print 'a'\nprint 'b'\n" = ⟨1, 2, "print('a')\nprint('b')\n"⟩ ∧
      fixText "py2to3" "x = 1/2" = ⟨1, 1, "x = 1/2"⟩ ∧
      fixText "flask_to_fastapi" "bp = Blueprint('x')" = ⟨0, 1, "bp = APIRouter()"⟩ := by
  decide +kernel

end CodeMigration
