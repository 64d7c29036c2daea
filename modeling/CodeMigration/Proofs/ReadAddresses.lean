import CodeMigration.Proofs.CloneTargets
import Mathlib.Data.List.DropRight

/-! # Addresses that are read back

The address of a repository is written for the web or for a shell, with the ending of repositories or without. The name
that a clone is made under is read back from all four. The owner is too; but the name that goes with it loses all
points and letters `g`, `i` and `t` at its end, since these are taken for the ending. -/

namespace CodeMigration.RemoteUrl

/-- What stands for a host, an owner or a repository in an address. -/
@[mk_iff]
structure IsWord (s : String) : Prop where
  nonempty : s ≠ ""
  slash : '/' ∉ s.toList
  colon : ':' ∉ s.toList
  sign : '@' ∉ s.toList

instance (s : String) : Decidable (IsWord s) := decidable_of_iff _ (isWord_iff s).symm

/-- The addresses of a repository, for the web and for a shell, and both with the ending of repositories. -/
def addresses (host owner name : String) : List String :=
  let web := "https://" ++ host ++ "/" ++ owner ++ "/" ++ name
  let shell := "git@" ++ host ++ ":" ++ owner ++ "/" ++ name
  [web, shell, web ++ ".git", shell ++ ".git"]

theorem dropRight_append_cons {test : Char → Bool} {c : Char} (hc : test c = false) (front back : List Char) :
    dropRight test (front ++ c :: back) = front ++ c :: dropRight test back := by
  change (front ++ c :: back).rdropWhile test = front ++ c :: back.rdropWhile test
  induction back using List.reverseRecOn with
  | nil => exact List.rdropWhile_concat_neg test front c (by simp [hc])
  | append_singleton back d ih =>
    rw [← List.cons_append, ← List.append_assoc]
    by_cases hd : test d = true
    · rw [List.rdropWhile_concat_pos _ _ _ hd, List.rdropWhile_concat_pos _ _ _ hd, ih]
    · rw [List.rdropWhile_concat_neg _ _ _ hd, List.rdropWhile_concat_neg _ _ _ hd, List.append_assoc, List.cons_append]

theorem dropRight_eq_self_iff {test : Char → Bool} {cs : List Char} :
    dropRight test cs = cs ↔ ∀ c ∈ cs.getLast?, test c = false := by
  change cs.rdropWhile test = cs ↔ _
  rw [List.rdropWhile_eq_self_iff]
  cases hlast : cs.getLast? with
  | none => simp [List.getLast?_eq_none_iff.1 hlast]
  | some c =>
    obtain ⟨front, rfl⟩ := List.getLast?_eq_some_iff.1 hlast
    simp

theorem dropRight_ending {ending : String} (h : ending = "" ∨ ending = ".git") (cs : List Char) :
    dropRight isTail (cs ++ ending.toList) = dropRight isTail cs := by
  rcases h with rfl | rfl
  · simp
  · simp [dropRight, isTail]

section
variable {front owner name ending : String}

/-- What stands between the slashes of an address, once the ending and all that looks like it is dropped. -/
theorem parts_dropRight (hname : '/' ∉ name.toList) (hending : ending = "" ∨ ending = ".git") :
    parts (dropRight isTail (front ++ "/" ++ name ++ ending).toList) =
      parts front.toList ++ [String.ofList (dropRight isTail name.toList)] := by
  have hback : '/' ∉ dropRight isTail name.toList := fun h => hname ((List.rdropWhile_prefix isTail _).subset h)
  have hcut : dropRight isTail (front ++ "/" ++ name ++ ending).toList =
      front.toList ++ '/' :: dropRight isTail name.toList := by
    rw [String.toList_append, dropRight_ending hending, String.toList_append, String.toList_append, List.append_assoc]
    exact dropRight_append_cons rfl _ _
  rw [hcut, parts, Text.splitChars_eq_splitOn, List.splitOn_append_cons_self, List.splitOn_eq_singleton hback,
    List.map_append, parts, Text.splitChars_eq_splitOn]
  rfl

/-- What stands last between the slashes of a text. -/
theorem parts_append (howner : '/' ∉ owner.toList) :
    parts (front ++ "/" ++ owner).toList = parts front.toList ++ [owner] := by
  have htext : (front ++ "/" ++ owner).toList = front.toList ++ '/' :: owner.toList := by simp
  rw [htext, parts, Text.splitChars_eq_splitOn, List.splitOn_append_cons_self, List.splitOn_eq_singleton howner,
    List.map_append, parts, Text.splitChars_eq_splitOn, List.map_singleton, String.ofList_toList]

theorem parts_word (howner : '/' ∉ owner.toList) : parts owner.toList = [owner] := by
  rw [parts, Text.splitChars_eq_splitOn, List.splitOn_eq_singleton howner, List.map_singleton, String.ofList_toList]

theorem owner_web (howner : '/' ∉ owner.toList) (hname : '/' ∉ name.toList) (hending : ending = "" ∨ ending = ".git")
    (host : String) : RemoteUrl.owner ("https://" ++ host ++ "/" ++ owner ++ "/" ++ name ++ ending) =
      .ok (owner, String.ofList (dropRight isTail name.toList)) := by
  have hscheme : "https://".toList.isPrefixOf ("https://" ++ host ++ "/" ++ owner ++ "/" ++ name ++ ending).toList := by
    simp [List.isPrefixOf]
  rw [RemoteUrl.owner, if_pos hscheme, parts_dropRight hname hending, parts_append howner]
  simp

theorem owner_shell {host : String} (hhost : ':' ∉ host.toList) (howner : IsWord owner) (hname : IsWord name)
    (hending : ending = "" ∨ ending = ".git") :
    RemoteUrl.owner ("git@" ++ host ++ ":" ++ owner ++ "/" ++ name ++ ending) =
      .ok (owner, String.ofList (dropRight isTail name.toList)) := by
  have htext : ("git@" ++ host ++ ":" ++ owner ++ "/" ++ name ++ ending).toList =
      ("git@" ++ host).toList ++ ':' :: (owner ++ "/" ++ name ++ ending).toList := by simp
  have hback : ':' ∉ (owner ++ "/" ++ name ++ ending).toList := by
    rcases hending with rfl | rfl <;> simp [howner.colon, hname.colon]
  have hsplit : Text.splitChars ':' ("git@" ++ host ++ ":" ++ owner ++ "/" ++ name ++ ending).toList =
      [("git@" ++ host).toList, (owner ++ "/" ++ name ++ ending).toList] := by
    rw [htext, Text.splitChars_eq_splitOn, List.splitOn_append_cons_self, List.splitOn_eq_singleton hback,
      List.splitOn_eq_singleton (by simp [hhost])]
    rfl
  rw [RemoteUrl.owner, if_neg (by simp [List.isPrefixOf]), if_pos (by simp [List.isPrefixOf]), hsplit]
  simp only [parts_dropRight hname.slash hending, parts_word howner.slash, List.singleton_append]

/-- The name of a clone is what stands behind the last slash, less the ending. -/
theorem repoName_append (hname : IsWord name) (hgit : ¬".git".toList <:+ name.toList)
    (hending : ending = "" ∨ ending = ".git") : repoName (front ++ "/" ++ name ++ ending) = name := by
  have hbare : bare (front ++ "/" ++ name ++ ending) = (front ++ "/" ++ name).toList := by
    rcases hending with rfl | rfl
    · have hends : endsWith (front ++ "/" ++ name).toList ".git".toList = false := by
        have hlast := FilePath.endsWith_intercalate (List.cons_ne_nil front [name]) (show '/' ∉ ".git".toList by decide)
        rw [String.intercalate_cons_cons, String.intercalate_singleton] at hlast
        rw [hlast, Bool.eq_false_iff]
        simpa [endsWith, List.isPrefixOf_iff_prefix, ← List.reverse_suffix] using hgit
      rw [String.append_empty, bare, hends]
      rfl
    · rw [bare, if_pos (by simp [endsWith]), String.toList_append, List.length_append]
      exact List.take_left
  -- the name does not end in a slash, so there is none to drop behind it
  have hslash : dropRight (· == '/') (front ++ "/" ++ name).toList = (front ++ "/" ++ name).toList := by
    rw [dropRight_eq_self_iff, String.toList_append, List.getLast?_append]
    intro c hc
    cases hlast : name.toList.getLast? with
    | none => exact absurd (String.toList_eq_nil_iff.1 (List.getLast?_eq_none_iff.1 hlast)) hname.nonempty
    | some d =>
      obtain rfl : d = c := by simpa [hlast] using hc
      simpa using ne_of_mem_of_not_mem (List.mem_of_getLast? hlast) hname.slash
  have hread : repoName (front ++ "/" ++ name ++ ending) =
      (parts (dropRight (· == '/') (bare (front ++ "/" ++ name ++ ending)))).getLast?.getD "" := rfl
  rw [hread, hbare, hslash, parts_append hname.slash, List.getLast?_concat, Option.getD_some]

end

theorem eq_of_mem_addresses {host owner name url : String} (h : url ∈ addresses host owner name) :
    ∃ ending, (ending = "" ∨ ending = ".git") ∧
      (url = "https://" ++ host ++ "/" ++ owner ++ "/" ++ name ++ ending ∨
        url = "git@" ++ host ++ ":" ++ owner ++ "/" ++ name ++ ending) := by
  simp only [addresses, List.mem_cons, List.not_mem_nil, or_false] at h
  rcases h with rfl | rfl | rfl | rfl
  · exact ⟨"", .inl rfl, .inl String.append_empty.symm⟩
  · exact ⟨"", .inl rfl, .inr String.append_empty.symm⟩
  · exact ⟨".git", .inr rfl, .inl rfl⟩
  · exact ⟨".git", .inr rfl, .inr rfl⟩

/-- The name of a clone and the owner are read back from each address. The name that goes with the owner has lost all
that could belong to an ending, and so it is the name of the repository just if its last character could not. -/
theorem owner_and_repoName_of_mem_addresses {host owner name url : String} (hhost : IsWord host) (howner : IsWord owner)
    (hname : IsWord name) (hgit : ¬".git".toList <:+ name.toList) (hurl : url ∈ addresses host owner name) :
    RemoteUrl.owner url = .ok (owner, String.ofList (dropRight isTail name.toList)) ∧ repoName url = name ∧
      (RemoteUrl.owner url = .ok (owner, name) ↔ ∀ c ∈ name.toList.getLast?, c ∉ ['.', 'g', 'i', 't']) := by
  have hread : RemoteUrl.owner url = .ok (owner, String.ofList (dropRight isTail name.toList)) ∧ repoName url = name := by
    obtain ⟨ending, hending, rfl | rfl⟩ := eq_of_mem_addresses hurl
    · exact ⟨owner_web howner.slash hname.slash hending host, repoName_append hname hgit hending⟩
    · exact ⟨owner_shell hhost.colon howner hname hending, repoName_append hname hgit hending⟩
  have hkept : String.ofList (dropRight isTail name.toList) = name ↔ dropRight isTail name.toList = name.toList := by
    rw [← String.toList_inj, String.toList_ofList]
  refine ⟨hread.1, hread.2, ?_⟩
  rw [hread.1, Except.ok.injEq, Prod.mk.injEq, hkept, dropRight_eq_self_iff]
  simp [isTail, and_assoc]

theorem owner_and_repoName_of_planner :
    IsWord "github.com" ∧ IsWord "ada" ∧ IsWord "trip.planner" ∧ ¬".git".toList <:+ "trip.planner".toList ∧
      "git@github.com:ada/trip.planner.git" ∈ addresses "github.com" "ada" "trip.planner" ∧
      repoName "git@github.com:ada/trip.planner.git" = "trip.planner" ∧
      RemoteUrl.owner "git@github.com:ada/trip.planner.git" = .ok ("ada", "trip.planner") := by
  have hhost : IsWord "github.com" := by decide
  have howner : IsWord "ada" := by decide
  have hname : IsWord "trip.planner" := by decide
  have hgit : ¬".git".toList <:+ "trip.planner".toList := by decide
  have hurl : "git@github.com:ada/trip.planner.git" ∈ addresses "github.com" "ada" "trip.planner" := by decide
  have hlast : "trip.planner".toList.getLast? = some 'r' := by decide
  have hread := owner_and_repoName_of_mem_addresses hhost howner hname hgit hurl
  exact ⟨hhost, howner, hname, hgit, hurl, hread.2.1, hread.2.2.2 (by rw [hlast]; simp)⟩

/-- The repository `audit` is taken for one of the name `aud`. -/
theorem owner_of_audit :
    IsWord "github.com" ∧ IsWord "owner" ∧ IsWord "audit" ∧ ¬".git".toList <:+ "audit".toList ∧
      "https://github.com/owner/audit.git" ∈ addresses "github.com" "owner" "audit" ∧
      RemoteUrl.owner "https://github.com/owner/audit.git" = .ok ("owner", "aud") ∧
      repoName "https://github.com/owner/audit.git" = "audit" := by
  refine ⟨by decide, by decide, by decide, by decide, by decide, rfl, ?_⟩
  decide +kernel

end CodeMigration.RemoteUrl
