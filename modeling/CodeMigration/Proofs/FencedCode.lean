import CodeMigration.Proofs.AnsweredRequests

/-! # Code between fences

Code that stands between two fences is taken out as it is, even if it is empty or has fences itself: only the first line
of an answer and the last one count. -/

namespace CodeMigration.Assistant

/-- Code between two fences. Anything may stand behind the first one on its line. -/
def fenced (info code : String) : String := fence ++ info ++ "\n" ++ code ++ "\n" ++ fence

variable {before after info code : String}

theorem lines_fenced (hinfo : '\n' ∉ info.toList) :
    Text.lines (fenced info code) = (fence ++ info) :: Text.lines code ++ [fence] := by
  have hfirst : '\n' ∉ (fence ++ info).toList := by
    rw [String.toList_append, List.mem_append, not_or]
    exact ⟨by decide, hinfo⟩
  rw [fenced, Text.lines_append, Text.lines_append, Text.lines_of_not_mem hfirst]
  rfl

theorem strip_fenced (hbefore : ∀ c ∈ before.toList, Text.isBlank c = true)
    (hafter : ∀ c ∈ after.toList, Text.isBlank c = true) :
    Text.strip (before ++ fenced info code ++ after) = fenced info code := by
  have hfence : fence.toList = ['\x60', '\x60', '\x60'] := rfl
  rw [Text.strip, String.toList_append, String.toList_append, Text.stripBoth_append hbefore hafter, String.ofList_toList]
  · exact ⟨'\x60', '\x60' :: '\x60' :: (info ++ "\n" ++ code ++ "\n" ++ fence).toList, by simp [fenced, hfence], by decide⟩
  · exact ⟨(fence ++ info ++ "\n" ++ code ++ "\n``").toList, '\x60', by simp [fenced, hfence], by decide⟩

/-- Code without blanks at its ends is taken out of its fences as it is. -/
theorem unfence_fenced (hbefore : ∀ c ∈ before.toList, Text.isBlank c = true)
    (hafter : ∀ c ∈ after.toList, Text.isBlank c = true) (hinfo : '\n' ∉ info.toList) (hcode : Text.strip code = code) :
    unfence (before ++ fenced info code ++ after) = code := by
  have hstart : fence.toList.isPrefixOf (fenced info code).toList = true := by
    rw [List.isPrefixOf_iff_prefix]
    exact ⟨(info ++ "\n" ++ code ++ "\n" ++ fence).toList, by simp [fenced]⟩
  have hlast : (Text.lines (fenced info code)).getLast? = some fence := by
    rw [lines_fenced hinfo]
    exact List.getLast?_concat ..
  simp only [unfence, strip_fenced hbefore hafter, hstart, hlast, beq_self_eq_true, if_true]
  rw [lines_fenced hinfo, List.cons_append, List.tail_cons, List.dropLast_concat, Text.unlines_lines, hcode]

/-- The code is fenced itself. -/
theorem unfence_fenced_twice : Text.strip "```\nx\n```" = "```\nx\n```" ∧
    unfence (" \n" ++ fenced "python " "```\nx\n```" ++ "\n\t") = "```\nx\n```" := by
  have hcode : Text.strip "```\nx\n```" = "```\nx\n```" := by decide
  exact ⟨hcode, unfence_fenced (List.all_eq_true.1 (by decide)) (List.all_eq_true.1 (by decide)) (by decide) hcode⟩

end CodeMigration.Assistant
