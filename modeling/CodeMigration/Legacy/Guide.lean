import CodeMigration.Plan

/-! # Moving to the new language version -/

namespace CodeMigration.Legacy

structure Topic where
  name : String
  description : String
  category : String
  automatic : Bool := true

def topics : List Topic := [
  ⟨"print_statement", "Convert print statements to print() function", "syntax", true⟩,
  ⟨"xrange_to_range", "Replace xrange() with range()", "stdlib", true⟩,
  ⟨"dict_iter_methods", "Replace dict.iteritems/iterkeys/itervalues", "stdlib", true⟩,
  ⟨"except_syntax", "Convert 'except E, e:' to 'except E as e:'", "syntax", true⟩,
  ⟨"unicode_handling", "Update unicode() to str(), handle encoding", "stdlib", true⟩,
  ⟨"raw_input", "Replace raw_input() with input()", "stdlib", true⟩,
  ⟨"module_renames", "Update renamed standard library modules", "stdlib", true⟩,
  ⟨"division", "Handle integer division changes", "behavior", true⟩,
  ⟨"long_type", "Replace long() with int()", "stdlib", true⟩,
  ⟨"reduce_moved", "Import reduce from functools", "stdlib", true⟩]

/-- The category of a kind of finding: that of the first topic whose name it holds. -/
def categoryOf (kind : String) : String :=
  match topics.find? fun t => Text.contains kind t.name with
  | some t => t.category
  | none => "other"

def findings (source : String) : Except Failure (List Finding) := do
  let inTree ← analyze .legacy source
  let byRules ← matchRules Rule.default "." source
  return inTree ++ byRules

def plan (source : String) (apply : Bool) : Except Failure Plan := do
  let found ← findings source
  let migrated ← if apply then some <$> migrate .legacy source else pure none
  return { findings := found, categories := tally (found.map fun f => categoryOf f.kind), migrated }

/-- The imports that make the old version behave like the new one. -/
def futureImports (source : String) : List String :=
  (if Text.contains source "print " && !Text.contains source "print(" then
    ["from __future__ import print_function"] else []) ++
  (if Text.contains source "/" then ["from __future__ import division"] else []) ++
  ["from __future__ import absolute_import"]

def summary (kinds : List String) : String :=
  if kinds.isEmpty then "No Python 2 patterns found. Code appears to be Python 3 compatible."
  else Text.unlines (
    ["Found " ++ toString kinds.length ++ " Python 2 patterns that need migration:\n"] ++ summaryLines kinds ++
    ["\nRecommended actions:"] ++
    (if kinds.contains "print_statement" then
      ["  1. Add 'from __future__ import print_function' for compatibility"] else []) ++
    ["  2. Run automated transformation", "  3. Review and test all changes"])

end CodeMigration.Legacy
