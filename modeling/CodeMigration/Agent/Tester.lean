import CodeMigration.Agent.Coder

/-! # Testing -/

namespace CodeMigration.Tester

open Act

/-- A text as it stands between three quotes. -/
def escaped (content : String) : String :=
  Text.replace (Text.replace content "\\" "\\\\") "\"\"\"" "\\\"\\\"\\\""

def moduleTest (module code : String) : String :=
  Text.unlines [
    "#!/usr/bin/env python3",
    "\"\"\"",
    "Auto-generated migration validation test for " ++ module ++ ".",
    "Generated by DevAssist Tester Agent (AST-only mode).",
    "\"\"\"",
    "import ast",
    "import sys",
    "",
    "def test_syntax_valid():",
    "    \"\"\"Test that the migrated code has valid Python 3 syntax.\"\"\"",
    "    code = \"\"\"" ++ code ++ "\"\"\"",
    "    ",
    "    try:",
    "        ast.parse(code)",
    "        print(\"[PASS] Syntax validation passed\")",
    "        return True",
    "    except SyntaxError as e:",
    "        print(f\"[FAIL] Syntax error: \x7be\x7d\")",
    "        return False",
    "",
    "def test_module_compiles():",
    "    \"\"\"Test that the module can be compiled without errors.\"\"\"",
    "    code = \"\"\"" ++ code ++ "\"\"\"",
    "    ",
    "    try:",
    "        compile(code, \"<test>\", \"exec\")",
    "        print(\"[PASS] Compilation validation passed\")",
    "        return True",
    "    except Exception as e:",
    "        print(f\"[FAIL] Compilation error: \x7be\x7d\")",
    "        return False",
    "",
    "if __name__ == \"__main__\":",
    "    passed = True",
    "    passed = test_syntax_valid() and passed",
    "    passed = test_module_compiles() and passed",
    "    ",
    "    if passed:",
    "        print(\"\\nAll tests passed!\")",
    "        sys.exit(0)",
    "    else:",
    "        print(\"\\nSome tests failed!\")",
    "        sys.exit(1)",
    ""]

def plainTest (c : Change) (content : String) : String := moduleTest (FilePath.ofString c.file).stem (escaped content)

def test (assisted : Bool) (c : Change) (content : String) : Act String := do
  if assisted then return Assistant.unfence (← ask (Assistant.testPrompt c content))
  else return plainTest c content

structure Setup where
  assisted : Bool
  docker : Bool
  image : String

def testFile : String := "<test>"

def dockerCommand (image : String) (repo : String) : List String :=
  ["docker", "run", "--rm", "-v", repo ++ ":/app", "-v", testFile ++ ":/app/test_migration.py", "-w", "/app", image,
    "python", "-m", "pytest", "/app/test_migration.py", "-v", "--tb=short"]

def localCommand (assisted : Bool) : List String :=
  if assisted then ["python", "-m", "pytest", testFile, "-v", "--tb=short"] else ["python", testFile]

/-- Runs a test, for five minutes at most in a container and for two here. -/
def runTest (s : Setup) (name : String) (repo : String) : Act TestReport := do
  let minutes := if s.docker then 5 else 2
  let event := if s.docker then Event.tested (dockerCommand s.image repo) (60 * minutes) none
    else .tested (localCommand s.assisted) (60 * minutes) (some repo)
  match ← observe event Outside.testRun with
  | .timedOut =>
    return { name, passed := false, time := 60 * minutes,
             error := "Test timed out after " ++ toString minutes ++ " minutes" }
  | .failure text => return { name, passed := false, error := text }
  | .done code stdout stderr =>
    return { name, passed := code == 0, error := if code == 0 then "" else stderr, stdout, stderr }

/-- Writes tests for those changes whose files have a text, and does something with each. -/
def forTests {α : Type} (assisted : Bool) (texts : Texts) (changes : List Change) (f : Change → String → Act α) :
    Act (List α) :=
  changes.foldlM (fun done c => do
    match texts.lookup c.file with
    | some content => return done ++ [← f c (← test assisted c content)]
    | none => return done) []

def hereMark : String := "<cwd>"

def run (s : Setup) : Act Unit := do
  Agent.tester.start
  let m := (← get).state
  if m.applied.isEmpty then
    say "tester" "No changes to test."
    updateMigration fun m => { m with testsPassed := true }
  else
    let texts ← Coder.readTexts (m.applied.map (·.file))
    let repo := (m.repoPath.map FilePath.toString).getD hereMark
    let reports ← forTests s.assisted texts m.applied fun c _ => runTest s ("test_" ++ c.id) repo
    updateMigration fun m => { m with tests := reports, testsPassed := reports.all (·.passed) }
    say "tester" ("Test execution complete: " ++ toString (reports.countP (·.passed)) ++ "/" ++
      toString reports.length ++ " tests passed.")

end CodeMigration.Tester
