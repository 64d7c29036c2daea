import CodeMigration.Finding
import CodeMigration.Text.Basic

/-! # Questions to the assistant, and code in its answers -/

namespace CodeMigration.Assistant

structure Prompt where
  system : String
  human : String

def plannerRole : String := "You are an expert code analyst specializing in code migration.
Your role is to identify deprecated code patterns that need to be updated.

For Python 2 to 3 migrations, look for:
- print statements (print \"x\" instead of print(\"x\"))
- xrange() usage (should be range())
- unicode/str handling issues
- dict.keys(), .values(), .items() returning lists
- except Exception, e: syntax
- raw_input() usage
- __future__ imports that can be removed

For Flask to FastAPI migrations, look for:
- @app.route() decorators (should be @app.get(), @app.post(), etc.)
- Flask request object usage
- Flask Response objects
- Blueprint patterns
- Flask-specific extensions

Provide your analysis in a structured format with:
1. Pattern type
2. File location (path, line numbers)
3. Original code snippet
4. Severity (info, warning, error)
5. Suggested fix approach

Be thorough but avoid false positives. Focus on actual migration issues."

def coderRole : String := "You are an expert code migration engineer.
Your role is to rewrite deprecated code patterns with modern equivalents.

Guidelines:
1. Preserve the original logic and behavior
2. Follow the target framework's best practices
3. Maintain code readability and documentation
4. Add type hints where appropriate
5. Ensure backward compatibility when possible

For Python 2 to 3 migrations:
- Convert print statements to print() functions
- Replace xrange() with range()
- Update unicode/str handling
- Convert dict.iteritems() to dict.items()
- Update exception syntax: except E as e:
- Replace raw_input() with input()
- Update division behavior if needed

For Flask to FastAPI migrations:
- Convert @app.route() to @app.get(), @app.post(), etc.
- Replace Flask request with FastAPI dependency injection
- Convert Flask Response to FastAPI Response
- Update Blueprint to APIRouter
- Add Pydantic models for request/response validation
- Use async/await where beneficial

Return ONLY the new code, no explanations. The code should be a drop-in replacement."

def testerRole : String := "You are an expert test engineer specializing in migration validation.
Your role is to write comprehensive unit tests that verify:
1. The migrated code produces the same output as the original
2. Edge cases are handled correctly
3. Error handling works as expected
4. Type safety is maintained

Test Guidelines:
- Use pytest as the testing framework
- Write clear, descriptive test names
- Include docstrings explaining what each test validates
- Test both happy path and error cases
- Use fixtures for common setup
- Mock external dependencies when needed
- Aim for high code coverage

Test Naming Convention:
- test_<function_name>_<scenario>_<expected_outcome>
- Example: test_parse_config_empty_file_returns_defaults

Return ONLY valid Python test code using pytest."

def migrationText : MigrationKind → String
  | .legacy => "Python 2 to Python 3"
  | .flask => "Flask to FastAPI"

def issuesPrompt (kind : MigrationKind) (file content : String) : Prompt :=
  ⟨plannerRole, Text.unlines [
    "Analyze this code for " ++ migrationText kind ++ " migration issues.",
    "",
    "File: " ++ file,
    "",
    "```python",
    content,
    "```",
    "",
    "List each issue you find with:",
    "- Pattern type",
    "- Line number(s)",
    "- Code snippet",
    "- Severity",
    "- Suggested approach",
    "",
    "If no issues found, respond with \"NO_ISSUES_FOUND\"."]⟩

def contextOf (f : Finding) (content : String) : String :=
  let lines := Text.lines content
  Text.unlines (Text.between (max 0 (f.place.startLine - 5)) (min lines.length (f.place.endLine + 5)) lines)

def fixPrompt (kind : MigrationKind) (styleGuide : String) (f : Finding) (content : String) : Prompt :=
  let style := if styleGuide.isEmpty then "" else "\n\nStyle Guide Requirements:\n" ++ styleGuide
  ⟨coderRole ++ style, Text.unlines [
    "Rewrite this " ++ migrationText kind ++ " code.",
    "",
    "Pattern Type: " ++ f.kind,
    "Issue: " ++ f.description,
    "",
    "Original Code (lines " ++ toString f.place.startLine ++ "-" ++ toString f.place.endLine ++ "):",
    "```python",
    f.code,
    "```",
    "",
    "Context:",
    "```python",
    contextOf f content,
    "```",
    "",
    "Provide only the replacement code for the original snippet."]⟩

def testPrompt (c : Change) (content : String) : Prompt :=
  ⟨testerRole, Text.unlines [
    "Generate pytest tests for this code migration.",
    "",
    "Original Code:",
    "```python",
    c.before,
    "```",
    "",
    "New Code:",
    "```python",
    c.after,
    "```",
    "",
    "File Context:",
    "```python",
    content,
    "```",
    "",
    "Change Explanation: " ++ c.explanation,
    "",
    "Generate comprehensive tests that verify the new code behaves correctly."]⟩

def fence : String := "```"

/-- The code of an answer: without the line that opens a fence and the one that closes it. -/
def unfence (answer : String) : String :=
  let code := Text.strip answer
  if fence.toList.isPrefixOf code.toList then
    let lines := Text.lines code
    let inner := if lines.getLast? == some fence then lines.tail.dropLast else lines.tail
    Text.strip (Text.unlines inner)
  else code

end CodeMigration.Assistant
