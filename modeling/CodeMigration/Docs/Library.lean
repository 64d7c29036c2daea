import CodeMigration.Json.Writer

/-! # The documentation library

Style guides by language, migration guides by what they lead from and to, and examples by pattern, with
defaults for some of each. -/

namespace CodeMigration.Docs

open Json (Value)

/-- Entries by key; the last one set counts. -/
abbrev Entries (α : Type) : Type := List (String × α)

def Entries.set {α : Type} (key : String) (item : α) (entries : Entries α) : Entries α := (key, item) :: entries

structure Library where
  styles : Entries String := []
  guides : Entries Value := []
  examples : Entries Value := []

def defaultStyle : String := "# Python Style Guide

## General Guidelines
- Follow PEP 8 conventions
- Use 4 spaces for indentation
- Maximum line length of 100 characters
- Use type hints for all function signatures

## Naming Conventions
- Classes: PascalCase
- Functions and variables: snake_case
- Constants: UPPER_SNAKE_CASE
- Private attributes: _leading_underscore

## Documentation
- Use docstrings for all public modules, functions, classes, and methods
- Follow Google-style docstring format
- Include type information in docstrings

## Imports
- Group imports: standard library, third-party, local
- Sort imports alphabetically within groups
- Use absolute imports

## Error Handling
- Use specific exception types
- Always include error messages
- Log errors appropriately
"

def guide (title : String) (sections : List (String × String × String)) : Value :=
  .object [("title", .string title),
    ("sections", .array (sections.map fun (name, description, sample) =>
      .object [("name", .string name), ("description", .string description), ("example", .string sample)]))]

def defaultGuides : Entries Value := [
  ("python2_to_python3", guide "Python 2 to Python 3 Migration Guide" [
    ("Print Function", "Replace print statements with print() function",
      "print 'hello' -> print('hello')"),
    ("Division", "True division is default in Python 3",
      "5 / 2 returns 2.5 in Python 3"),
    ("Unicode", "All strings are unicode by default",
      "str -> str (unicode), bytes for binary")]),
  ("flask_to_fastapi", guide "Flask to FastAPI Migration Guide" [
    ("Route Decorators", "Replace @app.route() with specific method decorators",
      "@app.route('/') -> @app.get('/')"),
    ("Request Data", "Use dependency injection instead of global request",
      "request.json -> async def endpoint(data: Model)"),
    ("Response", "Return dicts or Pydantic models directly",
      "jsonify(data) -> return data")])]

def sample (before after : String) : Value := .object [("before", .string before), ("after", .string after)]

def defaultExamples : Entries Value := [
  ("flask_route", .array [sample
    "@app.route('/users', methods=['GET'])\ndef get_users():\n    return jsonify(users)"
    "@app.get('/users')\nasync def get_users():\n    return users"]),
  ("print_statement", .array [sample "print 'Hello, World!'" "print('Hello, World!')"])]

def notes : Entries String := [
  ("testing", "Use pytest for testing. Write unit tests for all public functions."),
  ("security", "Never commit secrets. Use environment variables for configuration."),
  ("performance", "Use generators for large data. Profile before optimizing.")]

def guideKey (source target : String) : String := source ++ "_to_" ++ target

namespace Library

def loadStyle (lib : Library) (language content : String) : Library :=
  { lib with styles := lib.styles.set language content }

def loadGuide (lib : Library) (source target : String) (g : Value) : Library :=
  { lib with guides := lib.guides.set (guideKey source target) g }

def loadExamples (lib : Library) (pattern : String) (samples : Value) : Library :=
  { lib with examples := lib.examples.set pattern samples }

def style (lib : Library) (language : String) : String := (lib.styles.lookup language).getD defaultStyle

def guide (lib : Library) (source target : String) : Value :=
  let key := guideKey source target
  (lib.guides.lookup key).getD ((defaultGuides.lookup key).getD (.object []))

def examplesOf (lib : Library) (pattern : String) : Value :=
  (lib.examples.lookup pattern).getD ((defaultExamples.lookup pattern).getD (.array []))

end Library

end CodeMigration.Docs
