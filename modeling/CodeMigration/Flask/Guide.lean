import CodeMigration.Plan

/-! # Moving to the new web framework -/

namespace CodeMigration.Flask

structure Equivalent where
  old : String
  new : String
  description : String
  imports : List String
  exampleBefore : String
  exampleAfter : String

def equivalents : List Equivalent := [
  { old := "Flask(__name__)", new := "FastAPI()", description := "Application instantiation",
    imports := ["from fastapi import FastAPI"], exampleBefore := "app = Flask(__name__)",
    exampleAfter := "app = FastAPI()" },
  { old := "@app.route('/', methods=['GET'])", new := "@app.get('/')", description := "GET route decorator",
    imports := [], exampleBefore := "@app.route('/users', methods=['GET'])\ndef get_users():",
    exampleAfter := "@app.get('/users')\nasync def get_users():" },
  { old := "@app.route('/', methods=['POST'])", new := "@app.post('/')", description := "POST route decorator",
    imports := [], exampleBefore := "@app.route('/users', methods=['POST'])\ndef create_user():",
    exampleAfter := "@app.post('/users')\nasync def create_user(user: UserCreate):" },
  { old := "request.json", new := "Pydantic model parameter", description := "JSON request body",
    imports := ["from pydantic import BaseModel"], exampleBefore := "data = request.json",
    exampleAfter := "async def endpoint(data: DataModel):" },
  { old := "request.args", new := "Query parameters", description := "Query string parameters",
    imports := ["from fastapi import Query"], exampleBefore := "name = request.args.get('name')",
    exampleAfter := "async def endpoint(name: str = Query(None)):" },
  { old := "request.form", new := "Form parameters", description := "Form data",
    imports := ["from fastapi import Form"], exampleBefore := "name = request.form['name']",
    exampleAfter := "async def endpoint(name: str = Form(...)):" },
  { old := "jsonify(data)", new := "return data", description := "JSON response",
    imports := [], exampleBefore := "return jsonify(\x7b'status': 'ok'\x7d)",
    exampleAfter := "return \x7b'status': 'ok'\x7d" },
  { old := "Blueprint", new := "APIRouter", description := "Route grouping",
    imports := ["from fastapi import APIRouter"], exampleBefore := "bp = Blueprint('users', __name__)",
    exampleAfter := "router = APIRouter(prefix='/users')" },
  { old := "abort(404)", new := "raise HTTPException(status_code=404)", description := "HTTP error response",
    imports := ["from fastapi import HTTPException"], exampleBefore := "abort(404)",
    exampleAfter := "raise HTTPException(status_code=404, detail='Not found')" },
  { old := "@app.before_request", new := "Middleware or Depends", description := "Pre-request processing",
    imports := ["from fastapi import Depends"], exampleBefore := "@app.before_request\ndef before():",
    exampleAfter := "async def dependency():\n    # pre-processing\n\n@app.get('/', dependencies=[Depends(dependency)])" }]

def checklist : List String := [
  "Install FastAPI dependencies: pip install fastapi uvicorn",
  "Replace Flask app with FastAPI app",
  "Convert route decorators to specific HTTP methods",
  "Create Pydantic models for request/response validation",
  "Replace request.json with Pydantic model parameters",
  "Replace request.args with Query parameters",
  "Replace request.form with Form parameters",
  "Replace jsonify() with direct dict/model returns",
  "Replace abort() with HTTPException",
  "Convert Blueprints to APIRouters",
  "Update middleware patterns",
  "Replace Flask-specific extensions",
  "Update CORS configuration",
  "Update authentication/authorization",
  "Add async/await where beneficial",
  "Update tests to use TestClient",
  "Update deployment (gunicorn -> uvicorn)",
  "Review and update documentation"]

def models : String := "\"\"\"Auto-generated Pydantic models for FastAPI migration.\"\"\"

from pydantic import BaseModel, Field
from typing import Optional, List
from datetime import datetime


class BaseResponse(BaseModel):
    \"\"\"Base response model.\"\"\"
    success: bool = True
    message: str = \"\"


class ErrorResponse(BaseModel):
    \"\"\"Error response model.\"\"\"
    detail: str
    code: Optional[str] = None


# Add your domain models below
# Example:
# class UserCreate(BaseModel):
#     username: str = Field(..., min_length=3, max_length=50)
#     email: str
#     password: str = Field(..., min_length=8)
"

/-- The imports that new code can need, in their order, with the kinds of findings that call for them. -/
def importNeeds : List (String × (String → Bool)) := [
  ("from fastapi import APIRouter", fun kind => Text.contains (Text.lower kind) "blueprint"),
  ("from fastapi import FastAPI", fun _ => false),
  ("from fastapi import Form", fun kind => Text.contains kind "form"),
  ("from fastapi import HTTPException", fun kind => Text.contains kind "abort"),
  ("from fastapi import Request, Depends", fun kind => Text.contains kind "request"),
  ("from pydantic import BaseModel", fun kind => Text.contains kind "json")]

def importsFor (kinds : List String) : List String :=
  (importNeeds.filter fun (text, needs) => text == "from fastapi import FastAPI" || kinds.any needs).map Prod.fst

def requiredImports (source : String) : Except Failure (List String) := do
  let found ← analyze .flask source
  return importsFor (found.map Finding.kind)

def categoryOf (kind : String) : String :=
  if Text.contains kind "route" then "routing"
  else if Text.contains kind "request" then "request_handling"
  else if Text.contains kind "response" || Text.contains kind "jsonify" then "response_handling"
  else if Text.contains kind "import" then "imports"
  else "other"

def categories : List String := ["routing", "request_handling", "response_handling", "imports", "other"]

def plan (source : String) (apply : Bool) : Except Failure Plan := do
  let found ← analyze .flask source
  let kinds := found.map Finding.kind
  let migrated ← if apply then some <$> migrate .flask source else pure none
  return { findings := found,
           categories := categories.map fun c => (c, kinds.countP fun kind => categoryOf kind == c),
           imports := importsFor kinds, migrated }

def summary (kinds : List String) : String :=
  if kinds.isEmpty then "No Flask patterns found. Code may already be using FastAPI."
  else Text.unlines (
    ["Found " ++ toString kinds.length ++ " Flask patterns that need migration:\n"] ++ summaryLines kinds ++
    ["\nKey migration steps:",
     "  1. Install FastAPI: pip install fastapi uvicorn",
     "  2. Create Pydantic models for data validation",
     "  3. Run automated transformation",
     "  4. Review async/await opportunities",
     "  5. Update tests to use FastAPI TestClient"])

end CodeMigration.Flask
