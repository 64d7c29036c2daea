import CodeMigration.Failure
import CodeMigration.Finding
import CodeMigration.Text.Case

/-! # Settings

Each setting has a default and can be given in the environment, under its name behind `DEVASSIST_` in
any case. -/

namespace CodeMigration

structure Settings where
  apiKey : String := ""
  model : String := "gpt-4-turbo-preview"
  githubToken : String := ""
  githubUrl : String := "https://api.github.com"
  kind : MigrationKind := .legacy
  branch : String := "devassist/migration"
  autoPullRequest : Bool := true
  docker : Bool := false
  dockerImage : String := "python:3.11-slim"
  docsEnabled : Bool := false
  docsUrl : String := "http://localhost:3000"
  logLevel : String := "INFO"
  logFormat : String := "%(asctime)s - %(name)s - %(levelname)s - %(message)s"
  workDir : String := ".devassist_work"
  deriving Inhabited

abbrev Environment : Type := List (String × String)

namespace Environment

/-- The value of a setting; of names that differ in case the last counts. -/
def setting? (env : Environment) (name : String) : Option String :=
  (env.reverse.find? fun (key, _) => Text.lower key == "devassist_" ++ name).map Prod.snd

def text (env : Environment) (name default : String) : String := (env.setting? name).getD default

def switch (env : Environment) (name : String) (default : Bool) : Except SettingFault Bool :=
  match env.setting? name with
  | none => .ok default
  | some value =>
    let value := Text.lower value
    if ["1", "true", "t", "yes", "y", "on"].contains value then .ok true
    else if ["0", "false", "f", "no", "n", "off"].contains value then .ok false
    else .error (.notSwitch name)

def migrationKind (env : Environment) : Except SettingFault MigrationKind :=
  match env.setting? "migration_type" with
  | none => .ok .legacy
  | some value =>
    match MigrationKind.ofName? value with
    | some kind => .ok kind
    | none => .error (.notKind value)

end Environment

def faultOf {α : Type} : Except SettingFault α → List SettingFault
  | .ok _ => []
  | .error fault => [fault]

def Settings.ofEnvironment (env : Environment) : Except Failure Settings :=
  let kind := env.migrationKind
  let autoPullRequest := env.switch "auto_create_pr" true
  let docker := env.switch "docker_enabled" false
  let docsEnabled := env.switch "mcp_enabled" false
  match kind, autoPullRequest, docker, docsEnabled with
  | .ok kind, .ok autoPullRequest, .ok docker, .ok docsEnabled =>
    let d : Settings := {}
    .ok { apiKey := env.text "openai_api_key" d.apiKey, model := env.text "openai_model" d.model,
          githubToken := env.text "github_token" d.githubToken,
          githubUrl := env.text "github_base_url" d.githubUrl, kind,
          branch := env.text "target_branch" d.branch, autoPullRequest, docker,
          dockerImage := env.text "docker_image" d.dockerImage, docsEnabled,
          docsUrl := env.text "mcp_server_url" d.docsUrl, logLevel := env.text "log_level" d.logLevel,
          logFormat := env.text "log_format" d.logFormat, workDir := env.text "work_dir" d.workDir }
  | _, _, _, _ =>
    .error (.settings (faultOf kind ++ faultOf autoPullRequest ++ faultOf docker ++ faultOf docsEnabled))

end CodeMigration
