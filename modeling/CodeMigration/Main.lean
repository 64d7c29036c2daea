import CodeMigration.Program

/-! # The command line

Reads the environment and the directory that a run starts in, and writes what the run showed and the files
that it left. No service outside is reached from here: a repository cannot be cloned, and a run says so. -/

namespace CodeMigration.Main

def settingNames : List String :=
  ["OPENAI_API_KEY", "OPENAI_MODEL", "GITHUB_TOKEN", "GITHUB_BASE_URL", "MIGRATION_TYPE", "TARGET_BRANCH",
    "AUTO_CREATE_PR", "DOCKER_ENABLED", "DOCKER_IMAGE", "MCP_ENABLED", "MCP_SERVER_URL", "LOG_LEVEL", "LOG_FORMAT",
    "WORK_DIR"].map ("DEVASSIST_" ++ ·)

def offline : Outside :=
  let reason := "no connection"
  { reply := fun _ => .failure reason, cloneFault := fun _ => some reason, pushFault := fun _ => some reason,
    testRun := fun _ => .failure reason, docs := fun _ => .unreachable, listenFault := fun _ => some reason }

def environment : IO Environment :=
  settingNames.filterMapM fun name => return (← IO.getEnv name).map (name, ·)

/-- The disk as far as a run looks at it: the sample of settings. -/
def startDisk : IO Disk := do
  try
    let content ← IO.FS.readBinFile Program.sampleFile
    return { here := .dir [(Program.sampleFile, .file content.toList)] }
  catch _ => return {}

def keep (before after : Disk) : IO Unit := do
  for (path, content) in after.here.files do
    if !(before.isThere ⟨"", path⟩) then
      if path.length > 1 then IO.FS.createDirAll ("/".intercalate path.dropLast)
      IO.FS.writeBinFile ("/".intercalate path) ⟨content.toArray⟩

end CodeMigration.Main

def main (args : List String) : IO UInt32 := do
  let disk ← CodeMigration.Main.startDisk
  let work := CodeMigration.Program.run (← CodeMigration.Main.environment) 78 args
  let (status, world) := work.runIn CodeMigration.Main.offline { disk }
  IO.print (CodeMigration.Console.screen world.log)
  IO.eprint (CodeMigration.Console.complaints world.log)
  CodeMigration.Main.keep disk world.disk
  return match status with
    | .ok n => n.toUInt32
    | .error _ => 1
