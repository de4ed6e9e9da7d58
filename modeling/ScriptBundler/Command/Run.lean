import ScriptBundler.Version
import ScriptBundler.Command.Args
import ScriptBundler.Command.Help
import ScriptBundler.Config.File
import ScriptBundler.Bundle.Build

/-!
# Running commands

A command changes files, and says what happened on standard output and standard
error.  How long it took is only known in the end, so the output is a function
of that.
-/

namespace ScriptBundler

structure Outcome where
  files : Files
  exitCode : Nat
  /-- Standard output of a run of some milliseconds. -/
  output : Nat → String
  /-- Lines on standard error. -/
  notes : List String
  /-- The reason why a command could not be run at all. -/
  failure : Option String

structure RunConfig where
  cwd : String
  jsonLogs : Bool
  verbosity : Nat
deriving DecidableEq, Repr

namespace RunConfig

def toJson (c : RunConfig) : Json :=
  .object
    [("cwd", .string c.cwd), ("json_logs", .bool c.jsonLogs), ("verbosity", .number c.verbosity)]

def ofSettings (s : Settings) (cwd : String) : RunConfig :=
  ⟨s.cwd.getD cwd, s.json, s.verbosity⟩

end RunConfig

namespace Outcome

def lines (texts : List String) : String :=
  String.join (texts.map (· ++ "\n"))

def success (files : Files) (output : List String) : Outcome :=
  ⟨files, 0, fun _ => lines output, [], none⟩

def failed (files : Files) (reason : String) : Outcome :=
  ⟨files, 1, fun _ => "", [], some reason⟩

def usage (files : Files) (reason : String) : Outcome :=
  ⟨files, 2, fun _ => "", ["error: " ++ reason], none⟩

end Outcome

namespace Command

def versionJson : Json :=
  .object [("name", .string programName), ("version", .string ScriptBundler.version)]

def runVersion (json : Bool) (files : Files) : Outcome :=
  .success files [if json then versionJson.compact else versionLine]

structure Checked where
  path : String
  result : Except String LoadedModule

namespace Checked

def isOk (c : Checked) : Bool :=
  match c.result with
  | .ok _ => true
  | .error _ => false

def ofFile (cwd : String) (files : Files) (name : String) : Checked :=
  let path := ModulePath.ofFileName name
  match files.read (FilePath.join cwd path) with
  | .error _ => ⟨path, .error (BundleError.missing path).message⟩
  | .ok source =>
      match LoadedModule.ofBytes path source with
      | .ok m => ⟨path, .ok m⟩
      | .error e => ⟨path, .error e.message⟩

def toJson (print : Bool) (c : Checked) : Json :=
  match c.result with
  | .ok m =>
      .object ([("path", .string c.path), ("ok", .bool true), ("imports", .strings m.imports)] ++
        (if print then [("code", .string m.code)] else []))
  | .error message =>
      .object [("path", .string c.path), ("ok", .bool false), ("imports", .strings []),
        ("error", .string message)]

def report (print : Bool) (c : Checked) : List String :=
  match c.result with
  | .ok m =>
      [c.path ++ " (" ++ Text.decimal m.imports.length ++ " imports)"] ++
        m.imports.map ("  -> " ++ ·) ++ (if print then [m.code] else [])
  | .error _ => []

def message? (c : Checked) : Option String :=
  match c.result with
  | .ok _ => none
  | .error message => some message

end Checked

def runCheck (json : Bool) (cwd : String) (files : Files) (names : List String) (print : Bool) :
    Outcome :=
  let results := names.map (Checked.ofFile cwd files)
  let ok := results.all Checked.isOk
  let output :=
    if json then
      [(Json.object
        [("ok", .bool ok), ("files", .array (results.map (Checked.toJson print)))]).compact]
    else results.flatMap (Checked.report print)
  { files := files
    exitCode := if ok then 0 else 1
    output := fun _ => Outcome.lines output
    notes := if json then [] else results.filterMap Checked.message?
    failure := none }

def configPath (cwd : String) (config : Option String) : String :=
  FilePath.join cwd (config.getD Config.fileName)

def initOutput (json created existed : Bool) (path : String) : String :=
  if json then
    (Json.object
      [("ok", .bool true), ("path", .string path), ("created", .bool created)]).compact
  else if !created then "  " ++ path ++ " already exists (use --force to overwrite)"
  else if existed then "  Overwrote " ++ path
  else "  Created " ++ path

def makeParent (files : Files) (path : String) : Files × Option String :=
  match FilePath.parent? path with
  | some parent =>
      let (files, failure) := files.makeDirectories parent
      (files, failure.map (fun e => "Failed to create " ++ parent ++ ": " ++ e.message))
  | none => (files, none)

def runInit (json : Bool) (cwd : String) (files : Files) (config : Option String)
    (force : Bool) : Outcome :=
  let path := configPath cwd config
  let existed := files.has path
  if existed && !force then .success files [initOutput json false existed path]
  else
    match makeParent files path with
    | (files, some reason) => .failed files reason
    | (files, none) =>
        match Config.default.save files path with
        | .ok files => .success files [initOutput json true existed path]
        | .error e => .failed files (BundleError.file e).message

/-- A size in kilobytes with one decimal place, a half going to the even
neighbour. -/
def kilobytes (bytes : Nat) : String :=
  let tenths := bytes * 10 / 1024
  let twice := 2 * (bytes * 10 % 1024)
  let rounded :=
    if twice < 1024 then tenths
    else if 1024 < twice then tenths + 1
    else if tenths % 2 = 0 then tenths
    else tenths + 1
  Text.decimal (rounded / 10) ++ "." ++ Text.decimal (rounded % 10)

def summary (entry : String) (output : BundleOutput) (milliseconds : Nat) : List String :=
  ["  " ++ entry ++ " -> " ++ output.outfile ++ " (" ++ Text.decimal output.modules.length ++
    " modules, " ++ kilobytes output.code.utf8ByteSize ++ "KB, " ++ Text.decimal milliseconds ++
    "ms)"] ++
    (output.assets ++ output.page.toList).map ("    + " ++ ·)

def bundleJson (entry : String) (output : BundleOutput) (milliseconds : Nat) : Json :=
  .object
    [("ok", .bool true), ("entry", .string entry), ("outfile", .string output.outfile),
     ("modules", .strings output.modules), ("assets", .strings output.assets),
     ("sizeBytes", .number output.code.utf8ByteSize), ("durationMs", .number milliseconds),
     ("warnings", .strings output.warnings)]

def firstCode : List BundleError → String
  | e :: _ => e.code
  | [] => "INTERNAL_ERROR"

def errorsJson (entry : String) (errors : List BundleError) : Json :=
  .object
    [("ok", .bool false), ("entry", .string entry), ("modules", .strings []),
     ("assets", .strings []), ("sizeBytes", .number 0), ("durationMs", .number 0),
     ("warnings", .strings []),
     ("error", .object
       [("code", .string (firstCode errors)),
        ("message", .string (BundleError.listMessage errors)),
        ("count", .number errors.length)])]

def reportBuild (json : Bool) (entry : String) (files : Files) :
    Except (List BundleError) BundleOutput → Outcome
  | .ok output =>
      { files := files
        exitCode := 0
        output := fun milliseconds =>
          Outcome.lines
            (if json then [(bundleJson entry output milliseconds).compact]
              else summary entry output milliseconds)
        notes := if json then [] else output.warnings.map ("  warning: " ++ ·)
        failure := none }
  | .error errors =>
      { files := files
        exitCode := 1
        output := fun _ =>
          Outcome.lines (if json then [(errorsJson entry errors).compact] else [])
        notes := if json then [] else errors.map (fun e => "error: " ++ e.message)
        failure := none }

def overridden (config : Config) (entry outDir : Option String) : Config :=
  { config with
    entry := entry.getD config.entry
    bundleDir := outDir.getD config.bundleDir }

def configFailure : ConfigError → String
  | .unreadable path cause => "Failed to read config at " ++ path ++ ": " ++ cause.message
  | .invalid path .ended => "Failed to parse config at " ++ path ++ ": the text ends too early"
  | .invalid path .malformed => "Failed to parse config at " ++ path ++ ": not JSON"
  | .invalid path .mismatched =>
      "Failed to parse config at " ++ path ++ ": a value of another type is expected"

/-- Build once.  One object on standard output is promised with `json`, so that
excludes builds that go on. -/
def runBundle (json : Bool) (cwd : String) (files : Files) (config entry outDir : Option String)
    (watch : Bool) : Outcome :=
  match Config.load files (configPath cwd config) with
  | .error e => .failed files (configFailure e)
  | .ok loaded =>
      let config := overridden loaded.config entry outDir
      if json && (watch || config.watchFiles || config.devServer.enable) then
        .usage files "--json cannot be combined with watch mode or the dev server"
      else
        let project : Project := ⟨cwd, config⟩
        let (result, workspace) := project.run (project.openWorkspace files)
        reportBuild json config.entry workspace.files result

def run (command : Command) (c : RunConfig) (files : Files) : Outcome :=
  match command with
  | .version => runVersion c.jsonLogs files
  | .bundle config entry outDir watch =>
      runBundle c.jsonLogs c.cwd files config entry outDir watch
  | .init config force => runInit c.jsonLogs c.cwd files config force
  | .check names print => runCheck c.jsonLogs c.cwd files names print

end Command

namespace Invocation

def run (args : List String) (cwd : String) (files : Files) : Outcome :=
  match parse args with
  | .ok invocation =>
      invocation.command.run (.ofSettings invocation.settings cwd) files
  | .error .usage => .usage files "the command line is not understood"
  | .error (.help scope) => .success files (Help.text scope)
  | .error .version => .success files [versionLine]

end Invocation
end ScriptBundler
