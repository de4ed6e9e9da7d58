import ScriptBundler.Version
import ScriptBundler.Text.Decimal
import ScriptBundler.Command.Args

/-!
# Help texts

What the program or one of its commands does, how it is called, and what its
options mean.  The meanings stand in a column of their own.
-/

namespace ScriptBundler

namespace Flag

def valueName? : Flag → Option String
  | cwd => some "PATH"
  | config | entry => some "FILE"
  | outDir => some "DIR"
  | _ => none

/-- What stands behind the name of a flag: its value, or points if it may be
given more than once. -/
def suffix (flag : Flag) : String :=
  match flag.valueName? with
  | some name => " <" ++ name ++ ">"
  | none => if flag = verbose then "..." else ""

def written (flag : Flag) : String :=
  let letter :=
    match flag.short? with
    | some c => "-" ++ String.singleton c ++ ", "
    | none => "    "
  letter ++ "--" ++ flag.long ++ flag.suffix

def about : Flag → String
  | verbose => "Increase logging verbosity (-v for DEBUG, -vv for TRACE)"
  | json => "Emit JSON formatted output (stable, machine-readable)"
  | cwd => "Override the working directory"
  | config => "Config file (default: jsbundle.config.json)"
  | entry => "Entry file, overriding the config"
  | outDir => "Output directory, overriding the config"
  | watch => "Rebuild when a reachable file changes"
  | force => "Overwrite an existing config"
  | print => "Also print the rewritten module"
  | help => "Print help"
  | version => "Print version"

end Flag

namespace CommandName

def about : CommandName → String
  | version => "Print version information"
  | bundle => "Bundle the project's entry and everything it imports"
  | init => "Write a default config file"
  | check => "Compile files and report their imports or parse errors"

end CommandName

namespace Scope

def about : Scope → String
  | none => "Bundle JavaScript modules into one script"
  | some command => command.about

def aboutFlag (scope : Scope) (flag : Flag) : String :=
  if scope = some .init ∧ flag = .config then
    "Config file to write (default: jsbundle.config.json)"
  else
    flag.about

def usage : Scope → String
  | none => "[OPTIONS] [COMMAND]"
  | some .check => "check [OPTIONS] <FILES>..."
  | some command => command.text ++ " [OPTIONS]"

def listed : Scope → List Flag
  | none => [.verbose, .json, .cwd, .help, .version]
  | some .version => [.verbose, .json, .cwd, .help]
  | some .bundle => [.config, .verbose, .entry, .json, .cwd, .outDir, .watch, .help]
  | some .init => [.config, .verbose, .force, .json, .cwd, .help]
  | some .check => [.print, .verbose, .json, .cwd, .help]

end Scope

namespace Help

structure Row where
  name : String
  meaning : String
deriving DecidableEq, Repr

def width (rows : List Row) : Nat :=
  rows.foldl (fun most row => max most row.name.length) 0

def line (width : Nat) (row : Row) : String :=
  "  " ++ row.name ++ Text.blanks (width - row.name.length) ++ "  " ++ row.meaning

def group (heading : String) (rows : List Row) : List String :=
  if rows.isEmpty then [] else ["", heading ++ ":"] ++ rows.map (line (width rows))

def commands : Scope → List Row
  | none =>
      CommandName.all.map (fun command => ⟨command.text, command.about⟩) ++
        [⟨"help", "Print this message or the help of the given subcommand(s)"⟩]
  | some _ => []

def arguments : Scope → List Row
  | some .check => [⟨"<FILES>...", "Files to check, relative to the working directory"⟩]
  | _ => []

def options (scope : Scope) : List Row :=
  scope.listed.map (fun flag => ⟨flag.written, scope.aboutFlag flag⟩)

def text (scope : Scope) : List String :=
  [scope.about, "", "Usage: " ++ programName ++ " " ++ scope.usage] ++
    group "Commands" (commands scope) ++ group "Arguments" (arguments scope) ++
    group "Options" (options scope)

end Help
end ScriptBundler
