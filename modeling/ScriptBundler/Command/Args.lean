/-!
# Command lines

The words of a command line are options and names.  Options stand anywhere, and
those that hold for every command may stand in front of the command too.
-/

namespace ScriptBundler

inductive Flag where
  | verbose | json | cwd
  | config | entry | outDir | watch
  | force
  | print
  | help | version
deriving DecidableEq, Repr

namespace Flag

def all : List Flag :=
  [verbose, json, cwd, config, entry, outDir, watch, force, print, help, version]

def long : Flag → String
  | verbose => "verbose"
  | json => "json"
  | cwd => "cwd"
  | config => "config"
  | entry => "entry"
  | outDir => "out-dir"
  | watch => "watch"
  | force => "force"
  | print => "print"
  | help => "help"
  | version => "version"

def short? : Flag → Option Char
  | verbose => some 'v'
  | config => some 'c'
  | watch => some 'w'
  | force => some 'f'
  | help => some 'h'
  | version => some 'V'
  | _ => none

def takesValue : Flag → Bool
  | cwd | config | entry | outDir => true
  | _ => false

/-- Whether the value is a path, which cannot be empty. -/
def takesPath : Flag → Bool
  | cwd | config => true
  | _ => false

def isGlobal : Flag → Bool
  | verbose | json | cwd | help => true
  | _ => false

end Flag

inductive CommandName where
  | version | bundle | init | check
deriving DecidableEq, Repr

namespace CommandName

def all : List CommandName :=
  [version, bundle, init, check]

def text : CommandName → String
  | version => "version"
  | bundle => "bundle"
  | init => "init"
  | check => "check"

def ofText? (name : String) : Option CommandName :=
  all.find? (fun command => command.text == name)

def flags : CommandName → List Flag
  | version => []
  | bundle => [.config, .entry, .outDir, .watch]
  | init => [.config, .force]
  | check => [.print]

end CommandName

abbrev Scope := Option CommandName

namespace Scope

def allows (scope : Scope) (flag : Flag) : Bool :=
  flag.isGlobal ||
    (match scope with
      | none => decide (flag = .version)
      | some command => command.flags.contains flag)

def ofLong? (scope : Scope) (name : String) : Option Flag :=
  Flag.all.find? (fun flag => flag.long == name && scope.allows flag)

def ofShort? (scope : Scope) (c : Char) : Option Flag :=
  Flag.all.find? (fun flag => flag.short? == some c && scope.allows flag)

end Scope

inductive Refusal where
  | usage
  /-- A help text is asked for. -/
  | help (scope : Scope)
  /-- The version is asked for. -/
  | version
deriving DecidableEq, Repr

structure Scan where
  flags : List (Flag × String)
  names : List String
deriving DecidableEq, Repr

namespace Scan

def empty : Scan :=
  ⟨[], []⟩

def has (s : Scan) (flag : Flag) : Bool :=
  s.flags.any (fun given => decide (given.1 = flag))

def count (s : Scan) (flag : Flag) : Nat :=
  (s.flags.filter (fun given => decide (given.1 = flag))).length

def value? (s : Scan) (flag : Flag) : Option String :=
  s.flags.lookup flag

/-- Take up a flag.  Only `verbose` may be given twice. -/
def give (s : Scan) (scope : Scope) (flag : Flag) (value : String) : Except Refusal Scan :=
  if flag = .help then .error (.help scope)
  else if flag = .version then .error .version
  else if s.has flag && flag != .verbose then .error .usage
  else if flag.takesPath && value.isEmpty then .error .usage
  else .ok { s with flags := s.flags ++ [(flag, value)] }

end Scan

namespace Args

/-- Whether a word cannot be the value of the option before it. -/
def looksLikeFlag (word : String) : Bool :=
  match word.toList with
  | '-' :: _ :: _ => true
  | _ => false

/-- Flags written as letters after one dash, up to one that takes a value.
Gives that flag with the letters that are left. -/
def letters (scope : Scope) (s : Scan) :
    List Char → Except Refusal (Scan × Option (Flag × List Char))
  | [] => .ok (s, none)
  | c :: rest =>
      match scope.ofShort? c with
      | none => .error .usage
      | some flag =>
          if flag.takesValue then .ok (s, some (flag, rest))
          else
            match s.give scope flag "" with
            | .ok s => letters scope s rest
            | .error refusal => .error refusal

/-- A word that starts with a dash: what it gives, and the flag whose value is
still to come. -/
def flagWord (scope : Scope) (s : Scan) (word : String) : Except Refusal (Scan × Option Flag) :=
  match word.toList with
  | '-' :: '-' :: name =>
      let key := String.ofList (name.takeWhile (· != '='))
      let rest := name.dropWhile (· != '=')
      match scope.ofLong? key with
      | none => .error .usage
      | some flag =>
          match flag.takesValue, rest with
          | false, [] => (s.give scope flag "").map (fun s => (s, none))
          | false, _ => .error .usage
          | true, [] => .ok (s, some flag)
          | true, _ :: value => (s.give scope flag (String.ofList value)).map (fun s => (s, none))
  | '-' :: chars =>
      match letters scope s chars with
      | .error refusal => .error refusal
      | .ok (s, none) => .ok (s, none)
      | .ok (s, some (flag, [])) => .ok (s, some flag)
      | .ok (s, some (flag, '=' :: value)) =>
          (s.give scope flag (String.ofList value)).map (fun s => (s, none))
      | .ok (s, some (flag, value)) =>
          (s.give scope flag (String.ofList value)).map (fun s => (s, none))
  | _ => .error .usage

def takeNames (scope : Scope) (s : Scan) (names : List String) : Except Refusal Scan :=
  if names.isEmpty then .ok s
  else if scope = some .check then .ok { s with names := s.names ++ names }
  else .error .usage

def helpAsked : List String → Refusal
  | [] => .help none
  | [name] =>
      match CommandName.ofText? name with
      | some command => .help (some command)
      | none => .usage
  | _ => .usage

/-- Read the words of one part of a command line.  Before the command, the
reading stops at its name. -/
def scan (scope : Scope) (s : Scan) :
    List String → Except Refusal (Scan × Option (CommandName × List String))
  | [] => .ok (s, none)
  | word :: rest =>
      if word = "--" then (takeNames scope s rest).map (fun s => (s, none))
      else if looksLikeFlag word then
        match flagWord scope s word with
        | .error refusal => .error refusal
        | .ok (s, none) => scan scope s rest
        | .ok (s, some flag) =>
            match rest with
            | [] => .error .usage
            | value :: rest =>
                if looksLikeFlag value then .error .usage
                else
                  match s.give scope flag value with
                  | .ok s => scan scope s rest
                  | .error refusal => .error refusal
      else
        match scope with
        | none =>
            match CommandName.ofText? word with
            | some command => .ok (s, some (command, rest))
            | none => .error (if word = "help" then helpAsked rest else .usage)
        | some _ =>
            match takeNames scope s [word] with
            | .ok s => scan scope s rest
            | .error refusal => .error refusal

end Args

inductive Command where
  | version
  | bundle (config entry outDir : Option String) (watch : Bool)
  | init (config : Option String) (force : Bool)
  | check (files : List String) (print : Bool)
deriving DecidableEq, Repr

structure Settings where
  cwd : Option String
  json : Bool
  verbosity : Nat
deriving DecidableEq, Repr

structure Invocation where
  settings : Settings
  command : Command
deriving DecidableEq, Repr

namespace Invocation

def command? (name : CommandName) (s : Scan) : Option Command :=
  match name with
  | .version => some .version
  | .bundle =>
      some (.bundle (s.value? .config) (s.value? .entry) (s.value? .outDir) (s.has .watch))
  | .init => some (.init (s.value? .config) (s.has .force))
  | .check => if s.names.isEmpty then none else some (.check s.names (s.has .print))

/-- How often a flag was given; what stands after the command counts. -/
def verbosity (before after : Scan) : Nat :=
  min 255 (if after.has .verbose then after.count .verbose else before.count .verbose)

/-- Settings from both sides of the command; those after it win. -/
def mergeSettings (before after : Scan) : Settings :=
  ⟨(after.value? .cwd).or (before.value? .cwd), before.has .json || after.has .json,
    verbosity before after⟩

/-- Read a command line.  Without a command it asks for the version. -/
def parse (args : List String) : Except Refusal Invocation :=
  match Args.scan none .empty args with
  | .error refusal => .error refusal
  | .ok (before, none) => .ok ⟨mergeSettings before .empty, .version⟩
  | .ok (before, some (name, rest)) =>
      match Args.scan (some name) .empty rest with
      | .error refusal => .error refusal
      | .ok (after, _) =>
          match command? name after with
          | some command => .ok ⟨mergeSettings before after, command⟩
          | none => .error .usage

end Invocation
end ScriptBundler
