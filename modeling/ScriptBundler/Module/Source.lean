import ScriptBundler.Text.Utf8
import ScriptBundler.Grammar.Program
import ScriptBundler.Printer.Tree
import ScriptBundler.Module.Factory

/-!
# Loading a script

A source file is read, parsed, made into a factory and printed.
-/

namespace ScriptBundler

structure LoadedModule where
  code : String
  /-- Paths of the modules it names, in order and with repetitions. -/
  imports : List String
deriving DecidableEq, Repr

structure LoadError where
  path : String
  source : String
  cause : ParseError

namespace LoadError

def message (e : LoadError) : String :=
  "Error loading file " ++ e.path ++ ":\n" ++ e.cause.render e.source

end LoadError

namespace LoadedModule

def ofText (path text : String) : Except LoadError LoadedModule :=
  match Program.ofSource text with
  | .ok p => .ok ⟨(p.toFactory path).print, p.imports path⟩
  | .error cause => .error ⟨path, text, cause⟩

/-- Load a script from the bytes of its file.  Invalid bytes count as unknown
characters. -/
def ofBytes (path : String) (bytes : List UInt8) : Except LoadError LoadedModule :=
  ofText path (Utf8.decodeLossy bytes)

end LoadedModule
end ScriptBundler
