import ScriptBundler.Text.Lines
import ScriptBundler.Text.Decimal
import ScriptBundler.Token.Lexer
import ScriptBundler.Grammar.Statement

/-!
# Programs

The grammar is the productions put in for their own rules as often as there
may be nested calls.  A program that does not fit it is reported at the
unexpected token that is furthest in the source.
-/

namespace ScriptBundler

inductive ParseError where
  | unexpected (token : Token)
  /-- The bound on nested calls was reached.  The bound that `Program.parse`
  takes from the number of tokens leaves room for every nesting of them. -/
  | exhausted

namespace ParseError

def message : ParseError → String
  | .unexpected t =>
      "Unexpected token '" ++ t.text ++ "' at " ++ Text.decimal t.line ++ ":" ++
        Text.decimal t.column
  | .exhausted => "Too many nested expressions"

def position : ParseError → Nat × Nat
  | .unexpected t => (t.line, t.column)
  | .exhausted => (1, 1)

/-- The text of an error, the source line it points at and a caret below the
place in that line. -/
def render (e : ParseError) (source : String) : String :=
  let (line, column) := e.position
  e.message ++ "\n" ++
    Text.alignRight 4 (Text.decimal line) ++ " " ++ Text.lineText source line ++ "\n" ++
    Text.blanks (5 + (column - 1)) ++ "^"

end ParseError

namespace Grammar

open Grammar.Parser

def produce (r : Rules) : Rules
  | .assignment, cx => Grammar.assignment r cx
  | .unary, cx => Grammar.unary r cx
  | .operand, cx => Grammar.operand r cx
  | .construct, cx => Grammar.construct r cx
  | .pattern, cx => Grammar.pattern r cx
  | .statement, cx => Grammar.statement r cx

/-- The rules for at most `depth` nested calls. -/
def rules : (depth : Nat) → Rules
  | 0, _, _ => exhausted
  | depth + 1, goal, cx => produce (rules depth) goal cx

def program (r : Rules) : Parser Program := do
  let body ← statementsUntil [] (r.statement .top)
  let _ ← expect .endOfInput
  return body

def parseWithin (depth : Nat) (ts : Stream) : Except ParseError Program :=
  match program (rules depth) ts .start with
  | .ok body _ => .ok body
  | .error .exhausted _ => .error .exhausted
  | .error (.unexpected t) s => .error (.unexpected (((s.record t).furthest).getD t))

end Grammar

namespace Program

def parse (tokens : Array Token) : Except ParseError Program :=
  Grammar.parseWithin (tokens.size + 1) ⟨tokens, true⟩

def ofSource (source : String) : Except ParseError Program :=
  parse (Token.lex source)

end Program
end ScriptBundler
