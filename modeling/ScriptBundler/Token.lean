import ScriptBundler.Span

/-!
# Tokens

The kinds of token a script is cut into, and the classes of kinds the grammar
asks for.  White space is a token like any other: the bodies of strings,
templates and regular expressions are put together again from the tokens they
were cut into.
-/

namespace ScriptBundler

inductive Keyword where
  | kwVar | kwLet | kwConst | kwFunction | kwClass | kwExtends | kwStatic
  | kwIf | kwElse | kwSwitch | kwCase | kwDefault | kwFor | kwWhile | kwDo
  | kwBreak | kwContinue | kwReturn | kwWith | kwDebugger
  | kwTry | kwCatch | kwFinally | kwThrow
  | kwNew | kwDelete | kwTypeof | kwVoid | kwIn | kwInstanceof
  | kwThis | kwSuper | kwNull | kwTrue | kwFalse
  | kwImport | kwExport | kwAsync | kwAwait | kwYield | kwEnum
deriving DecidableEq, Repr

namespace Keyword

def text : Keyword → String
  | kwVar => "var" | kwLet => "let" | kwConst => "const"
  | kwFunction => "function" | kwClass => "class" | kwExtends => "extends"
  | kwStatic => "static" | kwIf => "if" | kwElse => "else"
  | kwSwitch => "switch" | kwCase => "case" | kwDefault => "default"
  | kwFor => "for" | kwWhile => "while" | kwDo => "do"
  | kwBreak => "break" | kwContinue => "continue" | kwReturn => "return"
  | kwWith => "with" | kwDebugger => "debugger" | kwTry => "try"
  | kwCatch => "catch" | kwFinally => "finally" | kwThrow => "throw"
  | kwNew => "new" | kwDelete => "delete" | kwTypeof => "typeof"
  | kwVoid => "void" | kwIn => "in" | kwInstanceof => "instanceof"
  | kwThis => "this" | kwSuper => "super" | kwNull => "null"
  | kwTrue => "true" | kwFalse => "false" | kwImport => "import"
  | kwExport => "export" | kwAsync => "async" | kwAwait => "await"
  | kwYield => "yield" | kwEnum => "enum"

def all : List Keyword :=
  [kwVar, kwLet, kwConst, kwFunction, kwClass, kwExtends, kwStatic,
   kwIf, kwElse, kwSwitch, kwCase, kwDefault, kwFor, kwWhile, kwDo,
   kwBreak, kwContinue, kwReturn, kwWith, kwDebugger,
   kwTry, kwCatch, kwFinally, kwThrow,
   kwNew, kwDelete, kwTypeof, kwVoid, kwIn, kwInstanceof,
   kwThis, kwSuper, kwNull, kwTrue, kwFalse,
   kwImport, kwExport, kwAsync, kwAwait, kwYield, kwEnum]

/-- The keyword spelled by a word.  `of`, `get`, `set`, `as` and `from` are
plain identifiers; the grammar knows them by their text. -/
def ofText? (word : String) : Option Keyword :=
  all.find? (fun k => k.text == word)

end Keyword

inductive Punctuator where
  | gtGtGtEq | eqEqEq | bangEqEq | starStarEq | ltLtEq | gtGtEq | gtGtGt | spread
  | arrow | eqEq | bangEq | ltEq | gtEq | ampAmp | pipePipe | plusPlus | minusMinus
  | plusEq | minusEq | starEq | slashEq | percentEq | ampEq | pipeEq | caretEq
  | ltLt | gtGt | starStar
  | lBrace | rBrace | lParen | rParen | lBracket | rBracket
  | semicolon | comma | dot | question | colon | lt | gt | plus | minus | star | slash
  | percent | amp | pipe | caret | bang | tilde | eq | escape
deriving DecidableEq, Repr

namespace Punctuator

def chars : Punctuator → List Char
  | gtGtGtEq => ['>', '>', '>', '=']
  | eqEqEq => ['=', '=', '=']
  | bangEqEq => ['!', '=', '=']
  | starStarEq => ['*', '*', '=']
  | ltLtEq => ['<', '<', '=']
  | gtGtEq => ['>', '>', '=']
  | gtGtGt => ['>', '>', '>']
  | spread => ['.', '.', '.']
  | arrow => ['=', '>']
  | eqEq => ['=', '=']
  | bangEq => ['!', '=']
  | ltEq => ['<', '=']
  | gtEq => ['>', '=']
  | ampAmp => ['&', '&']
  | pipePipe => ['|', '|']
  | plusPlus => ['+', '+']
  | minusMinus => ['-', '-']
  | plusEq => ['+', '=']
  | minusEq => ['-', '=']
  | starEq => ['*', '=']
  | slashEq => ['/', '=']
  | percentEq => ['%', '=']
  | ampEq => ['&', '=']
  | pipeEq => ['|', '=']
  | caretEq => ['^', '=']
  | ltLt => ['<', '<']
  | gtGt => ['>', '>']
  | starStar => ['*', '*']
  | lBrace => ['\x7b']
  | rBrace => ['\x7d']
  | lParen => ['(']
  | rParen => [')']
  | lBracket => ['[']
  | rBracket => [']']
  | semicolon => [';']
  | comma => [',']
  | dot => ['.']
  | question => ['?']
  | colon => [':']
  | lt => ['<']
  | gt => ['>']
  | plus => ['+']
  | minus => ['-']
  | star => ['*']
  | slash => ['/']
  | percent => ['%']
  | amp => ['&']
  | pipe => ['|']
  | caret => ['^']
  | bang => ['!']
  | tilde => ['~']
  | eq => ['=']
  | escape => ['\\']

/-- Every punctuator, longer spellings before shorter ones. -/
def all : List Punctuator :=
  [gtGtGtEq,
   eqEqEq, bangEqEq, starStarEq, ltLtEq, gtGtEq, gtGtGt, spread,
   arrow, eqEq, bangEq, ltEq, gtEq, ampAmp, pipePipe, plusPlus, minusMinus,
   plusEq, minusEq, starEq, slashEq, percentEq, ampEq, pipeEq, caretEq,
   ltLt, gtGt, starStar,
   lBrace, rBrace, lParen, rParen, lBracket, rBracket,
   semicolon, comma, dot, question, colon, lt, gt, plus, minus, star, slash,
   percent, amp, pipe, caret, bang, tilde, eq, escape]

def longest? (cs : List Char) : Option Punctuator :=
  all.find? (fun p => p.chars.isPrefixOf cs)

def isAssignment : Punctuator → Bool
  | eq | plusEq | minusEq | starEq | slashEq | percentEq | starStarEq
  | ampEq | pipeEq | caretEq | ltLtEq | gtGtEq | gtGtGtEq => true
  | _ => false

end Punctuator

namespace Token

inductive Kind where
  | identifier
  | number
  | stringQuote
  | templateQuote
  | space
  | newline
  /-- A character that starts nothing else. -/
  | any
  | endOfInput
  | keyword (word : Keyword)
  | punct (mark : Punctuator)
deriving DecidableEq, Repr

end Token

structure Precedence where
  level : Nat
  rightAssoc : Bool
deriving DecidableEq, Repr

namespace Token.Kind

def isKeyword : Kind → Bool
  | keyword _ => true
  | _ => false

def isName : Kind → Bool
  | identifier | keyword _ => true
  | _ => false

def isSpace : Kind → Bool
  | space | newline => true
  | _ => false

def isAssignment : Kind → Bool
  | punct mark => mark.isAssignment
  | _ => false

def precedence? : Kind → Option Precedence
  | punct mark =>
      if mark.isAssignment then some ⟨3, true⟩
      else
        match mark with
        | .pipePipe => some ⟨5, false⟩
        | .ampAmp => some ⟨6, false⟩
        | .pipe => some ⟨7, false⟩
        | .caret => some ⟨8, false⟩
        | .amp => some ⟨9, false⟩
        | .eqEq | .eqEqEq | .bangEq | .bangEqEq => some ⟨10, false⟩
        | .lt | .ltEq | .gt | .gtEq => some ⟨11, false⟩
        | .ltLt | .gtGt | .gtGtGt => some ⟨12, false⟩
        | .plus | .minus => some ⟨13, false⟩
        | .star | .slash | .percent => some ⟨14, false⟩
        | .starStar => some ⟨15, true⟩
        | _ => none
  | keyword .kwIn | keyword .kwInstanceof => some ⟨11, false⟩
  | _ => none

def binaryLevel? (k : Kind) : Option Nat :=
  if k.isAssignment then none else k.precedence?.map (·.level)

end Token.Kind

/-- A token with its place: byte offsets, and line and column counted from
one, columns in characters. -/
structure Token where
  kind : Token.Kind
  text : String
  span : Span
  line : Nat
  column : Nat
deriving DecidableEq, Repr

namespace Token

def endOfNothing : Token :=
  ⟨.endOfInput, "", ⟨0, 0⟩, 1, 1⟩

instance : Inhabited Token :=
  ⟨endOfNothing⟩

end Token
end ScriptBundler
