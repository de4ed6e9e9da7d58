import ScriptBundler.Grammar.Parser

/-!
# Literals made of several tokens

Strings, templates and regular expressions are put together from the tokens
between their marks and keep the text they were written with.  A literal that
is not closed fails at the token that opens it.
-/

namespace ScriptBundler
namespace Grammar

open Grammar.Parser

/-- Read up to the quote that closes a string, in at most the given number of
steps. -/
def stringBody (quote : Token) : Nat → Parser Unit
  | 0 => exhausted
  | n + 1 => do
      let t ← rawPeek
      match t.kind with
      | .endOfInput | .newline => unexpectedAt quote
      | .punct .escape =>
          let _ ← rawAdvance
          if (← rawPeek).kind = .endOfInput then unexpectedAt quote
          let _ ← rawAdvance
          stringBody quote n
      | .stringQuote =>
          let _ ← rawAdvance
          if t.text = quote.text then return () else stringBody quote n
      | _ =>
          let _ ← rawAdvance
          stringBody quote n

def stringLiteral : Parser String := do
  let first ← nextIndex
  let quote ← advance
  bounded (stringBody quote)
  textFrom first

def expectString : Parser String := do
  if ← isAt .stringQuote then stringLiteral else unexpected

/-- Read up to the mark that closes a template.  A dollar sign belongs to the
identifier before it, so a substitution starts at an identifier that ends in
one, with a brace right after it; of an escaped identifier only the first
character is escaped. -/
def templateBody (substitution : Parser Unit) (mark : Token) : Nat → Parser Unit
  | 0 => exhausted
  | n + 1 => do
      let t ← rawPeek
      match t.kind with
      | .endOfInput => unexpectedAt mark
      | .punct .escape =>
          let _ ← rawAdvance
          let escaped ← rawAdvance
          if escaped.kind = .endOfInput then unexpectedAt mark
          if escaped.kind = .identifier ∧ 1 < escaped.text.length ∧ escaped.endsWith '$' then
            if (← rawPeek).kind = .punct .lBrace then
              let _ ← rawAdvance
              substitution
          templateBody substitution mark n
      | .templateQuote =>
          let _ ← rawAdvance
          return ()
      | .identifier =>
          let next ← rawPeekSecond
          let _ ← rawAdvance
          if t.endsWith '$' ∧ next.kind = .punct .lBrace then
            let _ ← rawAdvance
            substitution
          templateBody substitution mark n
      | _ =>
          let _ ← rawAdvance
          templateBody substitution mark n

def templateLiteral (substitution : Parser Unit) : Parser String := do
  let first ← nextIndex
  let mark ← advance
  bounded (templateBody substitution mark)
  textFrom first

/-- Read the body of a regular expression up to its closing slash.  Inside a
class in brackets a slash does not close it. -/
def regexBody (slash : Token) : (inClass : Bool) → Nat → Parser Unit
  | _, 0 => exhausted
  | inClass, n + 1 => do
      let t ← rawPeek
      match t.kind with
      | .endOfInput | .newline => unexpectedAt slash
      | .punct .escape =>
          let _ ← rawAdvance
          let escaped ← rawPeek
          if escaped.kind = .endOfInput ∨ escaped.kind = .newline then unexpectedAt slash
          let _ ← rawAdvance
          regexBody slash inClass n
      | .punct .lBracket =>
          let _ ← rawAdvance
          regexBody slash true n
      | .punct .rBracket =>
          let _ ← rawAdvance
          regexBody slash false n
      | .punct .slash =>
          if inClass then
            let _ ← rawAdvance
            regexBody slash inClass n
          else
            return ()
      | _ =>
          let _ ← rawAdvance
          regexBody slash inClass n

/-- Pattern and flags of a regular expression.  A pattern that starts with an
equals sign is opened by the token `/=`. -/
def regexLiteral : Parser (String × String) := do
  let slash ← advance
  let first ← rawIndex
  bounded (regexBody slash false)
  let body ← textFrom first
  let _ ← rawAdvance
  let pattern := if slash.kind = .punct .slashEq then "=" ++ body else body
  if (← rawPeek).kind = .identifier then
    return (pattern, (← rawAdvance).text)
  else
    return (pattern, "")

end Grammar
end ScriptBundler
