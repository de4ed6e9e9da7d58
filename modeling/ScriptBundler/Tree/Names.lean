import ScriptBundler.Tree

/-!
# Names and literals of a tree

The names a pattern binds, in the order they are written, and the text inside
a quoted literal.
-/

namespace ScriptBundler

mutual

def Binding.names : Binding → List String
  | .ident _ name => [name]
  | .array _ elements => ArrayElement.listNames elements
  | .object _ properties => ObjectElement.listNames properties

def ArrayElement.listNames : List ArrayElement → List String
  | [] => []
  | .hole :: rest => ArrayElement.listNames rest
  | .item binding _ :: rest => binding.names ++ ArrayElement.listNames rest
  | .rest binding :: rest => binding.names ++ ArrayElement.listNames rest

def ObjectElement.listNames : List ObjectElement → List String
  | [] => []
  | .shorthand _ name _ :: rest => name :: ObjectElement.listNames rest
  | .pair _ value _ :: rest => value.names ++ ObjectElement.listNames rest
  | .rest _ name :: rest => name :: ObjectElement.listNames rest

end

def Declarator.listNames (decls : List Declarator) : List String :=
  decls.flatMap (fun decl => decl.binding.names)

def Declaration.names : Declaration → List String
  | .vars _ _ decls => Declarator.listNames decls
  | .function _ value => value.name.toList
  | .class _ name _ _ => name.toList

/-- The text between the quotes of a literal; a text of one character or less
stands for itself. -/
def unquote (raw : String) : String :=
  if raw.length < 2 then raw
  else String.ofList (raw.toList.drop 1).dropLast

end ScriptBundler
