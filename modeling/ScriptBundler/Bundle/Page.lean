/-!
# The page

A page loads the bundle.  It is made from a template by putting a script
element in front of the end of its body.
-/

namespace ScriptBundler
namespace Page

/-- How the end of the body is recognised: a closing tag at the start of a
line. -/
def marker : List Char :=
  "\n</body".toList

def splitAtMarker : List Char → Option (List Char × List Char)
  | [] => none
  | c :: rest =>
      if marker.isPrefixOf (c :: rest) then some ([], c :: rest)
      else (splitAtMarker rest).map (fun (before, after) => (c :: before, after))

def scriptElement (name : String) : String :=
  "\n  <script src=\"" ++ name ++ "\"></script>\n"

/-- A template with a script; `none` if its body does not end. -/
def inject (template name : String) : Option String :=
  (splitAtMarker template.toList).map fun (before, after) =>
    String.ofList before ++ scriptElement name ++ String.ofList (after.drop 1)

end Page
end ScriptBundler
