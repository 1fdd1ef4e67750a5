/-
Path templates.

Sources write a path parameter as `:id`, documents write it in braces.  Two
endpoints of one method clash when their paths agree in that form, so the check
for duplicates and the document share this one function.
-/
namespace ApiNotes.Route

/-- A segment with a leading colon turned into braces. -/
def segmentTemplate : List Char → List Char
  | ':' :: name => '{' :: name ++ ['}']
  | segment => segment

/-- The template of a path: segment by segment. -/
def template (path : String) : String :=
  String.ofList (['/'].intercalate ((path.toList.splitOn '/').map segmentTemplate))

example : template "/users/:id/:" = "/users/\x7bid\x7d/\x7b\x7d" := by decide +kernel

end ApiNotes.Route
