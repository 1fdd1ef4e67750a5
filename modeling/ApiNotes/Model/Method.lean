/-
The HTTP methods that an endpoint can answer.
-/
import ApiNotes.Text.Case

namespace ApiNotes

/-- An HTTP method. -/
inductive Method
  | get
  | post
  | put
  | delete
  | patch
  | options
  | head
deriving DecidableEq, Repr, Inhabited

namespace Method

/-- The method's name, in capitals. -/
def name : Method → String
  | .get => "GET"
  | .post => "POST"
  | .put => "PUT"
  | .delete => "DELETE"
  | .patch => "PATCH"
  | .options => "OPTIONS"
  | .head => "HEAD"

/-- The name under which a document lists the method's operation, in small letters. -/
def field (m : Method) : String := Text.lower m.name

/-- The methods, in the order in which a document lists their operations. -/
def all : List Method := [.get, .post, .put, .delete, .patch, .options, .head]

/-- The method of a name, whatever its case. -/
def ofName? (text : String) : Option Method := all.find? fun m => Text.upper text == m.name

/-- Every method is listed. -/
theorem mem_all (m : Method) : m ∈ all := by cases m <;> decide

end Method

end ApiNotes
