/-
Schemas, and the schema of a type.

A type without content has no schema; content of any shape has the empty schema, and so
have the elements of an array that says nothing about them.  An object lists its
members in order of declaration, and names those that may not be left out.  The
description of a parameter goes before the one on its type.
-/
import ApiNotes.Model.DataType

namespace ApiNotes.OpenApi

/-- A schema. -/
structure Schema where
  /-- The name of the type; absent when anything is allowed. -/
  type : Option String := none
  description : Option String := none
  /-- The schemas of an object's members, in order of declaration. -/
  properties : Option (List (String × Schema)) := none
  /-- The names of the members that may not be left out. -/
  required : Option (List String) := none
  /-- The schema of an array's elements. -/
  items : Option Schema := none
deriving Inhabited

namespace Schema

/-! ### Sameness -/

mutual

/-- Whether two schemas agree up to the order of properties. -/
def same : Schema → Schema → Bool
  | ⟨type, description, properties, required, items⟩, other =>
    type == other.type && description == other.description &&
      (match properties, other.properties with
        | none, none => true
        | some ps, some qs => ps.length == qs.length && sameProperties ps qs
        | _, _ => false) &&
      required == other.required &&
      (match items, other.items with
        | none, none => true
        | some s, some t => same s t
        | _, _ => false)

/-- Whether every property of one table stands in another as well. -/
def sameProperties : List (String × Schema) → List (String × Schema) → Bool
  | [], _ => true
  | (name, s) :: rest, others =>
    (match Dict.get? others name with
      | some t => same s t
      | none => false) && sameProperties rest others

end

instance : BEq Schema := ⟨same⟩

/-- The schema of a named type. -/
def named (type : String) : Schema := { type := some type }

/-- The schema with a description, unless that is empty. -/
def describe (s : Schema) (description : String) : Schema :=
  if description.isEmpty then s else { s with description := some description }

/-- The schema of a leaf that has content. -/
def ofLeaf? : Leaf → Option Schema
  | .nothing => none
  | .any => some {}
  | .bool => some (named "boolean")
  | .number => some (named "number")
  | .string => some (named "string")

mutual

/-- The schema of a type that has content. -/
def ofType? : DataType → Option Schema
  | .leaf kind description => (ofLeaf? kind).map (·.describe description)
  | .array none description => some ({ named "array" with items := some {} }.describe description)
  | .array (some items) description =>
    some ({ named "array" with items := some ((ofType? items).getD {}) }.describe description)
  | .object members description =>
    let required := (members.filter (!·.2.optional)).map Prod.fst
    let s := if members.isEmpty then named "object"
      else
        { named "object" with
          properties := some (ofMembers members)
          required := if required.isEmpty then none else some required }
    some (s.describe description)

/-- The schemas of members. -/
def ofMembers : List (String × Param) → List (String × Schema)
  | [] => []
  | (key, p) :: rest => (key, ofParam p) :: ofMembers rest

/-- The schema of a parameter. -/
def ofParam : Param → Schema
  | ⟨_, type, _, description⟩ => ((ofType? type).getD {}).describe description

end

end Schema

end ApiNotes.OpenApi
