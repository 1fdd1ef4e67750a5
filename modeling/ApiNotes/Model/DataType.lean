/-
The types that annotations give to parameters and bodies.

A type is a leaf, an array over another type, or an object whose members come from
later annotations.  A bare `array` says nothing about its elements.  Members can be
attached to an object directly or through any number of arrays around it, which is
what the dotted parameter names of the annotation language rely on.
-/
import ApiNotes.Dict
import ApiNotes.Fault
import ApiNotes.Text.Case

namespace ApiNotes

/-- The types without parts. -/
inductive Leaf
  /-- No content at all. -/
  | nothing
  | bool
  | number
  | string
  /-- Content of any shape. -/
  | any
deriving DecidableEq, Repr, Inhabited

mutual

/-- A type, with the free text that its declaration attached to it. -/
inductive DataType
  | leaf (kind : Leaf) (description : String)
  /-- An array; without an element type its elements are untyped. -/
  | array (items : Option DataType) (description : String)
  /-- An object with its members in order of declaration. -/
  | object (members : List (String × Param)) (description : String)

/-- A named, typed value: a parameter or a member of an object. -/
structure Param where
  name : String
  type : DataType
  optional : Bool
  description : String

end

instance : Inhabited DataType := ⟨.leaf .any ""⟩

instance : Inhabited Param := ⟨⟨"", default, false, ""⟩⟩

namespace DataType

/-- The text attached to a type. -/
def description : DataType → String
  | .leaf _ text | .array _ text | .object _ text => text

/-- The type with another text attached. -/
def withDescription (text : String) : DataType → DataType
  | .leaf kind _ => .leaf kind text
  | .array items _ => .array items text
  | .object members _ => .object members text

/-- The number of segments in the type's token. -/
def depth : DataType → Nat
  | .array (some items) _ => 1 + depth items
  | _ => 1

/-- The members of this object, or of the object under its arrays. -/
def members? : DataType → Option (Dict Param)
  | .leaf _ _ => none
  | .array none _ => none
  | .array (some items) _ => members? items
  | .object members _ => some members

/-- Whether members can be attached to the type. -/
def isObjectLike (t : DataType) : Bool := t.members?.isSome

/-- Changes the members of this object, or of the object under its arrays. -/
def mapMembers? (f : Dict Param → Option (Dict Param)) : DataType → Option DataType
  | .leaf _ _ => none
  | .array none _ => none
  | .array (some items) text => (mapMembers? f items).map fun items => .array (some items) text
  | .object members text => (f members).map fun members => .object members text

/-- The members found after walking down through the named members. -/
def membersAt? : List String → DataType → Option (Dict Param)
  | [], t => t.members?
  | parent :: parents, t => do
    let holder ← Dict.get? (← t.members?) parent
    membersAt? parents holder.type

/-- Writes a member, under its key, into the object reached through the named members. -/
def attach? (key : String) (param : Param) : List String → DataType → Option DataType
  | [], t => t.mapMembers? fun members => some (Dict.insert members key param)
  | parent :: parents, t => t.mapMembers? fun members => do
    let holder ← Dict.get? members parent
    let type ← attach? key param parents holder.type
    some (Dict.insert members parent { holder with type })

/-! ### Sameness

Two types are the same when they agree up to the order of their members.
-/

mutual

/-- Whether two types agree up to the order of members. -/
def same : DataType → DataType → Bool
  | .leaf k t, .leaf k' t' => k == k' && t == t'
  | .array none t, .array none t' => t == t'
  | .array (some i) t, .array (some i') t' => same i i' && t == t'
  | .object ms t, .object ms' t' => ms.length == ms'.length && sameMembers ms ms' && t == t'
  | _, _ => false

/-- Whether every member of one table stands in another as well. -/
def sameMembers : List (String × Param) → List (String × Param) → Bool
  | [], _ => true
  | (key, p) :: rest, others =>
    (match Dict.get? others key with
      | some q => sameParam p q
      | none => false) && sameMembers rest others

/-- Whether two parameters agree up to the order of members. -/
def sameParam : Param → Param → Bool
  | ⟨n, t, o, d⟩, q => n == q.name && same t q.type && o == q.optional && d == q.description

end

instance : BEq DataType := ⟨same⟩

/-! ### Type tokens -/

/-- The keywords of the leaves, in small letters. -/
def leafOfKeyword? : String → Option Leaf
  | "bool" => some .bool
  | "number" | "int" | "float" => some .number
  | "string" => some .string
  | "none" | "void" => some .nothing
  | "*" => some .any
  | _ => none

/-- The type named by a single keyword, whatever its case. -/
def ofKeyword? (segment : List Char) : Option DataType :=
  match Text.lower (String.ofList segment) with
  | "array" => some (.array none "")
  | "object" => some (.object [] "")
  | keyword => (leafOfKeyword? keyword).map (.leaf · "")

/-- The type of the segments of a token: arrays around the type that the last segment names. -/
def ofSegments? : List (List Char) → Option DataType
  | [] => none
  | [segment] => ofKeyword? segment
  | segment :: rest =>
    if Text.eqIgnoreCase (String.ofList segment) "array" then
      (ofSegments? rest).map fun items => .array (some items) ""
    else none

/-- Reads a dotted token such as `array.object`. -/
def parse (token : String) : Checked DataType :=
  match ofSegments? (token.toList.splitOn '.') with
  | some t => .ok t
  | none => .error (Fault.of .invalidType "type")

end DataType

instance : BEq Param := ⟨DataType.sameParam⟩

end ApiNotes
