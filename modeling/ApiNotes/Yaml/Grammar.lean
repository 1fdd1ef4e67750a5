/-
Tokens as the parts of a document.

A text holds one document at most.  Where a part is missing behind its mark an empty one
stands.  In block layout the dashes of a list that belongs to a key may stand below that key
without an indentation of their own; such a list ends at the first token that is no dash.
Between brackets a key with its value may stand as an element of a list, and is a table of its
own.
-/
import ApiNotes.Yaml.Part
import ApiNotes.Yaml.Token

namespace ApiNotes.Yaml

/-! ### Handles of tags -/

/-- What the handles of tags mean. -/
abbrev Handles := Dict String

/-- The handles that need no directive. -/
def Handles.standard : Handles := [("!", "!"), ("!!", Node.coreTag "")]

/-- The whole tag that a handle and the text behind it stand for. -/
def Handles.tag? (handles : Handles) (handle suffix : String) : Option String :=
  if handle.isEmpty then some suffix else (Dict.get? handles handle).map (· ++ suffix)

/-- The handles that directives define, and the tokens behind the directives.  Neither the version
nor a handle can be given twice, and the version has to be one that is known. -/
def Handles.ofDirectives? (versioned : Bool) (handles : Handles) :
    List Token → Option (Handles × List Token)
  | .version major minor :: rest =>
    if versioned || major != 1 || (minor != 1 && minor != 2) then none
    else ofDirectives? true handles rest
  | .handle name meaning :: rest =>
    if (Dict.get? handles name).isSome then none
    else ofDirectives? versioned (Dict.insert handles name meaning) rest
  | tokens => some (handles, tokens)

/-! ### What stands in front of a part -/

/-- The anchor and the tag of a part. -/
structure Properties where
  anchor : Option String := none
  tag : Option String := none

namespace Properties

/-- A part with its properties. -/
def attach (properties : Properties) (part : Part String) : Part String :=
  let part := match properties.tag with
    | some tag => .tagged tag part
    | none => part
  match properties.anchor with
  | some name => .anchored name part
  | none => part

/-- A scalar with its properties; a bare exclamation mark says nothing about it. -/
def attachScalar (properties : Properties) (part : Part String) : Part String :=
  if properties.tag == some "!" then { properties with tag := none }.attach part
  else properties.attach part

/-- The properties at the start of some tokens, in either order. -/
def ofTokens? (handles : Handles) : List Token → Option (Properties × List Token)
  | .anchor name :: .tag handle suffix :: rest | .tag handle suffix :: .anchor name :: rest =>
    (handles.tag? handle suffix).map fun tag => (⟨some name, some tag⟩, rest)
  | .anchor name :: rest => some (⟨some name, none⟩, rest)
  | .tag handle suffix :: rest =>
    (handles.tag? handle suffix).map fun tag => (⟨none, some tag⟩, rest)
  | tokens => some ({}, tokens)

end Properties

/-! ### Parts -/

/-- Where a part stands. -/
inductive Context
  /-- Between brackets. -/
  | flow
  /-- In block layout. -/
  | block
  /-- In block layout, as a key or as the value of one. -/
  | entry
deriving DecidableEq, Repr

/-- Whether one of some tokens comes next. -/
def isNext (candidates tokens : List Token) : Bool := tokens.head?.any candidates.contains

namespace Part

mutual

/-- The part at the start of some tokens, and the tokens behind it. -/
def ofTokens? (handles : Handles) :
    Nat → Context → List Token → Option (Part String × List Token)
  | 0, _, _ => none
  | _ + 1, _, .alias name :: rest => some (.alias name, rest)
  | fuel + 1, context, tokens => do
    let (properties, tokens) ← Properties.ofTokens? handles tokens
    match tokens, context with
    | .scalar form text :: rest, _ => some (properties.attachScalar (.scalar form text), rest)
    | .flowListStart :: rest, _ =>
      let (items, rest) ← flowItems? handles fuel true rest
      some (properties.attach (.list items), rest)
    | .flowTableStart :: rest, _ =>
      let (entries, rest) ← flowEntries? handles fuel true rest
      some (properties.attach (.table entries), rest)
    | .blockListStart :: rest, .block | .blockListStart :: rest, .entry =>
      let (items, rest) ← blockItems? handles fuel rest
      some (properties.attach (.list items), rest)
    | .blockTableStart :: rest, .block | .blockTableStart :: rest, .entry =>
      let (entries, rest) ← blockEntries? handles fuel rest
      some (properties.attach (.table entries), rest)
    | .dash :: rest, .entry =>
      let (items, rest) ← flushItems? handles fuel (.dash :: rest)
      some (properties.attach (.list items), rest)
    | tokens, _ =>
      if properties.anchor.isSome || properties.tag.isSome then
        some (properties.attach .empty, tokens)
      else none

/-- The part at the start of some tokens, or an empty one if one of `ends` comes next. -/
def orEmpty? (handles : Handles) :
    Nat → Context → List Token → List Token → Option (Part String × List Token)
  | 0, _, _, _ => none
  | fuel + 1, context, ends, tokens =>
    if isNext ends tokens then some (.empty, tokens) else ofTokens? handles fuel context tokens

/-- The value of a key, which is empty if there is none. -/
def value? (handles : Handles) :
    Nat → Context → List Token → List Token → Option (Part String × List Token)
  | 0, _, _, _ => none
  | fuel + 1, context, ends, tokens =>
    match tokens with
    | .value :: rest => orEmpty? handles fuel context ends rest
    | tokens => some (.empty, tokens)

/-- The elements of a list in block layout. -/
def blockItems? (handles : Handles) :
    Nat → List Token → Option (List (Part String) × List Token)
  | 0, _ => none
  | _ + 1, .blockEnd :: rest => some ([], rest)
  | fuel + 1, .dash :: rest => do
    let (item, rest) ← orEmpty? handles fuel .block [.dash, .blockEnd] rest
    let (items, rest) ← blockItems? handles fuel rest
    some (item :: items, rest)
  | _ + 1, _ => none

/-- The elements of a list that stands flush with its key. -/
def flushItems? (handles : Handles) :
    Nat → List Token → Option (List (Part String) × List Token)
  | 0, _ => none
  | fuel + 1, .dash :: rest => do
    let (item, rest) ← orEmpty? handles fuel .block [.dash, .key, .value, .blockEnd] rest
    let (items, rest) ← flushItems? handles fuel rest
    some (item :: items, rest)
  | _ + 1, tokens => some ([], tokens)

/-- The entries of a table in block layout. -/
def blockEntries? (handles : Handles) :
    Nat → List Token → Option (List (Part String × Part String) × List Token)
  | 0, _ => none
  | _ + 1, .blockEnd :: rest => some ([], rest)
  | fuel + 1, .key :: rest => do
    let ends := [.key, .value, .blockEnd]
    let (key, rest) ← orEmpty? handles fuel .entry ends rest
    let (value, rest) ← value? handles fuel .entry ends rest
    let (entries, rest) ← blockEntries? handles fuel rest
    some ((key, value) :: entries, rest)
  | _ + 1, _ => none

/-- The elements of a list between brackets; a comma stands in front of all but the first.  A key
that is missing in front of its colon swallows the colon. -/
def flowItems? (handles : Handles) :
    Nat → Bool → List Token → Option (List (Part String) × List Token)
  | 0, _, _ => none
  | _ + 1, _, .flowListEnd :: rest => some ([], rest)
  | fuel + 1, first, tokens => do
    let tokens ← match first, tokens with
      | true, tokens => some tokens
      | false, .comma :: rest => some rest
      | false, _ => none
    match tokens with
    | .flowListEnd :: rest => some ([], rest)
    | .key :: rest =>
      let (key, rest) ←
        if isNext [.value, .comma, .flowListEnd] rest then some (.empty, rest.drop 1)
        else ofTokens? handles fuel .flow rest
      let (value, rest) ← value? handles fuel .flow [.comma, .flowListEnd] rest
      let (items, rest) ← flowItems? handles fuel false rest
      some (.table [(key, value)] :: items, rest)
    | tokens =>
      let (item, rest) ← ofTokens? handles fuel .flow tokens
      let (items, rest) ← flowItems? handles fuel false rest
      some (item :: items, rest)

/-- The entries of a table between brackets; a comma stands in front of all but the first. -/
def flowEntries? (handles : Handles) :
    Nat → Bool → List Token → Option (List (Part String × Part String) × List Token)
  | 0, _, _ => none
  | _ + 1, _, .flowTableEnd :: rest => some ([], rest)
  | fuel + 1, first, tokens => do
    let tokens ← match first, tokens with
      | true, tokens => some tokens
      | false, .comma :: rest => some rest
      | false, _ => none
    match tokens with
    | .flowTableEnd :: rest => some ([], rest)
    | .key :: rest =>
      let (key, rest) ← orEmpty? handles fuel .flow [.value, .comma, .flowTableEnd] rest
      let (value, rest) ← value? handles fuel .flow [.comma, .flowTableEnd] rest
      let (entries, rest) ← flowEntries? handles fuel false rest
      some ((key, value) :: entries, rest)
    | tokens =>
      let (key, rest) ← ofTokens? handles fuel .flow tokens
      let (entries, rest) ← flowEntries? handles fuel false rest
      some ((key, .empty) :: entries, rest)

end

/-! ### Documents -/

/-- The whole document of a text. -/
def ofDocument? (tokens : List Token) : Option (Part String) := do
  let fuel := 4 * tokens.length + 4
  let (part, rest) ← match tokens with
    | [] => some (.empty, [])
    | .version _ _ :: _ | .handle _ _ :: _ | .documentStart :: _ => do
      let (handles, rest) ← Handles.ofDirectives? false [] tokens
      match rest with
      | .documentStart :: rest =>
        let standard := Handles.standard.filter fun e => (Dict.get? handles e.1).isNone
        match rest with
        | [] | .version _ _ :: _ | .handle _ _ :: _ | .documentStart :: _ | .documentEnd :: _ =>
          some (.empty, rest)
        | rest => ofTokens? (handles ++ standard) fuel .block rest
      | _ => none
    | tokens => ofTokens? Handles.standard fuel .block tokens
  if rest.all (· == .documentEnd) then some part else none

end Part

end ApiNotes.Yaml
