/-
Comment regions of a source file.

Annotations live in comments.  A region is the text of one comment, or of one run of
line comments, with the comment markers taken off and the place of its first character
remembered.  Nothing is parsed of the host language: a comment counts only where it
starts its line, so that markers inside string literals do no harm.  Regions that
cannot hold an annotation are left out.
-/
import ApiNotes.Position
import ApiNotes.Text.Blank
import ApiNotes.Text.Line
import ApiNotes.Text.Search

namespace ApiNotes.Annotation

/-- The comment syntax of a language. -/
inductive CommentStyle
  /-- Comments `// line` and `/* block */`. -/
  | slash
  /-- Comments `# line`. -/
  | hash
deriving DecidableEq, Repr, Inhabited

/-- The text of a comment, and the place of its first character. -/
structure Region where
  position : Position
  text : String
deriving DecidableEq, Repr, Inhabited

/-- A region whose end has not been seen, with its lines in reverse. -/
structure OpenRegion where
  position : Position
  lines : List (List Char)

namespace OpenRegion

/-- The region with one line more. -/
def push (r : OpenRegion) (line : List Char) : OpenRegion := { r with lines := line :: r.lines }

/-- Ends the region; it counts only when it can hold an annotation. -/
def close (r : OpenRegion) : List Region :=
  let text := Text.joinLines r.lines.reverse
  if Text.occursIn "@api".toList text then [⟨r.position, String.ofList text⟩] else []

end OpenRegion

/-- Where the reading of a file stands between two lines. -/
inductive Scope
  /-- In code. -/
  | code
  /-- In a run of line comments. -/
  | run (region : OpenRegion)
  /-- In a block comment. -/
  | block (region : OpenRegion)

namespace Scope

/-- The regions that end when the text or the comment run ends here. -/
def close : Scope → List Region
  | .code => []
  | .run region | .block region => region.close

/-- The run of line comments after one more of them, the text of which stands at `position`. -/
def extend (position : Position) (text : List Char) : Scope → Scope
  | .run region => .run (region.push text)
  | _ => .run ⟨position, [text]⟩

end Scope

/-- The column at which the tail `text` of a line starts. -/
def columnOf (line text : List Char) : Nat := line.length - text.length + 1

/-- The text of a line comment `//`, `///` or `//!`, without one blank in front. -/
def slashLine? (line : List Char) : Option (List Char) := do
  let text ← Text.stripPrefix? ['/', '/'] (Text.trimStart line)
  let text := match text with
    | '/' :: rest | '!' :: rest => rest
    | _ => text
  some (Text.dropChar ' ' text)

/-- The text behind the start of a block comment `/*` or `/**`, without one blank in front. -/
def blockStart? (line : List Char) : Option (List Char) := do
  let text ← Text.stripPrefix? ['/', '*'] (Text.trimStart line)
  let text := match text with
    | '*' :: '/' :: _ => text
    | '*' :: rest => rest
    | _ => text
  some (Text.dropChar ' ' text)

/-- A line inside a block comment without a leading star and one blank behind it. -/
def stripStar (line : List Char) : List Char :=
  match Text.trimStart line with
  | '*' :: rest => Text.dropChar ' ' rest
  | _ => line

/-- The regions of the lines from line `n` on, in a file with slash comments. -/
def slashRegions : Nat → Scope → List (List Char) → List Region
  | _, scope, [] => scope.close
  | n, .block region, line :: rest =>
    match Text.cutAt ['*', '/'] line with
    | some (before, _) => (region.push (stripStar before)).close ++ slashRegions (n + 1) .code rest
    | none => slashRegions (n + 1) (.block (region.push (stripStar line))) rest
  | n, scope, line :: rest =>
    match slashLine? line with
    | some text => slashRegions (n + 1) (scope.extend ⟨n, columnOf line text⟩ text) rest
    | none =>
      scope.close ++
        match blockStart? line with
        | none => slashRegions (n + 1) .code rest
        | some text =>
          let region : OpenRegion := ⟨⟨n, columnOf line text⟩, []⟩
          match Text.cutAt ['*', '/'] text with
          | some (before, _) => (region.push before).close ++ slashRegions (n + 1) .code rest
          | none => slashRegions (n + 1) (.block (region.push text)) rest

/-- The text of a hash comment, without one blank in front. -/
def hashLine? (line : List Char) : Option (List Char) :=
  (Text.stripPrefix? ['#'] (Text.trimStart line)).map (Text.dropChar ' ')

/-- The regions of the lines from line `n` on, in a file with hash comments. -/
def hashRegions : Nat → Scope → List (List Char) → List Region
  | _, scope, [] => scope.close
  | n, scope, line :: rest =>
    match hashLine? line with
    | some text => hashRegions (n + 1) (scope.extend ⟨n, columnOf line text⟩ text) rest
    | none => scope.close ++ hashRegions (n + 1) .code rest

/-- Lines without the interpreter line that a script may start with; it is no comment. -/
def blankShebang : List (List Char) → List (List Char)
  | first :: rest => (if ['#', '!'].isPrefixOf first then [] else first) :: rest
  | [] => []

/-- The comment regions of a file that can hold annotations, in order. -/
def regionsOf (style : CommentStyle) (content : String) : List Region :=
  let lines := Text.lines content.toList
  match style with
  | .slash => slashRegions 1 .code lines
  | .hash => hashRegions 1 .code (blankShebang lines)

end ApiNotes.Annotation
