/-
Folding responses of one status into one.

Content is merged by mimetype and headers by name.  What both sides declare, a header
or a schema, has to be the same on both; examples add up.  A merge that fails stops
where the two sides first disagree and leaves what it had taken over by then.
-/
import ApiNotes.Fault
import ApiNotes.OpenApi.Document

namespace ApiNotes.OpenApi

/-- The key of the n-th example of a mimetype. -/
def exampleKey (n : Nat) : String := "example" ++ toString n

namespace MediaType

/-- Writes an example under the key that follows from the number of examples. -/
def pushExample (media : MediaType) (e : Example) : MediaType :=
  { media with examples := media.examples.insert (exampleKey (media.examples.length + 1)) e }

/-- Whether both sides have a schema, and different ones. -/
def schemasClash (own theirs : MediaType) : Bool :=
  match own.schema, theirs.schema with
  | some s, some t => !(s == t)
  | _, _ => false

/-- Takes over the schema, unless there is one, and all examples. -/
def absorb (own theirs : MediaType) : MediaType :=
  (theirs.examples.map Prod.snd).foldl pushExample
    { own with schema := own.schema.or theirs.schema }

end MediaType

namespace Response

/-- Takes over headers up to the first that is declared differently. -/
def mergeHeaders (own : Dict Header) : Dict Header → Dict Header × Checked Unit
  | [] => (own, .ok ())
  | (name, header) :: rest =>
    match Dict.get? own name with
    | none => mergeHeaders (Dict.insert own name header) rest
    | some mine =>
      if mine == header then mergeHeaders own rest
      else (own, .error ((Fault.of .duplicate "").withinKey "headers" name))

/-- Takes over content up to the first mimetype with another schema.  A mimetype gets its entry
before its schema is looked at. -/
def mergeContent (own : Dict MediaType) : Dict MediaType → Dict MediaType × Checked Unit
  | [] => (own, .ok ())
  | (mimetype, media) :: rest =>
    let mine := (Dict.get? own mimetype).getD {}
    if mine.schemasClash media then
      (Dict.insert own mimetype mine,
        .error ((Fault.of .duplicate "schema").withinKey "content" mimetype))
    else mergeContent (Dict.insert own mimetype (mine.absorb media)) rest

/-- Folds another response into this one: the response as far as the merge got, and the first
disagreement. -/
def merge (own theirs : Response) : Response × Checked Unit :=
  let own := if own.description.isEmpty then { own with description := theirs.description } else own
  let (headers, outcome) := mergeHeaders own.headers theirs.headers
  let own := { own with headers }
  match outcome with
  | .error fault => (own, .error fault)
  | .ok () =>
    let (content, outcome) := mergeContent own.content theirs.content
    ({ own with content }, outcome)

/-- The two responses in one, or the first disagreement. -/
def merged (own theirs : Response) : Checked Response :=
  (own.merge theirs).2.map fun _ => (own.merge theirs).1

end Response

end ApiNotes.OpenApi
