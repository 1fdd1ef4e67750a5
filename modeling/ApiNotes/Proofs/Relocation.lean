/-
An annotation means the same wherever it stands.

Tags carry the place where they were written, and so does an endpoint or a fault that
comes of them, but no reader looks at it.  So tags that are moved are read as before, and
what they declare moves along: each reader below commutes with `Tag.moved`, from the
single fields of a tag up to a whole annotation, and `blockOf_moved` is the last of them.
The cutting of lines into tags commutes with a move as well, when the move takes the place
of every line to the place that the line has elsewhere.
-/
import ApiNotes.Annotation.Source
import ApiNotes.Proofs.Lexing

namespace ApiNotes

/-! ### Moving what has a place -/

/-- The fault at another place. -/
def Fault.moved (move : Position → Position) (fault : Fault) : Fault :=
  { fault with position := move fault.position }

/-- The endpoint at another place. -/
def Endpoint.moved (move : Position → Position) (e : Endpoint) : Endpoint :=
  { e with position := move e.position }

/-- The findings of a file whose annotations stand elsewhere. -/
def FileFindings.moved (move : Position → Position) (found : FileFindings) : FileFindings :=
  { found with endpoints := found.endpoints.map (Endpoint.moved move) }

/-- The tag at another place. -/
def Annotation.Tag.moved (move : Position → Position) (tag : Tag) : Tag :=
  { tag with position := move tag.position }

/-- The block at another place. -/
def Annotation.Block.moved (move : Position → Position) : Block → Block
  | .doc header => .doc header
  | .endpoint e => .endpoint (e.moved move)
  | .empty => .empty

/-- The outcome of a step at another place: a fault moves, and an answer is changed. -/
def relocated {α β : Type} (move : Position → Position) (change : α → β) : Checked α → Checked β
  | .ok a => .ok (change a)
  | .error fault => .error (fault.moved move)

section Outcomes

variable {α β γ δ σ τ : Type} {move : Position → Position}

/-- Two steps move when each of them does. -/
theorem relocated_bind {change : α → β} {change' : γ → δ} {x : Checked α} {f : α → Checked γ}
    {g : β → Checked δ} (h : ∀ a, g (change a) = relocated move change' (f a)) :
    relocated move change x >>= g = relocated move change' (x >>= f) := by
  cases x with
  | error fault => rfl
  | ok a => exact h a

/-- A loop moves when its step does. -/
theorem foldlM_map_relocated {changeState : σ → τ} {changeItem : α → β} {f : σ → α → Checked σ}
    {g : τ → β → Checked τ}
    (h : ∀ s x, g (changeState s) (changeItem x) = relocated move changeState (f s x)) :
    ∀ (xs : List α) (s : σ), (xs.map changeItem).foldlM g (changeState s) =
      relocated move changeState (xs.foldlM f s) := by
  intro xs
  induction xs with
  | nil => intro s; rfl
  | cons x rest ih =>
      intro s
      rw [List.map_cons, List.foldlM_cons, List.foldlM_cons, h]
      exact relocated_bind ih

/-- So does a loop that keeps some answers. -/
theorem filterMapM_map_relocated {changeItem : α → β} {f : α → Checked (Option γ)}
    {g : β → Checked (Option γ)} (h : ∀ x, g (changeItem x) = relocated move id (f x)) :
    ∀ xs : List α, (xs.map changeItem).filterMapM g = relocated move id (xs.filterMapM f) := by
  intro xs
  induction xs with
  | nil => rfl
  | cons x rest ih =>
      rw [List.map_cons, List.filterMapM_cons, List.filterMapM_cons, h]
      refine relocated_bind fun kept => ?_
      cases kept with
      | none => exact ih
      | some y =>
          rw [ih]
          exact relocated_bind fun ys => rfl

end Outcomes

namespace Annotation

variable {move : Position → Position}

/-! ### Single tags -/

theorem typeAt_moved (tag : Tag) (token : String) :
    typeAt (tag.moved move) token = relocated move id (typeAt tag token) := by
  unfold typeAt
  cases DataType.parse token <;> rfl

theorem paramOf?_moved (tag : Tag) :
    paramOf? (tag.moved move) = relocated move id (paramOf? tag) := by
  unfold paramOf?
  rw [show (tag.moved move).fields 4 = tag.fields 4 from rfl]
  split
  · rw [typeAt_moved]
    exact relocated_bind fun type => rfl
  · rfl

theorem addTag_moved (body : Body) (tag : Tag) :
    body.addTag (tag.moved move) = relocated move id (body.addTag tag) := by
  unfold Body.addTag
  rw [show (tag.moved move).kind = tag.kind from rfl]
  split
  · rfl
  · rfl
  · unfold Body.addParam
    rw [paramOf?_moved]
    refine relocated_bind fun param => ?_
    cases param <;> rfl
  · rfl

theorem addTags_moved (body : Body) (tags : List Tag) :
    body.addTags (tags.map (Tag.moved move)) = relocated move id (body.addTags tags) :=
  foldlM_map_relocated addTag_moved tags body

/-! ### Sections -/

theorem splitSections_moved (tags : List Tag) :
    splitSections (tags.map (Tag.moved move)) =
      ((splitSections tags).1.map (Tag.moved move),
        (splitSections tags).2.map fun s => (s.1.moved move, s.2.map (Tag.moved move))) := by
  induction tags with
  | nil => rfl
  | cons tag rest ih =>
      rw [List.map_cons, splitSections, splitSections, ih,
        show (tag.moved move).kind = tag.kind from rfl]
      by_cases hopens : tag.kind.opensSection = true
      · simp only [hopens, if_true, List.map_nil, List.map_cons]
      · simp only [hopens, if_false, List.map_cons, Bool.false_eq_true]

theorem responseOf?_moved (tag : Tag) (owned : List Tag) :
    responseOf? (tag.moved move) (owned.map (Tag.moved move)) =
      relocated move id (responseOf? tag owned) := by
  unfold responseOf?
  rw [show (tag.moved move).fields 4 = tag.fields 4 from rfl]
  split
  · cases statusOf? _ with
    | none => rfl
    | some status =>
        rw [typeAt_moved]
        refine relocated_bind fun type => ?_
        simp only [id, addTags_moved]
        exact relocated_bind fun body => rfl
  · rfl

theorem requestOf?_moved (tag : Tag) (owned : List Tag) :
    requestOf? (tag.moved move) (owned.map (Tag.moved move)) =
      relocated move id (requestOf? tag owned) := by
  unfold requestOf?
  rw [show (tag.moved move).fields 3 = tag.fields 3 from rfl]
  split
  · rw [typeAt_moved]
    refine relocated_bind fun type => ?_
    simp only [id, addTags_moved]
    exact relocated_bind fun body => rfl
  · rfl

/-! ### Document headers -/

/-- The sections of one kind, moved. -/
theorem filter_sections_moved (kind : TagKind) (sections : List (Tag × List Tag)) :
    (sections.map fun s => (s.1.moved move, s.2.map (Tag.moved move))).filter
        (fun s => s.1.kind == kind) =
      (sections.filter fun s => s.1.kind == kind).map
        fun s => (s.1.moved move, s.2.map (Tag.moved move)) := by
  rw [List.filter_map]
  rfl

theorem docOf?_moved (opener : Tag) (rest : List Tag) :
    docOf? (opener.moved move) (rest.map (Tag.moved move)) =
      relocated move id (docOf? opener rest) := by
  unfold docOf?
  rw [splitSections_moved, show (opener.moved move).body = opener.body from rfl]
  simp only [filter_sections_moved]
  split
  · rfl
  · rw [filterMapM_map_relocated fun s => responseOf?_moved s.1 s.2]
    have htags : ∀ (tags : List Tag) doc, (tags.map (Tag.moved move)).foldl describeDoc doc =
        tags.foldl describeDoc doc := fun tags doc => List.foldl_map
    have hrequests : ∀ sections : List (Tag × List Tag),
        (sections.map fun s => (s.1.moved move, s.2.map (Tag.moved move))).flatMap (·.2) =
          (sections.flatMap (·.2)).map (Tag.moved move) := by
      intro sections
      rw [List.flatMap_map, List.map_flatMap]
    rw [hrequests, ← List.map_append, htags]
    exact relocated_bind fun responses => rfl

/-! ### Endpoints -/

theorem describeEndpoint_moved (e : Endpoint) (tag : Tag) :
    describeEndpoint (e.moved move) (tag.moved move) =
      relocated move (Endpoint.moved move) (describeEndpoint e tag) := by
  unfold describeEndpoint
  rw [show (tag.moved move).kind = tag.kind from rfl, paramOf?_moved]
  split
  · rfl
  · refine relocated_bind fun param => ?_
    cases param <;> rfl
  · refine relocated_bind fun param => ?_
    cases param <;> rfl
  · rfl
  · rfl

theorem describeSection_moved (e : Endpoint) (opener : Tag) (owned : List Tag) :
    describeSection (e.moved move) (opener.moved move) (owned.map (Tag.moved move)) =
      relocated move (Endpoint.moved move) (describeSection e opener owned) := by
  unfold describeSection
  rw [show (opener.moved move).kind = opener.kind from rfl, requestOf?_moved, responseOf?_moved]
  split
  · exact relocated_bind fun request => rfl
  · exact relocated_bind fun response => rfl

/-- The two loops over the tags of an endpoint. -/
theorem describe_moved (e : Endpoint) (before : List Tag) (sections : List (Tag × List Tag)) :
    ((before.map (Tag.moved move)).foldlM describeEndpoint (e.moved move) >>= fun e =>
        (sections.map fun s => (s.1.moved move, s.2.map (Tag.moved move))).foldlM
          (fun e s => describeSection e s.1 s.2) e) =
      relocated move (Endpoint.moved move) (before.foldlM describeEndpoint e >>= fun e =>
        sections.foldlM (fun e s => describeSection e s.1 s.2) e) := by
  rw [foldlM_map_relocated describeEndpoint_moved]
  refine relocated_bind fun e => ?_
  exact foldlM_map_relocated (fun e s => describeSection_moved e s.1 s.2) sections e

theorem endpointOf?_moved (opener : Tag) (rest : List Tag) :
    endpointOf? (opener.moved move) (rest.map (Tag.moved move)) =
      relocated move (Option.map (Endpoint.moved move)) (endpointOf? opener rest) := by
  unfold endpointOf?
  rw [splitSections_moved, show (opener.moved move).body = opener.body from rfl]
  rcases headAndTail opener.body with ⟨head, description⟩
  simp only
  split
  · rename_i name path summary _
    cases Method.ofName? name with
    | none => rfl
    | some method =>
        have hloops := @describe_moved move
          { method, path, summary := fieldAt summary 0, description, position := opener.position }
          (splitSections rest).1 (splitSections rest).2
        simp only [← bind_assoc]
        refine Eq.trans (congrArg (· >>= _) hloops) ?_
        exact relocated_bind fun e => rfl
  · rfl

/-! ### Annotations -/

/-- **Moved tags declare what they declared.** -/
theorem blockOf_moved (tags : List Tag) :
    blockOf (tags.map (Tag.moved move)) = relocated move (Block.moved move) (blockOf tags) := by
  have hdrop : (tags.map (Tag.moved move)).dropWhile (fun tag => !tag.kind.opensBlock) =
      (tags.dropWhile fun tag => !tag.kind.opensBlock).map (Tag.moved move) := by
    rw [List.dropWhile_map]
    rfl
  unfold blockOf
  rw [hdrop]
  cases tags.dropWhile fun tag => !tag.kind.opensBlock with
  | nil => rfl
  | cons opener rest =>
      rw [List.map_cons]
      simp only [show (opener.moved move).kind = opener.kind from rfl]
      split
      · rw [docOf?_moved]
        refine relocated_bind fun doc => ?_
        cases doc <;> rfl
      · rw [endpointOf?_moved]
        refine relocated_bind fun endpoint => ?_
        cases endpoint <;> rfl

/-! ### Lines -/

/-- Lines are cut into the same tags elsewhere, when the move takes each line there. -/
theorem cutLines_moved {origin origin' : Position} {lines : List (List Char)} :
    ∀ index index', (∀ j line, move (linePosition origin (index + j) line) =
        linePosition origin' (index' + j) line) →
      cutLines origin' index' lines =
        relocated move (fun cut => (cut.1, cut.2.map (Tag.moved move)))
          (cutLines origin index lines) := by
  induction lines with
  | nil => intro index index' _; rfl
  | cons line rest ih =>
      intro index index' hmove
      have hrest := ih (index + 1) (index' + 1) fun j line => by
        rw [Nat.add_assoc, Nat.add_assoc]
        exact hmove (1 + j) line
      have hline : linePosition origin' index' line = move (linePosition origin index line) :=
        (hmove 0 line).symm
      rw [cutLines, cutLines, hline, hrest]
      cases lineKind line with
      | malformed => rfl
      | prose => exact relocated_bind fun cut => rfl
      | opener name first => exact relocated_bind fun cut => rfl

end Annotation

end ApiNotes
