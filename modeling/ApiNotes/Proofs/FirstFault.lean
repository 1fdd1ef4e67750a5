/-
The first fault of a document.

A document has a list of rules: it is written from the top, each rule with the whole path
of the field that it is about.  The checks work the other way round.  Each of them knows
its own value only and stops at its first fault, which is then handed up and given one
step of its path at each level.  `Reports` ties the two together at one place of a
document, and there is one lemma on it for each way of putting checks together; at the
root, it says that a document is refused for the first of its rules that does not hold.
-/
import ApiNotes.Proofs.WellFormed

namespace ApiNotes

open Check

/-! ### Rules -/

/-- A rule of a document: the condition, and the kind and the path of the fault when it does not
hold. -/
structure Rule where
  kind : FaultKind
  path : FieldPath
  holds : Prop

/-- The rules of the elements of a list in a field. -/
def eachRules {α : Type} (rules : FieldPath → α → List Rule) (place : FieldPath) (field : String)
    (xs : List α) : List Rule :=
  xs.zipIdx.flatMap fun x => rules (place ++ [Step.field field, Step.index x.2]) x.1

/-- The rules of a value that may be absent from a field. -/
def optionalRules {α : Type} (rules : FieldPath → α → List Rule) (place : FieldPath)
    (field : String) : Option α → List Rule
  | none => []
  | some x => rules (place ++ [Step.field field]) x

/-- The rules that each element of a list agrees with those before it. -/
def agreeRules {α : Type} (agree : α → α → Prop) (place : Nat → FieldPath) (xs : List α) :
    List Rule :=
  xs.zipIdx.map fun x => ⟨.duplicate, place x.2, ∀ a ∈ xs.take x.2, agree a x.1⟩

mutual

/-- The rules of the members of a type, at every depth. -/
def DataType.rules (place : FieldPath) : DataType → List Rule
  | .leaf _ _ => []
  | .array none _ => []
  | .array (some items) _ => items.rules place
  | .object members _ => DataType.memberRules place members

/-- The rules of members: a member has a key, and is a parameter that is right. -/
def DataType.memberRules (place : FieldPath) : List (String × Param) → List Rule
  | [] => []
  | (key, p) :: rest =>
    ⟨.missingField, place ++ [Step.field "properties"], Filled key⟩ ::
      (p.rules (place ++ [Step.field "properties", Step.key key]) ++
        DataType.memberRules place rest)

/-- The rules of a parameter. -/
def Param.rules (place : FieldPath) : Param → List Rule
  | ⟨name, type, _, _⟩ =>
    ⟨.missingField, place ++ [Step.field "name"], Filled name⟩ ::
      type.rules (place ++ [Step.field "type"])

end

/-- The rules of a header. -/
def Header.rules (place : FieldPath) (h : Header) : List Rule :=
  [⟨.missingField, place ++ [Step.field "name"], Filled h.name⟩]

/-- The rules of an example. -/
def Example.rules (place : FieldPath) (e : Example) : List Rule :=
  [⟨.missingField, place ++ [Step.field "mimetype"], Filled e.mimetype⟩]

/-- The rules of a body. -/
def Body.rules (place : FieldPath) (body : Body) : List Rule :=
  eachRules Header.rules place "headers" body.headers ++
    (agreeRules (fun a b => a.name ≠ b.name)
      (fun i => place ++ [Step.field "headers", Step.index i, Step.field "name"]) body.headers ++
    (eachRules Example.rules place "examples" body.examples ++
    optionalRules DataType.rules place "type" body.type))

/-- The rules of a request. -/
def Request.rules (place : FieldPath) (r : Request) : List Rule :=
  ⟨.missingField, place ++ [Step.field "mimetype"], Filled r.mimetype⟩ :: r.body.rules place

/-- The rules of a response. -/
def Response.rules (place : FieldPath) (r : Response) : List Rule :=
  ⟨.invalidStatus, place ++ [Step.field "status"], 100 ≤ r.status ∧ r.status ≤ 599⟩ ::
    ⟨.missingField, place ++ [Step.field "mimetype"], Filled r.mimetype⟩ :: r.body.rules place

/-- The rules of the name of a group, as an endpoint gives it. -/
def tagRules (place : FieldPath) (tag : String) : List Rule := [⟨.missingField, place, Filled tag⟩]

/-- The rules of an endpoint. -/
def Endpoint.rules (place : FieldPath) (e : Endpoint) : List Rule :=
  ⟨.missingField, place ++ [Step.field "path"], Filled e.path⟩ ::
    ⟨.invalidFormat, place ++ [Step.field "path"], e.path.toList.head? = some '/'⟩ ::
    (eachRules tagRules place "tags" e.tags ++
    (eachRules Header.rules place "headers" e.headers ++
    (eachRules Param.rules place "params" e.params ++
    (eachRules Param.rules place "queries" e.queries ++
    (optionalRules Request.rules place "request" e.request ++
    eachRules Response.rules place "responses" e.responses)))))

/-- The rules of a server. -/
def Server.rules (place : FieldPath) (s : Server) : List Rule :=
  [⟨.missingField, place ++ [Step.field "url"], Filled s.url⟩,
    ⟨.invalidFormat, place ++ [Step.field "url"], Url.isLink s.url = true⟩]

/-- The rules of a license. -/
def License.rules (place : FieldPath) (l : License) : List Rule :=
  [⟨.missingField, place ++ [Step.field "name"], Filled l.name⟩,
    ⟨.invalidFormat, place ++ [Step.field "url"], l.url = "" ∨ Url.isLink l.url = true⟩]

/-- The rules of external documentation. -/
def ExternalDocs.rules (place : FieldPath) (d : ExternalDocs) : List Rule :=
  [⟨.invalidFormat, place ++ [Step.field "url"], Url.isLink d.url = true⟩]

/-- The rules of a group. -/
def Group.rules (place : FieldPath) (g : Group) : List Rule :=
  [⟨.missingField, place ++ [Step.field "name"], Filled g.name⟩]

/-- The rules of endpoints: each is right, and answers nothing that one before it answers. -/
def endpointRules (endpoints : List Endpoint) : List Rule :=
  endpoints.zipIdx.flatMap fun e =>
    e.1.rules [.field "apis", .index e.2] ++
      [⟨.duplicate, [.field "apis", .index e.2, .field "path"], ∀ a ∈ endpoints.take e.2,
        ¬(a.method = e.1.method ∧ Route.template a.path = Route.template e.1.path)⟩]

/-- The rules of a document, from its top to its bottom. -/
def ApiDoc.rules (doc : ApiDoc) : List Rule :=
  ⟨.missingField, [.field "title"], Filled doc.title⟩ ::
    ⟨.invalidFormat, [.field "version"], doc.version = "" ∨ Version.isValid doc.version = true⟩ ::
    (eachRules Server.rules [] "servers" doc.servers ++
    (optionalRules License.rules [] "license" doc.license ++
    (optionalRules ExternalDocs.rules [] "externalDocs" doc.externalDocs ++
    (eachRules Group.rules [] "tags" doc.groups ++
    (eachRules Response.rules [] "responses" doc.responses ++
    (agreeRules (fun a b => a.status = b.status → (a == b) = true)
      (fun i => [.field "responses", .index i, .field "status"]) doc.responses ++
    (⟨.missingField, [.field "paths"], doc.endpoints ≠ []⟩ ::
    endpointRules doc.endpoints)))))))

/-! ### What a check reports -/

/-- The outcome of a check is that of the rules, in order: it passes when all hold, and otherwise
its fault is that of the first that does not, with the path from the given place on. -/
def Reports (place : FieldPath) (rules : List Rule) : Checked Unit → Prop
  | .ok () => ∀ r ∈ rules, r.holds
  | .error fault => ∃ before r after, rules = before ++ r :: after ∧ (∀ b ∈ before, b.holds) ∧
      ¬r.holds ∧ fault.kind = r.kind ∧ place ++ fault.path = r.path

variable {place : FieldPath}

theorem reports_nil : Reports place [] (.ok ()) := List.forall_mem_nil _

/-- A rule that holds is passed. -/
theorem reports_ok {r : Rule} (h : r.holds) : Reports place [r] (.ok ()) :=
  List.forall_mem_singleton.mpr h

/-- A rule that does not hold ends the checks, whatever rules come behind it. -/
theorem reports_error {r : Rule} {rs : List Rule} {fault : Fault} (h : ¬r.holds)
    (hkind : fault.kind = r.kind) (hpath : place ++ fault.path = r.path) :
    Reports place (r :: rs) (.error fault) :=
  ⟨[], r, rs, rfl, List.forall_mem_nil _, h, hkind, hpath⟩

/-- A condition on a field reports one rule. -/
theorem reports_ensure {condition : Bool} {kind : FaultKind} {field : String} {holds : Prop}
    (hfield : field ≠ "") (h : condition = true ↔ holds) :
    Reports place [⟨kind, place ++ [Step.field field], holds⟩] (ensure condition kind field) := by
  cases condition with
  | true => exact reports_ok (h.mp rfl)
  | false =>
      refine reports_error (fun hholds => Bool.false_ne_true (h.mpr hholds)) rfl ?_
      rw [Fault.of, FieldPath.ofField, if_neg hfield]

theorem reports_filled {value field : String} (hfield : field ≠ "") :
    Reports place [⟨.missingField, place ++ [Step.field field], Filled value⟩]
      (filled value field) :=
  reports_ensure hfield (by rw [Filled, Bool.not_eq_true'])

/-- A text that is the value at hand reports a rule about this place. -/
theorem reports_filled_here {value : String} :
    Reports place [⟨.missingField, place, Filled value⟩] (filled value "") := by
  unfold filled ensure
  cases hblank : Text.isBlankText value with
  | false => exact reports_ok hblank
  | true =>
      refine reports_error (fun hfilled => ?_) rfl (List.append_nil place)
      exact Bool.false_ne_true (hfilled.symm.trans hblank)

/-- Checks in a row report their rules in that order. -/
theorem reports_bind {rs rs' : List Rule} {x y : Checked Unit} (hx : Reports place rs x)
    (hy : Reports place rs' y) : Reports place (rs ++ rs') (x >>= fun _ => y) := by
  cases x with
  | error fault =>
      obtain ⟨before, r, after, rfl, hbefore, hr, hkind, hpath⟩ := hx
      exact ⟨before, r, after ++ rs', by simp, hbefore, hr, hkind, hpath⟩
  | ok u =>
      cases y with
      | error fault =>
          obtain ⟨before, r, after, rfl, hbefore, hr, hkind, hpath⟩ := hy
          refine ⟨rs ++ before, r, after, by simp, ?_, hr, hkind, hpath⟩
          exact List.forall_mem_append.mpr ⟨hx, hbefore⟩
      | ok v => exact List.forall_mem_append.mpr ⟨hx, hy⟩

/-- A fault that is handed up keeps its kind and gets steps in front of its path. -/
structure Lifts (lift : Fault → Fault) (steps : FieldPath) : Prop where
  kind : ∀ fault, (lift fault).kind = fault.kind
  path : ∀ fault, (lift fault).path = steps ++ fault.path

theorem lifts_within (field : String) : Lifts (·.within field) [.field field] :=
  ⟨fun _ => rfl, fun _ => rfl⟩

theorem lifts_withinIndex (field : String) (i : Nat) :
    Lifts (·.withinIndex field i) [.field field, .index i] :=
  ⟨fun _ => rfl, fun _ => rfl⟩

theorem lifts_withinKey (field key : String) :
    Lifts (·.withinKey field key) [.field field, .key key] :=
  ⟨fun _ => rfl, fun _ => rfl⟩

theorem lifts_blame (e : Endpoint) (i : Nat) :
    Lifts (e.blame i) [.field "apis", .index i] := by
  refine ⟨fun fault => ?_, fun fault => ?_⟩ <;> unfold Endpoint.blame <;> cases e.file <;> rfl

/-- The check of an inner value reports its rules from further outside. -/
theorem reports_mapError {lift : Fault → Fault} {steps : FieldPath} (hlift : Lifts lift steps)
    {rs : List Rule} {x : Checked Unit} (hx : Reports (place ++ steps) rs x) :
    Reports place rs (x.mapError lift) := by
  cases x with
  | ok u => exact hx
  | error fault =>
      obtain ⟨before, r, after, hrs, hbefore, hr, hkind, hpath⟩ := hx
      refine ⟨before, r, after, hrs, hbefore, hr, (hlift.kind fault).trans hkind, ?_⟩
      rw [hlift.path, ← List.append_assoc, hpath]

section Combinators

variable {α : Type}

/-- The check of a list reports the rules of its elements. -/
theorem reports_each {check : α → Checked Unit} {rules : FieldPath → α → List Rule}
    {field : String} {xs : List α}
    (h : ∀ place, ∀ x ∈ xs, Reports place (rules place x) (check x)) :
    Reports place (eachRules rules place field xs) (each check field xs) := by
  have hfrom : ∀ index, Reports place
      ((xs.zipIdx index).flatMap fun x => rules (place ++ [Step.field field, Step.index x.2]) x.1)
      (eachFrom check field index xs) := by
    induction xs with
    | nil => exact fun index => reports_nil
    | cons x rest ih =>
        intro index
        rw [List.zipIdx_cons, List.flatMap_cons]
        exact reports_bind
          (reports_mapError (lifts_withinIndex field index) (h _ x List.mem_cons_self))
          (ih (fun place y hy => h place y (List.mem_cons_of_mem x hy)) (index + 1))
  exact hfrom 0

theorem reports_optional {check : α → Checked Unit} {rules : FieldPath → α → List Rule}
    {field : String} (h : ∀ place x, Reports place (rules place x) (check x)) (o : Option α) :
    Reports place (optionalRules rules place field o) (optional check field o) := by
  cases o with
  | none => exact reports_nil
  | some x => exact reports_mapError (lifts_within field) (h _ x)

/-- The search for clashes reports that each element agrees with those before it. -/
theorem reports_noClash {clash : α → α → Bool} {agree : α → α → Prop}
    (hagree : ∀ a b, clash a b = false ↔ agree a b) {fault : Nat → Fault} {path : Nat → FieldPath}
    (hkind : ∀ i, (fault i).kind = .duplicate) (hpath : ∀ i, place ++ (fault i).path = path i)
    (xs : List α) : Reports place (agreeRules agree path xs) (noClash clash fault [] xs) := by
  -- the elements that are still to come, behind those that have been looked at
  have hbehind : ∀ before rest, before ++ rest = xs →
      Reports place ((rest.zipIdx before.length).map fun x =>
        (⟨.duplicate, path x.2, ∀ a ∈ xs.take x.2, agree a x.1⟩ : Rule))
        (noClash clash fault before rest) := by
    intro before rest
    induction rest generalizing before with
    | nil => exact fun _ => reports_nil
    | cons x rest ih =>
        intro hxs
        have htake : xs.take before.length = before := by rw [← hxs, List.take_left]
        rw [List.zipIdx_cons, List.map_cons, htake, noClash]
        split
        · rename_i hclash
          obtain ⟨a, ha, hax⟩ := List.any_eq_true.mp hclash
          refine reports_error (fun hall => ?_) (hkind _) (hpath _)
          rw [(hagree a x).mpr (hall a ha)] at hax
          exact Bool.false_ne_true hax
        · rename_i hclash
          have hfirst : ∀ a ∈ before, agree a x := fun a ha =>
            (hagree a x).mp (Bool.eq_false_iff.mpr fun hax =>
              hclash (List.any_eq_true.mpr ⟨a, ha, hax⟩))
          have hrest := ih (before ++ [x]) (by rw [List.append_assoc, List.singleton_append, hxs])
          rw [List.length_append, List.length_singleton] at hrest
          exact reports_bind (reports_ok hfirst) hrest
  exact hbehind [] xs rfl

end Combinators

/-! ### Types and parameters -/

/-- A parameter reports its rules when its type does. -/
theorem Param.reports_of_type {p : Param}
    (htype : ∀ place, Reports place (p.type.rules place) p.type.check) :
    Reports place (p.rules place) p.check := by
  obtain ⟨name, type, optional, description⟩ := p
  exact reports_bind (reports_filled (by decide)) (reports_mapError (lifts_within _) (htype _))

theorem DataType.memberRules_reports {members : List (String × Param)}
    (h : ∀ place, ∀ m ∈ members, Reports place (m.2.type.rules place) m.2.type.check) :
    Reports place (DataType.memberRules place members) (DataType.checkMembers members) := by
  induction members with
  | nil => exact reports_nil
  | cons m rest ih =>
      obtain ⟨key, p⟩ := m
      have hkey : Reports place [⟨.missingField, place ++ [Step.field "properties"], Filled key⟩]
          ((filled key "").mapError (·.within "properties")) :=
        reports_mapError (lifts_within _) (reports_filled_here)
      have hparam : Reports place (p.rules (place ++ [Step.field "properties", Step.key key]))
          (p.check.mapError (·.withinKey "properties" key)) :=
        reports_mapError (lifts_withinKey _ key)
          (Param.reports_of_type fun place => h place _ List.mem_cons_self)
      rw [DataType.memberRules, DataType.checkMembers]
      exact reports_bind hkey (reports_bind hparam
        (ih fun place m hm => h place m (List.mem_cons_of_mem _ hm)))

theorem DataType.reports (t : DataType) :
    ∀ place, Reports place (t.rules place) t.check := by
  induction t using DataType.induct with
  | leaf kind text => exact fun place => reports_nil
  | bare text => exact fun place => reports_nil
  | array items text ih => exact ih
  | object members text ih =>
      exact fun place => DataType.memberRules_reports fun place m hm => ih m hm place

theorem Param.reports (p : Param) : Reports place (p.rules place) p.check :=
  Param.reports_of_type p.type.reports

/-! ### Bodies -/

theorem Header.reports (h : Header) : Reports place (h.rules place) h.check := by
  unfold Header.rules Header.check
  exact reports_filled (by decide)

theorem Example.reports (e : Example) : Reports place (e.rules place) e.check := by
  unfold Example.rules Example.check
  exact reports_filled (by decide)

theorem Body.reports (body : Body) : Reports place (body.rules place) body.check := by
  unfold Body.rules Body.check
  refine reports_bind (reports_each fun _ h _ => h.reports) (reports_bind ?_
    (reports_bind (reports_each fun _ e _ => e.reports)
      (reports_optional (fun _ t => t.reports _) body.type)))
  exact reports_noClash (fun a b => beq_eq_false_iff_ne) (fun _ => rfl) (fun _ => rfl) body.headers

theorem Request.reports (r : Request) : Reports place (r.rules place) r.check := by
  unfold Request.rules Request.check
  exact reports_bind (reports_filled (by decide)) r.body.reports

theorem Response.reports (r : Response) : Reports place (r.rules place) r.check := by
  unfold Response.rules Response.check
  exact reports_bind (reports_ensure (by decide) (by simp))
    (reports_bind (reports_filled (by decide)) r.body.reports)

/-! ### Endpoints -/

theorem Endpoint.reports (e : Endpoint) : Reports place (e.rules place) e.check := by
  unfold Endpoint.rules Endpoint.check
  exact reports_bind (reports_filled (by decide)) <|
    reports_bind (reports_ensure (by decide) beq_iff_eq) <|
    reports_bind (reports_each fun _ _ _ => reports_filled_here) <|
    reports_bind (reports_each fun _ h _ => h.reports) <|
    reports_bind (reports_each fun _ p _ => p.reports) <|
    reports_bind (reports_each fun _ q _ => q.reports) <|
    reports_bind (reports_optional (fun _ r => r.reports) e.request) <|
    reports_each fun _ r _ => r.reports

/-- Endpoints report their own rules and that the slot of each is free. -/
theorem checkEndpoints_reports (endpoints : List Endpoint) :
    Reports [] (endpointRules endpoints) (ApiDoc.checkEndpoints [] endpoints) := by
  -- the endpoints that are still to come, behind those that have been looked at
  have hbehind : ∀ before rest, before ++ rest = endpoints →
      Reports [] ((rest.zipIdx before.length).flatMap fun e =>
        e.1.rules [.field "apis", .index e.2] ++
          [(⟨.duplicate, [.field "apis", .index e.2, .field "path"], ∀ a ∈ endpoints.take e.2,
            ¬(a.method = e.1.method ∧ Route.template a.path = Route.template e.1.path)⟩ : Rule)])
        (ApiDoc.checkEndpoints before rest) := by
    intro before rest
    induction rest generalizing before with
    | nil => exact fun _ => reports_nil
    | cons e rest ih =>
        intro hendpoints
        have htake : endpoints.take before.length = before := by rw [← hendpoints, List.take_left]
        have hrest := ih (before ++ [e])
          (by rw [List.append_assoc, List.singleton_append, hendpoints])
        rw [List.length_append, List.length_singleton] at hrest
        have hfree : (!before.any (·.sameSlot e)) = true ↔ ∀ a ∈ before,
            ¬(a.method = e.method ∧ Route.template a.path = Route.template e.path) := by
          simp [Endpoint.sameSlot]
        rw [List.zipIdx_cons, List.flatMap_cons, htake, ApiDoc.checkEndpoints, List.append_assoc]
        exact reports_bind (reports_mapError (lifts_blame e _) e.reports) <|
          reports_bind (reports_mapError (lifts_blame e _) (reports_ensure (by decide) hfree)) hrest
  exact hbehind [] endpoints rfl

/-! ### Documents -/

theorem Server.reports (s : Server) : Reports place (s.rules place) s.check := by
  unfold Server.rules Server.check
  exact reports_bind (reports_filled (by decide)) (reports_ensure (by decide) Iff.rfl)

theorem License.reports (l : License) : Reports place (l.rules place) l.check := by
  unfold License.rules License.check
  exact reports_bind (reports_filled (by decide))
    (reports_ensure (by decide) (by rw [Bool.or_eq_true, String.isEmpty_iff]))

theorem ExternalDocs.reports (d : ExternalDocs) : Reports place (d.rules place) d.check := by
  unfold ExternalDocs.rules ExternalDocs.check
  exact reports_ensure (by decide) Iff.rfl

theorem Group.reports (g : Group) : Reports place (g.rules place) g.check := by
  unfold Group.rules Group.check
  exact reports_filled (by decide)

theorem ApiDoc.reports (doc : ApiDoc) : Reports [] doc.rules doc.sanitize.2 := by
  have hagree : ∀ a b : Response, (a.status == b.status && a != b) = false ↔
      (a.status = b.status → (a == b) = true) := by
    simp [bne]
  rw [ApiDoc.sanitize_snd, ApiDoc.fillServers_fillVersion]
  simp only [ApiDoc.checkParts, ApiDoc.each_fillServers]
  refine reports_bind (reports_filled (by decide)) <|
    reports_bind (reports_ensure (by decide) ApiDoc.isValid_fillVersion) <|
    reports_bind (reports_each fun _ s _ => s.reports) <|
    reports_bind (reports_optional (fun _ l => l.reports) doc.license) <|
    reports_bind (reports_optional (fun _ d => d.reports) doc.externalDocs) <|
    reports_bind (reports_each fun _ g _ => g.reports) <|
    reports_bind (reports_each fun _ r _ => r.reports) <|
    reports_bind ?_ <|
    reports_bind (reports_ensure (by decide) (by simp)) (checkEndpoints_reports doc.endpoints)
  refine reports_noClash hagree ?_ ?_ doc.responses
  · exact fun _ => rfl
  · exact fun _ => rfl

/-- **The checks of a document decide whether it is well-formed, and report the first violation.**
They pass exactly on well-formed documents, which are those that keep all the rules of the
document; and when they fail, the fault has the kind and the whole path of the first rule, from
the top of the document to its bottom, that is not kept. -/
theorem ApiDoc.sanitize_first_fault (doc : ApiDoc) :
    (doc.sanitize.2 = .ok () ↔ doc.WellFormed) ∧
    (doc.WellFormed ↔ ∀ r ∈ doc.rules, r.holds) ∧
    ∀ fault, doc.sanitize.2 = .error fault →
      ∃ (before : List Rule) (rule : Rule) (after : List Rule), doc.rules = before ++ rule :: after ∧
        (∀ r ∈ before, r.holds) ∧ ¬rule.holds ∧
        fault.kind = rule.kind ∧ fault.path = rule.path := by
  have hreports := doc.reports
  refine ⟨sanitize_eq_ok, ?_, fun fault hfault => ?_⟩
  · rw [← sanitize_eq_ok]
    constructor
    · intro hok
      rwa [hok] at hreports
    · intro hall
      cases hout : doc.sanitize.2 with
      | ok u => rfl
      | error fault =>
          rw [hout] at hreports
          obtain ⟨before, r, after, hrules, -, hbroken, -, -⟩ := hreports
          exact absurd (hall r (by simp [hrules])) hbroken
  · rw [hfault] at hreports
    exact hreports

end ApiNotes
