/-
Merging responses is a partial monoid.

Whether a merge goes through is a matter of each name: what stands under it on both sides has
to be the same, and that is all (`Agree`).  What it yields is then one table out of two: own
names first and then the new ones, and under a name that both have what is made of the two
values (`joinWith`).  So `merged_eq_ok_iff` takes a merge apart into a condition and a function
without one, and the laws are laws of these two, name by name.  Sameness is an equivalence, so
a third response can join two that agree from either end; schemas are taken from the first that
has one, and examples are counted through, so that under one mimetype they are added up in
order with the keys that they would have had at once.
-/
import ApiNotes.Proofs.SharedResponses

namespace ApiNotes

namespace Dict

variable {α : Type}

/-! ### Two tables in one -/

/-- Some names, and behind them those of others that are new. -/
def joinNames (own theirs : List String) : List String := own ++ theirs.filter (· ∉ own)

theorem mem_joinNames {own theirs : List String} {name : String} :
    name ∈ joinNames own theirs ↔ name ∈ own ∨ name ∈ theirs := by
  by_cases h : name ∈ own <;> simp [joinNames, h]

theorem nodup_joinNames {own theirs : List String} (hown : own.Nodup) (htheirs : theirs.Nodup) :
    (joinNames own theirs).Nodup := by
  rw [joinNames, List.nodup_append]
  refine ⟨hown, htheirs.filter _, ?_⟩
  rintro name hname _ hother rfl
  simpa [hname] using (List.mem_filter.mp hother).2

/-- The names of others are taken over one after another. -/
theorem joinNames_cons {own rest : List String} {name : String} (hnew : name ∉ rest) :
    joinNames (if name ∈ own then own else own ++ [name]) rest = joinNames own (name :: rest) := by
  by_cases h : name ∈ own
  · simp [joinNames, h]
  · have hrest : rest.filter (fun x => x ∉ own ++ [name]) = rest.filter (· ∉ own) := by
      refine List.filter_congr fun x hx => ?_
      have hne : x ≠ name := fun heq => hnew (heq ▸ hx)
      simp [hne]
    rw [if_neg h, joinNames, hrest]
    simp [joinNames, h]

theorem joinNames_assoc (xs ys zs : List String) :
    joinNames (joinNames xs ys) zs = joinNames xs (joinNames ys zs) := by
  have hzs : zs.filter (· ∉ joinNames xs ys) = (zs.filter (· ∉ ys)).filter (· ∉ xs) := by
    rw [List.filter_filter]
    refine List.filter_congr fun z _ => ?_
    simp [mem_joinNames]
  unfold joinNames at hzs ⊢
  rw [hzs, List.filter_append, List.append_assoc]

variable (f : Option α → α → α)

/-- What two tables hold under one name, made into one value: `f` is told whether there is an own
value for the other one to go to. -/
def joinAt (own : Option α) : Option α → Option α
  | none => own
  | some v => some (f own v)

/-- Two tables in one, own names first. -/
def joinWith (own theirs : Dict α) : Dict α :=
  own.map (fun e => (e.1, (joinAt f (some e.2) (get? theirs e.1)).getD e.2)) ++
    (theirs.filter fun e => e.1 ∉ keys own).map fun e => (e.1, f none e.2)

theorem keys_joinWith (own theirs : Dict α) :
    keys (joinWith f own theirs) = joinNames (keys own) (keys theirs) := by
  simp only [joinWith, keys, joinNames, List.map_append, List.map_map, List.filter_map]
  rfl

theorem get?_joinWith (own theirs : Dict α) (key : String) :
    get? (joinWith f own theirs) key = joinAt f (get? own key) (get? theirs key) := by
  have hown := get?_mapEntries (fun k v => (joinAt f (some v) (get? theirs k)).getD v) own key
  have htheirs := get?_mapValues (f none) (theirs.filter fun e => e.1 ∉ keys own) key
  have hfilter := get?_filter_keys (fun k => k ∉ keys own) theirs key
  rw [joinWith, get?_append, hown]
  rw [mapValues] at htheirs
  rw [htheirs, hfilter]
  cases hmine : get? own key with
  | none =>
      rw [get?_eq_none_iff] at hmine
      cases get? theirs key <;> simp [hmine, joinAt]
  | some mine => cases get? theirs key <;> simp [joinAt]

theorem nodup_keys_joinWith {own theirs : Dict α} (hown : (keys own).Nodup)
    (htheirs : (keys theirs).Nodup) : (keys (joinWith f own theirs)).Nodup := by
  rw [keys_joinWith]
  exact nodup_joinNames hown htheirs

/-- Tables are joined alike from both ends when values are. -/
theorem joinWith_assoc {a b c : Dict α} (ha : (keys a).Nodup) (hb : (keys b).Nodup)
    (hc : (keys c).Nodup)
    (h : ∀ key, joinAt f (joinAt f (get? a key) (get? b key)) (get? c key) =
      joinAt f (get? a key) (joinAt f (get? b key) (get? c key))) :
    joinWith f (joinWith f a b) c = joinWith f a (joinWith f b c) := by
  refine ext_get? (nodup_keys_joinWith f (nodup_keys_joinWith f ha hb) hc) ?_ fun key => ?_
  · simp only [keys_joinWith, joinNames_assoc]
  · simp only [get?_joinWith, h]

theorem joinWith_nil (d : Dict α) : joinWith f d [] = d := by
  simp [joinWith, joinAt]

/-- The empty table takes another one over when its values are taken over as they are. -/
theorem nil_joinWith {d : Dict α} (h : ∀ e ∈ d, f none e.2 = e.2) : joinWith f [] d = d := by
  have hd : d.map (fun e => (e.1, f none e.2)) = d := by
    refine (List.map_congr_left fun e he => ?_).trans (List.map_id d)
    rw [h e he]
    rfl
  simpa [joinWith] using hd

end Dict

namespace OpenApi

/-! ### Agreement -/

/-- Two values agree when one is missing or both are the same. -/
def Agrees {α : Type} [BEq α] (x y : Option α) : Prop :=
  ∀ u v, x = some u → y = some v → (u == v) = true

section Agrees

variable {α : Type} [BEq α]

@[simp] theorem agrees_none_left (y : Option α) : Agrees none y := fun _ _ hu => nomatch hu

@[simp] theorem agrees_none_right (x : Option α) : Agrees x none := fun _ _ _ hv => nomatch hv

@[simp] theorem agrees_some {u v : α} : Agrees (some u) (some v) ↔ (u == v) = true := by
  simp [Agrees]

/-- A third value can join two that agree from either end. -/
theorem agrees_or_iff {x y z : Option α}
    (symm : ∀ u v, x = some u → y = some v → (u == v) = true → (v == u) = true)
    (trans : ∀ u v w : α, (u == v) = true → (v == w) = true → (u == w) = true) :
    Agrees x y ∧ Agrees (x.or y) z ↔ Agrees y z ∧ Agrees x (y.or z) := by
  cases x with
  | none => simp
  | some u =>
      cases y with
      | none => simp
      | some v =>
          cases z with
          | none => simp
          | some w =>
              rw [Option.some_or, Option.some_or, agrees_some, agrees_some, agrees_some]
              constructor
              · rintro ⟨huv, huw⟩
                exact ⟨trans v u w (symm u v rfl rfl huv) huw, huv⟩
              · rintro ⟨hvw, huv⟩
                exact ⟨huv, trans u v w huv hvw⟩

end Agrees

theorem header_symm {h h' : Header} (hh : ∀ s, h.schema = some s → s.Keyed)
    (hh' : ∀ s, h'.schema = some s → s.Keyed) (hsame : (h == h') = true) : (h' == h) = true := by
  obtain ⟨hdescription, hrequired, hschema⟩ := header_beq_iff.mp hsame
  exact header_beq_iff.mpr ⟨hdescription.symm, hrequired.symm, schemaRel_symm hh hh' hschema⟩

theorem header_trans {h h' h'' : Header} (hsame : (h == h') = true) (hsame' : (h' == h'') = true) :
    (h == h'') = true := by
  obtain ⟨hdescription, hrequired, hschema⟩ := header_beq_iff.mp hsame
  obtain ⟨hdescription', hrequired', hschema'⟩ := header_beq_iff.mp hsame'
  exact header_beq_iff.mpr ⟨hdescription.trans hdescription', hrequired.trans hrequired',
    schemaRel_trans hschema hschema'⟩

namespace Response

/-- Two responses agree: on each header that both have, and on the schema of each mimetype for
which both have one. -/
structure Agree (own theirs : Response) : Prop where
  headers : ∀ name, Agrees (Dict.get? own.headers name) (Dict.get? theirs.headers name)
  schemas : ∀ mimetype, Agrees (schemaAt own.content mimetype) (schemaAt theirs.content mimetype)

section

variable {a b : Response}

theorem Keyed.headerSchema (h : a.Keyed) {name : String} {header : Header}
    (hheader : Dict.get? a.headers name = some header) :
    ∀ s, header.schema = some s → s.Keyed :=
  h.headerSchemas _ (Dict.mem_of_get? hheader)

theorem Keyed.schemaAt (h : a.Keyed) {mimetype : String} {s : Schema}
    (hs : schemaAt a.content mimetype = some s) : s.Keyed := by
  obtain ⟨media, hmedia, hschema⟩ := Option.bind_eq_some_iff.mp hs
  exact h.schemas _ (Dict.mem_of_get? hmedia) s hschema

/-- Agreement is mutual. -/
theorem Agree.symm (ha : a.Keyed) (hb : b.Keyed) (h : a.Agree b) : b.Agree a where
  headers := fun name _ _ hy hx =>
    header_symm (ha.headerSchema hx) (hb.headerSchema hy) (h.headers name _ _ hx hy)
  schemas := fun mimetype _ _ hy hx =>
    Schema.same_symm (ha.schemaAt hx) (hb.schemaAt hy) (h.schemas mimetype _ _ hx hy)

/-- Two responses can be merged exactly when they agree. -/
theorem merged_isOk_iff_agree (hb : b.Keyed) : (∃ r, a.merged b = .ok r) ↔ a.Agree b := by
  rw [merged_isOk_iff hb.headers hb.content]
  constructor
  · rintro ⟨hh, hs⟩
    refine ⟨fun name u v hu hv => hh _ (Dict.mem_of_get? hv) u hu, ?_⟩
    intro mimetype s t hs' ht
    obtain ⟨media, hmedia, hschema⟩ := Option.bind_eq_some_iff.mp ht
    exact hs _ (Dict.mem_of_get? hmedia) s t hs' hschema
  · rintro ⟨hh, hs⟩
    refine ⟨fun e he mine hmine => hh e.1 _ _ hmine (Dict.get?_of_mem hb.headers he), ?_⟩
    intro e he s t hs' ht
    refine hs e.1 s t hs' ?_
    rw [OpenApi.schemaAt, Dict.get?_of_mem hb.content he, Option.bind_some, ht]

end

end Response

/-! ### Content under one mimetype -/

namespace MediaType

/-- What stands under a mimetype already absorbs what is said about it, starting from nothing. -/
def absorbInto (own : Option MediaType) (theirs : MediaType) : MediaType :=
  (own.getD {}).absorb theirs

/-- Examples do not touch the schema. -/
theorem absorb_schema (own theirs : MediaType) :
    (own.absorb theirs).schema = own.schema.or theirs.schema := by
  have hpush : ∀ (es : List Example) (media : MediaType),
      (es.foldl pushExample media).schema = media.schema := by
    intro es
    induction es with
    | nil => exact fun media => rfl
    | cons e es ih => exact fun media => ih _
  exact hpush _ _

/-- The examples are counted from one. -/
def Counted (media : MediaType) : Prop := ∃ es, media.examples = numbered es

theorem absorb_counted (s t : Option Schema) (es new : List Example) :
    (⟨s, numbered es⟩ : MediaType).absorb ⟨t, numbered new⟩ = ⟨s.or t, numbered (es ++ new)⟩ :=
  Response.absorb_numbered rfl rfl

theorem absorb_nothing (t : Option Schema) (new : List Example) :
    ({} : MediaType).absorb ⟨t, numbered new⟩ = ⟨t, numbered new⟩ :=
  absorb_counted none t [] new

/-- Counted content absorbs counted content. -/
theorem Counted.joinAt {x y : Option MediaType} (hx : ∀ m, x = some m → m.Counted)
    (hy : ∀ m, y = some m → m.Counted) :
    ∀ m, Dict.joinAt absorbInto x y = some m → m.Counted := by
  intro m hm
  cases y with
  | none => exact hx m hm
  | some theirs =>
      have hown : (x.getD {}).Counted := by
        cases x with
        | none => exact ⟨[], rfl⟩
        | some own => exact hx own rfl
      obtain ⟨es, hes⟩ := hown
      obtain ⟨new, hnew⟩ := hy theirs rfl
      rw [← Option.some.inj hm, absorbInto, Response.absorb_numbered hes hnew]
      exact ⟨es ++ new, rfl⟩

/-- Content that is counted is absorbed alike from both ends. -/
theorem absorbInto_assoc {x y z : Option MediaType} (hx : ∀ m, x = some m → m.Counted)
    (hy : ∀ m, y = some m → m.Counted) (hz : ∀ m, z = some m → m.Counted) :
    Dict.joinAt absorbInto (Dict.joinAt absorbInto x y) z =
      Dict.joinAt absorbInto x (Dict.joinAt absorbInto y z) := by
  have hform : ∀ m : MediaType, m.Counted → ∃ s es, m = ⟨s, numbered es⟩ := by
    rintro ⟨s, examples⟩ ⟨es, hes⟩
    exact ⟨s, es, by rw [← hes]⟩
  cases z with
  | none => rfl
  | some mz =>
      obtain ⟨u, es'', rfl⟩ := hform mz (hz mz rfl)
      cases y with
      | none => simp [Dict.joinAt, absorbInto, absorb_nothing]
      | some my =>
          obtain ⟨t, es', rfl⟩ := hform my (hy my rfl)
          cases x with
          | none => simp [Dict.joinAt, absorbInto, absorb_nothing, absorb_counted]
          | some mx =>
              obtain ⟨s, es, rfl⟩ := hform mx (hx mx rfl)
              simp [Dict.joinAt, absorbInto, absorb_counted, Option.or_assoc, List.append_assoc]

end MediaType

namespace Response

/-! ### What a merge yields -/

/-- Two responses in one, whether they agree or not. -/
def join (own theirs : Response) : Response where
  description := if own.description.isEmpty then theirs.description else own.description
  headers := Dict.joinWith (fun mine theirs => mine.getD theirs) own.headers theirs.headers
  content := Dict.joinWith MediaType.absorbInto own.content theirs.content

theorem keys_mergeHeaders {own theirs : Dict Header} (hnodup : (Dict.keys theirs).Nodup)
    (h : (mergeHeaders own theirs).2 = .ok ()) :
    Dict.keys (mergeHeaders own theirs).1 = Dict.joinNames (Dict.keys own) (Dict.keys theirs) := by
  induction theirs generalizing own with
  | nil => simp [mergeHeaders, Dict.joinNames]
  | cons e rest ih =>
      obtain ⟨name, header⟩ := e
      rw [Dict.keys_cons, List.nodup_cons] at hnodup
      rw [Dict.keys_cons, ← Dict.joinNames_cons hnodup.1]
      rw [mergeHeaders] at h ⊢
      cases hmine : Dict.get? own name with
      | none =>
          simp only [hmine] at h ⊢
          rw [ih hnodup.2 h, Dict.keys_insert]
      | some mine =>
          simp only [hmine] at h ⊢
          split at h
          · rename_i hsame
            rw [if_pos hsame, ih hnodup.2 h, if_pos (Dict.mem_keys_of_get? hmine)]
          · cases h

theorem keys_mergeContent {own theirs : Dict MediaType} (hnodup : (Dict.keys theirs).Nodup)
    (h : (mergeContent own theirs).2 = .ok ()) :
    Dict.keys (mergeContent own theirs).1 = Dict.joinNames (Dict.keys own) (Dict.keys theirs) := by
  induction theirs generalizing own with
  | nil => simp [mergeContent, Dict.joinNames]
  | cons e rest ih =>
      obtain ⟨name, media⟩ := e
      rw [Dict.keys_cons, List.nodup_cons] at hnodup
      rw [Dict.keys_cons, ← Dict.joinNames_cons hnodup.1]
      rw [mergeContent] at h ⊢
      split at h
      · cases h
      · rename_i hclash
        rw [if_neg hclash, ih hnodup.2 h, Dict.keys_insert]

theorem mergeHeaders_eq_joinWith {own theirs : Dict Header} (hown : (Dict.keys own).Nodup)
    (hnodup : (Dict.keys theirs).Nodup) (h : (mergeHeaders own theirs).2 = .ok ()) :
    (mergeHeaders own theirs).1 =
      Dict.joinWith (fun mine theirs => mine.getD theirs) own theirs := by
  refine Dict.ext_get? (nodup_keys_mergeHeaders hown) ?_ fun name => ?_
  · rw [keys_mergeHeaders hnodup h, Dict.keys_joinWith]
  · rw [get?_mergeHeaders h, Dict.get?_joinWith]
    cases Dict.get? own name <;> cases Dict.get? theirs name <;> rfl

theorem mergeContent_eq_joinWith {own theirs : Dict MediaType} (hown : (Dict.keys own).Nodup)
    (hnodup : (Dict.keys theirs).Nodup) (h : (mergeContent own theirs).2 = .ok ()) :
    (mergeContent own theirs).1 = Dict.joinWith MediaType.absorbInto own theirs := by
  refine Dict.ext_get? (nodup_keys_mergeContent hown) ?_ fun name => ?_
  · rw [keys_mergeContent hnodup h, Dict.keys_joinWith]
  · rw [get?_mergeContent hnodup h, Dict.get?_joinWith]
    cases Dict.get? theirs name <;> rfl

/-! ### The laws -/

/-- A response with distinct keys in all of its tables, the examples of each mimetype being counted
from one. -/
structure Counted (r : Response) : Prop where
  keyed : r.Keyed
  numbered : Numbered r.content

section Laws

variable {a b c : Response}

/-- **A merge taken apart**: it goes through when the two sides agree, and yields both in one. -/
theorem merged_eq_ok_iff (ha : a.Keyed) (hb : b.Keyed) {r : Response} :
    a.merged b = .ok r ↔ a.Agree b ∧ a.join b = r := by
  have hyield : ∀ r, a.merged b = .ok r → a.join b = r := by
    intro r h
    obtain ⟨hheaders, hcontent, rfl⟩ := merged_eq_ok.mp h
    rw [mergeHeaders_eq_joinWith ha.headers hb.headers hheaders,
      mergeContent_eq_joinWith ha.content hb.content hcontent]
    rfl
  rw [← merged_isOk_iff_agree hb]
  constructor
  · exact fun h => ⟨⟨r, h⟩, hyield r h⟩
  · rintro ⟨⟨r', h⟩, rfl⟩
    rwa [hyield r' h]

theorem get?_join_headers (a b : Response) (name : String) :
    Dict.get? (a.join b).headers name =
      (Dict.get? a.headers name).or (Dict.get? b.headers name) := by
  rw [join, Dict.get?_joinWith]
  cases Dict.get? a.headers name <;> cases Dict.get? b.headers name <;> rfl

theorem schemaAt_join (a b : Response) (mimetype : String) :
    schemaAt (a.join b).content mimetype =
      (schemaAt a.content mimetype).or (schemaAt b.content mimetype) := by
  rw [schemaAt, join, Dict.get?_joinWith, schemaAt, schemaAt]
  cases Dict.get? a.content mimetype <;> cases Dict.get? b.content mimetype <;>
    simp [Dict.joinAt, MediaType.absorbInto, MediaType.absorb_schema]

/-- What is counted stays so. -/
theorem Counted.join (ha : a.Counted) (hb : b.Counted) : (a.join b).Counted := by
  have hnumbered : Numbered (a.join b).content := by
    intro name media hmedia
    rw [Response.join, Dict.get?_joinWith] at hmedia
    exact MediaType.Counted.joinAt (ha.numbered name) (hb.numbered name) media hmedia
  have hheaders : (Dict.keys (a.join b).headers).Nodup :=
    Dict.nodup_keys_joinWith _ ha.keyed.headers hb.keyed.headers
  have hcontent : (Dict.keys (a.join b).content).Nodup :=
    Dict.nodup_keys_joinWith _ ha.keyed.content hb.keyed.content
  refine ⟨⟨hheaders, ?_, hcontent, ?_, ?_⟩, hnumbered⟩
  · intro e he s hs
    have hget := Dict.get?_of_mem hheaders he
    rw [get?_join_headers, Option.or_eq_some_iff] at hget
    rcases hget with hget | ⟨-, hget⟩
    · exact ha.keyed.headerSchema hget s hs
    · exact hb.keyed.headerSchema hget s hs
  · intro e he s hs
    have hget : schemaAt (a.join b).content e.1 = some s := by
      rw [schemaAt, Dict.get?_of_mem hcontent he, Option.bind_some, hs]
    rw [schemaAt_join, Option.or_eq_some_iff] at hget
    rcases hget with hget | ⟨-, hget⟩
    · exact ha.keyed.schemaAt hget
    · exact hb.keyed.schemaAt hget
  · intro e he
    obtain ⟨es, hes⟩ := hnumbered e.1 e.2 (Dict.get?_of_mem hcontent he)
    rw [hes]
    exact nodup_keys_numbered es

/-- Three responses agree from the left when they do from the right. -/
theorem agree_join_iff (ha : a.Keyed) (hb : b.Keyed) :
    a.Agree b ∧ (a.join b).Agree c ↔ b.Agree c ∧ a.Agree (b.join c) := by
  have hheaders : ∀ name, Agrees (Dict.get? a.headers name) (Dict.get? b.headers name) ∧
        Agrees (Dict.get? (a.join b).headers name) (Dict.get? c.headers name) ↔
      Agrees (Dict.get? b.headers name) (Dict.get? c.headers name) ∧
        Agrees (Dict.get? a.headers name) (Dict.get? (b.join c).headers name) := by
    intro name
    rw [get?_join_headers, get?_join_headers]
    exact agrees_or_iff
      (fun _ _ hu hv => header_symm (ha.headerSchema hu) (hb.headerSchema hv))
      (fun _ _ _ => header_trans)
  have hschemas : ∀ mimetype,
      Agrees (schemaAt a.content mimetype) (schemaAt b.content mimetype) ∧
        Agrees (schemaAt (a.join b).content mimetype) (schemaAt c.content mimetype) ↔
      Agrees (schemaAt b.content mimetype) (schemaAt c.content mimetype) ∧
        Agrees (schemaAt a.content mimetype) (schemaAt (b.join c).content mimetype) := by
    intro mimetype
    rw [schemaAt_join, schemaAt_join]
    exact agrees_or_iff
      (fun _ _ hu hv => Schema.same_symm (ha.schemaAt hu) (hb.schemaAt hv))
      (fun _ _ _ => Schema.same_trans)
  constructor
  · rintro ⟨⟨hh, hs⟩, ⟨hh', hs'⟩⟩
    exact ⟨⟨fun name => ((hheaders name).mp ⟨hh name, hh' name⟩).1,
        fun mimetype => ((hschemas mimetype).mp ⟨hs mimetype, hs' mimetype⟩).1⟩,
      ⟨fun name => ((hheaders name).mp ⟨hh name, hh' name⟩).2,
        fun mimetype => ((hschemas mimetype).mp ⟨hs mimetype, hs' mimetype⟩).2⟩⟩
  · rintro ⟨⟨hh, hs⟩, ⟨hh', hs'⟩⟩
    exact ⟨⟨fun name => ((hheaders name).mpr ⟨hh name, hh' name⟩).1,
        fun mimetype => ((hschemas mimetype).mpr ⟨hs mimetype, hs' mimetype⟩).1⟩,
      ⟨fun name => ((hheaders name).mpr ⟨hh name, hh' name⟩).2,
        fun mimetype => ((hschemas mimetype).mpr ⟨hs mimetype, hs' mimetype⟩).2⟩⟩

theorem join_assoc (ha : a.Counted) (hb : b.Counted) (hc : c.Counted) :
    (a.join b).join c = a.join (b.join c) := by
  have hdescription : ((a.join b).join c).description = (a.join (b.join c)).description := by
    show (if (if a.description.isEmpty then b.description else a.description).isEmpty
        then c.description else if a.description.isEmpty then b.description else a.description) =
      if a.description.isEmpty then (if b.description.isEmpty then c.description else b.description)
        else a.description
    by_cases hempty : a.description.isEmpty = true
    · simp only [hempty, if_true]
    · simp only [hempty, Bool.false_eq_true, if_false]
  have hheaders : ((a.join b).join c).headers = (a.join (b.join c)).headers := by
    refine Dict.joinWith_assoc _ ha.keyed.headers hb.keyed.headers hc.keyed.headers fun name => ?_
    cases Dict.get? a.headers name <;> cases Dict.get? b.headers name <;>
      cases Dict.get? c.headers name <;> rfl
  have hcontent : ((a.join b).join c).content = (a.join (b.join c)).content :=
    Dict.joinWith_assoc _ ha.keyed.content hb.keyed.content hc.keyed.content fun name =>
      MediaType.absorbInto_assoc (ha.numbered name) (hb.numbered name) (hc.numbered name)
  exact (Response.mk.injEq ..).mpr ⟨hdescription, hheaders, hcontent⟩

theorem join_empty (a : Response) : a.join {} = a := by
  have hdescription : (if a.description.isEmpty then "" else a.description) = a.description := by
    by_cases hempty : a.description.isEmpty = true
    · rw [if_pos hempty, String.isEmpty_iff.mp hempty]
    · rw [if_neg hempty]
  show (⟨if a.description.isEmpty then "" else a.description, Dict.joinWith _ a.headers [],
    Dict.joinWith _ a.content []⟩ : Response) = a
  rw [hdescription, Dict.joinWith_nil, Dict.joinWith_nil]

theorem empty_join (ha : a.Counted) : ({} : Response).join a = a := by
  have hheaders : Dict.joinWith (fun (mine : Option Header) theirs => mine.getD theirs)
      [] a.headers = a.headers := Dict.nil_joinWith _ fun _ _ => rfl
  have hcontent : Dict.joinWith MediaType.absorbInto [] a.content = a.content := by
    refine Dict.nil_joinWith _ fun e he => ?_
    obtain ⟨es, hes⟩ := ha.numbered e.1 e.2 (Dict.get?_of_mem ha.keyed.content he)
    obtain ⟨name, s, examples⟩ := e
    rw [show examples = numbered es from hes]
    exact MediaType.absorb_nothing s es
  show (⟨a.description, Dict.joinWith _ [] a.headers, Dict.joinWith _ [] a.content⟩ : Response) = a
  rw [hheaders, hcontent]

/-- A merge of three from the left. -/
theorem merged_left_iff (ha : a.Counted) (hb : b.Counted) (hc : c.Counted) {r : Response} :
    (a.merged b >>= fun ab => ab.merged c) = .ok r ↔
      (a.Agree b ∧ (a.join b).Agree c) ∧ (a.join b).join c = r := by
  rw [bind_eq_ok]
  constructor
  · rintro ⟨ab, hab, h⟩
    obtain ⟨hagree, rfl⟩ := (merged_eq_ok_iff ha.keyed hb.keyed).mp hab
    obtain ⟨hagree', hr⟩ := (merged_eq_ok_iff (ha.join hb).keyed hc.keyed).mp h
    exact ⟨⟨hagree, hagree'⟩, hr⟩
  · rintro ⟨⟨hagree, hagree'⟩, hr⟩
    exact ⟨a.join b, (merged_eq_ok_iff ha.keyed hb.keyed).mpr ⟨hagree, rfl⟩,
      (merged_eq_ok_iff (ha.join hb).keyed hc.keyed).mpr ⟨hagree', hr⟩⟩

/-- A merge of three from the right. -/
theorem merged_right_iff (ha : a.Counted) (hb : b.Counted) (hc : c.Counted) {r : Response} :
    (b.merged c >>= fun bc => a.merged bc) = .ok r ↔
      (b.Agree c ∧ a.Agree (b.join c)) ∧ a.join (b.join c) = r := by
  rw [bind_eq_ok]
  constructor
  · rintro ⟨bc, hbc, h⟩
    obtain ⟨hagree, rfl⟩ := (merged_eq_ok_iff hb.keyed hc.keyed).mp hbc
    obtain ⟨hagree', hr⟩ := (merged_eq_ok_iff ha.keyed (hb.join hc).keyed).mp h
    exact ⟨⟨hagree, hagree'⟩, hr⟩
  · rintro ⟨⟨hagree, hagree'⟩, hr⟩
    exact ⟨b.join c, (merged_eq_ok_iff hb.keyed hc.keyed).mpr ⟨hagree, rfl⟩,
      (merged_eq_ok_iff ha.keyed (hb.join hc).keyed).mpr ⟨hagree', hr⟩⟩

theorem counted_empty : ({} : Response).Counted where
  keyed := ⟨List.nodup_nil, by simp, List.nodup_nil, by simp, by simp⟩
  numbered := fun _ _ h => nomatch h

theorem empty_agree (a : Response) : ({} : Response).Agree a where
  headers := fun _ => agrees_none_left _
  schemas := fun _ => agrees_none_left _

theorem agree_empty (a : Response) : a.Agree {} where
  headers := fun _ => agrees_none_right _
  schemas := fun _ => agrees_none_right _

end Laws

/-- **Merging responses is a partial monoid.**  Three responses can be merged from the left exactly
when they can be merged from the right, and then into the same; the empty response changes nothing
on either side; and two responses can be merged in one order exactly when they can in the other,
which is when they agree. -/
theorem merged_partial_monoid {a b c : Response} (ha : a.Counted) (hb : b.Counted)
    (hc : c.Counted) :
    (∀ r, (a.merged b >>= fun ab => ab.merged c) = .ok r ↔
      (b.merged c >>= fun bc => a.merged bc) = .ok r) ∧
    (({} : Response).merged a = .ok a ∧ a.merged {} = .ok a) ∧
    ((∃ r, a.merged b = .ok r) ↔ ∃ r, b.merged a = .ok r) ∧
    ((∃ r, a.merged b = .ok r) ↔ a.Agree b) := by
  refine ⟨fun r => ?_, ⟨?_, ?_⟩, ?_, merged_isOk_iff_agree hb.keyed⟩
  · rw [merged_left_iff ha hb hc, merged_right_iff ha hb hc, agree_join_iff ha.keyed hb.keyed,
      join_assoc ha hb hc]
  · exact (merged_eq_ok_iff counted_empty.keyed ha.keyed).mpr ⟨empty_agree a, empty_join ha⟩
  · exact (merged_eq_ok_iff ha.keyed counted_empty.keyed).mpr ⟨agree_empty a, join_empty a⟩
  · rw [merged_isOk_iff_agree hb.keyed, merged_isOk_iff_agree ha.keyed]
    exact ⟨Agree.symm ha.keyed hb.keyed, Agree.symm hb.keyed ha.keyed⟩

/-- Pets in one format, with a header and a schema. -/
def petList : Response where
  headers := [("X-Rate", { schema := some (.named "string") })]
  content := [("application/json", ⟨some (.named "array"), numbered [{ value := some "[]" }]⟩)]

/-- A word on them, with samples of two formats and no schema. -/
def petSamples : Response where
  description := "pets"
  content := [("text/plain", ⟨none, numbered [{ value := some "none" }]⟩),
    ("application/json", ⟨none, numbered [{ value := some "[1]" }]⟩)]

/-- Pets in the other format, with the same header and another one. -/
def petNames : Response where
  description := "names of pets"
  headers := [("X-Next", {}), ("X-Rate", { schema := some (.named "string") })]
  content := [("text/plain", ⟨some (.named "string"), numbered [{ value := some "tom" }]⟩)]

theorem keyed_named (name : String) : (Schema.named name).Keyed :=
  Schema.keyed_iff.mpr ⟨by simp [Schema.named], by simp [Schema.named]⟩

/-- A response whose schemas are bare names. -/
theorem counted_of_named {r : Response} (hheaders : (Dict.keys r.headers).Nodup)
    (hcontent : (Dict.keys r.content).Nodup)
    (hnamed : ∀ e ∈ r.headers, ∀ s, e.2.schema = some s → ∃ name, s = .named name)
    (hnamed' : ∀ e ∈ r.content, ∀ s, e.2.schema = some s → ∃ name, s = .named name)
    (hexamples : ∀ e ∈ r.content, ∃ es, e.2.examples = numbered es) : r.Counted := by
  refine ⟨⟨hheaders, fun e he s hs => ?_, hcontent, fun e he s hs => ?_, fun e he => ?_⟩,
    fun name media hmedia => hexamples _ (Dict.mem_of_get? hmedia)⟩
  · obtain ⟨name, rfl⟩ := hnamed e he s hs
    exact keyed_named name
  · obtain ⟨name, rfl⟩ := hnamed' e he s hs
    exact keyed_named name
  · obtain ⟨es, hes⟩ := hexamples e he
    rw [hes]
    exact nodup_keys_numbered es

theorem counted_petList : petList.Counted :=
  counted_of_named (by decide) (by decide) (by simp [petList]) (by simp [petList])
    (by simp [petList])

theorem counted_petSamples : petSamples.Counted :=
  counted_of_named (by decide) (by decide) (by simp [petSamples]) (by simp [petSamples])
    (by simp [petSamples])

theorem counted_petNames : petNames.Counted :=
  counted_of_named (by decide) (by decide) (by simp [petNames]) (by simp [petNames])
    (by simp [petNames])

theorem merged_pets :
    petList.Counted ∧ petSamples.Counted ∧ petNames.Counted ∧
      (petSamples.merged petNames >>= fun others => petList.merged others) = .ok
        { description := "pets"
          headers := [("X-Rate", { schema := some (.named "string") }), ("X-Next", {})]
          content := [
            ("application/json", ⟨some (.named "array"),
              [("example1", { value := some "[]" }), ("example2", { value := some "[1]" })]⟩),
            ("text/plain", ⟨some (.named "string"),
              [("example1", { value := some "none" }),
                ("example2", { value := some "tom" })]⟩)] } := by
  refine ⟨counted_petList, counted_petSamples, counted_petNames, ?_⟩
  exact ((merged_partial_monoid counted_petList counted_petSamples counted_petNames).1 _).mp rfl

end Response

end OpenApi

end ApiNotes
