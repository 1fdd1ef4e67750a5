/-
When merged examples add up.

An example goes under the key that follows from the number of examples so far.  Where the
examples were counted from one that key is free, but a response that was read may have any
keys.  If the key is taken, the example there is replaced, the number stays as it was, and
so does the key: all further examples go to the same place.  So examples add up exactly when
all the keys that will be counted through are free from the start.
-/
import ApiNotes.Proofs.MergeLaws

namespace ApiNotes.OpenApi

/-! ### Pushing examples -/

/-- Examples written one after another, each under the key that follows from their number. -/
def pushAll (d : Dict Example) (es : List Example) : Dict Example :=
  es.foldl (fun d e => Dict.insert d (exampleKey (d.length + 1)) e) d

/-- The keys that the next `n` examples are counted through are free. -/
def KeysFree (d : Dict Example) (n : Nat) : Prop :=
  ∀ i < n, exampleKey (d.length + i + 1) ∉ Dict.keys d

instance (d : Dict Example) (n : Nat) : Decidable (KeysFree d n) :=
  inferInstanceAs (Decidable (∀ i < n, _))

/-- What is made of two tables of examples keeps the own ones, and holds as many as both. -/
structure Accumulates (own theirs merged : Dict Example) : Prop where
  kept : ∀ key e, Dict.get? own key = some e → Dict.get? merged key = some e
  count : merged.length = own.length + theirs.length

section Push

variable {d : Dict Example}

theorem length_keys (d : Dict Example) : (Dict.keys d).length = d.length := List.length_map _

/-- A free key is one of those that are counted through, and leaves the others free. -/
theorem keysFree_succ_iff {n : Nat} (e : Example) :
    KeysFree d (n + 1) ↔ exampleKey (d.length + 1) ∉ Dict.keys d ∧
      KeysFree (d ++ [(exampleKey (d.length + 1), e)]) n := by
  have hkeys : Dict.keys (d ++ [(exampleKey (d.length + 1), e)]) =
      Dict.keys d ++ [exampleKey (d.length + 1)] := List.map_append
  constructor
  · intro h
    refine ⟨h 0 (by omega), fun i hi hmem => ?_⟩
    rw [hkeys, List.mem_append, List.mem_singleton, List.length_append,
      List.length_singleton] at hmem
    rcases hmem with hmem | heq
    · have hfree := h (i + 1) (by omega)
      rw [show d.length + (i + 1) + 1 = d.length + 1 + i + 1 by omega] at hfree
      exact hfree hmem
    · have := exampleKey_inj heq
      omega
  · rintro ⟨hfirst, hrest⟩ i hi
    cases i with
    | zero => exact hfirst
    | succ i =>
        have hfree := hrest i (by omega)
        rw [hkeys, List.mem_append, not_or, List.length_append, List.length_singleton] at hfree
        rw [show d.length + (i + 1) + 1 = d.length + 1 + i + 1 by omega]
        exact hfree.1

/-- Where the next key is free, the next example goes to the end. -/
theorem pushAll_cons_of_free (h : exampleKey (d.length + 1) ∉ Dict.keys d) (e : Example)
    (es : List Example) :
    pushAll d (e :: es) = pushAll (d ++ [(exampleKey (d.length + 1), e)]) es := by
  rw [pushAll, List.foldl_cons, Dict.insert_of_not_mem h]
  rfl

/-- Where the keys are free the examples go behind the own ones. -/
theorem pushAll_of_free {es : List Example} (h : KeysFree d es.length) :
    pushAll d es = d ++ es.mapIdx fun i e => (exampleKey (d.length + i + 1), e) := by
  induction es generalizing d with
  | nil => simp [pushAll]
  | cons e es ih =>
      obtain ⟨hfree, hrest⟩ := (keysFree_succ_iff e).mp h
      rw [pushAll_cons_of_free hfree, ih hrest, List.mapIdx_cons, List.append_assoc, List.singleton_append]
      simp only [List.length_append, List.length_singleton, Nat.add_zero]
      congr 3
      funext i e'
      rw [show d.length + 1 + i + 1 = d.length + (i + 1) + 1 by omega]

/-- Where the next key is taken, no example adds anything. -/
theorem keys_pushAll_of_taken (es : List Example) :
    ∀ {d : Dict Example}, exampleKey (d.length + 1) ∈ Dict.keys d →
      Dict.keys (pushAll d es) = Dict.keys d := by
  induction es with
  | nil => intro d _; rfl
  | cons e es ih =>
      intro d h
      have hkeys : Dict.keys (Dict.insert d (exampleKey (d.length + 1)) e) = Dict.keys d := by
        rw [Dict.keys_insert, if_pos h]
      have hlength : (Dict.insert d (exampleKey (d.length + 1)) e).length = d.length := by
        rw [← length_keys, hkeys, length_keys]
      show Dict.keys (pushAll (Dict.insert d (exampleKey (d.length + 1)) e) es) = _
      rw [ih (by rw [hkeys, hlength]; exact h), hkeys]

/-- Examples add up exactly when the keys that they are counted through are free. -/
theorem length_pushAll_iff {es : List Example} :
    (pushAll d es).length = d.length + es.length ↔ KeysFree d es.length := by
  induction es generalizing d with
  | nil => exact iff_of_true rfl fun i hi => absurd hi (Nat.not_lt_zero i)
  | cons e es ih =>
      rw [List.length_cons, keysFree_succ_iff e]
      by_cases htaken : exampleKey (d.length + 1) ∈ Dict.keys d
      · refine iff_of_false (fun hlength => ?_) fun h => h.1 htaken
        rw [← length_keys, keys_pushAll_of_taken _ htaken, length_keys] at hlength
        omega
      · rw [pushAll_cons_of_free htaken, ← ih, List.length_append, List.length_singleton,
          and_iff_right htaken]
        omega

/-- No key is ever lost. -/
theorem keys_pushAll (es : List Example) : ∀ d : Dict Example,
    Dict.keys d <+: Dict.keys (pushAll d es) := by
  induction es with
  | nil => exact fun d => List.prefix_rfl
  | cons e es ih =>
      intro d
      refine List.IsPrefix.trans ?_ (ih _)
      rw [Dict.keys_insert]
      split
      · exact List.prefix_rfl
      · exact List.prefix_append _ _

/-- Own examples stay and all others are added exactly when the keys for them are free. -/
theorem accumulates_iff {theirs : Dict Example} :
    Accumulates d theirs (pushAll d (theirs.map Prod.snd)) ↔ KeysFree d theirs.length := by
  have hlength : (pushAll d (theirs.map Prod.snd)).length = d.length + theirs.length ↔
      KeysFree d theirs.length := by
    have hcount : (theirs.map Prod.snd).length = theirs.length := List.length_map _
    rw [← hcount]
    exact length_pushAll_iff
  constructor
  · exact fun h => hlength.mp h.count
  · refine fun h => ⟨fun key e he => ?_, hlength.mpr h⟩
    rw [pushAll_of_free (by rwa [List.length_map]), Dict.get?_append, he, Option.some_or]

end Push

/-! ### Merged examples -/

theorem MediaType.absorb_examples (own theirs : MediaType) :
    (own.absorb theirs).examples = pushAll own.examples (theirs.examples.map Prod.snd) := by
  have hpush : ∀ (es : List Example) (media : MediaType),
      (es.foldl pushExample media).examples = pushAll media.examples es := by
    intro es
    induction es with
    | nil => exact fun media => rfl
    | cons e es ih => exact fun media => ih _
  exact hpush _ _

namespace Response

/-- The examples of a response under a mimetype, with their keys. -/
def exampleTable (r : Response) (mimetype : String) : Dict Example :=
  ((Dict.get? r.content mimetype).getD {}).examples

/-- Under every mimetype a merge pushes the examples of the other side into the own ones. -/
theorem exampleTable_merged {a b r : Response} (hb : (Dict.keys b.content).Nodup)
    (h : a.merged b = .ok r) (mimetype : String) :
    r.exampleTable mimetype =
      pushAll (a.exampleTable mimetype) ((b.exampleTable mimetype).map Prod.snd) := by
  obtain ⟨-, hcontent, rfl⟩ := merged_eq_ok.mp h
  unfold exampleTable
  rw [get?_mergeContent hb hcontent]
  cases Dict.get? b.content mimetype with
  | none => rfl
  | some media => exact MediaType.absorb_examples _ _

/-- Where examples are counted from one, all further keys are free. -/
theorem keysFree_of_numbered {r : Response} (h : Numbered r.content) (mimetype : String) (n : Nat) :
    KeysFree (r.exampleTable mimetype) n := by
  obtain ⟨es, hes⟩ : ∃ es, r.exampleTable mimetype = numbered es := by
    unfold exampleTable
    cases hmedia : Dict.get? r.content mimetype with
    | none => exact ⟨[], rfl⟩
    | some media => exact h mimetype media hmedia
  intro i _ hmem
  rw [hes, length_numbered, mem_keys_numbered] at hmem
  obtain ⟨j, hj, hkey⟩ := hmem
  have := exampleKey_inj hkey
  omega

/-- **When merged examples add up.**  A merge that goes through loses no key of the receiver.  It
keeps the receiver's examples under a mimetype and adds all the others exactly when the keys for
them are free, as they are when the receiver's examples are counted from one. -/
theorem merged_accumulates_iff {a b r : Response} (hb : (Dict.keys b.content).Nodup)
    (h : a.merged b = .ok r) (mimetype : String) :
    Dict.keys (a.exampleTable mimetype) <+: Dict.keys (r.exampleTable mimetype) ∧
    (Accumulates (a.exampleTable mimetype) (b.exampleTable mimetype) (r.exampleTable mimetype) ↔
      KeysFree (a.exampleTable mimetype) (b.exampleTable mimetype).length) ∧
    (Numbered a.content →
      KeysFree (a.exampleTable mimetype) (b.exampleTable mimetype).length) := by
  rw [exampleTable_merged hb h mimetype]
  exact ⟨keys_pushAll _ _, accumulates_iff, fun ha => keysFree_of_numbered ha mimetype _⟩

/-- A response that was read, with one example under a key of its own. -/
def readResponse (key value : String) : Response where
  description := "pets"
  content := [("application/json", { examples := [(key, { value := some value })] })]

/-- Keys of any other kind do no harm. -/
theorem merged_readResponse_accumulates : ∃ r,
    (readResponse "tom" "a").merged (readResponse "example2" "b") = .ok r ∧
    Accumulates ((readResponse "tom" "a").exampleTable "application/json")
      ((readResponse "example2" "b").exampleTable "application/json")
      (r.exampleTable "application/json") ∧
    Dict.keys (r.exampleTable "application/json") = ["tom", "example2"] := by
  obtain ⟨r, hr, hkeys⟩ : ∃ r,
      (readResponse "tom" "a").merged (readResponse "example2" "b") = .ok r ∧
      Dict.keys (r.exampleTable "application/json") = ["tom", "example2"] := ⟨_, rfl, rfl⟩
  obtain ⟨-, hiff, -⟩ := merged_accumulates_iff (by decide) hr "application/json"
  exact ⟨r, hr, hiff.mpr (by decide), hkeys⟩

/-- An example is replaced when its key is the one that comes next. -/
theorem merged_readResponse_replaces : ∃ r,
    (readResponse "example2" "a").merged (readResponse "example1" "b") = .ok r ∧
    (readResponse "example2" "a").exampleTable "application/json" =
      [("example2", { value := some "a" })] ∧
    r.exampleTable "application/json" = [("example2", { value := some "b" })] ∧
    ¬Accumulates ((readResponse "example2" "a").exampleTable "application/json")
      ((readResponse "example1" "b").exampleTable "application/json")
      (r.exampleTable "application/json") := by
  refine ⟨_, rfl, rfl, rfl, fun h => ?_⟩
  exact absurd h.count (by decide)

end Response

end ApiNotes.OpenApi
