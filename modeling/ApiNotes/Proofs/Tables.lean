/-
Tables as functions of their keys.

A `Dict` is a list of pairs, but what the rest of the development says about it is
said through two views: the keys in order, and what `get?` finds.  As long as the keys
are distinct the two together determine the table, and sameness up to order is
agreement of the second view alone; that is `sameBy_iff`, which turns comparisons of
tables into comparisons key by key.
-/
import ApiNotes.Proofs.Checks

namespace ApiNotes.Dict

variable {α β : Type}

/-! ### Look-up and membership -/

@[simp] theorem get?_cons (k : String) (v : α) (rest : Dict α) (key : String) :
    get? ((k, v) :: rest) key = if k = key then some v else get? rest key := rfl

@[simp] theorem keys_nil : keys ([] : Dict α) = [] := rfl

@[simp] theorem keys_cons (e : String × α) (rest : Dict α) :
    keys (e :: rest) = e.1 :: keys rest := rfl

theorem mem_keys_of_mem {d : Dict α} {e : String × α} (h : e ∈ d) : e.1 ∈ keys d :=
  List.mem_map_of_mem h

theorem get?_eq_none_iff {d : Dict α} {key : String} : get? d key = none ↔ key ∉ keys d := by
  induction d with
  | nil => simp
  | cons e rest ih =>
      obtain ⟨k, v⟩ := e
      rw [get?_cons, keys_cons, List.mem_cons]
      by_cases hk : k = key
      · simp [hk]
      · rw [if_neg hk, ih]
        simp [Ne.symm hk]

theorem get?_isSome_iff {d : Dict α} {key : String} : (get? d key).isSome ↔ key ∈ keys d := by
  rw [← Option.ne_none_iff_isSome, Ne, get?_eq_none_iff, not_not]

/-- What a look-up finds stands in the table. -/
theorem mem_of_get? {d : Dict α} {key : String} {v : α} (h : get? d key = some v) :
    (key, v) ∈ d := by
  induction d with
  | nil => simp at h
  | cons e rest ih =>
      obtain ⟨k, w⟩ := e
      rw [get?_cons] at h
      by_cases hk : k = key
      · rw [if_pos hk, Option.some.injEq] at h
        rw [← hk, ← h]
        exact List.mem_cons_self
      · rw [if_neg hk] at h
        exact List.mem_cons_of_mem _ (ih h)

theorem mem_keys_of_get? {d : Dict α} {key : String} {v : α} (h : get? d key = some v) :
    key ∈ keys d := mem_keys_of_mem (mem_of_get? h)

/-- With distinct keys every entry is found. -/
theorem get?_of_mem {d : Dict α} (hd : (keys d).Nodup) {e : String × α} (h : e ∈ d) :
    get? d e.1 = some e.2 := by
  induction d with
  | nil => simp at h
  | cons e' rest ih =>
      obtain ⟨k, w⟩ := e'
      rw [keys_cons, List.nodup_cons] at hd
      rw [get?_cons]
      rcases List.mem_cons.mp h with rfl | h'
      · rw [if_pos rfl]
      · have hk : k ≠ e.1 := by
          rintro rfl
          have hmem : e.1 ∈ keys rest := mem_keys_of_mem h'
          exact hd.1 hmem
        rw [if_neg hk]
        exact ih hd.2 h'

theorem exists_get?_of_mem_keys {d : Dict α} {key : String} (h : key ∈ keys d) :
    ∃ v, get? d key = some v := Option.isSome_iff_exists.mp (get?_isSome_iff.mpr h)

/-- With distinct keys, the keys in order and the look-up make up the table. -/
theorem ext_get? {a b : Dict α} (ha : (keys a).Nodup) (hkeys : keys a = keys b)
    (h : ∀ key, get? a key = get? b key) : a = b := by
  induction a generalizing b with
  | nil =>
      have hb : b.map Prod.fst = [] := hkeys.symm
      exact (List.map_eq_nil_iff.mp hb).symm
  | cons e rest ih =>
      cases b with
      | nil => cases hkeys
      | cons e' rest' =>
          obtain ⟨k, v⟩ := e
          obtain ⟨k', v'⟩ := e'
          obtain ⟨rfl, hrest⟩ : k = k' ∧ keys rest = keys rest' := List.cons.inj hkeys
          rw [keys_cons, List.nodup_cons] at ha
          have hv := h k
          rw [get?_cons, get?_cons, if_pos rfl, if_pos rfl, Option.some.injEq] at hv
          have hothers : ∀ key, get? rest key = get? rest' key := by
            intro key
            by_cases hkey : k = key
            · subst hkey
              rw [get?_eq_none_iff.mpr ha.1, get?_eq_none_iff.mpr (hrest ▸ ha.1)]
            · have hother := h key
              rwa [get?_cons, get?_cons, if_neg hkey, if_neg hkey] at hother
          rw [hv, ih ha.2 hrest hothers]

theorem get?_append (a b : Dict α) (key : String) :
    get? (a ++ b) key = (get? a key).or (get? b key) := by
  induction a with
  | nil => rfl
  | cons e rest ih =>
      obtain ⟨k, v⟩ := e
      rw [List.cons_append, get?_cons, get?_cons, ih]
      by_cases hk : k = key
      · rw [if_pos hk, if_pos hk, Option.some_or]
      · rw [if_neg hk, if_neg hk]

/-- What was in a table before its last entry is found before it. -/
theorem get?_append_singleton (d : Dict α) (k : String) (v : α) (key : String) :
    get? (d ++ [(k, v)]) key = (get? d key).or (if k = key then some v else none) :=
  get?_append d [(k, v)] key

theorem get?_filter_keys (p : String → Bool) (d : Dict α) (key : String) :
    get? (d.filter fun e => p e.1) key = if p key then get? d key else none := by
  induction d with
  | nil => simp
  | cons e rest ih =>
      obtain ⟨k, v⟩ := e
      rw [List.filter_cons, get?_cons]
      by_cases hk : k = key
      · subst hk
        by_cases hp : p k = true
        · rw [if_pos hp, if_pos hp, get?_cons, if_pos rfl, if_pos rfl]
        · rw [if_neg hp, if_neg hp, ih, if_neg hp]
      · by_cases hp : p k = true
        · rw [if_pos hp, get?_cons, if_neg hk, if_neg hk, ih]
        · rw [if_neg hp, if_neg hk, ih]

/-! ### Writing -/

/-- A new key goes to the end. -/
theorem insert_of_not_mem {d : Dict α} {key : String} (h : key ∉ keys d) (value : α) :
    insert d key value = d ++ [(key, value)] := by
  induction d with
  | nil => rfl
  | cons e rest ih =>
      obtain ⟨k, v⟩ := e
      rw [keys_cons, List.mem_cons, not_or] at h
      rw [insert, if_neg (Ne.symm h.1), ih h.2, List.cons_append]

/-- Writing to the last key replaces the last value. -/
theorem insert_append_singleton {d : Dict α} {key : String} (h : key ∉ keys d) (old value : α) :
    insert (d ++ [(key, old)]) key value = d ++ [(key, value)] := by
  induction d with
  | nil => simp [insert]
  | cons e rest ih =>
      obtain ⟨k, v⟩ := e
      rw [keys_cons, List.mem_cons, not_or] at h
      rw [List.cons_append, insert, if_neg (Ne.symm h.1), ih h.2, List.cons_append]

theorem mem_keys_insert {d : Dict α} {key other : String} {value : α} :
    other ∈ keys (insert d key value) ↔ other ∈ keys d ∨ other = key := by
  rw [keys_insert]
  split
  · rename_i h
    exact ⟨Or.inl, fun ho => ho.elim id fun he => he ▸ h⟩
  · rw [List.mem_append, List.mem_singleton]

theorem foldl_insert_of_nodup (entries : List (String × α)) :
    ∀ d : Dict α, (keys (d ++ entries)).Nodup →
      entries.foldl (fun d e => insert d e.1 e.2) d = d ++ entries := by
  induction entries with
  | nil => intro d _; simp
  | cons e rest ih =>
      intro d h
      have hnew : e.1 ∉ keys d := by
        rw [keys, List.map_append, List.nodup_append] at h
        exact fun hmem => h.2.2 e.1 hmem e.1 (by simp) rfl
      rw [List.foldl_cons, insert_of_not_mem hnew, ih _ (by simpa using h)]
      simp

/-- Entries under distinct keys are a table already. -/
theorem ofEntries_of_nodup {entries : List (String × α)} (h : (keys entries).Nodup) :
    ofEntries entries = entries := foldl_insert_of_nodup entries [] h

/-- What is written last stays. -/
theorem insert_insert (d : Dict α) (key : String) (old value : α) :
    insert (insert d key old) key value = insert d key value := by
  induction d with
  | nil => simp [insert]
  | cons e rest ih =>
      obtain ⟨k, v⟩ := e
      by_cases h : k = key
      · simp [insert, h]
      · simp [insert, h, ih]

theorem mem_insert {d : Dict α} {key : String} {value : α} {e : String × α}
    (h : e ∈ insert d key value) : e ∈ d ∨ e = (key, value) := by
  induction d with
  | nil => exact .inr (List.mem_singleton.mp h)
  | cons first rest ih =>
      obtain ⟨k, v⟩ := first
      rw [insert] at h
      by_cases hk : k = key
      · rw [if_pos hk] at h
        rcases List.mem_cons.mp h with rfl | h
        · exact .inr (by rw [hk])
        · exact .inl (List.mem_cons_of_mem _ h)
      · rw [if_neg hk] at h
        rcases List.mem_cons.mp h with rfl | h
        · exact .inl (List.mem_cons_self ..)
        · exact (ih h).imp (List.mem_cons_of_mem _) id

/-- A table of entries holds nothing else, under distinct keys. -/
theorem ofEntries_spec (entries : List (String × α)) :
    (keys (ofEntries entries)).Nodup ∧ ∀ e ∈ ofEntries entries, e ∈ entries := by
  induction entries using List.reverseRecOn with
  | nil => exact ⟨List.nodup_nil, fun e he => he⟩
  | append_singleton entries last ih =>
      have hlast : ofEntries (entries ++ [last]) = insert (ofEntries entries) last.1 last.2 := by
        rw [ofEntries, List.foldl_append]
        rfl
      rw [hlast]
      refine ⟨nodup_keys_insert ih.1 _ _, fun e he => ?_⟩
      rcases mem_insert he with he | rfl
      · exact List.mem_append_left _ (ih.2 e he)
      · exact List.mem_append_right _ (List.mem_singleton_self _)

/-! ### Changing every value -/

@[simp] theorem keys_mapValues (f : α → β) (d : Dict α) : keys (mapValues f d) = keys d := by
  simp [keys, mapValues]

theorem get?_mapValues (f : α → β) (d : Dict α) (key : String) :
    get? (mapValues f d) key = (get? d key).map f := by
  induction d with
  | nil => rfl
  | cons e rest ih =>
      obtain ⟨k, v⟩ := e
      show get? ((k, f v) :: mapValues f rest) key = _
      rw [get?_cons, get?_cons, ih]
      split
      · rfl
      · rfl

/-- A change of every value that may look at its key. -/
theorem get?_mapEntries (f : String → α → β) (d : Dict α) (key : String) :
    get? (d.map fun e => (e.1, f e.1 e.2)) key = (get? d key).map (f key) := by
  induction d with
  | nil => rfl
  | cons e rest ih =>
      obtain ⟨k, v⟩ := e
      rw [List.map_cons, get?_cons, get?_cons, ih]
      by_cases hk : k = key
      · rw [if_pos hk, if_pos hk, hk]; rfl
      · rw [if_neg hk, if_neg hk]

theorem insert_mapValues (f : α → β) (d : Dict α) (key : String) (value : α) :
    (insert d key value).mapValues f = insert (d.mapValues f) key (f value) := by
  induction d with
  | nil => rfl
  | cons e rest ih =>
      obtain ⟨k, v⟩ := e
      show mapValues f (if k = key then (k, value) :: rest else (k, v) :: insert rest key value) =
        if k = key then (k, f value) :: mapValues f rest
        else (k, f v) :: insert (mapValues f rest) key (f value)
      by_cases h : k = key
      · rw [if_pos h, if_pos h]
        rfl
      · rw [if_neg h, if_neg h, ← ih]
        rfl

/-- A table of changed values is the table of the values, changed. -/
theorem ofEntries_map (f : α → β) (entries : List (String × α)) :
    ofEntries (entries.map fun e => (e.1, f e.2)) = (ofEntries entries).mapValues f := by
  have hfold : ∀ d : Dict α, (entries.map fun e => (e.1, f e.2)).foldl
      (fun d e => insert d e.1 e.2) (d.mapValues f) =
        (entries.foldl (fun d e => insert d e.1 e.2) d).mapValues f := by
    induction entries with
    | nil => intro d; rfl
    | cons e rest ih =>
        intro d
        rw [List.map_cons, List.foldl_cons, List.foldl_cons, ← ih, insert_mapValues]
  exact hfold []

/-! ### Sameness up to order -/

theorem sameBy_eq_true {same : α → α → Bool} {a b : Dict α} :
    sameBy same a b = true ↔
      a.length = b.length ∧ ∀ e ∈ a, ∃ v, get? b e.1 = some v ∧ same e.2 v = true := by
  rw [sameBy, Bool.and_eq_true, beq_iff_eq, List.all_eq_true]
  refine and_congr_right fun _ => forall₂_congr fun e _ => ?_
  cases get? b e.1 with
  | none => simp
  | some v => simp

/-- Tables of one length that share all keys of the first share all keys. -/
theorem keys_subset_of_length {a b : Dict α} (ha : (keys a).Nodup)
    (hlen : a.length = b.length) (hsub : keys a ⊆ keys b) : keys b ⊆ keys a := by
  have hle : (keys b).length ≤ (keys a).length := by
    simp [keys, hlen]
  exact ((List.subperm_of_subset ha hsub).perm_of_length_le hle).symm.subset

/-- Tables with distinct keys are the same when they agree key by key. -/
theorem sameBy_iff {same : α → α → Bool} {a b : Dict α} (ha : (keys a).Nodup)
    (hb : (keys b).Nodup) :
    sameBy same a b = true ↔
      ∀ key, Option.Rel (fun x y => same x y = true) (get? a key) (get? b key) := by
  rw [sameBy_eq_true]
  constructor
  · rintro ⟨hlen, hall⟩ key
    have hsub : keys a ⊆ keys b := by
      intro k hk
      obtain ⟨e, he, rfl⟩ := List.mem_map.mp hk
      obtain ⟨v, hv, -⟩ := hall e he
      exact mem_keys_of_get? hv
    cases hx : get? a key with
    | some x =>
        obtain ⟨v, hv, hsame⟩ := hall (key, x) (mem_of_get? hx)
        rw [hv]
        exact .some hsame
    | none =>
        have hy : get? b key = none := by
          rw [get?_eq_none_iff] at hx ⊢
          exact fun hmem => hx (keys_subset_of_length ha hlen hsub hmem)
        rw [hy]
        exact .none
  · intro h
    have hkeys : ∀ k, k ∈ keys a ↔ k ∈ keys b := by
      intro k
      have hk := h k
      rw [← get?_isSome_iff, ← get?_isSome_iff]
      generalize get? a k = x, get? b k = y at hk
      cases hk with
      | some _ => simp
      | none => simp
    refine ⟨?_, ?_⟩
    · have hperm : (keys a).Perm (keys b) := (List.perm_ext_iff_of_nodup ha hb).mpr hkeys
      simpa [keys] using hperm.length_eq
    · intro e he
      have hrel := h e.1
      rw [get?_of_mem ha he] at hrel
      cases hv : get? b e.1 with
      | none => rw [hv] at hrel; cases hrel
      | some v =>
          rw [hv] at hrel
          cases hrel with
          | some hsame => exact ⟨v, rfl, hsame⟩

theorem sameBy_refl {same : α → α → Bool} {d : Dict α} (hd : (keys d).Nodup)
    (h : ∀ e ∈ d, same e.2 e.2 = true) : sameBy same d d = true :=
  sameBy_eq_true.mpr ⟨rfl, fun e he => ⟨e.2, get?_of_mem hd he, h e he⟩⟩

theorem sameBy_symm {same : α → α → Bool} {a b : Dict α} (ha : (keys a).Nodup)
    (hb : (keys b).Nodup)
    (h : ∀ x ∈ a, ∀ y ∈ b, same x.2 y.2 = true → same y.2 x.2 = true)
    (hab : sameBy same a b = true) : sameBy same b a = true := by
  rw [sameBy_iff ha hb] at hab
  refine (sameBy_iff hb ha).mpr fun key => ?_
  have hkey := hab key
  cases hx : get? a key with
  | none =>
      rw [hx] at hkey
      cases hy : get? b key with
      | none => exact .none
      | some y => rw [hy] at hkey; cases hkey
  | some x =>
      rw [hx] at hkey
      cases hy : get? b key with
      | none => rw [hy] at hkey; cases hkey
      | some y =>
          rw [hy] at hkey
          cases hkey with
          | some hxy => exact .some (h _ (mem_of_get? hx) _ (mem_of_get? hy) hxy)

theorem sameBy_trans {same : α → α → Bool} {a b c : Dict α}
    (h : ∀ x ∈ a, ∀ v w, same x.2 v = true → same v w = true → same x.2 w = true)
    (hab : sameBy same a b = true) (hbc : sameBy same b c = true) : sameBy same a c = true := by
  obtain ⟨hlen, hall⟩ := sameBy_eq_true.mp hab
  obtain ⟨hlen', hall'⟩ := sameBy_eq_true.mp hbc
  refine sameBy_eq_true.mpr ⟨hlen.trans hlen', fun e he => ?_⟩
  obtain ⟨v, hv, hev⟩ := hall e he
  obtain ⟨w, hw, hvw⟩ := hall' _ (mem_of_get? hv)
  exact ⟨w, hw, h e he v w hev hvw⟩

end ApiNotes.Dict
