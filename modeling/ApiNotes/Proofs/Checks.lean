/-
When a check passes, and what stopped it when it does not.

A check over a list or a table is a recursion that stops at its first fault, so it
passes exactly when the check of every element does.  All that the validators of the
two models have in common is proved here once; what a validator accepts is then read
off its definition by rewriting.
-/
import Mathlib
import ApiNotes.Check

namespace ApiNotes

/-! ### Outcomes in general -/

section Outcome

variable {ε ε' α β : Type}

/-- Two steps succeed when the first does and the second does on its answer. -/
theorem bind_eq_ok {x : Except ε α} {f : α → Except ε β} {b : β} :
    (x >>= f) = .ok b ↔ ∃ a, x = .ok a ∧ f a = .ok b := by
  cases x with
  | error fault => simp [bind, Except.bind]
  | ok a => simp [bind, Except.bind]

/-- Two steps fail when the first does, or the second does on the answer of the first. -/
theorem bind_eq_error {x : Except ε α} {f : α → Except ε β} {fault : ε} :
    (x >>= f) = .error fault ↔ x = .error fault ∨ ∃ a, x = .ok a ∧ f a = .error fault := by
  cases x with
  | error other => simp [bind, Except.bind]
  | ok a => simp [bind, Except.bind]

theorem mapError_eq_ok {x : Except ε α} {f : ε → ε'} {a : α} :
    x.mapError f = .ok a ↔ x = .ok a := by
  cases x <;> simp [Except.mapError]

theorem mapError_eq_error {x : Except ε α} {f : ε → ε'} {fault : ε'} :
    x.mapError f = .error fault ↔ ∃ inner, x = .error inner ∧ f inner = fault := by
  cases x <;> simp [Except.mapError]

theorem map_eq_ok {x : Except ε α} {f : α → β} {b : β} :
    x.map f = .ok b ↔ ∃ a, x = .ok a ∧ f a = b := by
  cases x <;> simp [Except.map]

theorem map_eq_error {x : Except ε α} {f : α → β} {fault : ε} :
    x.map f = .error fault ↔ x = .error fault := by
  cases x <;> simp [Except.map]

/-- A check before one that passes anyway. -/
theorem bind_ok_unit (x : Except ε Unit) : (x >>= fun _ => .ok ()) = x := by
  cases x <;> rfl

theorem pure_eq_ok (a : α) : (pure a : Except ε α) = .ok a := rfl

/-- Checks in a row pass when each of them does. -/
theorem check_bind_eq_ok {x : Except ε Unit} {f : Unit → Except ε β} {b : β} :
    (x >>= f) = .ok b ↔ x = .ok () ∧ f () = .ok b := by
  rw [bind_eq_ok]
  constructor
  · rintro ⟨_, hx, hf⟩
    exact ⟨hx, hf⟩
  · rintro ⟨hx, hf⟩
    exact ⟨(), hx, hf⟩

/-- A fold that can fail carries an invariant that each of its steps keeps. -/
theorem foldlM_invariant {σ : Type} {f : σ → α → Except ε σ} {motive : List α → σ → Prop}
    {given : α → Prop}
    (step : ∀ before s x s', given x → motive before s → f s x = .ok s' →
      motive (before ++ [x]) s') :
    ∀ (xs before : List α) (s s' : σ), (∀ x ∈ xs, given x) → motive before s →
      xs.foldlM f s = .ok s' → motive (before ++ xs) s' := by
  intro xs
  induction xs with
  | nil =>
      intro before s s' _ hs h
      rw [List.foldlM_nil, pure_eq_ok, Except.ok.injEq] at h
      rw [List.append_nil, ← h]
      exact hs
  | cons x xs ih =>
      intro before s s' hgiven hs h
      rw [List.forall_mem_cons] at hgiven
      rw [List.foldlM_cons, bind_eq_ok] at h
      obtain ⟨t, ht, hrest⟩ := h
      have hnext := ih (before ++ [x]) t s' hgiven.2 (step before s x t hgiven.1 hs ht) hrest
      rwa [List.append_assoc, List.singleton_append] at hnext

/-- What stops a fold is one of its steps. -/
theorem foldlM_eq_error {σ : Type} {f : σ → α → Except ε σ} {fault : ε} :
    ∀ (xs : List α) (s : σ), xs.foldlM f s = .error fault →
      ∃ x ∈ xs, ∃ t, f t x = .error fault := by
  intro xs
  induction xs with
  | nil => intro s h; cases h
  | cons x xs ih =>
      intro s h
      rw [List.foldlM_cons, bind_eq_error] at h
      rcases h with hx | ⟨t, -, hrest⟩
      · exact ⟨x, List.mem_cons_self, s, hx⟩
      · obtain ⟨y, hy, hfault⟩ := ih t hrest
        exact ⟨y, List.mem_cons_of_mem x hy, hfault⟩

/-- A fold that can fail goes through when each of its steps does.  Here a step goes through when
its element is acceptable on its own and alongside each of those before it. -/
theorem foldlM_isOk_iff {σ : Type} {f : σ → α → Except ε σ} {motive : List α → σ → Prop}
    {given accepts : α → Prop} {beside : α → α → Prop}
    (step : ∀ before s x s', given x → motive before s → f s x = .ok s' →
      motive (before ++ [x]) s')
    (ok : ∀ before s x, given x → motive before s →
      ((∃ s', f s x = .ok s') ↔ accepts x ∧ ∀ y ∈ before, beside y x)) :
    ∀ (xs before : List α) (s : σ), (∀ x ∈ xs, given x) → motive before s →
      ((∃ s', xs.foldlM f s = .ok s') ↔
        (∀ x ∈ xs, accepts x ∧ ∀ y ∈ before, beside y x) ∧ xs.Pairwise beside) := by
  intro xs
  induction xs with
  | nil =>
      intro before s _ _
      simp [pure_eq_ok]
  | cons x xs ih =>
      intro before s hgiven hs
      rw [List.forall_mem_cons] at hgiven
      simp only [List.foldlM_cons, bind_eq_ok, List.forall_mem_cons, List.pairwise_cons]
      constructor
      · rintro ⟨s', t, ht, hrest⟩
        have hx := (ok before s x hgiven.1 hs).mp ⟨t, ht⟩
        obtain ⟨hall, hpair⟩ := (ih (before ++ [x]) t hgiven.2
          (step before s x t hgiven.1 hs ht)).mp ⟨s', hrest⟩
        refine ⟨⟨hx, fun y hy => ⟨(hall y hy).1, fun z hz => ?_⟩⟩, fun y hy => ?_, hpair⟩
        · exact (hall y hy).2 z (List.mem_append_left _ hz)
        · exact (hall y hy).2 x (List.mem_append_right _ List.mem_cons_self)
      · rintro ⟨⟨hx, hall⟩, hfirst, hpair⟩
        obtain ⟨t, ht⟩ := (ok before s x hgiven.1 hs).mpr hx
        have hcross : ∀ y ∈ xs, ∀ z ∈ before ++ [x], beside z y := by
          intro y hy z hz
          rcases List.mem_append.mp hz with hz | hz
          · exact (hall y hy).2 z hz
          · rw [List.mem_singleton.mp hz]
            exact hfirst y hy
        obtain ⟨s', hrest⟩ := (ih (before ++ [x]) t hgiven.2
          (step before s x t hgiven.1 hs ht)).mpr
            ⟨fun y hy => ⟨(hall y hy).1, hcross y hy⟩, hpair⟩
        exact ⟨s', t, ht, hrest⟩

end Outcome

/-- A text that starts with a character that is not blank is not blank. -/
theorem Text.isBlankText_of_head {s : String} {c : Char} (h : s.toList.head? = some c)
    (hc : isBlank c = false) : isBlankText s = false := by
  rw [List.head?_eq_some_iff] at h
  obtain ⟨rest, hs⟩ := h
  rw [isBlankText, hs, List.all_cons, hc, Bool.false_and]

namespace Check

variable {α : Type}

/-! ### Single conditions -/

theorem ensure_eq_ok {condition : Bool} {kind : FaultKind} {field : String} :
    ensure condition kind field = .ok () ↔ condition = true := by
  cases condition <;> simp [ensure]

theorem filled_eq_ok {value field : String} :
    filled value field = .ok () ↔ Text.isBlankText value = false := by
  rw [filled, ensure_eq_ok, Bool.not_eq_true']

/-! ### Lists and tables -/

theorem eachFrom_eq_ok {check : α → Checked Unit} {field : String} {xs : List α} :
    ∀ index, eachFrom check field index xs = .ok () ↔ ∀ x ∈ xs, check x = .ok () := by
  induction xs with
  | nil => intro index; simp [eachFrom]
  | cons x rest ih =>
      intro index
      rw [eachFrom, check_bind_eq_ok, mapError_eq_ok, ih, List.forall_mem_cons]

/-- A list passes when all its elements do. -/
theorem each_eq_ok {check : α → Checked Unit} {field : String} {xs : List α} :
    each check field xs = .ok () ↔ ∀ x ∈ xs, check x = .ok () :=
  eachFrom_eq_ok 0

theorem optional_eq_ok {check : α → Checked Unit} {field : String} {o : Option α} :
    optional check field o = .ok () ↔ ∀ x, o = some x → check x = .ok () := by
  cases o with
  | none => simp [optional]
  | some x => simp [optional, mapError_eq_ok]

theorem entry_eq_ok {check : α → Checked Unit} {field : String} {e : String × α} :
    entry check field e = .ok () ↔ Text.isBlankText e.1 = false ∧ check e.2 = .ok () := by
  rw [entry, check_bind_eq_ok, mapError_eq_ok, mapError_eq_ok, filled_eq_ok]

/-- A table passes when all its keys are filled and all its values pass. -/
theorem entries_eq_ok {check : α → Checked Unit} {field : String} {d : Dict α} :
    entries check field d = .ok () ↔
      ∀ e ∈ d, Text.isBlankText e.1 = false ∧ check e.2 = .ok () := by
  induction d with
  | nil => simp [entries]
  | cons e rest ih =>
      rw [entries, check_bind_eq_ok, entry_eq_ok, ih, List.forall_mem_cons]

/-- What stops the check of a table is the check of one of its entries. -/
theorem entries_eq_error {check : α → Checked Unit} {field : String} {d : Dict α} {fault : Fault}
    (h : entries check field d = .error fault) : ∃ e ∈ d, entry check field e = .error fault := by
  induction d with
  | nil => simp [entries] at h
  | cons e rest ih =>
      rw [entries, bind_eq_error] at h
      rcases h with he | ⟨_, _, hrest⟩
      · exact ⟨e, List.mem_cons_self, he⟩
      · obtain ⟨e', he', hfault⟩ := ih hrest
        exact ⟨e', List.mem_cons_of_mem e he', hfault⟩

theorem forM_eq_ok {check : α → Checked Unit} {xs : List α} :
    xs.forM check = .ok () ↔ ∀ x ∈ xs, check x = .ok () := by
  induction xs with
  | nil => simp [pure_eq_ok]
  | cons x rest ih =>
      show (check x >>= fun _ => rest.forM check) = .ok () ↔ _
      rw [check_bind_eq_ok, ih, List.forall_mem_cons]

theorem forM_eq_error {check : α → Checked Unit} {xs : List α} {fault : Fault}
    (h : xs.forM check = .error fault) : ∃ x ∈ xs, check x = .error fault := by
  induction xs with
  | nil => simp [pure_eq_ok] at h
  | cons x rest ih =>
      have h' : (check x >>= fun _ => rest.forM check) = .error fault := h
      rw [bind_eq_error] at h'
      rcases h' with hx | ⟨_, _, hrest⟩
      · exact ⟨x, List.mem_cons_self, hx⟩
      · obtain ⟨y, hy, hfault⟩ := ih hrest
        exact ⟨y, List.mem_cons_of_mem x hy, hfault⟩

/-- No element clashes with one before it. -/
theorem noClash_eq_ok {clash : α → α → Bool} {fault : Nat → Fault} :
    ∀ before xs : List α, noClash clash fault before xs = .ok () ↔
      (∀ a ∈ before, ∀ x ∈ xs, clash a x = false) ∧ xs.Pairwise fun a b => clash a b = false := by
  intro before xs
  induction xs generalizing before with
  | nil => simp [noClash]
  | cons x rest ih =>
      rw [noClash]
      split
      · rename_i hclash
        obtain ⟨a, ha, hax⟩ := List.any_eq_true.mp hclash
        refine iff_of_false (by simp) fun h => ?_
        rw [h.1 a ha x List.mem_cons_self] at hax
        exact Bool.noConfusion hax
      · rename_i hclash
        have hbefore : ∀ a ∈ before, clash a x = false := by
          intro a ha
          rw [Bool.eq_false_iff]
          exact fun hax => hclash (List.any_eq_true.mpr ⟨a, ha, hax⟩)
        rw [ih, List.pairwise_cons]
        constructor
        · rintro ⟨h, hrest⟩
          refine ⟨?_, fun y hy => h x (by simp) y hy, hrest⟩
          intro a ha y hy
          rcases List.mem_cons.mp hy with rfl | hy'
          · exact hbefore a ha
          · exact h a (by simp [ha]) y hy'
        · rintro ⟨h, hx, hrest⟩
          refine ⟨?_, hrest⟩
          intro a ha y hy
          rcases List.mem_append.mp ha with ha' | ha'
          · exact h a ha' y (List.mem_cons_of_mem x hy)
          · rw [List.mem_singleton.mp ha']
            exact hx y hy

end Check

end ApiNotes
