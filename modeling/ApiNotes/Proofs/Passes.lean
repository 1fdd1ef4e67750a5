/-
Passes over a value in place.

The checks of the two models take a value and give an outcome, so it goes without saying that
they change nothing.  A validator that holds its value by a mutable reference has to be shown to:
it can write to every part that it goes through, and a fault leaves behind whatever was written
before it.  A `Pass` is such a validator, as the value that it leaves and its outcome.  The
passes of the models are put together here from the steps that their validators take, and
`OnlyReads` says of each that it is no more than a check.  Only the two steps that fill in a default
write anything.
-/
import ApiNotes.Proofs.Checks

namespace ApiNotes

open Check

/-- A pass over a value: the value that it leaves, and the outcome. -/
abbrev Pass (α : Type) := α → α × Checked Unit

namespace Pass

variable {α β : Type}

/-! ### Single steps -/

/-- Looks at the value. -/
def look (check : α → Checked Unit) : Pass α := fun x => (x, check x)

/-- Writes to the value. -/
def write (f : α → α) : Pass α := fun x => (f x, .ok ())

/-- What is left behind an outcome: the value as it is then, if that was a fault, and otherwise
what the next step leaves. -/
def guarded (outcome : Checked Unit) (stopped : α) (next : α × Checked Unit) : α × Checked Unit :=
  match outcome with
  | .error fault => (stopped, .error fault)
  | .ok () => next

/-- Makes a second pass, over what the first one left, unless that ended in a fault. -/
def andThen (first second : Pass α) : Pass α := fun x =>
  guarded (first x).2 (first x).1 (second (first x).1)

/-- Goes through a part of the value and puts back what it left there. -/
def part (view : α → β) (put : α → β → α) (p : Pass β) : Pass α := fun x =>
  (put x (p (view x)).1, (p (view x)).2)

/-- The same pass, its fault seen from somewhere else. -/
def blaming (blame : Fault → Fault) (p : Pass α) : Pass α := fun x =>
  ((p x).1, (p x).2.mapError blame)

/-! ### Lists and tables -/

/-- What is left of a list, and the outcome, when its first element has been gone through: behind
a fault the others are as they were. -/
def onward (first : α × Checked Unit) (others : List α) (rest : List α × Checked Unit) :
    List α × Checked Unit :=
  guarded first.2 (first.1 :: others) (first.1 :: rest.1, rest.2)

/-- Goes through the elements of a list. -/
def list (p : Pass α) : Pass (List α)
  | [] => ([], .ok ())
  | x :: rest => onward (p x) rest (list p rest)

/-- Goes through the elements of a list from an index on. -/
def eachFrom (p : Pass α) (field : String) : Nat → Pass (List α)
  | _, [] => ([], .ok ())
  | index, x :: rest =>
    onward (p.blaming (·.withinIndex field index) x) rest (eachFrom p field (index + 1) rest)

/-- Goes through the elements of a list, blaming a fault on the index. -/
def each (p : Pass α) (field : String) : Pass (List α) := eachFrom p field 0

/-- Goes through a value that may be absent. -/
def optional (p : Pass α) (field : String) : Pass (Option α)
  | none => (none, .ok ())
  | some x => (some (p.blaming (·.within field) x).1, (p.blaming (·.within field) x).2)

/-- Goes through the value of an entry, knowing its key. -/
def value (p : String → Pass α) : Pass (String × α) := fun e =>
  part Prod.snd (fun e v => (e.1, v)) (p e.1) e

/-- Looks at the key of an entry and goes through its value. -/
def entry (p : Pass α) (field : String) : Pass (String × α) :=
  (look fun e => (filled e.1 "").mapError (·.within field)).andThen <|
    value fun key => p.blaming (·.withinKey field key)

/-- Goes through the entries of a table. -/
def entries (p : Pass α) (field : String) : Pass (Dict α) := list (entry p field)

/-- Makes a pass for each key, one after another. -/
def forKeys (keys : List β) (p : β → Pass α) : Pass α :=
  match keys with
  | [] => look fun _ => .ok ()
  | key :: rest => (p key).andThen (forKeys rest p)

end Pass

/-! ### Passes that only read -/

/-- A pass leaves every value as it was, and has the outcome of a check. -/
def OnlyReads {α : Type} (p : Pass α) (check : α → Checked Unit) : Prop := ∀ x, p x = (x, check x)

namespace OnlyReads

open Pass

variable {α β : Type} {p q : Pass α} {c d : α → Checked Unit}

theorem look (check : α → Checked Unit) : OnlyReads (Pass.look check) check := fun _ => rfl

/-- A value that both of two steps leave as it was. -/
theorem guarded_reads (outcome next : Checked Unit) (x : α) :
    guarded outcome x (x, next) = (x, outcome >>= fun _ => next) := by
  cases outcome <;> rfl

/-- An element that is left as it was, in front of others that are. -/
theorem onward_reads (x : α) (outcome : Checked Unit) (others : List α) (rest : Checked Unit) :
    onward (x, outcome) others (others, rest) = (x :: others, outcome >>= fun _ => rest) :=
  guarded_reads outcome rest (x :: others)

theorem andThen (hp : OnlyReads p c) (hq : OnlyReads q d) :
    OnlyReads (p.andThen q) fun x => c x >>= fun _ => d x := by
  intro x
  rw [Pass.andThen, hp x, hq x, guarded_reads]

theorem blaming (blame : Fault → Fault) (hp : OnlyReads p c) :
    OnlyReads (p.blaming blame) fun x => (c x).mapError blame := by
  intro x
  rw [Pass.blaming, hp x]

/-- What is put back is what was there. -/
theorem part {view : β → α} {put : β → α → β} (hp : OnlyReads p c)
    (hput : ∀ x, put x (view x) = x := by intro _; rfl) :
    OnlyReads (Pass.part view put p) fun x => c (view x) := by
  intro x
  rw [Pass.part, hp, hput]

theorem list (hp : OnlyReads p c) : OnlyReads (Pass.list p) (·.forM c) := by
  intro xs
  induction xs with
  | nil => rfl
  | cons x rest ih =>
      rw [Pass.list, hp x, ih, onward_reads]
      rfl

theorem each (hp : OnlyReads p c) (field : String) :
    OnlyReads (Pass.each p field) (Check.each c field) := by
  intro xs
  show Pass.eachFrom p field 0 xs = (xs, Check.eachFrom c field 0 xs)
  -- the index goes up with every element
  generalize 0 = index
  induction xs generalizing index with
  | nil => rfl
  | cons x rest ih => rw [Pass.eachFrom, hp.blaming _ x, ih, onward_reads, Check.eachFrom]

theorem optional (hp : OnlyReads p c) (field : String) :
    OnlyReads (Pass.optional p field) (Check.optional c field) := by
  intro x
  cases x with
  | none => rfl
  | some x => rw [Pass.optional, hp.blaming _ x, Check.optional]

theorem value {p : String → Pass α} {c : String → α → Checked Unit}
    (hp : ∀ key, OnlyReads (p key) (c key)) : OnlyReads (Pass.value p) fun e => c e.1 e.2 :=
  fun e => (hp e.1).part (fun _ => rfl) e

theorem entry (hp : OnlyReads p c) (field : String) :
    OnlyReads (Pass.entry p field) (Check.entry c field) :=
  (look _).andThen (value fun _ => hp.blaming _)

theorem entries (hp : OnlyReads p c) (field : String) :
    OnlyReads (Pass.entries p field) (Check.entries c field) := by
  intro d
  rw [Pass.entries, (hp.entry field).list d]
  congr 1
  induction d with
  | nil => rfl
  | cons e rest ih => rw [Check.entries, ← ih]; rfl

theorem forKeys {p : β → Pass α} {c : β → α → Checked Unit} (hp : ∀ key, OnlyReads (p key) (c key))
    (keys : List β) : OnlyReads (Pass.forKeys keys p) fun x => keys.forM (c · x) := by
  induction keys with
  | nil => exact look _
  | cons key rest ih => exact (hp key).andThen ih

end OnlyReads

/-! ### Defaults -/

/-- What filling in a default does to a field: a missing value is replaced when the pass gets that
far, and every other value stays. -/
structure Defaulted {α : Type} (reached : Prop) (missing default before after : α) : Prop where
  filled : reached → before = missing → after = default
  kept : ¬(reached ∧ before = missing) → after = before

namespace Defaulted

variable {α : Type} {reached : Prop} {missing default before after : α}

theorem of_not_reached (h : ¬reached) : Defaulted reached missing default before before where
  filled := fun hreached => absurd hreached h
  kept := fun _ => rfl

/-- A default that goes in under a test for the missing value. -/
theorem ite {test : Prop} [Decidable test] (h : reached) (htest : test ↔ before = missing) :
    Defaulted reached missing default before (if test then default else before) where
  filled := fun _ hmissing => if_pos (htest.mpr hmissing)
  kept := fun hboth => if_neg fun hholds => hboth ⟨h, htest.mp hholds⟩

/-- Behind the point where the default is filled in the value is there. -/
theorem ne_missing (h : Defaulted reached missing default before after) (hreached : reached)
    (hdefault : default ≠ missing) : after ≠ missing := by
  by_cases hbefore : before = missing
  · rw [h.filled hreached hbefore]
    exact hdefault
  · rw [h.kept fun hboth => hbefore hboth.2]
    exact hbefore

theorem eq_default_or_eq (h : Defaulted reached missing default before after) :
    after = default ∨ after = before := by
  by_cases hboth : reached ∧ before = missing
  · exact .inl (h.filled hboth.1 hboth.2)
  · exact .inr (h.kept hboth)

end Defaulted

end ApiNotes
