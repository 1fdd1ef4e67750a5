/-
Values under text keys, in the order in which the keys were first written.

Object members, response tables, headers and media types are all kept this way:
writing to a key that is already there replaces its value and keeps its place, and
everything that prints a table prints it in this order.  Two tables are the same
when they hold the same values under the same keys, whatever their orders.
-/
namespace ApiNotes

/-- A table from text keys to values, in insertion order. -/
abbrev Dict (α : Type) := List (String × α)

namespace Dict

variable {α β : Type}

/-- The value under a key. -/
def get? : Dict α → String → Option α
  | [], _ => none
  | (k, v) :: rest, key => if k = key then some v else get? rest key

/-- The keys, in order. -/
def keys (d : Dict α) : List String := d.map Prod.fst

/-- Writes a value under a key: in place when the key is there, at the end otherwise. -/
def insert : Dict α → String → α → Dict α
  | [], key, value => [(key, value)]
  | (k, v) :: rest, key, value =>
    if k = key then (k, value) :: rest else (k, v) :: insert rest key value

/-- The table built by writing entries one after another: the last value of a key wins, at the
place of its first. -/
def ofEntries (entries : List (String × α)) : Dict α :=
  entries.foldl (fun d e => d.insert e.1 e.2) []

/-- Applies a function to every value. -/
def mapValues (f : α → β) (d : Dict α) : Dict β := d.map fun e => (e.1, f e.2)

/-- Whether two tables hold the same values under the same keys, in whatever order. -/
def sameBy (same : α → α → Bool) (a b : Dict α) : Bool :=
  a.length == b.length &&
    a.all fun e => match get? b e.1 with
      | some v => same e.2 v
      | none => false

@[simp] theorem get?_nil (key : String) : get? ([] : Dict α) key = none := rfl

/-- What a key holds after a write. -/
theorem get?_insert (d : Dict α) (key other : String) (value : α) :
    get? (insert d key value) other = if key = other then some value else get? d other := by
  induction d with
  | nil => rfl
  | cons e rest ih => grind [get?, insert]

/-- A write adds its key at the end, unless it is there already. -/
theorem keys_insert (d : Dict α) (key : String) (value : α) :
    keys (insert d key value) = if key ∈ keys d then keys d else keys d ++ [key] := by
  induction d with
  | nil => rfl
  | cons e rest ih =>
    simp only [keys, insert, List.map_cons, List.mem_cons] at ih ⊢
    split <;> grind

/-- A write keeps the keys distinct. -/
theorem nodup_keys_insert {d : Dict α} (h : (keys d).Nodup) (key : String) (value : α) :
    (keys (insert d key value)).Nodup := by
  rw [keys_insert]
  split
  · exact h
  · grind

end Dict

end ApiNotes
