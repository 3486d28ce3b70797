/-
  Signalbox/Table.lean --- rows in ascending order of their keys.

  Layout, locos, scripts, runs and routes are all kept as rows under a key and are
  listed in the order of the keys.  A table is the list of its rows: there is one
  row for a key, and inserting puts it where the order wants it, in place of the
  row that was there.
-/

set_option autoImplicit false

namespace Signalbox

/-- Rows of `α`, each under a key of `κ`, in ascending order. -/
structure Table (κ α : Type) where
  rows : List (κ × α)
  deriving DecidableEq, Repr

namespace Table

variable {κ α : Type}

/-- The table without rows. -/
def empty : Table κ α := ⟨[]⟩

instance : Inhabited (Table κ α) := ⟨empty⟩

/-- The keys, in order. -/
def keys (t : Table κ α) : List κ := t.rows.map (·.1)

/-- What the rows hold, in the order of the keys. -/
def values (t : Table κ α) : List α := t.rows.map (·.2)

/-- The number of rows. -/
def size (t : Table κ α) : Nat := t.rows.length

section Keyed

variable [DecidableEq κ]

/-- The first row under a key. -/
def find (key : κ) : List (κ × α) → Option α
  | [] => none
  | (k, a) :: rest => if k = key then some a else find key rest

/-- What the table holds under a key. -/
def get? (t : Table κ α) (key : κ) : Option α := find key t.rows

/-- Whether there is a row under a key. -/
def contains (t : Table κ α) (key : κ) : Bool := (t.get? key).isSome

/-- The table without the row under a key. -/
def erase (t : Table κ α) (key : κ) : Table κ α := ⟨t.rows.filter fun row => row.1 ≠ key⟩

/-- The table with the row under a key changed, if there is one. -/
def modify (t : Table κ α) (key : κ) (change : α → α) : Table κ α :=
  ⟨t.rows.map fun (k, a) => if k = key then (k, change a) else (k, a)⟩

theorem get?_empty (key : κ) : (empty : Table κ α).get? key = none := rfl

section Ordered

variable [LT κ] [DecidableLT κ]

/-- Puts a row where the order wants it. -/
def place (key : κ) (value : α) : List (κ × α) → List (κ × α)
  | [] => [(key, value)]
  | (k, a) :: rest =>
    if key < k then (key, value) :: (k, a) :: rest
    else if k = key then (key, value) :: rest
    else (k, a) :: place key value rest

/-- The table with a row under a key, in place of the one that was there. -/
def insert (t : Table κ α) (key : κ) (value : α) : Table κ α := ⟨place key value t.rows⟩

/-- The table of the given rows; of several under one key the last stays. -/
def ofList (rows : List (κ × α)) : Table κ α := rows.foldl (fun t row => t.insert row.1 row.2) empty

theorem ofList_nil : ofList ([] : List (κ × α)) = empty := rfl

end Ordered

end Keyed

end Table

end Signalbox
