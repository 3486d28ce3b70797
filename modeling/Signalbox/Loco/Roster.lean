import Signalbox.Loco.Error
import Signalbox.Text.Blank

/-
  Signalbox/Loco/Roster.lean --- the locos that are known.

  Locos are kept by address, and a second table finds the address of a name.  A
  loco that is added or edited needs a name that is not blank, an address in range,
  and both for itself; these are looked at in this order.
-/

set_option autoImplicit false

namespace Signalbox

/-- Locos by address, and addresses by name. -/
structure Roster where
  byAddress : Table Nat Loco
  byName : Table String Nat
  deriving DecidableEq, Repr

namespace Roster

/-- No loco. -/
def empty : Roster := ⟨Table.empty, Table.empty⟩

/-! ## Finding -/

/-- The address that an identifier leads to. -/
def addressOf? (r : Roster) : LocoId → Option Nat
  | .address n => if r.byAddress.contains n then some n else none
  | .name s => r.byName.get? s

/-- The loco that an identifier leads to. -/
def find? (r : Roster) (id : LocoId) : Option Loco := (r.addressOf? id).bind r.byAddress.get?

/-- The locos in the order of their addresses. -/
def all (r : Roster) : List Loco := r.byAddress.values

/-! ## Changing -/

/-- The roster with a loco under its name and address. -/
def insert (r : Roster) (l : Loco) : Roster :=
  ⟨r.byAddress.insert l.address l, r.byName.insert l.name l.address⟩

/-- The loco at an address, and the roster without it. -/
def remove? (r : Roster) (address : Nat) : Option (Loco × Roster) :=
  (r.byAddress.get? address).map fun l => (l, ⟨r.byAddress.erase address, r.byName.erase l.name⟩)

/-- The loco at an address after a change to how it runs, and the roster with it. -/
def modify? (r : Roster) (address : Nat) (change : Loco → Loco) : Option (Loco × Roster) :=
  (r.byAddress.get? address).map fun l =>
    (change l, { r with byAddress := r.byAddress.modify address change })

/-- What is wrong with a name and an address for a loco, which may have an address
already. -/
def refusal (r : Roster) (name : String) (address : Nat) (current : Option Nat) :
    Option LocoError :=
  if Text.isBlankText name.toList then some .blankName
  else if address = 0 || maxAddress < address then some (.addressRange address)
  else if (r.byName.get? name).any fun owner => some owner != current then some (.nameTaken name)
  else if r.byAddress.contains address && some address != current then some (.addressTaken address)
  else none

/-- The loco with another name, another address, or both. -/
def edited (l : Loco) (name : Option String) (address : Option Nat) : Loco :=
  { l with name := name.getD l.name, address := address.getD l.address }

/-- The roster with a loco in the place of the one at an address. -/
def replace (r : Roster) (address : Nat) (l : Loco) : Roster :=
  match r.remove? address with
  | some (_, r) => r.insert l
  | none => r.insert l

/-- The roster with a loco of a saved record; an address that is taken stays as it is. -/
def load (r : Roster) (record : LocoRecord) : Roster :=
  if r.byAddress.contains record.address then r
  else r.insert (.standing record.name record.address)

/-- The roster with the locos of saved records, and how many came in. -/
def loadAll (r : Roster) (records : List LocoRecord) : Nat × Roster :=
  let after := records.foldl load r
  (after.byAddress.size - r.byAddress.size, after)

end Roster

end Signalbox
