import Signalbox.Config
import Signalbox.Control.Hardware

/-
  Signalbox/Control/Start.lean --- starting a controller up.

  The layout is loaded first, then the locos, then the scripts; whichever the store
  refuses first keeps the controller from starting.  A configured controller begins
  with the virtual driver, and switches to another one if it is told to.
-/

set_option autoImplicit false

namespace Signalbox

namespace Controller

/-- A controller over a store. -/
def load (store : Store) (adapter : Adapter) (sync : SyncLevel) :
    Except StorageError Controller := do
  let nodes ← store.loadNodes
  let links ← store.loadLinks
  let locos ← store.loadLocos
  let rows ← store.loadScripts
  let c := ofLayout store (.ofParts nodes links) adapter sync
  return { c with
    roster := (c.roster.loadAll locos).2
    catalog := c.catalog.registerAll (Catalog.scriptsOf rows) }

/-- A controller over a store, as a configuration wants it; what comes of connecting to an
address is given. -/
def ofConfig (store : Store) (config : Config) (connect : String → Attempt) :
    Except StorageError Controller := do
  let hardware := config.hardware
  let adapter := Adapter.ofDriver .virtual hardware.devices connect
  let c ← load store adapter config.defaultSync
  return if hardware.driver = virtualDriver then c
    else c.selectDevice (Adapter.deviceFor hardware.driver hardware.address)

end Controller

end Signalbox
