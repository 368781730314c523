import RelayKeeper.Machine.Calls
import RelayKeeper.Record.Ground

/-!
# Machines as grounds
-/

namespace RelayKeeper.Machine

def ground : Record.Ground Machine where
  host := answer
  files m := m.files
  withFiles m files := { m with files := files }

end RelayKeeper.Machine
