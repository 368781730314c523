import RelayKeeper.Record.Store

/-!
# Stores on a ground

A ground is a host together with files, both part of one world: what the host does may change the
files, and what is done to the files is seen by the host. A store on a ground keeps the record in its
files.
-/

namespace RelayKeeper.Record

structure Ground (ω : Type) where
  host : (call : Host.Call) → ω → Turn call.Reply ω
  files : ω → FileTree
  withFiles : ω → FileTree → ω

namespace Ground

variable {ω : Type} (g : Ground ω)

def onFiles (f : FileTree → Turn ρ FileTree) (world : ω) : Turn ρ ω :=
  let turn := f (g.files world)
  ⟨turn.reply, g.withFiles world turn.world, turn.remarks⟩

def site (store : Store) : Site ω where
  host := g.host
  record call := g.onFiles (store.answer call)
  files := g.files

end Ground

end RelayKeeper.Record
