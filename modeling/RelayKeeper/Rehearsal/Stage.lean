import RelayKeeper.Host.Session
import RelayKeeper.Rehearsal.Checks

/-!
# Scripted sites

A site whose replies are given beforehand, call by call. The last reply of a call repeats, and a call
without replies succeeds. Only the bags of the consumers and the files that can be read are real.
-/

namespace RelayKeeper.Rehearsal

open Host (CommandError CommandOutput PackageError quietSuccess)
open Record (Bag StoreError)

structure Script where
  refreshIndex : List (Except PackageError Unit) := []
  installPackage : List (Except PackageError Unit) := []
  ensureGroup : List (Except CommandError Unit) := []
  addToGroup : List (Except CommandError Unit) := []
  reloadSupervisor : List (Except CommandError Unit) := []
  enableUnit : List (Except CommandError Unit) := []
  restartUnit : List (Except CommandError Unit) := []
  queryStatus : List (Except CommandError CommandOutput) := []
  pruneContainers : List (Except CommandError Unit) := []
  createDirectories : List (Except Fault Unit) := []
  writeFile : List (Except Fault Unit) := []
  changeOwner : List (Except CommandError Unit) := []
  runScript : List (Except CommandError CommandOutput) := []
  setStatus : List (Except StoreError Unit) := []
  openPort : List (Except StoreError Unit) := []
  relations : List (Except StoreError Unit) := []
  updateRelation : List (Except StoreError Unit) := []

structure Stage where
  script : Script
  bags : Std.ExtTreeMap String Bag
  files : FileTree

def nextReply (replies : List (Except ε α)) (success : α) : Except ε α × List (Except ε α) :=
  let (reply, rest) := takeNext replies
  (reply.getD (.ok success), rest)

namespace Stage

def host (s : Stage) : (call : Host.Call) → call.Reply × Script
  | .refreshIndex =>
    let (reply, rest) := nextReply s.script.refreshIndex ()
    (reply, { s.script with refreshIndex := rest })
  | .installPackage _ =>
    let (reply, rest) := nextReply s.script.installPackage ()
    (reply, { s.script with installPackage := rest })
  | .ensureGroup _ =>
    let (reply, rest) := nextReply s.script.ensureGroup ()
    (reply, { s.script with ensureGroup := rest })
  | .addToGroup .. =>
    let (reply, rest) := nextReply s.script.addToGroup ()
    (reply, { s.script with addToGroup := rest })
  | .reloadSupervisor =>
    let (reply, rest) := nextReply s.script.reloadSupervisor ()
    (reply, { s.script with reloadSupervisor := rest })
  | .enableUnit _ =>
    let (reply, rest) := nextReply s.script.enableUnit ()
    (reply, { s.script with enableUnit := rest })
  | .restartUnit _ =>
    let (reply, rest) := nextReply s.script.restartUnit ()
    (reply, { s.script with restartUnit := rest })
  | .queryStatus _ =>
    let (reply, rest) := nextReply s.script.queryStatus quietSuccess
    (reply, { s.script with queryStatus := rest })
  | .pruneContainers =>
    let (reply, rest) := nextReply s.script.pruneContainers ()
    (reply, { s.script with pruneContainers := rest })
  | .createDirectories _ =>
    let (reply, rest) := nextReply s.script.createDirectories ()
    (reply, { s.script with createDirectories := rest })
  | .writeFile .. =>
    let (reply, rest) := nextReply s.script.writeFile ()
    (reply, { s.script with writeFile := rest })
  | .changeOwner .. =>
    let (reply, rest) := nextReply s.script.changeOwner ()
    (reply, { s.script with changeOwner := rest })
  | .runScript _ =>
    let (reply, rest) := nextReply s.script.runScript quietSuccess
    (reply, { s.script with runScript := rest })

/-- Gives the next scripted reply to a call to the record; an update that succeeds changes the
bag. -/
def record (s : Stage) : (call : Record.Call) → call.Reply × Stage
  | .setStatus _ =>
    let (reply, rest) := nextReply s.script.setStatus ()
    (reply, { s with script := { s.script with setStatus := rest } })
  | .openPort _ =>
    let (reply, rest) := nextReply s.script.openPort ()
    (reply, { s with script := { s.script with openPort := rest } })
  | .relations =>
    let (reply, rest) := nextReply s.script.relations ()
    (reply.map fun _ => s.bags.keys, { s with script := { s.script with relations := rest } })
  | .updateRelation id data =>
    let (reply, rest) := nextReply s.script.updateRelation ()
    let bags := if reply.isOk then s.bags.insert id ((s.bags.getD id ∅).overlay data) else s.bags
    (reply, { s with script := { s.script with updateRelation := rest }, bags := bags })

def join (s : Stage) (id : String) : Stage :=
  { s with bags := s.bags.insertIfNew id ∅ }

end Stage

def stageSite : Site Stage where
  host call s := ⟨(s.host call).1, { s with script := (s.host call).2 }, []⟩
  record call s := ⟨(s.record call).1, (s.record call).2, []⟩
  files s := s.files

end RelayKeeper.Rehearsal
