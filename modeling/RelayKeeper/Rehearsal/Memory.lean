import RelayKeeper.Host.Session
import RelayKeeper.Rehearsal.Checks

/-!
# A host and a record in memory

Stand-ins that remember what they were asked to do. Parts of the host can be told to fail; the record
can refuse one consumer.
-/

namespace RelayKeeper.Rehearsal

open Host (CommandError CommandOutput)

structure Injected where
  missingPackages : List String := []
  accounts : Bool := false
  reload : Bool := false
  enable : Bool := false
  restart : Bool := false
  status : Bool := false
  runtime : Bool := false
  owner : Bool := false
  scripts : Bool := false
  relation : Option String := none
  deriving DecidableEq, Repr

structure WrittenFile where
  path : Path
  contents : String
  mode : Nat
  deriving DecidableEq, Repr

structure Memory where
  injected : Injected := {}
  /-- Every call to the host, in order. -/
  journal : List String := []
  /-- The status replies that are still to be given. -/
  statusReplies : List CommandOutput := []
  /-- The last one written comes first. -/
  written : List WrittenFile := []
  directories : List Path := []
  statuses : List Record.Status := []
  ports : List UInt16 := []
  bags : Std.ExtTreeMap String Record.Bag := ∅
  files : FileTree

def journalText : Host.Call → String
  | .refreshIndex => "apt update"
  | .installPackage package => "install " ++ package
  | .ensureGroup group => "ensure group " ++ group
  | .addToGroup user group => "add " ++ user ++ " to " ++ group
  | .reloadSupervisor => "daemon-reload"
  | .enableUnit unit => "enable " ++ unit
  | .restartUnit unit => "restart " ++ unit
  | .queryStatus unit => "status " ++ unit
  | .pruneContainers => "prune containers"
  | .createDirectories path => "mkdir " ++ path.text
  | .writeFile path _ _ => "write " ++ path.text
  | .changeOwner path user group => "chown " ++ user ++ ":" ++ group ++ " " ++ path.text
  | .runScript path => "run " ++ path.text

def failIf (injected : Bool) (program : String) : Except CommandError Unit :=
  if injected then .error (.failed program (some 1) "injected failure") else .ok ()

def runningStatus : CommandOutput := ⟨some 0, "active (running)", ""⟩

namespace Memory

def host : (call : Host.Call) → Memory → call.Reply × Memory
  | .refreshIndex, m => (.ok (), m)
  | .installPackage package, m =>
    (if m.injected.missingPackages.contains package then .error (.notFound package) else .ok (), m)
  | .ensureGroup _, m => (failIf m.injected.accounts "groupadd", m)
  | .addToGroup .., m => (.ok (), m)
  | .reloadSupervisor, m => (failIf m.injected.reload "systemctl", m)
  | .enableUnit _, m => (failIf m.injected.enable "systemctl", m)
  | .restartUnit _, m => (failIf m.injected.restart "systemctl", m)
  | .queryStatus _, m =>
    if m.injected.status then (.error (.spawn "systemctl" (.reported "no systemctl")), m)
    else
      let (reply, rest) := takeNext m.statusReplies
      (.ok (reply.getD runningStatus), { m with statusReplies := rest })
  | .pruneContainers, m => (failIf m.injected.runtime "docker", m)
  | .createDirectories path, m => (.ok (), { m with directories := path :: m.directories })
  | .writeFile path contents mode, m =>
    (.ok (), { m with written := ⟨path, contents, mode⟩ :: m.written })
  | .changeOwner .., m => (failIf m.injected.owner "chown", m)
  | .runScript _, m =>
    ((failIf m.injected.scripts "create_keys.sh").map fun _ => ⟨some 0, "", ""⟩, m)

def record : (call : Record.Call) → Memory → call.Reply × Memory
  | .setStatus status, m => (.ok (), { m with statuses := m.statuses ++ [status] })
  | .openPort port, m =>
    (.ok (), { m with ports := if m.ports.contains port then m.ports else m.ports ++ [port] })
  | .relations, m => (.ok m.bags.keys, m)
  | .updateRelation id data, m =>
    if m.injected.relation = some id then
      (.error (.io ⟨"relations/" ++ id ++ ".json"⟩ (.reported "read-only")), m)
    else (.ok (), { m with bags := m.bags.insert id ((m.bags.getD id ∅).overlay data) })

def file? (m : Memory) (path : Path) : Option WrittenFile :=
  m.written.find? (·.path.same path)

def hasDirectory (m : Memory) (path : Path) : Bool :=
  m.directories.any (·.same path)

end Memory

def memorySite : Site Memory where
  host call m :=
    let (reply, m) := m.host call
    ⟨reply, { m with journal := m.journal ++ [journalText call] }, []⟩
  record call m :=
    let (reply, m) := m.record call
    ⟨reply, m, []⟩
  files m := m.files

end RelayKeeper.Rehearsal
