import RelayKeeper.Proofs.DecodedText
import RelayKeeper.Proofs.MachinePairs
import RelayKeeper.Proofs.RecordFiles
import RelayKeeper.Proofs.StatusQueries

/-! # Packages that are installed already

The package database says of an installed package `<selection> ok installed`, where the selection is
a word such as `install` or `hold`. Such a package is left alone if the selection ends in `install`.
With any other selection the package manager is asked for the package all the same, and decides. -/
namespace RelayKeeper

namespace Machine

open Host (CommandError CommandOutput PackageError)
open Hooks (EndedWith)
open Relay (DependencyError installDependencies)

variable {ε δ α β : Type} {m : Machine} {package selection program name : String}
  {arguments : List String} {quiet : Bool}

/-! ## Programs -/

def Reaction.output (reaction : Reaction) : CommandOutput :=
  ⟨reaction.code, Machine.outputText reaction.stdout, Machine.outputText reaction.stderr⟩

def noting (m : Machine) : Machine :=
  { m with log := m.log ++ [⟨.debug, "tmate_operator::host::command", "Running command", none⟩] }

theorem run_eq (program : String) (arguments : List String) (quiet : Bool) (m : Machine) :
    Machine.run program arguments quiet m =
      (((Machine.start program arguments quiet (noting m)).1.mapError (.spawn program)).map
        Reaction.output, (Machine.start program arguments quiet (noting m)).2) := by
  have hrun : Machine.run program arguments quiet m =
      ((Machine.start program arguments quiet).adapt (CommandError.spawn program) >>=
        fun reaction => pure reaction.output : Work CommandError CommandOutput) (noting m) := rfl
  rw [hrun, Work.run_bind, Work.run_adapt]
  rcases Machine.start program arguments quiet (noting m) with ⟨_ | _, t⟩ <;> rfl

/-- A program starts if it is found, and the first rule that fits gives its reaction. -/
theorem start_cases (program : String) (arguments : List String) (quiet : Bool) (m : Machine) :
    (∃ fault, Machine.start program arguments quiet m = (.error fault, m)) ∨
      ∃ name, m.findProgram program = .ok name ∧
        (Machine.start program arguments quiet m).1 =
          .ok (Machine.react (name :: arguments) m.rules).1 ∧
        (Machine.start program arguments quiet m).2.runs =
          m.runs ++ [⟨quiet, name :: arguments⟩] := by
  unfold Machine.start
  split
  · exact .inl ⟨_, rfl⟩
  · cases m.findProgram program with
    | error fault => exact .inl ⟨fault, rfl⟩
    | ok name => exact .inr ⟨name, rfl, rfl, rfl⟩

/-- A program that is called by its name is found under that name. -/
theorem eq_of_findProgram (hplain : program.toList.contains '/' = false)
    (h : m.findProgram program = .ok name) : name = program := by
  simp only [Machine.findProgram, hplain, Bool.false_eq_true, if_false] at h
  split_ifs at h with hknown
  · change (if m.missing.contains program then _ else
      if m.notExecutable.contains program then _ else Except.ok program) = _ at h
    split_ifs at h
    exact (Except.ok.inj h).symm
  · cases h

/-- A program that ended was started. -/
theorem runs_of_run {output : CommandOutput} (hplain : program.toList.contains '/' = false)
    (h : (Machine.run program arguments quiet m).1 = .ok output) :
    (Machine.run program arguments quiet m).2.runs = m.runs ++ [⟨quiet, program :: arguments⟩] := by
  rw [run_eq] at h ⊢
  rcases start_cases program arguments quiet (noting m) with
    ⟨fault, hstart⟩ | ⟨name, hfind, -, hruns⟩
  · rw [hstart] at h
    cases h
  · obtain rfl := eq_of_findProgram hplain hfind
    exact hruns

/-- What a program does depends on nothing that was logged. -/
theorem run_log (program : String) (arguments : List String) (quiet : Bool) (m : Machine)
    (entries : List Log.Entry) :
    (Machine.run program arguments quiet { m with log := entries }).1 =
      (Machine.run program arguments quiet m).1 := by
  have hstart : (Machine.start program arguments quiet (noting { m with log := entries })).1 =
      (Machine.start program arguments quiet (noting m)).1 := by
    have hfind : (noting { m with log := entries }).findProgram program =
        (noting m).findProgram program := rfl
    unfold Machine.start
    rw [hfind]
    split
    · rfl
    · cases (noting m).findProgram program <;> rfl
  rw [run_eq, run_eq, hstart]

/-! ## The package database -/

def askDatabase (package : String) : Work CommandError CommandOutput :=
  Machine.run "dpkg-query" ["-W", "-f=$\x7bStatus\x7d", package] false

/-- The package database says that a package is installed, and what is selected for it. -/
def SaysInstalled (m : Machine) (package selection : String) : Prop :=
  ∃ output, (askDatabase package m).1 = .ok output ∧ output.code = some 0 ∧
    output.stdout = selection ++ " ok installed"

def databaseRun (package : String) : Run :=
  ⟨false, ["dpkg-query", "-W", "-f=$\x7bStatus\x7d", package]⟩

def fetchRun (package : String) : Run :=
  ⟨true, "apt-get" :: installArguments package⟩

theorem installedText_infix {selection : List Char} (h : "install".toList <:+ selection) :
    installedText.toList <:+: selection ++ " ok installed".toList := by
  obtain ⟨before, rfl⟩ := h
  exact ⟨before, [], by simp [installedText]⟩

/-- The word before the status decides whether the text of an installed package is in the answer. -/
theorem installedText_infix_iff {selection : List Char} (hword : ' ' ∉ selection) :
    installedText.toList <:+: selection ++ " ok installed".toList ↔
      "install".toList <:+ selection := by
  have htext : installedText.toList = "install".toList ++ " ok installed".toList := rfl
  refine ⟨?_, installedText_infix⟩
  rw [htext]
  rintro ⟨before, after, h⟩
  rw [← List.append_assoc, List.append_assoc _ _ after] at h
  rcases List.append_eq_append_iff.mp h with ⟨rest, hselection, htail⟩ | ⟨rest, hbefore, htail⟩
  · cases rest with
    | nil => exact ⟨before, by rw [hselection, List.append_nil]⟩
    | cons c rest =>
      -- the rest of the selection would begin with the blank before `ok`
      obtain rfl : c = ' ' := (List.cons.inj htail).1.symm
      exact absurd (by simp [hselection]) hword
  · have hlength := congrArg List.length htail
    simp only [List.length_append] at hlength
    obtain rfl : rest = [] := List.eq_nil_of_length_eq_zero (by omega)
    exact ⟨before, by rw [hbefore, List.append_nil]⟩

theorem contains_installedText (hword : ' ' ∉ selection.toList) :
    Text.contains (selection ++ " ok installed").toList installedText.toList = true ↔
      "install".toList <:+ selection.toList := by
  rw [Record.contains_iff _ _ (by decide), String.toList_append, installedText_infix_iff hword]

/-! ## Installing a package -/

def judgeFetch (package : String) (output : CommandOutput) : Work PackageError Unit := do
  if isUnknownPackage output then
    throw (.notFound package)
  let _ ← ExceptT.mk (pure ((output.check "apt-get").mapError (.installation package)))
  Machine.note .info systemComponent "Installed package"

def fetchPackage (package : String) : Work PackageError Unit := do
  let output ← (Machine.run "apt-get" (installArguments package) true).adapt (.installation package)
  judgeFetch package output

theorem installPackage_eq (package : String) : installPackage package = (do
    if ← queryInstalled package then
      Machine.note .debug systemComponent "Package already installed"
    else fetchPackage package) := rfl

theorem run_installPackage {output : CommandOutput} (h : (askDatabase package m).1 = .ok output) :
    installPackage package m =
      if isInstalled output then
        Machine.note .debug systemComponent "Package already installed" (askDatabase package m).2
      else fetchPackage package (askDatabase package m).2 := by
  have hquery : queryInstalled package m =
      (.ok (isInstalled output), (askDatabase package m).2) := by
    unfold queryInstalled
    rw [← askDatabase]
    generalize askDatabase package m = asked at h ⊢
    obtain ⟨answer, t⟩ := asked
    obtain rfl : answer = .ok output := h
    rfl
  rw [installPackage_eq, Work.run_bind, hquery]
  cases isInstalled output <;> rfl

theorem run_judgeFetch (package : String) (output : CommandOutput) (m : Machine) :
    ((judgeFetch package output m).1 = .ok () ↔ output.code = some 0) ∧
      (judgeFetch package output m).2.runs = m.runs := by
  have hcode : output.succeeded = true ↔ output.code = some 0 := decide_eq_true_iff
  rw [← hcode]
  cases hsucceeded : output.succeeded with
  | true =>
    have hknown : isUnknownPackage output = false := by simp [isUnknownPackage, hsucceeded]
    have hcheck : output.check "apt-get" = .ok output := if_pos hsucceeded
    rw [judgeFetch, hknown, hcheck]
    exact ⟨⟨fun _ => rfl, fun _ => rfl⟩, rfl⟩
  | false =>
    have hcheck : output.check "apt-get" =
        .error (.failed "apt-get" output.code (Text.trim output.stderr)) := by
      simp [CommandOutput.check, hsucceeded]
    rw [judgeFetch, hcheck]
    cases isUnknownPackage output with
    | true => exact ⟨⟨nofun, nofun⟩, rfl⟩
    | false => exact ⟨⟨nofun, nofun⟩, rfl⟩

/-- The package manager decides whether a package is fetched. -/
theorem run_fetchPackage (package : String) (m : Machine) :
    ((fetchPackage package m).1 = .ok () ↔
      EndedWith (Machine.run "apt-get" (installArguments package) true m).1 (some 0)) ∧
      (fetchPackage package m).2.runs =
        (Machine.run "apt-get" (installArguments package) true m).2.runs := by
  rw [fetchPackage, Work.run_bind, Work.run_adapt]
  rcases Machine.run "apt-get" (installArguments package) true m with ⟨error | output, t⟩
  · simp [Except.mapError]
  · rw [Hooks.endedWith_ok]
    exact run_judgeFetch package output t

def fetchReply (package : String) (m : Machine) : Except CommandError CommandOutput :=
  (Machine.run "apt-get" (installArguments package) true (askDatabase package m).2).1

namespace SaysInstalled

theorem runs_askDatabase (h : SaysInstalled m package selection) :
    (askDatabase package m).2.runs = m.runs ++ [databaseRun package] := by
  obtain ⟨output, hanswer, -⟩ := h
  exact runs_of_run (by decide) hanswer

theorem with_log (h : SaysInstalled m package selection) (entries : List Log.Entry) :
    SaysInstalled { m with log := entries } package selection := by
  obtain ⟨output, hanswer, hend⟩ := h
  exact ⟨output, (run_log ..).trans hanswer, hend⟩

/-- A package is left alone if its selection ends in `install`. -/
theorem kept (h : SaysInstalled m package selection)
    (hselection : "install".toList <:+ selection.toList) :
    (installPackage package m).1 = .ok () ∧
      (installPackage package m).2.runs = m.runs ++ [databaseRun package] := by
  have hruns := h.runs_askDatabase
  obtain ⟨output, hanswer, hcode, hstdout⟩ := h
  have hinstalled : isInstalled output = true := by
    rw [isInstalled, Bool.and_eq_true, hstdout]
    refine ⟨decide_eq_true hcode, ?_⟩
    rw [Record.contains_iff _ _ (by decide), String.toList_append]
    exact installedText_infix hselection
  rw [run_installPackage hanswer, if_pos hinstalled]
  exact ⟨rfl, hruns⟩

/-- With any other word the package manager is asked, and its exit code decides. -/
theorem fetched (h : SaysInstalled m package selection) (hword : ' ' ∉ selection.toList)
    (hselection : ¬ "install".toList <:+ selection.toList) :
    ((installPackage package m).1 = .ok () ↔ EndedWith (fetchReply package m) (some 0)) ∧
      ∀ output, fetchReply package m = .ok output →
        (installPackage package m).2.runs = m.runs ++ [databaseRun package, fetchRun package] := by
  have hruns := h.runs_askDatabase
  obtain ⟨output, hanswer, hcode, hstdout⟩ := h
  have hinstalled : ¬ isInstalled output = true := by
    rw [isInstalled, Bool.and_eq_true, hstdout, contains_installedText hword]
    exact fun hboth => hselection hboth.2
  rw [run_installPackage hanswer, if_neg hinstalled]
  obtain ⟨hok, hsame⟩ := run_fetchPackage package (askDatabase package m).2
  refine ⟨hok, fun output hreply => ?_⟩
  rw [hsame, runs_of_run (by decide) hreply, hruns, List.append_assoc]
  rfl

end SaysInstalled

/-! ## The dependencies of the relay -/

/-- Whenever a package is asked for, the database says that it is installed, with a selection that
ends in `install`. -/
def InstalledWhenAsked (site : Site Machine) (w : Machine) (es : List Event) : Prop :=
  ∀ before package reply after m, es = before ++ .host (.installPackage package) reply :: after →
    site.Takes w before m →
      ∃ selection, "install".toList <:+ selection.toList ∧ SaysInstalled m package selection

/-- Only asking for a package fails for a package. -/
theorem package_of_mem_dependencyPlan {settings : Settings} {proxy : Option Provision.ProxyConfig}
    {site : Site ω} {t : Session ω} {es : List Event} {cause : PackageError}
    {step : Hooks.Step DependencyError} (hstep : step ∈ Hooks.dependencyPlan settings proxy)
    (hg : step.Goes site t es (some (.failed (.install package cause)))) :
    es = [.host (.installPackage package) (.error cause)] := by
  cases Hooks.dependencyStep_of_mem settings hstep with
  | package other =>
    obtain ⟨reply, cause, rfl, hreply, heq⟩ := hg.of_refusal
    cases heq
    rw [← hreply]
  | refresh | directory _ | proxies _ | group | member =>
    obtain ⟨_, _, -, -, heq⟩ := hg.of_refusal
    cases heq

/-- Packages that are installed whenever they are asked for are all left alone. -/
theorem InstalledWhenAsked.reply_eq {store : Record.Store} {w v : Machine} {es : List Event}
    {reply : Except PackageError Unit} (h : InstalledWhenAsked (ground.site store) w es)
    (ht : (ground.site store).Takes w es v) (hmem : .host (.installPackage package) reply ∈ es) :
    reply = .ok () := by
  obtain ⟨before, after, rfl⟩ := List.append_of_mem hmem
  obtain ⟨m, hbefore, hafter⟩ := ht.of_append
  obtain ⟨selection, hselection, hlisted⟩ := h before package reply after m rfl hbefore
  rw [hafter.of_host.1]
  exact ((hlisted.with_log []).kept hselection).1

/-! ## A machine whose package manager refuses -/

def writing (text : String) : Reaction where
  stdout := text.toList.map fun c => c.toNat.toUInt8

def isAscii (text : String) : Bool := text.toList.all (·.toNat < 128)

theorem output_writing {text : String} (h : isAscii text = true) :
    (writing text).output.stdout = text := by
  rw [isAscii, List.all_eq_true] at h
  have hsingles : ∀ b ∈ text.toList.map fun c => c.toNat.toUInt8, Text.IsSingle b := by
    intro b hb
    obtain ⟨c, hc, rfl⟩ := List.mem_map.mp hb
    have hascii : c.toNat < 128 := of_decide_eq_true (h c hc)
    rw [Text.IsSingle, UInt8.lt_iff_toNat_lt, Nat.toUInt8_eq, UInt8.toNat_ofNat']
    change c.toNat % 256 < 128
    omega
  have hchar : ∀ c ∈ text.toList,
      ((fun b : UInt8 => Char.ofNat b.toNat) ∘ fun c => c.toNat.toUInt8) c = id c := by
    intro c hc
    have hascii : c.toNat < 128 := of_decide_eq_true (h c hc)
    change Char.ofNat c.toNat.toUInt8.toNat = c
    rw [Nat.toUInt8_eq, UInt8.toNat_ofNat', Nat.mod_eq_of_lt (by omega), Char.ofNat_toNat]
  change String.ofList (Text.decode (text.toList.map fun c => c.toNat.toUInt8)) = text
  rw [Text.decode_of_singles hsingles, List.map_map, List.map_congr_left hchar, List.map_id,
    String.ofList_toList]

/-- Every package is in the database with one status, and the package manager installs nothing. -/
def listing (status : String) (runs : List Run) : Machine where
  files := .empty
  rules := [⟨["dpkg-query"], [writing status]⟩, ⟨["apt-get", "install"], [{ code := some 100 }]⟩]
  programs := Machine.usualPrograms
  runs := runs

theorem askDatabase_listing (status : String) (runs : List Run) :
    askDatabase "docker.io" (listing status runs) =
      (.ok (writing status).output,
        noting (listing status (runs ++ [databaseRun "docker.io"]))) := by
  rw [askDatabase, run_eq]
  rfl

theorem saysInstalled_listing (runs : List Run) {status : String}
    (hascii : isAscii status = true)
    (hstatus : status = selection ++ " ok installed") :
    SaysInstalled (listing status runs) "docker.io" selection := by
  refine ⟨(writing status).output, ?_, rfl, hstatus ▸ output_writing hascii⟩
  rw [askDatabase_listing]

theorem fetchReply_listing (status : String) (runs : List Run) :
    fetchReply "docker.io" (listing status runs) = .ok (Reaction.output { code := some 100 }) := by
  rw [fetchReply, askDatabase_listing, run_eq]
  rfl

def refreshRun : Run := ⟨true, ["apt-get", "update", "-q"]⟩

theorem host_listing (store : Record.Store) :
    ∃ remarks, (ground.site store).host (.installPackage "docker.io")
        (listing "install ok installed" [refreshRun]) =
      ⟨.ok (), listing "install ok installed" [refreshRun, databaseRun "docker.io"], remarks⟩ := by
  have hstdout : (writing "install ok installed").output.stdout = "install ok installed" :=
    output_writing rfl
  have hinstalled : isInstalled (writing "install ok installed").output = true := by
    rw [isInstalled, hstdout]
    decide
  have hanswer := askDatabase_listing "install ok installed" [refreshRun]
  have hrun := run_installPackage (congrArg Prod.fst hanswer)
  rw [if_pos hinstalled, hanswer] at hrun
  change ∃ remarks, Turn.mk (installPackage "docker.io" (listing _ [refreshRun])).1
    { (installPackage "docker.io" (listing _ [refreshRun])).2 with log := [] }
    (installPackage "docker.io" (listing _ [refreshRun])).2.log = _
  rw [hrun]
  exact ⟨_, rfl⟩

theorem trace_listing (store : Record.Store) :
    (installDependencies (ground.site store) { packages := ["docker.io"] } none
      { world := listing "install ok installed" [] }).2.trace =
      [.host .refreshIndex (.ok ()), .host (.installPackage "docker.io") (.ok ()),
        .host (.ensureGroup "docker") (.ok ()),
        .host (.addToGroup "_daemon_" "docker") (.ok ())] := by
  obtain ⟨remarks, hturn⟩ := host_listing store
  have hpackage : ∀ s : Session Machine, s.world = listing "install ok installed" [refreshRun] →
      Relay.installPackages (ground.site store) ["docker.io"] s =
        (.ok (), { s with
          world := listing "install ok installed" [refreshRun, databaseRun "docker.io"]
          trace := s.trace ++ [.host (.installPackage "docker.io") (.ok ())]
          log := s.log ++ remarks }) := by
    intro s hs
    rw [Relay.installPackages, Hook.run_bind]
    simp only [Hook.host, hs, hturn]
    rfl
  unfold installDependencies
  rw [Hook.run_bind]
  change ((Relay.installPackages (ground.site store) ["docker.io"] >>= _) _).2.trace = _
  rw [Hook.run_bind, hpackage _ rfl]
  rfl

theorem installedWhenAsked_listing (store : Record.Store) {es : List Event}
    (hes : (installDependencies (ground.site store) { packages := ["docker.io"] } none
      { world := listing "install ok installed" [] }).2.trace = [] ++ es) :
    InstalledWhenAsked (ground.site store) (listing "install ok installed" []) es := by
  rw [trace_listing, List.nil_append] at hes
  intro before package reply after m heq ht
  rw [← hes] at heq
  rcases before with _ | ⟨first, _ | ⟨second, before⟩⟩
  · cases heq
  · cases heq
    obtain rfl := ht.of_host.2.unique (.nil _)
    exact ⟨"install", ⟨[], rfl⟩, saysInstalled_listing [refreshRun] rfl rfl⟩
  · -- nothing after the second call asks for a package
    have htail : _ = before ++ Event.host (.installPackage package) reply :: after :=
      (List.cons.inj (List.cons.inj heq).2).2
    have hmem : Event.host (.installPackage package) reply ∈
        before ++ .host (.installPackage package) reply :: after := by simp
    rw [← htail] at hmem
    simp at hmem

/-! ## What the selection decides -/

/-- A package whose selection ends in `install` is left alone, and the package manager is not run.
With any other word the package manager is run, and its exit code decides. Installing the relay's
dependencies does not fail for a package if every package that is asked for is left alone. -/
theorem installed_kept_by_selection (store : Record.Store) (settings : Settings)
    (proxy : Option Provision.ProxyConfig) (s : Session Machine) :
    (∀ (m : Machine) (package selection : String), SaysInstalled m package selection →
      ("install".toList <:+ selection.toList →
        (installPackage package m).1 = .ok () ∧
          (installPackage package m).2.runs = m.runs ++ [databaseRun package]) ∧
      (' ' ∉ selection.toList → ¬ "install".toList <:+ selection.toList →
        ((installPackage package m).1 = .ok () ↔ EndedWith (fetchReply package m) (some 0)) ∧
          ∀ output, fetchReply package m = .ok output →
            (installPackage package m).2.runs =
              m.runs ++ [databaseRun package, fetchRun package])) ∧
    ∃ es, (installDependencies (ground.site store) settings proxy s).2.trace = s.trace ++ es ∧
      (InstalledWhenAsked (ground.site store) s.world es →
        (∀ package reply, .host (.installPackage package) reply ∈ es → reply = .ok ()) ∧
        ∀ package cause, (installDependencies (ground.site store) settings proxy s).1 ≠
          .error (.failed (.install package cause))) := by
  refine ⟨fun m package selection h => ⟨h.kept, h.fetched⟩, ?_⟩
  obtain ⟨es, hr, hc⟩ := Hooks.follows_installDependencies (ground.site store) settings proxy s
  refine ⟨es, hr.trace, fun hinstalled => ?_⟩
  have hkept : ∀ package reply, .host (.installPackage package) reply ∈ es → reply = .ok () :=
    fun _ _ hmem => hinstalled.reply_eq hr.world hmem
  refine ⟨hkept, ?_⟩
  intro package cause hend
  rw [hend] at hc
  obtain ⟨step, hstep, before, t, fs, rfl, -, hg⟩ := hc.last_failed
  obtain rfl := package_of_mem_dependencyPlan hstep hg
  cases hkept package (.error cause) (List.mem_append_right _ List.mem_cons_self)

/-- A machine where the package is selected for installation, and one where it is on hold. -/
theorem installed_kept_by_selection_listing :
    (installPackage "docker.io" (listing "install ok installed" [])).1 = .ok () ∧
      (installPackage "docker.io" (listing "install ok installed" [])).2.runs =
        [databaseRun "docker.io"] ∧
      (installPackage "docker.io" (listing "hold ok installed" [])).2.runs =
        [databaseRun "docker.io", fetchRun "docker.io"] ∧
      ∀ cause, (installDependencies (ground.site ⟨⟨"/record"⟩⟩) { packages := ["docker.io"] } none
        { world := listing "install ok installed" [] }).1 ≠
          .error (.failed (.install "docker.io" cause)) := by
  obtain ⟨hpackages, es, htrace, hend⟩ := installed_kept_by_selection ⟨⟨"/record"⟩⟩
    { packages := ["docker.io"] } none { world := listing "install ok installed" [] }
  obtain ⟨hkept, -⟩ := hpackages (listing "install ok installed" []) "docker.io" "install"
    (saysInstalled_listing [] rfl rfl)
  obtain ⟨-, hfetched⟩ := hpackages (listing "hold ok installed" []) "docker.io" "hold"
    (saysInstalled_listing [] rfl rfl)
  obtain ⟨hok, hruns⟩ := hkept ⟨[], rfl⟩
  obtain ⟨-, hfetchedRuns⟩ := hfetched (by decide) (by decide)
  refine ⟨hok, hruns, hfetchedRuns _ (fetchReply_listing _ _), fun cause => ?_⟩
  exact (hend (installedWhenAsked_listing _ htrace)).2 "docker.io" cause

/-- A package that is on hold is in the database as installed. The package manager is run for it and
fails, and so does the installation. -/
theorem installPackage_on_hold :
    SaysInstalled (listing "hold ok installed" []) "docker.io" "hold" ∧
      (installPackage "docker.io" (listing "hold ok installed" [])).1 ≠ .ok () ∧
      (installPackage "docker.io" (listing "hold ok installed" [])).2.runs =
        [databaseRun "docker.io", fetchRun "docker.io"] := by
  have hlisted : SaysInstalled (listing "hold ok installed" []) "docker.io" "hold" :=
    saysInstalled_listing [] rfl rfl
  obtain ⟨hok, hruns⟩ := hlisted.fetched (by decide) (by decide)
  rw [fetchReply_listing, Hooks.endedWith_ok] at hok
  refine ⟨hlisted, fun h => ?_, hruns _ (fetchReply_listing _ _)⟩
  have hcode : (some 100 : Option Int) = some 0 := hok.mp h
  cases hcode

end Machine

end RelayKeeper
