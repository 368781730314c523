import RelayKeeper.Proofs.CanonicalState
import RelayKeeper.Proofs.Deferral

/-! # Attempts that come to nothing

Whatever is asked of the program, it looks at the settings and the inputs before anything else, and
what it refuses or puts off leaves no trace but the consumer that was named: no host was asked, and
the files are as they were, or have an empty bag more. To try again then changes nothing. -/
namespace RelayKeeper

/-! ## Inputs -/

namespace Provision

variable (hasHost : String → Except Net.UrlError Bool)

/-- The text of the address is none of an address, or that of a proxy none of a URL with a host. -/
def Malformed (address : Option String) (proxies : ProxyInputs) : Prop :=
  (∃ error, AddressFault address error) ∨ (∃ error, ProxyFault hasHost .http proxies.http error) ∨
    ∃ error, ProxyFault hasHost .https proxies.https error

theorem malformed_iff {address : Option String} {proxies : ProxyInputs} :
    Malformed hasHost address proxies ↔
      ∃ error, State.ofInputsBy hasHost address proxies = .error error := by
  simp only [State.ofInputsBy_eq_error_iff]
  constructor
  · intro h
    by_cases haddress : ∃ error, AddressFault address error
    · exact haddress.imp fun _ hfault => .inl hfault
    by_cases hhttp : ∃ error, ProxyFault hasHost .http proxies.http error
    · exact hhttp.imp fun _ hfault => .inr ⟨haddress, .inl hfault⟩
    obtain ⟨error, hhttps⟩ := (h.resolve_left haddress).resolve_left hhttp
    exact ⟨error, .inr ⟨haddress, .inr ⟨hhttp, hhttps⟩⟩⟩
  · rintro ⟨error, hfault | ⟨-, hfault | ⟨-, hfault⟩⟩⟩
    · exact .inl ⟨error, hfault⟩
    · exact .inr (.inl ⟨error, hfault⟩)
    · exact .inr (.inr ⟨error, hfault⟩)

end Provision

/-! ## Environment files -/

namespace Dotenv

variable {t u : FileTree}

/-- A file is found in both trees, or in neither; a directory may be new. -/
def SameFile (t u : FileTree) (p : Path) : Prop :=
  u.find p = t.find p ∨
    t.find p = .error .notFound ∧ ∃ q, u.find p = .ok (q, .directory)

theorem find?_congr {ds : List Path} (h : ∀ d ∈ ds, SameFile t u (d.join ".env")) :
    find? u ds = find? t ds ∧ ∀ path, find? t ds = some path → u.find path = t.find path := by
  induction ds with
  | nil => exact ⟨rfl, by simp [find?]⟩
  | cons d ds ih =>
    have hrest := ih fun other ho => h other (List.mem_cons_of_mem _ ho)
    unfold find?
    dsimp only
    rcases h d List.mem_cons_self with hsame | ⟨hnone, q, hdir⟩
    · rw [hsame]
      rcases hf : t.find (d.join ".env") with fault | ⟨q, node⟩
      · cases fault with
        | notFound => exact hrest
        | _ => exact ⟨rfl, by simp⟩
      · cases node with
        | directory => exact hrest
        | file content mode =>
          refine ⟨rfl, ?_⟩
          intro path hpath
          obtain rfl := Option.some.inj hpath
          exact hsame
    · rw [hnone, hdir]
      exact hrest

theorem extend_congr (hc : u.current = t.current)
    (h : ∀ d ∈ currentDirectory t :: (currentDirectory t).parents, SameFile t u (d.join ".env"))
    (env : Lookup) : extend u env = extend t env := by
  obtain ⟨hfind, hread⟩ := find?_congr h
  have hdirectory : currentDirectory u = currentDirectory t := by
    rw [currentDirectory, currentDirectory, hc]
  unfold extend
  dsimp only
  rw [hdirectory, hfind]
  cases hpath : find? t (currentDirectory t :: (currentDirectory t).parents) with
  | none => rfl
  | some path =>
    dsimp only
    rw [FileTree.read, FileTree.read, hread path hpath]

theorem isName_env : FileTree.IsName ".env" := by
  decide

/-- Where there is a working directory, a consumer that joins does not change the environment. -/
theorem extend_of_registers {s : Record.Store} {id : String} {path : Path} {place q : Place}
    (h : s.Registers id path place t u) (hq : t.find (currentDirectory t) = .ok (q, .directory))
    (env : Lookup) : extend u env = extend t env := by
  have hrooted := FileTree.rooted_of_find hq
  refine extend_congr h.current (fun d hd => ?_) env
  -- A path that no walk can take finds nothing in either tree, whatever its directory is.
  by_cases hnul : '\x00' ∈ d.chars
  · have hjoin : '\x00' ∈ (d.join ".env").chars := by
      rw [Path.chars_join d isName_env.slash]
      split <;> simp [hnul]
    have hfind : ∀ v : FileTree, v.find (d.join ".env") = .error .nulInName := by
      intro v
      have hcheck : FileTree.checkPath (d.join ".env") = .error .nulInName := by
        simp [FileTree.checkPath, hjoin]
      unfold FileTree.find
      rw [hcheck]
      rfl
    exact .inl ((hfind u).trans (hfind t).symm)
  · have hplace : ∃ r, FileTree.Rooted t d r := by
      rcases List.mem_cons.mp hd with rfl | hd
      · exact ⟨q, hrooted⟩
      · exact hrooted.parent hd hnul
    obtain ⟨r, hr⟩ := hplace
    rcases h.find_join hr isName_env (by decide) with hsame | ⟨hnone, hdir⟩
    · exact .inl hsame
    · exact .inr ⟨hnone, _, hdir⟩

end Dotenv

namespace CommandLine

open Hooks (Lawful memory)
open Record (Ground IsSafeId Store)

variable {ω : Type}

/-! ## Attempts -/

structure Attempt (ω : Type) where
  /-- Which texts are URLs, and which of these have a host. -/
  hasHost : String → Except Net.UrlError Bool
  environment : Lookup
  request : Request
  start : ω

namespace Attempt

variable (g : Ground ω) (a : Attempt ω)

def settingsPath : Path :=
  (a.request.settingsFile.map Path.mk).getD a.environment.settingsPath

def settings : Except SettingsFile.SettingsError Settings :=
  SettingsFile.loadOrDefault (g.files a.start) a.settingsPath

def inputs : Except Provision.StateError Provision.State :=
  Provision.State.ofInputsBy a.hasHost a.request.bindAddress a.request.proxies

def ending : Ending :=
  .ended (perform g a.hasHost a.environment a.request { world := a.start }).1

def after : Session ω :=
  (perform g a.hasHost a.environment a.request { world := a.start }).2

def left : FileTree := g.files (a.after g).world

def Waits : Prop :=
  ∃ settings state, a.settings g = .ok settings ∧ a.inputs = .ok state ∧
    Lacking settings state a.request (g.files a.start)

/-- The consumer that is named has got an empty bag. -/
def Enrolls : Prop :=
  ∃ settings id path place, a.settings g = .ok settings ∧ a.request.command = .consumerJoined ∧
    a.request.relation = some id ∧
    Store.Registers ⟨settings.stateDir⟩ id path place (g.files a.start) (a.left g)

def Idle : Prop :=
  (a.after g).trace = [] ∧ a.left g = g.files a.start

/-- What is refused or put off does no harm. -/
structure Harmless : Prop where
  refused : (∃ error, a.settings g = .error error) ∨
      Provision.Malformed a.hasHost a.request.bindAddress a.request.proxies →
    (a.ending g).code = 1 ∧ (a.after g).trace = [] ∧ (a.after g).world = a.start
  rejected : a.request.command = .consumerJoined → ∀ id, a.request.relation = some id →
    ¬ IsSafeId id → (a.ending g).code = 1 ∧ a.Idle g
  deferred : (a.ending g).code = 75 ↔ a.Waits g
  quiet : (a.ending g).code = 75 → (a.after g).trace = [] ∧ (a.left g = g.files a.start ∨ a.Enrolls g)
  /-- Whatever is there stays, if the state directory does not step back. -/
  stays : (a.ending g).code = 75 → FileTree.Closed (g.files a.start) →
    (∀ settings, a.settings g = .ok settings → ".." ∉ settings.stateDir.names) →
    ∀ place, ((g.files a.start).node? place).isSome →
      (a.left g).node? place = (g.files a.start).node? place
  /-- The same is put off again on the files that are left, if the settings load as before. -/
  again : (a.ending g).code = 75 → ∀ b : Attempt ω, b.hasHost = a.hasHost → b.request = a.request →
    g.files b.start = a.left g → b.settings g = a.settings g → (b.ending g).code = 75 ∧ b.Idle g
  /-- They do so if their file is there and was not replaced. -/
  settled : (a.ending g).code = 75 → ∀ place node,
    (g.files a.start).find a.settingsPath = .ok (place, node) →
    (a.left g).node? place = (g.files a.start).node? place →
    SettingsFile.loadOrDefault (a.left g) a.settingsPath = a.settings g

variable {g : Ground ω} {a : Attempt ω} {settings : Settings} {state : Provision.State}

theorem run_loadSettings (s : Session ω) (hs : s.world = a.start) :
    ∃ log, loadSettings g a.environment a.request s =
      ((a.settings g).mapError fun error => .failed (.settings error), { s with log }) := by
  obtain ⟨hasHost, environment, request, start⟩ := a
  obtain rfl : s.world = start := hs
  unfold loadSettings Attempt.settings settingsPath
  dsimp only
  rw [Hook.run_bind]
  dsimp only [Hook.inspect]
  generalize (request.settingsFile.map Path.mk).getD environment.settingsPath = path
  by_cases hc : (g.files s.world).contains path = true
  · rw [hc]
    refine ⟨s.log, ?_⟩
    cases SettingsFile.loadOrDefault (g.files s.world) path <;> rfl
  · rw [Bool.eq_false_iff.mpr hc]
    refine ⟨s.log ++ [⟨.debug, settingsComponent, "No settings file, using defaults", none⟩], ?_⟩
    cases SettingsFile.loadOrDefault (g.files s.world) path <;> rfl

theorem perform_of_settings_error {error : SettingsFile.SettingsError}
    (h : a.settings g = .error error) :
    ∃ log, perform g a.hasHost a.environment a.request { world := a.start } =
      (.error (.failed (.settings error)), { world := a.start, log }) := by
  obtain ⟨log, hload⟩ := run_loadSettings (g := g) (a := a) { world := a.start } rfl
  refine ⟨log, ?_⟩
  unfold perform
  rw [Hook.run_bind, hload, h]
  rfl

theorem perform_of_inputs_error {error : Provision.StateError} (hs : a.settings g = .ok settings)
    (h : a.inputs = .error error) :
    ∃ log, perform g a.hasHost a.environment a.request { world := a.start } =
      (.error (.failed (.inputs error)), { world := a.start, log }) := by
  obtain ⟨log, hload⟩ := run_loadSettings (g := g) (a := a) { world := a.start } rfl
  refine ⟨log, ?_⟩
  unfold inputs at h
  unfold perform
  rw [Hook.run_bind, hload, hs, h]
  rfl

theorem perform_of_ok (hs : a.settings g = .ok settings) (hi : a.inputs = .ok state) :
    ∃ log, perform g a.hasHost a.environment a.request { world := a.start } =
      performCommand g a.request settings state { world := a.start, log } := by
  obtain ⟨log, hload⟩ := run_loadSettings (g := g) (a := a) { world := a.start } rfl
  refine ⟨log, ?_⟩
  unfold inputs at hi
  unfold perform
  rw [Hook.run_bind, hload, hs, hi]
  rfl

theorem refused_of_error
    (h : (∃ error, a.settings g = .error error) ∨ ∃ error, a.inputs = .error error) :
    (a.ending g).code = 1 ∧ (a.after g).trace = [] ∧ (a.after g).world = a.start := by
  have hfailed : ∃ failure log, perform g a.hasHost a.environment a.request { world := a.start } =
      (.error (.failed failure), { world := a.start, log }) := by
    cases hs : a.settings g with
    | error error =>
      obtain ⟨log, hrun⟩ := perform_of_settings_error hs
      exact ⟨_, log, hrun⟩
    | ok settings =>
      obtain ⟨error, hi⟩ := h.resolve_left (by simp [hs])
      obtain ⟨log, hrun⟩ := perform_of_inputs_error hs hi
      exact ⟨_, log, hrun⟩
  obtain ⟨failure, log, hrun⟩ := hfailed
  unfold ending after
  rw [hrun]
  exact ⟨rfl, rfl, rfl⟩

theorem idle_of_error
    (h : (∃ error, a.settings g = .error error) ∨ ∃ error, a.inputs = .error error) :
    (a.ending g).code = 1 ∧ a.Idle g := by
  obtain ⟨hcode, htrace, hworld⟩ := refused_of_error h
  unfold Idle left
  rw [hworld]
  exact ⟨hcode, htrace, rfl⟩

theorem rejected_of_not_safe (hg : Lawful g) (hc : a.request.command = .consumerJoined)
    {id : String} (hid : a.request.relation = some id) (hs : ¬ IsSafeId id) :
    (a.ending g).code = 1 ∧ a.Idle g := by
  rcases hsettings : a.settings g with error | settings
  · exact idle_of_error (.inl ⟨error, hsettings⟩)
  rcases hinputs : a.inputs with error | state
  · exact idle_of_error (.inr ⟨error, hinputs⟩)
  obtain ⟨log, hrun⟩ := perform_of_ok hsettings hinputs
  obtain ⟨t, hjoin, htrace, hfiles⟩ :=
    run_joinConsumer hg settings hc { world := a.start, log }
  have henroll : enroll settings a.request (g.files a.start) =
      (.error (.invalidId id), g.files a.start) := by
    unfold enroll
    rw [hc, hid]
    exact Store.joinRelation_of_not_safe _ _ hs
  dsimp only at hjoin hfiles
  rw [henroll] at hjoin hfiles
  have hcommand : performCommand g a.request settings state { world := a.start, log } =
      (.error (.failed (.record (.invalidId id))), t) := by
    unfold performCommand
    rw [hc]
    dsimp only
    rw [Hook.run_bind, hjoin]
    rfl
  unfold Idle left ending after
  rw [hrun, hcommand]
  exact ⟨rfl, htrace, hfiles⟩

theorem deferred_iff (hg : Lawful g) : (a.ending g).code = 75 ↔ a.Waits g := by
  have hrefused : (∃ error, a.settings g = .error error) ∨ (∃ error, a.inputs = .error error) →
      ¬ (a.ending g).code = 75 := by
    intro h hcode
    rw [(refused_of_error h).1] at hcode
    omega
  unfold Waits
  rcases hsettings : a.settings g with error | settings
  · have hnot := hrefused (.inl ⟨error, hsettings⟩)
    simp [hnot]
  rcases hinputs : a.inputs with error | state
  · have hnot := hrefused (.inr ⟨error, hinputs⟩)
    simp [hnot]
  obtain ⟨log, hrun⟩ := perform_of_ok hsettings hinputs
  have hputs := putsOff_performCommand hg settings state a.request { world := a.start, log }
  unfold ending
  rw [code_deferred_iff, hrun, hputs.iff]
  simp

/-- What is put off leaves the files that there are once the consumer has joined. -/
theorem quiet_of_lacking (hg : Lawful g) (hs : a.settings g = .ok settings)
    (hi : a.inputs = .ok state) (h : Lacking settings state a.request (g.files a.start)) :
    (a.after g).trace = [] ∧ enroll settings a.request (g.files a.start) = (.ok (), a.left g) := by
  obtain ⟨log, hrun⟩ := perform_of_ok hs hi
  have hputs := putsOff_performCommand hg settings state a.request { world := a.start, log }
  obtain ⟨htrace, hfiles⟩ := hputs.quiet h
  unfold left after
  rw [hrun, htrace, hfiles]
  exact ⟨rfl, Prod.ext (enroll_of_lacking h) rfl⟩

theorem of_deferred (hg : Lawful g) (h : (a.ending g).code = 75) :
    ∃ settings state, a.settings g = .ok settings ∧ a.inputs = .ok state ∧
      Lacking settings state a.request (g.files a.start) ∧ (a.after g).trace = [] ∧
      enroll settings a.request (g.files a.start) = (.ok (), a.left g) := by
  obtain ⟨settings, state, hs, hi, hl⟩ := (deferred_iff hg).mp h
  exact ⟨settings, state, hs, hi, hl, quiet_of_lacking hg hs hi hl⟩

theorem again_of_deferred (hg : Lawful g) (h : (a.ending g).code = 75) {b : Attempt ω}
    (hhost : b.hasHost = a.hasHost) (hrequest : b.request = a.request)
    (hfiles : g.files b.start = a.left g) (hsettings : b.settings g = a.settings g) :
    (b.ending g).code = 75 ∧ b.Idle g := by
  obtain ⟨settings, state, hs, hi, hl, -, henroll⟩ := of_deferred hg h
  have hlacking := lacking_again henroll hl
  have hbi : b.inputs = .ok state := by rw [inputs, hhost, hrequest, ← inputs, hi]
  rw [← hrequest, ← hfiles] at hlacking
  rw [hs] at hsettings
  obtain ⟨htrace, hstays⟩ := quiet_of_lacking hg hsettings hbi hlacking
  rw [hrequest, hfiles, enroll_again henroll] at hstays
  have hleft : b.left g = g.files b.start := by rw [hfiles, (Prod.mk.inj hstays).2]
  exact ⟨(deferred_iff hg).mpr ⟨settings, state, hsettings, hbi, hlacking⟩, htrace, hleft⟩

theorem harmless (hg : Lawful g) (a : Attempt ω) : a.Harmless g := by
  constructor
  · rintro (h | h)
    · exact refused_of_error (.inl h)
    · exact refused_of_error (.inr ((Provision.malformed_iff a.hasHost).mp h))
  · intro hc id hid hs
    exact rejected_of_not_safe hg hc hid hs
  · exact deferred_iff hg
  · intro hcode
    obtain ⟨settings, state, hs, hi, hl, htrace, henroll⟩ := of_deferred hg hcode
    refine ⟨htrace, ?_⟩
    rcases enroll_cases henroll with hsame | ⟨id, path, place, hc, hid, hr⟩
    · exact .inl hsame
    · exact .inr ⟨settings, id, path, place, hs, hc, hid, hr⟩
  · intro hcode hclosed hdots place hplace
    obtain ⟨settings, state, hs, -, -, -, henroll⟩ := of_deferred hg hcode
    exact enroll_stays henroll hclosed (hdots settings hs) hplace
  · intro hcode b hhost hrequest hfiles hsettings
    exact again_of_deferred hg hcode hhost hrequest hfiles hsettings
  · intro hcode place node hf hnode
    obtain ⟨settings, state, hs, -, -, -, henroll⟩ := of_deferred hg hcode
    refine loadOrDefault_congr ?_
    rcases enroll_cases henroll with hsame | ⟨id, path, bag, -, -, hr⟩
    · rw [hsame]
    · rw [hr.find_eq hf hnode, hf]

end Attempt

/-! ## Runs -/

def logSetup (request : Request) : Log.Setup :=
  if request.logToFile then .file programName else .standard

def Attempt.ofRun (g : Ground ω) (hasHost : String → Except Net.UrlError Bool)
    (environment : Lookup) (request : Request) (world : ω) :
    Attempt ω where
  hasHost := hasHost
  environment := Dotenv.extend (g.files world) environment
  request := request
  start := g.withFiles world ((logSetup request).start (Dotenv.extend (g.files world) environment)
    (g.files world)).2

/-- The run ends as the attempt does, and what it does besides, it does to its log. -/
structure CarriesOut (g : Ground ω) (hasHost : String → Except Net.UrlError Bool)
    (environment : Lookup) (words : List String) (world : ω) (a : Attempt ω) : Prop where
  ending : (run g hasHost environment words world).ending = a.ending g
  logged : ∃ entries, g.files (run g hasHost environment words world).world =
    (((logSetup a.request).start a.environment (g.files world)).1.write entries (a.left g)).2
  plain : a.request.logToFile = false → g.files a.start = g.files world ∧
    g.files (run g hasHost environment words world).world = a.left g

theorem run_of_parsed (g : Ground ω) {hasHost : String → Except Net.UrlError Bool}
    {environment : Lookup} {words : List String} {world : ω}
    {request : Request}
    (h : Request.parse (Dotenv.extend (g.files world) environment) words = .ok request) :
    ∃ entries, (run g hasHost environment words world).ending =
        (Attempt.ofRun g hasHost environment request world).ending g ∧
      (run g hasHost environment words world).world =
        g.withFiles ((Attempt.ofRun g hasHost environment request world).after g).world
          (((logSetup request).start (Dotenv.extend (g.files world) environment)
            (g.files world)).1.write entries
              ((Attempt.ofRun g hasHost environment request world).left g)).2 := by
  unfold run
  dsimp only
  rw [h]
  exact ⟨_, rfl, rfl⟩

theorem carriesOut_ofRun {g : Ground ω} (hg : Lawful g)
    (hasHost : String → Except Net.UrlError Bool) {environment : Lookup} {words : List String}
    {world : ω} {request : Request}
    (h : Request.parse (Dotenv.extend (g.files world) environment) words = .ok request) :
    CarriesOut g hasHost environment words world (.ofRun g hasHost environment request world) := by
  obtain ⟨entries, hending, hworld⟩ := run_of_parsed g h
  constructor
  · exact hending
  · rw [hworld, hg]
    exact ⟨entries, rfl⟩
  · intro hlog
    have hsetup : logSetup request = .standard := by
      unfold logSetup
      exact if_neg (by simpa [Attempt.ofRun] using hlog)
    unfold Attempt.ofRun at hworld ⊢
    rw [hsetup] at hworld ⊢
    rw [hworld, hg, hg]
    exact ⟨rfl, rfl⟩

/-- A run that was put off, done again in a working directory that is there and with settings that
load as before, is put off again and changes nothing. -/
def Repeats (g : Ground ω) (hasHost : String → Except Net.UrlError Bool) (environment : Lookup)
    (words : List String) (world : ω) (a : Attempt ω) : Prop :=
  a.request.logToFile = false → (run g hasHost environment words world).ending.code = 75 →
    (∃ q, (g.files world).find (Dotenv.currentDirectory (g.files world)) = .ok (q, .directory)) →
    SettingsFile.loadOrDefault (g.files (run g hasHost environment words world).world)
        a.settingsPath = a.settings g →
    (run g hasHost environment words
        (run g hasHost environment words world).world).ending.code = 75 ∧
      g.files (run g hasHost environment words
          (run g hasHost environment words world).world).world =
        g.files (run g hasHost environment words world).world

theorem repeats_ofRun {g : Ground ω} (hg : Lawful g)
    (hasHost : String → Except Net.UrlError Bool) {environment : Lookup} {words : List String}
    {world : ω} {request : Request}
    (h : Request.parse (Dotenv.extend (g.files world) environment) words = .ok request) :
    Repeats g hasHost environment words world (.ofRun g hasHost environment request world) := by
  rintro hlog hcode ⟨q, hq⟩ hload
  have hcarries := carriesOut_ofRun hg hasHost h
  obtain ⟨hstart, hfiles⟩ := hcarries.plain hlog
  rw [hcarries.ending] at hcode
  have hharmless := Attempt.harmless hg (Attempt.ofRun g hasHost environment request world)
  generalize (run g hasHost environment words world).world = next at *
  -- The bag is no environment file, so the words are read as in the first run.
  have henvironment : Dotenv.extend (g.files next) environment =
      Dotenv.extend (g.files world) environment := by
    rw [hfiles]
    rcases (hharmless.quiet hcode).2 with hsame | ⟨settings, id, path, place, -, -, -, hr⟩
    · rw [hsame, hstart]
    · rw [hstart] at hr
      exact Dotenv.extend_of_registers hr hq environment
  have hnext : Request.parse (Dotenv.extend (g.files next) environment) words = .ok request := by
    rw [henvironment, h]
  have hcarriesNext := carriesOut_ofRun hg hasHost hnext
  obtain ⟨hstartNext, hfilesNext⟩ := hcarriesNext.plain hlog
  have hsettings : (Attempt.ofRun g hasHost environment request next).settings g =
      (Attempt.ofRun g hasHost environment request world).settings g := by
    have hpath : (Attempt.ofRun g hasHost environment request next).settingsPath =
        (Attempt.ofRun g hasHost environment request world).settingsPath := by
      unfold Attempt.settingsPath Attempt.ofRun
      rw [henvironment]
    rw [← hload, Attempt.settings, hstartNext, hpath]
  obtain ⟨hagain, hidle⟩ := hharmless.again hcode (.ofRun g hasHost environment request next) rfl rfl
    (hstartNext.trans hfiles) hsettings
  constructor
  · rw [hcarriesNext.ending]
    exact hagain
  · rw [hfilesNext, hidle.2, hstartNext]

/-- Whatever the command line, the settings and the files are, what a run refuses or puts off does no
harm, and what is put off can be tried again. -/
theorem refused_or_deferred_harmless {g : Ground ω} (hg : Lawful g)
    (hasHost : String → Except Net.UrlError Bool) {environment : Lookup}
    {words : List String} {world : ω} {request : Request}
    (h : Request.parse (Dotenv.extend (g.files world) environment) words = .ok request) :
    CarriesOut g hasHost environment words world (.ofRun g hasHost environment request world) ∧
      (Attempt.ofRun g hasHost environment request world).Harmless g ∧
      Repeats g hasHost environment words world (.ofRun g hasHost environment request world) :=
  ⟨carriesOut_ofRun hg hasHost h, Attempt.harmless hg _, repeats_ofRun hg hasHost h⟩

def early : Request where
  command := .consumerJoined
  relation := some "web:0"
  settingsFile := none
  bindAddress := none
  proxies := {}
  logToFile := false

def earlyWords : List String := ["consumer-joined", "--relation", "web:0"]

def earlyRun (t : FileTree) : Report FileTree :=
  run memory Net.Url.hasHost (fun _ => none) earlyWords t

def earlyAttempt : Attempt FileTree :=
  .ofRun memory Net.Url.hasHost (fun _ => none) early FileTree.empty

/-- It gets an empty bag, and trying again changes nothing. -/
theorem refused_or_deferred_harmless_early :
    Request.parse (Dotenv.extend FileTree.empty fun _ => none) earlyWords = .ok early ∧
      (earlyRun FileTree.empty).ending.code = 75 ∧ earlyAttempt.Enrolls memory ∧
      (earlyRun (earlyRun FileTree.empty).world).ending.code = 75 := by
  have hparse : Request.parse (Dotenv.extend (memory.files FileTree.empty) fun _ => none)
      earlyWords = .ok early := by decide +kernel
  obtain ⟨hcarries, hharmless, hrepeats⟩ :=
    refused_or_deferred_harmless (g := memory) (fun _ _ => rfl) Net.Url.hasHost hparse
  have hcode : (earlyRun FileTree.empty).ending.code = 75 := by decide +kernel
  have hhere : ∃ q, (memory.files FileTree.empty).find
      (Dotenv.currentDirectory (memory.files FileTree.empty)) = .ok (q, .directory) :=
    ⟨[], by rfl⟩
  have hload : SettingsFile.loadOrDefault (memory.files (earlyRun FileTree.empty).world)
      earlyAttempt.settingsPath = earlyAttempt.settings memory := by
    decide +kernel
  have hbag : (earlyAttempt.left memory).contains
      ⟨"/var/lib/tmate-operator/relations/web:0.json"⟩ = true := by decide +kernel
  have hnone : FileTree.empty.contains ⟨"/var/lib/tmate-operator/relations/web:0.json"⟩ = false := by
    decide +kernel
  refine ⟨hparse, hcode, ?_, (hrepeats rfl hcode hhere hload).1⟩
  have hattempt : (earlyAttempt.ending memory).code = 75 := hcarries.ending ▸ hcode
  rcases (hharmless.quiet hattempt).2 with hsame | henrolls
  · have hsame' : earlyAttempt.left memory = FileTree.empty := hsame.trans (hcarries.plain rfl).1
    rw [hsame'] at hbag
    cases hnone.symm.trans hbag
  · exact henrolls

def joinsBy (settingsFile : String) (t : FileTree) : Report FileTree :=
  run memory Net.Url.hasHost (fun _ => none)
    ["--config", settingsFile, "consumer-joined", "--relation", "web"] t

/-- Settings that want the record in the directory above one that is not there. -/
def steppingBack : Node :=
  .file "state_dir = '/spare/..'\n".toUTF8 FileTree.newFileMode

def overBag : FileTree :=
  ((FileTree.empty.put ["settings.toml"] steppingBack).put ["relations"] .directory).put
    ["relations", "web.json"]
    (.file "\x7b\"host\": \"10.0.0.10\"\x7d".toUTF8 FileTree.newFileMode)

def overSettings : FileTree :=
  (FileTree.empty.put ["relations"] .directory).put ["relations", "web.json"] steppingBack

/-- A bag that is there is emptied. If the settings lie in its place, what was put off fails when it is
tried again. -/
theorem deferral_overwrites :
    ((joinsBy "/settings.toml" overBag).ending.code = 75 ∧
        overBag.readText ⟨"/relations/web.json"⟩ = .ok "\x7b\"host\": \"10.0.0.10\"\x7d" ∧
        (joinsBy "/settings.toml" overBag).world.readText ⟨"/relations/web.json"⟩ = .ok "\x7b\x7d") ∧
      (joinsBy "/relations/web.json" overSettings).ending.code = 75 ∧
        (joinsBy "/relations/web.json" overSettings).world.readText ⟨"/relations/web.json"⟩ =
          .ok "\x7b\x7d" ∧
        (joinsBy "/relations/web.json"
          (joinsBy "/relations/web.json" overSettings).world).ending.code = 1 := by
  decide +kernel

end CommandLine

end RelayKeeper
