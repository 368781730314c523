import RelayKeeper.CommandLine.Run
import RelayKeeper.Proofs.BagSnapshots
import RelayKeeper.Proofs.InstallPlan
import RelayKeeper.Proofs.Registration

/-! # What puts a command off

A command is put off if something is lacking: an address, or keys that are ready. It has then asked
nobody for anything, and the files are those that there are once the consumer that is named has
joined, who can join again without a change. -/
namespace RelayKeeper

/-! ## What hooks put off -/

namespace Hooks

open Relay

variable {ω : Type}

def NotReady (settings : Settings) (files : FileTree) : Prop :=
  ∃ missing, fingerprints settings files = .ok (.notReady missing)

theorem yields_updateStatus (site : Site ω) (settings : Settings) (state : Provision.State) :
    (updateStatus site settings state).Yields .completed := by
  unfold updateStatus
  refine Hook.Yields.bind fun reconciled => ?_
  cases state.address with
  | none =>
    refine Hook.Yields.bind fun _ => ?_
    exact .pure _
  | some address =>
    dsimp only
    by_cases h : reconciled = .restarted
    · rw [if_pos h]
      iterate 3 refine Hook.Yields.bind fun _ => ?_
      exact .pure _
    · rw [if_neg h]
      iterate 2 refine Hook.Yields.bind fun _ => ?_
      exact .pure _

theorem Joins.deferred_iff {settings : Settings} {files : FileTree} {address : Option Net.Address}
    {es : List Event} {r : Except (Halt HookError) Outcome} (h : Joins settings files address es r) :
    (∃ reason, r = .ok (.deferred reason)) ↔ address = none ∨ NotReady settings files := by
  unfold NotReady
  cases h with
  | unbound => simp
  | unreadable hf => simp [hf]
  | waiting hf => simp [hf]
  | told hf _ => simp [hf]

theorem Joins.quiet {settings : Settings} {files : FileTree} {address : Option Net.Address}
    {es : List Event} {reason : String}
    (h : Joins settings files address es (.ok (.deferred reason))) : es = [] := by
  cases h with
  | unbound | waiting _ => rfl

end Hooks

namespace CommandLine

open Hooks (Lawful NotReady)
open Record (Ground IsSafeId Store)

variable {ω : Type}

/-! ## Commands -/

def IsDeferred (r : Except (Halt Failure) Completion) : Prop :=
  ∃ reason output, r = .ok ⟨.deferred reason, output⟩

theorem code_deferred_iff (r : Except (Halt Failure) Completion) :
    (Ending.ended r).code = 75 ↔ IsDeferred r := by
  unfold IsDeferred
  rcases r with (error | _) | ⟨_ | reason, output⟩ <;>
    simp [Ending.code, Ending.deferredCode]

def enroll (settings : Settings) (request : Request) (t : FileTree) : Store.Outcome Unit :=
  match request.command, request.relation with
  | .consumerJoined, some id => Store.joinRelation ⟨settings.stateDir⟩ id t
  | _, _ => (.ok (), t)

/-- What puts a request off: an installation has no address, a consumer that has joined no address or
no keys, or there are no keys to show. -/
def Lacking (settings : Settings) (state : Provision.State) (request : Request) (t : FileTree) :
    Prop :=
  match request.command with
  | .install => state.address = none
  | .consumerJoined =>
    (enroll settings request t).1 = .ok () ∧
      (state.address = none ∨ NotReady settings (enroll settings request t).2)
  | .fingerprints => NotReady settings t
  | .updateStatus | .getServerConfig => False

/-- In this session the part is put off just if something is lacking, and then it has asked nobody and
leaves these files. -/
structure PutsOff (g : Ground ω) (x : Hook ω Failure Completion) (s : Session ω) (lacking : Prop)
    (left : FileTree) : Prop where
  iff : IsDeferred (x s).1 ↔ lacking
  quiet : lacking → (x s).2.trace = s.trace ∧ g.files (x s).2.world = left

section commands

variable {g : Ground ω} {settings : Settings} {state : Provision.State} {s : Session ω}

theorem run_performHook (hook : Hook ω Hooks.HookError Hooks.Outcome) (s : Session ω) :
    (performHook hook : Hook ω Failure Completion) s =
      match hook s with
      | (.ok outcome, t) => (.ok { outcome }, t)
      | (.error halt, t) => (.error (halt.map .hook), t) := by
  unfold performHook Hook.mapError
  rw [Hook.run_bind]
  rcases hook s with ⟨halt | outcome, t⟩ <;> rfl

theorem deferred_performHook (hook : Hook ω Hooks.HookError Hooks.Outcome) (s : Session ω) :
    (IsDeferred ((performHook hook : Hook ω Failure Completion) s).1 ↔
        ∃ reason, (hook s).1 = .ok (.deferred reason)) ∧
      ((performHook hook : Hook ω Failure Completion) s).2 = (hook s).2 := by
  rw [run_performHook]
  unfold IsDeferred
  rcases hook s with ⟨halt | outcome, t⟩ <;> simp

theorem putsOff_of_yields {hook : Hook ω Hooks.HookError Hooks.Outcome} (h : hook.Yields .completed)
    (left : FileTree) : PutsOff g (performHook hook) s False left := by
  refine ⟨?_, False.elim⟩
  rw [(deferred_performHook hook s).1]
  constructor
  · rintro ⟨reason, hr⟩
    cases h s _ hr
  · exact False.elim

theorem putsOff_install (site : Site ω) :
    PutsOff g (performHook (Hooks.install site settings state)) s (state.address = none)
      (g.files s.world) := by
  cases haddress : state.address with
  | none =>
    obtain ⟨es, hr, rfl, hend⟩ := Hooks.makes_install_unbound site settings haddress s
    obtain ⟨hdeferred, hsession⟩ :=
      deferred_performHook (Hooks.install site settings state) s
    obtain ⟨htrace, hworld⟩ := hr.of_nil
    constructor
    · rw [hdeferred, hend]
      simp
    · intro _
      rw [hsession, htrace, hworld]
      exact ⟨rfl, rfl⟩
  | some address =>
    have hyields := Hooks.yields_install site settings haddress
    obtain ⟨hiff, -⟩ := putsOff_of_yields (g := g) (s := s) hyields (g.files s.world)
    refine ⟨?_, fun h => by cases h⟩
    rw [hiff]
    simp

theorem putsOff_consumerJoined (site : Site ω) (hsite : site.files = g.files) :
    PutsOff g (performHook (Hooks.consumerJoined site settings state)) s
      (state.address = none ∨ NotReady settings (g.files s.world)) (g.files s.world) := by
  obtain ⟨es, hr, hj⟩ := Hooks.makes_consumerJoined site settings state s
  rw [hsite] at hj
  obtain ⟨hdeferred, hsession⟩ := deferred_performHook (Hooks.consumerJoined site settings state) s
  constructor
  · rw [hdeferred, hj.deferred_iff]
  · intro hlacking
    obtain ⟨reason, hend⟩ := hj.deferred_iff.mpr hlacking
    rw [hend] at hj
    obtain rfl := hj.quiet
    obtain ⟨htrace, hworld⟩ := hr.of_nil
    rw [hsession, htrace, hworld]
    exact ⟨rfl, rfl⟩

theorem putsOff_query (files left : FileTree) :
    PutsOff g (performQuery settings state files) s False left := by
  refine ⟨⟨?_, False.elim⟩, False.elim⟩
  rintro ⟨reason, output, h⟩
  unfold performQuery at h
  rw [Hook.run_bind] at h
  cases hanswer : (Query.serverConfig settings files state).result <;>
    simp [hanswer, Hook.logAll, Hook.fail, Hook.run_pure] at h

theorem putsOff_fingerprints (files : FileTree) :
    PutsOff g (performFingerprints settings files) s (NotReady settings files)
      (g.files s.world) := by
  unfold performFingerprints NotReady
  rcases Relay.fingerprints settings files with cause | ready | missing
  · exact ⟨by simp [IsDeferred, Hook.fail], by simp⟩
  · exact ⟨by simp [IsDeferred, Hook.run_pure], by simp⟩
  · exact ⟨⟨fun _ => ⟨missing, rfl⟩, fun _ => ⟨_, _, rfl⟩⟩, fun _ => ⟨rfl, rfl⟩⟩

namespace PutsOff

variable {α : Type} {x : Hook ω Failure α} {f : α → Hook ω Failure Completion} {t : Session ω}
  {lacking : Prop} {left : FileTree}

theorem of_error {halt : Halt Failure} (hx : x s = (.error halt, t)) :
    PutsOff g (x >>= f) s False left := by
  refine ⟨⟨?_, False.elim⟩, False.elim⟩
  rw [Hook.run_bind, hx]
  rintro ⟨_, _, h⟩
  cases h

theorem bind {a : α} (hx : x s = (.ok a, t)) (ht : t.trace = s.trace)
    (h : PutsOff g (f a) t lacking left) : PutsOff g (x >>= f) s lacking left := by
  have hrun : (x >>= f) s = f a t := by rw [Hook.run_bind, hx]
  constructor
  · rw [hrun]
    exact h.iff
  · intro hlacking
    rw [hrun, ← ht]
    exact h.quiet hlacking

theorem congr {lacking' : Prop} {x : Hook ω Failure Completion} (h : PutsOff g x s lacking left)
    (hl : lacking ↔ lacking') : PutsOff g x s lacking' left :=
  ⟨h.iff.trans hl, fun h' => h.quiet (hl.mpr h')⟩

end PutsOff

/-- The consumer that is named joins, and no event tells of it. -/
theorem run_joinConsumer (hg : Lawful g) (settings : Settings) {request : Request}
    (hc : request.command = .consumerJoined) (s : Session ω) :
    ∃ t, joinConsumer g ⟨settings.stateDir⟩ request.relation s =
        ((enroll settings request (g.files s.world)).1.mapError fun error =>
          .failed (.record error), t) ∧
      t.trace = s.trace ∧
      g.files t.world = (enroll settings request (g.files s.world)).2 := by
  unfold joinConsumer enroll
  rw [hc]
  cases request.relation with
  | none => exact ⟨s, rfl, rfl, rfl⟩
  | some id =>
    dsimp only
    rw [Hook.run_bind]
    dsimp only [Hook.ask, Ground.onFiles, Store.join]
    rcases Store.joinRelation ⟨settings.stateDir⟩ id (g.files s.world) with ⟨error | _, after⟩
    · exact ⟨_, rfl, rfl, hg _ _⟩
    · exact ⟨_, rfl, rfl, hg _ _⟩

theorem enroll_of_ne {request : Request} (hc : request.command ≠ .consumerJoined) (t : FileTree) :
    enroll settings request t = (.ok (), t) := by
  unfold enroll
  split
  · next heq _ => exact absurd heq hc
  · rfl

theorem enroll_of_lacking {request : Request} {t : FileTree} (h : Lacking settings state request t) :
    (enroll settings request t).1 = .ok () := by
  by_cases hc : request.command = .consumerJoined
  · unfold Lacking at h
    rw [hc] at h
    exact h.1
  · rw [enroll_of_ne hc]

theorem enroll_cases {request : Request} {t u : FileTree}
    (h : enroll settings request t = (.ok (), u)) :
    u = t ∨ ∃ id path place, request.command = .consumerJoined ∧ request.relation = some id ∧
      Store.Registers ⟨settings.stateDir⟩ id path place t u := by
  by_cases hc : request.command = .consumerJoined
  · unfold enroll at h
    rw [hc] at h
    cases hid : request.relation with
    | none =>
      rw [hid] at h
      exact .inl (Prod.mk.inj h).2.symm
    | some id =>
      rw [hid] at h
      rcases Store.of_joinRelation h with hsame | ⟨path, place, hr⟩
      · exact .inl hsame
      · exact .inr ⟨id, path, place, hc, rfl, hr⟩
  · rw [enroll_of_ne hc] at h
    exact .inl (Prod.mk.inj h).2.symm

theorem enroll_stays {request : Request} {t u : FileTree}
    (h : enroll settings request t = (.ok (), u)) (hclosed : FileTree.Closed t)
    (hdots : ".." ∉ settings.stateDir.names) {place : Place} (hplace : (t.node? place).isSome) :
    u.node? place = t.node? place := by
  rcases enroll_cases h with rfl | ⟨id, path, bag, -, -, hr⟩
  · rfl
  · have hne : place ≠ bag := by
      rintro rfl
      simp [hr.fresh hclosed hdots] at hplace
    rcases hr.rest place hne with heq | ⟨hnone, -⟩
    · exact heq
    · simp [hnone] at hplace

theorem enroll_again {request : Request} {t u : FileTree}
    (h : enroll settings request t = (.ok (), u)) :
    enroll settings request u = (.ok (), u) := by
  by_cases hc : request.command = .consumerJoined
  · unfold enroll at h ⊢
    rw [hc] at h ⊢
    cases hid : request.relation with
    | none => rfl
    | some id =>
      rw [hid] at h
      exact Store.joinRelation_again h
  · exact enroll_of_ne hc u

/-- On the files that are left the same is lacking as before. -/
theorem lacking_again {request : Request} {t u : FileTree} (h : enroll settings request t = (.ok (), u))
    (hl : Lacking settings state request t) : Lacking settings state request u := by
  by_cases hc : request.command = .consumerJoined
  · have hagain := enroll_again h
    unfold Lacking at hl ⊢
    rw [hc, h] at hl
    rw [hc, hagain]
    exact hl
  · rw [enroll_of_ne hc] at h
    obtain rfl := (Prod.mk.inj h).2
    exact hl

theorem loadOrDefault_congr {t u : FileTree} {p : Path} (h : t.find p = u.find p) :
    SettingsFile.loadOrDefault t p = SettingsFile.loadOrDefault u p := by
  unfold SettingsFile.loadOrDefault SettingsFile.load FileTree.contains FileTree.readText
    FileTree.read
  rw [h]

theorem putsOff_performCommand (hg : Lawful g) (settings : Settings) (state : Provision.State)
    (request : Request) (s : Session ω) :
    PutsOff g (performCommand g request settings state) s
      (Lacking settings state request (g.files s.world))
      (enroll settings request (g.files s.world)).2 := by
  unfold performCommand Lacking
  cases hc : request.command with
  | install =>
    rw [enroll_of_ne (by simp [hc])]
    exact putsOff_install _
  | updateStatus => exact putsOff_of_yields (Hooks.yields_updateStatus _ settings state) _
  | consumerJoined =>
    obtain ⟨t, hrun, htrace, hfiles⟩ := run_joinConsumer hg settings hc s
    rcases henroll : enroll settings request (g.files s.world) with ⟨error | _, joined⟩
    · rw [henroll] at hrun
      exact (PutsOff.of_error hrun).congr (by simp)
    · rw [henroll] at hrun hfiles
      obtain rfl : g.files t.world = joined := hfiles
      have hhook : PutsOff g (performHook (Hooks.consumerJoined (g.site ⟨settings.stateDir⟩)
          settings state)) t _ _ := putsOff_consumerJoined _ rfl
      exact (hhook.bind hrun htrace).congr (by simp)
  | getServerConfig =>
    exact (putsOff_query (g.files s.world) _).bind rfl rfl
  | fingerprints =>
    rw [enroll_of_ne (by simp [hc])]
    exact (putsOff_fingerprints (g.files s.world)).bind rfl rfl

end commands

end CommandLine

end RelayKeeper
