import RelayKeeper.Proofs.RelayPlans

/-! # When consumers are told

A hook tells the consumers at most once, of one profile, and does nothing but set the status after
that. A hook that completes with a bound address has told them. -/
namespace RelayKeeper

def Event.UpdatesBag : Event → Prop
  | .record (.updateRelation ..) _ => True
  | _ => False

def Event.SetsStatus : Event → Prop
  | .record (.setStatus _) _ => True
  | _ => False

def Silent (es : List Event) : Prop := ∀ e ∈ es, ¬ e.UpdatesBag

namespace Silent

variable {es fs : List Event}

theorem of_record (h : ∀ call reply, .record call reply ∈ es →
    ¬ (Event.record call reply).UpdatesBag) : Silent es := by
  intro e he
  cases e with
  | record call reply => exact h call reply he
  | host _ _ | slept _ => exact id

theorem append (h : Silent es) (k : Silent fs) : Silent (es ++ fs) := by
  intro e he
  rcases List.mem_append.mp he with he | he
  · exact h e he
  · exact k e he

theorem of_setsStatus (h : ∀ e ∈ es, e.SetsStatus) : Silent es := by
  refine of_record fun call reply he => ?_
  cases call with
  | updateRelation id data => exact (h _ he).elim
  | setStatus _ | openPort _ | relations => exact id

end Silent

namespace Hooks

open Relay

variable {ω : Type} {site : Site ω} {settings : Settings} {s t : Session ω} {es fs : List Event}

def Trigger.address : Trigger → Option Net.Address
  | .install state | .updateStatus state | .consumerJoined state => state.address

/-- How a hook tells the consumers: not at all, and then it does not complete with an address, or
once, by the files as they are then, and then there is nothing left to do but to set the status. -/
inductive Serves (site : Site ω) (settings : Settings) (address? : Option Net.Address)
    (s : Session ω) : List Event → Except (Halt HookError) Outcome → Prop where
  | silent {es r} : Silent es → (address? = none ∨ r ≠ .ok .completed) →
      Serves site settings address? s es r
  | tells {address t pre told post r} : address? = some address → Silent pre → Ran site s t pre →
      Told settings address (site.files t.world) told → (∀ e ∈ post, e.SetsStatus) →
      Serves site settings address? s (pre ++ (told ++ post)) r

theorem setsStatus_of_cut {status : Record.Status} {halt : Option (Halt HookError)}
    (h : Cut site [statusStep status] s es halt) : ∀ e ∈ es, e.SetsStatus := by
  intro e he
  obtain ⟨step, hstep, _, fs, _, hg, hefs⟩ := h.exists_goes he
  obtain rfl := List.mem_singleton.mp hstep
  cases hg with
  | note reply =>
    obtain rfl := List.mem_singleton.mp hefs
    trivial

theorem serves_of_updating {address : Net.Address} {r : Except (Halt HookError) Outcome}
    (hpre : Silent es) (hr : Ran site s t es)
    (hc : Cut site (updatingPlan settings address) t fs (haltOf r)) :
    Serves site settings (some address) s (es ++ fs) r := by
  obtain ⟨u, told, post, rfl, htold, -, hpost⟩ := hc.of_tell
  exact .tells rfl hpre hr htold (setsStatus_of_cut hpost)

theorem silent_of_provisionPlan {address : Net.Address} {proxy : Option Provision.ProxyConfig}
    {halt : Option (Halt HookError)}
    (h : Cut site (provisionPlan settings address proxy) s es halt) : Silent es := by
  refine .of_record fun call reply he => ?_
  obtain ⟨message, rfl⟩ := record_of_provisionPlan settings h he
  exact id

theorem not_completed_of_halt {r : Except (Halt HookError) Outcome} (h : haltOf r ≠ none) :
    r ≠ .ok .completed := by
  rintro rfl
  exact h rfl

theorem serves_of_opening {address : Net.Address} {r : Except (Halt HookError) Outcome}
    (hpre : Silent es) (hr : Ran site s t es)
    (hc : Cut site (openingPlan settings address) t fs (haltOf r)) :
    Serves site settings (some address) s (es ++ fs) r := by
  have hport : ∀ reply, Silent [.record (.openPort settings.port) reply] := by
    intro reply e he
    obtain rfl := List.mem_singleton.mp he
    exact id
  rcases hc.of_note with ⟨reply, error, rfl, -, hhalt⟩ | ⟨reply, u, gs, rfl, -, hu, hc⟩
  · exact .silent (hpre.append (hport reply)) (.inr (not_completed_of_halt (by simp [hhalt])))
  · rw [List.append_cons]
    exact serves_of_updating (hpre.append (hport reply)) (hr.trans hu) hc

theorem serves_install (state : Provision.State) :
    (install site settings state).Makes site (Serves site settings state.address) := by
  cases haddress : state.address with
  | none =>
    refine (makes_install_unbound site settings haddress).mono ?_
    rintro s es r ⟨rfl, -⟩
    exact .silent (by simp [Silent]) (.inl rfl)
  | some address =>
    refine (follows_install site settings haddress).mono ?_
    intro s es r hc
    rcases hc.of_append with ⟨hc, hne⟩ | ⟨before, t, after, rfl, hbefore, ht, hafter⟩
    · exact .silent (silent_of_provisionPlan hc) (.inr (not_completed_of_halt hne))
    · exact serves_of_opening (silent_of_provisionPlan hbefore) ht hafter

theorem serves_updateStatus (state : Provision.State) :
    (updateStatus site settings state).Makes site (Serves site settings state.address) := by
  refine (makes_updateStatus site settings state).mono ?_
  intro s es r h
  generalize state.address = address? at h
  generalize hhalt : haltOf r = halt at h
  cases h with
  | waiting hc => exact .silent (.of_setsStatus (setsStatus_of_cut hc)) (.inl rfl)
  | unreconciled hrec =>
    refine .silent (.of_record fun _ _ he => absurd he hrec.no_record) (.inr ?_)
    exact not_completed_of_halt (by simp [hhalt])
  | reconciled hrec ht hc =>
    exact serves_of_updating (.of_record fun _ _ he => absurd he hrec.no_record) ht (hhalt ▸ hc)

theorem serves_consumerJoined (state : Provision.State) :
    (consumerJoined site settings state).Makes site (Serves site settings state.address) := by
  refine (makes_consumerJoined site settings state).mono ?_
  intro s es r h
  have hsilent : Silent [] := by simp [Silent]
  generalize state.address = address? at h
  cases h with
  | unbound => exact .silent hsilent (.inl rfl)
  | unreadable _ => exact .silent hsilent (.inr (by simp))
  | waiting _ => exact .silent hsilent (.inr (by simp))
  | told hready ha =>
    have hs : Serves site settings (some _) s ([] ++ (es ++ [])) (.ok .completed) :=
      .tells rfl hsilent (Ran.quiet s s.log) (.profile hready ha) (by simp)
    simpa using hs

theorem serves (site : Site ω) (settings : Settings) (trigger : Trigger) :
    (trigger.hook site settings).Makes site (Serves site settings trigger.address) := by
  cases trigger with
  | install state => exact serves_install state
  | updateStatus state => exact serves_updateStatus state
  | consumerJoined state => exact serves_consumerJoined state

end Hooks

end RelayKeeper
