import RelayKeeper.Host.Session

/-! # What a hook does

A run of a hook adds events to the trace, and the events account for everything that the run changes
but the log. What a hook may do is said of its events and of how it ends; that a hook does no more is
proved part by part. -/
namespace RelayKeeper

variable {ω ε δ α β : Type}

inductive Site.Step (site : Site ω) : ω → Event → ω → Prop where
  | host (call : Host.Call) (w : ω) :
      Site.Step site w (.host call (site.host call w).reply) (site.host call w).world
  | record (call : Record.Call) (w : ω) :
      Site.Step site w (.record call (site.record call w).reply) (site.record call w).world
  | slept (duration : Duration) (w : ω) : Site.Step site w (.slept duration) w

inductive Site.Takes (site : Site ω) : ω → List Event → ω → Prop where
  | nil (w : ω) : Site.Takes site w [] w
  | cons {u v w : ω} {e : Event} {es : List Event} :
      site.Step u e v → Site.Takes site v es w → Site.Takes site u (e :: es) w

namespace Site.Takes

variable {site : Site ω} {u v w : ω} {es fs : List Event}

theorem append (h : site.Takes u es v) (k : site.Takes v fs w) : site.Takes u (es ++ fs) w := by
  induction h with
  | nil _ => exact k
  | cons hs _ ih => exact .cons hs (ih k)

theorem of_append (h : site.Takes u (es ++ fs) w) :
    ∃ v, site.Takes u es v ∧ site.Takes v fs w := by
  induction es generalizing u with
  | nil => exact ⟨u, .nil u, h⟩
  | cons e es ih =>
    cases h with
    | cons hs ht =>
      obtain ⟨v, hv, hw⟩ := ih ht
      exact ⟨v, .cons hs hv, hw⟩

theorem world_of_step {e : Event} (h : site.Step u e v) (k : site.Step u e w) : v = w := by
  cases h with
  | host call _ => exact (match k with | .host _ _ => rfl)
  | record call _ => exact (match k with | .record _ _ => rfl)
  | slept duration _ => exact (match k with | .slept _ _ => rfl)

theorem unique (h : site.Takes u es v) (k : site.Takes u es w) : v = w := by
  induction h with
  | nil _ =>
    cases k with
    | nil _ => rfl
  | cons hs _ ih =>
    cases k with
    | cons ks kt =>
      obtain rfl := world_of_step hs ks
      exact ih kt

end Site.Takes

def Event.elapsed : Event → Nat
  | .slept duration => duration.nanos
  | _ => 0

def elapsed : List Event → Nat
  | [] => 0
  | e :: es => e.elapsed + elapsed es

theorem elapsed_append (es fs : List Event) : elapsed (es ++ fs) = elapsed es + elapsed fs := by
  induction es with
  | nil => exact (Nat.zero_add _).symm
  | cons e es ih =>
    rw [List.cons_append, elapsed, elapsed, ih]
    omega

structure Ran (site : Site ω) (s s' : Session ω) (es : List Event) : Prop where
  trace : s'.trace = s.trace ++ es
  world : site.Takes s.world es s'.world
  clock : s'.clock.nanos = s.clock.nanos + elapsed es

namespace Ran

variable {site : Site ω} {s t u : Session ω} {es fs : List Event}

theorem quiet (s : Session ω) (log : List Log.Entry) : Ran site s { s with log } [] :=
  ⟨(List.append_nil _).symm, .nil _, rfl⟩

theorem logs (h : Ran site s t es) (log : List Log.Entry) : Ran site s { t with log } es :=
  ⟨h.trace, h.world, h.clock⟩

theorem of_nil (h : Ran site s t []) : t.trace = s.trace ∧ t.world = s.world := by
  constructor
  · rw [h.trace, List.append_nil]
  · exact h.world.unique (.nil _)

theorem trans (h : Ran site s t es) (k : Ran site t u fs) : Ran site s u (es ++ fs) where
  trace := by rw [k.trace, h.trace, List.append_assoc]
  world := h.world.append k.world
  clock := by
    have hclock := h.clock
    have kclock := k.clock
    rw [elapsed_append]
    omega

theorem drop (h : Ran site s t es) (k : Ran site s u (es ++ fs)) : Ran site t u fs where
  trace := by rw [k.trace, h.trace, List.append_assoc]
  world := by
    obtain ⟨v, hv, hw⟩ := k.world.of_append
    obtain rfl := h.world.unique hv
    exact hw
  clock := by
    have hclock := h.clock
    have kclock := k.clock
    rw [elapsed_append] at kclock
    omega

end Ran

namespace Hook

/-- Whatever session the hook runs in, its events and its end are among those that `P` allows. -/
def Makes (site : Site ω) (x : Hook ω ε α)
    (P : Session ω → List Event → Except (Halt ε) α → Prop) : Prop :=
  ∀ s, ∃ es, Ran site s (x s).2 es ∧ P s es (x s).1

theorem run_pure (a : α) (s : Session ω) : (pure a : Hook ω ε α) s = (.ok a, s) := rfl

theorem run_bind (x : Hook ω ε α) (f : α → Hook ω ε β) (s : Session ω) :
    (x >>= f) s = match x s with
      | (.ok a, t) => f a t
      | (.error halt, t) => (.error halt, t) := by
  change (match x s with | (a, t) => ExceptT.bindCont f a t) = _
  rcases x s with ⟨_ | _, t⟩ <;> rfl

namespace Makes

variable {site : Site ω} {x : Hook ω ε α} {f : α → Hook ω ε β}
  {P : Session ω → List Event → Except (Halt ε) α → Prop}
  {R : Session ω → List Event → Except (Halt ε) β → Prop}

theorem mono (h : x.Makes site P) {P' : Session ω → List Event → Except (Halt ε) α → Prop}
    (hP : ∀ s es r, P s es r → P' s es r) : x.Makes site P' := by
  intro s
  obtain ⟨es, hr, hp⟩ := h s
  exact ⟨es, hr, hP s es _ hp⟩

theorem pure {a : α} (h : ∀ s, P s [] (.ok a)) : (Pure.pure a : Hook ω ε α).Makes site P :=
  fun s => ⟨[], Ran.quiet s s.log, h s⟩

/-- A part that fails ends the whole; after one that does not, the rest goes on where it stopped. -/
theorem bind {Q : α → Session ω → List Event → Except (Halt ε) β → Prop}
    (hx : x.Makes site P) (hf : ∀ a, (f a).Makes site (Q a))
    (hok : ∀ s t es fs a r, P s es (.ok a) → Ran site s t es → Q a t fs r → R s (es ++ fs) r)
    (herr : ∀ s es halt, P s es (.error halt) → R s es (.error halt)) :
    (x >>= f).Makes site R := by
  intro s
  obtain ⟨es, hr, hp⟩ := hx s
  rw [run_bind]
  rcases hxs : x s with ⟨halt | a, t⟩
  · rw [hxs] at hr hp
    exact ⟨es, hr, herr s es halt hp⟩
  · rw [hxs] at hr hp
    obtain ⟨fs, hr', hq⟩ := hf a t
    exact ⟨es ++ fs, hr.trans hr', hok s t es fs a _ hp hr hq⟩

theorem after_logAll {P : Session ω → List Event → Except (Halt ε) β → Prop}
    {entries : List Log.Entry} {f : Unit → Hook ω ε β}
    (h : (f ()).Makes site fun s es r => ∀ log, P { s with log } es r) :
    (Hook.logAll entries >>= f).Makes site P := by
  intro s
  obtain ⟨es, hr, hp⟩ := h { s with log := s.log ++ entries }
  exact ⟨es, (Ran.quiet s _).trans hr, hp s.log⟩

theorem after_log {P : Session ω → List Event → Except (Halt ε) β → Prop}
    {level : Log.Level} {component message : String} {f : Unit → Hook ω ε β}
    (h : (f ()).Makes site fun s es r => ∀ log, P { s with log } es r) :
    (Hook.log level component message >>= f).Makes site P :=
  after_logAll h

theorem mapError (f : ε → δ) (h : x.Makes site P) :
    (Hook.mapError f x : Hook ω δ α).Makes site fun s es r =>
      ∃ part, P s es part ∧ r = part.mapError (Halt.map f) := by
  intro s
  obtain ⟨es, hr, hp⟩ := h s
  unfold Hook.mapError
  rcases hx : x s with ⟨halt | a, t⟩
  · rw [hx] at hr hp
    exact ⟨es, hr, _, hp, rfl⟩
  · rw [hx] at hr hp
    exact ⟨es, hr, _, hp, rfl⟩

theorem onFailure (component message : String) (h : x.Makes site P) :
    (Hook.onFailure component message x).Makes site P := by
  intro s
  obtain ⟨es, hr, hp⟩ := h s
  unfold Hook.onFailure
  rcases hx : x s with ⟨(error | _) | a, t⟩
  · rw [hx] at hr hp
    exact ⟨es, hr.logs _, hp⟩
  · rw [hx] at hr hp
    exact ⟨es, hr, hp⟩
  · rw [hx] at hr hp
    exact ⟨es, hr, hp⟩

theorem map {g : α → β} (hx : x.Makes site P)
    (hf : ∀ a, (f a).Makes site fun _ es r => es = [] ∧ r = .ok (g a)) :
    (x >>= f).Makes site fun s es r => ∃ part, P s es part ∧ r = part.map g := by
  refine hx.bind hf ?_ ?_
  · rintro s t es fs a r hp - ⟨rfl, rfl⟩
    rw [List.append_nil]
    exact ⟨.ok a, hp, rfl⟩
  · intro s es halt hp
    exact ⟨.error halt, hp, rfl⟩

/-- A part that is attempted ends with what it ended with as a value, unless it was abandoned. -/
theorem attempt (h : x.Makes site P) :
    (Hook.attempt x : Hook ω δ (Except ε α)).Makes site fun s es r =>
      (∃ a, P s es (.ok a) ∧ r = .ok (.ok a)) ∨
        (∃ error, P s es (.error (.failed error)) ∧ r = .ok (.error error)) ∨
        (P s es (.error .abandoned) ∧ r = .error .abandoned) := by
  intro s
  obtain ⟨es, hr, hp⟩ := h s
  unfold Hook.attempt
  rcases hx : x s with ⟨(error | _) | a, t⟩
  · rw [hx] at hr hp
    exact ⟨es, hr, .inr (.inl ⟨error, hp, rfl⟩)⟩
  · rw [hx] at hr hp
    exact ⟨es, hr, .inr (.inr ⟨hp, rfl⟩)⟩
  · rw [hx] at hr hp
    exact ⟨es, hr, .inl ⟨a, hp, rfl⟩⟩

end Makes

section parts

variable (site : Site ω)

theorem makes_host (call : Host.Call) :
    (host site call : Hook ω ε call.Reply).Makes site fun _ es r =>
      ∃ reply, es = [.host call reply] ∧ r = .ok reply := by
  intro s
  refine ⟨[.host call (site.host call s.world).reply], ⟨rfl, ?_, rfl⟩, _, rfl, rfl⟩
  exact .cons (.host call s.world) (.nil _)

theorem makes_record (call : Record.Call) :
    (record site call : Hook ω ε call.Reply).Makes site fun _ es r =>
      ∃ reply, es = [.record call reply] ∧ r = .ok reply := by
  intro s
  refine ⟨[.record call (site.record call s.world).reply], ⟨rfl, ?_, rfl⟩, _, rfl, rfl⟩
  exact .cons (.record call s.world) (.nil _)

theorem makes_log (level : Log.Level) (component message : String) :
    (log level component message : Hook ω ε Unit).Makes site fun _ es r => es = [] ∧ r = .ok () :=
  fun s => ⟨[], Ran.quiet s _, rfl, rfl⟩

theorem makes_fail (error : ε) :
    (fail error : Hook ω ε α).Makes site fun _ es r => es = [] ∧ r = .error (.failed error) :=
  fun s => ⟨[], Ran.quiet s s.log, rfl, rfl⟩

theorem makes_require (f : δ → ε) (answer : Except δ α) :
    (require f answer : Hook ω ε α).Makes site fun _ es r =>
      es = [] ∧ r = answer.mapError fun error => .failed (f error) := by
  cases answer with
  | ok a => exact .pure fun _ => ⟨rfl, rfl⟩
  | error error => exact makes_fail site (f error)

end parts

section calls

variable {site : Site ω}

/-- A call of the host gets some answer, and the rest goes on with it. -/
theorem Makes.after_host (call : Host.Call) {f : call.Reply → Hook ω ε β}
    {Q : call.Reply → Session ω → List Event → Except (Halt ε) β → Prop}
    (h : ∀ reply, (f reply).Makes site (Q reply)) :
    (host site call >>= f).Makes site fun s es r => ∃ reply t fs,
      es = .host call reply :: fs ∧ Ran site s t [.host call reply] ∧ Q reply t fs r := by
  refine (makes_host site call).bind h ?_ ?_
  · rintro s t es fs a r ⟨reply, rfl, ha⟩ hr hq
    obtain rfl := Except.ok.inj ha
    exact ⟨a, t, fs, rfl, hr, hq⟩
  · rintro s es halt ⟨_, _, hhalt⟩
    cases hhalt

theorem Makes.after_record (call : Record.Call) {f : call.Reply → Hook ω ε β}
    {Q : call.Reply → Session ω → List Event → Except (Halt ε) β → Prop}
    (h : ∀ reply, (f reply).Makes site (Q reply)) :
    (record site call >>= f).Makes site fun s es r => ∃ reply t fs,
      es = .record call reply :: fs ∧ Ran site s t [.record call reply] ∧ Q reply t fs r := by
  refine (makes_record site call).bind h ?_ ?_
  · rintro s t es fs a r ⟨reply, rfl, ha⟩ hr hq
    obtain rfl := Except.ok.inj ha
    exact ⟨a, t, fs, rfl, hr, hq⟩
  · rintro s es halt ⟨_, _, hhalt⟩
    cases hhalt

end calls

def Yields (x : Hook ω ε α) (value : α) : Prop :=
  ∀ s a, (x s).1 = .ok a → a = value

theorem Yields.pure (value : α) : (Pure.pure value : Hook ω ε α).Yields value := by
  intro s a h
  exact (Except.ok.inj h).symm

theorem Yields.bind {x : Hook ω ε α} {f : α → Hook ω ε β} {value : β}
    (h : ∀ a, (f a).Yields value) : (x >>= f).Yields value := by
  intro s b hb
  rw [run_bind] at hb
  rcases hx : x s with ⟨halt | a, t⟩
  · rw [hx] at hb
    cases hb
  · rw [hx] at hb
    exact h a t b hb

end Hook

end RelayKeeper
