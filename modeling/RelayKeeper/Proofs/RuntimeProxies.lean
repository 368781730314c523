import RelayKeeper.Proofs.StartingDaemon
import RelayKeeper.Proofs.WrittenRoundTrip

/-! # The proxies of the container runtime

The proxy configuration carries the proxies that are set and nothing else, whatever their texts are,
so they can be read back from it. Installing dependencies writes it before it asks for any
package. -/
namespace RelayKeeper

/-! ## The configuration -/

namespace Document

open Provision (ProxyConfig)

inductive Names (proxy : ProxyConfig) : String → String → Prop where
  | http {text} : proxy.http = some text → Names proxy "http-proxy" text
  | https {text} : proxy.https = some text → Names proxy "https-proxy" text
  | noProxy {text} : proxy.noProxy = some text → Names proxy "no-proxy" text

/-- The text is an object with one member, which has one member for each proxy that is set. -/
def Carries (contents : String) (proxy : ProxyConfig) : Prop :=
  ∃ members, Json.parse? contents.toList = some (.object [(some "proxies", .object members)]) ∧
    (members.map Prod.fst).Nodup ∧
    ∀ member, member ∈ members ↔
      ∃ name text, Names proxy name text ∧ member = (some name, Json.text text)

def proxies? (contents : String) : Option ProxyConfig :=
  match Json.parse? contents.toList with
  | some (.object [(some "proxies", .object members)]) =>
    let named (name : String) := (members.lookup (some name)).bind Json.text?
    some ⟨named "http-proxy", named "https-proxy", named "no-proxy"⟩
  | _ => none

theorem printable_record {members : List (String × Json)}
    (h : ∀ member ∈ members, member.2.Printable) : (Json.record members).Printable := by
  refine Json.printable_members_of_forall fun member hm => ?_
  obtain ⟨pair, hpair, rfl⟩ := List.mem_map.mp hm
  exact h pair hpair

theorem mem_optionalMember {name : String} {text : Option String} {member : String × Json} :
    member ∈ optionalMember name text ↔ ∃ t, text = some t ∧ member = (name, Json.text t) := by
  cases text <;> simp [optionalMember]

theorem mem_proxyMembers {proxy : ProxyConfig} {member : String × Json} :
    member ∈ proxyMembers proxy ↔
      ∃ name text, Names proxy name text ∧ member = (name, Json.text text) := by
  simp only [proxyMembers, List.mem_append, mem_optionalMember]
  constructor
  · rintro ((⟨t, ht, rfl⟩ | ⟨t, ht, rfl⟩) | ⟨t, ht, rfl⟩)
    · exact ⟨_, t, .http ht, rfl⟩
    · exact ⟨_, t, .https ht, rfl⟩
    · exact ⟨_, t, .noProxy ht, rfl⟩
  · rintro ⟨_, text, hnames, rfl⟩
    cases hnames with
    | http h => exact .inl (.inl ⟨text, h, rfl⟩)
    | https h => exact .inl (.inr ⟨text, h, rfl⟩)
    | noProxy h => exact .inr ⟨text, h, rfl⟩

/-- Whichever proxies are set, the names are among three different ones, in order. -/
theorem nodup_names_proxyMembers (proxy : ProxyConfig) :
    ((proxyMembers proxy).map Prod.fst).Nodup := by
  have hname : ∀ name text, (optionalMember name text).map Prod.fst =
      (text.map fun _ => name).toList := by
    intro name text
    cases text <;> rfl
  simp only [proxyMembers, List.map_append, hname]
  rcases proxy with ⟨_ | _, _ | _, _ | _⟩ <;> simp

theorem parse_runtimeProxy (proxy : ProxyConfig) :
    Json.parse? (runtimeProxy proxy).toList = some (runtimeProxyJson proxy) := by
  rw [runtimeProxy, String.toList_ofList]
  apply Json.parse_pretty
  refine printable_record fun member hm => ?_
  obtain rfl := List.mem_singleton.mp hm
  refine printable_record fun member hm => ?_
  obtain ⟨name, text, -, rfl⟩ := mem_proxyMembers.mp hm
  trivial

theorem carries_runtimeProxy (proxy : ProxyConfig) : Carries (runtimeProxy proxy) proxy := by
  refine ⟨_, parse_runtimeProxy proxy, ?_, fun member => ?_⟩
  · have hnodup := (nodup_names_proxyMembers proxy).map (Option.some_injective String)
    simpa only [List.map_map, Function.comp_def] using hnodup
  · simp only [List.mem_map, mem_proxyMembers]
    constructor
    · rintro ⟨_, ⟨name, text, hnames, rfl⟩, rfl⟩
      exact ⟨name, text, hnames, rfl⟩
    · rintro ⟨name, text, hnames, rfl⟩
      exact ⟨_, ⟨name, text, hnames, rfl⟩, rfl⟩

theorem proxies_runtimeProxy (proxy : ProxyConfig) :
    proxies? (runtimeProxy proxy) = some proxy := by
  rw [proxies?, parse_runtimeProxy]
  rcases proxy with ⟨_ | _, _ | _, _ | _⟩ <;> rfl

theorem runtimeProxy_injective : Function.Injective runtimeProxy := by
  intro proxy other h
  have hread := congrArg proxies? h
  rw [proxies_runtimeProxy, proxies_runtimeProxy] at hread
  exact Option.some.inj hread

end Document

/-! ## Before the packages -/

theorem Writeless.take_append {es fs : List Event} (h : Writeless (es ++ fs)) (n : ℕ) :
    Writeless (es ++ fs.take n) := by
  have htake := h.take (es.length + n)
  rwa [List.take_length_add_append] at htake

/-- A write that is done leaves what was written. -/
theorem StoresFile.held_of_step {ω : Type} {site : Site ω} {path : Path}
    {held : ω → Option (String × ℕ)} (h : StoresFile site path held) {contents : String} {mode : ℕ}
    {u v : ω} (hs : site.Step u (.host (.writeFile path contents mode) (.ok ())) v) :
    held v = some (contents, mode) := by
  generalize he : Event.host (.writeFile path contents mode) (.ok ()) = e at hs
  cases hs with
  | host call _ =>
    injection he with hcall hreply
    subst hcall
    exact h.written contents mode u (eq_of_heq hreply).symm
  | record _ _ | slept _ _ => cases he

namespace Hooks

open Relay

variable {ω ε : Type} {site : Site ω} {settings : Settings} {s t : Session ω}
  {es before after : List Event} {path : Path} {written : String × ℕ} {package : String}
  {reply : Except Host.PackageError Unit}

abbrev fileWritten (path : Path) (written : String × ℕ) : Event :=
  .host (.writeFile path written.1 written.2) (.ok ())

abbrev packageAsked (package : String) (reply : Except Host.PackageError Unit) : Event :=
  .host (.installPackage package) reply

def Packageless (es : List Event) : Prop :=
  ∀ package reply, packageAsked package reply ∉ es

/-- What has happened to a file when packages are asked for. -/
structure HeldForPackages (site : Site ω) (path : Path) (written : String × ℕ) (s : Session ω)
    (es : List Event) : Prop where
  /-- The file is written right before the first package is asked for. -/
  first : ∀ before package reply after, es = before ++ packageAsked package reply :: after →
    Packageless before → ∃ earlier, before = earlier ++ [fileWritten path written]
  /-- From then on, nothing else has been written to it. -/
  last : ∀ before package reply after, es = before ++ packageAsked package reply :: after →
    ∀ n, lastWritten? path
      (s.trace ++ (before ++ (packageAsked package reply :: after).take n)) = some written
  /-- From then on, a host that has such a file holds what was written. -/
  stored : ∀ held, StoresFile site path held →
    ∀ before package reply after, es = before ++ packageAsked package reply :: after →
      ∀ n v, site.Takes s.world (before ++ (packageAsked package reply :: after).take n) v →
        held v = some written

/-- Nothing is claimed of a run that asks for no package. -/
theorem Packageless.heldForPackages (h : Packageless es) :
    HeldForPackages site path written s es where
  first := fun _ package reply _ heq => absurd (heq ▸ by simp) (h package reply)
  last := fun _ package reply _ heq => absurd (heq ▸ by simp) (h package reply)
  stored := fun _ _ _ package reply _ heq => absurd (heq ▸ by simp) (h package reply)

/-- Packages were asked for only after the file was written, and nothing was written after that. -/
structure WrittenThen (path : Path) (written : String × ℕ) (es earlier later : List Event) :
    Prop where
  split : es = earlier ++ fileWritten path written :: later
  packageless : Packageless earlier
  writeless : Writeless later
  /-- What is asked next is a package, if there is any. -/
  head : Packageless later ∨ ∃ package reply rest, later = packageAsked package reply :: rest

namespace WrittenThen

variable {earlier later : List Event}

theorem between (h : WrittenThen path written es earlier later)
    (heq : es = before ++ packageAsked package reply :: after) :
    ∃ mid, before = earlier ++ fileWritten path written :: mid ∧
      later = mid ++ packageAsked package reply :: after := by
  have hboth := h.split.symm.trans heq
  rcases List.append_eq_append_iff.mp hboth with ⟨mid, hbefore, hlater⟩ | ⟨mid, hearlier, hasked⟩
  · cases mid with
    | nil =>
      injection hlater with hevent
      cases hevent
    | cons e mid =>
      obtain ⟨rfl, rfl⟩ := List.cons.inj hlater
      exact ⟨mid, hbefore, rfl⟩
  · cases mid with
    | nil =>
      injection hasked with hevent
      cases hevent
    | cons e mid =>
      obtain ⟨rfl, -⟩ := List.cons.inj hasked
      exact absurd (hearlier ▸ List.mem_append_right before List.mem_cons_self)
        (h.packageless package reply)

theorem heldForPackages (h : WrittenThen path written es earlier later) :
    HeldForPackages site path written s es where
  first := by
    intro before package reply after heq hnone
    obtain ⟨mid, rfl, rfl⟩ := h.between heq
    cases mid with
    | nil => exact ⟨earlier, rfl⟩
    | cons e mid =>
      exfalso
      rcases h.head with hlater | ⟨other, answer, rest, hlater⟩
      · exact hlater package reply (by simp)
      · obtain ⟨rfl, -⟩ := List.cons.inj hlater
        exact hnone other answer (by simp)
  last := by
    intro before package reply after heq n
    obtain ⟨mid, rfl, rfl⟩ := h.between heq
    have hwritten : Event.written? path (fileWritten path written) = some written := if_pos rfl
    rw [List.append_assoc, ← List.append_assoc, List.cons_append]
    exact lastWritten?_append hwritten _ (h.writeless.take_append n)
  stored := by
    intro held hstores before package reply after heq n v ht
    obtain ⟨mid, rfl, rfl⟩ := h.between heq
    rw [List.append_assoc, List.cons_append] at ht
    obtain ⟨u, -, hu⟩ := ht.of_append
    cases hu with
    | cons hs hrest =>
      rw [hstores.held_of_writeless hrest (h.writeless.take_append n)]
      exact hstores.held_of_step hs

end WrittenThen

/-! ## Installing dependencies -/

theorem Cut.countP_eq_zero {plan : List (Step ε)} {halt : Option (Halt ε)} {f : Host.Call → Bool}
    (h : Cut site plan s es halt) (hf : ∀ unit, f (.queryStatus unit) = false)
    (hplan : ∀ step ∈ plan, step.asks f = false) : es.countP (Event.asks f) = 0 := by
  have hzero : plan.countP (Step.asks f) = 0 := by
    rw [List.countP_eq_zero]
    intro step hstep
    simp [hplan step hstep]
  exact Nat.le_zero.mp (hzero ▸ h.countP_asks hf)

def asksPackage : Host.Call → Bool
  | .installPackage _ => true
  | _ => false

theorem Cut.packageless {plan : List (Step ε)} {halt : Option (Halt ε)}
    (h : Cut site plan s es halt) (hplan : ∀ step ∈ plan, step.asks asksPackage = false) :
    Packageless es := by
  intro package reply hmem
  exact List.countP_eq_zero.mp (h.countP_eq_zero (fun _ => rfl) hplan) _ hmem rfl

def installingPlan (settings : Settings) : List (Step DependencyError) :=
  packagePlan settings.packages ++
    [.ask (.ensureGroup settings.runtimeGroup) fun reply =>
        refusal (.runtimeGroup settings.user settings.runtimeGroup) reply,
      .ask (.addToGroup settings.user settings.runtimeGroup) fun reply =>
        refusal (.runtimeGroup settings.user settings.runtimeGroup) reply]

def refreshingPlan (settings : Settings) : List (Step DependencyError) :=
  .ask .refreshIndex (fun reply => refusal .update reply) ::
    parentPlan settings.dockerDaemonConfig (.proxyConfig settings.dockerDaemonConfig)

theorem dependencyPlan_some (proxy : Provision.ProxyConfig) :
    dependencyPlan settings (some proxy) = refreshingPlan settings ++
      .ask (.writeFile settings.dockerDaemonConfig (Document.runtimeProxy proxy) proxyConfigMode)
        (fun reply => refusal (.proxyConfig settings.dockerDaemonConfig) reply) ::
      installingPlan settings := by
  simp [dependencyPlan, refreshingPlan, installingPlan, proxyPlan]

theorem packageless_refreshingPlan :
    ∀ step ∈ refreshingPlan settings, step.asks asksPackage = false := by
  intro step hstep
  rcases List.mem_cons.mp hstep with rfl | hstep
  · rfl
  · obtain ⟨parent, rfl⟩ := exists_of_mem_parentPlan hstep
    rfl

theorem writeless_installingPlan :
    ∀ step ∈ installingPlan settings, step.asks writesFile = false := by
  intro step hstep
  simp only [installingPlan, packagePlan, List.mem_append, List.mem_map, List.mem_cons,
    List.not_mem_nil, or_false] at hstep
  rcases hstep with ⟨package, -, rfl⟩ | rfl | rfl <;> rfl

/-- The first package is what is asked for first. -/
theorem Cut.head_installingPlan {halt : Option (Halt DependencyError)}
    (h : Cut site (installingPlan settings) s es halt) :
    Packageless es ∨ ∃ package reply rest, es = packageAsked package reply :: rest := by
  unfold installingPlan at h
  cases hpackages : settings.packages with
  | nil =>
    rw [hpackages] at h
    refine .inl (h.packageless fun step hstep => ?_)
    simp only [packagePlan, List.map_nil, List.nil_append, List.mem_cons, List.not_mem_nil,
      or_false] at hstep
    rcases hstep with rfl | rfl <;> rfl
  | cons package packages =>
    rw [hpackages] at h
    cases h with
    | failed hg =>
      obtain ⟨reply, rfl, -⟩ := hg.of_ask
      exact .inr ⟨package, reply, [], rfl⟩
    | passed hg _ _ =>
      obtain ⟨reply, rfl, -⟩ := hg.of_ask
      exact .inr ⟨package, reply, _, rfl⟩

theorem Cut.writtenThen {proxy : Provision.ProxyConfig} {halt : Option (Halt DependencyError)}
    (h : Cut site (dependencyPlan settings (some proxy)) s es halt) :
    Packageless es ∨ ∃ earlier later, WrittenThen settings.dockerDaemonConfig
      (Document.runtimeProxy proxy, proxyConfigMode) es earlier later := by
  rw [dependencyPlan_some] at h
  rcases h.of_append with ⟨hc, -⟩ | ⟨earlier, t, rest, rfl, hearlier, -, hc⟩
  · exact .inl (hc.packageless packageless_refreshingPlan)
  have hnone : Packageless earlier := hearlier.packageless packageless_refreshingPlan
  cases hc with
  | failed hg =>
    obtain ⟨reply, rfl, -⟩ := hg.of_ask
    left
    intro package answer hmem
    rcases List.mem_append.mp hmem with hmem | hmem
    · exact hnone package answer hmem
    · cases List.mem_singleton.mp hmem
  | passed hg _ hlater =>
    obtain ⟨reply, rfl, hok⟩ := hg.of_ask
    obtain rfl := refusal_eq_none.mp (Option.map_eq_none_iff.mp hok.symm)
    refine .inr ⟨earlier, _, rfl, hnone, ?_, hlater.head_installingPlan⟩
    exact writeless_of_countP (hlater.countP_eq_zero (fun _ => rfl) writeless_installingPlan)

/-- The configuration carries exactly the proxies that are set, they can be read back from it, and
different ones give different texts. Whatever the host answers, it is in its file when packages are
asked for. -/
theorem runtimeProxy_exact (site : Site ω) (settings : Settings) (proxy : Provision.ProxyConfig)
    (s : Session ω) :
    Document.Carries (Document.runtimeProxy proxy) proxy ∧
      Document.proxies? (Document.runtimeProxy proxy) = some proxy ∧
      (∀ other, Document.runtimeProxy other = Document.runtimeProxy proxy → other = proxy) ∧
      ∃ es, (installDependencies site settings (some proxy) s).2.trace = s.trace ++ es ∧
        HeldForPackages site settings.dockerDaemonConfig
          (Document.runtimeProxy proxy, proxyConfigMode) s es := by
  obtain ⟨es, hr, hc⟩ := follows_installDependencies site settings (some proxy) s
  refine ⟨Document.carries_runtimeProxy proxy, Document.proxies_runtimeProxy proxy,
    fun other h => Document.runtimeProxy_injective h, es, hr.trace, ?_⟩
  rcases hc.writtenThen with hnone | ⟨earlier, later, hwritten⟩
  · exact hnone.heldForPackages
  · exact hwritten.heldForPackages

/-- A proxy with a quote, a backslash and a line break is read back, and it is in its file when the
first package is asked for. -/
theorem runtimeProxy_exact_waking :
    Document.proxies? (Document.runtimeProxy ⟨some "\"\\\n", none, some "é"⟩) =
        some ⟨some "\"\\\n", none, some "é"⟩ ∧
      ∃ before after, (installDependencies wakingSite {}
          (some ⟨some "\"\\\n", none, some "é"⟩) { world := (0, none) }).2.trace =
            before ++ packageAsked "openssh-client" (.ok ()) :: after ∧
        ∃ earlier, before = earlier ++ [fileWritten ({} : Settings).dockerDaemonConfig
          (Document.runtimeProxy ⟨some "\"\\\n", none, some "é"⟩, proxyConfigMode)] := by
  have hparent : ({} : Settings).dockerDaemonConfig.parent? = some ⟨"/etc/docker"⟩ := by
    decide +kernel
  -- the run is computed for any proxy, so that no configuration is rendered
  have htrace : ∀ proxy, (installDependencies wakingSite {} (some proxy)
      { world := (0, none) }).2.trace =
        [.host .refreshIndex (.ok ()), .host (.createDirectories ⟨"/etc/docker"⟩) (.ok ()),
          fileWritten ({} : Settings).dockerDaemonConfig
            (Document.runtimeProxy proxy, proxyConfigMode)] ++
        packageAsked "openssh-client" (.ok ()) :: [packageAsked "docker.io" (.ok ()),
          .host (.ensureGroup "docker") (.ok ()),
          .host (.addToGroup "_daemon_" "docker") (.ok ())] := by
    intro proxy
    unfold installDependencies writeProxyConfig
    dsimp only
    rw [hparent]
    rfl
  obtain ⟨-, hread, -, es, hes, hheld⟩ := runtimeProxy_exact wakingSite {}
    ⟨some "\"\\\n", none, some "é"⟩ { world := (0, none) }
  refine ⟨hread, _, _, htrace _, hheld.first _ _ _ _ (hes.symm.trans (htrace _)) ?_⟩
  intro package reply hmem
  simp at hmem

end Hooks

end RelayKeeper
