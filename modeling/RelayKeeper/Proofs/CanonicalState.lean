import RelayKeeper.Proofs.AddressRoundTrip
import RelayKeeper.Proofs.TreeWalk
import RelayKeeper.Provision.State

/-! # The provisioning state is canonical

A state holds of each text what stands between the blanks of it and nothing else, so blanks do not
matter and a state is made again of the texts in it. The first text at fault, in the order address,
HTTP and HTTPS, is the one that is reported. All this is so whichever texts are URLs with a host. -/
namespace RelayKeeper.Provision

open Text (Blanks Trimmed trimChars)

/-! ## What is kept of a text -/

def NoText (input : Option String) : Prop := ∀ text ∈ input, Blanks text.toList

/-- What stands between the blanks of a text, if anything does. -/
def TextOf (input : Option String) (v : String) : Prop :=
  v ≠ "" ∧ Trimmed v.toList ∧ ∃ before after,
    Blanks before ∧ Blanks after ∧ input = some (String.ofList (before ++ v.toList ++ after))

inductive Padded : Option String → Option String → Prop where
  | absent : Padded none none
  | text {text : String} {before after : List Char} (hbefore : Blanks before)
      (hafter : Blanks after) :
      Padded (some text) (some (String.ofList (before ++ text.toList ++ after)))

theorem nonBlank_eq_none_iff {input : Option String} : nonBlank input = none ↔ NoText input := by
  cases input with
  | none => simp [nonBlank, NoText]
  | some text =>
    have hempty : Text.trim text = "" ↔ Blanks text.toList := by
      rw [← Text.trimChars_eq_nil_iff, Text.trim, ← String.toList_eq_nil_iff, String.toList_ofList]
    simp [nonBlank, NoText, hempty]

theorem nonBlank_eq_some_iff {input : Option String} {v : String} :
    nonBlank input = some v ↔ TextOf input v := by
  cases input with
  | none => simp [nonBlank, TextOf]
  | some text =>
    have htrim : Text.trim text = v ↔ trimChars text.toList = v.toList := by
      rw [Text.trim, ← String.toList_inj, String.toList_ofList]
    have hsplit : ∀ cs, text.toList = cs ↔ some text = some (String.ofList cs) := by
      intro cs
      rw [Option.some_inj, ← String.toList_inj, String.toList_ofList]
    have hkept : nonBlank (some text) = some v ↔ v ≠ "" ∧ Text.trim text = v := by
      rw [nonBlank, Option.map_some, Option.filter_eq_some_iff, Option.some_inj]
      constructor
      · rintro ⟨rfl, hne⟩
        exact ⟨by simpa using hne, rfl⟩
      · rintro ⟨hne, rfl⟩
        exact ⟨rfl, by simpa using hne⟩
    rw [hkept, htrim, Text.trimChars_eq_iff, TextOf]
    simp only [hsplit]

theorem nonBlank_of_padded {input padded : Option String} (h : Padded input padded) :
    nonBlank padded = nonBlank input := by
  cases h with
  | absent => rfl
  | text hbefore hafter =>
    rw [nonBlank, nonBlank, Option.map_some, Option.map_some, Text.trim, String.toList_ofList,
      Text.trimChars_between _ hbefore hafter]
    rfl

/-- A text without blanks around it is what stands between its blanks. -/
theorem textOf_self {v : String} (hne : v ≠ "") (htrimmed : Text.Trimmed v.toList) :
    TextOf (some v) v :=
  ⟨hne, htrimmed, [], [], Text.blanks_nil, Text.blanks_nil, by simp⟩

theorem nonBlank_nonBlank (input : Option String) : nonBlank (nonBlank input) = nonBlank input := by
  cases h : nonBlank input with
  | none => rfl
  | some v =>
    obtain ⟨hne, htrimmed, -⟩ := nonBlank_eq_some_iff.mp h
    exact nonBlank_eq_some_iff.mpr (textOf_self hne htrimmed)

theorem TextOf.not_noText {input : Option String} {v : String} (h : TextOf input v) :
    ¬ NoText input := by
  intro hnone
  rw [← nonBlank_eq_none_iff, nonBlank_eq_some_iff.mpr h] at hnone
  cases hnone

/-- A field is what stands between the blanks of the input, and it is left out if nothing does. -/
structure Kept (input field : Option String) : Prop where
  present : ∀ v ∈ field, TextOf input v
  absent : field = none → NoText input

theorem kept_nonBlank (input : Option String) : Kept input (nonBlank input) :=
  ⟨fun _ hv => nonBlank_eq_some_iff.mp hv, nonBlank_eq_none_iff.mp⟩

/-! ## The steps -/

def readAddress (address : Option String) : Except StateError (Option Net.Address) :=
  match nonBlank address with
  | none => .ok none
  | some text => ((Net.Address.parse text).mapError .invalidAddress).map some

def AddressFault (address : Option String) (e : StateError) : Prop :=
  ∃ v, TextOf address v ∧ Net.Address.ofChars? v.toList = none ∧ e = .invalidAddress ⟨v⟩

theorem readAddress_of_textOf {address : Option String} {v : String} (h : TextOf address v) :
    readAddress address =
      match Net.Address.ofChars? v.toList with
      | some found => .ok (some found)
      | none => .error (.invalidAddress ⟨v⟩) := by
  rw [readAddress, nonBlank_eq_some_iff.mpr h]
  dsimp only
  rw [Net.Address.parse, h.2.1.trimChars_eq, String.ofList_toList]
  cases Net.Address.ofChars? v.toList <;> rfl

theorem readAddress_of_noText {address : Option String} (h : NoText address) :
    readAddress address = .ok none := by
  rw [readAddress, nonBlank_eq_none_iff.mpr h]

theorem readAddress_cases (address : Option String) :
    (NoText address ∧ readAddress address = .ok none) ∨
      (∃ v found, TextOf address v ∧ Net.Address.ofChars? v.toList = some found ∧
        readAddress address = .ok (some found)) ∨
      ∃ v, TextOf address v ∧ Net.Address.ofChars? v.toList = none ∧
        readAddress address = .error (.invalidAddress ⟨v⟩) := by
  cases h : nonBlank address with
  | none =>
    have hnone := nonBlank_eq_none_iff.mp h
    exact .inl ⟨hnone, readAddress_of_noText hnone⟩
  | some v =>
    have hv := nonBlank_eq_some_iff.mp h
    have hread := readAddress_of_textOf hv
    cases hfound : Net.Address.ofChars? v.toList with
    | some found =>
      rw [hfound] at hread
      exact .inr (.inl ⟨v, found, hv, hfound, hread⟩)
    | none =>
      rw [hfound] at hread
      exact .inr (.inr ⟨v, hv, hfound, hread⟩)

theorem readAddress_eq_error_iff {address : Option String} {e : StateError} :
    readAddress address = .error e ↔ AddressFault address e := by
  constructor
  · intro h
    rcases readAddress_cases address with ⟨-, hread⟩ | ⟨v, found, -, -, hread⟩ | ⟨v, hv, hnone, hread⟩
    · rw [hread] at h
      cases h
    · rw [hread] at h
      cases h
    · rw [hread] at h
      exact ⟨v, hv, hnone, (Except.error.inj h).symm⟩
  · rintro ⟨v, hv, hnone, rfl⟩
    rw [readAddress_of_textOf hv, hnone]

/-- The text of an address that was read is the text of no other address. -/
theorem readAddress_text {address : Option String} {found : Option Net.Address}
    (h : readAddress address = .ok found) : readAddress (found.map Net.Address.text) = .ok found := by
  rcases readAddress_cases address with ⟨-, hread⟩ | ⟨v, a, -, ha, hread⟩ | ⟨v, -, -, hread⟩
  · rw [hread] at h
    obtain rfl := Except.ok.inj h
    rfl
  · rw [hread] at h
    obtain rfl := Except.ok.inj h
    have ha : a.Read := ⟨_, ha⟩
    have hne : a.text ≠ "" := by
      intro hempty
      apply ha.chars_ne_nil
      rwa [Net.Address.text, String.ofList_eq_empty_iff] at hempty
    have htrimmed : Text.Trimmed a.text.toList := by
      rw [Net.Address.text, String.toList_ofList]
      exact ha.trimmed_chars
    rw [Option.map_some, readAddress, nonBlank_eq_some_iff.mpr (textOf_self hne htrimmed)]
    dsimp only
    rw [ha.parse_text]
    rfl
  · rw [hread] at h
    cases h

section

variable (hasHost : String → Except Net.UrlError Bool)

inductive ProxyFault (kind : ProxyKind) (input : Option String) : StateError → Prop where
  | malformed {v : String} {cause : Net.UrlError} (hv : TextOf input v)
      (hcause : hasHost v = .error cause) : ProxyFault kind input (.malformedProxy kind v cause)
  | withoutHost {v : String} (hv : TextOf input v) (hhost : hasHost v = .ok false) :
      ProxyFault kind input (.proxyWithoutHost kind v)

theorem checkProxyBy_eq_error_iff {kind : ProxyKind} {input : Option String} {e : StateError} :
    checkProxyBy hasHost kind (nonBlank input) = .error e ↔ ProxyFault hasHost kind input e := by
  constructor
  · intro h
    cases hv : nonBlank input with
    | none =>
      rw [hv] at h
      cases h
    | some v =>
      rw [hv, checkProxyBy] at h
      cases hhost : hasHost v with
      | error cause =>
        rw [hhost] at h
        obtain rfl := Except.error.inj h
        exact .malformed (nonBlank_eq_some_iff.mp hv) hhost
      | ok host =>
        rw [hhost] at h
        cases host with
        | false =>
          obtain rfl := Except.error.inj h
          exact .withoutHost (nonBlank_eq_some_iff.mp hv) hhost
        | true => cases h
  · intro h
    cases h with
    | malformed hv hcause => rw [nonBlank_eq_some_iff.mpr hv, checkProxyBy, hcause]
    | withoutHost hv hhost => rw [nonBlank_eq_some_iff.mpr hv, checkProxyBy, hhost]

/-- What passes the check is kept as it is. -/
theorem eq_of_checkProxyBy {kind : ProxyKind} {input field : Option String}
    (h : checkProxyBy hasHost kind input = .ok field) : field = input := by
  cases input with
  | none => exact (Except.ok.inj h).symm
  | some v =>
    rw [checkProxyBy] at h
    cases hhost : hasHost v with
    | error cause =>
      rw [hhost] at h
      cases h
    | ok host =>
      rw [hhost] at h
      cases host with
      | false => cases h
      | true => exact (Except.ok.inj h).symm

theorem not_proxyFault {kind : ProxyKind} {input : Option String} (h : NoText input)
    (e : StateError) : ¬ ProxyFault hasHost kind input e := by
  rintro (⟨hv, -⟩ | ⟨hv, -⟩)
  · exact hv.not_noText h
  · exact hv.not_noText h

/-! ## The whole state -/

def proxiesOf (http https noProxy : Option String) : Option ProxyConfig :=
  if http.isNone && https.isNone then none else some ⟨http, https, noProxy⟩

/-- The address is read, and then each proxy is checked. -/
theorem State.ofInputsBy_eq (address : Option String) (proxy : ProxyInputs) :
    State.ofInputsBy hasHost address proxy = (do
      let address ← readAddress address
      let http ← checkProxyBy hasHost .http (nonBlank proxy.http)
      let https ← checkProxyBy hasHost .https (nonBlank proxy.https)
      .ok ⟨address, proxiesOf http https (nonBlank proxy.noProxy)⟩ : Except StateError State) := by
  have hproxies : ∀ found : Option Net.Address,
      (ProxyConfig.ofInputsBy hasHost proxy >>= fun proxies => .ok ⟨found, proxies⟩) = (do
        let http ← checkProxyBy hasHost .http (nonBlank proxy.http)
        let https ← checkProxyBy hasHost .https (nonBlank proxy.https)
        .ok ⟨found, proxiesOf http https (nonBlank proxy.noProxy)⟩ : Except StateError State) := by
    intro found
    rw [ProxyConfig.ofInputsBy]
    cases checkProxyBy hasHost .http (nonBlank proxy.http) with
    | error e => rfl
    | ok http =>
      cases checkProxyBy hasHost .https (nonBlank proxy.https) with
      | error e => rfl
      | ok https => cases http <;> cases https <;> rfl
  rw [State.ofInputsBy, readAddress]
  cases nonBlank address with
  | none => exact hproxies none
  | some text =>
    dsimp only
    cases Net.Address.parse text with
    | error e => rfl
    | ok found => exact hproxies (some found)

theorem State.ofInputsBy_eq_ok_iff {address : Option String} {proxy : ProxyInputs} {s : State} :
    State.ofInputsBy hasHost address proxy = .ok s ↔
      readAddress address = .ok s.address ∧
        checkProxyBy hasHost .http (nonBlank proxy.http) = .ok (nonBlank proxy.http) ∧
        checkProxyBy hasHost .https (nonBlank proxy.https) = .ok (nonBlank proxy.https) ∧
        s.proxy =
          proxiesOf (nonBlank proxy.http) (nonBlank proxy.https) (nonBlank proxy.noProxy) := by
  constructor
  · intro h
    rw [State.ofInputsBy_eq] at h
    obtain ⟨found, hfound, h⟩ := of_bind h
    obtain ⟨http, hhttp, h⟩ := of_bind h
    obtain ⟨https, hhttps, h⟩ := of_bind h
    obtain rfl := Except.ok.inj h
    obtain rfl := eq_of_checkProxyBy hasHost hhttp
    obtain rfl := eq_of_checkProxyBy hasHost hhttps
    exact ⟨hfound, hhttp, hhttps, rfl⟩
  · rintro ⟨hfound, hhttp, hhttps, hproxy⟩
    simp only [State.ofInputsBy_eq, hfound, hhttp, hhttps, ← hproxy, bind, Except.bind]

/-- The first text at fault is the one that is reported. -/
theorem State.ofInputsBy_eq_error_iff {address : Option String} {proxy : ProxyInputs}
    {e : StateError} :
    State.ofInputsBy hasHost address proxy = .error e ↔
      AddressFault address e ∨
        (¬ ∃ f, AddressFault address f) ∧
          (ProxyFault hasHost .http proxy.http e ∨
            (¬ ∃ f, ProxyFault hasHost .http proxy.http f) ∧
              ProxyFault hasHost .https proxy.https e) := by
  simp only [← readAddress_eq_error_iff, ← checkProxyBy_eq_error_iff]
  rw [State.ofInputsBy_eq]
  cases readAddress address with
  | error f => simp [bind, Except.bind]
  | ok found =>
    cases checkProxyBy hasHost .http (nonBlank proxy.http) with
    | error f => simp [bind, Except.bind]
    | ok http =>
      cases checkProxyBy hasHost .https (nonBlank proxy.https) <;> simp [bind, Except.bind]

/-- What a state says of the texts that it is made of. -/
structure Reports (address : Option String) (proxy : ProxyInputs) (s : State) : Prop where
  address_none : s.address = none ↔ NoText address
  address_some : ∀ a, s.address = some a →
    ∃ v, TextOf address v ∧ Net.Address.ofChars? v.toList = some a
  proxy_some : (∃ c, s.proxy = some c) ↔ ¬ NoText proxy.http ∨ ¬ NoText proxy.https
  fields : ∀ c, s.proxy = some c →
    Kept proxy.http c.http ∧ Kept proxy.https c.https ∧ Kept proxy.noProxy c.noProxy

theorem State.reports_of_ofInputsBy {address : Option String} {proxy : ProxyInputs} {s : State}
    (h : State.ofInputsBy hasHost address proxy = .ok s) : Reports address proxy s := by
  obtain ⟨hfound, -, -, hproxy⟩ := (State.ofInputsBy_eq_ok_iff hasHost).mp h
  constructor
  · rcases readAddress_cases address with ⟨hnone, hread⟩ | ⟨v, a, hv, -, hread⟩ | ⟨v, -, -, hread⟩
    · rw [hread] at hfound
      exact ⟨fun _ => hnone, fun _ => (Except.ok.inj hfound).symm⟩
    · rw [hread] at hfound
      rw [← Except.ok.inj hfound]
      constructor
      · intro h
        cases h
      · intro h
        exact absurd h hv.not_noText
    · rw [hread] at hfound
      cases hfound
  · intro a ha
    rcases readAddress_cases address with ⟨-, hread⟩ | ⟨v, b, hv, hb, hread⟩ | ⟨v, -, -, hread⟩
    · rw [hread, ha] at hfound
      cases hfound
    · rw [hread, ha] at hfound
      obtain rfl := Option.some.inj (Except.ok.inj hfound)
      exact ⟨v, hv, hb⟩
    · rw [hread] at hfound
      cases hfound
  · rw [hproxy, proxiesOf, ← nonBlank_eq_none_iff, ← nonBlank_eq_none_iff]
    cases nonBlank proxy.http <;> cases nonBlank proxy.https <;> simp
  · intro c hc
    rw [hproxy, proxiesOf] at hc
    split at hc
    · cases hc
    · obtain rfl := Option.some.inj hc
      exact ⟨kept_nonBlank _, kept_nonBlank _, kept_nonBlank _⟩

def State.addressText (s : State) : Option String := s.address.map Net.Address.text

def State.proxyTexts (s : State) : ProxyInputs :=
  match s.proxy with
  | none => {}
  | some config => ⟨config.http, config.https, config.noProxy⟩

/-- A state is made again of the texts that it holds. -/
theorem State.ofInputsBy_texts {address : Option String} {proxy : ProxyInputs} {s : State}
    (h : State.ofInputsBy hasHost address proxy = .ok s) :
    State.ofInputsBy hasHost s.addressText s.proxyTexts = .ok s := by
  obtain ⟨hfound, hhttp, hhttps, hproxy⟩ := (State.ofInputsBy_eq_ok_iff hasHost).mp h
  apply (State.ofInputsBy_eq_ok_iff hasHost).mpr
  refine ⟨readAddress_text hfound, ?_⟩
  -- without an http and an https text there is no configuration that could keep the third one
  by_cases hnone : ((nonBlank proxy.http).isNone && (nonBlank proxy.https).isNone) = true
  · rw [proxiesOf, if_pos hnone] at hproxy
    rw [State.proxyTexts, hproxy]
    exact ⟨rfl, rfl, rfl⟩
  · rw [proxiesOf, if_neg hnone] at hproxy
    rw [State.proxyTexts, hproxy]
    dsimp only
    rw [nonBlank_nonBlank, nonBlank_nonBlank, nonBlank_nonBlank, proxiesOf, if_neg hnone]
    exact ⟨hhttp, hhttps, rfl⟩

theorem State.ofInputsBy_congr {address padded : Option String} {proxy paddedProxy : ProxyInputs}
    (haddress : nonBlank padded = nonBlank address)
    (hhttp : nonBlank paddedProxy.http = nonBlank proxy.http)
    (hhttps : nonBlank paddedProxy.https = nonBlank proxy.https)
    (hnoProxy : nonBlank paddedProxy.noProxy = nonBlank proxy.noProxy) :
    State.ofInputsBy hasHost padded paddedProxy = State.ofInputsBy hasHost address proxy := by
  rw [State.ofInputsBy_eq, State.ofInputsBy_eq, readAddress, readAddress, haddress, hhttp, hhttps,
    hnoProxy]

end

/-- A state says exactly what stands between the blanks of its texts and is made again of what it
says. It is refused for the first text at fault, and blanks are never at fault. -/
theorem ofInputs_canonical :
    State.ofInputs = State.ofInputsBy Net.Url.hasHost ∧
    ∀ (hasHost : String → Except Net.UrlError Bool) (address : Option String)
      (proxy : ProxyInputs),
      (∀ s, State.ofInputsBy hasHost address proxy = .ok s →
        Reports address proxy s ∧
          State.ofInputsBy hasHost s.addressText s.proxyTexts = .ok s) ∧
      (∀ padded paddedProxy, Padded address padded → Padded proxy.http paddedProxy.http →
        Padded proxy.https paddedProxy.https → Padded proxy.noProxy paddedProxy.noProxy →
          State.ofInputsBy hasHost padded paddedProxy = State.ofInputsBy hasHost address proxy) ∧
      (∀ e, State.ofInputsBy hasHost address proxy = .error e ↔
        AddressFault address e ∨
          (¬ ∃ f, AddressFault address f) ∧
            (ProxyFault hasHost .http proxy.http e ∨
              (¬ ∃ f, ProxyFault hasHost .http proxy.http f) ∧
                ProxyFault hasHost .https proxy.https e)) ∧
      (∀ noProxy e, State.ofInputsBy hasHost address { proxy with noProxy } = .error e ↔
        State.ofInputsBy hasHost address proxy = .error e) ∧
      (NoText address → ∀ e, ¬ AddressFault address e) ∧
      ∀ kind input, NoText input → ∀ e, ¬ ProxyFault hasHost kind input e := by
  refine ⟨rfl, fun hasHost address proxy => ⟨?_, ?_, ?_, ?_, ?_, ?_⟩⟩
  · intro s h
    exact ⟨State.reports_of_ofInputsBy hasHost h, State.ofInputsBy_texts hasHost h⟩
  · intro padded paddedProxy haddress hhttp hhttps hnoProxy
    exact State.ofInputsBy_congr hasHost (nonBlank_of_padded haddress) (nonBlank_of_padded hhttp)
      (nonBlank_of_padded hhttps) (nonBlank_of_padded hnoProxy)
  · intro e
    exact State.ofInputsBy_eq_error_iff hasHost
  · intro noProxy e
    rw [State.ofInputsBy_eq_error_iff, State.ofInputsBy_eq_error_iff]
  · rintro hnone e ⟨v, hv, -⟩
    exact hv.not_noText hnone
  · intro kind input hnone e
    exact not_proxyFault hasHost hnone e

theorem ofInputs_canonical_hostname :
    State.ofInputsBy Net.Url.hasHost (some "Relay.example.") ⟨some "http://p", some " ", some " x"⟩ =
        .ok ⟨some (.hostname "relay.example.".toList), some ⟨some "http://p", none, some "x"⟩⟩ ∧
      State.ofInputsBy Net.Url.hasHost (some "relay.example.") ⟨some "http://p", none, some "x"⟩ =
        .ok ⟨some (.hostname "relay.example.".toList), some ⟨some "http://p", none, some "x"⟩⟩ ∧
      Padded (some "Relay.example.") (some " Relay.example.\n") ∧
      Padded (some "http://p") (some "http://p") ∧ Padded none none ∧
      State.ofInputsBy Net.Url.hasHost (some " Relay.example.\n") ⟨some "http://p", none, none⟩ =
        State.ofInputsBy Net.Url.hasHost (some "Relay.example.") ⟨some "http://p", none, none⟩ ∧
      NoText (some "\t") ∧ ∀ e, ¬ AddressFault (some "\t") e := by
  obtain ⟨hmade, -⟩ := ofInputs_canonical.2 Net.Url.hasHost (some "Relay.example.")
    ⟨some "http://p", some " ", some " x"⟩
  obtain ⟨-, hpadded, -⟩ := ofInputs_canonical.2 Net.Url.hasHost (some "Relay.example.")
    ⟨some "http://p", none, none⟩
  obtain ⟨-, -, -, -, hblank, -⟩ := ofInputs_canonical.2 Net.Url.hasHost (some "\t") {}
  have hfirst : State.ofInputsBy Net.Url.hasHost (some "Relay.example.")
      ⟨some "http://p", some " ", some " x"⟩ =
        .ok ⟨some (.hostname "relay.example.".toList), some ⟨some "http://p", none, some "x"⟩⟩ := by
    decide +kernel
  have haddress : Padded (some "Relay.example.") (some " Relay.example.\n") :=
    @Padded.text "Relay.example." [' '] ['\n'] (by decide) (by decide)
  have hhttp : Padded (some "http://p") (some "http://p") := .text Text.blanks_nil Text.blanks_nil
  have hnone : NoText (some "\t") := by
    intro text htext
    obtain rfl := Option.some.inj htext
    decide
  exact ⟨hfirst, (hmade _ hfirst).2, haddress, hhttp, .absent,
    hpadded _ ⟨some "http://p", none, none⟩ haddress hhttp .absent .absent, hnone, hblank hnone⟩

end RelayKeeper.Provision
