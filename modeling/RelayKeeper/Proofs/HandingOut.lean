import RelayKeeper.Proofs.AddressText
import RelayKeeper.Proofs.BagSnapshots
import RelayKeeper.Proofs.CanonicalBase64
import RelayKeeper.Proofs.CanonicalState

/-! # Two ways of handing out the connection

A client that asks gets the same answer as the consumers are told: there is a configuration exactly
when consumers are told, and what its lines set is what stands in every bag. -/
namespace RelayKeeper

/-! ## Values without line breaks -/

def Breakless (text : String) : Prop := ∀ c ∈ text.toList, c ≠ '\n' ∧ c ≠ '\r'

instance (text : String) : Decidable (Breakless text) :=
  decidable_of_iff (text.toList.all fun c => c != '\n' && c != '\r')
    (by simp [Breakless])

namespace Breakless

theorem append {a b : String} (ha : Breakless a) (hb : Breakless b) : Breakless (a ++ b) := by
  intro c hc
  rw [String.toList_append, List.mem_append] at hc
  rcases hc with hc | hc
  · exact ha c hc
  · exact hb c hc

theorem of_le {text : String} (h : ∀ c ∈ text.toList, 14 ≤ c.toNat) : Breakless text := by
  intro c hc
  have hlow := h c hc
  constructor
  · rintro rfl
    exact absurd hlow (by decide)
  · rintro rfl
    exact absurd hlow (by decide)

end Breakless

theorem Net.Address.Read.breakless {address : Net.Address} (h : address.Read) :
    Breakless address.text := by
  refine Breakless.of_le fun c hc => ?_
  have hrange := Net.toNat_of_isAddressChar (h.isAddressChar_text c hc)
  omega

theorem breakless_port (port : UInt16) : Breakless (toString port) := by
  refine Breakless.of_le fun c hc => ?_
  have htext : (toString port).toList = Nat.toDigits 10 port.toNat := by
    simp [toString, Nat.repr]
  rw [htext] at hc
  have hrange := Net.toNat_of_isAddressChar
    (Net.isAddressChar_toDigits (by decide) (by decide) port.toNat c hc)
  omega

theorem Base64.le_of_mem_encodeUnpadded {bytes : List UInt8} :
    ∀ b ∈ Base64.encodeUnpadded bytes, 43 ≤ b.toNat := by
  have hsymbol : ∀ v, 43 ≤ (Base64.symbol v).toNat := fun v => (Base64.toNat_symbol_range v).1
  fun_induction Base64.encodeUnpadded bytes with
  | case1 => simp
  | case2 a => simp [hsymbol]
  | case3 a b => simp [hsymbol]
  | case4 a b c rest ih => simpa [hsymbol] using ih

namespace Key

theorem breakless_fingerprintOf (key : List UInt8) : Breakless (fingerprintOf key) := by
  refine Breakless.append (by decide) (Breakless.of_le fun c hc => ?_)
  rw [asciiText, String.toList_ofList, List.mem_map] at hc
  obtain ⟨b, hb, rfl⟩ := hc
  have hlow := Base64.le_of_mem_encodeUnpadded b hb
  have hvalid : b.toNat.isValidChar := .inl (Nat.lt_trans b.toNat_lt (by decide))
  rw [Char.ofNat, dif_pos hvalid]
  exact Nat.le_trans (by decide) hlow

/-- What is read off a key file is some key's fingerprint. -/
theorem exists_key_of_fingerprintFile {files : FileTree} {path : Path} {text : String}
    (h : fingerprintFile files path = .ok text) : ∃ key, text = fingerprintOf key := by
  obtain ⟨_, -, h⟩ := of_bind h
  obtain ⟨line, -, h⟩ := of_bind h
  rw [fingerprint] at h
  cases hd : Base64.decode (Text.trim line.blob).toUTF8.data.toList with
  | error cause =>
    rw [hd] at h
    cases h
  | ok key =>
    rw [hd] at h
    exact ⟨key, (Except.ok.inj h).symm⟩

theorem Material.breakless_of_ready {m : Material} {files : FileTree} {ready : Fingerprints}
    (h : m.fingerprints files = .ok (.ready ready)) :
    Breakless ready.rsa ∧ Breakless ready.ed25519 := by
  rw [Material.fingerprints] at h
  cases hmissing : m.missing? files with
  | some missing =>
    rw [hmissing] at h
    cases h
  | none =>
    rw [hmissing] at h
    dsimp only at h
    obtain ⟨rsa, hrsa, h⟩ := of_bind h
    obtain ⟨ed25519, hed25519, h⟩ := of_bind h
    injection h with h
    injection h with h
    obtain ⟨key, rfl⟩ := exists_key_of_fingerprintFile hrsa
    obtain ⟨other, rfl⟩ := exists_key_of_fingerprintFile hed25519
    rw [← h]
    exact ⟨breakless_fingerprintOf key, breakless_fingerprintOf other⟩

end Key

theorem Provision.State.read_of_ofInputsBy {hasHost : String → Except Net.UrlError Bool}
    {text : Option String} {proxies : Provision.ProxyInputs} {state : Provision.State}
    (h : Provision.State.ofInputsBy hasHost text proxies = .ok state) {address : Net.Address}
    (ha : state.address = some address) : address.Read := by
  obtain ⟨v, -, hv⟩ := (Provision.State.reports_of_ofInputsBy hasHost h).address_some address ha
  exact ⟨v.toList, hv⟩

/-! ## Reading a configuration -/

def dropReturn (cs : List Char) : List Char :=
  if cs.getLast? = some '\r' then cs.dropLast else cs

/-- The lines of a text, without the breaks that end them. -/
def linesOf (text : String) : List String :=
  let pieces := Text.splitAt '\n' text.toList
  let lines := if pieces.getLast? = some [] then pieces.dropLast else pieces
  lines.map fun cs => String.ofList (dropReturn cs)

theorem Document.toList_ofLines (line : String) (lines : List String) :
    (Document.ofLines (line :: lines)).toList =
      line.toList ++ '\n' :: (Document.ofLines lines).toList := by
  simp [Document.ofLines, String.join_cons]

theorem splitAt_ofLines (lines : List String) :
    Text.splitAt '\n' (Document.ofLines lines).toList =
      lines.flatMap (fun line => Text.splitAt '\n' line.toList) ++ [[]] := by
  induction lines with
  | nil => rfl
  | cons line lines ih =>
    rw [Document.toList_ofLines, Text.splitAt_append, ih, List.flatMap_cons, List.append_assoc]

def linesWithin (line : String) : List String :=
  (Text.splitAt '\n' line.toList).map fun cs => String.ofList (dropReturn cs)

theorem linesWithin_of_breakless {line : String} (h : Breakless line) :
    linesWithin line = [line] := by
  have hbreak : '\n' ∉ line.toList := fun hmem => (h '\n' hmem).1 rfl
  have hlast : line.toList.getLast? ≠ some '\r' := by
    intro hl
    exact (h '\r' (List.mem_of_getLast? hl)).2 rfl
  rw [linesWithin, Text.splitAt_of_notMem hbreak, List.map_singleton, dropReturn, if_neg hlast,
    String.ofList_toList]

theorem linesOf_eq_flatMap (lines : List String) :
    linesOf (Document.ofLines lines) = lines.flatMap linesWithin := by
  simp only [linesOf, splitAt_ofLines, List.getLast?_concat, if_true, List.dropLast_concat,
    List.map_flatMap]
  rfl

/-- Lines without breaks are read as they were written. -/
theorem linesOf_ofLines {lines : List String} (h : ∀ line ∈ lines, Breakless line) :
    linesOf (Document.ofLines lines) = lines := by
  rw [linesOf_eq_flatMap]
  induction lines with
  | nil => rfl
  | cons line lines ih =>
    have hrest := ih fun other ho => h other (List.mem_cons_of_mem _ ho)
    rw [List.flatMap_cons, linesWithin_of_breakless (h line (by simp)), hrest]
    rfl

def afterPrefix? (start text : String) : Option String :=
  if start.toList.isPrefixOf text.toList then some (String.ofList (text.toList.drop start.length))
  else none

theorem afterPrefix_append (start value : String) :
    afterPrefix? start (start ++ value) = some value := by
  have hprefix : start.toList.isPrefixOf (start ++ value).toList = true := by
    rw [String.toList_append, List.isPrefixOf_iff_prefix]
    exact List.prefix_append _ _
  rw [afterPrefix?, if_pos hprefix, String.toList_append, ← String.length_toList, List.drop_left,
    String.ofList_toList]

/-- The values of a client configuration: five lines, of which the first is empty and the others
each set one. -/
def readConfig? (text : String) : Option (List String) :=
  match linesOf text with
  | ["", host, port, rsa, ed25519] => do
    let host ← afterPrefix? "set -g tmate-server-host " host
    let port ← afterPrefix? "set -g tmate-server-port " port
    let rsa ← afterPrefix? "set -g tmate-server-rsa-fingerprint " rsa
    let ed25519 ← afterPrefix? "set -g tmate-server-ed25519-fingerprint " ed25519
    some [host, port, rsa, ed25519]
  | _ => none

theorem readConfig_render {d : Document.ClientConfig} (hhost : Breakless d.host)
    (hrsa : Breakless d.rsa) (hed25519 : Breakless d.ed25519) :
    readConfig? d.render = some [d.host, toString d.port, d.rsa, d.ed25519] := by
  have hlines : linesOf d.render = d.lines := by
    refine linesOf_ofLines fun line hl => ?_
    simp only [Document.ClientConfig.lines, List.mem_cons, List.not_mem_nil, or_false] at hl
    rcases hl with rfl | rfl | rfl | rfl | rfl
    · decide
    · exact Breakless.append (by decide) hhost
    · exact Breakless.append (by decide) (breakless_port d.port)
    · exact Breakless.append (by decide) hrsa
    · exact Breakless.append (by decide) hed25519
  rw [readConfig?, hlines]
  simp only [Document.ClientConfig.lines, afterPrefix_append]
  rfl

/-! ## The two answers -/

namespace Hooks

open Relay

variable {ω : Type} {settings : Settings} {files : FileTree}

/-- What a client is answered says the same as how telling a consumer ends, and as what is then put
into the bags. -/
structure SaysTheSame (settings : Settings) (files : FileTree) (address : Option Net.Address)
    (answer : Except String String) (ending : Except (Halt HookError) Outcome)
    (es : List Event) : Prop where
  answered : (∃ text, answer = .ok text) ↔ ending = .ok .completed
  completed : ending = .ok .completed ↔
    ∃ host ready, address = some host ∧ fingerprints settings files = .ok (.ready ready)
  /-- The lines of the answer set what every consumer is told. -/
  values : ∀ text, answer = .ok text → ∃ values data,
    readConfig? text = some values ∧ Announced data es ∧
      [data["host"]?, data["port"]?, data["rsa_fingerprint"]?, data["ed25519_fingerprint"]?] =
        values.map some
  unbound : address = none →
    answer = .error Query.addressNotReady ∧ ending = .ok (.deferred Query.addressNotReady)
  waiting : ∀ host missing, address = some host →
    fingerprints settings files = .ok (.notReady missing) →
      answer = .error Query.generationFailed ∧ ending = .ok (.deferred missing.message)
  unusable : ∀ host cause, address = some host → fingerprints settings files = .error cause →
    answer = .error Query.generationFailed ∧ ending = .error (.failed (.key cause))

/-- The answer, in the cases that telling a consumer has. -/
theorem result_serverConfig (state : Provision.State) :
    (Query.serverConfig settings files state).result =
      match state.address, fingerprints settings files with
      | none, _ => .error Query.addressNotReady
      | some host, .ok (.ready ready) =>
        .ok (Document.ClientConfig.mk host.text settings.port ready.rsa ready.ed25519).render
      | some _, _ => .error Query.generationFailed := by
  rw [Query.serverConfig]
  cases state.address with
  | none => rfl
  | some host =>
    simp only [Query.connectionConfig, requireFingerprints]
    rcases fingerprints settings files with cause | ready | missing
    · rfl
    · rfl
    · rfl

theorem Joins.saysTheSame {state : Provision.State} (hread : ∀ host, state.address = some host →
      host.Read) {es : List Event} {r : Except (Halt HookError) Outcome}
    (h : Joins settings files state.address es r) :
    SaysTheSame settings files state.address (Query.serverConfig settings files state).result r
      es := by
  rw [result_serverConfig]
  generalize state.address = address at *
  cases h with
  | unbound =>
    exact {
      answered := by simp
      completed := by simp
      values := by simp
      unbound := fun _ => ⟨rfl, rfl⟩
      waiting := by simp
      unusable := by simp }
  | unreadable hf =>
    exact {
      answered := by simp [hf]
      completed := by simp [hf]
      values := by simp [hf]
      unbound := by simp
      waiting := by simp [hf]
      unusable := by simp [hf] }
  | waiting hf =>
    exact {
      answered := by simp [hf]
      completed := by simp [hf]
      values := by simp [hf]
      unbound := by simp
      waiting := by simp [hf]
      unusable := by simp [hf] }
  | @told host ready es hf ha =>
    refine {
      answered := by simp [hf]
      completed := by simp [hf]
      values := ?_
      unbound := by simp
      waiting := by simp [hf]
      unusable := by simp [hf] }
    intro text htext
    rw [hf] at htext
    obtain rfl := Except.ok.inj htext
    obtain ⟨hrsa, hed25519⟩ := Key.Material.breakless_of_ready hf
    refine ⟨_, _, readConfig_render (hread host rfl).breakless hrsa hed25519, ha, ?_⟩
    exact Record.Profile.getElem_bag (.of host settings.port ready)

/-- For every state that was read from its inputs, whatever reads the proxies, asking for the
configuration and telling a consumer agree. -/
theorem handing_out_agrees {hasHost : String → Except Net.UrlError Bool} {text : Option String}
    {proxies : Provision.ProxyInputs} {state : Provision.State}
    (h : Provision.State.ofInputsBy hasHost text proxies = .ok state)
    (site : Site ω) (settings : Settings) (s : Session ω) :
    ∃ es, (consumerJoined site settings state s).2.trace = s.trace ++ es ∧
      SaysTheSame settings (site.files s.world) state.address
        (Query.serverConfig settings (site.files s.world) state).result
        (consumerJoined site settings state s).1 es := by
  obtain ⟨es, hr, hj⟩ := makes_consumerJoined site settings state s
  refine ⟨es, hr.trace, hj.saysTheSame fun host hhost => ?_⟩
  exact Provision.State.read_of_ofInputsBy h hhost

/-- With ready keys and an address the configuration is handed out. -/
theorem handing_out_agrees_welcome :
    Provision.State.ofInputsBy Net.Url.hasHost (some " R\n") {} =
        .ok { address := some (.hostname ['r']) } ∧
      ∃ text es, (Query.serverConfig welcome.settings welcome.start.world
          { address := some (.hostname ['r']) }).result = .ok text ∧
        SaysTheSame welcome.settings welcome.start.world (some (.hostname ['r'])) (.ok text)
          (.ok .completed) es := by
  have hstate : Provision.State.ofInputsBy Net.Url.hasHost (some " R\n") {} =
      .ok { address := some (.hostname ['r']) } := by decide +kernel
  have hready : (Relay.requireFingerprints welcome.settings welcome.start.world).isOk = true := by
    decide +kernel
  obtain ⟨ready, hready⟩ := exists_ready hready
  obtain ⟨es, -, hsame⟩ := handing_out_agrees hstate (memory.site ⟨⟨"/state"⟩⟩) welcome.settings
    welcome.start
  have hdone := hsame.completed.mpr ⟨_, ready, rfl, hready⟩
  obtain ⟨text, htext⟩ := hsame.answered.mpr hdone
  rw [hdone, htext] at hsame
  exact ⟨hstate, text, es, htext, hsame⟩

end Hooks

end RelayKeeper
