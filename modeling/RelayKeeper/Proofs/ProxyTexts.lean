import Mathlib.Data.List.DropRight
import RelayKeeper.Proofs.CanonicalState
import RelayKeeper.Proofs.UrlParts

/-! # Proxy texts

A proxy is kept as it was written, while what is checked is the readable part of the text: tabs and
line breaks are left out of it, and so is whatever stands at its ends and cannot be seen. The two
are the same text exactly if there is nothing to leave out. -/
namespace RelayKeeper

namespace Net.Url

variable {cs : List Char} {c : Char}

/-! ## The readable part of a text -/

def isLow (c : Char) : Bool := c ≤ ' '

def isBreak (c : Char) : Bool := c == '\t' || c == '\n' || c == '\r'

theorem cases_isBreak (h : isBreak c = true) : c = '\t' ∨ c = '\n' ∨ c = '\r' := by
  simpa [isBreak, or_assoc] using h

theorem isLow_of_isBreak (h : isBreak c = true) : isLow c = true := by
  rcases cases_isBreak h with rfl | rfl | rfl <;> decide

theorem isControl_of_isBreak (h : isBreak c = true) : IsControl c := by
  rcases cases_isBreak h with rfl | rfl | rfl <;> decide

theorem isControl_or_eq_of_isLow (h : isLow c = true) : IsControl c ∨ c = ' ' := by
  have hle : c.toNat ≤ 32 := of_decide_eq_true h
  rcases Nat.lt_or_eq_of_le hle with hlt | heq
  · exact .inl (.inl hlt)
  · right
    rw [← Char.ofNat_toNat c, heq]

theorem not_isBreak (h : isLow c = false) : isBreak c = false := by
  by_contra hbreak
  rw [isLow_of_isBreak (Bool.not_eq_false _ ▸ hbreak)] at h
  cases h

/-- A text of which nothing is left out. -/
structure Readable (cs : List Char) : Prop where
  unbroken : ∀ c ∈ cs, isBreak c = false
  head : ∀ c ∈ cs.head?, isLow c = false
  last : ∀ c ∈ cs.getLast?, isLow c = false

def inner (cs : List Char) : List Char :=
  (cs.dropWhile isLow).rdropWhile isLow

theorem readable_eq (cs : List Char) : readable cs = (inner cs).filter (!isBreak ·) := by
  have hbreak : (fun c => c != '\t' && c != '\n' && c != '\r') = fun c => !isBreak c := by
    funext c
    rw [isBreak, Bool.not_or, Bool.not_or]
    rfl
  unfold readable
  dsimp only
  rw [hbreak]
  rfl

/-- What is left out at the ends is low. -/
theorem exists_inner (cs : List Char) : ∃ before after, cs = before ++ (inner cs ++ after) ∧
    (∀ c ∈ before, isLow c = true) ∧ ∀ c ∈ after, isLow c = true := by
  refine ⟨cs.takeWhile isLow, (cs.dropWhile isLow).rtakeWhile isLow, ?_,
    fun c hc => List.mem_takeWhile_imp hc, fun c hc => List.mem_rtakeWhile_imp hc⟩
  rw [inner, List.rdropWhile_append_rtakeWhile, List.takeWhile_append_dropWhile]

theorem head_inner (cs : List Char) : ∀ c ∈ (inner cs).head?, isLow c = false := by
  intro c hc
  obtain ⟨after, hafter⟩ := List.rdropWhile_prefix isLow (l := cs.dropWhile isLow)
  apply Text.head_dropWhile isLow cs
  rw [← hafter, List.head?_append]
  exact Option.or_eq_some_iff.mpr (.inl hc)

theorem last_inner (cs : List Char) : ∀ c ∈ (inner cs).getLast?, isLow c = false := by
  intro c hc
  obtain ⟨hne, rfl⟩ := List.mem_getLast?_eq_getLast hc
  exact Bool.eq_false_iff.mpr (List.rdropWhile_last_not isLow _ hne)

theorem readable_readable (cs : List Char) : Readable (readable cs) := by
  rw [readable_eq]
  constructor
  · intro c hc
    simpa using (List.mem_filter.mp hc).2
  · intro c hc
    cases hinner : inner cs with
    | nil =>
      rw [hinner] at hc
      cases hc
    | cons first more =>
      have hfirst := head_inner cs first (by rw [hinner]; rfl)
      rw [hinner, List.filter_cons_of_pos (by simp [not_isBreak hfirst])] at hc
      exact Option.some.inj hc ▸ hfirst
  · intro c hc
    rcases List.eq_nil_or_concat (inner cs) with hinner | ⟨more, final, hinner⟩
    · rw [hinner] at hc
      cases hc
    · rw [List.concat_eq_append] at hinner
      have hfinal := last_inner cs final (by simp [hinner])
      rw [hinner, List.filter_append, List.filter_cons_of_pos (by simp [not_isBreak hfinal]),
        List.filter_nil, List.getLast?_append] at hc
      exact Option.some.inj hc ▸ hfinal

theorem readable_eq_self_iff : readable cs = cs ↔ Readable cs := by
  constructor
  · intro h
    rw [← h]
    exact readable_readable cs
  · intro h
    have hfront : cs.dropWhile isLow = cs := Text.dropWhile_eq_self h.head
    have hinner : inner cs = cs := by
      rw [inner, hfront, List.rdropWhile_eq_self_iff]
      intro hne
      exact Bool.eq_false_iff.mp (h.last _ (List.getLast_mem_getLast? hne))
    rw [readable_eq, hinner, List.filter_eq_self]
    intro c hc
    rw [h.unbroken c hc]
    rfl

/-- The characters that can be seen, which are all read. -/
def visible (cs : List Char) : List Char := cs.filter (!isLow ·)

theorem visible_of_low (h : ∀ c ∈ cs, isLow c = true) : visible cs = [] := by
  rw [visible, List.filter_eq_nil_iff]
  intro c hc
  simp [h c hc]

theorem visible_readable (cs : List Char) : visible (readable cs) = visible cs := by
  obtain ⟨before, after, hcs, hbefore, hafter⟩ := exists_inner cs
  have hinner : visible cs = visible (inner cs) := by
    conv_lhs => rw [hcs]
    rw [visible, List.filter_append, List.filter_append, ← visible, ← visible, ← visible,
      visible_of_low hbefore, visible_of_low hafter, List.nil_append, List.append_nil]
  rw [hinner, readable_eq, visible, visible, List.filter_filter]
  refine List.filter_congr fun c _ => ?_
  cases hlow : isLow c with
  | true => rfl
  | false => simp [not_isBreak hlow]

theorem readable_idem (cs : List Char) : readable (readable cs) = readable cs :=
  readable_eq_self_iff.mpr (readable_readable cs)

/-! ## Parsers of URLs -/

/-- What the URL standard says of a parser. What cannot be seen at the ends of a text is not read, nor
are tabs and line breaks, and of a text that is read as it stands a URL with a host has its parts: a
scheme, slashes, user information, a host that holds no character forbidden there, a port, and what
follows. -/
structure Standard (hasHost : String → Except UrlError Bool) : Prop where
  reads : ∀ text, hasHost (String.ofList (readable text.toList)) = hasHost text
  parts : ∀ cs, Readable cs → hasHost (String.ofList cs) = .ok true →
    ∃ scheme slashes user host port rest, Parts cs scheme slashes user host port rest

theorem Standard.exists_parts {hasHost : String → Except UrlError Bool} (h : Standard hasHost)
    {text : String} (htext : hasHost text = .ok true) :
    ∃ scheme slashes user host port rest,
      Parts (readable text.toList) scheme slashes user host port rest := by
  apply h.parts _ (readable_readable text.toList)
  rw [h.reads, htext]

theorem standard_hasHost : Standard hasHost where
  reads := by
    intro text
    rw [hasHost, String.toList_ofList, readable_idem, ← hasHost]
  parts := by
    intro cs hcs h
    obtain ⟨scheme, slashes, user, host, port, rest, hparts⟩ := exists_parts h
    rw [String.toList_ofList, readable_eq_self_iff.mpr hcs] at hparts
    exact ⟨scheme, slashes, user, host, port, rest, hparts⟩

end Net.Url

namespace Provision

open Net (IsControl UrlError)
open Net.Url (Parts Readable SchemeKind Standard isLow readable visible)

variable {hasHost : String → Except UrlError Bool}

/-! ## What is checked of a proxy -/

/-- A proxy text whose readable part was checked. -/
structure Checked (hasHost : String → Except UrlError Bool) (v : String) : Prop where
  /-- The readable part is itself a URL with a host. -/
  accepted : hasHost (String.ofList (readable v.toList)) = .ok true
  plain : Readable (readable v.toList)
  /-- Nothing that can be seen is left out. -/
  seen : visible (readable v.toList) = visible v.toList
  /-- The text was checked as it stands exactly if there is nothing to leave out. -/
  same : readable v.toList = v.toList ↔ Readable v.toList
  /-- The control characters that were checked stand where a URL may hold them, so that a text has
  none exactly if it was checked as it stands and has none there. -/
  controls : ∃ scheme slashes user host port rest,
    Parts (readable v.toList) scheme slashes user host port rest ∧
      (∀ c ∈ readable v.toList, IsControl c → c ∈ user ∨ c ∈ rest ∨
        c ∈ host ∧ SchemeKind.ofName (scheme.map Char.toLower) = .other ∧ c ≠ '\x00') ∧
      ((∀ c ∈ v.toList, ¬ IsControl c) ↔
        readable v.toList = v.toList ∧ ∀ c ∈ user ++ (host ++ rest), ¬ IsControl c)

/-- A trimmed text without control characters is read as it stands. -/
theorem readable_of_not_isControl {cs : List Char} (htrimmed : Text.Trimmed cs)
    (h : ∀ c ∈ cs, ¬ IsControl c) : Readable cs := by
  have hvisible : ∀ c ∈ cs, Text.isBlank c = false → isLow c = false := by
    intro c hc hblank
    by_contra hlow
    rcases Net.Url.isControl_or_eq_of_isLow (Bool.not_eq_false _ ▸ hlow) with hcontrol | rfl
    · exact h c hc hcontrol
    · cases hblank
  constructor
  · intro c hc
    by_contra hbreak
    exact h c hc (Net.Url.isControl_of_isBreak (Bool.not_eq_false _ ▸ hbreak))
  · intro c hc
    exact hvisible c (List.mem_of_mem_head? hc) (htrimmed.head c hc)
  · intro c hc
    exact hvisible c (List.mem_of_mem_getLast? hc) (htrimmed.last c hc)

theorem checked_of_standard (hstandard : Standard hasHost) {v : String}
    (htrimmed : Text.Trimmed v.toList) (h : hasHost v = .ok true) : Checked hasHost v where
  accepted := (hstandard.reads v).trans h
  plain := Net.Url.readable_readable _
  seen := Net.Url.visible_readable _
  same := Net.Url.readable_eq_self_iff
  controls := by
    obtain ⟨scheme, slashes, user, host, port, rest, hparts⟩ := hstandard.exists_parts h
    have hcontrols := fun c hmem hc => hparts.of_control (c := c) hc hmem
    refine ⟨scheme, slashes, user, host, port, rest, hparts, hcontrols, ?_⟩
    constructor
    · intro hnone
      have hsame := Net.Url.readable_eq_self_iff.mpr (readable_of_not_isControl htrimmed hnone)
      refine ⟨hsame, fun c hc => hnone c ?_⟩
      rw [← hsame, hparts.whole]
      simp only [List.mem_append, List.mem_cons] at hc ⊢
      tauto
    · rintro ⟨hsame, hnone⟩ c hmem hc
      refine hnone c ?_ hc
      rw [← hsame] at hmem
      simp only [List.mem_append]
      rcases hcontrols c hmem hc with huser | hrest | ⟨hhost, -⟩
      · exact .inl huser
      · exact .inr (.inr hrest)
      · exact .inr (.inl hhost)

/-- A proxy that is kept is what stands between the blanks of its text, and was checked. -/
theorem checked_of_checkProxyBy (hstandard : Standard hasHost) {kind : ProxyKind}
    {input field : Option String} (h : checkProxyBy hasHost kind (nonBlank input) = .ok field) :
    ∀ v ∈ field, TextOf input v ∧ Checked hasHost v := by
  intro v hv
  obtain rfl := eq_of_checkProxyBy hasHost h
  have htext := nonBlank_eq_some_iff.mp hv
  refine ⟨htext, checked_of_standard hstandard htext.2.1 ?_⟩
  rw [Option.mem_def.mp hv, checkProxyBy] at h
  cases hhost : hasHost v with
  | error cause =>
    rw [hhost] at h
    cases h
  | ok found =>
    rw [hhost] at h
    cases found with
    | false => cases h
    | true => rfl

/-- With any parser that keeps to the standard, a proxy is kept as it stands between its blanks. What
was checked of it is the readable part, and that is the same text exactly if nothing is left out of
it. -/
theorem proxies_checked_as_read (hstandard : Standard hasHost) (inputs : ProxyInputs)
    (config : ProxyConfig) (h : ProxyConfig.ofInputsBy hasHost inputs = .ok (some config)) :
    (∀ v ∈ config.http, TextOf inputs.http v ∧ Checked hasHost v) ∧
      ∀ v ∈ config.https, TextOf inputs.https v ∧ Checked hasHost v := by
  obtain ⟨http, hhttp, h⟩ := of_bind h
  obtain ⟨https, hhttps, h⟩ := of_bind h
  split at h
  · cases h
  · obtain rfl := Option.some.inj (Except.ok.inj h)
    exact ⟨checked_of_checkProxyBy hstandard hhttp, checked_of_checkProxyBy hstandard hhttps⟩

/-- A tab in the name of the proxy is kept, although it was not checked. -/
theorem proxies_checked_as_read_tab :
    Standard Net.Url.hasHost ∧
      ProxyConfig.ofInputsBy Net.Url.hasHost ⟨some " http://pro\txy:3128\n", none, none⟩ =
        .ok (some ⟨some "http://pro\txy:3128", none, none⟩) ∧
      Checked Net.Url.hasHost "http://pro\txy:3128" ∧
      ¬ Readable "http://pro\txy:3128".toList := by
  have hmade : ProxyConfig.ofInputsBy Net.Url.hasHost ⟨some " http://pro\txy:3128\n", none, none⟩ =
      .ok (some ⟨some "http://pro\txy:3128", none, none⟩) := by
    decide +kernel
  obtain ⟨hhttp, -⟩ := proxies_checked_as_read Net.Url.standard_hasHost _ _ hmade
  refine ⟨Net.Url.standard_hasHost, hmade, (hhttp _ rfl).2, fun hreadable => ?_⟩
  exact absurd (hreadable.unbroken '\t' (by decide)) (by decide)

/-- A proxy is accepted and kept with a tab in it, as is one with a control character that was
checked. -/
theorem ofInputs_keeps_control :
    ProxyConfig.ofInputsBy Net.Url.hasHost
        ⟨some "http://pro\txy:3128", some "http://proxy/\x01", none⟩ =
      .ok (some ⟨some "http://pro\txy:3128", some "http://proxy/\x01", none⟩) ∧
      IsControl '\t' ∧ '\t' ∈ "http://pro\txy:3128".toList ∧
      readable "http://pro\txy:3128".toList = "http://proxy:3128".toList ∧
      IsControl '\x01' ∧ '\x01' ∈ "http://proxy/\x01".toList := by
  decide +kernel

end Provision

end RelayKeeper
