import RelayKeeper.Document.KeyScript
import RelayKeeper.Document.ServiceUnit
import RelayKeeper.Proofs.AddressGrammar
import RelayKeeper.Proofs.HandingOut

/-! # The address in the documents

An address is pasted into the lines of documents as it is. What it is written with can end neither
its line nor a word nor a quotation, so that a document says the same for every address but for the
address itself. -/
namespace RelayKeeper

namespace Net

/-! ## What an address is written with -/

structure Inert (text : String) : Prop where
  nonempty : text ≠ ""
  chars : ∀ c ∈ text.toList,
    'a' ≤ c ∧ c ≤ 'z' ∨ '0' ≤ c ∧ c ≤ '9' ∨ c = '.' ∨ c = ':' ∨ c = '-'
  first : text.toList.head? ≠ some '-'
  short : text.length ≤ 254

theorem of_isAddressChar {c : Char} (h : isAddressChar c = true) :
    'a' ≤ c ∧ c ≤ 'z' ∨ '0' ≤ c ∧ c ≤ '9' ∨ c = '.' ∨ c = ':' ∨ c = '-' := by
  simp only [isAddressChar, Char.isLower, Char.isDigit, Bool.or_eq_true, Bool.and_eq_true,
    decide_eq_true_eq, beq_iff_eq] at h
  rcases h with (((h | h) | h) | h) | h
  · exact .inl h
  · exact .inr (.inl h)
  · exact .inr (.inr (.inl h))
  · exact .inr (.inr (.inr (.inl h)))
  · exact .inr (.inr (.inr (.inr h)))

namespace Ipv4

theorem length_octetChars_le (n : UInt8) : (octetChars n).length ≤ 3 :=
  Octet.length_le (octet?_eq_some_iff.mp (octet?_octetChars n))

theorem length_chars_le (ip : Ipv4) : ip.chars.length ≤ 15 := by
  have ha := length_octetChars_le ip.a
  have hb := length_octetChars_le ip.b
  have hc := length_octetChars_le ip.c
  have hd := length_octetChars_le ip.d
  simp only [chars, List.length_append, List.length_cons]
  omega

theorem notMem_chars_hyphen (ip : Ipv4) : '-' ∉ ip.chars := by
  intro h
  rcases isDigitOf_of_parse? ip.parse?_chars '-' h with h | h
  · exact absurd h (by decide)
  · exact absurd h (by decide)

end Ipv4

namespace Ipv6

theorem length_groupsChars_le (gs : List UInt16) : (groupsChars gs).length ≤ 5 * gs.length := by
  induction gs with
  | nil => exact Nat.zero_le _
  | cons g gs ih =>
    have hgroup : (groupChars g).length ≤ 4 := (group?_eq_some_iff.mp (group?_groupChars g)).2
    cases gs with
    | nil =>
      simp only [groupsChars, List.map_cons, List.map_nil, Text.joinWith, List.length_cons,
        List.length_nil]
      omega
    | cons next gs =>
      simp only [groupsChars, List.map_cons, Text.joinWith, List.length_append,
        List.length_cons, List.length_nil] at ih ⊢
      omega

theorem notMem_groupsChars_hyphen (gs : List UInt16) : '-' ∉ groupsChars gs := by
  intro h
  rcases mem_joinWith h with h | ⟨piece, hpiece, h⟩
  · exact absurd h (by decide)
  · obtain ⟨g, -, rfl⟩ := List.mem_map.mp hpiece
    exact notMem_groupChars (by decide) g h

/-- An address is written as two rows of groups, or with the address that it stands for. -/
theorem chars_cases (ip : Ipv6) :
    (∃ v4 : Ipv4, ip.chars = "::ffff:".toList ++ v4.chars) ∨ ip.chars = groupsChars ip.toList ∨
      ∃ start skipped, ip.chars = groupsChars (ip.toList.take start) ++
        ':' :: ':' :: groupsChars (ip.toList.drop skipped) := by
  rw [chars]
  cases ip.mapped? with
  | some v4 => exact .inl ⟨v4, rfl⟩
  | none =>
    dsimp only [hexChars]
    by_cases hzeros : 2 ≤ (longestZeros ip.toList).2
    · rw [if_pos hzeros]
      exact .inr (.inr ⟨_, _, rfl⟩)
    · rw [if_neg hzeros]
      exact .inr (.inl rfl)

theorem length_chars_le (ip : Ipv6) : ip.chars.length ≤ 82 := by
  have hlen := ip.length_toList
  rcases ip.chars_cases with ⟨v4, h⟩ | h | ⟨start, skipped, h⟩
  · have hv4 := v4.length_chars_le
    rw [h, List.length_append]
    change 7 + _ ≤ _
    omega
  · have hgroups := length_groupsChars_le ip.toList
    rw [h]
    omega
  · have hleft := length_groupsChars_le (ip.toList.take start)
    have hright := length_groupsChars_le (ip.toList.drop skipped)
    rw [List.length_take] at hleft
    rw [List.length_drop] at hright
    rw [h, List.length_append, List.length_cons, List.length_cons]
    omega

theorem notMem_chars_hyphen (ip : Ipv6) : '-' ∉ ip.chars := by
  rcases ip.chars_cases with ⟨v4, h⟩ | h | ⟨start, skipped, h⟩
  · rw [h, List.mem_append, not_or]
    exact ⟨by decide, v4.notMem_chars_hyphen⟩
  · rw [h]
    exact notMem_groupsChars_hyphen _
  · simp only [h, List.mem_append, List.mem_cons, not_or]
    exact ⟨notMem_groupsChars_hyphen _, by decide, by decide, notMem_groupsChars_hyphen _⟩

end Ipv6

namespace HostName

variable {cs : List Char}

theorem length_le (h : HostName cs) : cs.length ≤ 254 := by
  cases h with
  | plain _ hlen => omega
  | rooted _ hlen =>
    rw [List.length_append, List.length_singleton]
    omega

theorem exists_head (h : HostName cs) : ∃ c rest, cs = c :: rest ∧ LetterOrDigit c := by
  cases h with
  | plain hlabels _ => exact hlabels.exists_head
  | rooted hlabels _ =>
    obtain ⟨c, rest, rfl, hc⟩ := hlabels.exists_head
    exact ⟨c, _, List.cons_append, hc⟩

end HostName

namespace Address

theorem Read.length_chars_le {address : Address} (h : address.Read) :
    address.chars.length ≤ 254 := by
  obtain ⟨cs, hcs⟩ := h
  rcases ofChars?_cases hcs with ⟨ip, -, rfl⟩ | ⟨ip, -, -, rfl⟩ | ⟨-, -, hname, rfl⟩
  · exact ip.length_chars_le.trans (by decide)
  · exact ip.length_chars_le.trans (by decide)
  · rw [chars, List.length_map]
    exact (isHostname_iff.mp hname).length_le

theorem Read.head?_chars_ne {address : Address} (h : address.Read) :
    address.chars.head? ≠ some '-' := by
  obtain ⟨cs, hcs⟩ := h
  rcases ofChars?_cases hcs with ⟨ip, -, rfl⟩ | ⟨ip, -, -, rfl⟩ | ⟨-, -, hname, rfl⟩
  · exact fun hhead => ip.notMem_chars_hyphen (List.mem_of_head? hhead)
  · exact fun hhead => ip.notMem_chars_hyphen (List.mem_of_head? hhead)
  · obtain ⟨c, rest, rfl, hc⟩ := (isHostname_iff.mp hname).exists_head
    rw [chars, List.map_cons, List.head?_cons, ne_eq, Option.some_inj, toLower_eq_iff (by decide)]
    rintro rfl
    exact absurd hc (by decide)

theorem Read.inert {address : Address} (h : address.Read) : Inert address.text where
  nonempty := by
    intro hempty
    apply h.chars_ne_nil
    rw [← String.toList_ofList (l := address.chars), ← text, hempty]
    rfl
  chars c hc := of_isAddressChar (h.isAddressChar_text c hc)
  first := by
    rw [text, String.toList_ofList]
    exact h.head?_chars_ne
  short := by
    rw [text, String.length_ofList]
    exact h.length_chars_le

end Address

end Net

/-! ## One line of a document -/

namespace Document

theorem ofLines_append (lines more : List String) :
    ofLines (lines ++ more) = ofLines lines ++ ofLines more := by
  simp [ofLines, String.join_append]

theorem ofLines_cons (line : String) (lines : List String) :
    ofLines (line :: lines) = line ++ "\n" ++ ofLines lines := by
  simp [ofLines, String.join_cons]

end Document

theorem linesOf_insert {line : String} (h : Breakless line) (before after : List String) :
    linesOf (Document.ofLines (before ++ line :: after)) =
      linesOf (Document.ofLines before) ++ line :: linesOf (Document.ofLines after) := by
  rw [linesOf_eq_flatMap, linesOf_eq_flatMap, linesOf_eq_flatMap, List.flatMap_append,
    List.flatMap_cons, linesWithin_of_breakless h]
  rfl

/-- Between other lines the text has one line for an address: the address, with the rest of the line
around it. -/
structure Pasted (before after : List String) (start finish : String) (address : Net.Address)
    (text : String) : Prop where
  text_eq : text = Document.ofLines before ++ (start ++ address.text ++ finish) ++ "\n" ++
    Document.ofLines after
  lines_eq : linesOf text = linesOf (Document.ofLines before) ++
    (start ++ address.text ++ finish) :: linesOf (Document.ofLines after)

/-- Two texts are the same but for the addresses that they have in the same line. -/
structure SameButAddress (before after : List String) (start finish : String)
    (address other : Net.Address) (text second : String) : Prop where
  pasted : Pasted before after start finish address text
  pastedOther : Pasted before after start finish other second
  count : (linesOf text).length = (linesOf second).length

section pasting

variable {start finish : String} {address other : Net.Address}

theorem pasted_ofLines (hstart : Breakless start) (hfinish : Breakless finish) (h : address.Read)
    (before after : List String) : Pasted before after start finish address
      (Document.ofLines (before ++ (start ++ address.text ++ finish) :: after)) where
  text_eq := by
    simp only [Document.ofLines_append, Document.ofLines_cons, String.append_assoc]
  lines_eq := linesOf_insert ((hstart.append h.breakless).append hfinish) before after

theorem sameButAddress_ofLines (hstart : Breakless start) (hfinish : Breakless finish)
    (h : address.Read) (k : other.Read) (before after : List String) :
    SameButAddress before after start finish address other
      (Document.ofLines (before ++ (start ++ address.text ++ finish) :: after))
      (Document.ofLines (before ++ (start ++ other.text ++ finish) :: after)) := by
  have hpasted := pasted_ofLines hstart hfinish h before after
  have hother := pasted_ofLines hstart hfinish k before after
  refine ⟨hpasted, hother, ?_⟩
  rw [hpasted.lines_eq, hother.lines_eq, List.length_append, List.length_append, List.length_cons,
    List.length_cons]

end pasting

namespace Net.Address

/-- An accepted address is pasted as it is, and cannot be more than an address: every document that
has it says the same for every other accepted address, but for the address itself. -/
theorem paste_harmless {text second : String} {address other : Address}
    (h : parse text = .ok address) (k : parse second = .ok other) :
    Inert address.text ∧
    (∀ d : Document.ClientConfig,
      SameButAddress (d.lines.take 1) (d.lines.drop 2) "set -g tmate-server-host " ""
        address other { d with host := address.text }.render { d with host := other.text }.render) ∧
    (∀ d : Document.ServiceUnit,
      SameButAddress (d.lines.take 14) (d.lines.drop 15) "    -e SSH_HOSTNAME=" " \\"
        address other { d with address := address.text }.render
        { d with address := other.text }.render) ∧
    ∀ d : Document.KeyScript,
      SameButAddress (d.lines.take 18) (d.lines.drop 19) "echo \"set -g tmate-server-host " "\""
        address other { d with host := address.text }.render
        { d with host := other.text }.render := by
  have hread := read_of_parse h
  have kread := read_of_parse k
  refine ⟨hread.inert, fun d => ?_, fun d => ?_, fun d => ?_⟩
  · have hsame : SameButAddress (d.lines.take 1) (d.lines.drop 2) "set -g tmate-server-host " ""
        address other
        (Document.ofLines (d.lines.take 1 ++
          ("set -g tmate-server-host " ++ address.text ++ "") :: d.lines.drop 2))
        (Document.ofLines (d.lines.take 1 ++
          ("set -g tmate-server-host " ++ other.text ++ "") :: d.lines.drop 2)) :=
      sameButAddress_ofLines (by decide) (by decide) hread kread _ _
    rw [String.append_empty, String.append_empty] at hsame
    exact hsame
  · exact sameButAddress_ofLines (by decide) (by decide) hread kread _ _
  · exact sameButAddress_ofLines (by decide) (by decide) hread kread _ _

/-- A name in capitals and an address, where the one is longer than the other. -/
theorem paste_harmless_name_ip :
    parse " Relay.Example. " = .ok (.hostname "relay.example.".toList) ∧
      parse "10.0.0.1" = .ok (.ipv4 ⟨10, 0, 0, 1⟩) ∧
      ∀ d : Document.ServiceUnit,
        SameButAddress (d.lines.take 14) (d.lines.drop 15) "    -e SSH_HOSTNAME=" " \\"
          (.hostname "relay.example.".toList) (.ipv4 ⟨10, 0, 0, 1⟩)
          { d with address := "relay.example." }.render { d with address := "10.0.0.1" }.render := by
  have hname : parse " Relay.Example. " = .ok (.hostname "relay.example.".toList) := by
    decide +kernel
  have hip : parse "10.0.0.1" = .ok (.ipv4 ⟨10, 0, 0, 1⟩) := by decide +kernel
  obtain ⟨-, -, hunit, -⟩ := paste_harmless hname hip
  have hnamed : (hostname "relay.example.".toList).text = "relay.example." := by decide
  have hnumbered : (ipv4 ⟨10, 0, 0, 1⟩).text = "10.0.0.1" := by decide +kernel
  rw [hnamed, hnumbered] at hunit
  exact ⟨hname, hip, hunit⟩

end Net.Address

end RelayKeeper
