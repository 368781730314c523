import Mathlib.Data.List.TakeWhile
import RelayKeeper.Record.Store
import RelayKeeper.Proofs.JsonRoundTrip

/-! # The written record reads back

A status, the opened ports and a bag are what their written forms are read as, down to the bytes of
the file. -/
namespace RelayKeeper

namespace Json

/-- Positive numbers are written without a leading zero. -/
theorem head_toDigits {n : Nat} (h : 0 < n) : (Nat.toDigits 10 n).head? ≠ some '0' := by
  induction n using Nat.strongRecOn with
  | ind n ih =>
    by_cases hn : n < 10
    · rw [Nat.toDigits_of_lt_base hn]
      have hd : ∀ d < 10, 0 < d → d.digitChar ≠ '0' := by decide
      simpa using hd n hn h
    · have hr := ih (n / 10) (by omega) (by omega)
      rw [Nat.toDigits_of_base_le (by decide) (by omega)]
      cases hq : Nat.toDigits 10 (n / 10) with
      | nil => exact absurd hq Nat.toDigits_ne_nil
      | cons c cs => simpa [hq] using hr

theorem all_isDigit_toDigits (n : Nat) : ∀ c ∈ Nat.toDigits 10 n, c.isDigit :=
  fun _ hc => Nat.isDigit_of_mem_toDigits (by decide) (by decide) hc

theorem isNumeral_toDigits (n : Nat) : IsNumeral (Nat.toDigits 10 n) := by
  have hd := all_isDigit_toDigits n
  refine ⟨?_, fun c hc => by simp [isNumberChar, hd c hc]⟩
  rcases Nat.eq_zero_or_pos n with rfl | hn
  · decide
  · have h0 := head_toDigits hn
    cases hs : Nat.toDigits 10 n with
    | nil => exact absurd hs Nat.toDigits_ne_nil
    | cons c cs =>
      rw [hs] at hd h0
      have hc : c.isDigit = true := hd c (by simp)
      have hz : c ≠ '0' := by simpa using h0
      have hm : c ≠ '-' := by
        rintro rfl
        exact absurd hc (by decide)
      have he : cs.dropWhile Char.isDigit = [] :=
        List.dropWhile_eq_nil_iff.mpr fun d hmem => hd d (by simp [hmem])
      simp [isNumber, hz, hm, dropDigits?, hc, he, isNumberTail, isExponent]

theorem printable_items_of_forall {items : List Json} (h : ∀ item ∈ items, Printable item) :
    PrintableItems items := by
  induction items with
  | nil => trivial
  | cons item items ih =>
    exact ⟨h item (by simp), ih fun other ho => h other (by simp [ho])⟩

theorem printable_members_of_forall {members : List (Option String × Json)}
    (h : ∀ member ∈ members, Printable member.2) : PrintableMembers members := by
  induction members with
  | nil => trivial
  | cons member members ih =>
    exact ⟨h member (by simp), ih fun other ho => h other (by simp [ho])⟩

end Json

namespace Record

theorem mapM_map_eq_some {f : β → Option γ} {g : α → β} {k : α → γ}
    (h : ∀ a, f (g a) = some (k a)) (list : List α) :
    (list.map g).mapM f = some (list.map k) := by
  induction list with
  | nil => rfl
  | cons a list ih => simp [h, ih]

namespace Status

theorem printable_toJson (s : Status) : s.toJson.Printable := by
  cases s <;> simp [toJson, message?, Json.record, Json.Printable, Json.PrintableMembers, Json.text]

theorem ofJson_toJson (s : Status) : ofJson? s.toJson = some s := by
  cases s <;> rfl

end Status

namespace Ports

theorem printable_toJson (ports : Ports) : (toJson ports).Printable := by
  refine Json.printable_items_of_forall fun item hi => ?_
  obtain ⟨port, -, rfl⟩ := List.mem_map.mp hi
  exact Json.isNumeral_toDigits _

theorem ofLiteral_toDigits (port : UInt16) :
    ofLiteral? (Nat.toDigits 10 port.toNat) = some port := by
  have hall : (Nat.toDigits 10 port.toNat).all Char.isDigit = true :=
    List.all_eq_true.mpr (Json.all_isDigit_toDigits _)
  have hlt : port.toNat < UInt16.size := port.toNat_lt
  simp [ofLiteral?, hall, hlt]

theorem ofList_toList (ports : Ports) : Std.ExtTreeSet.ofList ports.toList = ports := by
  apply Std.ExtTreeSet.ext_mem
  intro port
  simp

theorem ofJson_toJson (ports : Ports) : ofJson? (toJson ports) = some ports := by
  unfold ofJson? toJson
  dsimp only
  rw [mapM_map_eq_some (k := id), List.map_id]
  · exact congrArg some (ofList_toList ports)
  · exact ofLiteral_toDigits

end Ports

namespace Bag

theorem printable_toJson (bag : Bag) : (toJson bag).Printable := by
  refine Json.printable_members_of_forall fun member hm => ?_
  simp only [List.map_map, List.mem_map] at hm
  obtain ⟨entry, -, rfl⟩ := hm
  trivial

theorem ofList_toList (bag : Bag) : Std.ExtTreeMap.ofList bag.toList = bag := by
  apply Std.ExtTreeMap.ext_getElem?
  intro name
  cases h : bag[name]? with
  | some value =>
    exact Std.ExtTreeMap.getElem?_ofList_of_mem Std.ReflCmp.compare_self
      Std.ExtTreeMap.distinct_keys_toList (Std.ExtTreeMap.mem_toList_iff_getElem?_eq_some.mpr h)
  | none =>
    apply Std.ExtTreeMap.getElem?_ofList_of_contains_eq_false
    rw [Std.ExtTreeMap.map_fst_toList_eq_keys]
    simpa using h

theorem ofJson_toJson (bag : Bag) : ofJson? (toJson bag) = some bag := by
  unfold ofJson? toJson Json.record
  dsimp only
  rw [List.map_map, mapM_map_eq_some (k := id), List.map_id]
  · exact congrArg some (ofList_toList bag)
  · intro entry
    rfl

end Bag

def written (value : Json) : ByteArray :=
  (String.ofList value.pretty).toUTF8

theorem fromUTF8_toUTF8 (text : String) : String.fromUTF8? text.toUTF8 = some text := by
  have hv : text.toUTF8.IsValidUTF8 := text.isValidUTF8
  simp only [String.fromUTF8?, hv, dif_pos]
  rfl

/-- A codec whose written forms read back. -/
structure ReadsBack (decode : Json → Option α) (encode : α → Json) : Prop where
  printable : ∀ value, (encode value).Printable
  decoded : ∀ value, decode (encode value) = some value

theorem Status.readsBack : ReadsBack Status.ofJson? Status.toJson :=
  ⟨Status.printable_toJson, Status.ofJson_toJson⟩

theorem Ports.readsBack : ReadsBack Ports.ofJson? Ports.toJson :=
  ⟨Ports.printable_toJson, Ports.ofJson_toJson⟩

theorem Bag.readsBack : ReadsBack Bag.ofJson? Bag.toJson :=
  ⟨Bag.printable_toJson, Bag.ofJson_toJson⟩

theorem ReadsBack.parse {decode : Json → Option α} {encode : α → Json}
    (h : ReadsBack decode encode) (value : α) :
    (Json.parse? (String.ofList (encode value).pretty).toList).bind decode = some value := by
  rw [String.toList_ofList, Json.parse_pretty (h.printable value), Option.bind_some,
    h.decoded value]

end Record

end RelayKeeper
