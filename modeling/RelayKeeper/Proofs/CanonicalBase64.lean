import Mathlib.Data.Nat.Bitwise
import Mathlib.Tactic.IntervalCases
import RelayKeeper.Encoding.Base64
import RelayKeeper.Proofs.TreeWalk

/-! # Base64 is canonical

A text is read if it is the standard's text of some bytes, and it is then read as these bytes. Any
other text is refused: other padding, low bits that carry nothing and are not zero, characters in
between. -/
namespace RelayKeeper.Base64

/-! ## Bits of a byte -/

/-- A shifted byte and what fits below it do not overlap. -/
theorem toNat_shiftLeft_or {a r k : UInt8} (hk : k.toNat < 8) (hr : r.toNat < 2 ^ k.toNat) :
    (a <<< k ||| r).toNat = (2 ^ k.toNat * a.toNat + r.toNat) % 256 := by
  rw [UInt8.toNat_or, UInt8.toNat_shiftLeft, Nat.mod_eq_of_lt hk, Nat.shiftLeft_eq]
  generalize k.toNat = n at hk hr
  have hwidth : 2 ^ 8 = 2 ^ n * 2 ^ (8 - n) := by
    rw [← Nat.pow_add, Nat.add_sub_cancel' (Nat.le_of_lt hk)]
  have hkept : a.toNat * 2 ^ n % 2 ^ 8 = 2 ^ n * (a.toNat % 2 ^ (8 - n)) := by
    rw [Nat.mul_comm, hwidth, Nat.mul_mod_mul_left]
  rw [hkept, ← Nat.two_pow_add_eq_or_of_lt hr]
  interval_cases n <;> omega

theorem toNat_shiftLeft {a k : UInt8} (hk : k.toNat < 8) :
    (a <<< k).toNat = 2 ^ k.toNat * a.toNat % 256 := by
  have hzero : (0 : UInt8).toNat < 2 ^ k.toNat := Nat.two_pow_pos _
  have hshift := toNat_shiftLeft_or (a := a) hk hzero
  rwa [UInt8.or_zero, UInt8.toNat_zero, Nat.add_zero] at hshift

theorem toNat_shiftRight {a k : UInt8} (hk : k.toNat < 8) :
    (a >>> k).toNat = a.toNat / 2 ^ k.toNat := by
  rw [UInt8.toNat_shiftRight, Nat.mod_eq_of_lt hk, Nat.shiftRight_eq_div_pow]

/-- What is left of one byte in front, what is left of another behind. -/
theorem toNat_join {a b j k : UInt8} (hj : j.toNat < 8) (hk : k.toNat < 8)
    (h : b.toNat / 2 ^ k.toNat < 2 ^ j.toNat) :
    (a <<< j ||| b >>> k).toNat = (2 ^ j.toNat * a.toNat + b.toNat / 2 ^ k.toNat) % 256 := by
  rw [← toNat_shiftRight hk] at h ⊢
  exact toNat_shiftLeft_or hj h

theorem toNat_and_mask {a mask : UInt8} (n : Nat) (h : mask.toNat = 2 ^ n - 1) :
    (a &&& mask).toNat = a.toNat % 2 ^ n := by
  rw [UInt8.toNat_and, h, Nat.and_two_pow_sub_one_eq_mod]

/-- A byte whose low bits are zero has none left when the others are shifted out. -/
theorem shiftLeft_eq_zero {a k mask : UInt8} (hk : k.toNat < 8)
    (hmask : mask.toNat = 2 ^ (8 - k.toNat) - 1) (h : a &&& mask = 0) : a <<< k = 0 := by
  have hmod := congrArg UInt8.toNat h
  rw [toNat_and_mask _ hmask] at hmod
  have hwidth : 256 = 2 ^ k.toNat * 2 ^ (8 - k.toNat) := by
    rw [← Nat.pow_add, Nat.add_sub_cancel' (Nat.le_of_lt hk)]
  apply UInt8.toNat_inj.mp
  rw [toNat_shiftLeft hk, hwidth, Nat.mul_mod_mul_left]
  change a.toNat % 2 ^ (8 - k.toNat) = 0 at hmod
  rw [hmod]
  rfl

/-! ## Symbols -/

def sextet (v : UInt8) : UInt8 := UInt8.ofNat (v.toNat % 64)

theorem toNat_sextet (v : UInt8) : (sextet v).toNat = v.toNat % 64 := by
  rw [sextet, UInt8.toNat_ofNat']
  omega

/-- The bits that a shift has made room for are zero. -/
theorem sextet_shiftLeft_and {a k mask : UInt8} (hk : k.toNat ≤ 6)
    (hmask : mask.toNat = 2 ^ k.toNat - 1) : sextet (a <<< k) &&& mask = 0 := by
  have hsextet : 2 ^ k.toNat ∣ 64 := Nat.pow_dvd_pow 2 hk
  have hbyte : 2 ^ k.toNat ∣ 256 := hsextet.trans (by decide)
  apply UInt8.toNat_inj.mp
  rw [toNat_and_mask _ hmask, toNat_sextet, toNat_shiftLeft (by omega),
    Nat.mod_mod_of_dvd _ hsextet, Nat.mod_mod_of_dvd _ hbyte, Nat.mul_mod_right]
  rfl

def symbolNumber (n : Nat) : Nat :=
  if n < 26 then n + 65
  else if n < 52 then n + 71
  else if n < 62 then n - 4
  else if n = 62 then 43
  else 47

def valueNumber? (n : Nat) : Option Nat :=
  if 65 ≤ n ∧ n ≤ 90 then some (n - 65)
  else if 97 ≤ n ∧ n ≤ 122 then some (n - 71)
  else if 48 ≤ n ∧ n ≤ 57 then some (n + 4)
  else if n = 43 then some 62
  else if n = 47 then some 63
  else none

theorem valueNumber_symbolNumber {n : Nat} (h : n < 64) :
    valueNumber? (symbolNumber n) = some n := by
  have hall : ∀ n < 64, valueNumber? (symbolNumber n) = some n := by decide
  exact hall n h

theorem symbolNumber_of_valueNumber {n m : Nat} (h : valueNumber? n = some m) :
    m < 64 ∧ symbolNumber m = n := by
  unfold valueNumber? at h
  unfold symbolNumber
  split_ifs at h <;> obtain rfl := Option.some.inj h <;> split_ifs <;> omega

theorem toNat_symbol (v : UInt8) : (symbol v).toNat = symbolNumber (v.toNat % 64) := by
  have hmask : (v &&& 0x3F).toNat = v.toNat % 64 := toNat_and_mask 6 rfl
  have hlt : v.toNat % 64 < 64 := Nat.mod_lt _ (by omega)
  unfold symbol symbolNumber
  dsimp only
  generalize v &&& 0x3F = w at hmask
  rw [← hmask] at hlt ⊢
  simp only [UInt8.lt_iff_toNat_lt, ← UInt8.toNat_inj, UInt8.reduceToNat]
  split_ifs
  · simp only [UInt8.toNat_add, UInt8.reduceToNat]
    omega
  · simp only [UInt8.toNat_add, UInt8.reduceToNat]
    omega
  · simp only [UInt8.toNat_sub, UInt8.reduceToNat]
    omega
  · rfl
  · rfl

theorem value?_map_toNat (byte : UInt8) :
    (value? byte).map UInt8.toNat = valueNumber? byte.toNat := by
  unfold value? valueNumber?
  simp only [Bool.and_eq_true, decide_eq_true_eq, UInt8.le_iff_toNat_le, ← UInt8.toNat_inj,
    UInt8.reduceToNat]
  split_ifs
  · simp only [Option.map_some, UInt8.toNat_sub, UInt8.reduceToNat]
    congr 1
    omega
  · simp only [Option.map_some, UInt8.toNat_sub, UInt8.reduceToNat]
    congr 1
    omega
  · simp only [Option.map_some, UInt8.toNat_add, UInt8.reduceToNat]
    congr 1
    omega
  · rfl
  · rfl
  · rfl

theorem value_symbol (v : UInt8) : value? (symbol v) = some (sextet v) := by
  have hvalue := value?_map_toNat (symbol v)
  rw [toNat_symbol, valueNumber_symbolNumber (Nat.mod_lt _ (by omega))] at hvalue
  obtain ⟨w, hw, hnat⟩ := Option.map_eq_some_iff.mp hvalue
  rw [hw, ← UInt8.toNat_inj.mp (hnat.trans (toNat_sextet v).symm)]

theorem of_value {byte v : UInt8} (h : value? byte = some v) : symbol v = byte ∧ v.toNat < 64 := by
  have hvalue := value?_map_toNat byte
  rw [h, Option.map_some] at hvalue
  obtain ⟨hlt, hnumber⟩ := symbolNumber_of_valueNumber hvalue.symm
  refine ⟨?_, hlt⟩
  apply UInt8.toNat_inj.mp
  rw [toNat_symbol, Nat.mod_eq_of_lt hlt, hnumber]

theorem symbol_congr {v w : UInt8} (h : v.toNat % 64 = w.toNat % 64) : symbol v = symbol w := by
  apply UInt8.toNat_inj.mp
  rw [toNat_symbol, toNat_symbol, h]

/-- Symbols are ASCII, and none is below the plus sign. -/
theorem toNat_symbol_range (v : UInt8) : 43 ≤ (symbol v).toNat ∧ (symbol v).toNat < 128 := by
  have hlt : v.toNat % 64 < 64 := Nat.mod_lt _ (by omega)
  rw [toNat_symbol, symbolNumber]
  split_ifs <;> omega

/-! ## Groups -/

/-- The values of a group of three bytes give the bytes back. -/
theorem bytes_of_group (a b c : UInt8) :
    sextet (a >>> 2) <<< 2 ||| sextet (a <<< 4 ||| b >>> 4) >>> 4 = a ∧
      sextet (a <<< 4 ||| b >>> 4) <<< 4 ||| sextet (b <<< 2 ||| c >>> 6) >>> 2 = b ∧
      sextet (b <<< 2 ||| c >>> 6) <<< 6 ||| sextet c = c := by
  have ha := a.toNat_lt
  have hb := b.toNat_lt
  have hc := c.toNat_lt
  have h1 : (sextet (a >>> 2)).toNat = a.toNat / 4 := by
    rw [toNat_sextet, toNat_shiftRight (by decide)]
    change a.toNat / 4 % 64 = _
    omega
  have h2 : (sextet (a <<< 4 ||| b >>> 4)).toNat = 16 * (a.toNat % 4) + b.toNat / 16 := by
    rw [toNat_sextet, toNat_join (by decide) (by decide) (by change b.toNat / 16 < 16; omega)]
    change (16 * a.toNat + b.toNat / 16) % 256 % 64 = _
    omega
  have h3 : (sextet (b <<< 2 ||| c >>> 6)).toNat = 4 * (b.toNat % 16) + c.toNat / 64 := by
    rw [toNat_sextet, toNat_join (by decide) (by decide) (by change c.toNat / 64 < 4; omega)]
    change (4 * b.toNat + c.toNat / 64) % 256 % 64 = _
    omega
  refine ⟨?_, ?_, ?_⟩
  · apply UInt8.toNat_inj.mp
    rw [toNat_join (by decide) (by decide) (by rw [h2]; change _ / 16 < 4; omega), h1, h2]
    change (4 * _ + _ / 16) % 256 = _
    omega
  · apply UInt8.toNat_inj.mp
    rw [toNat_join (by decide) (by decide) (by rw [h3]; change _ / 4 < 16; omega), h2, h3]
    change (16 * _ + _ / 4) % 256 = _
    omega
  · apply UInt8.toNat_inj.mp
    rw [toNat_shiftLeft_or (by decide) (by rw [toNat_sextet]; change _ < 64; omega), h3,
      toNat_sextet]
    change (64 * _ + _) % 256 = _
    omega

/-- The bytes of a group of four values give the symbols back. -/
theorem symbols_of_group {p q r s : UInt8} (hp : p.toNat < 64) (hq : q.toNat < 64)
    (hr : r.toNat < 64) (hs : s.toNat < 64) :
    symbol ((p <<< 2 ||| q >>> 4) >>> 2) = symbol p ∧
      symbol ((p <<< 2 ||| q >>> 4) <<< 4 ||| (q <<< 4 ||| r >>> 2) >>> 4) = symbol q ∧
      symbol ((q <<< 4 ||| r >>> 2) <<< 2 ||| (r <<< 6 ||| s) >>> 6) = symbol r ∧
      symbol (r <<< 6 ||| s) = symbol s := by
  have h1 : (p <<< 2 ||| q >>> 4).toNat = 4 * p.toNat + q.toNat / 16 := by
    rw [toNat_join (by decide) (by decide) (by change _ / 16 < 4; omega)]
    change (4 * _ + _ / 16) % 256 = _
    omega
  have h2 : (q <<< 4 ||| r >>> 2).toNat = 16 * (q.toNat % 16) + r.toNat / 4 := by
    rw [toNat_join (by decide) (by decide) (by change _ / 4 < 16; omega)]
    change (16 * _ + _ / 4) % 256 = _
    omega
  have h3 : (r <<< 6 ||| s).toNat = 64 * (r.toNat % 4) + s.toNat := by
    rw [toNat_shiftLeft_or (by decide) hs]
    change (64 * _ + _) % 256 = _
    omega
  refine ⟨symbol_congr ?_, symbol_congr ?_, symbol_congr ?_, symbol_congr ?_⟩
  · rw [toNat_shiftRight (by decide), h1]
    change _ / 4 % 64 = _
    omega
  · rw [toNat_join (by decide) (by decide) (by rw [h2]; change _ / 16 < 16; omega), h1, h2]
    change (16 * _ + _ / 16) % 256 % 64 = _
    omega
  · rw [toNat_join (by decide) (by decide) (by rw [h3]; change _ / 64 < 4; omega), h2, h3]
    change (4 * _ + _ / 64) % 256 % 64 = _
    omega
  · rw [h3]
    omega

/-! ## Reading what was written -/

theorem symbol_ne_padding (v : UInt8) : symbol v ≠ paddingSign := by
  intro h
  have hv := value_symbol v
  rw [h] at hv
  cases hv

theorem symbolAt_symbol (v : UInt8) (offset : Nat) :
    symbolAt (symbol v) offset = .ok (sextet v) := by
  rw [symbolAt, value_symbol]

theorem lastSymbols_padding (start : Nat) {index : Nat} (h : 2 ≤ index) (n : Nat) :
    lastSymbols start index (List.replicate n paddingSign) = .ok ([], n) := by
  cases n with
  | zero => rfl
  | succ n => simp [List.replicate_succ, lastSymbols, h]

theorem lastSymbols_symbol (start index : Nat) (v : UInt8) (rest : List UInt8) :
    lastSymbols start index (symbol v :: rest) =
      (lastSymbols start (index + 1) rest).map fun (vs, padding) => (sextet v :: vs, padding) := by
  rw [lastSymbols, if_neg (symbol_ne_padding v), symbolAt_symbol]
  cases lastSymbols start (index + 1) rest <;> rfl

/-- Symbols and padding that a last group may end with. -/
theorem lastSymbols_symbols (start index : Nat) (vs : List UInt8) {n : Nat}
    (h : 2 ≤ index + vs.length ∨ n = 0) :
    lastSymbols start index (vs.map symbol ++ List.replicate n paddingSign) =
      .ok (vs.map sextet, n) := by
  induction vs generalizing index with
  | nil =>
    rcases h with h | rfl
    · exact lastSymbols_padding start (by simpa using h) n
    · rfl
  | cons v vs ih =>
    have hrest : 2 ≤ index + 1 + vs.length ∨ n = 0 := by
      rcases h with h | h
      · left
        rw [List.length_cons] at h
        omega
      · exact .inr h
    rw [List.map_cons, List.cons_append, lastSymbols_symbol, ih _ hrest]
    rfl

theorem decodeLast_symbols (start : Nat) (vs : List UInt8) (n : Nat)
    (h : 2 ≤ vs.length ∨ n = 0) :
    decodeLast start (vs.map symbol ++ List.replicate n paddingSign) =
      lastBytes start n (vs.map symbol ++ List.replicate n paddingSign) (vs.map sextet) := by
  have hlast := lastSymbols_symbols start 0 vs (n := n) (by simpa using h)
  rw [decodeLast, hlast]
  rfl

/-- A last byte alone is read from two symbols, of which the second has four low bits to spare. -/
theorem decodeLast_one (start : Nat) (a : UInt8) :
    decodeLast start [symbol (a >>> 2), symbol (a <<< 4), paddingSign, paddingSign] = .ok [a] := by
  obtain ⟨ha, hb, -⟩ := bytes_of_group a 0 0
  have hnone : a <<< 4 ||| (0 : UInt8) >>> 4 = a <<< 4 := by simp
  rw [hnone] at ha hb
  have hspare : sextet (a <<< 4) &&& 0x0F = 0 := sextet_shiftLeft_and (by decide) rfl
  refine (decodeLast_symbols start [a >>> 2, a <<< 4] 2 (.inl (by simp))).trans ?_
  simp [lastBytes, hspare, ha]

theorem decodeLast_two (start : Nat) (a b : UInt8) :
    decodeLast start
        [symbol (a >>> 2), symbol (a <<< 4 ||| b >>> 4), symbol (b <<< 2), paddingSign] =
      .ok [a, b] := by
  obtain ⟨ha, hb, -⟩ := bytes_of_group a b 0
  have hnone : b <<< 2 ||| (0 : UInt8) >>> 6 = b <<< 2 := by simp
  rw [hnone] at hb
  have hspare : sextet (b <<< 2) &&& 0x03 = 0 := sextet_shiftLeft_and (by decide) rfl
  refine (decodeLast_symbols start [a >>> 2, a <<< 4 ||| b >>> 4, b <<< 2] 1
    (.inl (by simp))).trans ?_
  simp [lastBytes, hspare, ha, hb]

theorem decodeLast_three (start : Nat) (a b c : UInt8) :
    decodeLast start
        [symbol (a >>> 2), symbol (a <<< 4 ||| b >>> 4), symbol (b <<< 2 ||| c >>> 6), symbol c] =
      .ok [a, b, c] := by
  obtain ⟨ha, hb, hc⟩ := bytes_of_group a b c
  refine (decodeLast_symbols start
    [a >>> 2, a <<< 4 ||| b >>> 4, b <<< 2 ||| c >>> 6, c] 0 (.inr rfl)).trans ?_
  simp [lastBytes, ha, hb, hc]

theorem decodeFrom_encode (bytes : List UInt8) (start : Nat) :
    decodeFrom start (encode bytes) = .ok bytes := by
  fun_induction encode bytes generalizing start with
  | case1 => rfl
  | case2 a => exact decodeLast_one start a
  | case3 a b => exact decodeLast_two start a b
  | case4 a b c rest ih =>
    -- the reader takes a group for the last one only if nothing is behind it
    cases hrest : encode rest with
    | nil =>
      have hnil : rest = [] := by
        have hread := ih start
        rw [hrest] at hread
        exact (Except.ok.inj hread).symm
      rw [hnil]
      exact decodeLast_three start a b c
    | cons e tail =>
      obtain ⟨ha, hb, hc⟩ := bytes_of_group a b c
      have hread := ih (start + 4)
      rw [hrest] at hread
      simp only [decodeFrom, symbolAt_symbol, hread, bind, Except.bind, ha, hb, hc]

theorem length_encode (bytes : List UInt8) : (encode bytes).length % 4 = 0 := by
  fun_induction encode bytes with
  | case1 | case2 a | case3 a b => simp
  | case4 a b c rest ih =>
    simp only [List.length_cons]
    omega

/-- Reading what was written gives the bytes back. -/
theorem decode_encode (bytes : List UInt8) : decode (encode bytes) = .ok bytes := by
  have hread := decodeFrom_encode bytes 0
  rw [decode]
  cases hlast : (encode bytes).getLast? with
  | none =>
    rw [List.getLast?_eq_none_iff.mp hlast] at hread
    exact hread
  | some last => simp [length_encode bytes, hread]

/-! ## Writing what was read -/

theorem of_symbolAt {byte v : UInt8} {offset : Nat} (h : symbolAt byte offset = .ok v) :
    symbol v = byte ∧ v.toNat < 64 := by
  rw [symbolAt] at h
  cases hv : value? byte with
  | none =>
    rw [hv] at h
    cases h
  | some w =>
    rw [hv] at h
    obtain rfl := Except.ok.inj h
    exact of_value hv

/-- A last group whose symbols can be read is these symbols and padding. -/
theorem of_lastSymbols {start index n : Nat} {group vs : List UInt8}
    (h : lastSymbols start index group = .ok (vs, n)) :
    group = vs.map symbol ++ List.replicate n paddingSign ∧ ∀ v ∈ vs, v.toNat < 64 := by
  induction group generalizing index vs with
  | nil =>
    obtain ⟨rfl, rfl⟩ := Prod.mk.inj (Except.ok.inj h)
    simp
  | cons byte rest ih =>
    rw [lastSymbols] at h
    by_cases hpad : byte = paddingSign
    · rw [if_pos hpad] at h
      by_cases hall : (2 ≤ index && rest.all (· == paddingSign)) = true
      · rw [if_pos hall] at h
        obtain ⟨rfl, rfl⟩ := Prod.mk.inj (Except.ok.inj h)
        have hrest : rest = List.replicate rest.length paddingSign := by
          rw [Bool.and_eq_true, List.all_eq_true] at hall
          exact List.eq_replicate_of_mem fun b hb => eq_of_beq (hall.2 b hb)
        refine ⟨?_, by simp⟩
        rw [hpad, List.map_nil, List.nil_append, List.replicate_succ, ← hrest]
      · rw [if_neg hall] at h
        cases h
    · rw [if_neg hpad] at h
      cases hv : symbolAt byte (start + index) with
      | error e =>
        rw [hv] at h
        cases h
      | ok v =>
        rw [hv] at h
        cases hmore : lastSymbols start (index + 1) rest with
        | error e =>
          rw [hmore] at h
          cases h
        | ok more =>
          rw [hmore] at h
          obtain ⟨rfl, rfl⟩ := Prod.mk.inj (Except.ok.inj h)
          obtain ⟨hsymbol, hlt⟩ := of_symbolAt hv
          obtain ⟨hgroup, hall⟩ := ih hmore
          refine ⟨?_, ?_⟩
          · rw [List.map_cons, List.cons_append, hsymbol, ← hgroup]
          · simpa [hlt] using hall

/-- Values that make bytes are those of the symbols that are written for the bytes. -/
theorem encode_of_lastBytes {start n : Nat} {group values bytes : List UInt8}
    (hlen : values.length + n ≤ 4) (hall : ∀ v ∈ values, v.toNat < 64)
    (h : lastBytes start n group values = .ok bytes) :
    encode bytes = values.map symbol ++ List.replicate n paddingSign := by
  have hzero : (0 : UInt8).toNat < 64 := by decide
  -- one case for each number of symbols: two for one byte, three for two, four for three
  rcases values with _ | ⟨p, _ | ⟨q, _ | ⟨r, _ | ⟨s, _ | ⟨t, more⟩⟩⟩⟩⟩
  · cases h
  · cases h
  · have hq : q &&& 0x0F = 0 → q <<< 4 = 0 := shiftLeft_eq_zero (by decide) rfl
    rw [lastBytes] at h
    by_cases hn : n ≠ 2
    · rw [if_pos hn] at h
      cases h
    by_cases hspare : q &&& 0x0F ≠ 0
    · rw [if_neg hn, if_pos hspare] at h
      cases h
    rw [if_neg hn, if_neg hspare] at h
    obtain rfl := Except.ok.inj h
    obtain ⟨h1, h2, -⟩ := symbols_of_group (hall p (by simp)) (hall q (by simp)) hzero hzero
    rw [hq (not_not.mp hspare)] at h2
    rw [not_not.mp hn, encode, h1]
    simpa using h2
  · have hr : r &&& 0x03 = 0 → r <<< 6 = 0 := shiftLeft_eq_zero (by decide) rfl
    rw [lastBytes] at h
    by_cases hn : n ≠ 1
    · rw [if_pos hn] at h
      cases h
    by_cases hspare : r &&& 0x03 ≠ 0
    · rw [if_neg hn, if_pos hspare] at h
      cases h
    rw [if_neg hn, if_neg hspare] at h
    obtain rfl := Except.ok.inj h
    obtain ⟨h1, h2, h3, -⟩ :=
      symbols_of_group (hall p (by simp)) (hall q (by simp)) (hall r (by simp)) hzero
    rw [hr (not_not.mp hspare)] at h3
    rw [not_not.mp hn, encode, h1, h2]
    simpa using h3
  · obtain rfl := Except.ok.inj h
    obtain rfl : n = 0 := by
      simp only [List.length_cons, List.length_nil] at hlen
      omega
    obtain ⟨h1, h2, h3, h4⟩ := symbols_of_group (hall p (by simp)) (hall q (by simp))
      (hall r (by simp)) (hall s (by simp))
    rw [encode, h1, h2, h3, h4]
    rfl
  · simp only [List.length_cons] at hlen
    omega

/-- A last group that can be read is what is written for its bytes. -/
theorem encode_of_decodeLast {start : Nat} {group bytes : List UInt8} (hlen : group.length ≤ 4)
    (h : decodeLast start group = .ok bytes) : encode bytes = group := by
  rw [decodeLast] at h
  cases hlast : lastSymbols start 0 group with
  | error e =>
    rw [hlast] at h
    cases h
  | ok read =>
    obtain ⟨values, n⟩ := read
    rw [hlast] at h
    obtain ⟨hgroup, hall⟩ := of_lastSymbols hlast
    rw [hgroup] at hlen ⊢
    refine encode_of_lastBytes ?_ hall h
    simpa using hlen

theorem encode_of_decodeFrom {start : Nat} {text bytes : List UInt8}
    (h : decodeFrom start text = .ok bytes) : encode bytes = text := by
  fun_induction decodeFrom start text generalizing bytes with
  | case1 =>
    obtain rfl := Except.ok.inj h
    rfl
  | case2 start a b c d e rest ih =>
    obtain ⟨p, hp, h⟩ := of_bind h
    obtain ⟨q, hq, h⟩ := of_bind h
    obtain ⟨r, hr, h⟩ := of_bind h
    obtain ⟨s, hs, h⟩ := of_bind h
    obtain ⟨tail, htail, h⟩ := of_bind h
    obtain rfl := Except.ok.inj h
    obtain ⟨rfl, hplow⟩ := of_symbolAt hp
    obtain ⟨rfl, hqlow⟩ := of_symbolAt hq
    obtain ⟨rfl, hrlow⟩ := of_symbolAt hr
    obtain ⟨rfl, hslow⟩ := of_symbolAt hs
    obtain ⟨h1, h2, h3, h4⟩ := symbols_of_group hplow hqlow hrlow hslow
    rw [encode, h1, h2, h3, h4, ih htail]
  | case3 start group hne hshort =>
    -- at most four bytes are left, since five would have been read as a group and a rest
    refine encode_of_decodeLast ?_ h
    rcases group with _ | ⟨a, _ | ⟨b, _ | ⟨c, _ | ⟨d, _ | ⟨e, rest⟩⟩⟩⟩⟩
    case cons.cons.cons.cons.cons => exact (hshort a b c d e rest rfl).elim
    all_goals simp

/-- A text that can be read is what is written for the bytes that it is read as. -/
theorem encode_of_decode {text bytes : List UInt8} (h : decode text = .ok bytes) :
    encode bytes = text := by
  rw [decode] at h
  cases hlast : text.getLast? with
  | none =>
    rw [hlast] at h
    obtain rfl := Except.ok.inj h
    rw [List.getLast?_eq_none_iff.mp hlast]
    rfl
  | some last =>
    rw [hlast] at h
    dsimp only at h
    split at h
    · cases h
    · exact encode_of_decodeFrom h

theorem decode_eq_ok_iff {text bytes : List UInt8} : decode text = .ok bytes ↔ text = encode bytes :=
  ⟨fun h => (encode_of_decode h).symm, fun h => h ▸ decode_encode bytes⟩

end RelayKeeper.Base64
