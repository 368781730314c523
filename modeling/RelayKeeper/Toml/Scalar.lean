import RelayKeeper.Text.Numeral
import RelayKeeper.Text.Split
import RelayKeeper.Toml.Value

/-!
# Numbers, booleans and moments

The literals that are written without quotes. Digits may be grouped by single underscores. A float
that does not say that it is infinite must not round to infinity; a date has to be in the calendar,
where a minute may have sixty-one seconds.
-/

namespace RelayKeeper.Toml

/-- Digits of a base without the underscores, each of which has to stand between two digits. -/
def ungroup? (base : Nat) : List Char → Option (List Char)
  | [] => none
  | [c] => if Text.isDigitOf base c then some [c] else none
  | c :: '_' :: rest =>
    if Text.isDigitOf base c then (ungroup? base rest).map (c :: ·) else none
  | c :: rest => if Text.isDigitOf base c then (ungroup? base rest).map (c :: ·) else none

def based? (base : Nat) (cs : List Char) : Option Nat := do
  Text.number? base (← ungroup? base cs)

/-- The digits of a decimal number without a leading zero. -/
def decimal? (cs : List Char) : Option (List Char) := do
  let digits ← ungroup? 10 cs
  if digits.head? = some '0' && digits.length ≠ 1 then none else some digits

def cutSign : List Char → Bool × List Char
  | '-' :: rest => (true, rest)
  | '+' :: rest => (false, rest)
  | cs => (false, cs)

/-- An integer of sixty-four bits. -/
def integer? (cs : List Char) : Option Int := do
  let n : Int ←
    match cs with
    | '0' :: 'x' :: rest => (based? 16 rest).map Int.ofNat
    | '0' :: 'o' :: rest => (based? 8 rest).map Int.ofNat
    | '0' :: 'b' :: rest => (based? 2 rest).map Int.ofNat
    | _ =>
      let (negative, rest) := cutSign cs
      let n ← Text.number? 10 (← decimal? rest)
      pure (if negative then -(Int.ofNat n) else Int.ofNat n)
  if -Int.pow 2 63 ≤ n && n < Int.pow 2 63 then some n else none

/-- The least number that rounds to infinity as a float of sixty-four bits. -/
def roundsToInfinity : Nat := Nat.pow 2 1024 - Nat.pow 2 970

def isTooLarge (m : Nat) (exponent : Int) : Bool :=
  if m = 0 then false
  else if 0 ≤ exponent then 400 < exponent || roundsToInfinity ≤ m * Nat.pow 10 exponent.toNat
  else
    let down := (-exponent).toNat
    down ≤ (Nat.toDigits 10 m).length && roundsToInfinity * Nat.pow 10 down ≤ m

def cutExponent (cs : List Char) : List Char × Option (List Char) :=
  match cs.dropWhile fun c => c != 'e' && c != 'E' with
  | [] => (cs, none)
  | _ :: rest => (cs.takeWhile fun c => c != 'e' && c != 'E', some rest)

/-- A float, which has a fraction or an exponent or is infinite or no number. -/
def isFloat (cs : List Char) : Bool :=
  let (negative, rest) := cutSign cs
  if rest = "nan".toList || rest = "inf".toList then true
  else
    let (mantissa, exponent) := cutExponent rest
    let value? : Option (Nat × Int) := do
      let exponent ←
        match exponent with
        | none => pure 0
        | some digits =>
          let (negative, digits) := cutSign digits
          let n ← Text.number? 10 (← ungroup? 10 digits)
          pure (if negative then -(Int.ofNat n) else Int.ofNat n)
      match Text.cutAt? '.' mantissa with
      | none => pure (← Text.number? 10 (← decimal? mantissa), exponent)
      | some (whole, fraction) =>
        let fraction ← ungroup? 10 fraction
        pure (← Text.number? 10 ((← decimal? whole) ++ fraction), exponent - fraction.length)
    match value? with
    | none => false
    | some (m, e) =>
      (exponent.isSome || mantissa.contains '.') && (negative || !isTooLarge m e)

def fixedDigits? (count : Nat) (cs : List Char) : Option Nat :=
  if cs.length = count then Text.number? 10 cs else none

def daysIn (year month : Nat) : Nat :=
  if month = 2 then if year % 4 = 0 && (year % 100 ≠ 0 || year % 400 = 0) then 29 else 28
  else if month = 4 || month = 6 || month = 9 || month = 11 then 30
  else 31

def isDate (cs : List Char) : Bool :=
  match Text.splitAt '-' cs with
  | [y, m, d] =>
    match fixedDigits? 4 y, fixedDigits? 2 m, fixedDigits? 2 d with
    | some year, some month, some day =>
      1 ≤ month && month ≤ 12 && 1 ≤ day && day ≤ daysIn year month
    | _, _, _ => false
  | _ => false

def isHourMinute (h m : List Char) : Bool :=
  match fixedDigits? 2 h, fixedDigits? 2 m with
  | some hour, some minute => hour ≤ 23 && minute ≤ 59
  | _, _ => false

/-- Two digits up to sixty, and perhaps a fraction. -/
def isSecond (cs : List Char) : Bool :=
  (fixedDigits? 2 (cs.take 2)).any (· ≤ 60) &&
    match cs.drop 2 with
    | [] => true
    | '.' :: fraction => (Text.number? 10 fraction).isSome
    | _ => false

def isTime (cs : List Char) : Bool :=
  match Text.splitAt ':' cs with
  | [h, m, s] => isHourMinute h m && isSecond s
  | _ => false

def isTimeWithOffset (cs : List Char) : Bool :=
  if cs.getLast?.any fun c => c == 'Z' || c == 'z' then isTime cs.dropLast
  else
    match cs.dropWhile fun c => c != '+' && c != '-' with
    | [] => isTime cs
    | _ :: offset =>
      isTime (cs.takeWhile fun c => c != '+' && c != '-') &&
        match Text.splitAt ':' offset with
        | [h, m] => isHourMinute h m
        | _ => false

/-- A date, a time or both; the offset needs both. -/
def isDateTime (cs : List Char) : Bool :=
  isDate cs || isTime cs ||
    (isDate (cs.take 10) &&
      match cs.drop 10 with
      | separator :: time =>
        (separator == 'T' || separator == 't' || separator == ' ') && isTimeWithOffset time
      | [] => false)

def scalar? (cs : List Char) : Option Value :=
  if cs = "true".toList then some (.boolean true)
  else if cs = "false".toList then some (.boolean false)
  else
    match integer? cs with
    | some n => some (.integer n)
    | none =>
      if isFloat cs then some (.float cs)
      else if isDateTime cs then some (.dateTime cs)
      else none

end RelayKeeper.Toml
