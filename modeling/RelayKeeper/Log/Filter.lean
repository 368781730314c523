import RelayKeeper.Log.Entry
import RelayKeeper.Text.Blank
import RelayKeeper.Text.Split

/-!
# Log filters

A filter is a set of directives, at most one for each component. An entry is judged by the directive
whose component is the longest that the entry's component starts with; a directive without a
component is the shortest of all.
-/

namespace RelayKeeper.Log

structure Directive where
  component : Option String
  rank : Nat
  deriving DecidableEq, Repr

namespace Directive

def fits (d : Directive) (component : String) : Bool :=
  match d.component with
  | none => true
  | some start => start.toList.isPrefixOf component.toList

def weight (d : Directive) : Nat :=
  match d.component with
  | none => 0
  | some start => start.utf8ByteSize + 1

/-- The rank of a level's name or number; `off` lets nothing pass. -/
def rank? (cs : List Char) : Option Nat :=
  let digits := if cs.head? = some '+' then cs.drop 1 else cs
  if !digits.isEmpty && digits.all Char.isDigit then
    let n := Nat.ofDigitChars 10 digits 0
    if n ≤ 5 then some n else none
  else
    match String.ofList (cs.map Char.toLower) with
    | "off" => some 0
    | "error" => some 1
    | "warn" => some 2
    | "info" => some 3
    | "debug" => some 4
    | "trace" => some 5
    | _ => none

/-- The rank after an equals sign, where nothing stands for everything. -/
def rankOrAll? (cs : List Char) : Option Nat :=
  if cs.isEmpty then some 5 else rank? cs

/-- A word alone is a level, or a component that is let through entirely. -/
def ofWord (cs : List Char) : Directive :=
  match rank? cs with
  | some rank => ⟨none, rank⟩
  | none => ⟨some (String.ofList cs), 5⟩

def canStart (c : Char) : Bool :=
  c == '-' || c == ':' || c == '_' || Text.isAlphanumeric c

/-- Whether the text after the bracket of a span closes it and then ends or gives a level. -/
def isSpanTail (cs : List Char) : Bool :=
  match Text.cutAt? ']' cs with
  | none => false
  | some (_, []) => true
  | some (_, '=' :: level) => (rankOrAll? level).isSome
  | some _ => false

/-- Reads a directive. A text that is well formed but speaks of spans only gives no directive. -/
def parse? (cs : List Char) : Option (Option Directive) :=
  let trimmed := Text.trimChars cs
  let index := (trimmed.takeWhile fun c => c != '=' && c != '[' && c != ',').length
  match trimmed with
  | [] => none
  | '[' :: rest => if isSpanTail rest then some none else none
  | first :: _ =>
    if !canStart first then none
    else
      match trimmed.drop index with
      | [] => some (some (ofWord cs))
      | '=' :: rest =>
        match Text.cutAt? ',' rest with
        | none =>
          (rankOrAll? (cs.drop (index + 1))).map fun rank =>
            some ⟨some (String.ofList (cs.take index)), rank⟩
        | some (level, []) =>
          (rankOrAll? ((cs.drop (index + 1)).take level.length)).map fun rank =>
            some ⟨some (String.ofList (cs.take index)), rank⟩
        | some _ => none
      | '[' :: rest => if isSpanTail rest then some none else none
      | _ :: rest => if rest.isEmpty then some (some (ofWord cs)) else none

end Directive

abbrev Filter := List Directive

namespace Filter

def add (filter : Filter) (d : Directive) : Filter :=
  filter.filter (·.component != d.component) ++ [d]

def judge? (filter : Filter) (component : String) : Option Directive :=
  (filter.filter (·.fits component)).foldl
    (fun best d =>
      match best with
      | some b => if b.weight < d.weight then some d else some b
      | none => some d)
    none

def allows (filter : Filter) (e : Entry) : Bool :=
  match filter.judge? e.component with
  | some d => e.level.rank ≤ d.rank
  | none => false

/-- The directives of a text, separated by commas; those that are not well formed are left out. -/
def ofText (text : String) : Filter :=
  ((Text.splitAt ',' text.toList).filterMap Directive.parse?).foldl
    (fun filter d => match d with
      | some d => add filter d
      | none => filter)
    []

/-- The filter of a text, with everything but details let through by default. -/
def general (text : String) : Filter :=
  (ofText text).add ⟨none, Level.info.rank⟩

def focused (text : String) (component : String) : Filter :=
  let base := (ofText text).add ⟨none, Level.warn.rank⟩
  match Directive.parse? (component ++ "=info").toList with
  | some (some d) => base.add d
  | some none => base
  | none => base.add ⟨none, Level.info.rank⟩

end Filter

end RelayKeeper.Log
