import RelayKeeper.Toml.Document

/-! # Keys that are still free

A document that only assigns values makes tables by its dotted keys and opens none by a header. Then
a key is still free as long as no assignment has made a value on its path, or an item at its end. -/
namespace RelayKeeper.Toml

def KeyPath.names (key : KeyPath) : List String :=
  key.above ++ [key.last]

/-- Neither key leads to the other, or through it. -/
def Apart (a b : KeyPath) : Prop :=
  ¬ a.names <+: b.names ∧ ¬ b.names <+: a.names

theorem apart_of_head_ne {a b : KeyPath} (h : a.names.head? ≠ b.names.head?) : Apart a b := by
  have hhead : ∀ {a b : KeyPath}, a.names <+: b.names → a.names.head? = b.names.head? := by
    rintro ⟨above, last⟩ b ⟨rest, hrest⟩
    rw [← hrest]
    cases above <;> rfl
  exact ⟨fun hab => h (hhead hab), fun hba => h (hhead hba).symm⟩

namespace Entries

theorem get?_set (entries : Entries) (key name : String) (item : Item) :
    get? (set entries key item) name = if key = name then some item else get? entries name := by
  induction entries with
  | nil =>
    by_cases h : key = name
    · simp [set, get?, h]
    · simp [set, get?, h]
  | cons entry rest ih =>
    obtain ⟨first, old⟩ := entry
    by_cases hkey : first = key
    · subst hkey
      by_cases h : first = name
      · simp [set, get?, h]
      · simp [set, get?, h]
    · rw [set, if_neg hkey]
      by_cases h : first = name
      · subst h
        simp [get?, Ne.symm hkey]
      · have hrest : ∀ entries : Entries,
            get? ((first, old) :: entries) name = get? entries name := by
          simp [get?, h]
        rw [hrest, hrest, ih]

def tableAt (entries : Entries) (name : String) : Entries :=
  match get? entries name with
  | some (.table _ inner) => inner
  | _ => []

/-- A key is free: the tables on its path are made by dotted keys, or not made yet, and nothing lies
at its end. -/
def Free (last : String) : List String → Entries → Prop
  | [], entries => get? entries last = none
  | name :: above, entries =>
    (∀ item ∈ get? entries name, ∃ inner, item = .table .dotted inner) ∧
      Free last above (tableAt entries name)

def added (last : String) (value : Value) : List String → Entries → Entries
  | [], entries => set entries last (.value value)
  | name :: above, entries =>
    set entries name (.table .dotted (added last value above (tableAt entries name)))

theorem free_nil (last : String) (above : List String) : Free last above [] := by
  induction above with
  | nil => rfl
  | cons name above ih => exact ⟨nofun, ih⟩

section under

variable {last : String} {change : Origin → Entries → Option Entries}
  {name : String} {above : List String} {entries : Entries}

/-- The path of a free key leads into tables that dotted keys make. -/
theorem under_cons (h : Free last (name :: above) entries) (origin : Origin) :
    under true change (name :: above) origin entries =
      (under true change above .dotted (tableAt entries name)).map
        fun inner => set entries name (.table .dotted inner) := by
  obtain ⟨hitem, -⟩ := h
  rw [under, tableAt]
  cases hget : get? entries name with
  | none => rfl
  | some item =>
    obtain ⟨inner, rfl⟩ := hitem item hget
    rfl

theorem under_of_free (value : Value) (h : Free last above entries)
    (hchange : ∀ entries, get? entries last = none →
      change .dotted entries = some (set entries last (.value value))) :
    under true change above .dotted entries = some (added last value above entries) := by
  induction above generalizing entries with
  | nil => exact hchange entries h
  | cons name above ih => rw [under_cons h, ih h.2, Option.map_some, added]

end under

/-- A free key is assigned its value. -/
theorem assign_of_free {key : KeyPath} {entries : Entries} (h : Free key.last key.above entries)
    (value : Value) :
    assign key value .header entries = some (added key.last value key.above entries) := by
  obtain ⟨above, last⟩ := key
  unfold assign
  cases above with
  | nil =>
    have hnone : get? entries last = none := h
    simp only [under, hnone]
    rfl
  | cons name above =>
    rw [under_cons h, under_of_free value h.2, Option.map_some, added]
    intro inner hnone
    simp only [hnone]
    rfl

theorem tableAt_set_self (entries : Entries) (name : String) (origin : Origin) (inner : Entries) :
    tableAt (set entries name (.table origin inner)) name = inner := by
  rw [tableAt, get?_set, if_pos rfl]

/-- A free key stays free when an item is set under another first name. -/
theorem Free.set {other name : String} {path : List String} {entries : Entries}
    (h : Free other path entries) (hname : name ∉ (path ++ [other]).head?) (item : Item) :
    Free other path (set entries name item) := by
  cases path with
  | nil =>
    have hne : name ≠ other := fun heq => hname (by simp [heq])
    rw [Free, get?_set, if_neg hne]
    exact h
  | cons first path =>
    have hne : name ≠ first := fun heq => hname (by simp [heq])
    rw [Free, tableAt, get?_set, if_neg hne]
    exact h

/-- A free key stays free when a value is added under a key apart from it. -/
theorem Free.added {last other : String} {value : Value} {above path : List String}
    {entries : Entries} (h : Free other path entries)
    (hover : ¬ above ++ [last] <+: path ++ [other])
    (hunder : ¬ path ++ [other] <+: above ++ [last]) :
    Free other path (added last value above entries) := by
  induction above generalizing path entries with
  | nil =>
    refine h.set (fun hhead => hover ?_) _
    obtain ⟨rest, hrest⟩ := List.head?_eq_some_iff.mp hhead
    exact ⟨rest, hrest.symm⟩
  | cons first above ih =>
    by_cases hhead : first ∈ (path ++ [other]).head?
    · cases path with
      | nil =>
        obtain rfl := Option.some.inj hhead
        exact absurd (List.prefix_append [_] _) hunder
      | cons name path =>
        obtain rfl := Option.some.inj hhead
        rw [Entries.added, Free, tableAt_set_self, get?_set, if_pos rfl]
        refine ⟨fun item hitem => ⟨_, (Option.some.inj hitem).symm⟩, ih h.2 ?_ ?_⟩
        · exact fun hstarts => hover (List.cons_prefix_cons.mpr ⟨rfl, hstarts⟩)
        · exact fun hstarts => hunder (List.cons_prefix_cons.mpr ⟨rfl, hstarts⟩)
    · exact h.set hhead _

/-- Adding a value sets one item of the table, under the first name of its key. -/
theorem exists_added (key : KeyPath) (value : Value) (entries : Entries) :
    ∃ name ∈ key.names.head?, ∃ item,
      added key.last value key.above entries = set entries name item := by
  obtain ⟨above, last⟩ := key
  cases above with
  | nil => exact ⟨last, rfl, _, rfl⟩
  | cons name above => exact ⟨name, rfl, _, rfl⟩

end Entries

end RelayKeeper.Toml
