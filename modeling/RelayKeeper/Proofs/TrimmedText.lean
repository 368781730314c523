import Mathlib.Data.List.TakeWhile
import RelayKeeper.Text.Blank

/-! # Trimmed texts

A text is blanks, what trimming leaves of it, and blanks again. What is left has no blank at either
end, and it is the only part of the text that stands so. -/
namespace RelayKeeper.Text

def Blanks (cs : List Char) : Prop := ∀ c ∈ cs, isBlank c = true

instance (cs : List Char) : Decidable (Blanks cs) :=
  decidable_of_iff (cs.all isBlank = true) List.all_eq_true

structure Trimmed (cs : List Char) : Prop where
  head : ∀ c ∈ cs.head?, isBlank c = false
  last : ∀ c ∈ cs.getLast?, isBlank c = false

theorem blanks_nil : Blanks [] := by
  intro c hc
  cases hc

theorem Blanks.append {cs ds : List Char} (hc : Blanks cs) (hd : Blanks ds) : Blanks (cs ++ ds) := by
  intro c h
  rcases List.mem_append.mp h with h | h
  · exact hc c h
  · exact hd c h

theorem dropWhile_eq_self {p : Char → Bool} {cs : List Char} (h : ∀ c ∈ cs.head?, p c = false) :
    cs.dropWhile p = cs := by
  cases cs with
  | nil => rfl
  | cons c cs => exact List.dropWhile_cons_of_neg (by simp [h c rfl])

theorem trimEndChars_eq_self {cs : List Char} (h : ∀ c ∈ cs.getLast?, isBlank c = false) :
    trimEndChars cs = cs := by
  rw [trimEndChars, dropWhile_eq_self, List.reverse_reverse]
  rwa [List.head?_reverse]

theorem trimEndChars_append (cs : List Char) {after : List Char} (h : Blanks after) :
    trimEndChars (cs ++ after) = trimEndChars cs := by
  rw [trimEndChars, List.reverse_append, List.dropWhile_append_of_pos]
  · rfl
  · intro c hc
    exact h c (List.mem_reverse.mp hc)

theorem exists_trimEndChars (cs : List Char) :
    ∃ after, Blanks after ∧ cs = trimEndChars cs ++ after := by
  refine ⟨(cs.reverse.takeWhile isBlank).reverse, ?_, ?_⟩
  · intro c hc
    exact List.mem_takeWhile_imp (List.mem_reverse.mp hc)
  · rw [trimEndChars, ← List.reverse_append, List.takeWhile_append_dropWhile, List.reverse_reverse]

theorem head_dropWhile (p : Char → Bool) (cs : List Char) :
    ∀ c ∈ (cs.dropWhile p).head?, p c = false := by
  intro c hc
  have hnot := List.head?_dropWhile_not p cs
  rwa [Option.mem_def.mp hc] at hnot

theorem trimmed_trimChars (cs : List Char) : Trimmed (trimChars cs) := by
  constructor
  · intro c hc
    obtain ⟨after, -, hsplit⟩ := exists_trimEndChars (cs.dropWhile isBlank)
    apply head_dropWhile isBlank cs
    rw [hsplit, List.head?_append]
    exact Option.or_eq_some_iff.mpr (.inl hc)
  · rw [trimChars, trimEndChars, List.getLast?_reverse]
    exact head_dropWhile isBlank _

theorem exists_trimChars (cs : List Char) :
    ∃ before after, Blanks before ∧ Blanks after ∧ cs = before ++ trimChars cs ++ after := by
  obtain ⟨after, hafter, hsplit⟩ := exists_trimEndChars (cs.dropWhile isBlank)
  refine ⟨cs.takeWhile isBlank, after, fun c hc => List.mem_takeWhile_imp hc, hafter, ?_⟩
  rw [trimChars, List.append_assoc, ← hsplit, List.takeWhile_append_dropWhile]

theorem Trimmed.trimChars_between {v before after : List Char} (h : Trimmed v)
    (hbefore : Blanks before) (hafter : Blanks after) : trimChars (before ++ v ++ after) = v := by
  have hend : trimEndChars (v.dropWhile isBlank) = v := by
    rw [dropWhile_eq_self h.head, trimEndChars_eq_self h.last]
  rw [trimChars, List.append_assoc, List.dropWhile_append_of_pos hbefore, List.dropWhile_append]
  split
  · -- nothing stands between the blanks
    next hnone =>
    rw [List.isEmpty_iff.mp hnone] at hend
    rw [List.dropWhile_eq_nil_iff.mpr hafter, hend]
  · rw [trimEndChars_append _ hafter, hend]

/-- The part that trimming leaves. -/
theorem trimChars_eq_iff {cs v : List Char} :
    trimChars cs = v ↔
      Trimmed v ∧ ∃ before after, Blanks before ∧ Blanks after ∧ cs = before ++ v ++ after := by
  constructor
  · rintro rfl
    exact ⟨trimmed_trimChars cs, exists_trimChars cs⟩
  · rintro ⟨htrimmed, before, after, hbefore, hafter, rfl⟩
    exact htrimmed.trimChars_between hbefore hafter

theorem Trimmed.trimChars_eq {v : List Char} (h : Trimmed v) : trimChars v = v :=
  trimChars_eq_iff.mpr ⟨h, [], [], blanks_nil, blanks_nil, by simp⟩

/-- Blanks around a text do not matter. -/
theorem trimChars_between (cs : List Char) {before after : List Char} (hbefore : Blanks before)
    (hafter : Blanks after) : trimChars (before ++ cs ++ after) = trimChars cs := by
  obtain ⟨front, back, hfront, hback, hsplit⟩ := exists_trimChars cs
  refine trimChars_eq_iff.mpr ⟨trimmed_trimChars cs, before ++ front, back ++ after,
    hbefore.append hfront, hback.append hafter, ?_⟩
  rw [hsplit, (trimmed_trimChars cs).trimChars_between hfront hback]
  simp only [List.append_assoc]

theorem trimChars_eq_nil_iff {cs : List Char} : trimChars cs = [] ↔ Blanks cs := by
  constructor
  · intro h
    obtain ⟨before, after, hbefore, hafter, hsplit⟩ := exists_trimChars cs
    rw [h, List.append_nil] at hsplit
    rw [hsplit]
    exact hbefore.append hafter
  · intro h
    have hnone : Trimmed [] := ⟨by simp, by simp⟩
    simpa using hnone.trimChars_between h blanks_nil

end RelayKeeper.Text
