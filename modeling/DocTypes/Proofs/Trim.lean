/-
# What trimming takes off

Trimming takes characters of a class off both ends of a text and nothing else
(`Text.exists_eq_trim`). What is left begins and ends with other characters
(`Text.trimmed_trim`), and such a text is what it is trimmed to
(`Text.Trimmed.trim_eq`).

Key definitions: `Text.Trimmed`.
Key theorems: `Text.exists_eq_trim`, `Text.trimmed_trim`, `Text.Trimmed.trim_eq`,
`Text.trim_eq_self_iff`, `Text.trim_eq_nil_iff`, `Text.trim_append`,
`Text.trim_append_left`, `Text.trim_append_right`.
-/
import DocTypes.Text
import Mathlib.Data.List.DropRight

namespace DocTypes
namespace Text

variable {p : Char → Bool} {s : Text}

/-- Neither the first nor the last character of the text is of the class. -/
structure Trimmed (p : Char → Bool) (s : Text) : Prop where
  first : ∀ c ∈ s.head?, p c = false
  last : ∀ c ∈ s.getLast?, p c = false

theorem trimStart_eq_self (h : ∀ c ∈ s.head?, p c = false) : trimStart p s = s := by
  cases s with
  | nil => rfl
  | cons c s => exact List.dropWhile_cons_of_neg (by simp [h c rfl])

theorem trimEnd_eq_self (h : ∀ c ∈ s.getLast?, p c = false) : trimEnd p s = s := by
  have h' : ∀ c ∈ s.reverse.head?, p c = false := by rwa [List.head?_reverse]
  have := trimStart_eq_self h'
  rw [trimStart] at this
  rw [trimEnd, this, List.reverse_reverse]

/-- A text without the class at its ends is not shortened. -/
theorem Trimmed.trim_eq (h : Trimmed p s) : trim p s = s := by
  rw [trim, trimStart_eq_self h.first, trimEnd_eq_self h.last]

theorem head?_dropWhile (p : Char → Bool) (s : Text) :
    ∀ c ∈ (s.dropWhile p).head?, p c = false := by
  intro c hc
  have := List.head?_dropWhile_not p s
  rw [hc] at this
  simpa using this

theorem trimmed_trim (p : Char → Bool) (s : Text) : Trimmed p (trim p s) := by
  constructor
  · intro c hc
    obtain ⟨t, ht⟩ := List.rdropWhile_prefix p (trimStart p s)
    refine head?_dropWhile p s c ?_
    have hpre : trim p s ++ t = s.dropWhile p := ht
    rw [← hpre, Option.mem_def, List.head?_append, hc]
    rfl
  · intro c hc
    rw [trim, trimEnd, List.getLast?_reverse] at hc
    exact head?_dropWhile p _ c hc

/-- Only characters of the class are taken off, in front and behind. -/
theorem exists_eq_trim (p : Char → Bool) (s : Text) :
    ∃ a b, s = a ++ (trim p s ++ b) ∧ (∀ c ∈ a, p c = true) ∧ ∀ c ∈ b, p c = true := by
  refine ⟨s.takeWhile p, (trimStart p s).rtakeWhile p, ?_, fun c => List.mem_takeWhile_imp,
    fun c hc => ?_⟩
  · have h : trim p s ++ (trimStart p s).rtakeWhile p = s.dropWhile p :=
      List.rdropWhile_append_rtakeWhile ..
    rw [h, List.takeWhile_append_dropWhile]
  · exact List.mem_rtakeWhile_imp hc

/-- Nothing is left just when all characters are of the class. -/
theorem trim_eq_nil_iff : trim p s = [] ↔ ∀ c ∈ s, p c = true := by
  constructor
  · intro h
    obtain ⟨a, b, hs, ha, hb⟩ := exists_eq_trim p s
    rw [h, List.nil_append] at hs
    intro c hc
    rw [hs] at hc
    exact (List.mem_append.mp hc).elim (ha c) (hb c)
  · intro h
    have : trimStart p s = [] := List.dropWhile_eq_nil_iff.mpr h
    rw [trim, this]
    rfl

/-- The texts that trimming leaves alone are those without the class at their ends. -/
theorem trim_eq_self_iff : trim p s = s ↔ Trimmed p s := by
  constructor
  · intro h
    rw [← h]
    exact trimmed_trim p s
  · exact Trimmed.trim_eq

/-- What is trimmed itself comes untouched behind a text that ends in another character. -/
theorem trim_append {t : Text} (hs : ∀ c ∈ s.getLast?, p c = false) (ht : Trimmed p t)
    (hne : t ≠ []) : trim p (s ++ t) = trim p s ++ t := by
  have hstart : trimStart p (s ++ t) = trimStart p s ++ t := by
    rw [trimStart, trimStart, List.dropWhile_append]
    split
    · next h =>
      rw [List.isEmpty_iff.mp h]
      exact trimStart_eq_self ht.first
    · rfl
  have hend : trim p s = trimStart p s := trimEnd_eq_self fun c hc => by
    obtain ⟨x, hx⟩ : trimStart p s <:+ s := List.dropWhile_suffix p
    apply hs
    rw [← hx, List.getLast?_append, Option.mem_def.mp hc]
    rfl
  have hlast : ∀ c ∈ (trimStart p s ++ t).getLast?, p c = false := fun c hc => by
    apply ht.last
    rwa [List.getLast?_append_of_ne_nil _ hne] at hc
  rw [trim, hstart, trimEnd_eq_self hlast, hend]

/-! ### Characters of the class at an end -/

theorem dropWhile_append_cons {d : Char} (hd : p d = false) (u r : Text) :
    (u ++ d :: r).dropWhile p = u.dropWhile p ++ d :: r := by
  rw [List.dropWhile_append]
  split
  · next h =>
    rw [List.isEmpty_iff.mp h, List.dropWhile_cons_of_neg (by simp [hd])]
    rfl
  · rfl

theorem takeWhile_append_cons {d : Char} (hd : p d = false) (u r : Text) :
    (u ++ d :: r).takeWhile p = u.takeWhile p := by
  rw [List.takeWhile_append]
  split
  · next h =>
    rw [(List.takeWhile_prefix p).eq_of_length h, List.takeWhile_cons_of_neg (by simp [hd]),
      List.append_nil]
  · rfl

theorem trimEnd_append_right {b : Text} (hb : ∀ c ∈ b, p c = true) (s : Text) :
    trimEnd p (s ++ b) = trimEnd p s := by
  have hb' : ∀ c ∈ b.reverse, p c = true := fun c hc => hb c (List.mem_reverse.mp hc)
  rw [trimEnd, List.reverse_append, List.dropWhile_append_of_pos hb', trimEnd]

/-- What is taken off in front does not count. -/
theorem trim_append_left {a : Text} (ha : ∀ c ∈ a, p c = true) (s : Text) :
    trim p (a ++ s) = trim p s := by
  rw [trim, trimStart, List.dropWhile_append_of_pos ha]
  rfl

/-- Nor does what is taken off behind. -/
theorem trim_append_right {b : Text} (hb : ∀ c ∈ b, p c = true) (s : Text) :
    trim p (s ++ b) = trim p s := by
  rw [trim, trim, trimStart, trimStart, List.dropWhile_append]
  split
  · next h =>
    have hnil : b.dropWhile p = [] := List.dropWhile_eq_nil_iff.mpr hb
    rw [List.isEmpty_iff.mp h, hnil]
  · exact trimEnd_append_right hb _

theorem trim_trimStart (p : Char → Bool) (s : Text) : trim p (trimStart p s) = trim p s := by
  have hstart : trimStart p (trimStart p s) = trimStart p s :=
    trimStart_eq_self (head?_dropWhile p s)
  rw [trim, hstart, trim]

end Text
end DocTypes
