/-
# Lower case keeps separators and blanks

A separator or a blank has no case, and no other character has it in its lower
case (`isCaseless`). So the lower case of a text has one just where the text has
one (`Text.mem_lower_iff`): no reserved name holds a separator or a colon
(`not_mem_of_isKeyword`), names of different depth never fall together
under their look-up keys, and a word of a text in lower case is the lower case of
a word of it.

The form of a sigma depends on what stands around it, but not across a blank, so
that lower case goes word by word (`Text.lower_append_blank`). Nor does it depend on
the case of the letters of ASCII around it, so that texts which differ in that alone
have one lower case (`Text.lower_map_toLower`).

Key definitions: `isCaseless`.
Key theorems: `lowerChar_eq_iff`, `Text.mem_lower_iff`, `Text.lower_append_blank`,
`Text.lower_map_toLower`, `not_mem_of_isKeyword`.
-/
import DocTypes.Token
import DocTypes.Text.Classes

namespace DocTypes

theorem toNat_eq_of_ofNat_eq {n : Nat} {c : Char} (h : Char.ofNat n = c) (hc : c.toNat ≠ 0) :
    c.toNat = n := by
  by_cases hn : n.isValidChar
  · rw [← h, Char.ofNat, dif_pos hn]
    rfl
  · rw [← h, Char.ofNat, dif_neg hn] at hc
    exact absurd rfl hc

/-- A shift that is not zero comes from a run that covers the code point. -/
theorem lowerShift_eq_zero_or : ∀ (runs : List (Nat × Nat × Nat × Int)) (n : Nat),
    lowerShift runs n = 0 ∨ ∃ run ∈ runs, run.1 ≤ n ∧ n ≤ run.2.1 ∧ lowerShift runs n = run.2.2.2
  | [], _ => Or.inl rfl
  | (first, last, step, shift) :: runs, n => by
    unfold lowerShift
    split
    · exact Or.inl rfl
    · next h =>
      split
      · next h' => exact Or.inr ⟨_, List.mem_cons_self, Nat.le_of_not_lt h, h'.1, rfl⟩
      · rcases lowerShift_eq_zero_or runs n with h0 | ⟨run, hr, h1⟩
        · exact Or.inl h0
        · exact Or.inr ⟨run, List.mem_cons_of_mem _ hr, h1⟩

/-! ### Characters without case -/

/-- The characters whose lower case is not by the table, and what they have in it. -/
def specialCased : List Char := [capitalSigma, finalSigma, dottedCapitalI, 'i', dotAbove]

/-- A code point that is its own lower case, which no run of the table reaches and
which is not special. -/
def isCaseless (n : Nat) : Bool :=
  n != 0 && lowerShift lowerRuns n == 0 && specialCased.all (fun c => c.toNat != n) &&
    lowerRuns.all fun run =>
      !decide ((run.1 : Int) + run.2.2.2 ≤ n ∧ (n : Int) ≤ (run.2.1 : Int) + run.2.2.2)

theorem isCaseless_separator : isCaseless separator.toNat = true := by decide +kernel

theorem isCaseless_of_isBlank {c : Char} (h : isBlank c = true) : isCaseless c.toNat = true := by
  have points : ∀ n ∈ blankPoints, isCaseless n = true := by decide +kernel
  exact points c.toNat (toNat_mem_blankPoints h)

section
variable {p : Char} (hp : isCaseless p.toNat = true)
include hp

theorem ne_of_mem_specialCased {c : Char} (hc : c ∈ specialCased) : p ≠ c := by
  simp only [isCaseless, Bool.and_eq_true, List.all_eq_true] at hp
  rintro rfl
  simpa using hp.1.2 p hc

/-- Only the character itself has it as its lower case. -/
theorem lowerChar_eq_iff {c : Char} : lowerChar c = p ↔ c = p := by
  simp only [isCaseless, Bool.and_eq_true, bne_iff_ne, beq_iff_eq, List.all_eq_true] at hp
  obtain ⟨⟨⟨hzero, hown⟩, -⟩, hruns⟩ := hp
  constructor
  · intro h
    have hn : p.toNat = (c.toNat + lowerShift lowerRuns c.toNat).toNat :=
      toNat_eq_of_ofNat_eq h hzero
    rcases lowerShift_eq_zero_or lowerRuns c.toNat with h0 | ⟨run, hr, h1, h2, h3⟩
    · have hc : c.toNat = p.toNat := by omega
      rw [← Char.ofNat_toNat c, hc, Char.ofNat_toNat]
    · have havoids := hruns run hr
      simp only [Bool.not_eq_true', decide_eq_false_iff_not] at havoids
      omega
  · rintro rfl
    rw [lowerChar, hown]
    simp

/-- Lower case keeps the character, and adds none. -/
theorem Text.mem_lowerFrom_iff : ∀ (s : Text) (casedBefore : Bool),
    p ∈ lowerFrom casedBefore s ↔ p ∈ s
  | [], _ => by simp [lowerFrom]
  | c :: s, casedBefore => by
    have hne : ∀ d ∈ specialCased, p ≠ d := fun d => ne_of_mem_specialCased hp
    have hs : ¬ p = finalSigma := hne _ (by decide)
    have hi : ¬ p = 'i' := hne _ (by decide)
    have hd : ¬ p = dotAbove := hne _ (by decide)
    have hS : ¬ p = capitalSigma := hne _ (by decide)
    have hI : ¬ p = dottedCapitalI := hne _ (by decide)
    simp only [lowerFrom, List.mem_append, mem_lowerFrom_iff s, List.mem_cons]
    refine or_congr_left ?_
    split
    · next h => simp [hs, h.1, hS]
    · split
      · next h => simp [hi, hd, h, hI]
      · rw [List.mem_singleton, eq_comm, lowerChar_eq_iff hp, eq_comm]

theorem Text.mem_lower_iff (s : Text) : p ∈ s.lower ↔ p ∈ s :=
  Text.mem_lowerFrom_iff hp s false

end

/-- A character without case that no reserved name holds is in none in any letter case. -/
theorem not_mem_of_isKeyword {p : Char} (hp : isCaseless p.toNat = true)
    (hk : ∀ k ∈ keywords, p ∉ k) {s : Text} (h : isKeyword s = true) : p ∉ s := by
  rw [← Text.mem_lower_iff hp]
  exact hk _ (of_decide_eq_true h)

/-- Reserved names are no nested names. -/
theorem separator_not_mem_of_isKeyword {s : Text} (h : isKeyword s = true) : separator ∉ s :=
  not_mem_of_isKeyword isCaseless_separator (by decide) h

/-- Nor do they name members. -/
theorem colon_not_mem_of_isKeyword {s : Text} (h : isKeyword s = true) : ':' ∉ s :=
  not_mem_of_isKeyword (by decide +kernel) (by decide) h

/-! ### Word by word -/

/-- A blank counts as neighbour of a sigma, and is not cased. -/
theorem notCased_of_isBlank {c : Char} (h : isBlank c = true) :
    isCaseIgnorable c = false ∧ isCased c = false := by
  have points : ∀ n ∈ blankPoints, Boundaries.contains ignorableBoundaries n = false ∧
      Boundaries.contains casedBoundaries n = false := by decide +kernel
  exact points c.toNat (toNat_mem_blankPoints h)

section
variable {c : Char} (hc : isBlank c = true)
include hc

theorem casedAhead_append_blank (s r : Text) : casedAhead (s ++ c :: r) = casedAhead s := by
  obtain ⟨hignorable, hcased⟩ := notCased_of_isBlank hc
  unfold casedAhead
  rw [List.find?_append, List.find?_cons_of_pos (by simp [hignorable])]
  cases s.find? fun d => !isCaseIgnorable d with
  | none => exact hcased
  | some d => rfl

theorem Text.lowerFrom_append_blank (r : Text) : ∀ (s : Text) (casedBefore : Bool),
    lowerFrom casedBefore (s ++ c :: r) = lowerFrom casedBefore s ++ c :: lowerFrom false r
  | [], casedBefore => by
    have hcaseless := isCaseless_of_isBlank hc
    obtain ⟨hignorable, hcased⟩ := notCased_of_isBlank hc
    have hS : c ≠ capitalSigma := ne_of_mem_specialCased hcaseless (by decide)
    have hI : c ≠ dottedCapitalI := ne_of_mem_specialCased hcaseless (by decide)
    have hlower : lowerChar c = c := (lowerChar_eq_iff hcaseless).mpr rfl
    simp [lowerFrom, hS, hI, hlower, hignorable, hcased]
  | d :: s, casedBefore => by
    simp only [List.cons_append, lowerFrom, casedAhead_append_blank hc, lowerFrom_append_blank r s,
      List.append_assoc]

/-- **Lower case goes word by word.** -/
theorem Text.lower_append_blank (s r : Text) : (s ++ c :: r).lower = s.lower ++ c :: r.lower :=
  Text.lowerFrom_append_blank hc r s false

end

/-! ### The letters of ASCII -/

/-- What lower case asks of a character is the same for a letter of ASCII in both cases. -/
theorem lower_toLower (c : Char) :
    lowerChar c.toLower = lowerChar c ∧ isCased c.toLower = isCased c ∧
      isCaseIgnorable c.toLower = isCaseIgnorable c ∧
      (c.toLower = capitalSigma ↔ c = capitalSigma) ∧
      (c.toLower = dottedCapitalI ↔ c = dottedCapitalI) := by
  have letters : ∀ n ∈ List.range' 65 26,
      lowerChar (Char.ofNat n).toLower = lowerChar (Char.ofNat n) ∧
        isCased (Char.ofNat n).toLower = isCased (Char.ofNat n) ∧
        isCaseIgnorable (Char.ofNat n).toLower = isCaseIgnorable (Char.ofNat n) ∧
        ((Char.ofNat n).toLower = capitalSigma ↔ Char.ofNat n = capitalSigma) ∧
        ((Char.ofNat n).toLower = dottedCapitalI ↔ Char.ofNat n = dottedCapitalI) := by
    decide +kernel
  by_cases hc : c.val ≥ 65 ∧ c.val ≤ 90
  · have hn : c.toNat ∈ List.range' 65 26 := by
      have h1 : 65 ≤ c.toNat := hc.1
      have h2 : c.toNat ≤ 90 := hc.2
      rw [List.mem_range'_1]
      omega
    have hletter := letters _ hn
    rwa [Char.ofNat_toNat] at hletter
  · have hself : c.toLower = c := dif_neg hc
    rw [hself]
    exact ⟨rfl, rfl, rfl, Iff.rfl, Iff.rfl⟩

theorem casedAhead_map_toLower : ∀ s : Text, casedAhead (s.map Char.toLower) = casedAhead s
  | [] => rfl
  | c :: s => by
    have ih := casedAhead_map_toLower s
    obtain ⟨-, hcased, hignorable, -, -⟩ := lower_toLower c
    unfold casedAhead at ih ⊢
    rw [List.map_cons, List.find?_cons, List.find?_cons, hignorable]
    cases isCaseIgnorable c with
    | true => exact ih
    | false => exact hcased

theorem Text.lowerFrom_map_toLower : ∀ (s : Text) (casedBefore : Bool),
    lowerFrom casedBefore (s.map Char.toLower) = lowerFrom casedBefore s
  | [], _ => rfl
  | c :: s, casedBefore => by
    obtain ⟨hlower, hcased, hignorable, hsigma, hdotted⟩ := lower_toLower c
    simp only [List.map_cons, lowerFrom, casedAhead_map_toLower, lowerFrom_map_toLower s, hlower,
      hcased, hignorable, hsigma, hdotted]

/-- **Letters of ASCII have one lower case in both cases**, also as neighbours of a sigma. -/
theorem Text.lower_map_toLower (s : Text) : lower (s.map Char.toLower) = s.lower :=
  Text.lowerFrom_map_toLower s false

end DocTypes
