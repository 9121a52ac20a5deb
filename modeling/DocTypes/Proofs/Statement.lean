/-
# Namespaces and declarations do not overlap

A declaration begins with a word, blanks and a character of a name
(`BeginsDeclaration`). A namespace statement is not read there, and one that is
read further up ends before it: so what is read as a namespace in front of a
declaration does not depend on the declaration (`readNamespace_append`).

Key definitions: `BeginsDeclaration`.
Key theorems: `beginsDeclaration_of_readDeclaration`, `readNamespace_append`.
-/
import DocTypes.Source.Header
import DocTypes.Proofs.Trim

namespace DocTypes

/-! ### Classes of characters -/

theorem isWordChar_of_isBlank {c : Char} (h : isBlank c = true) : isWordChar c = false := by
  have points : ∀ n ∈ blankPoints, Boundaries.contains wordBoundaries n = false := by
    decide +kernel
  exact points c.toNat (toNat_mem_blankPoints h)

theorem isBlank_of_isWordChar {c : Char} (h : isWordChar c = true) : isBlank c = false := by
  rw [Bool.eq_false_iff]
  intro hb
  rw [isWordChar_of_isBlank hb] at h
  cases h

theorem isNamespaceChar_of_isBlank {c : Char} (h : isBlank c = true) :
    isNamespaceChar c = false := by
  have hs : c ≠ separator := by rintro rfl; cases h
  simp [isNamespaceChar, isWordChar_of_isBlank h, hs]

/-! ### Ends of lines -/

theorem getLast?_of_append {w z : Text} {c : Char} (h : (w ++ z).getLast? = some c)
    (hw : c ∉ w) : z.getLast? = some c := by
  rw [List.getLast?_append] at h
  cases hz : z.getLast? with
  | some d => simpa [hz] using h
  | none =>
    rw [hz] at h
    exact absurd (List.mem_of_getLast? (by simpa using h)) hw

theorem getLast?_of_suffix {v u : Text} (hs : v <:+ u) (hv : v ≠ []) :
    v.getLast? = u.getLast? := by
  obtain ⟨t, rfl⟩ := hs
  rw [List.getLast?_append, List.getLast?_eq_some_getLast hv]
  rfl

/-- Passing over characters goes up to the end of a line unless all are passed over. -/
theorem dropWhile_append_cases (p : Char → Bool) {u : Text} (x : Text)
    (hu : u.getLast? = some '\n') :
    (u.dropWhile p = [] ∧ (u ++ x).dropWhile p = x.dropWhile p) ∨
      (∃ v, u.dropWhile p = v ∧ (u ++ x).dropWhile p = v ++ x ∧ v.getLast? = some '\n') := by
  rw [List.dropWhile_append]
  by_cases hv : u.dropWhile p = []
  · exact Or.inl ⟨hv, by simp [hv]⟩
  · have hl := getLast?_of_suffix (List.dropWhile_suffix p) hv
    exact Or.inr ⟨_, rfl, by simp [hv], hl.trans hu⟩

theorem takeWhile_append_of_ne_nil (p : Char → Bool) {u : Text} (x : Text)
    (h : u.dropWhile p ≠ []) : (u ++ x).takeWhile p = u.takeWhile p := by
  rw [List.takeWhile_append, if_neg]
  intro hlen
  have hu : (u.takeWhile p).length + (u.dropWhile p).length = u.length := by
    rw [← List.length_append, List.takeWhile_append_dropWhile]
  have hpos := List.length_pos_iff.mpr h
  omega

/-! ### Words -/

theorem afterWord?_eq_some_iff : ∀ {w s r : Text}, Text.afterWord? w s = some r ↔ s = w ++ r
  | [], s, r => by simp [Text.afterWord?]
  | _ :: _, [], _ => by simp [Text.afterWord?]
  | x :: w, c :: s, r => by
    unfold Text.afterWord?
    split
    · next e => rw [afterWord?_eq_some_iff, e, List.cons_append, List.cons.injEq]; simp
    · next ne =>
      have ne' : ¬ c = x := fun e => ne e.symm
      simp [ne']

/-- A word without line feed is read from a line up to its end or not at all. -/
theorem afterWord?_append {w u : Text} (x : Text) (hu : u.getLast? = some '\n') (hw : '\n' ∉ w) :
    Text.afterWord? w (u ++ x) = (Text.afterWord? w u).map (· ++ x) := by
  cases h : Text.afterWord? w u with
  | some z =>
    rw [afterWord?_eq_some_iff] at h
    rw [Option.map_some, afterWord?_eq_some_iff, h, List.append_assoc]
  | none =>
    rw [Option.map_none]
    by_contra hne
    obtain ⟨r, hr⟩ := Option.ne_none_iff_exists'.mp hne
    rcases List.append_eq_append_iff.mp (afterWord?_eq_some_iff.mp hr) with
      ⟨a, ha, -⟩ | ⟨a, ha, -⟩
    · exact hw (ha ▸ List.mem_append_left a (List.mem_of_getLast? hu))
    · rw [afterWord?_eq_some_iff.mpr ha] at h
      cases h

theorem afterBlanks?_eq (s : Text) :
    s.afterBlanks? = if s.head?.any isBlank then some (s.dropWhile isBlank) else none := by
  cases s with
  | nil => rfl
  | cons c s =>
    simp only [Text.afterBlanks?, List.head?_cons, Option.any_some, List.dropWhile_cons]
    split <;> rfl

theorem exists_of_afterSpacedWord? {words : List Text} {s r : Text}
    (h : afterSpacedWord? words s = some r) :
    ∃ w ∈ words, ∃ c z, s = w ++ c :: z ∧ isBlank c = true ∧ r = z.dropWhile isBlank := by
  obtain ⟨t, ht, hr⟩ := Option.bind_eq_some_iff.mp h
  obtain ⟨w, hw, hs⟩ := List.exists_of_findSome?_eq_some ht
  rw [afterWord?_eq_some_iff] at hs
  cases t with
  | nil => cases hr
  | cons c z =>
    simp only [Text.afterBlanks?] at hr
    split at hr
    · next hc => exact ⟨w, hw, c, z, hs, hc, (Option.some.inj hr).symm⟩
    · cases hr

/-- What is left behind a word and blanks is an end of the text. -/
theorem suffix_of_afterSpacedWord? {words : List Text} {s r : Text}
    (h : afterSpacedWord? words s = some r) : r <:+ s := by
  obtain ⟨w, -, c, z, rfl, -, rfl⟩ := exists_of_afterSpacedWord? h
  have hrest : z.dropWhile isBlank <:+ c :: z :=
    (List.dropWhile_suffix _).trans (List.suffix_cons c z)
  exact hrest.trans (List.suffix_append w (c :: z))

theorem skipModifiers_of_some {s r : Text} (h : afterSpacedWord? modifiers s = some r) :
    skipModifiers s = skipModifiers r := by
  rw [skipModifiers]
  split
  · next r' h' => rw [Option.some.inj (h'.symm.trans h)]
  · next h' => cases h'.symm.trans h

theorem skipModifiers_of_none {s : Text} (h : afterSpacedWord? modifiers s = none) :
    skipModifiers s = s := by
  rw [skipModifiers]
  split
  · next r h' => cases h'.symm.trans h
  · rfl

theorem head?_isWordChar_of_name? {s : Text} {f : Text × Text} (h : s.name? = some f) :
    ∃ d ∈ s.head?, isWordChar d = true := by
  cases s with
  | nil => cases h
  | cons c s =>
    refine ⟨c, rfl, ?_⟩
    by_contra hc
    simp [Text.name?, hc] at h

/-! ### Declarations -/

/-- Begins with a word of a declaration, blanks and a character of a name. -/
def BeginsDeclaration (s : Text) : Prop :=
  ∃ w ∈ modifiers ++ declarationWords, ∃ c z, s = w ++ c :: z ∧ isBlank c = true ∧
    ∃ d ∈ (z.dropWhile isBlank).head?, isWordChar d = true

theorem BeginsDeclaration.head? {s : Text} (h : BeginsDeclaration s) :
    ∃ d ∈ s.head?, isWordChar d = true ∧ d ≠ 'n' := by
  have words : ∀ w ∈ modifiers ++ declarationWords,
      (w.head?.any fun d => isWordChar d && d != 'n') = true := by decide
  obtain ⟨w, hw, c, z, rfl, -, -⟩ := h
  obtain ⟨d, hd, hd'⟩ := (Option.any_eq_true _ _).mp (words w hw)
  refine ⟨d, ?_, by simpa using hd'⟩
  rw [List.head?_append, Option.mem_def.mp hd]
  rfl

theorem beginsDeclaration_of_name (s : Text) {f : Text × Text}
    (h : (afterSpacedWord? declarationWords (skipModifiers s)).bind Text.name? = some f) :
    BeginsDeclaration s := by
  fun_induction skipModifiers s with
  | case1 s rest hm ih =>
    obtain ⟨w, hw, c, z, hs, hc, hz⟩ := exists_of_afterSpacedWord? hm
    obtain ⟨d, hd, hd', -⟩ := (ih h).head?
    exact ⟨w, List.mem_append_left _ hw, c, z, hs, hc, d, hz ▸ hd, hd'⟩
  | case2 s hm =>
    obtain ⟨r, hr, hn⟩ := Option.bind_eq_some_iff.mp h
    obtain ⟨w, hw, c, z, hs, hc, hz⟩ := exists_of_afterSpacedWord? hr
    exact ⟨w, List.mem_append_right _ hw, c, z, hs, hc, hz ▸ head?_isWordChar_of_name? hn⟩

/-- Where a declaration is read, one begins after the blanks. -/
theorem beginsDeclaration_of_readDeclaration {x : Text} {f : Text × Text}
    (h : readDeclaration x = some f) : BeginsDeclaration (x.dropWhile isBlank) :=
  beginsDeclaration_of_name _ h

/-! ### Namespaces in front of declarations -/

theorem namespaceName?_eq_none {s : Text}
    (h : ∀ c ∈ ((s.dropWhile isNamespaceChar).dropWhile isBlank).head?, isWordChar c = true) :
    namespaceName? s = none := by
  unfold namespaceName?
  split
  · rfl
  · rfl
  · next ending rest _ he =>
    have hc : isWordChar ending = true := h ending (by rw [he]; rfl)
    have hne : ¬ (ending = ';' ∨ ending = Char.ofNat 123) := by
      rintro (rfl | rfl) <;> revert hc <;> decide
    rw [if_neg hne]

/-- What begins a declaration is not the name of a namespace. -/
theorem BeginsDeclaration.namespaceName?_eq_none {s : Text} (h : BeginsDeclaration s) :
    namespaceName? s = none := by
  have words : ∀ w ∈ modifiers ++ declarationWords, w.all isNamespaceChar = true := by decide
  obtain ⟨w, hw, c, z, rfl, hc, d, hd, hd'⟩ := h
  refine DocTypes.namespaceName?_eq_none fun e he => ?_
  have hn := isNamespaceChar_of_isBlank hc
  rw [List.dropWhile_append_of_pos (List.all_eq_true.mp (words w hw)),
    List.dropWhile_cons, hn] at he
  simp only [Bool.false_eq_true, if_false, List.dropWhile_cons, hc, if_true] at he
  rw [Option.mem_def.mp hd] at he
  cases he
  exact hd'

/-- No namespace statement is read where a declaration begins. -/
theorem BeginsDeclaration.readNamespace_eq_none {x : Text}
    (h : BeginsDeclaration (x.dropWhile isBlank)) : readNamespace x = none := by
  obtain ⟨d, hd, -, hn⟩ := h.head?
  unfold readNamespace
  rw [Option.bind_eq_none_iff]
  intro r hr
  obtain ⟨w, hw, c, z, hs, -⟩ := exists_of_afterSpacedWord? hr
  obtain rfl := List.mem_singleton.mp hw
  rw [hs] at hd
  cases hd
  exact absurd rfl hn

/-- The name of a namespace that is read up to the end of a line is the same in
front of a declaration. -/
theorem namespaceName?_append {u x : Text} (hu : u.getLast? = some '\n')
    (hx : BeginsDeclaration (x.dropWhile isBlank)) :
    (namespaceName? (u ++ x)).map (·.1) = (namespaceName? u).map (·.1) := by
  have hnl : isNamespaceChar '\n' = false := by decide
  rcases dropWhile_append_cases isNamespaceChar x hu with ⟨hv, -⟩ | ⟨v, hv, hvx, hvl⟩
  · -- the line feed is not passed over
    have hall := List.dropWhile_eq_nil_iff.mp hv '\n' (List.mem_of_getLast? hu)
    rw [hnl] at hall
    cases hall
  · have hne : u.dropWhile isNamespaceChar ≠ [] := by rintro h; rw [← hv, h] at hvl; cases hvl
    have ht := takeWhile_append_of_ne_nil isNamespaceChar x hne
    rcases dropWhile_append_cases isBlank x hvl with ⟨hw, hwx⟩ | ⟨w, hw, hwx, hwl⟩
    · -- only blanks are left of the line, and no ending comes after them
      have hnone : namespaceName? u = none := by
        unfold namespaceName?
        rw [hv, hw]
        split <;> first | rfl | contradiction
      have hnone' : namespaceName? (u ++ x) = none := by
        obtain ⟨d, hd, hd', -⟩ := hx.head?
        refine namespaceName?_eq_none fun c hc => ?_
        rw [hvx, hwx, Option.mem_def.mp hd] at hc
        cases hc
        exact hd'
      rw [hnone, hnone']
    · unfold namespaceName?
      rw [ht, hv, hvx, hw, hwx]
      cases w with
      | nil => cases hwl
      | cons ending rest =>
        rw [List.cons_append]
        cases u.takeWhile isNamespaceChar with
        | nil => rfl
        | cons c cs => dsimp only; split <;> rfl

/-- **A namespace statement in front of a declaration** is read as it is without
what comes after its line. -/
theorem readNamespace_append {u x : Text} (hu : u.getLast? = some '\n')
    (hx : BeginsDeclaration (x.dropWhile isBlank)) :
    (readNamespace (u ++ x)).map (·.1) = (readNamespace u).map (·.1) := by
  have hword : '\n' ∉ "namespace".toList := by decide
  unfold readNamespace afterSpacedWord? afterAnyWord?
  rcases dropWhile_append_cases isBlank x hu with ⟨hv, hvx⟩ | ⟨v, hv, hvx, hvl⟩
  · have hnone := hx.readNamespace_eq_none
    unfold readNamespace afterSpacedWord? afterAnyWord? at hnone
    rw [hv, hvx, hnone]
    rfl
  · rw [hv, hvx]
    simp only [List.findSome?_cons, List.findSome?_nil, afterWord?_append x hvl hword]
    cases hz : Text.afterWord? "namespace".toList v with
    | none => rfl
    | some z =>
      have hzl : z.getLast? = some '\n' := by
        rw [afterWord?_eq_some_iff] at hz
        exact getLast?_of_append (hz ▸ hvl) hword
      have hhead : (z ++ x).head? = z.head? := by
        cases z with
        | nil => cases hzl
        | cons c z => rfl
      simp only [Option.map_some, Option.bind_some, afterBlanks?_eq, hhead]
      split
      · rcases dropWhile_append_cases isBlank x hzl with ⟨hw, hwx⟩ | ⟨w, hw, hwx, hwl⟩
        · rw [hw, hwx]
          simp only [Option.bind_some, hx.namespaceName?_eq_none]
          rfl
        · rw [hw, hwx]
          exact namespaceName?_append hwl hx
      · rfl

end DocTypes
