/-
# Nothing behind the first declaration counts

The header of a source ends where the first declaration is found, and so nothing
from there on has a part in the context (`contextOf_append`). Two things could
spoil this, and neither does: text behind the source could complete what is
half-written in its header to an earlier declaration, and the header taken for
itself could hold one that the source has not.

Both go by what it takes to read a declaration, step by step (`Declares`): blanks
and modifiers, then a word of a declaration, blanks and a character of a name. A
text with a declaration still has one when more text comes behind it
(`Declares.append`). And where a declaration is read from a text that ends in a
line with a declaration of its own, it is read without what comes behind that
(`Declares.of_append`): the words of the earlier one must end before that line, or
in it.

Key definitions: `Declares`.
Key theorems: `readDeclaration_isSome_iff`, `Declares.of_append`,
`headerOf_append`, `contextOf_append`.
-/
import DocTypes.Proofs.Written
import DocTypes.Source.Header

namespace DocTypes

open Written

/-! ### What it takes to declare -/

/-- A declaration is read from the front of the text. -/
inductive Declares : Text → Prop
  | blank {c : Char} {s : Text} : isBlank c = true → Declares s → Declares (c :: s)
  | modifier {w s : Text} {c : Char} :
    w ∈ modifiers → isBlank c = true → Declares s → Declares (w ++ c :: s)
  | word {w s : Text} {c : Char} : w ∈ declarationWords → isBlank c = true →
    (∃ d ∈ (s.dropWhile isBlank).head?, isWordChar d = true) → Declares (w ++ c :: s)

theorem Declares.blanks {s : Text} (h : Declares s) : ∀ {b : Text}, (∀ c ∈ b, isBlank c = true) →
    Declares (b ++ s)
  | [], _ => h
  | _ :: _, hb => .blank (hb _ List.mem_cons_self)
      (h.blanks fun c hc => hb c (List.mem_cons_of_mem _ hc))

theorem Declares.of_dropWhile {s : Text} (h : Declares (s.dropWhile isBlank)) : Declares s := by
  have hb := h.blanks fun c hc => List.mem_takeWhile_imp (p := isBlank) (l := s) hc
  rwa [List.takeWhile_append_dropWhile] at hb

/-- What declares is not blank. -/
theorem Declares.dropWhile_ne_nil {s : Text} (h : Declares s) : s.dropWhile isBlank ≠ [] := by
  have hword : ∀ w ∈ modifiers ++ declarationWords, IsName w := beginsBy_readDeclaration.names
  have front : ∀ {w r : Text}, IsName w → (w ++ r).dropWhile isBlank ≠ [] := fun {w r} hw => by
    rw [hw.dropWhile_isBlank]
    exact List.append_ne_nil_of_left_ne_nil hw.ne_nil r
  induction h with
  | blank hc _ ih => rwa [List.dropWhile_cons_of_pos hc]
  | modifier hw _ _ _ => exact front (hword _ (List.mem_append_left _ hw))
  | word hw _ _ => exact front (hword _ (List.mem_append_right _ hw))

/-- A modifier and a blank are passed over. -/
theorem readDeclaration_modifier {w : Text} (hw : w ∈ modifiers) {c : Char} (hc : isBlank c = true)
    (s : Text) : readDeclaration (w ++ c :: s) = readDeclaration s := by
  have hn := isName_of_mem_modifiers w hw
  have hsome : afterSpacedWord? modifiers (w ++ c :: s) = some (s.dropWhile isBlank) := by
    rw [afterSpacedWord?, afterAnyWord?_append prefixFree_modifiers hw, Option.bind_some,
      Text.afterBlanks?, if_pos hc]
  rw [readDeclaration, readDeclaration, hn.dropWhile_isBlank, skipModifiers_of_some hsome]

/-- After the word of a declaration and a blank comes the name. -/
theorem readDeclaration_word {w : Text} (hw : w ∈ declarationWords) {c : Char}
    (hc : isBlank c = true) (s : Text) :
    readDeclaration (w ++ c :: s) = Text.name? (s.dropWhile isBlank) := by
  have hn := isName_of_mem_declarationWords w hw
  have hnot : w ∉ modifiers := by
    have hall : ∀ w ∈ declarationWords, w ∉ modifiers := by decide
    exact hall w hw
  have hr : ∀ d ∈ (c :: s).head?, isWordChar d = false := fun d hd => by
    cases hd
    exact isWordChar_of_isBlank hc
  have hskip : skipModifiers (w ++ c :: s) = w ++ c :: s := skipModifiers_modified hn hr hnot []
  rw [readDeclaration, hn.dropWhile_isBlank, hskip, afterSpacedWord?,
    afterAnyWord?_append prefixFree_declarationWords hw, Option.bind_some, Text.afterBlanks?,
    if_pos hc, Option.bind_some]

theorem name?_isSome_iff {s : Text} :
    s.name?.isSome = true ↔ ∃ d ∈ s.head?, isWordChar d = true := by
  constructor
  · intro h
    obtain ⟨f, hf⟩ := Option.isSome_iff_exists.mp h
    exact head?_isWordChar_of_name? hf
  · rintro ⟨d, hd, hw⟩
    cases s with
    | nil => cases hd
    | cons c s =>
      obtain rfl : c = d := Option.some.inj hd
      simp [Text.name?, hw]

/-- What is read as a declaration behind the blanks declares. -/
theorem declares_of_name (s : Text) {f : Text × Text}
    (h : (afterSpacedWord? declarationWords (skipModifiers s)).bind Text.name? = some f) :
    Declares s := by
  fun_induction skipModifiers s with
  | case1 s rest hm ih =>
    obtain ⟨w, hw, c, z, rfl, hc, rfl⟩ := exists_of_afterSpacedWord? hm
    exact .modifier hw hc (ih h).of_dropWhile
  | case2 s hm =>
    obtain ⟨r, hr, hn⟩ := Option.bind_eq_some_iff.mp h
    obtain ⟨w, hw, c, z, rfl, hc, rfl⟩ := exists_of_afterSpacedWord? hr
    exact .word hw hc (head?_isWordChar_of_name? hn)

/-- **A declaration is read just where a text declares.** -/
theorem readDeclaration_isSome_iff {s : Text} :
    (readDeclaration s).isSome = true ↔ Declares s := by
  constructor
  · intro h
    obtain ⟨f, hf⟩ := Option.isSome_iff_exists.mp h
    exact (declares_of_name _ hf).of_dropWhile
  · intro h
    induction h with
    | @blank c s hc _ ih =>
      rwa [← beginsBy_readDeclaration.blanks (List.forall_mem_singleton.mpr hc) s] at ih
    | @modifier w s c hw hc _ ih => rwa [readDeclaration_modifier hw hc]
    | @word w s c hw hc hname => rwa [readDeclaration_word hw hc, name?_isSome_iff]

theorem readDeclaration_eq_none_iff {s : Text} : readDeclaration s = none ↔ ¬ Declares s := by
  rw [← readDeclaration_isSome_iff, Option.not_isSome_iff_eq_none]

/-! ### More text behind -/

theorem head?_dropWhile_append {p : Char → Bool} {s : Text} (x : Text) (h : s.dropWhile p ≠ []) :
    ((s ++ x).dropWhile p).head? = (s.dropWhile p).head? := by
  rw [List.dropWhile_append, if_neg (by simpa using h), List.head?_append_of_ne_nil _ h]

/-- More text behind a declaration does not undo it. -/
theorem Declares.append {s : Text} (h : Declares s) (x : Text) : Declares (s ++ x) := by
  induction h with
  | blank hc _ ih => exact .blank hc ih
  | @modifier w s c hw hc _ ih =>
    rw [List.append_assoc, List.cons_append]
    exact .modifier hw hc ih
  | @word w s c hw hc hname =>
    rw [List.append_assoc, List.cons_append]
    refine .word hw hc ?_
    rwa [head?_dropWhile_append]
    rintro hnil
    obtain ⟨d, hd, -⟩ := hname
    rw [hnil] at hd
    cases hd

/-- A text in front of another one ends in the word at its front, or holds that word and
the character behind it. -/
theorem prefix_or_exists_of_append {a r w s : Text} {c : Char} (h : a ++ r = w ++ c :: s) :
    a <+: w ∨ ∃ a', a = w ++ c :: a' ∧ a' ++ r = s := by
  rcases List.append_eq_append_iff.mp h with ⟨b, hb, -⟩ | ⟨b, hb, hr⟩
  · exact Or.inl ⟨b, hb.symm⟩
  · cases b with
    | nil => exact Or.inl ⟨[], by rw [hb, List.append_nil, List.append_nil]⟩
    | cons d a' =>
      obtain ⟨rfl, rfl⟩ := List.cons.inj hr
      exact Or.inr ⟨a', hb, rfl⟩

/-- A word and a blank in front of a text that ends a line stand in it. -/
theorem exists_eq_append_blank {a r w s : Text} {c : Char} (hne : a ≠ [])
    (ha : atLineStart true a = true) (hw : '\n' ∉ w) (h : a ++ r = w ++ c :: s) :
    ∃ a', a = w ++ c :: a' ∧ a' ++ r = s ∧ atLineStart true a' = true := by
  rcases prefix_or_exists_of_append h with hstart | ⟨a', rfl, hr⟩
  · rw [atLineStart, List.getLast?_eq_some_getLast hne] at ha
    have hlast : a.getLast hne = '\n' := by simpa using ha
    exact absurd (hstart.subset (hlast ▸ List.getLast_mem hne)) hw
  · rw [atLineStart_append, atLineStart_cons] at ha
    exact ⟨a', rfl, hr, atLineStart_true ha⟩

/-- **A declaration in front of another one needs nothing behind that**: if it is
read from the lines `a` and what follows, and the line behind `a` declares, then what
comes behind that line is not needed. -/
theorem Declares.of_append {a v x : Text} (ha : atLineStart true a = true) (hv : Declares v)
    (h : Declares (a ++ (v ++ x))) : Declares (a ++ v) := by
  have hword : ∀ w ∈ modifiers ++ declarationWords, '\n' ∉ w := fun w hw =>
    (beginsBy_readDeclaration.names w hw).lineFeed_not_mem
  generalize hs : a ++ (v ++ x) = s at h
  induction h generalizing a with
  | @blank c s hc _ ih =>
    cases a with
    | nil => exact hv
    | cons d a =>
      obtain ⟨rfl, rfl⟩ := List.cons.inj hs
      rw [atLineStart_cons] at ha
      exact .blank hc (ih (atLineStart_true ha) rfl)
  | @modifier w s c hw hc _ ih =>
    by_cases hne : a = []
    · rwa [hne]
    · obtain ⟨a', rfl, rfl, ha'⟩ :=
        exists_eq_append_blank hne ha (hword w (List.mem_append_left _ hw)) hs
      rw [List.append_assoc, List.cons_append]
      exact .modifier hw hc (ih ha' rfl)
  | @word w s c hw hc hname =>
    by_cases hne : a = []
    · rwa [hne]
    · obtain ⟨a', rfl, rfl, -⟩ :=
        exists_eq_append_blank hne ha (hword w (List.mem_append_right _ hw)) hs
      rw [List.append_assoc, List.cons_append]
      refine .word hw hc ?_
      -- the name begins in the lines or in the declaration behind them
      have hrest : (a' ++ v).dropWhile isBlank ≠ [] := by
        rw [List.dropWhile_append]
        split
        · exact hv.dropWhile_ne_nil
        · exact List.append_ne_nil_of_right_ne_nil _ fun hnil => by
            rw [hnil] at hv
            exact hv.dropWhile_ne_nil rfl
      rwa [← List.append_assoc, head?_dropWhile_append x hrest] at hname

/-! ### The header -/

/-- The header ends where the text declares, when nothing is read before. -/
theorem headerOf_of_passes {h k : Text} (hp : Passes readDeclaration false true h k)
    (hl : atLineStart true h = true) (hk : Declares k) : headerOf (h ++ k) = h := by
  obtain ⟨f, hf⟩ := Option.isSome_iff_exists.mp (readDeclaration_isSome_iff.mpr hk)
  have hfinds : findLines readDeclaration (h ++ k) =
      findAll readDeclaration false (0 + h.length) true 0 k := by
    rw [findLines, findAll_of_passes hp, hl]
  cases k with
  | nil => exact absurd rfl hk.dropWhile_ne_nil
  | cons c k =>
    rw [findAll, if_pos (Bool.or_true _), hf] at hfinds
    rw [headerOf, hfinds]
    simp

/-- A text in which nothing is read is all header. -/
theorem headerOf_eq_self {h : Text} (hp : Passes readDeclaration false true h []) :
    headerOf h = h := by
  rw [headerOf, findLines, findAll_eq_nil_of_passes hp]

/-- **The header ends at the first declaration**, whatever comes behind the source, and
so it has no declaration of its own. -/
theorem headerOf_append {source : Text} {start : Nat} {name : Text} {more : List (Nat × Text)}
    (h : findLines readDeclaration source = (start, name) :: more) (x : Text) :
    headerOf (source ++ x) = source.take start ∧
      headerOf (source.take start) = source.take start := by
  obtain ⟨k, v, rest, hs, ho, hl, hr, hp⟩ := exists_passes_of_findAll h
  have hk : atLineStart true k = true := by simpa using hl
  have hv : Declares v := readDeclaration_isSome_iff.mp (by rw [hr]; rfl)
  have htake : source.take start = k := by
    rw [hs, show start = k.length by simpa using ho]
    exact List.take_left
  have hmore : Passes readDeclaration false true k (v ++ x) := by
    intro u w huw hw hu
    have hline : atLineStart true w = true := by
      rw [huw, atLineStart_append] at hk
      exact atLineStart_true hk
    have hnone := hp u w huw hw hu
    rw [readDeclaration_eq_none_iff] at hnone ⊢
    exact fun hd => hnone (.of_append hline hv hd)
  have hless : Passes readDeclaration false true k [] := by
    intro u w huw hw hu
    have hnone := hp u w huw hw hu
    rw [readDeclaration_eq_none_iff, List.append_nil] at *
    exact fun hd => hnone (hd.append v)
  rw [htake, hs, List.append_assoc]
  exact ⟨headerOf_of_passes hmore hk (hv.append x), headerOf_eq_self hless⟩

/-- **Nothing from the first declaration on reaches the context**: it is the same with
any text behind the source, and it is the one of the text in front of that
declaration. -/
theorem contextOf_append {source : Text} {start : Nat} {name : Text} {more : List (Nat × Text)}
    (h : findLines readDeclaration source = (start, name) :: more) (x : Text) :
    contextOf (source ++ x) = contextOf source ∧
      contextOf source = contextOf (source.take start) := by
  have hcontext : ∀ s : Text, headerOf s = source.take start →
      contextOf s = contextOf (source.take start) := fun s hs => by
    rw [contextOf, contextOf, factsOf, factsOf, hs, (headerOf_append h x).2]
  have hsource := (headerOf_append h []).1
  rw [List.append_nil] at hsource
  exact ⟨(hcontext _ (headerOf_append h x).1).trans (hcontext _ hsource).symm, hcontext _ hsource⟩

/-- A source with half-written declarations in front of the first one, which begins on a
blank line, and with a class whose name ends with the source. -/
def brokenSource : Text :=
  "<?php\nnamespace App;\nfinal;\nuse Lib\\Item;\nfinal abstract\n;\n\n enum\n\tState".toList

/-- The text behind it ends the name in another way, and has the words of a header. -/
theorem contextOf_append_brokenSource :
    let behind := "s \x7b use Other; \x7d\nnamespace Late;\nuse Late\\Item;\nclass A".toList
    findLines readDeclaration brokenSource = [(59, "State".toList)] ∧
      contextOf (brokenSource ++ behind) = contextOf brokenSource ∧
      contextOf brokenSource = contextOf (brokenSource.take 59) ∧
      (contextOf brokenSource).aliases.entries = [("Item".toList, "\\Lib\\Item".toList)] := by
  intro behind
  have h : findLines readDeclaration brokenSource = [(59, "State".toList)] := by decide +kernel
  obtain ⟨hmore, hless⟩ := contextOf_append h behind
  exact ⟨h, hmore, hless, by decide +kernel⟩

end DocTypes
