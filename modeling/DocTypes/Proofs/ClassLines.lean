/-
# What stands in a class is not imported

A class line that is read as a declaration ends the header, and so no import is taken from
the body behind it (`aliases_contextOf_append`). The declaration may be found earlier than
on its line, when words of one stand half-written at the end of the header. But these are
words and blanks, so they hold no semicolon (`semicolon_not_mem_of_declares`), and no import
is read without one (`readImports_append`).

Only such class lines end the header. One with an attribute in front of its words is not
read as a declaration, and what is used in its body is taken for an import
(`aliases_contextOf_attributedClass`).

Key theorems: `readImports_append`, `semicolon_not_mem_of_declares`,
`aliases_contextOf_append`.
-/
import DocTypes.Proofs.Header
import DocTypes.Proofs.HeaderEnd

namespace DocTypes

/-! ### Up to the semicolon -/

/-- A word is read up to a character that it has not, or not at all. -/
theorem afterWord?_append_cons {d : Char} (r : Text) : ∀ {w u : Text}, d ∉ w →
    Text.afterWord? w (u ++ d :: r) = (Text.afterWord? w u).map (· ++ d :: r)
  | [], _, _ => rfl
  | x :: w, [], h => by
    have hne : ¬ x = d := fun e => h (e ▸ List.mem_cons_self)
    simp [Text.afterWord?, hne]
  | x :: w, c :: u, h => by
    have ih := afterWord?_append_cons r (w := w) (u := u) fun hd => h (List.mem_cons_of_mem x hd)
    simp only [List.cons_append, Text.afterWord?, ih]
    split <;> rfl

/-- The same for a word with blanks behind it, when the character is no blank. -/
theorem afterSpacedWord?_append_cons {d : Char} (hd : isBlank d = false) {w : Text} (hw : d ∉ w)
    (u r : Text) :
    afterSpacedWord? [w] (u ++ d :: r) = (afterSpacedWord? [w] u).map (· ++ d :: r) := by
  have hblanks : ∀ z : Text, (z ++ d :: r).afterBlanks? = z.afterBlanks?.map (· ++ d :: r) := by
    intro z
    rw [afterBlanks?_eq, afterBlanks?_eq, Text.dropWhile_append_cons hd]
    cases z with
    | nil => simp [hd]
    | cons c z => cases hc : isBlank c <;> simp [hc]
  simp only [afterSpacedWord?, afterAnyWord?, List.findSome?_cons, List.findSome?_nil,
    afterWord?_append_cons r hw]
  cases Text.afterWord? w u with
  | none => rfl
  | some z => exact hblanks z

/-- What an import statement that ends with a text imports. -/
def importBody? (u : Text) : Option Text :=
  (afterSpacedWord? ["use".toList] (u.dropWhile isBlank)).filter (· ≠ [])

/-- An import statement is read up to the first semicolon. -/
theorem readImports_append_semicolon {u : Text} (hu : ';' ∉ u) (r : Text) :
    readImports (u ++ ';' :: r) = (importBody? u).map (·, r) := by
  have hblank : isBlank ';' = false := by decide
  have hword : ';' ∉ "use".toList := by decide
  rw [readImports, importBody?, Text.dropWhile_append_cons hblank,
    afterSpacedWord?_append_cons hblank hword]
  cases hbody : afterSpacedWord? ["use".toList] (u.dropWhile isBlank) with
  | none => rfl
  | some body =>
    have hend : body <:+ u :=
      (suffix_of_afterSpacedWord? hbody).trans (List.dropWhile_suffix _)
    have hnone : ∀ c ∈ body, (c != ';') = true := fun c hc =>
      bne_iff_ne.mpr fun e => hu (e ▸ hend.subset hc)
    rw [Option.map_some, Option.bind_some, List.takeWhile_append_of_pos hnone,
      List.dropWhile_append_of_pos hnone]
    cases body <;> simp [Option.filter]

/-- Without a semicolon no import statement is read. -/
theorem readImports_eq_none {s : Text} (hs : ';' ∉ s) : readImports s = none := by
  rw [readImports, Option.bind_eq_none_iff]
  intro body hbody
  have hend : body <:+ s := (suffix_of_afterSpacedWord? hbody).trans (List.dropWhile_suffix _)
  have hnil : body.dropWhile (· != ';') = [] :=
    List.dropWhile_eq_nil_iff.mpr fun c hc => bne_iff_ne.mpr fun e => hs (e ▸ hend.subset hc)
  rw [hnil]
  cases body.takeWhile (· != ';') <;> rfl

/-- **Text without a semicolon behind a text** changes no import in it. -/
theorem readImports_append {x : Text} (hx : ';' ∉ x) (u : Text) :
    readImports (u ++ x) = (readImports u).map fun f => (f.1, f.2 ++ x) := by
  by_cases hu : ';' ∈ u
  · obtain ⟨v, r, rfl, hv⟩ := List.eq_append_cons_of_mem hu
    rw [List.append_assoc, List.cons_append, readImports_append_semicolon hv,
      readImports_append_semicolon hv, Option.map_map]
    rfl
  · rw [readImports_eq_none hu, readImports_eq_none fun h => (List.mem_append.mp h).elim hu hx]
    rfl

theorem findLines_readImports_append {b : Text} (hb : ';' ∉ b) (g : Text) :
    findLines readImports (g ++ b) = findLines readImports g := by
  have hpasses : Passes readImports false (atLineStart true g) b [] := by
    intro u v huv _ _
    rw [List.append_nil]
    exact readImports_eq_none fun hmem => hb (huv ▸ List.mem_append_right u hmem)
  rw [findLines, findAll_append_of_read (Nat.zero_le _) fun u _ _ => readImports_append hb u,
    findAll_eq_nil_of_passes hpasses, List.append_nil, findLines]

/-! ### Half-written declarations -/

/-- **What a declaration begins with** before the text that declares is made of words and
blanks, when it does not declare by itself. -/
theorem semicolon_not_mem_of_declares {a r : Text} (h : Declares (a ++ r)) (ha : ¬ Declares a) :
    ';' ∉ a := by
  have hword : ∀ w ∈ modifiers ++ declarationWords, ';' ∉ w := fun w hw hmem =>
    absurd ((beginsBy_readDeclaration.names w hw).word ';' hmem) (by decide)
  have hblank : ∀ {c}, isBlank c = true → ';' ≠ c := by
    rintro c hc rfl
    exact absurd hc (by decide)
  generalize hs : a ++ r = s at h
  induction h generalizing a with
  | @blank c s hc _ ih =>
    cases a with
    | nil => exact List.not_mem_nil
    | cons d a =>
      obtain ⟨rfl, rfl⟩ := List.cons.inj hs
      exact List.not_mem_cons_of_ne_of_not_mem (hblank hc) (ih (fun hd => ha (.blank hc hd)) rfl)
  | @modifier w s c hw hc _ ih =>
    have hnot := hword w (List.mem_append_left _ hw)
    rcases prefix_or_exists_of_append hs with hstart | ⟨a', rfl, rfl⟩
    · exact fun hmem => hnot (hstart.subset hmem)
    · exact List.not_mem_append hnot (List.not_mem_cons_of_ne_of_not_mem (hblank hc)
        (ih (fun hd => ha (.modifier hw hc hd)) rfl))
  | @word w s c hw hc hname =>
    have hnot := hword w (List.mem_append_right _ hw)
    rcases prefix_or_exists_of_append hs with hstart | ⟨a', rfl, rfl⟩
    · exact fun hmem => hnot (hstart.subset hmem)
    · -- the name begins behind `a'`, so that is blank
      have hnil : a'.dropWhile isBlank = [] := by
        by_contra hne
        rw [head?_dropWhile_append r hne] at hname
        exact ha (.word hw hc hname)
      exact List.not_mem_append hnot (List.not_mem_cons_of_ne_of_not_mem (hblank hc)
        fun hmem => hblank (List.dropWhile_eq_nil_iff.mp hnil ';' hmem) rfl)

/-! ### Aliases -/

/-- A declaration behind whole lines is found, on its line or in front of it. -/
theorem exists_passes_of_declares {h k : Text} (hl : atLineStart true h = true) (hk : Declares k) :
    ∃ g b, h = g ++ b ∧ atLineStart true g = true ∧
      Passes readDeclaration false true g (b ++ k) ∧ Declares (b ++ k) := by
  have hne : k ≠ [] := by
    rintro rfl
    exact hk.dropWhile_ne_nil rfl
  cases hfinds : findLines readDeclaration (h ++ k) with
  | nil =>
    have hnone := passes_of_findAll_eq_nil hfinds h k rfl hne hl
    rw [List.append_nil, readDeclaration_eq_none_iff] at hnone
    exact absurd hk hnone
  | cons f fs =>
    obtain ⟨g, v, rest, hs, -, hg, hr, hp⟩ := exists_passes_of_findAll hfinds
    have hv : Declares v := readDeclaration_isSome_iff.mp (hr ▸ rfl)
    rcases List.append_eq_append_iff.mp hs with ⟨b, rfl, rfl⟩ | ⟨b, rfl, rfl⟩
    · by_cases hb : b = []
      · subst hb
        exact ⟨h, [], (List.append_nil h).symm, hl, by rwa [List.append_nil] at hp, hv⟩
      · exact absurd hk (readDeclaration_eq_none_iff.mp (hp h b rfl hb hl))
    · exact ⟨g, b, rfl, hg, hp, hv⟩

/-- **No import is taken from behind a declaration**: with a class line that is read as one
behind a header without declarations, and with any body, the aliases are those of the
header. -/
theorem aliases_contextOf_append {h k : Text} (hl : atLineStart true h = true)
    (hh : findLines readDeclaration h = []) (hk : (readDeclaration k).isSome = true) :
    (contextOf (h ++ k)).aliases = (contextOf h).aliases := by
  obtain ⟨g, b, rfl, hg, hp, hdeclares⟩ :=
    exists_passes_of_declares hl (readDeclaration_isSome_iff.mp hk)
  have hpasses := passes_of_findAll_eq_nil hh
  have hb : ';' ∉ b := by
    by_cases hne : b = []
    · exact hne ▸ List.not_mem_nil
    · have hnone := hpasses g b rfl hne hg
      rw [List.append_nil, readDeclaration_eq_none_iff] at hnone
      exact semicolon_not_mem_of_declares hdeclares hnone
  have hwhole : headerOf (g ++ b ++ k) = g := by
    rw [List.append_assoc]
    exact headerOf_of_passes hp hg hdeclares
  have hheader : headerOf (g ++ b) = g ++ b := headerOf_eq_self hpasses
  rw [contextOf, contextOf, factsOf, factsOf, hwhole, hheader]
  simp only [Context.create, HeaderFacts.read, findLines_readImports_append hb]

/-- The declaration is found on the line with the modifier, in front of the class line. -/
theorem aliases_contextOf_append_traitUse :
    let header := "<?php\nuse Lib\\Item;\nfinal\n".toList
    let behind := "class Cart \x7b\n    use Countable;\n\x7d".toList
    atLineStart true header = true ∧ findLines readDeclaration header = [] ∧
      (readDeclaration behind).isSome = true ∧
      (contextOf (header ++ behind)).aliases = (contextOf header).aliases ∧
      (contextOf header).aliases.entries = [("Item".toList, "\\Lib\\Item".toList)] := by
  intro header behind
  have hl : atLineStart true header = true := by decide
  have hheader : findLines readDeclaration header = [] := by decide +kernel
  have hbehind : (readDeclaration behind).isSome = true := by decide +kernel
  exact ⟨hl, hheader, hbehind, aliases_contextOf_append hl hheader hbehind, by decide +kernel⟩

/-- With an attribute in front, a class line does not end the header: the trait that the
class uses becomes an alias. -/
theorem aliases_contextOf_attributedClass :
    let header := "<?php\nuse Lib\\Item;\n".toList
    let behind := "#[Pure] class Cart \x7b\n    use Countable;\n\x7d".toList
    atLineStart true header = true ∧ findLines readDeclaration header = [] ∧
      (contextOf (header ++ behind)).aliases ≠ (contextOf header).aliases ∧
      (contextOf (header ++ behind)).aliases.entries =
        [("Item".toList, "\\Lib\\Item".toList), ("Countable".toList, "\\Countable".toList)] := by
  decide +kernel

end DocTypes
