/-
# Names of one segment

A name of one segment is made of word characters (`IsName`), as what a
declaration declares is (`isName_of_readDeclaration`). None of the forms of a
type is made of the characters of names (`NameChars.plan_eq`), so it is a keyword,
a generic parameter or a class (`IsName.plan_eq`), and as a class it is an alias as a
whole or placed in the namespace (`IsName.resolve_eq`). It ends where a character
follows that stands in no name (`IsName.append_inj`).

A name of several segments has separators between them (`NestedName`).

Key definitions: `NameChars`, `IsName`, `PlainName`, `NestedName`.
Key theorems: `NameChars.plan_eq`, `IsName.plan_eq`, `IsName.resolve_eq`,
`separator_mem_lookupKey`.
-/
import DocTypes.Proofs.Pieces
import DocTypes.Proofs.Plan
import DocTypes.Proofs.Statement
import DocTypes.Registry

namespace DocTypes

/-- A text of the characters of names and members. -/
def NameChars (s : Text) : Prop := ∀ c ∈ s, isNamespaceChar c = true ∨ c = ':'

namespace NameChars

variable {s : Text} (h : NameChars s)

include h

theorem not_mem {c : Char} (hc : isNamespaceChar c = false) (hne : c ≠ ':') : c ∉ s := fun hm => by
  rcases h _ hm with hn | he
  · rw [hc] at hn
    cases hn
  · exact hne he

theorem unpadded : Unpadded s := fun c hm => by
  have hall : padding.all (fun c => !isNamespaceChar c && c != ':') = true := by decide
  rw [isPadding, decide_eq_false_iff_not]
  intro hp
  have hc := List.all_eq_true.mp hall c hp
  simp only [Bool.and_eq_true, Bool.not_eq_true', bne_iff_ne] at hc
  exact h.not_mem hc.1 hc.2 hm

/-- It has no form that is kept as it is written. -/
theorem isVerbatim_eq_false : isVerbatim s = false := by
  have hshape : isShape s = false := by
    unfold isShape
    cases hd : s.dropWhile isHeadChar with
    | nil => simp [isBracketed]
    | cons opener body =>
      have hmem : opener ∈ s := (List.dropWhile_sublist isHeadChar).subset (by simp [hd])
      have hcloser : closerOf opener = none := by
        unfold closerOf
        split
        · exact absurd hmem (h.not_mem (by decide) (by decide))
        · exact absurd hmem (h.not_mem (by decide) (by decide))
        · exact if_neg fun e => h.not_mem (by decide) (by decide) (e ▸ hmem)
      simp [isBracketed, hcloser]
  have hsignature : isSignature s = false := by
    have hparen : '(' ∉ s := h.not_mem (by decide) (by decide)
    have happend := isSignature_append_left [] hparen
    rwa [List.append_nil] at happend
  have hhead : ∀ {c : Char}, isNamespaceChar c = false → c ≠ ':' → (s.head? == some c) = false := by
    intro c hc hne
    rw [beq_eq_false_iff_ne]
    exact fun e => h.not_mem hc hne (List.mem_of_head? e)
  rw [isVerbatim, hshape, hsignature, isParenthesised, isLiteral,
    hhead (c := '(') (by decide) (by decide), hhead (c := Char.ofNat 34) (by decide) (by decide),
    hhead (c := Char.ofNat 39) (by decide) (by decide)]
  rfl

/-- **A name is settled where it is absolute or reserved**, and is a class otherwise. -/
theorem plan_eq {σ : Scope} (hne : s ≠ []) :
    σ.plan s =
      if isAbsolute s || isKeyword s || σ.isGeneric s then .settled s else σ.reference s := by
  have hst : stripPadding s = s := h.unpadded.trimmed.trim_eq
  have hv : isVerbatim (stripPadding s) = false := by rw [hst, h.isVerbatim_eq_false]
  have he : arrayElement? (stripPadding s) = none := by
    rw [hst]
    exact arrayElement?_of_not_mem (h.not_mem (by decide) (by decide))
  rw [Scope.plan_of_not_array (by rwa [hst]) hv he, hst, isRelative]
  cases isAbsolute s <;> cases isKeyword s <;> cases σ.isGeneric s <;> rfl

end NameChars

theorem isAbsolute_eq_false {s : Text} (h : ∀ c ∈ s.head?, c ≠ separator) :
    isAbsolute s = false := by
  rw [isAbsolute, beq_eq_false_iff_ne]
  exact fun e => h separator e rfl

/-- Word characters, and at least one. -/
structure IsName (s : Text) : Prop where
  ne_nil : s ≠ []
  word : ∀ c ∈ s, isWordChar c = true

instance (s : Text) : Decidable (IsName s) :=
  decidable_of_iff (s ≠ [] ∧ s.all isWordChar = true)
    ⟨fun h => ⟨h.1, List.all_eq_true.mp h.2⟩, fun h => ⟨h.ne_nil, List.all_eq_true.mpr h.word⟩⟩

theorem isName_of_name? {s : Text} {f : Text × Text} (h : s.name? = some f) : IsName f.1 := by
  unfold Text.name? at h
  split at h
  · cases h
  · next c cs hw =>
    cases h
    refine ⟨List.cons_ne_nil c cs, fun d hd => ?_⟩
    rw [← hw] at hd
    exact List.mem_takeWhile_imp hd

theorem isName_of_readDeclaration {x : Text} {f : Text × Text} (h : readDeclaration x = some f) :
    IsName f.1 := by
  obtain ⟨r, -, hr⟩ := Option.bind_eq_some_iff.mp h
  exact isName_of_name? hr

namespace IsName

variable {s : Text}

theorem not_mem (h : IsName s) {c : Char} (hc : isWordChar c = false) : c ∉ s := fun hm => by
  have hw := h.word c hm
  rw [hc] at hw
  cases hw

theorem separator_not_mem (h : IsName s) : separator ∉ s := h.not_mem (by decide)

theorem ne_separator (h : IsName s) {c : Char} (hc : c ∈ s) : c ≠ separator := by
  rintro rfl
  exact h.separator_not_mem hc

/-! ### Where a name ends -/

variable {r : Text}

/-- A name ends where a character follows that stands in no name. -/
theorem takeWhile_append (h : IsName s) (hr : ∀ c ∈ r.head?, isWordChar c = false) :
    (s ++ r).takeWhile isWordChar = s :=
  takeWhile_append_of_head h.word hr

theorem dropWhile_append (h : IsName s) (hr : ∀ c ∈ r.head?, isWordChar c = false) :
    (s ++ r).dropWhile isWordChar = r :=
  dropWhile_append_of_head h.word hr

theorem name?_append (h : IsName s) (hr : ∀ c ∈ r.head?, isWordChar c = false) :
    (s ++ r).name? = some (s, r) := by
  unfold Text.name?
  rw [h.takeWhile_append hr, h.dropWhile_append hr]
  cases s with
  | nil => exact absurd rfl h.ne_nil
  | cons c s => rfl

/-- A text begins with at most one name. -/
theorem append_inj {s' r' : Text} (h : IsName s) (hr : ∀ c ∈ r.head?, isWordChar c = false)
    (h' : IsName s') (hr' : ∀ c ∈ r'.head?, isWordChar c = false) (he : s ++ r = s' ++ r') :
    s = s' ∧ r = r' := by
  constructor
  · rw [← h.takeWhile_append hr, he, h'.takeWhile_append hr']
  · rw [← h.dropWhile_append hr, he, h'.dropWhile_append hr']

theorem not_isBlank (h : IsName s) {c : Char} (hc : c ∈ s) : isBlank c = false :=
  isBlank_of_isWordChar (h.word c hc)

theorem trimBlank_eq (h : IsName s) : s.trimBlank = s :=
  Text.Trimmed.trim_eq ⟨fun _ hc => h.not_isBlank (List.mem_of_head? hc),
    fun _ hc => h.not_isBlank (List.mem_of_getLast? hc)⟩

theorem dropWhile_isBlank (h : IsName s) (r : Text) : (s ++ r).dropWhile isBlank = s ++ r := by
  cases s with
  | nil => exact absurd rfl h.ne_nil
  | cons c s => exact List.dropWhile_cons_of_neg (by simp [h.not_isBlank List.mem_cons_self])

/-- What begins with a name does not begin with a blank. -/
theorem head?_append (h : IsName s) (r : Text) : ∀ c ∈ (s ++ r).head?, isBlank c = false := by
  obtain ⟨d, s, rfl⟩ := List.exists_cons_of_ne_nil h.ne_nil
  intro c hc
  cases hc
  exact h.not_isBlank List.mem_cons_self

theorem lineFeed_not_mem (h : IsName s) : '\n' ∉ s := h.not_mem (by decide)

theorem takeWhile_reverse (h : IsName s) (r : Text) :
    (s.reverse ++ r).takeWhile (· != separator) =
      s.reverse ++ r.takeWhile (· != separator) := by
  refine List.takeWhile_append_of_pos fun c hc => ?_
  rw [bne_iff_ne]
  rintro rfl
  exact h.separator_not_mem (List.mem_reverse.mp hc)

/-- A name is its own last segment. -/
theorem afterLast_self (h : IsName s) : s.afterLast separator = s := by
  have ht := h.takeWhile_reverse []
  rw [List.append_nil] at ht
  rw [Text.afterLast, ht]
  simp

/-- A name behind a separator is the last segment. -/
theorem afterLast_append (h : IsName s) (x : Text) :
    (x ++ separator :: s).afterLast separator = s := by
  rw [Text.afterLast, List.reverse_append, List.reverse_cons, List.append_assoc,
    h.takeWhile_reverse]
  simp

/-! ### What a name resolves to -/

theorem nameChars (h : IsName s) : NameChars s := fun c hc =>
  Or.inl (by simp [isNamespaceChar, h.word c hc])

/-- **A name that is neither a keyword nor a generic parameter** is a class. -/
theorem plan_eq (h : IsName s) {σ : Scope} (hk : isKeyword s = false)
    (hg : σ.isGeneric s = false) : σ.plan s = σ.reference s := by
  have ha : isAbsolute s = false :=
    isAbsolute_eq_false fun _ hc => h.ne_separator (List.mem_of_head? hc)
  rw [h.nameChars.plan_eq h.ne_nil, ha, hk, hg]
  rfl

/-- A name has no member. -/
theorem memberParts?_eq_none (h : IsName s) : memberParts? s = none :=
  memberParts?_eq_none_iff.mpr fun hi =>
    h.not_mem (c := ':') (by decide) (hi.subset List.mem_cons_self)

/-- A name that is no alias is placed in the namespace. -/
theorem resolve_eq (h : IsName s) {c : Context} (ha : c.aliases.find? s = none) :
    c.resolve s = .placed (c.qualify s) := by
  have hb : s.before separator = s := before_eq_self h.separator_not_mem
  rcases c.resolve_cases s with ⟨_, _, _, hp, _⟩ | ⟨target, _, ht, _⟩ | ⟨_, _, hr⟩
  · rw [hb, h.memberParts?_eq_none] at hp
    cases hp
  · rw [hb, ha] at ht
    cases ht
  · exact hr

end IsName

/-! ### Names as values -/

/-- A name of one segment. -/
structure PlainName where
  text : Text
  isName : IsName text

/-- A name of one or more segments, with separators between them. -/
structure NestedName where
  segments : List Text
  ne_nil : segments ≠ []
  isName : ∀ s ∈ segments, IsName s

namespace NestedName

variable (n : NestedName)

/-- The name as it is written. -/
def text : Text := Text.join separator n.segments

/-- The last segment. -/
def last : Text := n.segments.getLast n.ne_nil

theorem isName_last : IsName n.last := n.isName _ (List.getLast_mem n.ne_nil)

theorem isNamespaceChar_of_mem {c : Char} (hc : c ∈ n.text) : isNamespaceChar c = true := by
  rcases Text.mem_join hc with rfl | ⟨s, hs, hc⟩
  · decide
  · simp [isNamespaceChar, (n.isName s hs).word c hc]

theorem not_isBlank {c : Char} (hc : c ∈ n.text) : isBlank c = false := by
  rw [Bool.eq_false_iff]
  intro hb
  have hn := n.isNamespaceChar_of_mem hc
  rw [isNamespaceChar_of_isBlank hb] at hn
  cases hn

/-- A nested name is its last segment in the namespace of the others. -/
theorem text_eq : n.segments.dropLast = [] ∧ n.text = n.last ∨
    n.segments.dropLast ≠ [] ∧
      n.text = Text.join separator n.segments.dropLast ++ separator :: n.last := by
  have hs : n.segments.dropLast ++ [n.last] = n.segments := List.dropLast_append_getLast n.ne_nil
  by_cases h : n.segments.dropLast = []
  · rw [h, List.nil_append] at hs
    exact Or.inl ⟨h, by rw [text, ← hs]; rfl⟩
  · refine Or.inr ⟨h, ?_⟩
    conv_lhs => rw [text, ← hs]
    exact Text.join_append separator h (List.cons_ne_nil n.last [])

theorem getLast?_text : n.text.getLast? = n.last.getLast? := by
  rcases n.text_eq with ⟨-, h⟩ | ⟨-, h⟩
  · rw [h]
  · rw [h, List.getLast?_append, List.getLast?_cons,
      List.getLast?_eq_some_getLast n.isName_last.ne_nil]
    rfl

/-- A nested name begins with the character of a name. -/
theorem exists_head?_text : ∃ c ∈ n.text.head?, isWordChar c = true := by
  obtain ⟨s, ss, hs⟩ := List.exists_cons_of_ne_nil n.ne_nil
  have hn : IsName s := n.isName s (by rw [hs]; exact List.mem_cons_self)
  obtain ⟨c, cs, rfl⟩ := List.exists_cons_of_ne_nil hn.ne_nil
  refine ⟨c, ?_, hn.word c List.mem_cons_self⟩
  rw [text, hs]
  cases ss <;> rfl

/-- Nor does what begins with a nested name. -/
theorem head?_append (r : Text) : ∀ c ∈ (n.text ++ r).head?, isBlank c = false := by
  intro c hc
  obtain ⟨d, hd, hw⟩ := n.exists_head?_text
  rw [List.head?_append, Option.mem_def.mp hd] at hc
  cases hc
  exact isBlank_of_isWordChar hw

theorem text_ne_nil : n.text ≠ [] := by
  obtain ⟨c, hc, -⟩ := n.exists_head?_text
  rintro h
  rw [h] at hc
  cases hc

/-- There is nothing to trim at a nested name but what stands in names. -/
theorem trimmed {p : Char → Bool} (hp : ∀ c, isWordChar c = true → p c = false) :
    Text.Trimmed p n.text := by
  constructor
  · intro c hc
    obtain ⟨d, hd, hw⟩ := n.exists_head?_text
    rw [Option.mem_def.mp hd] at hc
    cases hc
    exact hp _ hw
  · intro c hc
    rw [n.getLast?_text] at hc
    exact hp c (n.isName_last.word c (List.mem_of_getLast? hc))

theorem trimBlank_text : n.text.trimBlank = n.text :=
  (n.trimmed fun _ => isBlank_of_isWordChar).trim_eq

theorem trimmed_separator : Text.Trimmed (· == separator) n.text :=
  n.trimmed fun c hc => by
    rw [beq_eq_false_iff_ne]
    rintro rfl
    revert hc
    decide

theorem stripSeparators_text : stripSeparators n.text = n.text := n.trimmed_separator.trim_eq

end NestedName

/-! ### Look-up keys -/

/-- A look-up key has a separator just where the name has one behind its first
other character. -/
theorem separator_mem_lookupKey (caseSensitive : Bool) (name : Text) :
    separator ∈ lookupKey caseSensitive name ↔ separator ∈ name.trimStart (· == separator) := by
  unfold lookupKey
  cases caseSensitive
  · exact Text.mem_lower_iff isCaseless_separator _
  · exact Iff.rfl

end DocTypes
