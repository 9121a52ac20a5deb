/-
# The grammar of single types

What a type is told by, said without the readers of `Token`: a name with a body in
brackets (`Enclosure`), an opening parenthesis with a colon behind it (`Signed`), a quote in
front, the array suffix behind, and a name that is reserved or in scope. On one line the
kind of a type is the first of these that applies (`Scope.kind?_eq_iff`).

Bodies and signatures are read within a line. So a signature goes from an opening
parenthesis to a colon on one and the same line (`isSignature_iff`), and no line break is in
the body of a generic or a shape (`isShape_iff`). One that goes over several lines is read
as the name of a class, and is resolved as such (`Expander.expand_of_layout`).

Key definitions: `Enclosure`, `Signed`, `Callable`, `Quoted`, `Scope.Derives`.
Key theorems: `isShape_iff`, `isSignature_iff`, `Scope.kind?_eq_iff`,
`Expander.expand_of_layout`.
-/
import DocTypes.Proofs.Arrays
import DocTypes.Proofs.Pieces

namespace DocTypes

/-! ### Generics and shapes -/

/-- A generic or a shape as it is written: a name, and a body between brackets that is not
empty. A square one does not begin with its closer. -/
structure Enclosure where
  name : Text
  opener : Char
  body : Text
  closer : Char
  name_ne_nil : name ≠ []
  headChars : ∀ c ∈ name, isHeadChar c = true
  matched : closerOf opener = some closer
  body_ne_nil : body ≠ []
  no_suffix : opener = '[' → body.head? ≠ some ']'

namespace Enclosure

variable (x : Enclosure)

def text : Text := x.name ++ x.opener :: (x.body ++ [x.closer])

end Enclosure

theorem isHeadChar_of_closerOf {opener closer : Char} (h : closerOf opener = some closer) :
    isHeadChar opener = false := by
  unfold closerOf at h
  split at h
  · decide
  · decide
  · split at h
    · next hc => rw [hc]; decide
    · cases h

theorem isBracketed_cons_concat (opener closer : Char) (body : Text) :
    isBracketed (opener :: (body ++ [closer])) =
      (decide (closerOf opener = some closer) && isBody opener body) := by
  rw [isBracketed]
  cases closerOf opener with
  | none => rfl
  | some c => simp [beq_eq_decide, eq_comm]

theorem isBody_iff {opener : Char} {body : Text} :
    isBody opener body = true ↔
      body ≠ [] ∧ '\n' ∉ body ∧ (opener = '[' → body.head? ≠ some ']') := by
  simp [isBody, and_assoc, imp_iff_not_or]

/-- **A generic or a shape is read on one line.** -/
theorem isShape_iff {s : Text} :
    isShape s = true ↔ ∃ x : Enclosure, '\n' ∉ x.body ∧ s = x.text := by
  constructor
  · intro h
    obtain ⟨name, y, rfl, hname, hy⟩ := exists_eq_name_append s
    rw [isShape_append hname hy, Bool.and_eq_true] at h
    obtain ⟨hne, hb⟩ := h
    cases y with
    | nil => cases hb
    | cons opener y =>
      rcases List.eq_nil_or_concat y with rfl | ⟨body, closer, rfl⟩
      · rw [isBracketed] at hb
        cases hc : closerOf opener <;> simp [hc] at hb
      · rw [List.concat_eq_append, isBracketed_cons_concat, Bool.and_eq_true, isBody_iff] at hb
        obtain ⟨hc, hbne, hline, hsuffix⟩ := hb
        exact ⟨⟨name, opener, body, closer, by simpa using hne, hname, of_decide_eq_true hc, hbne,
          hsuffix⟩, hline, by simp [Enclosure.text]⟩
  · rintro ⟨x, hline, rfl⟩
    have hopener : ∀ c ∈ (x.opener :: (x.body ++ [x.closer])).head?, isHeadChar c = false := by
      intro c hc
      cases hc
      exact isHeadChar_of_closerOf x.matched
    have hname : x.name.isEmpty = false := by simpa using x.name_ne_nil
    have hbody : isBody x.opener x.body = true :=
      isBody_iff.mpr ⟨x.body_ne_nil, hline, x.no_suffix⟩
    rw [Enclosure.text, isShape_append x.headChars hopener, isBracketed_cons_concat, hname, hbody,
      decide_eq_true x.matched]
    rfl

/-! ### Signatures -/

/-- An opening parenthesis with a colon somewhere behind it. -/
def Signed (s : Text) : Prop := ['(', ':'].Sublist s

instance (s : Text) : Decidable (Signed s) := inferInstanceAs (Decidable (['(', ':'].Sublist s))

theorem signed_cons_iff {c : Char} {s : Text} :
    Signed (c :: s) ↔ c = '(' ∧ ':' ∈ s ∨ Signed s := by
  unfold Signed
  rw [List.sublist_cons_iff, or_comm]
  refine or_congr_left ⟨?_, ?_⟩
  · rintro ⟨r, hr, hs⟩
    obtain ⟨rfl, rfl⟩ := List.cons.inj hr
    exact ⟨rfl, List.singleton_sublist.mp hs⟩
  · rintro ⟨rfl, hs⟩
    exact ⟨[':'], rfl, List.singleton_sublist.mpr hs⟩

/-- By induction over the text, where a parenthesis that is open already counts for the
first line only. -/
theorem signatureFrom_iff : ∀ {s line : Text} {lines : List Text} (opened : Bool),
    Text.cutAll '\n' s = line :: lines →
    (signatureFrom opened s = true ↔
      opened = true ∧ ':' ∈ line ∨ Signed line ∨ ∃ l ∈ lines, Signed l)
  | [], line, lines, opened, h => by
    cases h
    simp [signatureFrom, Signed]
  | c :: s, line, lines, opened, h => by
    obtain ⟨first, rest, hcut⟩ := List.exists_cons_of_ne_nil (Text.cutAll_ne_nil '\n' s)
    have ih := fun opened' => signatureFrom_iff opened' hcut
    rw [Text.cutAll, hcut] at h
    rw [signatureFrom]
    by_cases hline : c = '\n'
    · rw [if_pos hline] at h ⊢
      cases h
      simp [ih, Signed]
    · rw [if_neg hline] at h ⊢
      cases h
      by_cases hparen : c = '('
      · subst hparen
        rw [if_pos rfl, ih, signed_cons_iff, List.mem_cons]
        have hne : ¬ ':' = '(' := by decide
        tauto
      · have hcolon : ':' = c ↔ c = ':' := eq_comm
        rw [if_neg hparen, Bool.or_eq_true, Bool.and_eq_true, beq_iff_eq, ih, signed_cons_iff,
          List.mem_cons, hcolon]
        tauto

/-- **A signature is read on one line**: some line opens a parenthesis and has a colon
behind it. -/
theorem isSignature_iff {s : Text} :
    isSignature s = true ↔ ∃ line ∈ Text.cutAll '\n' s, Signed line := by
  obtain ⟨line, lines, hcut⟩ := List.exists_cons_of_ne_nil (Text.cutAll_ne_nil '\n' s)
  rw [isSignature, signatureFrom_iff false hcut, hcut]
  simp

/-! ### Kinds -/

/-- A generic or a shape, on one line or on several. -/
def Enclosed (s : Text) : Prop := ∃ x : Enclosure, s = x.text

/-- A signature, or anything that begins with a parenthesis. -/
def Callable (s : Text) : Prop := s.head? = some '(' ∨ Signed s

/-- Begins with a quote of either kind. -/
def Quoted (s : Text) : Prop :=
  s.head? = some (Char.ofNat 34) ∨ s.head? = some (Char.ofNat 39)

/-- Ends with the array suffix. -/
def Suffixed (s : Text) : Prop := arraySuffix <:+ s

theorem Enclosed.ne_nil {s : Text} : Enclosed s → s ≠ [] := by
  rintro ⟨x, rfl⟩
  simp [Enclosure.text]

theorem Callable.ne_nil {s : Text} : Callable s → s ≠ [] := by
  rintro h rfl
  simp [Callable, Signed] at h

theorem Quoted.ne_nil {s : Text} : Quoted s → s ≠ [] := by
  rintro h rfl
  simp [Quoted] at h

theorem Suffixed.ne_nil {s : Text} : Suffixed s → s ≠ [] := by
  rintro h rfl
  cases List.suffix_nil.mp h

/-- A type that is told by its name alone. -/
structure Bare (s : Text) : Prop where
  ne_nil : s ≠ []
  not_enclosed : ¬ Enclosed s
  not_callable : ¬ Callable s
  not_quoted : ¬ Quoted s
  not_suffixed : ¬ Suffixed s

/-- What a type without padding around it looks like when it is of a kind. Of several forms
the first one counts. -/
def Scope.Derives (σ : Scope) (s : Text) : Option Kind → Prop
  | none => s = []
  | some .generic => Enclosed s
  | some .callable => ¬ Enclosed s ∧ Callable s
  | some .literal => ¬ Enclosed s ∧ ¬ Callable s ∧ Quoted s
  | some .array => ¬ Enclosed s ∧ ¬ Callable s ∧ ¬ Quoted s ∧ Suffixed s
  | some .keyword => Bare s ∧ s.lower ∈ keywords
  | some .template => Bare s ∧ s.lower ∉ keywords ∧ s ∈ σ.generics
  | some .classRef => Bare s ∧ s.lower ∉ keywords ∧ s ∉ σ.generics

theorem isParenthesised_iff {s : Text} : isParenthesised s = true ↔ s.head? = some '(' :=
  beq_iff_eq

theorem isLiteral_iff {s : Text} : isLiteral s = true ↔ Quoted s := by
  simp [isLiteral, Quoted]

theorem isArray_iff {s : Text} : isArray s = true ↔ Suffixed s := by
  rw [isArray, Option.isSome_iff_exists]
  constructor
  · rintro ⟨x, hx⟩
    exact ⟨x, (eq_append_of_arrayElement? hx).symm⟩
  · rintro ⟨x, rfl⟩
    exact ⟨x, arrayElement?_append x⟩

section OneLine

variable {s : Text} (hline : '\n' ∉ s)

include hline

theorem isShape_iff_enclosed : isShape s = true ↔ Enclosed s := by
  rw [isShape_iff]
  constructor
  · rintro ⟨x, -, hs⟩
    exact ⟨x, hs⟩
  · rintro ⟨x, rfl⟩
    exact ⟨x, fun h => hline (by simp [Enclosure.text, h]), rfl⟩

theorem isSignature_iff_signed : isSignature s = true ↔ Signed s := by
  rw [isSignature_iff, Text.cutAll_of_not_mem hline]
  simp

theorem callable_iff : Callable s ↔ isSignature s = true ∨ isParenthesised s = true := by
  rw [Callable, isSignature_iff_signed hline, isParenthesised_iff, or_comm]

end OneLine

namespace Scope

variable {σ : Scope}

/-- **The kind of a type is the one that the grammar gives it**, on one line. -/
theorem kind?_eq_iff (σ : Scope) {t : Text} (hline : '\n' ∉ t) (k : Option Kind) :
    σ.kind? t = k ↔ σ.Derives (stripPadding t) k := by
  classical
  have hline' : '\n' ∉ stripPadding t := fun h => hline (mem_of_mem_stripPadding h)
  have hkeyword : isKeyword (stripPadding t) = true ↔ (stripPadding t).lower ∈ keywords :=
    decide_eq_true_iff
  have hgeneric : σ.isGeneric (stripPadding t) = true ↔ stripPadding t ∈ σ.generics :=
    decide_eq_true_iff
  simp only [kind?, isShape_iff_enclosed hline', ← callable_iff hline', isLiteral_iff,
    isArray_iff, hkeyword, hgeneric]
  generalize stripPadding t = s
  constructor
  · rintro rfl
    split_ifs with hnil henclosed hcallable hquoted hsuffixed hkey hparameter
    · exact hnil
    · exact henclosed
    · exact ⟨henclosed, hcallable⟩
    · exact ⟨henclosed, hcallable, hquoted⟩
    · exact ⟨henclosed, hcallable, hquoted, hsuffixed⟩
    · exact ⟨⟨hnil, henclosed, hcallable, hquoted, hsuffixed⟩, hkey⟩
    · exact ⟨⟨hnil, henclosed, hcallable, hquoted, hsuffixed⟩, hkey, hparameter⟩
    · exact ⟨⟨hnil, henclosed, hcallable, hquoted, hsuffixed⟩, hkey, hparameter⟩
  · intro h
    cases k with
    | none => exact if_pos h
    | some kind =>
      cases kind with
      | generic =>
        have henclosed : Enclosed s := h
        rw [if_neg henclosed.ne_nil, if_pos henclosed]
      | callable =>
        obtain ⟨henclosed, hcallable⟩ := h
        rw [if_neg hcallable.ne_nil, if_neg henclosed, if_pos hcallable]
      | literal =>
        obtain ⟨henclosed, hcallable, hquoted⟩ := h
        rw [if_neg hquoted.ne_nil, if_neg henclosed, if_neg hcallable, if_pos hquoted]
      | array =>
        obtain ⟨henclosed, hcallable, hquoted, hsuffixed⟩ := h
        rw [if_neg hsuffixed.ne_nil, if_neg henclosed, if_neg hcallable, if_neg hquoted,
          if_pos hsuffixed]
      | keyword | template | classRef =>
        obtain ⟨hbare, hname⟩ := h
        rw [if_neg hbare.ne_nil, if_neg hbare.not_enclosed, if_neg hbare.not_callable,
          if_neg hbare.not_quoted, if_neg hbare.not_suffixed]
        simp only [hname, if_true, if_false]

/-- An array that begins like a shape and like a signature. -/
theorem kind?_eq_iff_bracketedArray :
    let σ := ofContext {}
    let t := " list[](int)[]\t".toList
    '\n' ∉ t ∧ σ.kind? t = some .array ∧ σ.Derives (stripPadding t) (some .array) := by
  intro σ t
  have hline : '\n' ∉ t := by decide
  have hkind : σ.kind? t = some .array := by decide +kernel
  exact ⟨hline, hkind, (kind?_eq_iff σ hline _).mp hkind⟩

end Scope

/-! ### Several lines -/

/-- A generic or a shape on one line, a signature from a parenthesis to a colon on one line,
or anything that begins with a parenthesis. -/
def InLine (s : Text) : Prop :=
  (∃ x : Enclosure, '\n' ∉ x.body ∧ s = x.text) ∨ (∃ line ∈ Text.cutAll '\n' s, Signed line) ∨
    s.head? = some '('

theorem inLine_iff {s : Text} :
    InLine s ↔ isShape s = true ∨ isSignature s = true ∨ isParenthesised s = true := by
  rw [InLine, isShape_iff, isSignature_iff, isParenthesised_iff]

/-- No opener of a body stands in a reserved name. -/
theorem not_mem_keyword_of_closerOf {opener closer : Char} (h : closerOf opener = some closer)
    {s : Text} (hs : isKeyword s = true) : opener ∉ s := by
  have hopener : isCaseless opener.toNat = true ∧ ∀ k ∈ keywords, opener ∉ k := by
    unfold closerOf at h
    split at h
    · decide +kernel
    · decide +kernel
    · split at h
      · next hc => rw [hc]; decide +kernel
      · cases h
  exact not_mem_of_isKeyword hopener.1 hopener.2 hs

theorem isKeyword_eq_false {s : Text} (hs : Enclosed s ∨ Signed s) : isKeyword s = false := by
  rw [Bool.eq_false_iff]
  intro hk
  rcases hs with ⟨x, rfl⟩ | hs
  · apply not_mem_keyword_of_closerOf x.matched hk
    simp [Enclosure.text]
  · exact colon_not_mem_of_isKeyword hk (hs.subset (by simp))

theorem kind?_of_inLine {σ : Scope} {t : Text} (ht : InLine (stripPadding t)) :
    σ.kind? t = some .generic ∨ σ.kind? t = some .callable := by
  have hne : stripPadding t ≠ [] := fun hnil => by
    rw [hnil] at ht
    rcases inLine_iff.mp ht with h | h | h <;> cases h
  rw [Scope.kind?]
  simp only [if_neg hne]
  rcases inLine_iff.mp ht with hshape | hcallable
  · rw [if_pos hshape]
    exact Or.inl rfl
  · rw [if_pos hcallable]
    split
    · exact Or.inl rfl
    · exact Or.inr rfl

theorem kind?_of_not_inLine {σ : Scope} {t : Text} (ht : ¬ InLine (stripPadding t)) :
    σ.kind? t ≠ some .generic ∧ σ.kind? t ≠ some .callable := by
  rw [inLine_iff, not_or] at ht
  rw [Scope.kind?]
  simp only [if_neg ht.1, if_neg ht.2]
  split_ifs <;> exact ⟨by decide, by decide⟩

namespace Expander

/-- **Generics, shapes and signatures are kept on one line.** A type that is a generic, a
shape or a signature, on one line or on several, is kept as it is written and asks nothing
if it is one within a line or begins with a parenthesis. Otherwise it is neither of these
kinds: with no quote in front and no array suffix behind, and not being a generic parameter,
it is the name of a class, about which the registry is asked once unless the name begins at
the root. -/
theorem expand_of_layout (e : Expander) {t : Text}
    (ht : Enclosed (stripPadding t) ∨ Signed (stripPadding t)) :
    let s := stripPadding t
    (InLine s → e.expand t = (.ok s, e) ∧
      (e.scope.kind? t = some .generic ∨ e.scope.kind? t = some .callable)) ∧
    (¬ InLine s → (e.scope.kind? t ≠ some .generic ∧ e.scope.kind? t ≠ some .callable) ∧
      (¬ Quoted s → ¬ Suffixed s → s ∉ e.scope.generics → e.scope.kind? t = some .classRef ∧
        (isAbsolute s = false → e.expand t = e.expand s ∧ e.AsksOnce s))) := by
  intro s
  have hne : s ≠ [] := by
    rcases ht with h | h
    · exact h.ne_nil
    · exact Callable.ne_nil (Or.inr h)
  have hkeyword : isKeyword s = false := isKeyword_eq_false ht
  constructor
  · intro hin
    have hv : isVerbatim s = true := by
      rw [isVerbatim]
      rcases inLine_iff.mp hin with h | h | h <;> simp [h]
    exact ⟨expand_of_plan_eq (Scope.plan_of_verbatim hne hv), kind?_of_inLine hin⟩
  · intro hin
    refine ⟨kind?_of_not_inLine hin, fun hquoted hsuffixed hparameter => ?_⟩
    have hv : isVerbatim s = false := by
      rw [inLine_iff, not_or, not_or] at hin
      simp [isVerbatim, hin, isLiteral_iff.not.mpr hquoted]
    have harray : ¬ isArray s = true := isArray_iff.not.mpr hsuffixed
    have hgeneric : e.scope.isGeneric s = false := decide_eq_false hparameter
    have hkind : e.scope.kind? t = some .classRef := by
      rw [Scope.kind?_of_not_verbatim hne hv, if_neg harray, hkeyword, hgeneric]
      rfl
    refine ⟨hkind, fun habsolute => ⟨(e.expand_stripPadding t).symm, asksOnce_of_plan ?_⟩⟩
    have hplan := e.scope.plan_of_kind t
    rw [hkind] at hplan
    rw [Scope.plan_stripPadding, hplan, habsolute]
    rfl

/-- A signature on its first line, whose result is a shape over several lines. -/
theorem expand_of_layout_closure :
    let e := create (.create "App".toList .empty []) none .empty true false
    let t := "\n Closure(int): array\x7b\n  id: int\n\x7d\n".toList
    let s := "Closure(int): array\x7b\n  id: int\n\x7d".toList
    stripPadding t = s ∧ Signed s ∧ InLine s ∧ e.expand t = (.ok s, e) ∧
      (e.scope.kind? t = some .generic ∨ e.scope.kind? t = some .callable) := by
  intro e t s
  have hs : stripPadding t = s := by decide +kernel
  have hsigned : Signed s := by decide +kernel
  have hin : InLine s := Or.inr (Or.inl (by decide +kernel))
  have hlayout := e.expand_of_layout (t := t) (Or.inr (by rwa [hs]))
  rw [hs] at hlayout
  exact ⟨hs, hsigned, hin, hlayout.1 hin⟩

/-- A signature and a shape over several lines are placed in the namespace. -/
theorem expand_of_layout_severalLines :
    let e := create (.create "App".toList .empty []) none .empty true false
    let signature := "callable(\n  int\n): void".toList
    let shape := "array\x7b\n  id: int\n\x7d".toList
    (stripPadding signature = signature ∧ Signed signature) ∧
      (stripPadding shape = shape ∧ Enclosed shape) ∧
      ∀ t ∈ [signature, shape], e.scope.kind? t = some .classRef ∧
        (e.expand t).1 = .ok ("\\App\\".toList ++ t) ∧ (e.expand t).1 ≠ .ok t ∧
        (e.expand t).2.session.trace = [.asked t, .placed t ("\\App\\".toList ++ t)] := by
  intro e signature shape
  have henclosed : Enclosed shape :=
    ⟨⟨"array".toList, Char.ofNat 123, "\n  id: int\n".toList, Char.ofNat 125, by decide,
      List.all_eq_true.mp (by decide), by decide, by decide, by decide⟩, by decide⟩
  have hplaced : ∀ t ∈ [signature, shape], e.scope.kind? t = some .classRef ∧
      e.scope.plan t = .ask t (separator :: t) ("\\App\\".toList ++ t)
        (.placed t ("\\App\\".toList ++ t)) := by decide +kernel
  refine ⟨⟨by decide +kernel, by decide +kernel⟩, ⟨by decide +kernel, henclosed⟩, fun t ht => ?_⟩
  obtain ⟨hkind, hplan⟩ := hplaced t ht
  have hexpand : e.expand t = (.ok ("\\App\\".toList ++ t),
      ⟨e.scope, e.session.record [.asked t, .placed t ("\\App\\".toList ++ t)]⟩) := by
    rw [expand, hplan]
    rfl
  rw [hexpand]
  have hother : "\\App\\".toList ++ t ≠ t := fun h =>
    absurd (List.append_left_eq_self.mp h) (by decide)
  exact ⟨hkind, rfl, fun h => hother (Except.ok.inj h), rfl⟩

end Expander
end DocTypes
