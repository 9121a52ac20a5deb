/-
# The kind of what a type resolves to

Resolution keeps the kind of a type (`Scope.kind?_of_mem_results`). A verbatim form
stays as it is, and what a class name resolves to is told by no form: it begins with a
separator, what is put in front of an end of the name opens no parenthesis, and this
end was no signature before (`Scope.reference_cases`).

An array is the harder case. Its element is resolved by itself, without the padding
around it, and the suffix comes behind the result, so the whole might become a generic
or a signature that it was not. It does not, because padding and a further suffix in
front of an array suffix make no difference to the forms (`isVerbatim_insert`).

So the items of a collection are listed with the kinds of the alternatives that were
taken (`Collection.kinds_of_resolved`), if these are on one line and have no inner
member.

Key definitions: `Insertable`, `Scope.Formless`, `Collection.taken`.
Key theorems: `isVerbatim_insert`, `Scope.reference_cases`,
`Scope.kind?_of_mem_results`, `Collection.exists_items_afterAdding`,
`Collection.kinds_of_resolved`.
-/
import DocTypes.Proofs.Collection
import Mathlib.Data.List.Forall2

namespace DocTypes

/-! ### Forms in front of an array suffix -/

/-- What may stand between a type and the array suffix and leave its form as it is: a
text on one line that does not go on the name of a generic and is no body. -/
structure Insertable (p : Text) : Prop where
  oneLine : '\n' ∉ p
  colonless : ':' ∉ p
  first : ∀ c ∈ p.head?, isHeadChar c = false ∧ c ≠ ']'
  isBracketed_eq : isBracketed (p ++ arraySuffix) = false
  isVerbatim_eq : isVerbatim (p ++ arraySuffix) = false

theorem insertable_arraySuffix : Insertable arraySuffix := by
  refine ⟨by decide, by decide, fun c hc => ?_, by decide, by decide⟩
  cases hc
  exact ⟨by decide, by decide⟩

theorem insertable_of_padding {p : Text} (hp : ∀ c ∈ p, isPadding c = true) (hn : '\n' ∉ p) :
    Insertable p := by
  have hcolon : ':' ∉ p := fun hm => by
    have := hp _ hm
    revert this
    decide
  cases p with
  | nil => exact ⟨hn, hcolon, by simp, by decide, by decide⟩
  | cons c p =>
    have hall : padding.all (fun c => !isHeadChar c && c != ']' && c != '(' && c != Char.ofNat 34 &&
        c != Char.ofNat 39 && (closerOf c).isNone) = true := by decide
    have hc := List.all_eq_true.mp hall c (of_decide_eq_true (hp c List.mem_cons_self))
    simp only [Bool.and_eq_true, Bool.not_eq_true', bne_iff_ne, Option.isNone_iff_eq_none] at hc
    obtain ⟨⟨⟨⟨⟨hhead, hclose⟩, hparen⟩, hquote⟩, hquote'⟩, hcloser⟩ := hc
    have hsignature : isSignature (c :: (p ++ arraySuffix)) = false :=
      signatureFrom_eq_false false (by simpa [arraySuffix] using hcolon)
    refine ⟨hn, hcolon, fun d hd => ?_, ?_, ?_⟩
    · cases hd
      exact ⟨hhead, hclose⟩
    · rw [List.cons_append, isBracketed, hcloser]
    · simp [isVerbatim, isShape, hhead, hsignature, isParenthesised, isLiteral, hparen, hquote,
        hquote']

section Insert

variable (u : Text) {p : Text} (hp : Insertable p)

include hp

theorem isBracketed_insert :
    isBracketed (u ++ (p ++ arraySuffix)) = isBracketed (u ++ arraySuffix) := by
  cases u with
  | nil =>
    rw [List.nil_append, hp.isBracketed_eq]
    rfl
  | cons c u =>
    have hline : '\n' ∉ u ++ p ++ ['['] ↔ '\n' ∉ u ++ ['['] := by simp [hp.oneLine]
    have hclose : ((u ++ p ++ ['[']).head? == some ']') = ((u ++ ['[']).head? == some ']') := by
      cases u with
      | cons d u => rfl
      | nil =>
        cases p with
        | nil => rfl
        | cons d p =>
          have hd : d ≠ ']' := (hp.first d rfl).2
          simp [hd]
    have hbody : isBody c (u ++ p ++ ['[']) = isBody c (u ++ ['[']) := by
      have hempty : ∀ w : Text, (w ++ ['[']).isEmpty = false := by simp
      simp only [isBody, hempty, hline, hclose]
    rw [List.cons_append, List.cons_append, ← List.append_assoc, isBracketed_cons_append,
      isBracketed_cons_append, hbody]

theorem isShape_insert : isShape (u ++ (p ++ arraySuffix)) = isShape (u ++ arraySuffix) := by
  obtain ⟨name, y, rfl, hname, hy⟩ := exists_eq_name_append u
  have hrest : ∀ w : Text, (∀ c ∈ w.head?, isHeadChar c = false) →
      ∀ c ∈ (y ++ w).head?, isHeadChar c = false := by
    intro w hw
    cases y with
    | nil => exact hw
    | cons d y => exact hy
  have hsuffix : ∀ c ∈ arraySuffix.head?, isHeadChar c = false := fun c hc =>
    (insertable_arraySuffix.first c hc).1
  have hfirst : ∀ c ∈ (p ++ arraySuffix).head?, isHeadChar c = false := by
    intro c hc
    cases p with
    | nil => exact hsuffix c hc
    | cons d p => exact (hp.first c hc).1
  rw [List.append_assoc, List.append_assoc, isShape_append hname (hrest _ hfirst),
    isShape_append hname (hrest _ hsuffix), isBracketed_insert _ hp]

/-- **What is insertable makes no difference to the forms of an array.** -/
theorem isVerbatim_insert :
    isVerbatim (u ++ (p ++ arraySuffix)) = isVerbatim (u ++ arraySuffix) := by
  cases u with
  | nil =>
    rw [List.nil_append, hp.isVerbatim_eq]
    rfl
  | cons c u =>
    have hsignature : isSignature (c :: u ++ (p ++ arraySuffix)) =
        isSignature (c :: u ++ arraySuffix) := by
      rw [isSignature_append_right _ (by simpa [arraySuffix] using hp.colonless),
        isSignature_append_right _ (by decide)]
    rw [isVerbatim, isShape_insert _ hp, hsignature]
    rfl

end Insert

/-! ### Class names -/

/-- A scope whose names give a type no form: no brackets in the namespace and the alias
targets, which are absolute and hold no padding, and no absolute generic parameter. -/
structure Scope.Formless (σ : Scope) : Prop where
  unbracketed : Unbracketed σ.context.namespaceName
  target : ∀ e ∈ σ.context.aliases.entries,
    isAbsolute e.2 = true ∧ Unbracketed e.2 ∧ Unpadded e.2
  parameter : ∀ g ∈ σ.generics, isAbsolute g = false

theorem Scope.Formless.absoluteTargets {σ : Scope} (hσ : σ.Formless) :
    σ.context.AbsoluteTargets :=
  fun e he => ⟨(hσ.target e he).1, (hσ.target e he).2.2⟩

theorem Unbracketed.not_mem {s : Text} (h : Unbracketed s) {c : Char} (hc : weight c ≠ 0) :
    c ∉ s :=
  fun hm => hc (h c hm)

/-- The form of an absolute name is that of a signature, if it has one. -/
theorem isVerbatim_of_isAbsolute {s : Text} (h : isAbsolute s = true) :
    isVerbatim s = isSignature s := by
  cases s with
  | nil => cases h
  | cons c s =>
    obtain rfl : c = separator := by simpa [isAbsolute] using h
    have hshape : isShape (separator :: s) = false := rfl
    have hparen : isParenthesised (separator :: s) = false := rfl
    have hliteral : isLiteral (separator :: s) = false := rfl
    rw [isVerbatim, hshape, hparen, hliteral, Bool.false_or, Bool.or_false, Bool.or_false]

namespace Scope

variable {σ : Scope}

/-- **What a class name resolves to**: an absolute name without brackets, or one that
puts such a name in front of a separator or a colon and an end of the class name. -/
theorem reference_cases (hσ : σ.Formless) {s : Text} (hm : NoInnerMember s) :
    ∀ r ∈ (σ.reference s).results, isAbsolute r = true ∧
      ∃ x, Unbracketed x ∧
        (r = x ∨ ∃ d u, (d = separator ∨ d = ':') ∧ r = x ++ d :: u ∧ u <:+ s) := by
  intro r hr
  have hr' : r = separator :: s ∨ r = (σ.context.resolve s).name := by
    simpa [reference, Plan.results] using hr
  rcases hr' with rfl | rfl
  · exact ⟨rfl, [], by decide, Or.inr ⟨separator, s, Or.inl rfl, rfl, List.suffix_rfl⟩⟩
  · rcases σ.context.resolve_name_cases hm with ⟨e, hmem, rest, hsplit, hn, hfirst⟩ | hn
    · obtain ⟨ha, hb, -⟩ := hσ.target e hmem
      rw [hn]
      refine ⟨isAbsolute_append ha _, e.2, hb, ?_⟩
      cases rest with
      | nil => exact Or.inl (List.append_nil _)
      | cons d u =>
        refine Or.inr ⟨d, u, hfirst d rfl, rfl, ?_⟩
        rw [hsplit]
        exact (List.suffix_cons _ _).trans (List.suffix_append _ _)
    · obtain ⟨x, hx, he⟩ := σ.context.qualify_eq s
      refine ⟨by rw [hn]; simp [isAbsolute, Context.qualify], x, fun c hc => ?_,
        Or.inr ⟨separator, s, Or.inl rfl, by rw [hn, he], List.suffix_rfl⟩⟩
      rcases hx c hc with rfl | hc
      · decide
      · exact hσ.unbracketed c hc

section Reference

variable (hσ : σ.Formless) {s : Text} (hm : NoInnerMember s)

include hσ hm

theorem isSignature_of_mem_reference (hs : isSignature s = false) :
    ∀ r ∈ (σ.reference s).results, isSignature r = false := by
  intro r hr
  obtain ⟨-, x, hx, rfl | ⟨d, u, hd, rfl, y, rfl⟩⟩ := reference_cases hσ hm r hr
  · have hparen : '(' ∉ r := hx.not_mem (by decide)
    rw [← List.append_nil r, isSignature_append_left [] hparen]
    rfl
  · have hd' : '(' ≠ d := by rcases hd with rfl | rfl <;> decide
    have hparen : '(' ∉ x ++ [d] := by simpa using ⟨hx.not_mem (by decide), hd'⟩
    rw [← List.singleton_append, ← List.append_assoc, isSignature_append_left u hparen]
    rw [Bool.eq_false_iff]
    intro h
    rw [isSignature_of_append h] at hs
    cases hs

/-- A class name without a form resolves to one, and to none whose array is told by
another form. -/
theorem isVerbatim_of_mem_reference (hs : isVerbatim s = false) :
    ∀ r ∈ (σ.reference s).results,
      isVerbatim r = false ∧ isVerbatim (r ++ arraySuffix) = false := by
  intro r hr
  obtain ⟨ha, -⟩ := reference_cases hσ hm r hr
  have hsignature : isSignature s = false := by
    rw [Bool.eq_false_iff]
    intro h
    simp [isVerbatim, h] at hs
  have hrsignature := isSignature_of_mem_reference hσ hm hsignature r hr
  rw [isVerbatim_of_isAbsolute ha, isVerbatim_of_isAbsolute (isAbsolute_append ha _),
    isSignature_append_right r (by decide)]
  exact ⟨hrsignature, hrsignature⟩

theorem arrayElement?_of_mem_reference (hs : arrayElement? s = none) :
    ∀ r ∈ (σ.reference s).results, arrayElement? r = none := by
  intro r hr
  obtain ⟨-, x, hx, rfl | ⟨d, u, hd, rfl, y, rfl⟩⟩ := reference_cases hσ hm r hr
  · exact arrayElement?_of_not_mem (hx.not_mem (by decide))
  · obtain ⟨hopen, hclose⟩ : d ≠ '[' ∧ d ≠ ']' := by rcases hd with rfl | rfl <;> decide
    exact arrayElement?_append_cons hopen hclose x (arrayElement?_of_append hs)

end Reference

/-! ### Arrays -/

/-- The element of an array is on one line and without inner member if the array is,
and its form in front of the suffix is the form of the array. -/
theorem isVerbatim_element {t e : Text} (he : arrayElement? (stripPadding t) = some e)
    (hm : NoInnerMember t) (hline : '\n' ∉ t) :
    NoInnerMember e ∧ '\n' ∉ e ∧
      isVerbatim (stripPadding e ++ arraySuffix) = isVerbatim (stripPadding t) := by
  have hse := eq_append_of_arrayElement? he
  have hme : NoInnerMember e := (hse ▸ hm.stripPadding).of_append
  have hle : '\n' ∉ e := fun h =>
    hline (mem_of_mem_stripPadding (hse ▸ List.mem_append_left _ h))
  have hfirst : ∀ c ∈ e.head?, isPadding c = false := by
    intro c hc
    have htrim := (trimmed_stripPadding t).first c
    rw [hse, List.head?_append, Option.mem_def.mp hc] at htrim
    exact htrim rfl
  -- the padding of the element stands in front of the suffix
  obtain ⟨a, b, hpad, ha, hb⟩ := Text.exists_eq_trim isPadding e
  have hnil : a = [] := by
    cases a with
    | nil => rfl
    | cons c a =>
      have hc := hfirst c (by rw [hpad]; rfl)
      rw [ha c List.mem_cons_self] at hc
      cases hc
  have heb : e = stripPadding e ++ b := by
    conv_lhs => rw [hpad, hnil]
    rfl
  have hlb : '\n' ∉ b := fun h => hle (heb ▸ List.mem_append_right _ h)
  have hinsert := isVerbatim_insert (stripPadding e) (insertable_of_padding hb hlb)
  rw [← List.append_assoc, ← heb, ← hse] at hinsert
  exact ⟨hme, hle, hinsert.symm⟩

/-- **What resolves in front of an array suffix gets no form there**, if the type had
none. -/
theorem isVerbatim_append_of_mem_results (hσ : σ.Formless) {t : Text} (hm : NoInnerMember t)
    (hline : '\n' ∉ t) (ht : isVerbatim (stripPadding t ++ arraySuffix) = false) :
    ∀ r ∈ (σ.plan t).results, isVerbatim (r ++ arraySuffix) = false := by
  fun_induction Scope.plan σ t with
  | case1 t s hs =>
    intro r hr
    obtain rfl : r = [] := by simpa [Plan.results] using hr
    decide
  | case2 t s hne hv => simpa [Plan.results] using ht
  | case3 t s hne hv e he ih =>
    intro r hr
    obtain ⟨r', hr', rfl⟩ := Plan.mem_results_arrayOf.mp hr
    obtain ⟨hme, hle, hform⟩ := isVerbatim_element he hm hline
    have hr'form := ih hme hle (hform.trans (Bool.eq_false_iff.mpr hv)) r' hr'
    rw [List.append_assoc, isVerbatim_insert r' insertable_arraySuffix]
    exact hr'form
  | case4 t s hne hv he h =>
    intro r hr
    have hs : isVerbatim s = false := Bool.eq_false_iff.mpr hv
    exact (isVerbatim_of_mem_reference hσ hm.stripPadding hs r hr).2
  | case5 t s hne hv he h => simpa [Plan.results] using ht

/-! ### Kinds -/

theorem kind?_arrayOf {e : Text} (hs : Text.Trimmed isPadding (e ++ arraySuffix))
    (hv : isVerbatim (e ++ arraySuffix) = false) : σ.kind? (e ++ arraySuffix) = some .array := by
  have hst : stripPadding (e ++ arraySuffix) = e ++ arraySuffix := hs.trim_eq
  have hne : e ++ arraySuffix ≠ [] := by simp [arraySuffix]
  rw [kind?_of_not_verbatim (by rwa [hst]) (by rwa [hst]), hst, isArray, arrayElement?_append]
  rfl

theorem kind?_classRef {s : Text} (hs : Text.Trimmed isPadding s) (hne : s ≠ [])
    (hv : isVerbatim s = false) (he : arrayElement? s = none) (hk : isKeyword s = false)
    (hg : σ.isGeneric s = false) : σ.kind? s = some .classRef := by
  have hst : stripPadding s = s := hs.trim_eq
  rw [kind?_of_not_verbatim (by rwa [hst]) (by rwa [hst]), hst, isArray, he, hk, hg]
  rfl

/-- A class name resolves to the name of a class. -/
theorem kind?_of_mem_reference (hσ : σ.Formless) {s : Text} (hs : Text.Trimmed isPadding s)
    (hm : NoInnerMember s) (hv : isVerbatim s = false) (he : arrayElement? s = none) :
    ∀ r ∈ (σ.reference s).results, σ.kind? r = some .classRef := by
  intro r hr
  obtain ⟨ha, -⟩ := reference_cases hσ hm r hr
  have hmem : separator ∈ r := List.mem_of_head? (by simpa [isAbsolute] using ha)
  have hk : isKeyword r = false := by
    rw [Bool.eq_false_iff]
    exact fun hk => separator_not_mem_of_isKeyword hk hmem
  have hg : σ.isGeneric r = false := by
    rw [isGeneric, decide_eq_false_iff_not]
    intro hr
    rw [hσ.parameter r hr] at ha
    cases ha
  exact kind?_classRef (stable_of_mem_reference hσ.absoluteTargets hs he hm r hr).trimmed
    (List.ne_nil_of_mem hmem) (isVerbatim_of_mem_reference hσ hm hv r hr).1
    (arrayElement?_of_mem_reference hσ hm he r hr) hk hg

/-- **Kinds survive resolution**: whatever a registry answers, what a type on one line
resolves to is of the kind of the type. -/
theorem kind?_of_mem_results (hσ : σ.Formless) {t : Text} (hm : NoInnerMember t)
    (hline : '\n' ∉ t) : ∀ r ∈ (σ.plan t).results, σ.kind? r = σ.kind? t := by
  have hst := trimmed_stripPadding t
  have htrimmed : ∀ r ∈ (σ.plan t).results, Text.Trimmed isPadding r := fun r hr =>
    (stable_of_mem_plan hσ.absoluteTargets hm r hr).trimmed
  rw [← σ.kind?_stripPadding t]
  revert htrimmed
  fun_cases Scope.plan σ t with
  | case1 s hs => simp [Plan.results, s, hs]
  | case2 s hne hv => simp [Plan.results, s]
  | case3 s hne hv e he =>
    intro htrimmed r hr
    have hsv : isVerbatim s = false := Bool.eq_false_iff.mpr hv
    have hse : s = e ++ arraySuffix := eq_append_of_arrayElement? he
    have htr := htrimmed r hr
    obtain ⟨r', hr', rfl⟩ := Plan.mem_results_arrayOf.mp hr
    obtain ⟨hme, hle, hform⟩ := isVerbatim_element he hm hline
    have hrv := isVerbatim_append_of_mem_results hσ hme hle (hform.trans hsv) r' hr'
    change σ.kind? (r' ++ arraySuffix) = σ.kind? s
    rw [kind?_arrayOf htr hrv, hse, kind?_arrayOf (hse ▸ hst) (hse ▸ hsv)]
  | case4 s hne hv he h =>
    intro _ r hr
    have hsv : isVerbatim s = false := Bool.eq_false_iff.mpr hv
    simp only [Bool.and_eq_true, Bool.not_eq_true'] at h
    obtain ⟨⟨-, hk⟩, hg⟩ := h
    rw [kind?_of_mem_reference hσ hst hm.stripPadding hsv he r hr,
      kind?_classRef hst hne hsv he hk hg]
  | case5 s hne hv he h => simp [Plan.results, s]

end Scope

/-! ### Collections -/

/-- Types that resolve in turn do so one by one, each to a result of its plan. -/
theorem Expands.forall₂_results {e e' : Expander} {ts rs : List Text} (h : Expands e ts rs e') :
    List.Forall₂ (fun t r => r ∈ (e.scope.plan t).results) ts rs := by
  induction h with
  | nil e => exact .nil
  | cons h _ ih =>
    rw [Expander.scope_of_expand h] at ih
    exact .cons (Expander.mem_results_of_expand h) ih

namespace Collection

/-- What is taken of a value: its alternatives that are more than padding, unless it is
refused. -/
def takenOf : Value → Except Refusal Unit → List Text
  | .text t, .ok () => (alternatives t).filter hasContent
  | _, _ => []

/-- What is taken of values that are added in turn. -/
def taken (c : Collection) : List Value → List Text
  | [] => []
  | v :: vs => takenOf v (c.add v).1 ++ (c.add v).2.taken vs

/-- A call appends one item for each alternative that it takes. -/
theorem AddStep.exists_items {c c' : Collection} {v : Value} {outcome : Except Refusal Unit}
    (h : AddStep c v outcome c') :
    ∃ new, c'.items = c.items ++ new ∧
      List.Forall₂ (fun a item => item ∈ (c.expander.scope.plan a).results)
        (takenOf v outcome) new := by
  cases h with
  | notAType h =>
    refine ⟨[], (List.append_nil _).symm, ?_⟩
    have htaken : takenOf v (.error (.notAType v)) = [] := by cases v <;> rfl
    rw [htaken]
    exact .nil
  | failed => exact ⟨[], (List.append_nil _).symm, .nil⟩
  | added h => exact ⟨_, rfl, h.forall₂_results⟩

theorem scope_afterAdding (vs : List Value) {c : Collection}
    (hal : ∀ a ∈ c.expander.scope.context.aliases.entries, a.2 ≠ []) :
    (c.afterAdding vs).expander.scope = c.expander.scope :=
  afterAdding_induction (P := fun c' => c'.expander.scope = c.expander.scope)
    (fun c' v h => (add_step (by rwa [h]) v).scope_eq.trans h) vs rfl

/-- Along a run, one item comes in for each alternative that is taken. -/
theorem exists_items_afterAdding : ∀ (vs : List Value) {c : Collection},
    (∀ a ∈ c.expander.scope.context.aliases.entries, a.2 ≠ []) →
    ∃ new, (c.afterAdding vs).items = c.items ++ new ∧
      List.Forall₂ (fun a item => item ∈ (c.expander.scope.plan a).results) (c.taken vs) new
  | [], c, _ => ⟨[], (List.append_nil _).symm, .nil⟩
  | v :: vs, c, hal => by
    have hstep := add_step hal v
    obtain ⟨new, hnew, hres⟩ := hstep.exists_items
    obtain ⟨more, hmore, hres'⟩ := exists_items_afterAdding vs (c := (c.add v).2)
      (by rwa [hstep.scope_eq])
    rw [hstep.scope_eq] at hres'
    refine ⟨new ++ more, ?_, List.rel_append hres hres'⟩
    rw [← List.append_assoc, ← hnew]
    exact hmore

/-- **Kinds survive resolution**, in a scope whose names give a type no form. What a
type without line feed and without a `::` before its first separator resolves to is of
the kind of the type, with every registry. Along every run of calls on a collection, the
items that come in are listed with the kinds of the alternatives that they resolve. -/
theorem kinds_of_resolved {σ : Scope} (hσ : σ.Formless) :
    (∀ (e e' : Expander) (t r : Text), e.scope = σ → NoInnerMember t → '\n' ∉ t →
        e.expand t = (.ok r, e') → σ.kind? r = σ.kind? t) ∧
      ∀ (c : Collection) (vs : List Value), c.expander.scope = σ →
        (∀ a ∈ c.taken vs, NoInnerMember a ∧ '\n' ∉ a) →
        ∃ new, (c.afterAdding vs).items = c.items ++ new ∧
          List.Forall₂ (fun a item => item ∈ (σ.plan a).results) (c.taken vs) new ∧
          (c.afterAdding vs).kinds = c.kinds ++ new.zip ((c.taken vs).map σ.kind?) := by
  constructor
  · rintro e e' t r rfl hm hline h
    exact Scope.kind?_of_mem_results hσ hm hline r (Expander.mem_results_of_expand h)
  · rintro c vs rfl htaken
    have hal : ∀ a ∈ c.expander.scope.context.aliases.entries, a.2 ≠ [] := by
      intro a ha h
      have habs := (hσ.target a ha).1
      rw [h] at habs
      cases habs
    obtain ⟨new, hnew, hres⟩ := exists_items_afterAdding vs hal
    have hkinds : List.Forall₂ (fun a item =>
        c.expander.scope.kind? a = c.expander.scope.kind? item) (c.taken vs) new :=
      ((List.forall₂_and_left _ _).mpr ⟨htaken, hres⟩).imp fun a item h =>
        (Scope.kind?_of_mem_results hσ h.1.1 h.1.2 item h.2).symm
    have hmap : (c.taken vs).map c.expander.scope.kind? = new.map c.expander.scope.kind? := by
      rw [← List.forall₂_eq_eq_eq, List.forall₂_map_left_iff, List.forall₂_map_right_iff]
      exact hkinds
    refine ⟨new, hnew, hres, ?_⟩
    calc (c.afterAdding vs).kinds
        = (c.items ++ new).map fun item => (item, c.expander.scope.kind? item) := by
          rw [kinds, scope_afterAdding vs hal, hnew]
      _ = c.kinds ++ new.zip (new.map c.expander.scope.kind?) := by
          rw [List.map_append, List.map_prod_left_eq_zip (l := new)]
          rfl
      _ = _ := by rw [← hmap]

/-- A collection with a generic parameter of its own. -/
def brittleStart : Collection := .create shopContext ["K".toList] (.ofProbe brittleProbe) false true

/-- Texts with padding inside an array, a member of an alias, a body that ends with an
array suffix, a blank alternative, and one at which the registry fails. -/
def innerTexts : List Text :=
  [" M::ALL []| |K[] []|M\\User|Foo[ []".toList, "int|Bad".toList, "callable(T): x[]|'m'".toList]

theorem kinds_of_resolved_innerTexts :
    let σ := brittleStart.expander.scope
    let values := .int 3 :: innerTexts.map .text
    σ.Formless ∧ σ.kind? "\\Lib\\Models::ALL[]".toList = σ.kind? " M::ALL []".toList ∧
      brittleStart.taken values =
        [" M::ALL []", "K[] []", "M\\User", "Foo[ []", "callable(T): x[]", "'m'"].map
          String.toList ∧
      ∃ new, (brittleStart.afterAdding values).items = new ∧
        List.Forall₂ (fun a item => item ∈ (σ.plan a).results) (brittleStart.taken values) new ∧
        (brittleStart.afterAdding values).kinds =
          new.zip ((brittleStart.taken values).map σ.kind?) := by
  have hσ : brittleStart.expander.scope.Formless :=
    ⟨by decide +kernel, by decide +kernel, by decide +kernel⟩
  have hexpand : brittleStart.expander.expand " M::ALL []".toList =
      (.ok "\\Lib\\Models::ALL[]".toList, (brittleStart.expander.expand " M::ALL []".toList).2) :=
    Prod.ext (by decide +kernel) rfl
  have htaken : brittleStart.taken (.int 3 :: innerTexts.map .text) =
      [" M::ALL []", "K[] []", "M\\User", "Foo[ []", "callable(T): x[]", "'m'"].map
        String.toList := by
    decide +kernel
  obtain ⟨hkind, hrun⟩ := kinds_of_resolved hσ
  have hlines : ∀ a ∈ brittleStart.taken (.int 3 :: innerTexts.map .text),
      NoInnerMember a ∧ '\n' ∉ a := by
    rw [htaken]
    decide +kernel
  exact ⟨hσ, hkind _ _ _ _ rfl (by decide +kernel) (by decide +kernel) hexpand, htaken,
    hrun brittleStart _ rfl hlines⟩

end Collection
end DocTypes
