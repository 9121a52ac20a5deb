/-
# What a plan may end with

A plan ends with one of its results (`Plan.results`). Here is what all results
of the plan for a type have in common, by induction over the rules of
`Scope.plan`: they are fixed points of resolution (`Scope.stable_of_mem_plan`),
they can stand in a union where the type could (`Scope.closes_of_mem_results`),
and they are empty only when the type is padding (`Scope.ne_nil_of_mem_results`).

The first two hold where no alias is replaced in front of a member and more
(`NoInnerMember`). What an alias is replaced in front of is then an end of the name
(`Context.resolve_name_cases`).

Which rule of the plan it is that applies is told by the kind of the type
(`Scope.plan_of_kind`).

Key definitions: `Plan.results`, `Scope.Stable`, `Context.AbsoluteTargets`.
Key theorems: `Context.resolve_cases`, `Context.name_resolve`,
`Context.resolve_name_cases`, `Scope.plan_of_kind`, `Scope.stable_of_mem_plan`,
`Scope.closes_of_mem_results`, `Scope.ne_nil_of_mem_results`.
-/
import DocTypes.Scope
import DocTypes.Proofs.Forms
import DocTypes.Proofs.Lowercase
import DocTypes.Proofs.Union

namespace DocTypes

namespace Plan

/-- What a plan may end with. -/
def results : Plan → List Text
  | settled r => [r]
  | ask _ known unknown _ => [known, unknown]

theorem mem_results_arrayOf {p : Plan} {r : Text} :
    r ∈ p.arrayOf.results ↔ ∃ e ∈ p.results, r = e ++ arraySuffix := by
  cases p <;> simp [arrayOf, results]

end Plan

/-! ### Class names -/

/-- The three ways in which a class name resolves. -/
theorem Context.resolve_cases (c : Context) (s : Text) :
    (∃ owner member target, memberParts? (s.before separator) = some (owner, member) ∧
        owner ≠ [] ∧ c.aliases.find? owner = some target ∧
        c.resolve s = .aliased (target ++ (s.after? separator).getD [] ++ member)) ∨
      (∃ target, c.memberTarget? (s.before separator) = none ∧
        c.aliases.find? (s.before separator) = some target ∧
        c.resolve s = .aliased (target ++ s.dropWhile (· != separator))) ∨
      (c.memberTarget? (s.before separator) = none ∧
        c.aliases.find? (s.before separator) = none ∧ c.resolve s = .placed (c.qualify s)) := by
  cases hm : c.memberTarget? (s.before separator) with
  | some found =>
    left
    obtain ⟨target, member⟩ := found
    have hr : c.resolve s = .aliased (target ++ (s.after? separator).getD [] ++ member) := by
      simp only [resolve, hm]
    unfold memberTarget? at hm
    split at hm
    · cases hm
    · next owner member' hp =>
      split at hm
      · cases hm
      · next ho =>
        obtain ⟨target', ht, he⟩ := Option.map_eq_some_iff.mp hm
        cases he
        exact ⟨owner, member, target, hp, ho, ht, hr⟩
  | none =>
    right
    cases ha : c.aliases.find? (s.before separator) with
    | some target => exact Or.inl ⟨target, rfl, rfl, by simp only [resolve, hm, ha]⟩
    | none => exact Or.inr ⟨rfl, rfl, by simp only [resolve, hm, ha]⟩

/-- Without a member in the first segment, an alias is replaced in front of what follows
the segment, or the name is placed in the namespace. -/
theorem Context.name_resolve (c : Context) {s : Text}
    (h : memberParts? (s.before separator) = none) :
    (c.resolve s).name =
      match c.aliases.find? (s.before separator) with
      | some target => target ++ s.dropWhile (· != separator)
      | none => c.qualify s := by
  simp only [resolve, memberTarget?, h]
  cases c.aliases.find? (s.before separator) <;> rfl

/-- **Without an inner member**, an alias is replaced in front of an end of the name, which
is a separator and more, a member, or nothing; or the name is placed in the namespace. -/
theorem Context.resolve_name_cases (c : Context) {s : Text} (h : NoInnerMember s) :
    (∃ e ∈ c.aliases.entries, ∃ rest, s = e.1 ++ rest ∧ (c.resolve s).name = e.2 ++ rest ∧
        ∀ d ∈ rest.head?, d = separator ∨ d = ':') ∨
      (c.resolve s).name = c.qualify s := by
  rcases c.resolve_cases s with
    ⟨owner, member, target, hp, -, ht, hn⟩ | ⟨target, -, ht, hn⟩ | ⟨-, -, hn⟩
  · -- there is a member in the first segment, so there is no other segment
    have hsep : separator ∉ s := fun hsep => by
      rw [memberParts?_eq_none_iff.mpr (h hsep)] at hp
      cases hp
    rw [before_eq_self hsep] at hp
    obtain ⟨hsplit, name, rfl⟩ := memberParts?_eq_some hp
    refine Or.inl ⟨_, Table.mem_entries_of_find? ht, _, hsplit, ?_, fun d hd => ?_⟩
    · rw [hn, Resolution.name, Text.after?_eq_none hsep, Option.getD_none, List.append_nil]
    · cases hd
      exact Or.inr rfl
  · have hsplit : s.before separator ++ s.dropWhile (· != separator) = s :=
      List.takeWhile_append_dropWhile
    refine Or.inl ⟨_, Table.mem_entries_of_find? ht, _, hsplit.symm, by rw [hn]; rfl, ?_⟩
    intro d hd
    have hd' := Text.head?_dropWhile (· != separator) s d hd
    exact Or.inl (by simpa using hd')
  · exact Or.inr (by rw [hn]; rfl)

/-- A name in its namespace ends with the name after a separator. -/
theorem Context.qualify_eq (c : Context) (s : Text) :
    ∃ x, (∀ y ∈ x, y = separator ∨ y ∈ c.namespaceName) ∧ c.qualify s = x ++ separator :: s := by
  unfold qualify
  split
  · exact ⟨[], by simp, rfl⟩
  · exact ⟨separator :: c.namespaceName, by simp, by simp⟩

namespace Scope

variable {σ : Scope}

/-! ### The rules -/

theorem plan_of_array {t e : Text} (hv : isVerbatim (stripPadding t) = false)
    (he : arrayElement? (stripPadding t) = some e) : σ.plan t = (σ.plan e).arrayOf := by
  have hne : stripPadding t ≠ [] := fun h => by rw [h] at he; cases he
  rw [plan, if_neg hne, if_neg (by simp [hv])]
  split
  · next e' he' => rw [he] at he'; cases he'; rfl
  · next hn => rw [he] at hn; cases hn

theorem plan_of_nil {t : Text} (h : stripPadding t = []) : σ.plan t = .settled [] := by
  rw [plan, if_pos h]

theorem plan_of_verbatim {t : Text} (hne : stripPadding t ≠ [])
    (hv : isVerbatim (stripPadding t) = true) : σ.plan t = .settled (stripPadding t) := by
  rw [plan, if_neg hne, if_pos hv]

theorem plan_of_not_array {t : Text} (hne : stripPadding t ≠ [])
    (hv : isVerbatim (stripPadding t) = false) (he : arrayElement? (stripPadding t) = none) :
    σ.plan t = if isRelative (stripPadding t) && !isKeyword (stripPadding t) &&
      !σ.isGeneric (stripPadding t) then σ.reference (stripPadding t)
      else .settled (stripPadding t) := by
  rw [plan, if_neg hne, if_neg (by simp [hv])]
  split
  · next e' he' => rw [he] at he'; cases he'
  · rfl

/-- The padding around a type does not count. -/
theorem plan_stripPadding (t : Text) : σ.plan (stripPadding t) = σ.plan t := by
  have hst := stripPadding_stripPadding t
  by_cases hne : stripPadding t = []
  · rw [plan_of_nil hne, plan_of_nil (by rwa [hst])]
  · cases hv : isVerbatim (stripPadding t) with
    | true => rw [plan_of_verbatim hne hv, plan_of_verbatim (by rwa [hst]) (by rwa [hst]), hst]
    | false =>
      cases he : arrayElement? (stripPadding t) with
      | some e => rw [plan_of_array hv he, plan_of_array (by rwa [hst]) (by rwa [hst])]
      | none =>
        rw [plan_of_not_array hne hv he,
          plan_of_not_array (by rwa [hst]) (by rwa [hst]) (by rwa [hst]), hst]

/-! ### The kinds -/

theorem kind?_stripPadding (t : Text) : σ.kind? (stripPadding t) = σ.kind? t := by
  simp only [kind?, stripPadding_stripPadding]

/-- Without a verbatim form, the kind of a type goes by its suffix and by what its name
means. -/
theorem kind?_of_not_verbatim {t : Text} (hne : stripPadding t ≠ [])
    (hv : isVerbatim (stripPadding t) = false) :
    σ.kind? t = if isArray (stripPadding t) then some .array
      else if isKeyword (stripPadding t) then some .keyword
      else if σ.isGeneric (stripPadding t) then some .template else some .classRef := by
  simp only [isVerbatim, Bool.or_eq_false_iff] at hv
  obtain ⟨⟨⟨hshape, hsignature⟩, hparen⟩, hliteral⟩ := hv
  simp only [kind?, if_neg hne, hshape, hsignature, hparen, hliteral, Bool.false_eq_true,
    or_self, if_false]

/-- A verbatim form is a generic, a callable or a literal. -/
theorem kind?_of_verbatim {t : Text} (hne : stripPadding t ≠ [])
    (hv : isVerbatim (stripPadding t) = true) :
    σ.kind? t = some .generic ∨ σ.kind? t = some .callable ∨ σ.kind? t = some .literal := by
  simp only [isVerbatim, Bool.or_eq_true] at hv
  simp only [kind?, if_neg hne]
  split
  · exact Or.inl rfl
  · next hshape =>
    split
    · exact Or.inr (Or.inl rfl)
    · next hcallable =>
      have hliteral : isLiteral (stripPadding t) = true := by tauto
      rw [if_pos hliteral]
      exact Or.inr (Or.inr rfl)

/-- **The kind of a type tells how it is planned.** -/
theorem plan_of_kind (σ : Scope) (t : Text) :
    match σ.kind? t with
    | none => σ.plan t = .settled []
    | some .array => ∃ x, stripPadding t = x ++ arraySuffix ∧ σ.plan t = (σ.plan x).arrayOf
    | some .classRef =>
      σ.plan t = if isAbsolute (stripPadding t) then .settled (stripPadding t)
        else σ.reference (stripPadding t)
    | some _ => σ.plan t = .settled (stripPadding t) := by
  by_cases hne : stripPadding t = []
  · have hkind : σ.kind? t = none := by simp only [kind?, if_pos hne]
    rw [hkind]
    exact plan_of_nil hne
  · cases hv : isVerbatim (stripPadding t) with
    | true =>
      have hplan := plan_of_verbatim (σ := σ) hne hv
      rcases kind?_of_verbatim (σ := σ) hne hv with hkind | hkind | hkind
      all_goals
        rw [hkind]
        exact hplan
    | false =>
      have hkind := kind?_of_not_verbatim (σ := σ) hne hv
      cases he : arrayElement? (stripPadding t) with
      | some x =>
        rw [hkind, isArray, he]
        exact ⟨x, eq_append_of_arrayElement? he, plan_of_array hv he⟩
      | none =>
        have hplan := plan_of_not_array (σ := σ) hne hv he
        rw [isArray, he] at hkind
        rw [hkind, hplan]
        cases hk : isKeyword (stripPadding t) with
        | true => simp
        | false =>
          cases hg : σ.isGeneric (stripPadding t) with
          | true => simp
          | false => cases ha : isAbsolute (stripPadding t) <;> simp [isRelative, ha, hk]

/-! ### Fixed points -/

/-- A type that has no padding around it and resolves to itself, whatever a
registry answers. -/
structure Stable (σ : Scope) (r : Text) : Prop where
  trimmed : Text.Trimmed isPadding r
  plan_eq : σ.plan r = .settled r

theorem stable_nil : σ.Stable [] :=
  ⟨⟨by simp, by simp⟩, plan_of_nil rfl⟩

theorem stable_of_verbatim {s : Text} (hs : Text.Trimmed isPadding s) (hv : isVerbatim s = true) :
    σ.Stable s := by
  have hst : stripPadding s = s := hs.trim_eq
  have hne : s ≠ [] := by rintro rfl; cases hv
  refine ⟨hs, ?_⟩
  rw [plan_of_verbatim (by rwa [hst]) (by rwa [hst]), hst]

theorem stable_of_not_array {s : Text} (hs : Text.Trimmed isPadding s)
    (he : arrayElement? s = none)
    (h : (isRelative s && !isKeyword s && !σ.isGeneric s) = false) : σ.Stable s := by
  have hst : stripPadding s = s := hs.trim_eq
  by_cases hne : s = []
  · rw [hne]; exact stable_nil
  · cases hv : isVerbatim s with
    | true => exact stable_of_verbatim hs hv
    | false =>
      refine ⟨hs, ?_⟩
      rw [plan_of_not_array (by rwa [hst]) (by rwa [hst]) (by rwa [hst]), hst, h]
      rfl

/-- An array of a fixed point is one. -/
theorem Stable.arrayOf {e : Text} (h : σ.Stable e) : σ.Stable (e ++ arraySuffix) := by
  have ht : Text.Trimmed isPadding (e ++ arraySuffix) := by
    constructor
    · intro c hc
      cases e with
      | nil =>
        obtain rfl : '[' = c := by simpa [arraySuffix] using hc
        rfl
      | cons x e => exact h.trimmed.first c hc
    · intro c hc
      obtain rfl : ']' = c := by simpa [arraySuffix] using hc
      rfl
  have hst : stripPadding (e ++ arraySuffix) = e ++ arraySuffix := ht.trim_eq
  cases hv : isVerbatim (e ++ arraySuffix) with
  | true => exact stable_of_verbatim ht hv
  | false =>
    refine ⟨ht, ?_⟩
    rw [plan_of_array (by rwa [hst]) (by rw [hst]; exact arrayElement?_append e), h.plan_eq]
    rfl

theorem isRelative_of_isAbsolute {s : Text} (h : isAbsolute s = true) : isRelative s = false := by
  have hmem : separator ∈ s := List.mem_of_head? (by simpa [isAbsolute] using h)
  have hk : isKeyword s = false := by
    rw [Bool.eq_false_iff]
    exact fun hk => separator_not_mem_of_isKeyword hk hmem
  simp [isRelative, h, hk]

theorem stable_of_absolute {s : Text} (hs : Text.Trimmed isPadding s) (ha : isAbsolute s = true)
    (he : arrayElement? s = none) : σ.Stable s :=
  stable_of_not_array hs he (by rw [isRelative_of_isAbsolute ha]; rfl)

/-- An absolute name without padding is a fixed point, as are the arrays of it. -/
theorem stable_of_unpadded (s : Text) (ha : isAbsolute s = true)
    (hp : Unpadded s) : σ.Stable s := by
  cases he : arrayElement? s with
  | none => exact stable_of_absolute hp.trimmed ha he
  | some e =>
    have hse := eq_append_of_arrayElement? he
    have hlen : e.length < s.length := by rw [hse]; simp [arraySuffix]
    rw [hse]
    refine (stable_of_unpadded e ?_ fun c hc => hp c (hse ▸ List.mem_append_left _ hc)).arrayOf
    cases e with
    | nil => rw [hse] at ha; cases ha
    | cons x e => rw [hse] at ha; exact ha
termination_by s.length

/-- An absolute name that ends as a type without array suffix does, behind a character
that is neither padding nor a square bracket, is a fixed point. -/
theorem stable_of_append_cons {c : Char} (hc : isPadding c = false) (hopen : c ≠ '[')
    (hclose : c ≠ ']') {x s : Text} (ha : isAbsolute (x ++ c :: s) = true)
    (hl : ∀ d ∈ s.getLast?, isPadding d = false) (he : arrayElement? s = none) :
    σ.Stable (x ++ c :: s) := by
  refine stable_of_absolute ⟨fun d hd => ?_, fun d hd => ?_⟩ ha
    (arrayElement?_append_cons hopen hclose x he)
  · have hsep : some d = some separator := by rw [← hd]; simpa [isAbsolute] using ha
    cases hsep
    rfl
  · rw [List.getLast?_append, List.getLast?_cons] at hd
    cases hlast : s.getLast? with
    | none =>
      rw [hlast] at hd
      obtain rfl : c = d := by simpa using hd
      exact hc
    | some e =>
      rw [hlast] at hd
      obtain rfl : e = d := by simpa using hd
      exact hl e hlast

theorem stable_of_append_separator {x s : Text} (ha : isAbsolute (x ++ separator :: s) = true)
    (hl : ∀ c ∈ s.getLast?, isPadding c = false) (he : arrayElement? s = none) :
    σ.Stable (x ++ separator :: s) :=
  stable_of_append_cons (by decide) (by decide) (by decide) ha hl he

end Scope

/-- Every alias target is absolute and holds no padding. -/
def Context.AbsoluteTargets (c : Context) : Prop :=
  ∀ e ∈ c.aliases.entries, isAbsolute e.2 = true ∧ Unpadded e.2

theorem arrayElement?_of_append {x s : Text} (h : arrayElement? (x ++ s) = none) :
    arrayElement? s = none := by
  cases he : arrayElement? s with
  | none => rfl
  | some e =>
    rw [eq_append_of_arrayElement? he, ← List.append_assoc, arrayElement?_append] at h
    cases h

namespace Scope

variable {σ : Scope}

theorem stable_of_mem_reference (hσ : σ.context.AbsoluteTargets) {s : Text}
    (hs : Text.Trimmed isPadding s) (he : arrayElement? s = none) (hm : NoInnerMember s) :
    ∀ r ∈ (σ.reference s).results, σ.Stable r := by
  intro r hr
  have hr' : r = separator :: s ∨ r = (σ.context.resolve s).name := by
    simpa [reference, Plan.results] using hr
  rcases hr' with rfl | rfl
  · exact stable_of_append_separator (x := []) (by simp [isAbsolute]) hs.last he
  · rcases σ.context.resolve_name_cases hm with ⟨e, hmem, rest, hsplit, hn, hfirst⟩ | hn
    · obtain ⟨ha, hp⟩ := hσ e hmem
      rw [hn]
      cases rest with
      | nil =>
        rw [List.append_nil]
        exact stable_of_unpadded e.2 ha hp
      | cons d u =>
        obtain ⟨hpad, hopen, hclose⟩ : isPadding d = false ∧ d ≠ '[' ∧ d ≠ ']' := by
          rcases hfirst d rfl with rfl | rfl <;> decide
        rw [hsplit] at hs he
        refine stable_of_append_cons hpad hopen hclose (isAbsolute_append ha _)
          (fun c hc => hs.last c ?_) (arrayElement?_of_append (x := e.1 ++ [d]) (by simpa using he))
        simp [List.getLast?_append, List.getLast?_cons, Option.mem_def.mp hc]
    · obtain ⟨x, _, hx⟩ := σ.context.qualify_eq s
      have ha : isAbsolute (σ.context.qualify s) = true := by simp [isAbsolute, Context.qualify]
      rw [hn]
      rw [hx] at ha ⊢
      exact stable_of_append_separator ha hs.last he

/-- **Resolved types are fixed points**: whatever the registry answers, what
comes out resolves to itself. -/
theorem stable_of_mem_plan (hσ : σ.context.AbsoluteTargets) {t : Text} (ht : NoInnerMember t) :
    ∀ r ∈ (σ.plan t).results, σ.Stable r := by
  fun_induction Scope.plan σ t with
  | case1 t s hs => simpa [Plan.results] using stable_nil
  | case2 t s hne hv =>
    have hs : σ.Stable s := stable_of_verbatim (trimmed_stripPadding t) hv
    simpa [Plan.results] using hs
  | case3 t s hne hv e he ih =>
    intro r hr
    obtain ⟨r', hr', rfl⟩ := Plan.mem_results_arrayOf.mp hr
    have hte := ht.stripPadding
    rw [eq_append_of_arrayElement? he] at hte
    exact (ih hte.of_append r' hr').arrayOf
  | case4 t s hne hv he h =>
    exact stable_of_mem_reference hσ (trimmed_stripPadding t) he ht.stripPadding
  | case5 t s hne hv he h =>
    have hs : σ.Stable s :=
      stable_of_not_array (trimmed_stripPadding t) he (Bool.eq_false_iff.mpr h)
    simpa [Plan.results] using hs

/-! ### Results in a union -/

end Scope

theorem closes_stripPadding {depth : Int} {t : Text} :
    Closes depth (stripPadding t) ↔ Closes depth t := by
  obtain ⟨a, b, ht, ha, hb⟩ := Text.exists_eq_trim isPadding t
  have flat : ∀ {u : Text}, (∀ c ∈ u, isPadding c = true) → Flat u := fun hu =>
    ⟨fun c hc => weight_of_isPadding (hu c hc),
      fun hm => ne_unionSign_of_isPadding (hu _ hm) rfl⟩
  have hs : t = a ++ (stripPadding t ++ b) := ht
  conv_rhs => rw [hs]
  rw [closes_append_left (flat ha).not_mem (flat ha).balance_eq,
    closes_append_right (flat hb).not_mem (flat hb).balance_eq]

theorem closes_append_arraySuffix {depth : Int} {e : Text} :
    Closes depth (e ++ arraySuffix) ↔ Closes depth e :=
  closes_append_right (by decide) (by decide)

namespace Scope

variable {σ : Scope}

theorem closes_of_mem_reference (hns : Flat σ.context.namespaceName)
    (hal : ∀ e ∈ σ.context.aliases.entries, Unbracketed e.1 ∧ Flat e.2) {s : Text}
    (hm : NoInnerMember s) (hs : Closes 0 s) : ∀ r ∈ (σ.reference s).results, Closes 0 r := by
  have behind : ∀ x : Text, Flat x → Closes 0 (x ++ separator :: s) := fun x hx => by
    rw [closes_append_left hx.not_mem hx.balance_eq]
    exact (closes_append_left (a := [separator]) (by decide) (by decide)).mpr hs
  intro r hr
  have hr' : r = separator :: s ∨ r = (σ.context.resolve s).name := by
    simpa [reference, Plan.results] using hr
  rcases hr' with rfl | rfl
  · exact behind [] (by decide)
  · rcases σ.context.resolve_name_cases hm with ⟨e, hmem, rest, hsplit, hn, -⟩ | hn
    · obtain ⟨hkey, htarget⟩ := hal e hmem
      -- what follows the alias starts at depth zero
      rw [hsplit] at hs
      have hrest := hs.of_append
      rw [hkey.balance_eq, Int.add_zero] at hrest
      rw [hn]
      exact (closes_append_left htarget.not_mem htarget.balance_eq).mpr hrest
    · rw [hn]
      obtain ⟨x, hx, he⟩ := σ.context.qualify_eq s
      rw [he]
      refine behind x ⟨fun c hc => ?_, fun hm => ?_⟩
      · rcases hx c hc with rfl | hc
        · decide
        · exact hns.unbracketed c hc
      · rcases hx _ hm with hu | hm
        · revert hu
          decide
        · exact hns.not_mem hm

/-- **Resolution keeps a type together in a union**: what comes out has no union
sign at depth zero either, and ends at depth zero. -/
theorem closes_of_mem_results (hns : Flat σ.context.namespaceName)
    (hal : ∀ e ∈ σ.context.aliases.entries, Unbracketed e.1 ∧ Flat e.2) {t : Text}
    (hm : NoInnerMember t) (ht : Closes 0 t) : ∀ r ∈ (σ.plan t).results, Closes 0 r := by
  have strip : ∀ {u : Text}, Closes 0 u → Closes 0 (stripPadding u) := closes_stripPadding.mpr
  fun_induction Scope.plan σ t with
  | case1 t s h0 =>
    have hs : Closes 0 s := strip ht
    rw [h0] at hs
    simpa [Plan.results] using hs
  | case2 t s hne hv => simpa [Plan.results] using strip ht
  | case3 t s hne hv e he ih =>
    intro r hr
    obtain ⟨r', hr', rfl⟩ := Plan.mem_results_arrayOf.mp hr
    have hme := hm.stripPadding
    have hce := strip ht
    rw [eq_append_of_arrayElement? he] at hme hce
    exact closes_append_arraySuffix.mpr
      (ih hme.of_append (closes_append_arraySuffix.mp hce) r' hr')
  | case4 t s hne hv he h => exact closes_of_mem_reference hns hal hm.stripPadding (strip ht)
  | case5 t s hne hv he h => simpa [Plan.results] using strip ht

/-! ### Empty results -/

/-- Only padding resolves to nothing, when no alias stands for nothing. -/
theorem ne_nil_of_mem_results (hal : ∀ e ∈ σ.context.aliases.entries, e.2 ≠ []) {t : Text}
    (ht : stripPadding t ≠ []) : ∀ r ∈ (σ.plan t).results, r ≠ [] := by
  fun_cases Scope.plan σ t with
  | case1 s h0 => exact absurd h0 ht
  | case2 s hne hv => simpa [Plan.results] using ht
  | case3 s hne hv e he =>
    intro r hr
    obtain ⟨r', -, rfl⟩ := Plan.mem_results_arrayOf.mp hr
    simp [arraySuffix]
  | case4 s hne hv he h =>
    intro r hr
    have hr' : r = separator :: s ∨ r = (σ.context.resolve s).name := by
      simpa [reference, Plan.results] using hr
    rcases hr' with rfl | rfl
    · simp
    · rcases σ.context.resolve_cases s with
        ⟨_, _, target, _, _, hf, hn⟩ | ⟨target, _, hf, hn⟩ | ⟨_, _, hn⟩
      · have := hal _ (Table.mem_entries_of_find? hf)
        simp [hn, Resolution.name, this]
      · have := hal _ (Table.mem_entries_of_find? hf)
        simp [hn, Resolution.name, this]
      · simp [hn, Resolution.name, Context.qualify]
  | case5 s hne hv he h => simpa [Plan.results] using ht

end Scope
end DocTypes
