/-
# Resolving types in turn

Resolving a list of types asks the registry on the way, so every result depends
on what was asked before. `Expands` relates a list of types to its results,
step by step; `Expander.expandAll` is this relation, where it succeeds
(`Expander.expands_of_expandAll`), and otherwise it stops at a type that cannot
be resolved (`Expander.exists_of_expandAll_error`). Nothing fails while failures
count as unknown names, and a type whose plan is settled asks nothing. What a type
resolves to is such a type (`Expander.expand_again`).

Key definitions: `Expands`, `hasContent`.
Key theorems: `Expander.expand_again`, `Expander.expandAll_append`,
`Expander.expands_of_expandAll`, `Expander.exists_of_expandAll_error`,
`Expands.filter_hasContent`.
-/
import DocTypes.Proofs.Plan
import DocTypes.Session

namespace DocTypes

/-! ### One type -/

namespace Session

/-- The three ways in which a question ends: with an answer, or with a failure
that counts as unknown or is handed on. -/
theorem ask_cases (s : Session) (name : Text) :
    (∃ known r, s.registry.knows name = (.ok known, r) ∧
        s.ask name = (.ok known, ⟨r, s.failOpen, s.trace ++ [.asked name]⟩)) ∨
      (∃ fault r, s.registry.knows name = (.error fault, r) ∧ s.failOpen = true ∧
        s.ask name =
          (.ok false, ⟨r, s.failOpen, s.trace ++ [.asked name] ++ [.probeFailed name fault]⟩)) ∨
      (∃ fault r, s.registry.knows name = (.error fault, r) ∧ s.failOpen = false ∧
        s.ask name = (.error fault, ⟨r, s.failOpen, s.trace ++ [.asked name]⟩)) := by
  unfold ask
  cases hk : s.registry.knows name with
  | mk answer r =>
    cases answer with
    | ok known => exact Or.inl ⟨known, r, rfl, rfl⟩
    | error fault =>
      cases hf : s.failOpen with
      | true => exact Or.inr (Or.inl ⟨fault, r, rfl, rfl, rfl⟩)
      | false => exact Or.inr (Or.inr ⟨fault, r, rfl, rfl, rfl⟩)

theorem failOpen_ask (s : Session) (name : Text) : (s.ask name).2.failOpen = s.failOpen := by
  rcases s.ask_cases name with ⟨_, _, _, h⟩ | ⟨_, _, _, _, h⟩ | ⟨_, _, _, _, h⟩ <;> rw [h]

theorem failOpen_carryOut (s : Session) (p : Plan) : (s.carryOut p).2.failOpen = s.failOpen := by
  cases p with
  | settled r => rfl
  | ask name known unknown note =>
    have hf := s.failOpen_ask name
    rw [carryOut]
    split <;> next h => rw [h] at hf; exact hf

/-- A plan fails only when the registry fails for its name, and failures do not
count as unknown. -/
theorem exists_of_carryOut_error {s s' : Session} {p : Plan} {fault : Fault}
    (h : s.carryOut p = (.error fault, s')) :
    s.failOpen = false ∧ ∃ name known unknown note, p = .ask name known unknown note ∧
      (s.registry.knows name).1 = .error fault := by
  cases p with
  | settled r => cases h
  | ask name known unknown note =>
    rw [carryOut] at h
    rcases s.ask_cases name with ⟨known', _, _, ha⟩ | ⟨_, _, _, _, ha⟩ | ⟨fault', r, hk, hf, ha⟩
    · rw [ha] at h
      cases known' <;> cases h
    · rw [ha] at h
      cases h
    · rw [ha] at h
      cases h
      exact ⟨hf, name, known, unknown, note, rfl, by rw [hk]⟩

/-- Carrying out a plan ends with one of its results. -/
theorem mem_results_of_carryOut {s s' : Session} {p : Plan} {r : Text}
    (h : s.carryOut p = (.ok r, s')) : r ∈ p.results := by
  cases p with
  | settled r' =>
    cases h
    exact List.mem_singleton_self r
  | ask name known unknown note =>
    rw [carryOut] at h
    split at h <;> cases h <;> simp [Plan.results]

end Session

namespace Expander

theorem scope_expand (e : Expander) (t : Text) : (e.expand t).2.scope = e.scope := rfl

theorem failOpen_expand (e : Expander) (t : Text) :
    (e.expand t).2.session.failOpen = e.session.failOpen :=
  e.session.failOpen_carryOut (e.scope.plan t)

theorem scope_of_expand {e e' : Expander} {t r : Text} (h : e.expand t = (.ok r, e')) :
    e'.scope = e.scope := by
  rw [← e.scope_expand t, h]

theorem exists_of_expand_error {e e' : Expander} {t : Text} {fault : Fault}
    (h : e.expand t = (.error fault, e')) :
    e.session.failOpen = false ∧ ∃ name known unknown note,
      e.scope.plan t = .ask name known unknown note ∧
      (e.session.registry.knows name).1 = .error fault := by
  obtain ⟨hr, -⟩ := Prod.mk.inj h
  exact Session.exists_of_carryOut_error (Prod.ext hr rfl)

theorem mem_results_of_expand {e e' : Expander} {t r : Text} (h : e.expand t = (.ok r, e')) :
    r ∈ (e.scope.plan t).results := by
  obtain ⟨hr, -⟩ := Prod.mk.inj h
  exact Session.mem_results_of_carryOut (Prod.ext hr rfl)

/-- A settled plan changes nothing and asks nothing. -/
theorem expand_of_plan_eq {e : Expander} {t r : Text} (h : e.scope.plan t = .settled r) :
    e.expand t = (.ok r, e) := by
  unfold expand
  rw [h]
  rfl

/-- **What a type resolves to resolves to itself**, without a question: in a context with
absolute alias targets that hold no padding, for a type without a `::` before its first
separator. This holds of the expander that is left as of every other one of the scope,
whatever its registry would answer by then. -/
theorem expand_again {e e' : Expander} (hal : e.scope.context.AbsoluteTargets) {t r : Text}
    (ht : NoInnerMember t) (h : e.expand t = (.ok r, e')) :
    e'.expand r = (.ok r, e') ∧
      ∀ other : Expander, other.scope = e.scope → other.expand r = (.ok r, other) := by
  have hstable : e.scope.Stable r := Scope.stable_of_mem_plan hal ht r (mem_results_of_expand h)
  have hother : ∀ other : Expander, other.scope = e.scope → other.expand r = (.ok r, other) := by
    intro other hs
    apply expand_of_plan_eq
    rw [hs]
    exact hstable.plan_eq
  exact ⟨hother e' (scope_of_expand h), hother⟩

/-- A context with an alias for a class. -/
def orderContext : Context :=
  ⟨"Orders".toList, .ofList [("Line".toList, "\\Lib\\OrderLine".toList)], ["T".toList]⟩

/-- Arrays of a member of the aliased class, with padding between the suffixes. -/
theorem expand_again_orderLine :
    let e := create orderContext none (.ofNames ["DateTime".toList] false) true true
    let t := " Line::ALL [] []".toList
    let r := "\\Lib\\OrderLine::ALL[][]".toList
    e.scope.context.AbsoluteTargets ∧ NoInnerMember t ∧ e.expand t = (.ok r, (e.expand t).2) ∧
      (e.expand t).2.expand r = (.ok r, (e.expand t).2) := by
  intro e t r
  have hal : e.scope.context.AbsoluteTargets := by
    show ∀ a ∈ orderContext.aliases.entries, isAbsolute a.2 = true ∧ Unpadded a.2
    decide +kernel
  have ht : NoInnerMember t := by decide +kernel
  have h : e.expand t = (.ok r, (e.expand t).2) := Prod.ext (by decide +kernel) rfl
  exact ⟨hal, ht, h, (expand_again hal ht h).1⟩

end Expander

/-! ### Several types -/

/-- From `e`, the types resolve in turn to the results, and leave the last
expander. -/
inductive Expands : (e : Expander) → (types results : List Text) → (e' : Expander) → Prop
  | nil (e : Expander) : Expands e [] [] e
  | cons {e e₁ e₂ : Expander} {t r : Text} {ts rs : List Text} :
      e.expand t = (.ok r, e₁) → Expands e₁ ts rs e₂ → Expands e (t :: ts) (r :: rs) e₂

theorem Expands.scope_eq {e e' : Expander} {ts rs : List Text} (h : Expands e ts rs e') :
    e'.scope = e.scope := by
  induction h with
  | nil e => rfl
  | cons h _ ih => rw [ih, Expander.scope_of_expand h]

theorem Expands.failOpen_eq {e e' : Expander} {ts rs : List Text} (h : Expands e ts rs e') :
    e'.session.failOpen = e.session.failOpen := by
  induction h with
  | nil e => rfl
  | @cons e e₁ e₂ t r ts rs h _ ih => rw [ih, ← e.failOpen_expand t, h]

namespace Expander

theorem expands_of_expandAll : ∀ {ts rs : List Text} {e e' : Expander},
    e.expandAll ts = (.ok rs, e') → Expands e ts rs e'
  | [], rs, e, e', h => by
    cases h
    exact .nil e
  | t :: ts, rs, e, e', h => by
    unfold expandAll at h
    split at h
    · cases h
    · next r e₁ h1 =>
      split at h
      · cases h
      · next rs' e₂ h2 =>
        cases h
        exact .cons h1 (expands_of_expandAll h2)

/-- A list of types fails at one of them, after those before it have resolved. -/
theorem exists_of_expandAll_error : ∀ {ts : List Text} {e e' : Expander} {fault : Fault},
    e.expandAll ts = (.error fault, e') →
    ∃ done t rest rs e₁, ts = done ++ t :: rest ∧ Expands e done rs e₁ ∧
      e₁.expand t = (.error fault, e')
  | [], e, e', fault, h => by cases h
  | t :: ts, e, e', fault, h => by
    unfold expandAll at h
    split at h
    · next h1 =>
      cases h
      exact ⟨[], t, ts, [], e, rfl, .nil e, h1⟩
    · next r e₁ h1 =>
      split at h
      · next h2 =>
        cases h
        obtain ⟨done, u, rest, rs, e₂, hts, hd, hu⟩ := exists_of_expandAll_error h2
        exact ⟨t :: done, u, rest, r :: rs, e₂, by rw [hts]; rfl, .cons h1 hd, hu⟩
      · cases h

/-- What one type keeps, types in turn keep, also up to one that fails. -/
theorem expandAll_induction {P : Expander → Prop}
    (step : ∀ (e : Expander) (t : Text), P e → P (e.expand t).2) :
    ∀ (ts : List Text) {e : Expander}, P e → P (e.expandAll ts).2
  | [], _, h => h
  | t :: ts, e, h => by
    have h1 := step e t h
    unfold expandAll
    split
    · next he => rw [he] at h1; exact h1
    · next he =>
      rw [he] at h1
      have h2 := expandAll_induction step ts h1
      split <;> next he' => rw [he'] at h2; exact h2

theorem scope_expandAll (e : Expander) (ts : List Text) : (e.expandAll ts).2.scope = e.scope :=
  expandAll_induction (P := fun e' => e'.scope = e.scope) (fun _ _ h => h) ts rfl

/-- Resolving goes on behind the first types with what they leave, unless one of
them fails. -/
theorem expandAll_append : ∀ (ts us : List Text) (e : Expander),
    e.expandAll (ts ++ us) =
      match e.expandAll ts with
      | (.error fault, e₁) => (.error fault, e₁)
      | (.ok rs, e₁) =>
        match e₁.expandAll us with
        | (.error fault, e₂) => (.error fault, e₂)
        | (.ok ss, e₂) => (.ok (rs ++ ss), e₂)
  | [], us, e => by
    simp only [List.nil_append, expandAll]
    split <;> next h => rw [h]
  | t :: ts, us, e => by
    rw [List.cons_append, expandAll, expandAll]
    split
    · rfl
    · next r e₁ h1 =>
      rw [expandAll_append ts us e₁]
      cases e₁.expandAll ts with
      | mk outcome e₂ =>
        cases outcome with
        | error fault => rfl
        | ok rs =>
          simp only
          cases e₂.expandAll us with
          | mk outcome e₃ => cases outcome <;> rfl

/-- Types whose plans are settled resolve without a question. -/
theorem expandAll_of_settled : ∀ {ts : List Text} {e : Expander},
    (∀ t ∈ ts, e.scope.plan t = .settled t) → e.expandAll ts = (.ok ts, e)
  | [], _, _ => rfl
  | t :: ts, e, h => by
    rw [List.forall_mem_cons] at h
    rw [expandAll, expand_of_plan_eq h.1]
    simp only [expandAll_of_settled h.2]

end Expander

/-- Every result is one of the plan for its type. -/
theorem Expands.mem_results {e e' : Expander} {ts rs : List Text} (h : Expands e ts rs e') :
    ∀ r ∈ rs, ∃ t ∈ ts, r ∈ (e.scope.plan t).results := by
  induction h with
  | nil e => simp
  | @cons e e₁ e₂ t r ts rs h _ ih =>
    rw [Expander.scope_of_expand h] at ih
    intro x hx
    rcases List.mem_cons.mp hx with rfl | hx
    · exact ⟨t, List.mem_cons_self, Expander.mem_results_of_expand h⟩
    · obtain ⟨u, hu, hxu⟩ := ih x hx
      exact ⟨u, List.mem_cons_of_mem _ hu, hxu⟩

/-! ### Blank types -/

/-- Whether a type is more than padding. -/
def hasContent (t : Text) : Bool := t.any fun c => !isPadding c

theorem hasContent_iff {t : Text} : hasContent t = true ↔ stripPadding t ≠ [] := by
  rw [hasContent, stripPadding, Ne, Text.trim_eq_nil_iff]
  simp

/-- **Blank types resolve to nothing and the others to something**, when no alias
stands for nothing: without the blank types, the results are those that are not
empty. -/
theorem Expands.filter_hasContent {e e' : Expander} {ts rs : List Text} (h : Expands e ts rs e')
    (hal : ∀ a ∈ e.scope.context.aliases.entries, a.2 ≠ []) :
    Expands e (ts.filter hasContent) (rs.filter fun r => !r.isEmpty) e' := by
  induction h with
  | nil e => exact .nil e
  | @cons e e₁ e₂ t r ts rs h _ ih =>
    have ih := ih (by rwa [Expander.scope_of_expand h])
    cases hc : hasContent t with
    | true =>
      have hr : r ≠ [] := Scope.ne_nil_of_mem_results hal (hasContent_iff.mp hc) r
        (Expander.mem_results_of_expand h)
      rw [List.filter_cons_of_pos hc, List.filter_cons_of_pos (by simpa using hr)]
      exact .cons h ih
    | false =>
      have ht : stripPadding t = [] := by
        by_contra hne
        rw [hasContent_iff.mpr hne] at hc
        cases hc
      rw [Expander.expand_of_plan_eq (Scope.plan_of_nil ht)] at h
      cases h
      rw [List.filter_cons_of_neg (by simp [hc]), List.filter_cons_of_neg (by simp)]
      exact ih

/-- Types that are more than padding have results that are not empty. -/
theorem Expands.ne_nil {e e' : Expander} {ts rs : List Text} (h : Expands e ts rs e')
    (hal : ∀ a ∈ e.scope.context.aliases.entries, a.2 ≠ [])
    (hts : ∀ t ∈ ts, stripPadding t ≠ []) : ∀ r ∈ rs, r ≠ [] := by
  induction h with
  | nil e => simp
  | @cons e e₁ e₂ t r ts rs h _ ih =>
    rw [List.forall_mem_cons] at hts ⊢
    exact ⟨Scope.ne_nil_of_mem_results hal hts.1 r (Expander.mem_results_of_expand h),
      ih (by rwa [Expander.scope_of_expand h]) hts.2⟩

end DocTypes
