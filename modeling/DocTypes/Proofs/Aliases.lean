/-
# What an alias changes

A class name is looked up among the aliases by its first segment, and by the part of that
in front of a member (`Context.resolve_congr`), and a type by the class name that is left
when the array suffixes behind it are dropped (`bareType`). So a type that an alias does
not stand in front of (`HeadedBy`) does not see the alias: with it and without it, the
type comes out the same and the registry is asked the same names
(`Expander.expand_of_not_headedBy`), and so do all types of a run
(`Expander.run_withAlias`). The alias may be any text, and may replace another one.

It does change a name whose first segment it is, if the name is resolved at all
(`NestedName.expand_withAlias`).

Key definitions: `bareType`, `HeadedBy`, `Expander.withAlias`.
Key theorems: `Context.resolve_congr`, `Scope.plan_congr`, `Expander.expand_of_not_headedBy`,
`Expander.run_withAlias`, `NestedName.expand_withAlias`.
-/
import DocTypes.Proofs.Calls
import DocTypes.Proofs.Members

namespace DocTypes

/-! ### What a type begins with -/

/-- A type without the padding around it and the array suffixes behind it, in front of
which there may be padding too. -/
def bareType (t : Text) : Text :=
  match _h : arrayElement? (stripPadding t) with
  | some x => bareType x
  | none => stripPadding t
termination_by t.length
decreasing_by exact Scope.length_lt_of_arrayElement? ‹_›

/-- The part of a segment before its first `::`, the whole segment without one. -/
def beforeMember (segment : Text) : Text := (memberParts? segment).elim segment (·.1)

/-- The name stands in front of the type: it is the first segment of what is left without
the suffixes, or the part of this segment in front of a member. -/
def HeadedBy (name t : Text) : Prop :=
  let segment := (bareType t).before separator
  segment = name ∨ beforeMember segment = name

instance (name t : Text) : Decidable (HeadedBy name t) := inferInstanceAs (Decidable (_ ∨ _))

/-! ### Look-ups -/

namespace Context

variable {c d : Context} {s : Text}

/-- **Two look-ups tell how a class name resolves** in a given namespace. -/
theorem resolve_congr (hnamespace : d.namespaceName = c.namespaceName)
    (hsegment : d.aliases.find? (s.before separator) = c.aliases.find? (s.before separator))
    (howner : d.aliases.find? (beforeMember (s.before separator)) =
      c.aliases.find? (beforeMember (s.before separator))) :
    d.resolve s = c.resolve s := by
  have hmember : d.memberTarget? (s.before separator) = c.memberTarget? (s.before separator) := by
    unfold beforeMember at howner
    unfold memberTarget?
    cases hp : memberParts? (s.before separator) with
    | none => rfl
    | some parts =>
      rw [hp] at howner
      simp only [Option.elim_some] at howner
      simp only [howner]
  simp only [resolve, qualify, hmember, hsegment, hnamespace]

theorem find?_withAlias {name other : Text} (h : other ≠ name) (target : Text) :
    (c.withAlias name target).aliases.find? other = c.aliases.find? other := by
  rw [withAlias, Table.find?_put, if_neg h.symm]

theorem resolve_withAlias {name : Text} (hsegment : s.before separator ≠ name)
    (howner : beforeMember (s.before separator) ≠ name) (target : Text) :
    (c.withAlias name target).resolve s = c.resolve s := by
  have hnamespace : (c.withAlias name target).namespaceName = c.namespaceName := rfl
  apply resolve_congr hnamespace
  · exact find?_withAlias hsegment target
  · exact find?_withAlias howner target

end Context

namespace Scope

variable {σ τ : Scope}

/-- **The plan for a type depends on the context only by what its class name resolves to.** -/
theorem plan_congr (hgenerics : τ.generics = σ.generics) {t : Text}
    (h : τ.context.resolve (bareType t) = σ.context.resolve (bareType t)) :
    τ.plan t = σ.plan t := by
  fun_induction bareType t with
  | case1 t x hx ih =>
    have hne : stripPadding t ≠ [] := fun hnil => by
      rw [hnil] at hx
      cases hx
    -- a form that is kept as it is written keeps its suffixes, and nothing is looked up
    cases hv : isVerbatim (stripPadding t) with
    | true => rw [plan_of_verbatim hne hv, plan_of_verbatim hne hv]
    | false => rw [plan_of_array hv hx, plan_of_array hv hx, ih h]
  | case2 t hx =>
    have hreference : τ.reference (stripPadding t) = σ.reference (stripPadding t) := by
      rw [reference, reference, h]
    have hgeneric : τ.isGeneric (stripPadding t) = σ.isGeneric (stripPadding t) := by
      rw [isGeneric, isGeneric, hgenerics]
    by_cases hne : stripPadding t = []
    · rw [plan_of_nil hne, plan_of_nil hne]
    cases hv : isVerbatim (stripPadding t) with
    | true => rw [plan_of_verbatim hne hv, plan_of_verbatim hne hv]
    | false =>
      rw [plan_of_not_array hne hv hx, plan_of_not_array hne hv hx, hgeneric, hreference]

end Scope

/-! ### One more alias -/

namespace Expander

/-- The expander with one more alias in its context, or with another target for it. -/
def withAlias (e : Expander) (name target : Text) : Expander :=
  { e with scope := { e.scope with context := e.scope.context.withAlias name target } }

variable (e : Expander) (name target : Text)

/-- A type is planned as without an alias that it does not begin with. -/
theorem plan_withAlias {t : Text} (h : ¬ HeadedBy name t) :
    (e.withAlias name target).scope.plan t = e.scope.plan t := by
  obtain ⟨hsegment, howner⟩ := not_or.mp h
  have hgenerics : (e.withAlias name target).scope.generics = e.scope.generics := rfl
  apply Scope.plan_congr hgenerics
  exact Context.resolve_withAlias hsegment howner target

theorem expand_withAlias {t : Text} (h : ¬ HeadedBy name t) :
    (e.withAlias name target).expand t =
      ((e.expand t).1, (e.expand t).2.withAlias name target) := by
  rw [expand, e.plan_withAlias name target h]
  rfl

theorem call_withAlias {c : Call} (h : ∀ t, c = .expand t → ¬ HeadedBy name t) :
    (e.withAlias name target).call c = ((e.call c).1, (e.call c).2.withAlias name target) := by
  cases c with
  | expand t =>
    simp only [call, e.expand_withAlias name target (h t rfl)]
  | ask other => rfl
  | clear => rfl

/-- **A run does not see an alias** that none of its types begins with: every call answers
the same, and what is left is the same but for the alias. -/
theorem run_withAlias {cs : List Call} (h : ∀ t, .expand t ∈ cs → ¬ HeadedBy name t) :
    (e.withAlias name target).run cs = ((e.run cs).1, (e.run cs).2.withAlias name target) := by
  induction cs generalizing e with
  | nil => rfl
  | cons c cs ih =>
    have hc := e.call_withAlias name target (c := c) fun t ht => h t (ht ▸ List.mem_cons_self)
    have hcs := ih (e.call c).2 fun t ht => h t (List.mem_cons_of_mem c ht)
    simp only [run, hc, hcs]

/-- **An alias changes nothing for a type that it does not stand in front of.** With it and
without it, the type resolves to the same result or fails with the same fault, and leaves
the same session: the registry has been asked the same names in the same order, has
answered the same and is in the same state, and the same has been noted. -/
theorem expand_of_not_headedBy (context : Context) (generics : Option (List Text))
    (registry : Registry) (failOpen cacheAnswers : Bool) {t : Text} (h : ¬ HeadedBy name t) :
    let plain := create context generics registry failOpen cacheAnswers
    let aliased := create (context.withAlias name target) generics registry failOpen cacheAnswers
    (aliased.expand t).1 = (plain.expand t).1 ∧
      (aliased.expand t).2.session = (plain.expand t).2.session := by
  intro plain aliased
  have haliased : aliased = plain.withAlias name target := rfl
  rw [haliased, plain.expand_withAlias name target h]
  exact ⟨rfl, rfl⟩

/-- An alias of the same name as the member of another one. -/
theorem expand_of_not_headedBy_member :
    let t := " State::OPEN [] []".toList
    let r := "\\Lib\\Enums\\State::OPEN[][]".toList
    let registry := Registry.ofNames ["DateTime".toList] false
    let plain := create stateContext none registry true true
    let aliased := create (stateContext.withAlias "OPEN".toList "\\Lib\\Open".toList) none
      registry true true
    ¬ HeadedBy "OPEN".toList t ∧ (plain.expand t).1 = .ok r ∧ (aliased.expand t).1 = .ok r ∧
      (aliased.expand t).2.session = (plain.expand t).2.session := by
  intro t r registry plain aliased
  have h : ¬ HeadedBy "OPEN".toList t := by decide +kernel
  have hplain : (plain.expand t).1 = .ok r := by decide +kernel
  obtain ⟨hresult, hsession⟩ := expand_of_not_headedBy "OPEN".toList "\\Lib\\Open".toList
    stateContext none registry true true h
  exact ⟨h, hplain, hresult.trans hplain, hsession⟩

end Expander

/-- **An alias replaces the first segment** of a nested name that it stands in front of,
when the name is neither reserved nor known to the registry. -/
theorem NestedName.expand_withAlias (n : NestedName) {first : Text} {inner : List Text}
    (hs : n.segments = first :: inner) {e : Expander} (hk : isKeyword n.text = false)
    (hg : e.scope.isGeneric n.text = false)
    (hr : (e.session.registry.knows n.text).1 = .ok false) (target : Text) :
    ((e.withAlias first target).expand n.text).1 =
      .ok (target ++ if inner = [] then [] else rootedName inner) := by
  have hfind : (e.withAlias first target).scope.context.aliases.find? first = some target := by
    show (e.scope.context.aliases.put first target).find? first = some target
    rw [Table.find?_put, if_pos rfl]
  have hplan : (e.withAlias first target).scope.plan n.text =
      (e.withAlias first target).scope.reference n.text := n.plan_eq hk hg
  have hexpand : ((e.withAlias first target).expand n.text).1 =
      .ok ((e.withAlias first target).scope.context.resolve n.text).name := by
    rw [Expander.expand, hplan]
    exact Session.carryOut_ask_of_knows hr _ _ _
  rw [hexpand, n.name_resolve _ hs, hfind]

end DocTypes
