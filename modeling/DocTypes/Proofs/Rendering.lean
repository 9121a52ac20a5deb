/-
# Reading back what is rendered

A collection is rendered as one union of its items. When the items are fixed
points of resolution that can stand in a union, reading this union gives the
same items and asks nothing (`Collection.addText_render`). The items of a
collection that was built from texts are such, where the context gives no
brackets and union signs into the results (`Collection.render_readBack`).

Key theorems: `Collection.addText_render`, `Collection.render_readBack`.
-/
import DocTypes.Proofs.Collection

namespace DocTypes
namespace Collection

/-- Alternatives that are fixed points are appended as they are, without a
question. -/
theorem addText_of_stable {c : Collection} {t : Text}
    (h : ∀ a ∈ alternatives t, c.expander.scope.Stable a) :
    c.addText t =
      (.ok (), ⟨c.expander, c.items ++ (alternatives t).filter fun a => !a.isEmpty⟩) := by
  rw [addText, Expander.expandAll_of_settled fun a ha => (h a ha).plan_eq]

/-- Reading a rendered collection gives its items, when they are fixed points that
can stand in a union. -/
theorem addText_render {c d : Collection} (hne : ∀ item ∈ d.items, item ≠ [])
    (hcl : ∀ item ∈ d.items, Closes 0 item)
    (hst : ∀ item ∈ d.items, c.expander.scope.Stable item) :
    c.addText d.render = (.ok (), ⟨c.expander, c.items ++ d.items⟩) := by
  rw [render]
  by_cases hd : d.items = []
  · rw [hd, addText_of_stable (by simpa [Text.join, alternatives, alternativesFrom] using
      Scope.stable_nil)]
    rfl
  · have hall : ∀ item ∈ d.items, (!item.isEmpty) = true := fun item hi => by
      simpa using hne item hi
    rw [addText_of_stable (by rwa [alternatives_join_of_closes hd hcl]),
      alternatives_join_of_closes hd hcl, List.filter_eq_self.mpr hall]

/-- **Rendering a collection and reading it back loses nothing.** The context has
no brackets and union signs in its namespace and alias targets and no brackets in
its aliases, and the targets are absolute and hold no padding; every text holds as
many openers as closers, and none of its alternatives has a `::` before its first
separator. If a collection is built from such texts, then from its rendering the
same items are built, in whatever state `registry'` the registry is by then, and
the registry is not asked: the session is the one at the start. -/
theorem render_readBack {context : Context} (hns : Flat context.namespaceName)
    (hal : ∀ e ∈ context.aliases.entries, Unbracketed e.1 ∧ Flat e.2 ∧
      isAbsolute e.2 = true ∧ Unpadded e.2)
    {types : List Text}
    (htypes : ∀ t ∈ types, balance t = 0 ∧ ∀ a ∈ alternatives t, NoInnerMember a)
    {generics : List Text} {registry : Registry} {failOpen cacheAnswers : Bool} {c : Collection}
    (hc : (create context generics registry failOpen cacheAnswers).addElements
      (.list (types.map .text)) = (.ok (), c)) (registry' : Registry) :
    let again := create context generics registry' failOpen cacheAnswers
    again.addElements (.list [.text c.render]) = (.ok (), ⟨again.expander, c.items⟩) := by
  intro again
  have htargets : context.AbsoluteTargets := fun e he => (hal e he).2.2
  have hflat : ∀ e ∈ context.aliases.entries, Unbracketed e.1 ∧ Flat e.2 := fun e he =>
    ⟨(hal e he).1, (hal e he).2.1⟩
  -- the items are results of alternatives of the texts
  have hitems : ∀ item ∈ c.items, item ≠ [] ∧ ∃ a, Closes 0 a ∧ NoInnerMember a ∧
      item ∈ (again.expander.scope.plan a).results := by
    have hrun := addAll_texts types (create context generics registry failOpen cacheAnswers)
    rw [show (create context generics registry failOpen cacheAnswers).addAll (types.map .text) =
      (.ok (), c) from hc] at hrun
    split at hrun
    · obtain ⟨items, hrun⟩ := hrun
      cases hrun
    · next rs e he =>
      cases hrun
      intro item hitem
      obtain ⟨hr, hne⟩ : item ∈ rs ∧ item ≠ [] := by simpa [create] using hitem
      obtain ⟨a, ha, hres⟩ := (Expander.expands_of_expandAll he).mem_results item hr
      obtain ⟨t, ht, hat⟩ := List.mem_flatMap.mp ha
      exact ⟨hne, a, closes_of_mem_alternatives (htypes t ht).1 hat,
        (htypes t ht).2 a hat, hres⟩
  have hread : again.addText c.render = (.ok (), ⟨again.expander, again.items ++ c.items⟩) := by
    refine addText_render (fun item hi => (hitems item hi).1) (fun item hi => ?_) fun item hi => ?_
    · obtain ⟨-, a, hcl, hm, hres⟩ := hitems item hi
      exact Scope.closes_of_mem_results (σ := again.expander.scope) hns hflat hm hcl item hres
    · obtain ⟨-, a, -, hm, hres⟩ := hitems item hi
      exact Scope.stable_of_mem_plan (σ := again.expander.scope) htargets hm item hres
  simp only [addElements, Value.elements?, addAll, add, hread]
  rfl

/-- Texts with padding, an alias, a member of it, a union inside brackets and one behind a bracket
too many. -/
def paddedTexts : List Text :=
  [" M\\User[] |array<K|V>|T|M::ALL".toList, "DateTime|Foo [] [],x)|(".toList]

theorem render_readBack_paddedTexts :
    let start := create shopContext [] (.ofNames ["DateTime".toList] false) true true
    ∃ c, start.addElements (.list (paddedTexts.map .text)) = (.ok (), c) ∧
      c.items = ["\\Lib\\Models\\User[]", "array<K|V>", "T", "\\Lib\\Models::ALL", "\\DateTime",
        "\\Shop\\Foo [] [],x)|("].map String.toList ∧
      start.addElements (.list [.text c.render]) = (.ok (), ⟨start.expander, c.items⟩) := by
  intro start
  have hns : Flat shopContext.namespaceName := by decide +kernel
  have hal : ∀ e ∈ shopContext.aliases.entries, Unbracketed e.1 ∧ Flat e.2 ∧
      isAbsolute e.2 = true ∧ Unpadded e.2 := by decide +kernel
  have htypes : ∀ t ∈ paddedTexts, balance t = 0 ∧ ∀ a ∈ alternatives t, NoInnerMember a := by
    decide +kernel
  have hc : start.addElements (.list (paddedTexts.map .text)) =
      (.ok (), (start.addElements (.list (paddedTexts.map .text))).2) :=
    Prod.ext (by decide +kernel) rfl
  exact ⟨_, hc, by decide +kernel, render_readBack hns hal htypes hc _⟩

end Collection
end DocTypes
