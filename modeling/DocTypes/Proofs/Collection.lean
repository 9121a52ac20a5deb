/-
# Adding to a collection

A call of `add` does one of three things (`Collection.AddStep`): it refuses a
value that is no text, it is refused by a registry that fails at one of the
alternatives, or it appends the results of the alternatives that are more than
padding. Only the last changes the items (`Collection.add_step`), and so the
items only grow along a run of calls (`Collection.afterAdding`), whatever is
refused in between.

Adding several texts in turn resolves all their alternatives in turn
(`Collection.addAll_texts`), so it makes no difference whether they come one by
one or joined to one union.

Key definitions: `Collection.AddStep`, `Collection.afterAdding`.
Key theorems: `Collection.add_step`, `Collection.add_all_or_nothing`,
`Collection.addAll_texts`, `Collection.addElements_join`.
-/
import DocTypes.Collection
import DocTypes.Proofs.Expander

namespace DocTypes
namespace Collection

/-! ### One call -/

/-- What a call of `add` does: the value, the outcome, the collection after it. -/
inductive AddStep (c : Collection) : Value → Except Refusal Unit → Collection → Prop
  /-- A value that is no text is refused and changes nothing. -/
  | notAType {v : Value} (h : ∀ t, v ≠ .text t) : AddStep c v (.error (.notAType v)) c
  /-- The alternatives before some `a` resolve, but for the name that `a` asks
  about the registry fails. The items stay, the registry has been asked. -/
  | failed {t a name known unknown : Text} {note : Event} {fault : Fault}
      {done rest rs : List Text} {e : Expander} :
      c.expander.session.failOpen = false → alternatives t = done ++ a :: rest →
      Expands c.expander done rs e → e.scope.plan a = .ask name known unknown note →
      (e.session.registry.knows name).1 = .error fault →
      AddStep c (.text t) (.error (.failed fault)) ⟨(e.expand a).2, c.items⟩
  /-- The alternatives that are more than padding resolve, and their results are
  appended. -/
  | added {t : Text} {new : List Text} {e : Expander} :
      Expands c.expander ((alternatives t).filter hasContent) new e →
      AddStep c (.text t) (.ok ()) ⟨e, c.items ++ new⟩

/-- **Every call is one of the three**, when no alias stands for nothing. -/
theorem add_step {c : Collection}
    (hal : ∀ a ∈ c.expander.scope.context.aliases.entries, a.2 ≠ []) (v : Value) :
    AddStep c v (c.add v).1 (c.add v).2 := by
  unfold add
  split
  · next t =>
    unfold addText
    split
    · next fault e h =>
      obtain ⟨done, a, rest, rs, e₁, hts, hd, ha⟩ := Expander.exists_of_expandAll_error h
      obtain ⟨hf, name, known, unknown, note, hp, hk⟩ := Expander.exists_of_expand_error ha
      rw [hd.failOpen_eq] at hf
      have he : e = (e₁.expand a).2 := by rw [ha]
      rw [he]
      exact .failed hf hts hd hp hk
    · next results e h => exact .added ((Expander.expands_of_expandAll h).filter_hasContent hal)
  · next v hv => exact .notAType hv

variable {c c' : Collection} {v : Value} {outcome : Except Refusal Unit}

theorem AddStep.scope_eq (h : AddStep c v outcome c') : c'.expander.scope = c.expander.scope := by
  cases h with
  | notAType => rfl
  | failed _ _ hd _ _ => exact (Expander.scope_expand _ _).trans hd.scope_eq
  | added h => exact h.scope_eq

theorem AddStep.failOpen_eq (h : AddStep c v outcome c') :
    c'.expander.session.failOpen = c.expander.session.failOpen := by
  cases h with
  | notAType => rfl
  | failed _ _ hd _ _ => exact (Expander.failOpen_expand _ _).trans hd.failOpen_eq
  | added h => exact h.failOpen_eq

theorem AddStep.items_eq_of_error {refusal : Refusal} (h : AddStep c v (.error refusal) c') :
    c'.items = c.items := by
  cases h <;> rfl

theorem AddStep.prefix_items (h : AddStep c v outcome c') : c.items <+: c'.items := by
  cases h with
  | notAType => exact List.prefix_rfl
  | failed => exact List.prefix_rfl
  | added h => exact List.prefix_append _ _

theorem AddStep.items_ne_nil (hal : ∀ a ∈ c.expander.scope.context.aliases.entries, a.2 ≠ [])
    (hi : ∀ item ∈ c.items, item ≠ []) (h : AddStep c v outcome c') :
    ∀ item ∈ c'.items, item ≠ [] := by
  cases h with
  | notAType => exact hi
  | failed => exact hi
  | added h =>
    intro item hitem
    rcases List.mem_append.mp hitem with hitem | hitem
    · exact hi item hitem
    · exact h.ne_nil hal (fun t ht => hasContent_iff.mp (List.of_mem_filter ht)) item hitem

/-! ### Runs of calls -/

/-- The collection after values have been added in turn, those that are refused
included. -/
def afterAdding (c : Collection) (vs : List Value) : Collection :=
  vs.foldl (fun c v => (c.add v).2) c

/-- What holds at first and is kept by every call holds along a run. -/
theorem afterAdding_induction {P : Collection → Prop} (hs : ∀ c v, P c → P (c.add v).2) :
    ∀ (vs : List Value) {c : Collection}, P c → P (c.afterAdding vs)
  | [], _, h => h
  | v :: vs, c, h => afterAdding_induction hs vs (hs c v h)

/-- What all collections of a run have in common: they resolve in the same
context, treat failures alike and hold no empty item. -/
structure Sound (context : Context) (failOpen : Bool) (c : Collection) : Prop where
  context_eq : c.expander.scope.context = context
  failOpen_eq : c.expander.session.failOpen = failOpen
  items_ne_nil : ∀ item ∈ c.items, item ≠ []

theorem Sound.add {context : Context} {failOpen : Bool} (h : Sound context failOpen c)
    (hal : ∀ a ∈ context.aliases.entries, a.2 ≠ []) (v : Value) :
    Sound context failOpen (c.add v).2 := by
  have hal' : ∀ a ∈ c.expander.scope.context.aliases.entries, a.2 ≠ [] := by rwa [h.context_eq]
  have hstep := add_step hal' v
  exact ⟨by rw [hstep.scope_eq, h.context_eq], hstep.failOpen_eq.trans h.failOpen_eq,
    hstep.items_ne_nil hal' h.items_ne_nil⟩

theorem Sound.afterAdding {context : Context} {failOpen : Bool} (h : Sound context failOpen c)
    (hal : ∀ a ∈ context.aliases.entries, a.2 ≠ []) (vs : List Value) :
    Sound context failOpen (c.afterAdding vs) :=
  afterAdding_induction (fun _ v hc => hc.add hal v) vs h

/-- Along a run the items only grow at the end. -/
theorem Sound.prefix_items {context : Context} {failOpen : Bool} (h : Sound context failOpen c)
    (hal : ∀ a ∈ context.aliases.entries, a.2 ≠ []) (vs : List Value) :
    c.items <+: (c.afterAdding vs).items := by
  have hrun : Sound context failOpen (c.afterAdding vs) ∧ c.items <+: (c.afterAdding vs).items := by
    refine afterAdding_induction
      (P := fun c' => Sound context failOpen c' ∧ c.items <+: c'.items)
      (fun c' v hc => ⟨hc.1.add hal v, hc.2.trans ?_⟩) vs ⟨h, List.prefix_rfl⟩
    exact (add_step (by rw [hc.1.context_eq]; exact hal) v).prefix_items
  exact hrun.2

/-- **Adding is all or nothing, over whole runs.** At every point of a run, after
the values `before`, a call that is refused leaves the items as they are, a call
that returns appends one result for each alternative that is more than padding
(`AddStep` says this in full), no item is empty, and what comes `after` only
appends. -/
theorem add_all_or_nothing {context : Context} (hal : ∀ a ∈ context.aliases.entries, a.2 ≠ [])
    (generics : List Text) (registry : Registry) (failOpen cacheAnswers : Bool)
    (before : List Value) (v : Value) (after : List Value) :
    let start := create context generics registry failOpen cacheAnswers
    let c := start.afterAdding before
    AddStep c v (c.add v).1 (c.add v).2 ∧ c.expander.session.failOpen = failOpen ∧
      (∀ refusal, (c.add v).1 = .error refusal → (c.add v).2.items = c.items) ∧
      (∀ item ∈ c.items, item ≠ []) ∧
      c.items <+: (start.afterAdding (before ++ v :: after)).items := by
  intro start c
  have hstart : Sound context failOpen start := ⟨rfl, rfl, by simp [start, create]⟩
  have hc : Sound context failOpen c := hstart.afterAdding hal before
  have hstep : AddStep c v (c.add v).1 (c.add v).2 :=
    add_step (by rw [hc.context_eq]; exact hal) v
  refine ⟨hstep, hc.failOpen_eq, fun refusal h => ?_, hc.items_ne_nil, ?_⟩
  · rw [h] at hstep
    exact hstep.items_eq_of_error
  · rw [afterAdding, List.foldl_append]
    exact hc.prefix_items hal (v :: after)

/-- A context with a namespace, an alias and a generic parameter. -/
def shopContext : Context :=
  ⟨"Shop".toList, .ofList [("M".toList, "\\Lib\\Models".toList)], ["T".toList]⟩

/-- A probe that knows one name and fails for another. -/
def brittleProbe : Probe := fun name =>
  if name = "Bad".toList then .error ⟨"ValueError".toList, "no such type".toList⟩
  else .ok (name = "DateTime".toList)

/-- A run in which a number and an alternative in the middle of a union are
refused. -/
theorem add_all_or_nothing_brittle :
    let start := create shopContext [] (.ofProbe brittleProbe) false true
    let c := start.afterAdding [.text "A".toList, .int 3]
    let v := Value.text "M\\X|Bad| |B".toList
    AddStep c v (c.add v).1 (c.add v).2 ∧ c.expander.session.failOpen = false ∧
      (∀ refusal, (c.add v).1 = .error refusal → (c.add v).2.items = c.items) ∧
      (∀ item ∈ c.items, item ≠ []) ∧
      c.items <+: (start.afterAdding [.text "A".toList, .int 3, v, .text "C".toList]).items :=
  add_all_or_nothing (by decide +kernel) [] (.ofProbe brittleProbe) false true
    [.text "A".toList, .int 3] (.text "M\\X|Bad| |B".toList) [.text "C".toList]

/-! ### Several texts -/

/-- Adding texts in turn resolves all their alternatives in turn. -/
theorem addAll_texts : ∀ (ts : List Text) (c : Collection),
    match c.expander.expandAll (ts.flatMap alternatives) with
    | (.error fault, e) => ∃ items, c.addAll (ts.map .text) = (.error (.failed fault), ⟨e, items⟩)
    | (.ok rs, e) =>
      c.addAll (ts.map .text) = (.ok (), ⟨e, c.items ++ rs.filter fun r => !r.isEmpty⟩)
  | [], c => by simp [Expander.expandAll, addAll]
  | t :: ts, c => by
    rw [List.flatMap_cons, Expander.expandAll_append]
    cases h1 : c.expander.expandAll (alternatives t) with
    | mk outcome e₁ =>
      cases outcome with
      | error fault =>
        exact ⟨c.items, by simp only [List.map_cons, addAll, add, addText, h1]⟩
      | ok rs =>
        have ih := addAll_texts ts ⟨e₁, c.items ++ rs.filter fun r => !r.isEmpty⟩
        simp only [List.map_cons, addAll, add, addText, h1] at ih ⊢
        cases h2 : e₁.expandAll (ts.flatMap alternatives) with
        | mk outcome e₂ =>
          rw [h2] at ih
          cases outcome with
          | error fault => exact ih
          | ok ss => simpa [List.filter_append] using ih

/-- **Texts may be added one by one or joined to one union**, when every text but
the last ends at depth zero: the outcome is the same, the items are the same when
it is a success, and the registry has been asked the same names in the same order
and is left in the same state, with the same trace. -/
theorem addElements_join {ts : List Text} (h : ∀ t ∈ ts.dropLast, balance t = 0)
    (context : Context) (generics : List Text) (registry : Registry)
    (failOpen cacheAnswers : Bool) :
    let start := create context generics registry failOpen cacheAnswers
    let apart := start.addElements (.list (ts.map .text))
    let joined := start.addElements (.list [.text (Text.join unionSign ts)])
    apart.1 = joined.1 ∧ (apart.1 = .ok () → apart.2.items = joined.2.items) ∧
      apart.2.expander = joined.2.expander := by
  intro start apart joined
  have hapart := addAll_texts ts start
  have hjoined := addAll_texts [Text.join unionSign ts] start
  rw [show start.addAll (ts.map .text) = apart from rfl] at hapart
  rw [show start.addAll ([Text.join unionSign ts].map .text) = joined from rfl,
    show [Text.join unionSign ts].flatMap alternatives = alternatives (Text.join unionSign ts)
      from List.flatMap_singleton ..] at hjoined
  by_cases hts : ts = []
  · -- no text at all is the empty text, whose one alternative is blank
    subst hts
    rw [show alternatives (Text.join unionSign []) = [[]] from rfl,
      Expander.expandAll_of_settled (by simpa using Scope.plan_of_nil rfl)] at hjoined
    rw [hjoined]
    simp [apart, addElements, Value.elements?, addAll]
  · rw [alternatives_join hts h] at hjoined
    cases hrun : start.expander.expandAll (ts.flatMap alternatives) with
    | mk outcome e =>
      rw [hrun] at hapart hjoined
      cases outcome with
      | error fault =>
        obtain ⟨items, ha⟩ := hapart
        obtain ⟨items', hj⟩ := hjoined
        rw [ha, hj]
        exact ⟨rfl, fun h => (by cases h), rfl⟩
      | ok rs =>
        rw [hapart, hjoined]
        exact ⟨rfl, fun _ => rfl, rfl⟩

/-- Texts with brackets of mixed kinds, the last one with a bracket too many. -/
def mixedTexts : List Text :=
  ["M\\User|array<a, [b|c)>".toList, "".toList, ")|(".toList, "Qux(".toList]

theorem addElements_join_mixedTexts :
    (∀ t ∈ mixedTexts.dropLast, balance t = 0) ∧
      let start := create shopContext [] (.ofProbe brittleProbe) false true
      let apart := start.addElements (.list (mixedTexts.map .text))
      let joined := start.addElements (.list [.text (Text.join unionSign mixedTexts)])
      apart.1 = joined.1 ∧ (apart.1 = .ok () → apart.2.items = joined.2.items) ∧
        apart.2.expander = joined.2.expander := by
  have h : ∀ t ∈ mixedTexts.dropLast, balance t = 0 := by decide +kernel
  exact ⟨h, addElements_join h shopContext [] (.ofProbe brittleProbe) false true⟩

end Collection
end DocTypes
