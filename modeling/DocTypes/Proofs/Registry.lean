/-
# Registries that answer by a fixed function

A registry is faithful to a function from names to answers when its core answers
by that function and its caches hold nothing else. Asking keeps a registry
faithful (`Registry.knows_of_faithful`), and so does resolving, so what an
expander answers does not depend on what it was asked before.

Key definitions: `Registry.Faithful`.
Key theorems: `Registry.knows_of_faithful`, `Expander.faithful_expandAll`,
`Session.carryOut_ask_of_knows`, `Registry.faithful_addText`.
-/
import DocTypes.Proofs.Expander

namespace DocTypes

variable {known : Probe}

namespace Registry

/-- The core of a registry answers by `known`, and its caches hold only such
answers. -/
def Faithful (known : Probe) : Registry → Prop
  | empty => ∀ name, known name = .ok false
  | names set => ∀ name, known name = .ok (set.has name)
  | probe ask _ => ∀ calls, ask calls = known
  | sources index => ∀ name, known name = .ok (index.names.has name)
  | cached answers inner =>
    (∀ name answer, answers.find? name = some answer → known name = .ok answer) ∧
      inner.Faithful known

theorem Faithful.withCache {r : Registry} (h : r.Faithful known) : r.withCache.Faithful known :=
  ⟨fun _ _ hf => (by cases hf), h⟩

/-- **A faithful registry answers by its function** and stays faithful. -/
theorem knows_of_faithful (name : Text) : ∀ {r : Registry}, r.Faithful known →
    (r.knows name).1 = known name ∧ (r.knows name).2.Faithful known
  | empty, h => ⟨(h name).symm, h⟩
  | names _, h => ⟨(h name).symm, h⟩
  | probe _ calls, h => ⟨congrFun (h calls) name, h⟩
  | sources _, h => ⟨(h name).symm, h⟩
  | cached answers inner, h => by
    obtain ⟨hinner, hinner'⟩ := knows_of_faithful name h.2
    unfold knows
    split
    · next answer hf => exact ⟨(h.1 name answer hf).symm, h⟩
    · split
      · next answer inner' hk =>
        rw [hk] at hinner hinner'
        refine ⟨hinner, fun x b hx => ?_, hinner'⟩
        rw [Table.find?_put] at hx
        split at hx
        · next e =>
          cases hx
          rw [← e]
          exact hinner.symm
        · exact h.1 x b hx
      · next fault inner' hk =>
        rw [hk] at hinner hinner'
        exact ⟨hinner, h.1, hinner'⟩

/-- A registry of sources that has only been given one source knows what that
source declares. -/
theorem faithful_addText (source : Text) (caseSensitive : Bool) :
    ((Registry.sources ⟨⟨caseSensitive, []⟩, []⟩).addText source).2.Faithful fun name =>
      .ok (((⟨caseSensitive, []⟩ : NameSet).insertAll (declaredTypes source)).has name) :=
  fun _ => rfl

end Registry

namespace Session

theorem registry_ask (s : Session) (name : Text) :
    (s.ask name).2.registry = (s.registry.knows name).2 := by
  rcases s.ask_cases name with ⟨_, _, hk, h⟩ | ⟨_, _, hk, _, h⟩ | ⟨_, _, hk, _, h⟩ <;> rw [h, hk]

theorem faithful_carryOut {s : Session} (h : s.registry.Faithful known) (p : Plan) :
    (s.carryOut p).2.registry.Faithful known := by
  cases p with
  | settled r => exact h
  | ask name yes no note =>
    have hs := (Registry.knows_of_faithful name h).2
    rw [← registry_ask] at hs
    rw [carryOut]
    split <;> next ha => rw [ha] at hs; exact hs

/-- With a registry that answers, a question goes by the answer. -/
theorem carryOut_ask_of_knows {s : Session} {name : Text} {answer : Bool}
    (h : (s.registry.knows name).1 = .ok answer) (yes no : Text) (note : Event) :
    (s.carryOut (.ask name yes no note)).1 = .ok (if answer then yes else no) := by
  rw [carryOut]
  rcases s.ask_cases name with ⟨known', _, hr, he⟩ | ⟨_, _, hr, _, _⟩ | ⟨_, _, hr, _, _⟩
  · rw [hr] at h
    cases h
    rw [he]
    cases answer <;> rfl
  · rw [hr] at h
    cases h
  · rw [hr] at h
    cases h

/-- With a registry that is faithful to an answer, a question goes by it. -/
theorem carryOut_ask_of_faithful {s : Session} (h : s.registry.Faithful known) {name : Text}
    {answer : Bool} (hk : known name = .ok answer) (yes no : Text) (note : Event) :
    (s.carryOut (.ask name yes no note)).1 = .ok (if answer then yes else no) :=
  carryOut_ask_of_knows ((Registry.knows_of_faithful name h).1.trans hk) yes no note

end Session

namespace Expander

theorem faithful_expand {e : Expander} (h : e.session.registry.Faithful known) (t : Text) :
    (e.expand t).2.session.registry.Faithful known :=
  Session.faithful_carryOut h (e.scope.plan t)

theorem faithful_expandAll {e : Expander} (h : e.session.registry.Faithful known)
    (ts : List Text) : (e.expandAll ts).2.session.registry.Faithful known :=
  expandAll_induction (P := fun e' => e'.session.registry.Faithful known)
    (fun _ t he => faithful_expand he t) ts h

theorem faithful_create {registry : Registry} (h : registry.Faithful known) (context : Context)
    (generics : Option (List Text)) (failOpen cacheAnswers : Bool) :
    (create context generics registry failOpen cacheAnswers).session.registry.Faithful known := by
  unfold create
  dsimp only
  split
  · exact h.withCache
  · exact h

end Expander
end DocTypes
