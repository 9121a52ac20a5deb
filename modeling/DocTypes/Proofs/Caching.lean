/-
# What a cache changes

A cache in front of a probe changes nothing that an expander answers or notes:
with and without it, every call of a run ends alike. It changes what the probe is
asked. Without a cache that is every name that a call needs (`Call.name?`,
`Expander.registry_run_probe`); with one, between two clears, a name that the
probe answers is passed on at most once, and a name that it fails for every time
(`Sifted`). Asking keeps this up (`Registry.Sifts.knows`), and so it holds of every
part of a run without a clear (`Expander.run_cached`).

Key definitions: `Call.name?`, `Sifted`, `Registry.Sifts`.
Key theorems: `Expander.registry_run_probe`, `Registry.Sifts.knows`,
`Expander.run_cached`.
-/
import DocTypes.Proofs.Calls

namespace DocTypes

variable {known : Probe}

/-! ### The registry after a call -/

/-- The name about which a call needs the answer of the registry. -/
def Call.name? (σ : Scope) : Call → Option Text
  | .expand t => (σ.plan t).question?.map (·.1)
  | .ask name => some name
  | .clear => none

theorem Session.registry_carryOut (s : Session) (p : Plan) :
    (s.carryOut p).2.registry =
      p.question?.elim s.registry fun q => (s.registry.knows q.1).2 := by
  cases p with
  | settled r => rfl
  | ask name yes no note =>
    have hr := s.registry_ask name
    rw [carryOut]
    split <;> next h => rw [h] at hr; exact hr

namespace Expander

/-- A call asks the registry for the name that it needs, if there is one. -/
theorem registry_call (e : Expander) {c : Call} (hc : c ≠ .clear) :
    (e.call c).2.session.registry =
      (c.name? e.scope).elim e.session.registry fun name => (e.session.registry.knows name).2 := by
  cases c with
  | expand t =>
    rw [Call.name?, Option.elim_map]
    exact e.session.registry_carryOut (e.scope.plan t)
  | ask name => exact e.session.registry_ask name
  | clear => exact absurd rfl hc

theorem scope_call (e : Expander) (c : Call) : (e.call c).2.scope = e.scope := by
  cases c <;> rfl

theorem scope_run (e : Expander) (cs : List Call) : (e.run cs).2.scope = e.scope := by
  induction cs generalizing e with
  | nil => rfl
  | cons c cs ih => rw [run, ih, scope_call]

/-- Without a cache a probe is asked every name that is needed, and clearing
changes nothing. -/
theorem registry_run_probe : ∀ (cs : List Call) {e : Expander} {asked : List Text},
    e.session.registry = .probe (fun _ => known) asked →
      (e.run cs).2.session.registry =
        .probe (fun _ => known) (asked ++ cs.filterMap (Call.name? e.scope))
  | [], e, asked, h => by simpa [run] using h
  | c :: cs, e, asked, h => by
    have hstep : (e.call c).2.session.registry =
        .probe (fun _ => known) (asked ++ (c.name? e.scope).toList) := by
      by_cases hc : c = .clear
      · subst hc
        simp [call, clear, h, Registry.clear, Call.name?]
      · rw [registry_call e hc, h]
        cases c.name? e.scope <;> simp [Registry.knows]
    rw [run, registry_run_probe cs hstep, scope_call, List.append_assoc]
    cases hn : c.name? e.scope <;> simp [hn]

end Expander

/-! ### What gets through a cache -/

/-- Of the names `needed`, those that have an answer are among `asked` at most
once, those that have none as often as they are needed. -/
structure Sifted (known : Probe) (needed asked : List Text) : Prop where
  answered : ∀ name answer, known name = .ok answer → asked.count name ≤ 1
  failed : ∀ name fault, known name = .error fault → asked.count name = needed.count name

namespace Sifted

variable {needed asked : List Text} {name : Text}

theorem nil (known : Probe) : Sifted known [] [] := ⟨by simp, by simp⟩

/-- A name that has an answer may be needed without being asked. -/
theorem needed_append (h : Sifted known needed asked) {answer : Bool}
    (hk : known name = .ok answer) : Sifted known (needed ++ [name]) asked := by
  refine ⟨h.answered, fun x fault hx => ?_⟩
  have hne : name ≠ x := by rintro rfl; rw [hk] at hx; cases hx
  rw [h.failed x fault hx, List.count_append, List.count_singleton]
  simp [hne]

/-- A name may be asked when it is needed, unless it has been asked and answered. -/
theorem asked_append (h : Sifted known needed asked)
    (hnew : ∀ answer, known name = .ok answer → name ∉ asked) :
    Sifted known (needed ++ [name]) (asked ++ [name]) := by
  refine ⟨fun x answer hx => ?_, fun x fault hx => ?_⟩
  · rw [List.count_append, List.count_singleton]
    by_cases hxn : name = x
    · subst hxn
      simp [List.count_eq_zero_of_not_mem (hnew answer hx)]
    · simpa [hxn] using h.answered x answer hx
  · rw [List.count_append, List.count_append, h.failed x fault hx]

end Sifted

namespace Registry

/-- The registry is a cache in front of a probe. Since the probe has been asked
`before`, answers for the names `needed` were needed, for which it was asked
`asked`; where it answered, the cache holds the answer. -/
def Sifts (known : Probe) (before needed asked : List Text) (r : Registry) : Prop :=
  ∃ answers, r = .cached answers (.probe (fun _ => known) (before ++ asked)) ∧
    (∀ name answer, answers.find? name = some answer → known name = .ok answer) ∧
    (∀ name ∈ asked, ∀ answer, known name = .ok answer → answers.find? name = some answer) ∧
    Sifted known needed asked

variable {r : Registry} {before needed asked : List Text}

theorem sifts_ofProbe (known : Probe) : Sifts known [] [] [] (ofProbe known).withCache :=
  ⟨.empty, rfl, fun _ _ hf => (by cases hf), by simp, .nil known⟩

theorem Sifts.calls_eq (h : r.Sifts known before needed asked) : r.calls = before ++ asked := by
  obtain ⟨answers, rfl, -⟩ := h
  rfl

/-- The count may start anew at any time. -/
theorem Sifts.restart (h : r.Sifts known before needed asked) :
    r.Sifts known (before ++ asked) [] [] := by
  obtain ⟨answers, hr, hf, -, -⟩ := h
  exact ⟨answers, by rw [hr, List.append_nil], hf, by simp, .nil known⟩

theorem Sifts.clear (h : r.Sifts known before needed asked) :
    r.clear.Sifts known (before ++ asked) [] [] := by
  obtain ⟨answers, rfl, -⟩ := h
  exact ⟨.empty, by rw [List.append_nil]; rfl, fun _ _ hf => (by cases hf), by simp, .nil known⟩

/-- **A cache passes on a name** that it has no answer for, and keeps the answer if
there is one. -/
theorem Sifts.knows (h : r.Sifts known before needed asked) (name : Text) :
    ∃ asked', (r.knows name).2.Sifts known before (needed ++ [name]) asked' := by
  obtain ⟨answers, rfl, hf, hkept, hs⟩ := h
  cases hn : answers.find? name with
  | some answer =>
    exact ⟨asked, answers, by simp only [Registry.knows, hn], hf, hkept,
      hs.needed_append (hf name answer hn)⟩
  | none =>
    have hnew : ∀ answer, known name = .ok answer → name ∉ asked := fun answer hk hm => by
      rw [hkept name hm answer hk] at hn
      cases hn
    cases hk : known name with
    | ok answer =>
      refine ⟨asked ++ [name], answers.put name answer, ?_, fun x a hx => ?_, fun x hx a ha => ?_,
        hs.asked_append hnew⟩
      · simp only [Registry.knows, hn, hk, List.append_assoc]
      · rw [Table.find?_put] at hx
        split at hx
        · next e =>
          cases hx
          rw [← e, hk]
        · exact hf x a hx
      · rw [Table.find?_put]
        split
        · next e =>
          rw [← e, hk] at ha
          cases ha
          rfl
        · next ne =>
          rcases List.mem_append.mp hx with hx | hx
          · exact hkept x hx a ha
          · exact absurd (List.mem_singleton.mp hx).symm ne
    | error fault =>
      refine ⟨asked ++ [name], answers, ?_, hf, fun x hx a ha => ?_, hs.asked_append hnew⟩
      · simp only [Registry.knows, hn, hk, List.append_assoc]
      · rcases List.mem_append.mp hx with hx | hx
        · exact hkept x hx a ha
        · rw [List.mem_singleton.mp hx, hk] at ha
          cases ha

end Registry

/-! ### Runs with a cache -/

namespace Expander

variable {e : Expander} {before needed asked : List Text}

/-- Calls that clear nothing ask the probe for what they need, as the cache lets
it through. -/
theorem sifts_run : ∀ (cs : List Call) {e : Expander} {needed asked : List Text}, .clear ∉ cs →
    e.session.registry.Sifts known before needed asked →
    ∃ asked', (e.run cs).2.session.registry.Sifts known before
      (needed ++ cs.filterMap (Call.name? e.scope)) asked'
  | [], e, needed, asked, _, h => ⟨asked, by simpa [run] using h⟩
  | c :: cs, e, needed, asked, hc, h => by
    rw [List.mem_cons, not_or] at hc
    have hstep : ∃ asked', (e.call c).2.session.registry.Sifts known before
        (needed ++ (c.name? e.scope).toList) asked' := by
      rw [registry_call e (Ne.symm hc.1)]
      cases c.name? e.scope with
      | none => exact ⟨asked, by simpa using h⟩
      | some name => exact h.knows name
    obtain ⟨asked₁, h₁⟩ := hstep
    obtain ⟨asked₂, h₂⟩ := sifts_run cs hc.2 h₁
    refine ⟨asked₂, ?_⟩
    rw [scope_call, List.append_assoc] at h₂
    rw [run]
    cases hn : c.name? e.scope <;> simpa [List.filterMap_cons, hn] using h₂

/-- After any calls the registry is still a cache in front of the probe. -/
theorem exists_sifts_run : ∀ (cs : List Call) {e : Expander} {before needed asked : List Text},
    e.session.registry.Sifts known before needed asked →
    ∃ before' needed' asked',
      (e.run cs).2.session.registry.Sifts known before' needed' asked'
  | [], _, _, _, _, h => ⟨_, _, _, h⟩
  | c :: cs, e, before, needed, asked, h => by
    rw [run]
    by_cases hc : c = .clear
    · subst hc
      exact exists_sifts_run cs (e := e.clear) h.clear
    · obtain ⟨asked', h'⟩ := sifts_run [c] (by simpa using Ne.symm hc) h
      exact exists_sifts_run cs h'

/-- **A cache changes no answer, only what the probe is asked.** A run of calls
ends alike with and without a cache: the same answers and failures, call by call,
and the same trace. Without the cache the probe is asked every name that a call
needs. With it, in any part of the run in which nothing is cleared, a name that
the probe answers is asked at most once, and a name that it fails for as often as
a call needs it. -/
theorem run_cached (known : Probe) (context : Context) (generics : Option (List Text))
    (failOpen : Bool) (calls : List Call) :
    let cached := create context generics (.ofProbe known) failOpen true
    let plain := create context generics (.ofProbe known) failOpen false
    (cached.run calls).1 = (plain.run calls).1 ∧
      (cached.run calls).2.session.trace = (plain.run calls).2.session.trace ∧
      (plain.run calls).2.session.registry.calls = calls.filterMap (Call.name? plain.scope) ∧
      ∀ before between, before ++ between <+: calls → .clear ∉ between →
        ∃ asked, (cached.run (before ++ between)).2.session.registry.calls =
            (cached.run before).2.session.registry.calls ++ asked ∧
          Sifted known (between.filterMap (Call.name? cached.scope)) asked := by
  intro cached plain
  obtain ⟨hca, hct, -⟩ := (serves_create known context generics failOpen true).run calls
  obtain ⟨hpa, hpt, -⟩ := (serves_create known context generics failOpen false).run calls
  refine ⟨hca.trans hpa.symm, hct.trans hpt.symm, ?_, fun before between _ hclear => ?_⟩
  · have hprobe : plain.session.registry = .probe (fun _ => known) [] := rfl
    rw [registry_run_probe calls hprobe, List.nil_append]
    rfl
  · have hstart : cached.session.registry.Sifts known [] [] [] := Registry.sifts_ofProbe known
    obtain ⟨_, _, _, h₁⟩ := exists_sifts_run before hstart
    obtain ⟨asked, h₂⟩ := sifts_run between hclear h₁.restart
    rw [List.nil_append, scope_run] at h₂
    refine ⟨asked, ?_, ?_⟩
    · rw [run_append, h₁.calls_eq]
      exact h₂.calls_eq
    · obtain ⟨_, _, _, _, hs⟩ := h₂
      exact hs

/-- A run in which a name is needed twice without an answer, another one twice with
an answer, and both once more after a clear. -/
def shakyCalls : List Call :=
  [.expand "Foo".toList, .expand "DateTime[]".toList, .ask "Foo".toList, .expand "DateTime".toList,
    .clear, .ask "DateTime".toList, .expand "Foo[] []".toList]

theorem run_cached_shakyCalls :
    let cached := create ⟨"App".toList, .empty, []⟩ none (.ofProbe shakyProbe) false true
    let plain := create ⟨"App".toList, .empty, []⟩ none (.ofProbe shakyProbe) false false
    let between := shakyCalls.take 4
    [] ++ between <+: shakyCalls ∧ .clear ∉ between ∧
      (cached.run shakyCalls).1 = (plain.run shakyCalls).1 ∧
      (plain.run shakyCalls).2.session.registry.calls =
        shakyCalls.filterMap (Call.name? plain.scope) ∧
      Sifted shakyProbe (between.filterMap (Call.name? cached.scope))
        (["Foo", "DateTime", "Foo"].map String.toList) := by
  intro cached plain between
  have hpre : [] ++ between <+: shakyCalls := List.take_prefix 4 shakyCalls
  have hclear : .clear ∉ between := by decide
  obtain ⟨hrun, -, hplain, hpart⟩ := run_cached shakyProbe ⟨"App".toList, .empty, []⟩ none false
    shakyCalls
  obtain ⟨asked, hcalls, hs⟩ := hpart [] between hpre hclear
  have hasked : asked = ["Foo", "DateTime", "Foo"].map String.toList := by
    have hend : (cached.run between).2.session.registry.calls = [] ++ asked := hcalls
    rw [← List.nil_append asked, ← hend]
    decide +kernel
  exact ⟨hpre, hclear, hrun, hplain, hasked ▸ hs⟩

end Expander
end DocTypes
