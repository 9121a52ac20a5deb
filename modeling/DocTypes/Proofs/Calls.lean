/-
# Runs of calls

An expander is called again and again: to resolve a type, to ask for a name, to
forget what its cache holds. A run is a list of such calls (`Expander.run`); a
call that fails does not end it.

With a registry that answers by a fixed function, every call does what it would
do as the first one: its answer and its events are those of `Call.outcome`,
whatever was called before (`Expander.Serves.call`), and so a run answers call
by call (`Expander.Serves.run`).

Runs that treat the failures of a probe differently are compared by this: where
failures count as unknown, nothing fails, and what happens is what happens for
the probe that does not know the names it fails for; where they are handed on, a
call fails just where the other one notes a failure
(`Expander.expand_failOpen`).

Key definitions: `Call`, `Expander.run`, `Call.outcome`, `Expander.Serves`.
Key theorems: `Expander.Serves.run`, `Expander.expand_failOpen`.
-/
import DocTypes.Proofs.Registry

namespace DocTypes

/-! ### Calls -/

/-- A call of an expander. -/
inductive Call where
  /-- Resolves a single type. -/
  | expand (t : Text)
  /-- Asks whether a name is known. -/
  | ask (name : Text)
  /-- Forgets the answers of the outermost cache, if there is one. -/
  | clear
  deriving DecidableEq

/-- What a call answers. -/
inductive Answer where
  | resolved (result : Except Fault Text)
  | known (answer : Except Fault Bool)
  | cleared
  deriving DecidableEq

namespace Expander

/-- The expander without the answers of its outermost cache. -/
def clear (e : Expander) : Expander :=
  { e with session := { e.session with registry := e.session.registry.clear } }

/-- Carries out one call. -/
def call (e : Expander) : Call → Answer × Expander
  | .expand t => (.resolved (e.expand t).1, (e.expand t).2)
  | .ask name => (.known (e.exists? name).1, (e.exists? name).2)
  | .clear => (.cleared, e.clear)

/-- Carries out calls in turn, whether they fail or not, and answers each. -/
def run (e : Expander) : List Call → List Answer × Expander
  | [] => ([], e)
  | c :: cs => ((e.call c).1 :: ((e.call c).2.run cs).1, ((e.call c).2.run cs).2)

theorem run_append (e : Expander) (cs ds : List Call) :
    e.run (cs ++ ds) =
      ((e.run cs).1 ++ ((e.run cs).2.run ds).1, ((e.run cs).2.run ds).2) := by
  induction cs generalizing e with
  | nil => rfl
  | cons c cs ih => simp only [List.cons_append, run, ih]

end Expander

/-! ### Outcomes by a fixed function -/

/-- The answer for a name by a fixed function, and what happens on the way. -/
def Probe.reply (known : Probe) (failOpen : Bool) (name : Text) : Except Fault Bool × List Event :=
  match known name with
  | .ok answer => (.ok answer, [.asked name])
  | .error fault =>
    if failOpen then (.ok false, [.asked name, .probeFailed name fault])
    else (.error fault, [.asked name])

/-- What a plan ends with by a fixed function, and what happens on the way. -/
def Plan.outcome (known : Probe) (failOpen : Bool) : Plan → Except Fault Text × List Event
  | .settled result => (.ok result, [])
  | .ask name yes no note =>
    match known.reply failOpen name with
    | (.ok true, events) => (.ok yes, events)
    | (.ok false, events) => (.ok no, events ++ [note])
    | (.error fault, events) => (.error fault, events)

/-- What a call answers by a fixed function, and what happens on the way. -/
def Call.outcome (σ : Scope) (known : Probe) (failOpen : Bool) : Call → Answer × List Event
  | .expand t =>
    (.resolved ((σ.plan t).outcome known failOpen).1, ((σ.plan t).outcome known failOpen).2)
  | .ask name => (.known (known.reply failOpen name).1, (known.reply failOpen name).2)
  | .clear => (.cleared, [])

variable {known : Probe}

theorem Registry.faithful_ofProbe (known : Probe) : (Registry.ofProbe known).Faithful known :=
  fun _ => rfl

theorem Registry.faithful_clear {r : Registry} (h : r.Faithful known) : r.clear.Faithful known := by
  cases r with
  | cached answers inner => exact ⟨fun _ _ hf => (by cases hf), h.2⟩
  | _ => exact h

namespace Session

variable {s : Session}

/-- A session with a faithful registry answers by its function. -/
theorem ask_of_faithful (h : s.registry.Faithful known) (name : Text) :
    s.ask name = ((known.reply s.failOpen name).1, ⟨(s.registry.knows name).2, s.failOpen,
      s.trace ++ (known.reply s.failOpen name).2⟩) := by
  have hk := (Registry.knows_of_faithful name h).1
  rcases s.ask_cases name with ⟨answer, r, hr, ha⟩ | ⟨fault, r, hr, hf, ha⟩ | ⟨fault, r, hr, hf, ha⟩
  · rw [hr] at hk
    simp [ha, hr, Probe.reply, ← hk]
  · rw [hr] at hk
    simp [ha, hr, Probe.reply, ← hk, hf]
  · rw [hr] at hk
    simp [ha, hr, Probe.reply, ← hk, hf]

/-- So does a plan that is carried out there. -/
theorem carryOut_of_faithful (h : s.registry.Faithful known) (p : Plan) :
    (s.carryOut p).1 = (p.outcome known s.failOpen).1 ∧
      (s.carryOut p).2.trace = s.trace ++ (p.outcome known s.failOpen).2 := by
  cases p with
  | settled result => simp [carryOut, Plan.outcome]
  | ask name yes no note =>
    rw [carryOut, ask_of_faithful h name, Plan.outcome]
    rcases known.reply s.failOpen name with ⟨answer | answer, events⟩
    · exact ⟨rfl, rfl⟩
    · cases answer
      · exact ⟨rfl, List.append_assoc ..⟩
      · exact ⟨rfl, rfl⟩

end Session

namespace Expander

/-- An expander of a scope that treats failures as told and has a registry that
answers by `known`. -/
structure Serves (σ : Scope) (known : Probe) (failOpen : Bool) (e : Expander) : Prop where
  scope_eq : e.scope = σ
  failOpen_eq : e.session.failOpen = failOpen
  faithful : e.session.registry.Faithful known

variable {σ : Scope} {failOpen : Bool} {e : Expander}

theorem serves_create (known : Probe) (context : Context) (generics : Option (List Text))
    (failOpen cacheAnswers : Bool) :
    Serves ⟨context, generics.getD context.generics⟩ known failOpen
      (create context generics (.ofProbe known) failOpen cacheAnswers) :=
  ⟨rfl, rfl,
    faithful_create (Registry.faithful_ofProbe known) context generics failOpen cacheAnswers⟩

theorem Serves.expand (h : Serves σ known failOpen e) (t : Text) :
    (e.expand t).1 = ((σ.plan t).outcome known failOpen).1 ∧
      (e.expand t).2.session.trace =
        e.session.trace ++ ((σ.plan t).outcome known failOpen).2 := by
  have hc := Session.carryOut_of_faithful h.faithful (e.scope.plan t)
  rw [h.failOpen_eq, h.scope_eq] at hc
  rw [Expander.expand, h.scope_eq]
  exact hc

/-- **Every call does what it would do as the first one.** -/
theorem Serves.call (h : Serves σ known failOpen e) (c : Call) :
    (e.call c).1 = (c.outcome σ known failOpen).1 ∧
      (e.call c).2.session.trace = e.session.trace ++ (c.outcome σ known failOpen).2 ∧
      Serves σ known failOpen (e.call c).2 := by
  cases c with
  | expand t =>
    obtain ⟨hr, ht⟩ := h.expand t
    exact ⟨congrArg Answer.resolved hr, ht, h.scope_eq, (e.failOpen_expand t).trans h.failOpen_eq,
      faithful_expand h.faithful t⟩
  | ask name =>
    have ha := Session.ask_of_faithful h.faithful name
    have hf := (Registry.knows_of_faithful name h.faithful).2
    rw [h.failOpen_eq] at ha
    have hcall : e.call (.ask name) = (.known (e.session.ask name).1,
        { e with session := (e.session.ask name).2 }) := rfl
    rw [hcall, ha]
    exact ⟨rfl, rfl, h.scope_eq, rfl, hf⟩
  | clear =>
    exact ⟨rfl, (List.append_nil _).symm, h.scope_eq, h.failOpen_eq,
      Registry.faithful_clear h.faithful⟩

/-- **A run answers call by call**, and what happens is what happens at its calls. -/
theorem Serves.run : ∀ {e : Expander}, Serves σ known failOpen e → ∀ cs : List Call,
    (e.run cs).1 = cs.map (fun c => (c.outcome σ known failOpen).1) ∧
      (e.run cs).2.session.trace =
        e.session.trace ++ cs.flatMap (fun c => (c.outcome σ known failOpen).2) ∧
      Serves σ known failOpen (e.run cs).2
  | _, h, [] => ⟨rfl, (List.append_nil _).symm, h⟩
  | e, h, c :: cs => by
    obtain ⟨ha, ht, hs⟩ := h.call c
    obtain ⟨has, hts, hss⟩ := hs.run cs
    refine ⟨?_, ?_, hss⟩
    · rw [Expander.run, ha, has, List.map_cons]
    · rw [Expander.run, hts, ht, List.flatMap_cons, List.append_assoc]

/-! ### Failures of a probe -/

end Expander

/-- The probe that knows what `known` knows, and no name that it fails for. -/
def Probe.orUnknown (known : Probe) : Probe := fun name =>
  match known name with
  | .ok answer => .ok answer
  | .error _ => .ok false

namespace Plan

/-- The name that a plan asks about, and what it notes when that is unknown. -/
def question? : Plan → Option (Text × Event)
  | settled _ => none
  | ask name _ _ note => some (name, note)

/-- The array suffix leaves the question as it is. -/
theorem question?_arrayOf (p : Plan) : p.arrayOf.question? = p.question? := by
  cases p <;> rfl

end Plan

/-- A plan asks about a class name, and notes how that resolves. -/
theorem Scope.note_of_question? {σ : Scope} {t name : Text} {note : Event}
    (h : (σ.plan t).question? = some (name, note)) :
    note = (σ.context.resolve name).note name := by
  fun_induction Scope.plan σ t with
  | case1 t s hs => cases h
  | case2 t s hne hv => cases h
  | case3 t s hne hv e he ih => exact ih (by rwa [Plan.question?_arrayOf] at h)
  | case4 t s hne hv he hr =>
    obtain ⟨rfl, rfl⟩ := Prod.mk.inj (Option.some.inj h)
    rfl
  | case5 t s hne hv he hr => cases h

theorem Scope.note_ne_probeFailed {σ : Scope} {t name : Text} {note : Event}
    (h : (σ.plan t).question? = some (name, note)) (other : Text) (fault : Fault) :
    .probeFailed other fault ≠ note := by
  rw [note_of_question? h]
  cases σ.context.resolve name <;> exact fun he => by cases he

namespace Expander

/-- **The failure of a probe means that the name is unknown, and nothing else.**
After any calls, with the same calls made of all three expanders: where failures
count as unknown, resolving a type does not fail, and the result is the one for
the probe that knows no name that `known` fails for. The failures noted on the way
are those of `known` for the name that was asked. Where failures are handed on, the
call fails with a fault just when the other one notes it, and otherwise the result
is the same. -/
theorem expand_failOpen (known : Probe) (context : Context) (generics : Option (List Text))
    (cacheAnswers anyWay : Bool) (before : List Call) (t : Text) :
    let build := fun (probe : Probe) (failOpen : Bool) =>
      ((create context generics (.ofProbe probe) failOpen cacheAnswers).run before).2
    let opened := build known true
    let closed := build known false
    let total := build known.orUnknown anyWay
    ∃ result events,
      (opened.expand t).1 = .ok result ∧ (total.expand t).1 = .ok result ∧
      (opened.expand t).2.session.trace = opened.session.trace ++ events ∧
      (∀ name fault, .probeFailed name fault ∈ events →
        known name = .error fault ∧ .asked name ∈ events) ∧
      (∀ fault, (closed.expand t).1 = .error fault ↔
        ∃ name, .probeFailed name fault ∈ events) ∧
      ((∀ name fault, .probeFailed name fault ∉ events) → (closed.expand t).1 = .ok result) := by
  intro build opened closed total
  have serves (probe : Probe) (failOpen : Bool) : Serves ⟨context, generics.getD context.generics⟩
      probe failOpen (build probe failOpen) :=
    ((serves_create probe context generics failOpen cacheAnswers).run before).2.2
  obtain ⟨ho, htrace⟩ := (serves known true).expand t
  obtain ⟨hc, -⟩ := (serves known false).expand t
  obtain ⟨ht, -⟩ := (serves known.orUnknown anyWay).expand t
  rw [ho, hc, ht]
  cases hp : Scope.plan ⟨context, generics.getD context.generics⟩ t with
  | settled result =>
    rw [hp] at htrace
    refine ⟨result, [], rfl, rfl, htrace, ?_⟩
    simp [Plan.outcome]
  | ask name yes no note =>
    rw [hp] at htrace
    have hnote := Scope.note_ne_probeFailed (congrArg Plan.question? hp)
    cases hk : known name with
    | ok answer =>
      refine ⟨if answer then yes else no, _, ?_, ?_, htrace, ?_⟩ <;>
        cases answer <;> simp [Plan.outcome, Probe.reply, Probe.orUnknown, hk, hnote]
    | error fault =>
      have hopen : known.reply true name = (.ok false, [.asked name, .probeFailed name fault]) := by
        simp [Probe.reply, hk]
      have hclosed : known.reply false name = (.error fault, [.asked name]) := by
        simp [Probe.reply, hk]
      have htotal : (known.orUnknown.reply anyWay name) = (.ok false, [.asked name]) := by
        simp [Probe.reply, Probe.orUnknown, hk]
      simp only [Plan.outcome, hopen, hclosed, htotal] at htrace ⊢
      refine ⟨no, _, rfl, rfl, htrace, fun other fault' hm => ?_, fun fault' => ?_, fun h => ?_⟩
      · obtain ⟨rfl, rfl⟩ : other = name ∧ fault' = fault := by simpa [hnote] using hm
        exact ⟨hk, by simp⟩
      · simp [hnote, eq_comm]
      · exact absurd (by simp) (h name fault)

/-- A probe that knows one name and fails for every short one, each time with a
fault that names it. -/
def shakyProbe : Probe := fun name =>
  if name.length < 4 then .error ⟨"LookupError".toList, name⟩ else .ok (name = "DateTime".toList)

/-- An array of a name that the probe fails for, after other calls. -/
theorem expand_failOpen_shaky :
    let before := [.expand "Foo".toList, .clear, .ask "DateTime".toList]
    let fault : Fault := ⟨"LookupError".toList, "Bar".toList⟩
    let build := fun (failOpen : Bool) =>
      ((create ⟨"App".toList, .empty, []⟩ none (.ofProbe shakyProbe) failOpen true).run before).2
    ((build true).expand " Bar[] ".toList).1 = .ok "\\App\\Bar[]".toList ∧
      ((build false).expand " Bar[] ".toList).1 = .error fault ∧
      .probeFailed "Bar".toList fault ∈ ((build true).expand " Bar[] ".toList).2.session.trace := by
  intro before fault build
  obtain ⟨result, events, ho, -, htrace, hfailed, hclosed, -⟩ :=
    expand_failOpen shakyProbe ⟨"App".toList, .empty, []⟩ none true false before " Bar[] ".toList
  have hfault : ((build false).expand " Bar[] ".toList).1 = .error fault := by decide +kernel
  obtain ⟨name, hm⟩ := (hclosed fault).mp hfault
  have hname : name = "Bar".toList := by
    have hk := (hfailed name fault hm).1
    unfold shakyProbe at hk
    split at hk
    · exact congrArg Fault.message (Except.error.inj hk)
    · cases hk
  refine ⟨by decide +kernel, hfault, ?_⟩
  rw [htrace, ← hname]
  exact List.mem_append_right _ hm

end Expander
end DocTypes
