/-
# Caches in front of a growing registry

A cache keeps an answer that the registry behind it may outgrow. How far behind it can
be is said in terms of the calls so far (`Registry.knows_withCaches`): a single cache
answers as its core did when the name was first asked since the last `clear`, and
several caches as the core did when the name was first asked at all, because `clear`
empties the outermost one only, and the one behind it still holds the answer. Names
are only ever added, so a positive answer stays right, and a negative one goes wrong by
a name that was given later.

What carries this through a run is one memo for all caches (`Registry.memo`): those
behind the outermost hold just the memo (`Registry.Layers`), and the outermost a part
of it, or all when it is the only one (`Registry.Chain`).

Key definitions: `RegistryCall`, `Registry.after`, `RegistryCall.firstAsked`,
`Registry.Chain`.
Key theorems: `Registry.Chain.knows`, `Registry.chain_after`,
`Registry.HoldsNames.after`, `Registry.knows_withCaches`.
-/
import DocTypes.Proofs.Registry
import Mathlib.Data.List.DropRight

namespace DocTypes

/-! ### Calls -/

/-- A call on a registry. Names are asked of its outermost layer, which is also the one
to be cleared, and given to its core. -/
inductive RegistryCall where
  | ask (name : Text)
  | clear
  | register (name : Text)
  | addText (source : Text)
  deriving DecidableEq

namespace RegistryCall

/-- The names that a call gives to the core. -/
def given : RegistryCall → List Text
  | register name => [name]
  | addText source => declaredTypes source
  | _ => []

/-- The calls up to the last one that cleared the answers for good: none when there are
caches `behind` the outermost one. -/
def forgotten (behind : Nat) (cs : List RegistryCall) : List RegistryCall :=
  if behind = 0 then cs.rdropWhile (· != clear) else []

/-- The calls after those. -/
def remembered (behind : Nat) (cs : List RegistryCall) : List RegistryCall :=
  if behind = 0 then cs.rtakeWhile (· != clear) else cs

/-- The calls before the name was first asked since the answers were cleared for good;
all calls if it was not. -/
def firstAsked (behind : Nat) (name : Text) (cs : List RegistryCall) : List RegistryCall :=
  forgotten behind cs ++ (remembered behind cs).takeWhile (· != ask name)

variable {behind : Nat} {name : Text} {cs : List RegistryCall} {c : RegistryCall}

theorem forgotten_append_remembered (behind : Nat) (cs : List RegistryCall) :
    forgotten behind cs ++ remembered behind cs = cs := by
  unfold forgotten remembered
  split
  · exact List.rdropWhile_append_rtakeWhile ..
  · rfl

theorem remembered_nil : remembered behind [] = [] := by
  unfold remembered
  split <;> rfl

theorem firstAsked_prefix (behind : Nat) (name : Text) (cs : List RegistryCall) :
    firstAsked behind name cs <+: cs := by
  conv_rhs => rw [← forgotten_append_remembered behind cs]
  exact (List.prefix_append_right_inj _).mpr (List.takeWhile_prefix _)

/-- A name that has not been asked is asked now. -/
theorem firstAsked_of_not_mem (h : ask name ∉ remembered behind cs) :
    firstAsked behind name cs = cs := by
  have hall : ∀ c ∈ remembered behind cs, (c != ask name) = true := fun c hc => by
    rw [bne_iff_ne]
    rintro rfl
    exact h hc
  rw [firstAsked, List.takeWhile_eq_self_iff.mpr hall, forgotten_append_remembered]

theorem forgotten_concat (h : behind = 0 → c ≠ clear) :
    forgotten behind (cs ++ [c]) = forgotten behind cs := by
  unfold forgotten
  split
  · next hb => rw [List.rdropWhile_concat, if_pos (by simpa using h hb)]
  · rfl

theorem remembered_concat (h : behind = 0 → c ≠ clear) :
    remembered behind (cs ++ [c]) = remembered behind cs ++ [c] := by
  unfold remembered
  split
  · next hb => rw [List.rtakeWhile_concat, if_pos (by simpa using h hb)]
  · rfl

/-- The question itself does not change when a name was first asked. -/
theorem firstAsked_concat_ask :
    firstAsked behind name (cs ++ [ask name]) = firstAsked behind name cs := by
  have h : behind = 0 → ask name ≠ clear := fun _ => RegistryCall.noConfusion
  rw [firstAsked, firstAsked, forgotten_concat h, remembered_concat h, List.takeWhile_append]
  split
  · next hall =>
    rw [(List.takeWhile_prefix _).eq_of_length hall]
    simp
  · rfl

/-- Once a name has been asked, further calls do not change when. -/
theorem firstAsked_concat_of_mem (h : behind = 0 → c ≠ clear)
    (hm : ask name ∈ remembered behind cs) :
    firstAsked behind name (cs ++ [c]) = firstAsked behind name cs := by
  have hstop : ((remembered behind cs).takeWhile (· != ask name)).length ≠
      (remembered behind cs).length := by
    intro he
    have hself := (List.takeWhile_prefix (l := remembered behind cs) (· != ask name)).eq_of_length he
    have hall := List.takeWhile_eq_self_iff.mp hself _ hm
    simp at hall
  rw [firstAsked, firstAsked, forgotten_concat h, remembered_concat h, List.takeWhile_append,
    if_neg hstop]

end RegistryCall

namespace Registry

/-- The registry after a call. -/
def call (r : Registry) : RegistryCall → Registry
  | .ask name => (r.knows name).2
  | .clear => r.clear
  | .register name => r.register name
  | .addText source => (r.addText source).2

/-- The registry after calls in turn. -/
def after (r : Registry) (cs : List RegistryCall) : Registry := cs.foldl call r

theorem after_concat (r : Registry) (cs : List RegistryCall) (c : RegistryCall) :
    r.after (cs ++ [c]) = (r.after cs).call c :=
  List.foldl_concat ..

/-- The registry with empty caches in front. -/
def withCaches (r : Registry) : (caches : Nat) → Registry
  | 0 => r
  | caches + 1 => (r.withCaches caches).withCache

/-! ### The core -/

/-- A registry that holds a set of names and has no cache. -/
inductive HoldsNames : NameSet → Registry → Prop
  | names (set : NameSet) : HoldsNames set (.names set)
  | sources (set : NameSet) (scanned : List Path) : HoldsNames set (.sources ⟨set, scanned⟩)

namespace HoldsNames

variable {set : NameSet} {core : Registry}

theorem knows_eq (h : HoldsNames set core) (name : Text) :
    core.knows name = (.ok (set.has name), core) := by
  cases h <;> rfl

theorem clear_eq (h : HoldsNames set core) : core.clear = core := by
  cases h <;> rfl

theorem core_eq (h : HoldsNames set core) : core.core = core := by
  cases h <;> rfl

/-- A call on the core only adds names, and only such as are given by it. -/
theorem call (h : HoldsNames set core) (c : RegistryCall) :
    ∃ names ⊆ c.given, HoldsNames (set.insertAll names) (core.call c) := by
  cases c with
  | ask name =>
    refine ⟨[], by simp, ?_⟩
    rw [Registry.call, h.knows_eq]
    exact h
  | clear =>
    refine ⟨[], by simp, ?_⟩
    rw [Registry.call, h.clear_eq]
    exact h
  | register name =>
    refine ⟨[name], List.Subset.refl _, ?_⟩
    cases h with
    | names => exact .names _
    | sources => exact .sources _ _
  | addText source =>
    cases h with
    | names => exact ⟨[], by simp, .names _⟩
    | sources => exact ⟨declaredTypes source, List.Subset.refl _, .sources _ _⟩

theorem after : ∀ (cs : List RegistryCall) {set : NameSet} {core : Registry}, HoldsNames set core →
    ∃ names ⊆ cs.flatMap RegistryCall.given, HoldsNames (set.insertAll names) (core.after cs)
  | [], _, _, h => ⟨[], by simp, h⟩
  | c :: cs, _, _, h => by
    obtain ⟨names, hnames, hc⟩ := h.call c
    obtain ⟨more, hmore, hcs⟩ := after cs hc
    refine ⟨names ++ more, ?_, ?_⟩
    · rw [List.flatMap_cons]
      exact List.append_subset.mpr ⟨List.subset_append_of_subset_left _ hnames,
        List.subset_append_of_subset_right _ hmore⟩
    · rw [NameSet.insertAll, List.foldl_append]
      exact hcs

end HoldsNames

/-! ### Caches -/

section Caches

variable {memo : Text → Option Bool} {core r : Registry} {name : Text} {answer : Bool}

/-- The registry is the core behind some caches that all hold the memo. -/
def Layers (memo : Text → Option Bool) (core : Registry) : (caches : Nat) → Registry → Prop
  | 0, r => r = core
  | caches + 1, cached answers inner =>
    (∀ name, answers.find? name = memo name) ∧ Layers memo core caches inner
  | _ + 1, _ => False

/-- The registry is the core behind one cache that holds a part of the memo and some
that hold all of it; if there are none of these, the one holds all of it. -/
inductive Chain (memo : Text → Option Bool) (core : Registry) (behind : Nat) : Registry → Prop
  | mk {answers : Table Text Bool} {inner : Registry} :
      (∀ name answer, answers.find? name = some answer → memo name = some answer) →
      (behind = 0 → ∀ name, answers.find? name = memo name) →
      Layers memo core behind inner → Chain memo core behind (.cached answers inner)

theorem knows_of_kept {answers : Table Text Bool} (h : answers.find? name = some answer) :
    (cached answers r).knows name = (.ok answer, cached answers r) := by
  rw [Registry.knows, h]

theorem knows_of_asked {answers : Table Text Bool} (h : answers.find? name = none)
    (hr : (r.knows name).1 = .ok answer) :
    (cached answers r).knows name =
      (.ok answer, cached (answers.put name answer) (r.knows name).2) := by
  rw [Registry.knows, h]
  cases hk : r.knows name with
  | mk outcome r' =>
    rw [hk] at hr
    cases hr
    rfl

/-- An answer that the memo has is nothing new. -/
theorem update_memo_self (h : memo name = some answer) :
    Function.update memo name (some answer) = memo := by
  rw [← h, Function.update_eq_self]

theorem find?_put_update (answers : Table Text Bool) (name : Text) (answer : Bool) (x : Text) :
    (answers.put name answer).find? x = Function.update answers.find? name (some answer) x := by
  rw [Table.find?_put, Function.update_apply]
  exact if_congr eq_comm rfl rfl

/-- What holds the memo still does when both get an answer. -/
theorem find?_put_eq {answers : Table Text Bool} (h : ∀ name, answers.find? name = memo name)
    (name : Text) (answer : Bool) (x : Text) :
    (answers.put name answer).find? x = Function.update memo name (some answer) x := by
  rw [find?_put_update, funext h]

/-- Layers that hold a memo answer by it, or by the core when it has no answer, and then
hold that too. -/
theorem Layers.knows (hcore : core.knows name = (.ok answer, core)) :
    ∀ {caches : Nat} {r : Registry}, Layers memo core caches r → (caches = 0 → memo name = none) →
      (r.knows name).1 = .ok ((memo name).getD answer) ∧
        Layers (Function.update memo name ((memo name).getD answer)) core caches (r.knows name).2
  | 0, _, rfl, hmemo => by
    rw [hmemo rfl, hcore]
    exact ⟨rfl, rfl⟩
  | caches + 1, .cached answers inner, ⟨hanswers, hinner⟩, _ => by
    cases hm : memo name with
    | some kept =>
      rw [knows_of_kept ((hanswers name).trans hm), Option.getD_some, update_memo_self hm]
      exact ⟨rfl, hanswers, hinner⟩
    | none =>
      obtain ⟨hanswer, hinner'⟩ := hinner.knows hcore fun _ => hm
      rw [hm, Option.getD_none] at hanswer hinner'
      rw [knows_of_asked ((hanswers name).trans hm) hanswer, Option.getD_none]
      exact ⟨rfl, find?_put_eq hanswers name answer, hinner'⟩

theorem Layers.atCore {α : Type} (act : Registry → α × Registry) :
    ∀ {caches : Nat} {r : Registry}, Layers memo core caches r →
      Layers memo (core.atCore act).2 caches (r.atCore act).2
  | 0, _, h => congrArg (fun r => (Registry.atCore act r).2) h
  | _ + 1, .cached _ _, ⟨hanswers, hinner⟩ => ⟨hanswers, hinner.atCore act⟩

theorem Layers.core_eq (hcore : core.core = core) :
    ∀ {caches : Nat} {r : Registry}, Layers memo core caches r → r.core = core
  | 0, _, h => h ▸ hcore
  | _ + 1, .cached _ inner, ⟨_, hinner⟩ =>
    show inner.core = core from Layers.core_eq hcore hinner

theorem layers_withCaches (core : Registry) :
    ∀ caches, Layers (fun _ => none) core caches (core.withCaches caches)
  | 0 => rfl
  | caches + 1 => ⟨fun _ => rfl, layers_withCaches core caches⟩

variable {behind : Nat}

namespace Chain

/-- **An answer is that of the memo**, or that of the core when there is none; it is
added to the memo. -/
theorem knows (h : Chain memo core behind r) (hcore : core.knows name = (.ok answer, core)) :
    (r.knows name).1 = .ok ((memo name).getD answer) ∧
      Chain (Function.update memo name ((memo name).getD answer)) core behind (r.knows name).2 := by
  obtain @⟨answers, inner, hpart, hall, hinner⟩ := h
  cases hf : answers.find? name with
  | some kept =>
    have hm : memo name = some kept := hpart name kept hf
    rw [knows_of_kept hf, hm, Option.getD_some, update_memo_self hm]
    exact ⟨rfl, .mk hpart hall hinner⟩
  | none =>
    obtain ⟨hanswer, hinner'⟩ := hinner.knows hcore fun hb => (hall hb name).symm.trans hf
    rw [knows_of_asked hf hanswer]
    refine ⟨rfl, .mk (fun x known hx => ?_) (fun hb => find?_put_eq (hall hb) name _) hinner'⟩
    rw [find?_put_update] at hx
    by_cases hn : x = name
    · rw [hn, Function.update_self] at hx ⊢
      exact hx
    · rw [Function.update_of_ne hn] at hx ⊢
      exact hpart x known hx

/-- Names given to the core leave the answers as they are. -/
theorem atCore {α : Type} (h : Chain memo core behind r) (act : Registry → α × Registry) :
    Chain memo (core.atCore act).2 behind (r.atCore act).2 := by
  obtain ⟨hpart, hall, hinner⟩ := h
  exact .mk hpart hall (hinner.atCore act)

theorem core_eq (h : Chain memo core behind r) (hcore : core.core = core) : r.core = core := by
  obtain ⟨-, -, hinner⟩ := h
  exact hinner.core_eq hcore

/-- Clearing the outermost cache forgets the answers if it is the only one. -/
theorem clear (h : Chain memo core behind r) :
    Chain (if behind = 0 then fun _ => none else memo) core behind r.clear := by
  obtain ⟨-, -, hinner⟩ := h
  split
  · next hb =>
    subst hb
    exact .mk (by simp [Table.find?_empty]) (fun _ _ => rfl) hinner
  · next hb => exact .mk (by simp [Table.find?_empty]) (fun h => absurd h hb) hinner

end Chain

end Caches

/-! ### Runs -/

/-- Whether the core of a registry holds a name. -/
def holds (r : Registry) (name : Text) : Bool := r.nameSet?.any (·.has name)

theorem HoldsNames.holds_eq {set : NameSet} {core : Registry} (h : HoldsNames set core)
    (name : Text) : core.holds name = set.has name := by
  cases h <;> rfl

/-- What the caches hold after some calls: for each name that has been asked since they
were cleared for good, what the core held when it was first asked. -/
def memo (core : Registry) (behind : Nat) (cs : List RegistryCall) (name : Text) : Option Bool :=
  if .ask name ∈ RegistryCall.remembered behind cs then
    some ((core.after (RegistryCall.firstAsked behind name cs)).holds name)
  else none

section Runs

open RegistryCall

variable {core : Registry} {behind : Nat} {cs : List RegistryCall} {c : RegistryCall}

/-- With the memo, the core is asked as it was at the first question. -/
theorem memo_getD (core : Registry) (behind : Nat) (cs : List RegistryCall) (name : Text) :
    (core.memo behind cs name).getD ((core.after cs).holds name) =
      (core.after (firstAsked behind name cs)).holds name := by
  unfold memo
  split
  · rfl
  · next h => rw [firstAsked_of_not_mem h]; rfl

/-- A call that does not ask a name and clears no answers for good leaves what the memo
has for the name. -/
theorem memo_concat {name : Text} (hask : c ≠ .ask name) (hclear : behind = 0 → c ≠ .clear) :
    core.memo behind (cs ++ [c]) name = core.memo behind cs name := by
  have hiff : .ask name ∈ remembered behind (cs ++ [c]) ↔ .ask name ∈ remembered behind cs := by
    rw [remembered_concat hclear, List.mem_append, List.mem_singleton]
    exact or_iff_left hask.symm
  unfold memo
  by_cases hm : .ask name ∈ remembered behind cs
  · rw [if_pos hm, if_pos (hiff.mpr hm), firstAsked_concat_of_mem hclear hm]
  · rw [if_neg hm, if_neg (mt hiff.mp hm)]

/-- A question adds its answer to the memo. -/
theorem memo_concat_ask (name : Text) :
    core.memo behind (cs ++ [.ask name]) = Function.update (core.memo behind cs) name
      ((core.memo behind cs name).getD ((core.after cs).holds name)) := by
  have hclear : behind = 0 → RegistryCall.ask name ≠ .clear := fun _ => RegistryCall.noConfusion
  funext x
  rw [Function.update_apply, memo_getD]
  by_cases hx : x = name
  · have hmem : .ask name ∈ remembered behind (cs ++ [.ask name]) := by
      rw [remembered_concat hclear]
      exact List.mem_append_right _ (List.mem_singleton_self _)
    rw [if_pos hx, hx, memo, if_pos hmem, firstAsked_concat_ask]
  · rw [if_neg hx]
    exact memo_concat (fun h => hx (ask.inj h).symm) hclear

/-- Clearing the only cache forgets all. -/
theorem memo_concat_clear : core.memo 0 (cs ++ [.clear]) = fun _ => none := by
  have hnone : remembered 0 (cs ++ [.clear]) = [] := by
    rw [remembered, if_pos rfl, List.rtakeWhile_concat, if_neg (by simp)]
  funext name
  rw [memo, hnone, if_neg List.not_mem_nil]

/-- **Along a run the caches hold the memo of the calls.** -/
theorem chain_after {set : NameSet} (hcore : HoldsNames set core) (behind : Nat)
    (cs : List RegistryCall) :
    Chain (core.memo behind cs) (core.after cs) behind ((core.withCaches (behind + 1)).after cs) := by
  induction cs using List.reverseRecOn with
  | nil =>
    have hnone : core.memo behind [] = fun _ => none := by
      funext name
      rw [memo, remembered_nil, if_neg List.not_mem_nil]
    rw [hnone]
    exact .mk (by simp [Table.find?_empty]) (fun _ _ => rfl) (layers_withCaches core behind)
  | append_singleton cs c ih =>
    obtain ⟨names, -, hset⟩ := hcore.after cs
    have hkeep : (∀ name, c ≠ .ask name) → (behind = 0 → c ≠ .clear) →
        core.memo behind (cs ++ [c]) = core.memo behind cs := fun hask hclear =>
      funext fun name => memo_concat (hask name) hclear
    rw [after_concat, after_concat]
    cases c with
    | ask name =>
      have hknows := hset.knows_eq name
      rw [← hset.holds_eq] at hknows
      rw [memo_concat_ask, Registry.call, hknows]
      exact (ih.knows hknows).2
    | clear =>
      rw [Registry.call, Registry.call, hset.clear_eq]
      have hchain := ih.clear
      split at hchain
      · next hb =>
        subst hb
        rw [memo_concat_clear]
        exact hchain
      · next hb =>
        rw [hkeep (by simp) fun h => absurd h hb]
        exact hchain
    | register name =>
      rw [hkeep (by simp) (by simp)]
      exact ih.atCore _
    | addText source =>
      rw [hkeep (by simp) (by simp)]
      exact ih.atCore _

theorem core_after {set : NameSet} (hcore : HoldsNames set core) (behind : Nat)
    (cs : List RegistryCall) : ((core.withCaches (behind + 1)).after cs).core = core.after cs := by
  obtain ⟨names, -, hset⟩ := hcore.after cs
  exact (chain_after hcore behind cs).core_eq hset.core_eq

/-- **Caches in front of a growing registry are behind it in one way only.** After any
calls, an answer is the one that the core would have given at the `moment` when the name
was first asked: since the last `clear` when there is one cache, at all when there are
several. So what is known stays known, and what is wrongly unknown has been given since,
under its look-up key. -/
theorem knows_withCaches {set : NameSet} (hcore : HoldsNames set core) (behind : Nat)
    (cs : List RegistryCall) (name : Text) :
    let start := core.withCaches (behind + 1)
    let moment := firstAsked behind name cs
    ∃ answer later, cs = moment ++ later ∧
      ((start.after cs).knows name).1 = .ok answer ∧
      ((start.after moment).core.knows name).1 = .ok answer ∧
      (answer = true → ((start.after cs).core.knows name).1 = .ok true) ∧
      (answer = false → ((start.after cs).core.knows name).1 = .ok true →
        ∃ x ∈ later.flatMap RegistryCall.given, set.key x = set.key name) := by
  intro start moment
  obtain ⟨later, hlater⟩ := firstAsked_prefix behind name cs
  obtain ⟨names, -, hmoment⟩ := hcore.after moment
  obtain ⟨more, hmore, hnow⟩ := hmoment.after later
  have hsplit : (core.after moment).after later = core.after cs := by
    conv_rhs => rw [← hlater]
    exact (List.foldl_append ..).symm
  rw [hsplit] at hnow
  have hanswer := ((chain_after hcore behind cs).knows (hnow.knows_eq name)).1
  rw [← hnow.holds_eq, memo_getD, hmoment.holds_eq] at hanswer
  have hgrown := NameSet.has_insertAll name more (set.insertAll names)
  refine ⟨(set.insertAll names).has name, later, hlater.symm, hanswer, ?_, ?_, ?_⟩
  · rw [core_after hcore, hmoment.knows_eq]
  · intro h
    rw [core_after hcore, hnow.knows_eq, hgrown.mpr (Or.inl h)]
  · intro h hhas
    rw [core_after hcore, hnow.knows_eq] at hhas
    rcases hgrown.mp (Except.ok.inj hhas) with hold | ⟨x, hx, hkey⟩
    · rw [h] at hold
      cases hold
    · simp only [NameSet.key, NameSet.caseSensitive_insertAll] at hkey
      exact ⟨x, hmore hx, hkey.symm⟩

/-- Calls that ask for a name, then declare it in another letter case, and clear the
outermost of several caches. -/
def staleCalls : List RegistryCall :=
  [.ask "Post".toList, .ask "User".toList, .addText "class user {}".toList, .clear,
    .ask "User".toList]

theorem knows_withCaches_staleCalls :
    let core := Registry.sources ⟨(⟨false, []⟩ : NameSet), []⟩
    let start := core.withCaches 2
    let moment := firstAsked 1 "User".toList staleCalls
    HoldsNames ⟨false, []⟩ core ∧ moment = [.ask "Post".toList] ∧
      ∃ answer later, staleCalls = moment ++ later ∧
        ((start.after staleCalls).knows "User".toList).1 = .ok answer ∧
        ((start.after moment).core.knows "User".toList).1 = .ok answer ∧
        (answer = true → ((start.after staleCalls).core.knows "User".toList).1 = .ok true) ∧
        (answer = false → ((start.after staleCalls).core.knows "User".toList).1 = .ok true →
          ∃ x ∈ later.flatMap RegistryCall.given,
            (⟨false, []⟩ : NameSet).key x = (⟨false, []⟩ : NameSet).key "User".toList) :=
  ⟨.sources _ _, by decide +kernel, knows_withCaches (.sources _ _) 1 staleCalls "User".toList⟩

end Runs

end Registry
end DocTypes
