/-
# Arrays resolve by their elements

An array is resolved by its element, and the suffix comes behind the result
(`Expander.expand_of_array`). So `n` suffixes behind a type come behind its result, if
they are read as suffixes (`Expander.expand_suffixes`). They are not where the type ends
in a square bracket that is still open: behind `Foo[` the suffix closes a body, and what
was no generic is one (`isShape_append_arraySuffix_iff`).

The other way round, the kinds tell how many suffixes there are. Dropping them as long
as the kind is an array's leaves an element (`Scope.innermost`), and the kind of this
element tells what its resolution does: it is kept without a question, or it is a class
name about which the registry is asked once (`Expander.expand_innermost`).

Key definitions: `suffixes`, `OpensSquare`, `Suffixable`, `Scope.innermost`,
`Expander.AsksOnce`.
Key theorems: `isShape_append_arraySuffix_iff`, `Expander.expand_of_array`,
`Expander.expand_suffixes`, `Expander.expand_innermost`.
-/
import DocTypes.Proofs.Registry

namespace DocTypes

/-- The array suffix `n` times. -/
def suffixes : Nat → Text
  | 0 => []
  | n + 1 => suffixes n ++ arraySuffix

/-! ### What the suffix closes -/

/-- The text begins with the name of a generic and an opening square bracket that does
not belong to an array suffix. -/
def OpensSquare (s : Text) : Prop :=
  ∃ name rest, name ≠ [] ∧ (∀ c ∈ name, isHeadChar c = true) ∧ s = name ++ '[' :: rest ∧
    rest.head? ≠ some ']'

theorem opensSquare_append_iff {name y : Text} (hname : ∀ c ∈ name, isHeadChar c = true)
    (hy : ∀ c ∈ y.head?, isHeadChar c = false) :
    OpensSquare (name ++ y) ↔ name ≠ [] ∧ ∃ rest, y = '[' :: rest ∧ rest.head? ≠ some ']' := by
  constructor
  · rintro ⟨name', rest, hne, hname', he, hrest⟩
    have hy' : ∀ c ∈ ('[' :: rest).head?, isHeadChar c = false := fun c hc => by
      cases hc
      decide
    -- the name goes as far as its characters do
    have hn : name = name' := by
      rw [← takeWhile_append_of_head hname hy, he, takeWhile_append_of_head hname' hy']
    subst hn
    exact ⟨hne, rest, List.append_cancel_left he, hrest⟩
  · rintro ⟨hne, rest, rfl, hrest⟩
    exact ⟨name, rest, hne, hname, rfl, hrest⟩

instance (s : Text) : Decidable (OpensSquare s) :=
  decidable_of_iff (s.takeWhile isHeadChar ≠ [] ∧ (s.dropWhile isHeadChar).head? = some '[' ∧
      (s.dropWhile isHeadChar).tail.head? ≠ some ']') <| by
    have hname : ∀ c ∈ s.takeWhile isHeadChar, isHeadChar c = true :=
      fun _ => List.mem_takeWhile_imp
    have hs := opensSquare_append_iff hname (Text.head?_dropWhile isHeadChar s)
    rw [List.takeWhile_append_dropWhile] at hs
    rw [hs]
    cases s.dropWhile isHeadChar with
    | nil => simp
    | cons c y => simp

/-- What is left of a suffix behind a body makes it one that is not empty. -/
theorem isBody_append_iff {y : Text} :
    isBody '[' (y ++ ['[']) = true ↔ y.head? ≠ some ']' ∧ '\n' ∉ y := by
  cases y with
  | nil => simp [isBody]
  | cons d y => simp [isBody, and_comm]

/-- **The array suffix makes a shape of a type** just where it closes a square body on one
line. -/
theorem isShape_append_arraySuffix_iff {s : Text} :
    isShape (s ++ arraySuffix) = true ↔ OpensSquare s ∧ '\n' ∉ s := by
  obtain ⟨name, y, rfl, hname, hy⟩ := exists_eq_name_append s
  have hline : '\n' ∉ name := fun h => absurd (hname _ h) (by decide)
  rw [opensSquare_append_iff hname hy]
  cases y with
  | nil =>
    rw [List.append_nil, isShape_append hname fun c hc => by cases hc; rfl]
    simp [show isBracketed arraySuffix = false from rfl]
  | cons c y =>
    have hy' : ∀ d ∈ (c :: y ++ arraySuffix).head?, isHeadChar d = false := hy
    rw [List.append_assoc, isShape_append hname hy', List.cons_append, isBracketed_cons_append]
    by_cases hc : c = '['
    · subst hc
      simp [closerOf_eq_square_iff, isBody_append_iff, hline, and_assoc]
    · simp [closerOf_eq_square_iff, hc]

theorem ne_lineFeed_of_closerOf {opener closer : Char} (h : closerOf opener = some closer) :
    opener ≠ '\n' ∧ closer ≠ '\n' := by
  constructor
  · rintro rfl
    cases h
  · rintro rfl
    unfold closerOf at h
    split at h
    · cases h
    · cases h
    · split at h <;> cases h

theorem lineFeed_not_mem_of_isBracketed : ∀ {y : Text}, isBracketed y = true → '\n' ∉ y
  | [], h => by cases h
  | opener :: y, h => by
    rw [isBracketed] at h
    cases hc : closerOf opener with
    | none =>
      rw [hc] at h
      cases h
    | some closer =>
      simp only [hc, isBody, Bool.and_eq_true, beq_iff_eq, decide_eq_true_eq] at h
      obtain ⟨hlast, ⟨-, hbody⟩, -⟩ := h
      obtain ⟨hopener, hcloser⟩ := ne_lineFeed_of_closerOf hc
      rw [← List.dropLast_append_getLast? closer hlast]
      simp [hbody, hopener.symm, hcloser.symm]

/-- A shape is on one line. -/
theorem lineFeed_not_mem_of_isShape {s : Text} (h : isShape s = true) : '\n' ∉ s := by
  obtain ⟨name, y, rfl, hname, hy⟩ := exists_eq_name_append s
  have hline : '\n' ∉ name := fun h => absurd (hname _ h) (by decide)
  rw [isShape_append hname hy, Bool.and_eq_true] at h
  simpa [hline] using lineFeed_not_mem_of_isBracketed h.2

/-- A type that begins with no open square body begins with none before a suffix. -/
theorem OpensSquare.of_append {s : Text} (h : OpensSquare (s ++ arraySuffix)) :
    OpensSquare s := by
  obtain ⟨name, y, rfl, hname, hy⟩ := exists_eq_name_append s
  cases y with
  | nil =>
    rw [List.append_nil, opensSquare_append_iff hname fun c hc => by cases hc; rfl] at h
    obtain ⟨-, rest, he, hrest⟩ := h
    cases he
    exact absurd rfl hrest
  | cons c y =>
    have hy' : ∀ d ∈ (c :: y ++ arraySuffix).head?, isHeadChar d = false := hy
    rw [List.append_assoc, opensSquare_append_iff hname hy'] at h
    obtain ⟨hne, rest, he, hrest⟩ := h
    obtain ⟨rfl, rfl⟩ := List.cons.inj he
    refine (opensSquare_append_iff hname hy).mpr ⟨hne, y, rfl, fun hclose => hrest ?_⟩
    show (y ++ arraySuffix).head? = some ']'
    rw [List.head?_append, hclose]
    rfl

/-- Only a verbatim form has one with a suffix behind it, unless a body is left open. -/
theorem isVerbatim_of_append_arraySuffix {s : Text} (hs : isShape s = true ∨ ¬ OpensSquare s)
    (h : isVerbatim (s ++ arraySuffix) = true) : isVerbatim s = true := by
  cases s with
  | nil => cases h
  | cons c s =>
    have hparen : isParenthesised (c :: s ++ arraySuffix) = isParenthesised (c :: s) := rfl
    have hliteral : isLiteral (c :: s ++ arraySuffix) = isLiteral (c :: s) := rfl
    rw [isVerbatim, isSignature_append_right _ (by decide), hparen, hliteral] at h
    rw [isVerbatim]
    cases hshape : isShape (c :: s) with
    | true => rfl
    | false =>
      have hopen : ¬ OpensSquare (c :: s) := by simpa [hshape] using hs
      have happend : isShape (c :: s ++ arraySuffix) = false := by
        rw [Bool.eq_false_iff]
        exact fun h => hopen (isShape_append_arraySuffix_iff.mp h).1
      rwa [happend] at h

/-! ### Suffixes behind a type -/

/-- A type behind which a suffix is read as one: it does not end in padding, and without
the padding in front of it, it is a whole shape or begins with no open square body. -/
structure Suffixable (t : Text) : Prop where
  last : ∀ c ∈ t.getLast?, isPadding c = false
  closed : isShape (stripPadding t) = true ∨ ¬ OpensSquare (stripPadding t)

theorem Suffixable.stripPadding_append {t : Text} (ht : Suffixable t) :
    stripPadding (t ++ arraySuffix) = stripPadding t ++ arraySuffix :=
  Text.trim_append ht.last
    ⟨fun c hc => by cases hc; rfl, fun c hc => by cases hc; rfl⟩ (by decide)

/-- A suffix leaves no body open. -/
theorem Suffixable.append_arraySuffix {t : Text} (ht : Suffixable t) :
    Suffixable (t ++ arraySuffix) := by
  refine ⟨fun c hc => ?_, ?_⟩
  · rw [List.getLast?_append_of_ne_nil _ (by decide)] at hc
    cases hc
    rfl
  · rw [ht.stripPadding_append]
    by_cases ho : OpensSquare (stripPadding t)
    · have hshape : isShape (stripPadding t) = true := ht.closed.resolve_right (not_not_intro ho)
      exact Or.inl (isShape_append_arraySuffix_iff.mpr ⟨ho, lineFeed_not_mem_of_isShape hshape⟩)
    · exact Or.inr fun ho' => ho ho'.of_append

theorem Suffixable.append_suffixes {t : Text} (ht : Suffixable t) :
    ∀ n, Suffixable (t ++ suffixes n)
  | 0 => by rwa [suffixes, List.append_nil]
  | n + 1 => by
    rw [suffixes, ← List.append_assoc]
    exact (ht.append_suffixes n).append_arraySuffix

theorem map_append_suffixes_zero (outcome : Except Fault Text) :
    outcome.map (· ++ suffixes 0) = outcome := by
  cases outcome with
  | error fault => rfl
  | ok r => simp [Except.map, suffixes]

theorem map_append_suffixes_succ (outcome : Except Fault Text) (n : Nat) :
    (outcome.map (· ++ suffixes n)).map (· ++ arraySuffix) =
      outcome.map (· ++ suffixes (n + 1)) := by
  cases outcome with
  | error fault => rfl
  | ok r => simp [Except.map, suffixes]

/-- Behind a planned array comes the suffix, and all else is as for its element. -/
theorem Session.carryOut_arrayOf (s : Session) (p : Plan) :
    s.carryOut p.arrayOf = ((s.carryOut p).1.map (· ++ arraySuffix), (s.carryOut p).2) := by
  cases p with
  | settled r => rfl
  | ask name known unknown note =>
    simp only [Plan.arrayOf, carryOut]
    rcases s.ask name with ⟨answer | answer, s'⟩
    · rfl
    · cases answer <;> rfl

namespace Expander

/-- **An array resolves by its element.** -/
theorem expand_of_array {e : Expander} {t x : Text} (hv : isVerbatim (stripPadding t) = false)
    (hx : arrayElement? (stripPadding t) = some x) :
    e.expand t = ((e.expand x).1.map (· ++ arraySuffix), (e.expand x).2) := by
  rw [expand, Scope.plan_of_array hv hx, Session.carryOut_arrayOf]
  rfl

theorem expand_stripPadding (e : Expander) (t : Text) :
    e.expand (stripPadding t) = e.expand t := by
  rw [expand, expand, Scope.plan_stripPadding]

theorem expand_append_arraySuffix (e : Expander) {t : Text} (ht : Suffixable t) :
    e.expand (t ++ arraySuffix) = ((e.expand t).1.map (· ++ arraySuffix), (e.expand t).2) := by
  have hstrip := ht.stripPadding_append
  cases hv : isVerbatim (stripPadding t ++ arraySuffix) with
  | false =>
    rw [← hstrip] at hv
    have hx : arrayElement? (stripPadding (t ++ arraySuffix)) = some (stripPadding t) := by
      rw [hstrip]
      exact arrayElement?_append _
    rw [expand_of_array hv hx, expand_stripPadding]
  | true =>
    -- the suffix belongs to the form, which is kept with it and without it
    have hvt : isVerbatim (stripPadding t) = true := isVerbatim_of_append_arraySuffix ht.closed hv
    have hne : stripPadding t ≠ [] := fun h => by
      rw [h] at hvt
      cases hvt
    have hne' : stripPadding (t ++ arraySuffix) ≠ [] := by
      rw [hstrip]
      exact List.append_ne_nil_of_left_ne_nil hne _
    rw [← hstrip] at hv
    rw [expand_of_plan_eq (Scope.plan_of_verbatim hne hvt),
      expand_of_plan_eq (Scope.plan_of_verbatim hne' hv), hstrip]
    rfl

/-- **Array suffixes resolve element-wise.** Behind a type that does not end in padding
and leaves no square body open, `n` suffixes come behind what the type resolves to; it
fails as the type does, and the registry is asked what it is asked for the type. -/
theorem expand_suffixes (e : Expander) {t : Text} (ht : Suffixable t) (n : Nat) :
    e.expand (t ++ suffixes n) = ((e.expand t).1.map (· ++ suffixes n), (e.expand t).2) := by
  induction n with
  | zero => rw [map_append_suffixes_zero, suffixes, List.append_nil]
  | succ n ih =>
    rw [suffixes, ← List.append_assoc, expand_append_arraySuffix e (ht.append_suffixes n), ih,
      map_append_suffixes_succ, suffixes]

/-- A shape whose body is square, so that it takes the suffixes in. -/
theorem expand_suffixes_squareShape :
    let e := create {} none (.ofNames ["Foo".toList] false) true false
    let t := " Foo[Bar]".toList
    Suffixable t ∧ e.expand (t ++ suffixes 2) = (.ok "Foo[Bar][][]".toList, e) := by
  intro e t
  have hlast : t.getLast? = some ']' := by decide +kernel
  have hshape : isShape (stripPadding t) = true := by decide +kernel
  have ht : Suffixable t := ⟨fun c hc => by rw [hlast] at hc; cases hc; rfl, Or.inl hshape⟩
  have hexpand : e.expand t = (.ok "Foo[Bar]".toList, e) :=
    expand_of_plan_eq (Scope.plan_of_verbatim (by decide +kernel) (by decide +kernel))
  refine ⟨ht, ?_⟩
  rw [expand_suffixes e ht 2, hexpand]
  rfl

end Expander

/-! ### The innermost element -/

namespace Scope

/-- An array is no verbatim form, and its element is what stands before the suffix. -/
theorem arrayElement?_of_kind?_array {σ : Scope} {t : Text} (h : σ.kind? t = some .array) :
    isVerbatim (stripPadding t) = false ∧
      arrayElement? (stripPadding t) = some (stripPadding t).dropLast.dropLast := by
  have hne : stripPadding t ≠ [] := fun hnil => by
    rw [kind?, if_pos hnil] at h
    cases h
  have hv : isVerbatim (stripPadding t) = false := by
    rw [Bool.eq_false_iff]
    intro hv
    rcases kind?_of_verbatim (σ := σ) hne hv with hk | hk | hk
    all_goals
      rw [h] at hk
      cases hk
  refine ⟨hv, ?_⟩
  have hkind := kind?_of_not_verbatim (σ := σ) hne hv
  rw [h] at hkind
  cases he : arrayElement? (stripPadding t) with
  | some x => simp [eq_append_of_arrayElement? he, arraySuffix]
  | none =>
    rw [isArray, he, if_neg (by simp)] at hkind
    split_ifs at hkind <;> cases hkind

theorem length_lt_of_kind?_array {σ : Scope} {t : Text} (h : σ.kind? t = some .array) :
    (stripPadding t).dropLast.dropLast.length < t.length :=
  length_lt_of_arrayElement? (arrayElement?_of_kind?_array h).2

/-- What is left of a type without the padding around it, when the suffix and the padding
before it are dropped as long as the kind is an array's; and how many suffixes are
dropped. -/
def innermost (σ : Scope) (t : Text) : Text × Nat :=
  if h : σ.kind? t = some .array then
    let inner := σ.innermost (stripPadding t).dropLast.dropLast
    (inner.1, inner.2 + 1)
  else (stripPadding t, 0)
termination_by t.length
decreasing_by exact length_lt_of_kind?_array h

/-- The innermost element has no padding around it and is no array. -/
theorem innermost_spec (σ : Scope) (t : Text) :
    stripPadding (σ.innermost t).1 = (σ.innermost t).1 ∧
      σ.kind? (σ.innermost t).1 ≠ some .array := by
  fun_induction innermost σ t with
  | case1 t h inner ih => exact ih
  | case2 t h => exact ⟨stripPadding_stripPadding t, by rwa [kind?_stripPadding]⟩

end Scope

namespace Expander

/-- By induction over the suffixes that are dropped. -/
theorem expand_eq_innermost (e : Expander) (t : Text) :
    e.expand t = ((e.expand (e.scope.innermost t).1).1.map (· ++ suffixes (e.scope.innermost t).2),
      (e.expand (e.scope.innermost t).1).2) := by
  fun_induction Scope.innermost e.scope t with
  | case1 t h inner ih =>
    obtain ⟨hv, hx⟩ := Scope.arrayElement?_of_kind?_array h
    rw [expand_of_array hv hx, ih, map_append_suffixes_succ]
  | case2 t h => rw [map_append_suffixes_zero, expand_stripPadding]

end Expander

/-! ### Questions -/

/-- The levels at which some events are logged, in order. -/
def logLevels (events : List Event) : List Level :=
  events.filterMap fun event => event.record?.map (·.level)

namespace Expander

/-- Resolving the class name `b` asks the registry once, about `b`. A name that is known
is made absolute as it is written, and nothing is logged. An unknown one is resolved by
the context, which is logged at the level for debugging. So is one for which the registry
fails, behind a warning, unless failures are handed on. -/
def AsksOnce (e : Expander) (b : Text) : Prop :=
  let asked := e.session.registry.knows b
  let resolution := e.scope.context.resolve b
  let note := resolution.note b
  ∃ outcome events,
    e.expand b = (outcome,
      ⟨e.scope, { e.session with registry := asked.2, trace := e.session.trace ++ events }⟩) ∧
    match asked.1 with
    | .ok true =>
      outcome = .ok (separator :: b) ∧ events = [.asked b] ∧ logLevels events = []
    | .ok false =>
      outcome = .ok resolution.name ∧ events = [.asked b, note] ∧ logLevels events = [.debug]
    | .error fault =>
      if e.session.failOpen then
        outcome = .ok resolution.name ∧ events = [.asked b, .probeFailed b fault, note] ∧
          logLevels events = [.warning, .debug]
      else outcome = .error fault ∧ events = [.asked b] ∧ logLevels events = []

theorem asksOnce_of_plan {e : Expander} {b : Text} (h : e.scope.plan b = e.scope.reference b) :
    e.AsksOnce b := by
  -- a resolution is noted at the level for debugging, whether an alias was replaced or not
  have hnote : ∀ events, logLevels (events ++ [(e.scope.context.resolve b).note b]) =
      logLevels events ++ [.debug] := fun events => by
    cases e.scope.context.resolve b <;> simp [logLevels, Resolution.note, Event.record?]
  unfold AsksOnce
  rw [expand, h, Scope.reference]
  simp only [Session.carryOut]
  rcases e.session.ask_cases b with
    ⟨known, r, hk, ha⟩ | ⟨fault, r, hk, hopen, ha⟩ | ⟨fault, r, hk, hopen, ha⟩
  · rw [ha, hk]
    cases known with
    | true => exact ⟨_, [.asked b], rfl, rfl, rfl, rfl⟩
    | false =>
      refine ⟨_, [.asked b, _], ?_, rfl, rfl, hnote [.asked b]⟩
      simp [Session.record]
  · rw [ha, hk]
    simp only [hopen, if_true]
    refine ⟨_, [.asked b, .probeFailed b fault, _], ?_, rfl, rfl,
      hnote [.asked b, .probeFailed b fault]⟩
    simp [Session.record]
  · rw [ha, hk]
    simp only [hopen, Bool.false_eq_true, if_false]
    exact ⟨_, [.asked b], rfl, rfl, rfl, rfl⟩

/-- **The kind of the innermost element tells what resolution does.** A type resolves to
what its innermost element resolves to, with the suffixes behind it, and does nothing else.
Where the kind of the element is not a class, or the element is an absolute name, nothing
is asked and logged: padding resolves to nothing, and all else to itself. Any other class
name is asked about once. -/
theorem expand_innermost (e : Expander) (t : Text) :
    let b := (e.scope.innermost t).1
    let k := (e.scope.innermost t).2
    e.expand t = ((e.expand b).1.map (· ++ suffixes k), (e.expand b).2) ∧
      match e.scope.kind? b with
      | none => e.expand b = (.ok [], e)
      | some .array => False
      | some .classRef => if isAbsolute b then e.expand b = (.ok b, e) else e.AsksOnce b
      | some _ => e.expand b = (.ok b, e) := by
  intro b k
  refine ⟨e.expand_eq_innermost t, ?_⟩
  obtain ⟨hst, hkind⟩ := e.scope.innermost_spec t
  have hplan := e.scope.plan_of_kind b
  rw [show stripPadding b = b from hst] at hplan
  split
  · next hk =>
    rw [hk] at hplan
    exact expand_of_plan_eq hplan
  · next hk => exact hkind hk
  · next hk =>
    simp only [hk] at hplan
    cases ha : isAbsolute b with
    | true =>
      rw [ha] at hplan
      exact expand_of_plan_eq hplan
    | false =>
      rw [ha] at hplan
      exact asksOnce_of_plan hplan
  · next kind harray hclass hk =>
    rw [hk] at hplan
    cases kind with
    | array => exact absurd rfl harray
    | classRef => exact absurd rfl hclass
    | _ => exact expand_of_plan_eq hplan

end Expander
end DocTypes
