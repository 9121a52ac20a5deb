/-
# Contexts in normal form

`Context.create` brings raw declarations into normal form (`Context.Normal`): the namespace
has no separator at its ends and no name that is reserved for the global one, and an alias
target has one separator in front and none at the end. The contexts in normal form are just
the ones that `Context.create` leaves alone (`Context.normal_iff`), so that it changes
nothing when it is done again (`Context.create_normalForm`). The context of a source is
such a context, whatever the text is.

Generic parameters and targets in normal form may be added to a context in normal form.
There, a class name resolves to an absolute name, whatever the registry answers
(`Expander.isAbsolute_of_expand`).

Key definitions: `NormalNamespace`, `NormalTarget`, `Context.Normal`.
Key theorems: `normalNamespace_eq_self_iff`, `rooted_eq_self_iff`, `Context.normal_iff`,
`Context.create_normalForm`, `Expander.isAbsolute_of_expand`.
-/
import DocTypes.Proofs.Expander
import DocTypes.Source.Header

namespace DocTypes

variable {s : Text}

/-! ### Namespaces -/

/-- A namespace without separators at its ends, and not under a reserved name. -/
structure NormalNamespace (s : Text) : Prop where
  first : s.head? ≠ some separator
  last : s.getLast? ≠ some separator
  notGlobal : s ∉ globalNamespaces

/-- There are no separators to trim. -/
theorem trimmed_separator_iff :
    Text.Trimmed (· == separator) s ↔ s.head? ≠ some separator ∧ s.getLast? ≠ some separator := by
  have hne : ∀ o : Option Char, (∀ c ∈ o, (c == separator) = false) ↔ o ≠ some separator := by
    intro o
    cases o with
    | none => simp
    | some c => simp
  constructor
  · intro h
    exact ⟨(hne _).mp h.first, (hne _).mp h.last⟩
  · intro h
    exact ⟨(hne _).mpr h.1, (hne _).mpr h.2⟩

theorem trimmed_stripSeparators (s : Text) : Text.Trimmed (· == separator) (stripSeparators s) :=
  Text.trimmed_trim _ s

theorem normal_normalNamespace (s : Text) : NormalNamespace (normalNamespace s) := by
  unfold normalNamespace
  by_cases hg : stripSeparators s ∈ globalNamespaces
  · rw [if_pos hg]
    exact ⟨by simp, by simp, by decide⟩
  · rw [if_neg hg]
    obtain ⟨hfirst, hlast⟩ := trimmed_separator_iff.mp (trimmed_stripSeparators s)
    exact ⟨hfirst, hlast, hg⟩

/-- **The namespaces in normal form** are the ones that stay as they are declared. -/
theorem normalNamespace_eq_self_iff : normalNamespace s = s ↔ NormalNamespace s := by
  constructor
  · intro h
    rw [← h]
    exact normal_normalNamespace s
  · intro h
    have hstrip : stripSeparators s = s :=
      Text.trim_eq_self_iff.mpr (trimmed_separator_iff.mpr ⟨h.first, h.last⟩)
    rw [normalNamespace, hstrip, if_neg h.notGlobal]

/-! ### Alias targets -/

/-- An alias target with a separator in front, no second one behind it, and none at the end
but for the one in front. -/
structure NormalTarget (s : Text) : Prop where
  first : s.head? = some separator
  second : s.tail.head? ≠ some separator
  last : s.getLast? = some separator → s = [separator]

/-- Behind the separator in front stands a name without separators at its ends. -/
theorem normalTarget_cons_iff :
    NormalTarget (separator :: s) ↔ Text.Trimmed (· == separator) s := by
  rw [trimmed_separator_iff]
  constructor
  · intro h
    refine ⟨h.second, fun hlast => ?_⟩
    have hone : separator :: s = [separator] := h.last (by rw [List.getLast?_cons, hlast]; rfl)
    rw [List.tail_eq_of_cons_eq hone] at hlast
    cases hlast
  · rintro ⟨hfirst, hlast⟩
    refine ⟨rfl, hfirst, fun hl => ?_⟩
    rw [List.getLast?_cons] at hl
    cases hs : s.getLast? with
    | none => rw [List.getLast?_eq_none_iff.mp hs]
    | some c =>
      rw [hs] at hl hlast
      exact absurd hl hlast

theorem NormalTarget.exists_eq_cons (h : NormalTarget s) :
    ∃ name, s = separator :: name ∧ Text.Trimmed (· == separator) name := by
  obtain ⟨name, rfl⟩ := List.head?_eq_some_iff.mp h.first
  exact ⟨name, rfl, normalTarget_cons_iff.mp h⟩

theorem NormalTarget.isAbsolute_append (h : NormalTarget s) (x : Text) :
    isAbsolute (s ++ x) = true := by
  obtain ⟨name, rfl, -⟩ := h.exists_eq_cons
  rfl

theorem normalTarget_rooted (s : Text) : NormalTarget (rooted s) :=
  normalTarget_cons_iff.mpr (trimmed_stripSeparators s)

/-- **The alias targets in normal form** are the ones that stay as they are declared. -/
theorem rooted_eq_self_iff : rooted s = s ↔ NormalTarget s := by
  constructor
  · intro h
    rw [← h]
    exact normalTarget_rooted s
  · intro h
    obtain ⟨name, rfl, hname⟩ := h.exists_eq_cons
    have hfront : ∀ c ∈ [separator], (c == separator) = true := by simp
    have hstrip : stripSeparators (separator :: name) = name :=
      calc stripSeparators ([separator] ++ name)
        _ = stripSeparators name := Text.trim_append_left hfront name
        _ = name := hname.trim_eq
    rw [rooted, hstrip]

/-! ### Contexts -/

namespace Context

/-- A context with its namespace and all its alias targets in normal form. -/
structure Normal (c : Context) : Prop where
  namespaceName : NormalNamespace c.namespaceName
  target : ∀ e ∈ c.aliases.entries, NormalTarget e.2

variable {c : Context}

theorem normal_create (namespaceName : Text) (aliases : Table Text Text) (generics : List Text) :
    (create namespaceName aliases generics).Normal := by
  refine ⟨normal_normalNamespace namespaceName, fun e he => ?_⟩
  obtain ⟨declared, -, rfl⟩ := List.mem_map.mp he
  exact normalTarget_rooted declared.2

/-- **The contexts in normal form** are the ones that are made of their own namespace,
aliases and generic parameters. -/
theorem normal_iff : c.Normal ↔ create c.namespaceName c.aliases c.generics = c := by
  constructor
  · intro h
    have hnamespace : normalNamespace c.namespaceName = c.namespaceName :=
      normalNamespace_eq_self_iff.mpr h.namespaceName
    have haliases : c.aliases.map rooted = c.aliases :=
      Table.map_eq_self_iff.mpr fun e he => rooted_eq_self_iff.mpr (h.target e he)
    rw [create, hnamespace, haliases]
  · intro h
    rw [← h]
    exact normal_create c.namespaceName c.aliases c.generics

instance : Decidable c.Normal := decidable_of_iff _ normal_iff.symm

/-- **Raw declarations are brought into normal form**: the namespace has no separator at
either end and no reserved name, and every alias target one separator in front and none at
the end. The short names and the generic parameters stay as they are, in their order, and
doing it again changes nothing: what is left alone are just the contexts in normal form.
The context of a source is one of them. -/
theorem create_normalForm (namespaceName : Text) (aliases : Table Text Text)
    (generics : List Text) (source : Text) :
    let c := create namespaceName aliases generics
    c.Normal ∧ c.aliases.keys = aliases.keys ∧ c.generics = generics ∧
      create c.namespaceName c.aliases c.generics = c ∧ (contextOf source).Normal ∧
      ∀ d : Context, d.Normal ↔ create d.namespaceName d.aliases d.generics = d := by
  intro c
  have hnormal : c.Normal := normal_create namespaceName aliases generics
  have hkeys : c.aliases.keys = aliases.keys := Table.keys_map rooted aliases
  have hsource : (contextOf source).Normal := normal_create _ _ _
  exact ⟨hnormal, hkeys, rfl, normal_iff.mp hnormal, hsource, fun _ => normal_iff⟩

/-- A reserved name shows only when the separators around it are gone, and a target of
separators alone becomes a single one. -/
example :
    create "\\default\\".toList (.ofList [("Root".toList, "\\\\\\".toList)]) ["T".toList] =
      ⟨[], .ofList [("Root".toList, "\\".toList)], ["T".toList]⟩ := by
  decide +kernel

theorem Normal.withGenerics (h : c.Normal) (names : List Text) : (c.withGenerics names).Normal :=
  ⟨h.namespaceName, h.target⟩

/-- An alias is stored with its target as it is given, which is to be in normal form. -/
theorem Normal.withAlias (h : c.Normal) (name : Text) {target : Text}
    (ht : NormalTarget target) : (c.withAlias name target).Normal := by
  refine ⟨h.namespaceName, fun e he => ?_⟩
  rcases Table.mem_entries_put he with rfl | he
  · exact ht
  · exact h.target e he

/-! ### Class names -/

/-- Neither an alias nor the namespace makes a relative name of a class name. -/
theorem Normal.isAbsolute_resolve (h : c.Normal) (s : Text) :
    isAbsolute (c.resolve s).name = true := by
  rcases c.resolve_cases s with
    ⟨owner, member, target, -, -, ht, hr⟩ | ⟨target, -, ht, hr⟩ | ⟨-, -, hr⟩
  · rw [hr, Resolution.name, List.append_assoc]
    exact (h.target _ (Table.mem_entries_of_find? ht)).isAbsolute_append _
  · rw [hr, Resolution.name]
    exact (h.target _ (Table.mem_entries_of_find? ht)).isAbsolute_append _
  · rw [hr]
    rfl

end Context

/-- **A class name resolves to an absolute name** in a context in normal form, whatever a
registry answers. -/
theorem Expander.isAbsolute_of_expand {e e' : Expander} (h : e.scope.context.Normal)
    {t r : Text} (hk : e.scope.kind? t = some .classRef) (hr : e.expand t = (.ok r, e')) :
    isAbsolute r = true := by
  have hmem : r ∈ (e.scope.plan t).results := mem_results_of_expand hr
  have hplan := e.scope.plan_of_kind t
  simp only [hk] at hplan
  cases ha : isAbsolute (stripPadding t) with
  | true =>
    rw [hplan, ha, if_pos rfl, Plan.results, List.mem_singleton] at hmem
    rw [hmem, ha]
  | false =>
    rw [hplan, ha, if_neg Bool.false_ne_true] at hmem
    have hcases : r = separator :: stripPadding t ∨
        r = (e.scope.context.resolve (stripPadding t)).name := by
      simpa [Scope.reference, Plan.results] using hmem
    rcases hcases with rfl | rfl
    · rfl
    · exact h.isAbsolute_resolve _

end DocTypes
