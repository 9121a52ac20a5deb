/-
# Names as lists of segments

A class name is its segments, with separators between them. Resolution works on the
text of the name, but what it does is resolution on segments (`resolveSegments`): a
known name stays as it is, an alias gives its segments for the first one, and all
else goes behind the segments of the namespace (`Expander.expand_segments`). The
context is one in normal form, made of a namespace and alias targets without empty
segments.

So the resolved name has one separator in front and no empty segment
(`Segmented.wellRooted`), because neither of the parts that are put together has one
and separators are put between them and nowhere else (`rootedName_append`).

Key definitions: `segmentsOf`, `rootedName`, `resolveSegments`, `WellRooted`.
Key theorems: `NestedName.plan_eq`, `NestedName.name_resolve`,
`Segmented.wellRooted`, `Expander.expand_segments`.
-/
import DocTypes.Proofs.Names
import DocTypes.Proofs.Registry

namespace DocTypes

/-! ### Segments -/

/-- The segments of a name; the empty name has none. -/
def segmentsOf (s : Text) : List Text := if s = [] then [] else Text.cutAll separator s

/-- The name of some segments, from the root. -/
def rootedName (segments : List Text) : Text := separator :: Text.join separator segments

/-- One separator in front, none at the end, and no empty segment in between. -/
def WellRooted (r : Text) : Prop :=
  ∃ name, r = separator :: name ∧ name.head? ≠ some separator ∧ r.getLast? ≠ some separator ∧
    ∀ segment ∈ Text.cutAll separator name, segment ≠ []

/-- At least one segment, none of them empty. -/
structure Segmented (segments : List Text) : Prop where
  ne_nil : segments ≠ []
  segment : ∀ s ∈ segments, s ≠ [] ∧ separator ∉ s

theorem rootedName_segmentsOf (s : Text) : rootedName (segmentsOf s) = separator :: s := by
  unfold segmentsOf rootedName
  split
  · next h => rw [h]; rfl
  · rw [Text.join_cutAll]

theorem segmented_segmentsOf {s : Text} (hne : segmentsOf s ≠ [])
    (h : ∀ segment ∈ segmentsOf s, segment ≠ []) : Segmented (segmentsOf s) := by
  refine ⟨hne, fun segment hs => ⟨h segment hs, ?_⟩⟩
  unfold segmentsOf at hs
  split at hs
  · cases hs
  · exact Text.not_mem_of_mem_cutAll hs

/-- The segments behind others come behind a separator. -/
theorem rootedName_append {outer inner : List Text} (ho : outer ≠ []) (hi : inner ≠ []) :
    rootedName (outer ++ inner) = rootedName outer ++ rootedName inner := by
  rw [rootedName, Text.join_append separator ho hi]
  rfl

namespace Segmented

variable {segments : List Text}

theorem append {more : List Text} (h : Segmented segments)
    (hmore : ∀ s ∈ more, s ≠ [] ∧ separator ∉ s) : Segmented (segments ++ more) := by
  refine ⟨List.append_ne_nil_of_left_ne_nil h.ne_nil more, fun s hs => ?_⟩
  rcases List.mem_append.mp hs with hs | hs
  · exact h.segment s hs
  · exact hmore s hs

theorem head?_join (h : Segmented segments) :
    (Text.join separator segments).head? ≠ some separator := by
  obtain ⟨first, inner, rfl⟩ := List.exists_cons_of_ne_nil h.ne_nil
  obtain ⟨hne, hnot⟩ := h.segment first List.mem_cons_self
  obtain ⟨c, cs, rfl⟩ := List.exists_cons_of_ne_nil hne
  have hhead : (Text.join separator ((c :: cs) :: inner)).head? = some c := by
    cases inner <;> rfl
  rw [hhead]
  exact fun e => hnot (Option.some.inj e ▸ List.mem_cons_self)

theorem getLast?_rootedName (h : Segmented segments) :
    (rootedName segments).getLast? ≠ some separator := by
  have hlast := h.segment _ (List.getLast_mem h.ne_nil)
  have hsuffix : segments.getLast h.ne_nil <:+ rootedName segments := by
    by_cases hd : segments.dropLast = []
    · have hs := List.dropLast_append_getLast h.ne_nil
      rw [hd, List.nil_append] at hs
      conv_rhs => rw [← hs]
      exact List.suffix_cons _ _
    · conv_rhs => rw [← List.dropLast_append_getLast h.ne_nil]
      rw [rootedName_append hd (List.cons_ne_nil _ _)]
      exact (List.suffix_cons _ _).trans (List.suffix_append _ _)
  rw [← getLast?_of_suffix hsuffix hlast.1]
  exact fun e => hlast.2 (List.mem_of_getLast? e)

/-- **A name of segments from the root** is one in good shape. -/
theorem wellRooted (h : Segmented segments) : WellRooted (rootedName segments) := by
  refine ⟨_, rfl, h.head?_join, h.getLast?_rootedName, fun segment hs => ?_⟩
  rw [Text.cutAll_join h.ne_nil fun s hs => (h.segment s hs).2] at hs
  exact (h.segment segment hs).1

end Segmented

/-! ### Nested names -/

namespace NestedName

variable (n : NestedName)

theorem segmented : Segmented n.segments :=
  ⟨n.ne_nil, fun s hs => ⟨(n.isName s hs).ne_nil, (n.isName s hs).separator_not_mem⟩⟩

theorem nameChars : NameChars n.text := fun _ hc => Or.inl (n.isNamespaceChar_of_mem hc)

theorem isAbsolute_text : isAbsolute n.text = false := isAbsolute_eq_false fun c hc => by
  rintro rfl
  exact n.segmented.head?_join hc

/-- A nested name that is neither a keyword nor a generic parameter is a class. -/
theorem plan_eq {σ : Scope} (hk : isKeyword n.text = false) (hg : σ.isGeneric n.text = false) :
    σ.plan n.text = σ.reference n.text := by
  rw [n.nameChars.plan_eq n.text_ne_nil, n.isAbsolute_text, hk, hg]
  rfl

/-- What an alias replaces is the first segment, and a separator comes behind it if
there are more. -/
theorem before_append_dropWhile {first : Text} {inner : List Text}
    (hs : n.segments = first :: inner) :
    n.text.before separator = first ∧
      n.text.dropWhile (· != separator) = if inner = [] then [] else rootedName inner := by
  have hfirst : ∀ c ∈ first, (c != separator) = true := fun c hc => by
    rw [bne_iff_ne]
    exact (n.isName first (by rw [hs]; exact List.mem_cons_self)).ne_separator hc
  rw [text, hs]
  cases inner with
  | nil =>
    exact ⟨List.takeWhile_eq_self_iff.mpr hfirst, List.dropWhile_eq_nil_iff.mpr hfirst⟩
  | cons next inner =>
    rw [Text.join, Text.before, List.takeWhile_append_of_pos hfirst,
      List.dropWhile_append_of_pos hfirst]
    simp [rootedName]

/-- A nested name has no member: it resolves by its first segment, or in the
namespace. -/
theorem name_resolve (c : Context) {first : Text} {inner : List Text}
    (hs : n.segments = first :: inner) :
    (c.resolve n.text).name =
      match c.aliases.find? first with
      | some target => target ++ if inner = [] then [] else rootedName inner
      | none => c.qualify n.text := by
  obtain ⟨hbefore, hrest⟩ := n.before_append_dropWhile hs
  have hname : IsName first := n.isName first (by rw [hs]; exact List.mem_cons_self)
  have hresolve := c.name_resolve (hbefore ▸ hname.memberParts?_eq_none)
  rw [hbefore, hrest] at hresolve
  exact hresolve

end NestedName

/-! ### Resolution -/

/-- Resolves a name by its segments: it stays when it is `known`, its first segment is
replaced when that stands for others, and otherwise it comes behind `outer`. -/
def resolveSegments (outer : List Text) (target? : Text → Option (List Text)) (known : Bool) :
    List Text → List Text
  | [] => []
  | first :: inner =>
    if known then first :: inner
    else
      match target? first with
      | some target => target ++ inner
      | none => outer ++ first :: inner

/-- A namespace in normal form has the segments of the one that is declared, or none. -/
theorem forall_segmentsOf_normalNamespace {s : Text}
    (h : ∀ segment ∈ segmentsOf (stripSeparators s), segment ≠ []) :
    ∀ segment ∈ segmentsOf (normalNamespace s), segment ≠ [] := by
  unfold normalNamespace
  split
  · simp [segmentsOf]
  · exact h

/-- A name that is placed comes behind the segments of the namespace. -/
theorem NestedName.qualify_text (n : NestedName) (c : Context) :
    c.qualify n.text = rootedName (segmentsOf c.namespaceName ++ n.segments) := by
  unfold Context.qualify
  split
  · next h => rw [h, segmentsOf, if_pos rfl]; rfl
  · next h =>
    have hne : segmentsOf c.namespaceName ≠ [] := by
      rw [segmentsOf, if_neg h]
      exact Text.cutAll_ne_nil separator c.namespaceName
    rw [rootedName_append hne n.ne_nil, rootedName_segmentsOf]
    rfl

/-- What stands for the first segment comes in front of the others. -/
theorem rooted_append {target : Text} {inner : List Text}
    (h : segmentsOf (stripSeparators target) ≠ []) :
    (rooted target ++ if inner = [] then [] else rootedName inner) =
      rootedName (segmentsOf (stripSeparators target) ++ inner) := by
  have htarget : rootedName (segmentsOf (stripSeparators target)) = rooted target :=
    rootedName_segmentsOf _
  split
  · next hi => rw [hi, List.append_nil, List.append_nil, htarget]
  · next hi => rw [rootedName_append h hi, htarget]

namespace Expander

/-- **Resolving a class name is resolving its segments**, in a context made of a
namespace and aliases without empty segments, with a registry that answers for the
name: a nested name that is neither a keyword nor a generic parameter resolves to the
name from the root of the segments that its own segments resolve to. That has one
separator in front, none at the end and no empty segment. -/
theorem expand_segments {namespaceName : Text} {aliases : Table Text Text}
    {declared : List Text}
    (hns : ∀ segment ∈ segmentsOf (stripSeparators namespaceName), segment ≠ [])
    (hal : ∀ a ∈ aliases.entries, segmentsOf (stripSeparators a.2) ≠ [] ∧
      ∀ segment ∈ segmentsOf (stripSeparators a.2), segment ≠ [])
    {e : Expander} (he : e.scope.context = .create namespaceName aliases declared)
    (n : NestedName) (hk : isKeyword n.text = false) (hg : e.scope.isGeneric n.text = false)
    {known : Bool} (hr : (e.session.registry.knows n.text).1 = .ok known) :
    let segments := resolveSegments (segmentsOf (normalNamespace namespaceName))
      (fun short => (aliases.find? short).map fun target => segmentsOf (stripSeparators target))
      known n.segments
    (e.expand n.text).1 = .ok (rootedName segments) ∧ WellRooted (rootedName segments) := by
  intro segments
  obtain ⟨first, inner, hs⟩ := List.exists_cons_of_ne_nil n.ne_nil
  have hinner : ∀ s ∈ inner, s ≠ [] ∧ separator ∉ s := fun s hm =>
    n.segmented.segment s (hs ▸ List.mem_cons_of_mem first hm)
  have hexpand : (e.expand n.text).1 =
      .ok (if known then rootedName n.segments else (e.scope.context.resolve n.text).name) := by
    rw [expand, n.plan_eq hk hg]
    exact Session.carryOut_ask_of_knows hr _ _ _
  have hfind : e.scope.context.aliases.find? first = (aliases.find? first).map rooted := by
    rw [he]
    exact Table.find?_map rooted aliases first
  have hplaced : e.scope.context.qualify n.text =
      rootedName (segmentsOf (normalNamespace namespaceName) ++ n.segments) := by
    rw [n.qualify_text, he]
    rfl
  rw [n.name_resolve _ hs, hfind, hplaced] at hexpand
  have hsegments : segments = if known then first :: inner else
      match (aliases.find? first).map fun target => segmentsOf (stripSeparators target) with
      | some target => target ++ inner
      | none => segmentsOf (normalNamespace namespaceName) ++ first :: inner := by
    rw [← hs]
    simp only [segments, hs, resolveSegments]
  rw [hexpand, hsegments, ← hs]
  cases known with
  | true => exact ⟨rfl, n.segmented.wellRooted⟩
  | false =>
    cases ha : aliases.find? first with
    | some target =>
      obtain ⟨hne, hsegment⟩ := hal _ (Table.mem_entries_of_find? ha)
      have htarget := segmented_segmentsOf hne hsegment
      exact ⟨congrArg Except.ok (rooted_append hne), (htarget.append hinner).wellRooted⟩
    | none =>
      refine ⟨rfl, ?_⟩
      by_cases hne : segmentsOf (normalNamespace namespaceName) = []
      · rw [hne]
        exact n.segmented.wellRooted
      · have houter := segmented_segmentsOf hne (forall_segmentsOf_normalNamespace hns)
        exact (houter.append n.segmented.segment).wellRooted

/-- A part of what an alias stands for. -/
def partName : NestedName := ⟨["Item".toList, "Part".toList], by decide, by decide⟩

/-- An alias target written with separators around it. -/
def thingAlias : Table Text Text := .ofList [("Item".toList, "\\Lib\\Thing\\".toList)]

/-- The namespace is written with separators around it too. -/
theorem expand_segments_partName :
    let e := create (.create "\\App\\Models\\".toList thingAlias ["T".toList]) none
      (.ofNames ["Part".toList] false) true true
    (∀ segment ∈ segmentsOf (stripSeparators "\\App\\Models\\".toList), segment ≠ []) ∧
      (∀ a ∈ thingAlias.entries, segmentsOf (stripSeparators a.2) ≠ [] ∧
        ∀ segment ∈ segmentsOf (stripSeparators a.2), segment ≠ []) ∧
      (e.session.registry.knows partName.text).1 = .ok false ∧
      (e.expand partName.text).1 = .ok "\\Lib\\Thing\\Part".toList ∧
      WellRooted "\\Lib\\Thing\\Part".toList := by
  intro e
  have hns : ∀ segment ∈ segmentsOf (stripSeparators "\\App\\Models\\".toList), segment ≠ [] := by
    decide +kernel
  have hal : ∀ a ∈ thingAlias.entries, segmentsOf (stripSeparators a.2) ≠ [] ∧
      ∀ segment ∈ segmentsOf (stripSeparators a.2), segment ≠ [] := by
    decide +kernel
  have hr : (e.session.registry.knows partName.text).1 = .ok false := rfl
  exact ⟨hns, hal, hr, expand_segments hns hal (e := e) rfl partName (by decide +kernel)
    (by decide +kernel) hr⟩

end Expander
end DocTypes
