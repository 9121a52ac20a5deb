/-
# Declared names resolve to what is declared

The context of a source is read from its header, what it declares from the whole
of it. With one namespace statement, in front of all declarations, both find the
same namespace (`declaredTypes_eq`): the statement lies in the header as a whole,
and it is the last one before every declaration.

So a declared name resolves in the context of its source to its full name
(`Expander.expand_declared`), unless it is read as something else there. A
registry that has read the source does not get in between: it knows full names,
and no bare name has the look-up key of one in a namespace
(`IsName.lookupKey_ne`).

Key definitions: `LeadingNamespace`.
Key theorems: `head?_findLines_headerOf`, `declaredTypes_eq`,
`Expander.expand_declared`.
-/
import DocTypes.Proofs.Matches
import DocTypes.Proofs.Names
import DocTypes.Proofs.NormalForm
import DocTypes.Proofs.Registry

namespace DocTypes

variable {source : Text}

/-! ### The header -/

/-- The header of a source with declarations ends where the first of them begins,
at the start of a line. -/
theorem exists_eq_headerOf {d : Nat × Text} {ds : List (Nat × Text)}
    (h : findLines readDeclaration source = d :: ds) :
    ∃ x, source = headerOf source ++ x ∧ (headerOf source).length = d.1 ∧
      atLineStart true (headerOf source) = true ∧ BeginsDeclaration (x.dropWhile isBlank) := by
  have hd : d ∈ findAll readDeclaration false 0 true 0 source := by
    have hmem : d ∈ findLines readDeclaration source := by rw [h]; exact List.mem_cons_self
    exact hmem
  obtain ⟨u, x, rest, hs, ho, hl, hr⟩ := foundAt_of_mem_findAll source 0 true 0 d hd
  rw [Nat.zero_add] at ho
  have hu : headerOf source = u := by
    have ht : headerOf source = source.take d.1 := by unfold headerOf; rw [h]
    rw [ht, ho]
    conv_lhs => rw [hs]
    exact List.take_left
  rw [hu]
  exact ⟨x, hs, ho.symm, by simpa using hl, beginsDeclaration_of_readDeclaration hr⟩

/-- **The header holds the first namespace statement** when that starts before
the first declaration. -/
theorem head?_findLines_headerOf {d : Nat × Text} {ds : List (Nat × Text)}
    (h : findLines readDeclaration source = d :: ds)
    (hfirst : ∀ f ∈ (findLines readNamespace source).head?, f.1 < d.1) :
    (findLines readNamespace (headerOf source)).head? = (findLines readNamespace source).head? := by
  obtain ⟨x, hs, hlen, hline, hx⟩ := exists_eq_headerOf h
  have hread : ∀ u, u ≠ [] → u <:+ headerOf source →
      (readNamespace (u ++ x)).map (·.1) = (readNamespace u).map (·.1) := by
    intro u hu hsuf
    refine readNamespace_append ?_ hx
    rw [getLast?_of_suffix hsuf hu]
    unfold atLineStart at hline
    cases hlast : (headerOf source).getLast? with
    | none =>
      rw [List.getLast?_eq_none_iff] at hlast
      rw [hlast, List.suffix_nil] at hsuf
      exact absurd hsuf hu
    | some c =>
      rw [hlast] at hline
      simpa using hline
  have hsplit := head?_findAll_append false x (headerOf source) 0 true hread
  rw [← hs, Nat.zero_add, hlen] at hsplit
  unfold findLines at hfirst ⊢
  cases hh : (findAll readNamespace false 0 true 0 (headerOf source)).head? with
  | some f => rw [hsplit, hh]; rfl
  | none =>
    rw [hh, Option.none_or] at hsplit
    cases hrest : (findAll readNamespace false 0 true 0 source).head? with
    | none => rfl
    | some f =>
      -- a statement behind the header would start too late
      have hlt := hfirst f hrest
      rw [hsplit] at hrest
      have hle := le_of_mem_findAll x _ _ _ f (List.mem_of_head? hrest)
      omega

/-! ### The namespace -/

/-- The condition on the namespace statements of a source under which its
declarations belong to the namespace of its context: at most one, in front of
the first declaration, and not under a reserved name. -/
structure LeadingNamespace (source : Text) : Prop where
  atMostOne : (namespacesOf source).length ≤ 1
  before : ∀ st ∈ namespacesOf source, ∀ d ∈ (findLines readDeclaration source).head?, st.1 < d.1
  notGlobal : ∀ st ∈ namespacesOf source, st.2 ∉ globalNamespaces

theorem namespaceName_contextOf (source : Text) :
    (contextOf source).namespaceName =
      normalNamespace (((findLines readNamespace (headerOf source)).head?).elim [] (·.2)) := rfl

/-- Behind a leading namespace statement, or without one, every place of the
source is in the namespace of its context. -/
theorem namespaceAt_eq (h : LeadingNamespace source) {d : Nat × Text}
    (hd : d ∈ findLines readDeclaration source) :
    namespaceAt (namespacesOf source) d.1 = (contextOf source).namespaceName := by
  obtain ⟨d₀, ds, hds⟩ := List.exists_cons_of_ne_nil (List.ne_nil_of_mem hd)
  have hle : d₀.1 ≤ d.1 := by
    have hp : (findLines readDeclaration source).Pairwise (·.1 < ·.1) := pairwise_findAll ..
    rw [hds] at hd hp
    rcases List.mem_cons.mp hd with rfl | hm
    · exact Nat.le_refl _
    · exact Nat.le_of_lt ((List.pairwise_cons.mp hp).1 d hm)
  have hmem : ∀ f ∈ findLines readNamespace source,
      (f.1, stripSeparators f.2) ∈ namespacesOf source := fun f hf => List.mem_map.mpr ⟨f, hf, rfl⟩
  have hbefore : ∀ f ∈ findLines readNamespace source, f.1 < d₀.1 := fun f hf =>
    h.before _ (hmem f hf) d₀ (by rw [hds]; rfl)
  rw [namespaceName_contextOf, head?_findLines_headerOf hds fun f hf =>
    hbefore f (List.mem_of_head? hf)]
  have hone := h.atMostOne
  rw [namespacesOf, List.length_map] at hone
  unfold namespacesOf
  match hns : findLines readNamespace source with
  | [] => rfl
  | [f] =>
    have hf : f ∈ findLines readNamespace source := by rw [hns]; exact List.mem_cons_self
    have hle' : f.1 ≤ d.1 := Nat.le_trans (Nat.le_of_lt (hbefore f hf)) hle
    have hg : stripSeparators f.2 ∉ globalNamespaces := h.notGlobal _ (hmem f hf)
    simp [namespaceAt, hle', normalNamespace, hg]
  | _ :: _ :: _ =>
    rw [hns] at hone
    simp at hone

/-- **The declared types of a source** are the declared names in the namespace of
its context. -/
theorem declaredTypes_eq (h : LeadingNamespace source) :
    declaredTypes source = (findLines readDeclaration source).map fun d =>
      qualified (contextOf source).namespaceName d.2 :=
  List.map_congr_left fun d hd => by rw [namespaceAt_eq h hd]

/-- Every declared type is a name of one segment in the namespace. -/
theorem exists_of_mem_declaredTypes (h : LeadingNamespace source) {f : Text}
    (hf : f ∈ declaredTypes source) :
    ∃ name, IsName name ∧ f = qualified (contextOf source).namespaceName name := by
  rw [declaredTypes_eq h] at hf
  obtain ⟨d, hd, rfl⟩ := List.mem_map.mp hf
  obtain ⟨_, x, _, _, _, _, hr⟩ := foundAt_of_mem_findAll source 0 true 0 d hd
  exact ⟨d.2, isName_of_readDeclaration hr, rfl⟩

theorem IsName.afterLast_qualified {name : Text} (h : IsName name) (namespaceName : Text) :
    (qualified namespaceName name).afterLast separator = name := by
  unfold qualified
  split
  · exact h.afterLast_self
  · exact h.afterLast_append namespaceName

/-! ### The registry -/

/-- No name of one segment has the look-up key of a name in a namespace. -/
theorem IsName.lookupKey_ne {name : Text} (h : IsName name) {namespaceName : Text}
    (hne : namespaceName ≠ []) (hns : namespaceName.head? ≠ some separator) (s : Text)
    (caseSensitive : Bool) :
    lookupKey caseSensitive name ≠ lookupKey caseSensitive (qualified namespaceName s) := by
  intro he
  have hstart : (qualified namespaceName s).trimStart (· == separator) =
      namespaceName ++ separator :: s := by
    unfold qualified
    rw [if_neg hne]
    refine Text.trimStart_eq_self fun c hc => ?_
    cases namespaceName with
    | nil => exact absurd rfl hne
    | cons a as =>
      rw [beq_eq_false_iff_ne]
      rintro rfl
      exact hns hc
  have hmem : separator ∈ lookupKey caseSensitive (qualified namespaceName s) := by
    rw [separator_mem_lookupKey, hstart]
    simp
  rw [← he, separator_mem_lookupKey] at hmem
  exact h.separator_not_mem ((List.dropWhile_sublist _).subset hmem)

/-- A registry that has read a source with a namespace does not know its declared
names as they are written. -/
theorem IsName.has_declared_eq_false {name : Text} (h : IsName name)
    (hl : LeadingNamespace source) (hne : (contextOf source).namespaceName ≠ [])
    (caseSensitive : Bool) :
    ((⟨caseSensitive, []⟩ : NameSet).insertAll (declaredTypes source)).has name = false := by
  rw [Bool.eq_false_iff]
  intro hhas
  rcases (NameSet.has_insertAll name _ _).mp hhas with hhas | ⟨f, hf, hkey⟩
  · simp [NameSet.has] at hhas
  · obtain ⟨s, -, rfl⟩ := exists_of_mem_declaredTypes hl hf
    exact h.lookupKey_ne hne (normal_normalNamespace _).first s caseSensitive hkey

/-- Neither kind of registry fails, and a declared name that it knows as it is
written is in no namespace. -/
theorem exists_faithful_of_declared (hl : LeadingNamespace source) {name : Text}
    (hname : IsName name) {registry : Registry}
    (hr : registry = .empty ∨ ∃ caseSensitive,
      registry = ((Registry.sources ⟨⟨caseSensitive, []⟩, []⟩).addText source).2) :
    ∃ known, registry.Faithful known ∧ ∃ answer, known name = .ok answer ∧
      (answer = true → (contextOf source).namespaceName = []) := by
  rcases hr with rfl | ⟨caseSensitive, rfl⟩
  · exact ⟨fun _ => .ok false, fun _ => rfl, false, rfl, fun h => by cases h⟩
  · refine ⟨_, Registry.faithful_addText source caseSensitive, _, rfl, fun hhas => ?_⟩
    by_contra hne
    rw [hname.has_declared_eq_false hl hne caseSensitive] at hhas
    cases hhas

/-! ### Resolution -/

namespace Expander

/-- A name of one segment that stands for a class and is no alias resolves by
what the registry answers. -/
theorem expand_name {e : Expander} {name : Text} (h : IsName name) {known : Probe}
    (hf : e.session.registry.Faithful known) {answer : Bool} (hanswer : known name = .ok answer)
    (hk : isKeyword name = false) (hg : e.scope.isGeneric name = false)
    (ha : e.scope.context.aliases.find? name = none) :
    (e.expand name).1 =
      .ok (if answer then separator :: name else e.scope.context.qualify name) := by
  unfold expand
  rw [h.plan_eq hk hg, Scope.reference]
  dsimp only
  rw [Session.carryOut_ask_of_faithful hf hanswer, h.resolve_eq ha]
  rfl

/-- **A declared name resolves to what is declared**: in the context of a source
with a leading namespace, the last segment of a declared type resolves to its
full name, unless it is a keyword, a generic parameter or an alias there; without
a registry or with one that has read the source, and whatever was resolved
before. -/
theorem expand_declared (hl : LeadingNamespace source) {f : Text} (hf : f ∈ declaredTypes source)
    (hk : isKeyword (f.afterLast separator) = false)
    (ha : f.afterLast separator ∉ (contextOf source).aliases.keys) (generics : Option (List Text))
    (hg : f.afterLast separator ∉ generics.getD (contextOf source).generics) {registry : Registry}
    (hr : registry = .empty ∨ ∃ caseSensitive,
      registry = ((Registry.sources ⟨⟨caseSensitive, []⟩, []⟩).addText source).2)
    (failOpen cacheAnswers : Bool) (before : List Text) :
    (((create (contextOf source) generics registry failOpen cacheAnswers).expandAll before).2.expand
      (f.afterLast separator)).1 = .ok (separator :: f) := by
  obtain ⟨name, hname, rfl⟩ := exists_of_mem_declaredTypes hl hf
  rw [hname.afterLast_qualified] at hk ha hg ⊢
  have hfind : (contextOf source).aliases.find? name = none := by
    rw [Table.keys, Table.mem_keys_iff_lookup] at ha
    simpa [Table.find?] using ha
  obtain ⟨known, hfaithful, answer, hanswer, hyes⟩ := exists_faithful_of_declared hl hname hr
  have he := faithful_expandAll
    (faithful_create hfaithful (contextOf source) generics failOpen cacheAnswers) before
  have hscope : ((create (contextOf source) generics registry failOpen cacheAnswers).expandAll
      before).2.scope = ⟨contextOf source, generics.getD (contextOf source).generics⟩ :=
    scope_expandAll _ _
  rw [expand_name hname he hanswer hk (by rw [hscope]; exact decide_eq_false hg)
    (by rw [hscope]; exact hfind), hscope]
  cases answer with
  | false => rfl
  | true =>
    have hns : qualified (contextOf source).namespaceName name = name := by
      rw [qualified, if_pos (hyes rfl)]
    rw [hns]
    rfl

/-- A source with blank lines and words of declarations in odd places. -/
def postSource : Text :=
  "<?php\n\n  namespace \\App\\\n;\n\nuse Lib\\Post as Old;\nfinal\n class User\n enum Post".toList

/-- The second declaration of a source, after an array of the first was resolved. -/
theorem expand_declared_post :
    LeadingNamespace postSource ∧ "App\\Post".toList ∈ declaredTypes postSource ∧
      (((create (contextOf postSource) none
        ((Registry.sources ⟨⟨false, []⟩, []⟩).addText postSource).2 false true).expandAll
          ["User[]".toList]).2.expand "Post".toList).1 = .ok "\\App\\Post".toList := by
  have hl : LeadingNamespace postSource :=
    ⟨by decide +kernel, by decide +kernel, by decide +kernel⟩
  have hf : "App\\Post".toList ∈ declaredTypes postSource := by decide +kernel
  have hn : Text.afterLast separator "App\\Post".toList = "Post".toList := by decide +kernel
  have h := expand_declared hl hf (by decide +kernel) (by decide +kernel) none
    (by decide +kernel) (Or.inr ⟨false, rfl⟩) false true ["User[]".toList]
  rw [hn] at h
  exact ⟨hl, hf, h⟩

end Expander

end DocTypes
