/-
# A source that goes on

What a source declares stands in front of what it declares with more code on new lines
behind it (`declaredTypes_prefix_append`). A statement that is read in the source is read in the
longer one too, and ends where it did. But the code behind may complete a statement that is
half-written at the end of the source, and this is then a new find.

It does no harm, because no other statement lies in what was half-written. Had one of the
same kind been read in it, the statement would have been read without the code behind
(`Continues.apart`): a namespace has its semicolon or brace there (`readNamespace_append_ending`),
and a declaration has its name there (`Declares.of_append`). And had a declaration been read in a
half-written namespace, no code behind would have completed that (`readNamespace_append_declaring`).
So new namespaces come behind all declarations of the source (`lt_of_newFind`).

Key definitions: `Continues`, `NewFind`.
Key theorems: `readNamespace_append_ending`, `exists_findAll_continued`,
`declaredTypes_prefix_append`.
-/
import DocTypes.Proofs.Blocks
import DocTypes.Proofs.ClassLines
import DocTypes.Registry

namespace DocTypes

/-! ### Finds with text behind -/

section Searches

variable {α : Type} {read : Recogniser α} {y : Text}

/-- The text `y` behind a text leaves what is read in it as it is. Where it completes what is
half-written there, nothing is read on the later lines of that. -/
structure Continues (read : Recogniser α) (y : Text) : Prop where
  keeps : ∀ {u : Text} {f : α × Text}, read u = some f → read (u ++ y) = some (f.1, f.2 ++ y)
  apart : ∀ {a v : Text}, atLineStart true a = true → read (a ++ v) = none →
    (read (a ++ (v ++ y))).isSome = true → read v = none

/-- A find that the text `y` behind `s` adds: it lies behind `s`, or it is read where nothing
is read in `s` alone. -/
def NewFind (read : Recogniser α) (offset : Nat) (lineStart : Bool) (s y : Text) (f : Nat × α) :
    Prop :=
  offset + s.length ≤ f.1 ∨
    ∃ h u, s = h ++ u ∧ f.1 = offset + h.length ∧ atLineStart lineStart h = true ∧
      read u = none ∧ (read (u ++ y)).isSome = true

theorem NewFind.cons {offset : Nat} {c : Char} {s : Text} {f : Nat × α}
    (h : NewFind read (offset + 1) (c == '\n') s y f) (lineStart : Bool) :
    NewFind read offset lineStart (c :: s) y f := by
  rcases h with hbehind | ⟨h, u, hs, ho, hl, hnone, hsome⟩
  · left
    rw [List.length_cons]
    omega
  · refine Or.inr ⟨c :: h, u, by rw [hs]; rfl, ?_, by rwa [atLineStart_cons], hnone, hsome⟩
    rw [ho, List.length_cons]
    omega

/-- Where the text behind completes a statement, nothing is found up to its end, and what is
found with it is new. -/
theorem findAll_of_completed (hread : Continues read y) {s : Text} (hnone : read s = none)
    (hsome : (read (s ++ y)).isSome = true) (offset : Nat) (lineStart : Bool) :
    findAll read false offset lineStart 0 s = [] ∧
      ∀ f ∈ findAll read false offset lineStart 0 (s ++ y),
        NewFind read offset lineStart s y f := by
  -- of a later line of `s`, or of `s` itself
  have hlines : ∀ h u, s = h ++ u → atLineStart lineStart h = true → read u = none := by
    rintro h u rfl hl
    rw [List.append_assoc] at hsome
    exact hread.apart (atLineStart_true hl) hnone hsome
  constructor
  · refine findAll_eq_nil_of_passes (fun u v huv _ hl => ?_) offset
    rw [List.append_nil]
    exact hlines u v huv (by simpa using hl)
  · intro f hf
    obtain ⟨h, x, rest, hs, ho, hl, hr⟩ := foundAt_of_mem_findAll _ _ _ _ f hf
    rw [Bool.false_or] at hl
    rcases List.append_eq_append_iff.mp hs with ⟨a, rfl, -⟩ | ⟨u, rfl, rfl⟩
    · left
      rw [ho, List.length_append]
      omega
    · exact Or.inr ⟨h, u, rfl, ho, hl, hlines h u rfl hl, by rw [hr]; rfl⟩

/-- **The finds of a text stay the first ones** with text behind it, and the others are new. -/
theorem exists_findAll_continued (hread : Continues read y) : ∀ (s : Text) (offset : Nat)
    (lineStart : Bool) {covered : Nat}, covered ≤ s.length →
    ∃ later, findAll read false offset lineStart covered (s ++ y) =
        findAll read false offset lineStart covered s ++ later ∧
      ∀ f ∈ later, NewFind read offset lineStart s y f
  | [], offset, lineStart, covered, hc => by
    obtain rfl : covered = 0 := Nat.le_zero.mp hc
    refine ⟨_, by rw [findAll]; rfl, fun f hf => Or.inl ?_⟩
    exact le_of_mem_findAll y offset lineStart 0 f hf
  | c :: s, offset, lineStart, covered + 1, hc => by
    obtain ⟨later, hfinds, hnew⟩ :=
      exists_findAll_continued hread s (offset + 1) (c == '\n') (Nat.le_of_succ_le_succ hc)
    rw [List.cons_append, findAll, findAll]
    exact ⟨later, hfinds, fun f hf => (hnew f hf).cons lineStart⟩
  | c :: s, offset, lineStart, 0, _ => by
    have hbehind := fun {covered : Nat} (hc : covered ≤ s.length) =>
      exists_findAll_continued hread s (offset + 1) (c == '\n') hc
    cases lineStart with
    | false =>
      obtain ⟨later, hfinds, hnew⟩ := hbehind (Nat.zero_le _)
      rw [List.cons_append, findAll, findAll]
      exact ⟨later, hfinds, fun f hf => (hnew f hf).cons false⟩
    | true =>
      have hline : (false || true) = true := rfl
      cases hr : read (c :: s) with
      | some found =>
        have hlength : (s ++ y).length - (found.2 ++ y).length = s.length - found.2.length := by
          rw [List.length_append, List.length_append]
          omega
        have hmore := hread.keeps hr
        obtain ⟨later, hfinds, hnew⟩ := hbehind (Nat.sub_le s.length found.2.length)
        refine ⟨later, ?_, fun f hf => (hnew f hf).cons true⟩
        rw [List.cons_append] at hmore ⊢
        rw [findAll, findAll, if_pos hline, if_pos hline, hr, hmore]
        simp only [hlength, hfinds, List.cons_append]
      | none =>
        cases hmore : read (c :: s ++ y) with
        | some found =>
          obtain ⟨hnil, hnew⟩ :=
            findAll_of_completed hread hr (by rw [hmore]; rfl) offset true
          exact ⟨_, by rw [hnil]; rfl, hnew⟩
        | none =>
          obtain ⟨later, hfinds, hnew⟩ := hbehind (Nat.zero_le _)
          refine ⟨later, ?_, fun f hf => (hnew f hf).cons true⟩
          rw [List.cons_append] at hmore ⊢
          rw [findAll, findAll, if_pos hline, if_pos hline, hr, hmore]
          exact hfinds

end Searches

/-! ### Declarations -/

/-- A name is the front of what it is read from, up to the first other character. -/
theorem eq_append_of_name? {s : Text} {f : Text × Text} (h : s.name? = some f) :
    s = f.1 ++ f.2 ∧ ∀ c ∈ f.2.head?, isWordChar c = false := by
  unfold Text.name? at h
  split at h
  · cases h
  · next c cs hw =>
    cases h
    rw [← hw]
    exact ⟨List.takeWhile_append_dropWhile.symm, Text.head?_dropWhile isWordChar s⟩

theorem name?_append {s y : Text} {f : Text × Text} (h : s.name? = some f)
    (hy : ∀ c ∈ y.head?, isWordChar c = false) : (s ++ y).name? = some (f.1, f.2 ++ y) := by
  obtain ⟨hs, hrest⟩ := eq_append_of_name? h
  have hbehind : ∀ c ∈ (f.2 ++ y).head?, isWordChar c = false := by
    intro c hc
    rw [List.head?_append] at hc
    cases hr : f.2.head? with
    | none =>
      rw [hr] at hc
      exact hy c hc
    | some d =>
      rw [hr] at hc
      cases hc
      exact hrest _ hr
  rw [hs, List.append_assoc, (isName_of_name? h).name?_append hbehind]

/-- A declaration that is read ends before a character that is no part of a name. -/
theorem readDeclaration_append {s y : Text} (h : Declares s)
    (hy : ∀ c ∈ y.head?, isWordChar c = false) :
    readDeclaration (s ++ y) = (readDeclaration s).map fun f => (f.1, f.2 ++ y) := by
  induction h with
  | @blank c s hc _ ih =>
    have hblank : ∀ x, readDeclaration ([c] ++ x) = readDeclaration x :=
      beginsBy_readDeclaration.blanks (List.forall_mem_singleton.mpr hc)
    simp only [List.singleton_append] at hblank
    rw [List.cons_append, hblank, hblank, ih]
  | @modifier w s c hw hc _ ih =>
    rw [List.append_assoc, List.cons_append, readDeclaration_modifier hw hc,
      readDeclaration_modifier hw hc, ih]
  | @word w s c hw hc hname =>
    obtain ⟨f, hf⟩ := Option.isSome_iff_exists.mp (name?_isSome_iff.mpr hname)
    have hne : s.dropWhile isBlank ≠ [] := fun hnil => by
      rw [hnil] at hf
      cases hf
    have hdrop : (s ++ y).dropWhile isBlank = s.dropWhile isBlank ++ y := by
      rw [List.dropWhile_append, if_neg (by simpa using hne)]
    rw [List.append_assoc, List.cons_append, readDeclaration_word hw hc,
      readDeclaration_word hw hc, hdrop, name?_append hf hy, hf]
    rfl

/-- Declarations stay as they are when code follows on a new line, and a declaration that is
completed by it holds no other one. -/
theorem continues_readDeclaration (x : Text) : Continues readDeclaration ('\n' :: x) where
  keeps {u f} hf := by
    have hdeclares : Declares u := readDeclaration_isSome_iff.mp (by rw [hf]; rfl)
    have hline : ∀ c ∈ ('\n' :: x).head?, isWordChar c = false := fun c hc => by
      cases hc
      decide
    rw [readDeclaration_append hdeclares hline, hf]
    rfl
  apart {a v} hl hnone hsome := by
    rw [readDeclaration_eq_none_iff] at hnone ⊢
    exact fun hv => hnone (.of_append hl hv (readDeclaration_isSome_iff.mp hsome))

/-! ### Namespaces -/

/-- The characters that end a namespace statement. -/
def endsNamespace (c : Char) : Bool := c == ';' || c == groupOpener

/-- The namespace of a statement that ends with a text. -/
def namespaceBody? (u : Text) : Option Text :=
  (afterSpacedWord? ["namespace".toList] (u.dropWhile isBlank)).bind fun s =>
    if s.takeWhile isNamespaceChar ≠ [] ∧ (s.dropWhile isNamespaceChar).dropWhile isBlank = [] then
      some (s.takeWhile isNamespaceChar)
    else none

theorem namespaceName?_append_cons {d : Char} (hd : endsNamespace d = true) {s : Text}
    (hs : ∀ c ∈ s, endsNamespace c = false) (r : Text) :
    namespaceName? (s ++ d :: r) =
      (if s.takeWhile isNamespaceChar ≠ [] ∧ (s.dropWhile isNamespaceChar).dropWhile isBlank = []
        then some (s.takeWhile isNamespaceChar) else none).map (·, r) := by
  have hclasses : isNamespaceChar d = false ∧ isBlank d = false := by
    simp only [endsNamespace, Bool.or_eq_true, beq_iff_eq] at hd
    rcases hd with rfl | rfl <;> decide
  obtain ⟨hname, hblank⟩ := hclasses
  have hrest : ∀ c ∈ (s.dropWhile isNamespaceChar).dropWhile isBlank, endsNamespace c = false :=
    fun c hc => hs c ((List.dropWhile_sublist _).subset ((List.dropWhile_sublist _).subset hc))
  unfold namespaceName?
  rw [Text.takeWhile_append_cons hname, Text.dropWhile_append_cons hname,
    Text.dropWhile_append_cons hblank]
  cases s.takeWhile isNamespaceChar with
  | nil => rfl
  | cons c cs =>
    cases hw : (s.dropWhile isNamespaceChar).dropWhile isBlank with
    | nil =>
      have hend : d = ';' ∨ d = Char.ofNat 123 := by
        simpa [endsNamespace, groupOpener] using hd
      simp [hend]
    | cons e w =>
      have hend := hrest e (by rw [hw]; exact List.mem_cons_self)
      have hnot : ¬ (e = ';' ∨ e = Char.ofNat 123) := by
        simpa [endsNamespace, groupOpener] using hend
      simp [hnot]

/-- **A namespace statement is read up to the first character that can end it.** -/
theorem readNamespace_append_ending {d : Char} (hd : endsNamespace d = true) {u : Text}
    (hu : ∀ c ∈ u, endsNamespace c = false) (r : Text) :
    readNamespace (u ++ d :: r) = (namespaceBody? u).map (·, r) := by
  have hclasses : isBlank d = false ∧ d ∉ "namespace".toList := by
    simp only [endsNamespace, Bool.or_eq_true, beq_iff_eq] at hd
    rcases hd with rfl | rfl <;> decide
  obtain ⟨hblank, hword⟩ := hclasses
  rw [readNamespace, namespaceBody?, Text.dropWhile_append_cons hblank,
    afterSpacedWord?_append_cons hblank hword]
  cases hbody : afterSpacedWord? ["namespace".toList] (u.dropWhile isBlank) with
  | none => rfl
  | some s =>
    have hs : ∀ c ∈ s, endsNamespace c = false := fun c hc =>
      hu c (((suffix_of_afterSpacedWord? hbody).trans (List.dropWhile_suffix _)).subset hc)
    rw [Option.map_some, Option.bind_some, Option.bind_some, namespaceName?_append_cons hd hs]

/-- Without such a character none is read. -/
theorem readNamespace_eq_none {u : Text} (hu : ∀ c ∈ u, endsNamespace c = false) :
    readNamespace u = none := by
  rw [readNamespace, Option.bind_eq_none_iff]
  intro s hs
  have hs : ∀ c ∈ s, endsNamespace c = false := fun c hc =>
    hu c (((suffix_of_afterSpacedWord? hs).trans (List.dropWhile_suffix _)).subset hc)
  unfold namespaceName?
  split
  · rfl
  · rfl
  · next ending rest _ hrest =>
    have hmem : ending ∈ s := (List.dropWhile_sublist _).subset
      ((List.dropWhile_sublist _).subset (hrest ▸ List.mem_cons_self))
    have hnot : ¬ (ending = ';' ∨ ending = Char.ofNat 123) := by
      simpa [endsNamespace, groupOpener] using hs ending hmem
    rw [if_neg hnot]

/-- What is read as a namespace stays as it is with any text behind, and a namespace that is
completed by it holds no other one. -/
theorem continues_readNamespace (y : Text) : Continues readNamespace y := by
  -- up to an ending nothing depends on what follows
  have hread : ∀ u : Text, (∃ c ∈ u, endsNamespace c = true) →
      readNamespace (u ++ y) = (readNamespace u).map fun f => (f.1, f.2 ++ y) := by
    rintro u ⟨c, hc, hend⟩
    obtain ⟨d, hfind⟩ := Option.isSome_iff_exists.mp (List.find?_isSome.mpr ⟨c, hc, hend⟩)
    obtain ⟨hd, w, r, rfl, hw⟩ := List.find?_eq_some_iff_append.mp hfind
    have hw : ∀ c ∈ w, endsNamespace c = false := fun c hc => by simpa using hw c hc
    rw [List.append_assoc, List.cons_append, readNamespace_append_ending hd hw,
      readNamespace_append_ending hd hw, Option.map_map]
    rfl
  have hending : ∀ u : Text, (readNamespace u).isSome = true → ∃ c ∈ u, endsNamespace c = true := by
    intro u hu
    by_contra hno
    rw [readNamespace_eq_none fun c hc => by simpa using fun h => hno ⟨c, hc, h⟩] at hu
    cases hu
  constructor
  · intro u f hf
    rw [hread u (hending u (by rw [hf]; rfl)), hf]
    rfl
  · intro a v _ hnone hsome
    by_contra hv
    obtain ⟨c, hc, hend⟩ := hending v (Option.isSome_iff_ne_none.mpr hv)
    rw [← List.append_assoc, hread (a ++ v) ⟨c, List.mem_append_right a hc, hend⟩, hnone] at hsome
    cases hsome

/-- **A namespace in front of a declaration is not completed behind that.** -/
theorem readNamespace_append_declaring {a v y : Text} (hl : atLineStart true a = true)
    (hv : (readDeclaration v).isSome = true)
    (h : (readNamespace (a ++ (v ++ y))).isSome = true) :
    (readNamespace (a ++ v)).isSome = true := by
  have hbegins : ∀ x : Text, (readDeclaration x).isSome = true →
      BeginsDeclaration (x.dropWhile isBlank) := fun x hx => by
    obtain ⟨f, hf⟩ := Option.isSome_iff_exists.mp hx
    exact beginsDeclaration_of_readDeclaration hf
  have hlonger := hbegins (v ++ y)
    (readDeclaration_isSome_iff.mpr ((readDeclaration_isSome_iff.mp hv).append y))
  cases hlast : a.getLast? with
  | none =>
    obtain rfl := List.getLast?_eq_none_iff.mp hlast
    rw [List.nil_append, hlonger.readNamespace_eq_none] at h
    cases h
  | some c =>
    rw [atLineStart, hlast, Option.elim_some, beq_iff_eq] at hl
    rw [hl] at hlast
    have hsame : (readNamespace (a ++ (v ++ y))).map (·.1) = (readNamespace (a ++ v)).map (·.1) :=
      (readNamespace_append hlast hlonger).trans (readNamespace_append hlast (hbegins v hv)).symm
    have hsome := congrArg Option.isSome hsame
    rw [Option.isSome_map, Option.isSome_map, h] at hsome
    exact hsome.symm

/-! ### The longer source -/

/-- A namespace that more text behind a source adds stands behind every declaration of it. -/
theorem lt_of_newFind {s y : Text} {d f : Nat × Text} (hd : d ∈ findLines readDeclaration s)
    (hf : NewFind readNamespace 0 true s y f) : d.1 < f.1 := by
  obtain ⟨h, v, rest, rfl, hstart, hl, hr⟩ := foundAt_of_mem_findAll _ _ _ _ d hd
  have hv : v ≠ [] := by
    rintro rfl
    have hdeclares : Declares [] := readDeclaration_isSome_iff.mp (by rw [hr]; rfl)
    exact hdeclares.dropWhile_ne_nil rfl
  have hlength := List.length_pos_iff.mpr hv
  rcases hf with hbehind | ⟨k, u, hs, ho, hk, hnone, hsome⟩
  · rw [List.length_append] at hbehind
    omega
  · by_contra hle
    -- the declaration lies in the namespace that is completed
    obtain ⟨a, rfl⟩ : k <+: h := by
      refine List.prefix_of_prefix_length_le ⟨u, hs.symm⟩ ⟨v, rfl⟩ ?_
      omega
    rw [List.append_assoc] at hs
    obtain rfl := List.append_cancel_left hs
    have hline : atLineStart true a = true := by
      rw [Bool.false_or, atLineStart_append] at hl
      exact atLineStart_true hl
    rw [List.append_assoc] at hsome
    have hread := readNamespace_append_declaring hline (by rw [hr]; rfl) hsome
    rw [hnone] at hread
    cases hread

/-- The declarations of a source have the same namespaces in the longer one. -/
theorem declaredTypes_prefix_append (s x : Text) :
    declaredTypes s <+: declaredTypes (s ++ '\n' :: x) := by
  obtain ⟨namespaces, hnamespaces, hnew⟩ :=
    exists_findAll_continued (continues_readNamespace ('\n' :: x)) s 0 true (Nat.zero_le _)
  obtain ⟨declarations, hdeclarations, -⟩ :=
    exists_findAll_continued (continues_readDeclaration x) s 0 true (Nat.zero_le _)
  have hsame : ∀ d ∈ findLines readDeclaration s,
      namespaceAt (namespacesOf (s ++ '\n' :: x)) d.1 = namespaceAt (namespacesOf s) d.1 := by
    intro d hd
    rw [namespacesOf, findLines, hnamespaces, List.map_append]
    refine namespaceAt_append_left fun f hf => ?_
    obtain ⟨f', hf', rfl⟩ := List.mem_map.mp hf
    exact lt_of_newFind hd (hnew f' hf')
  have hfinds : findLines readDeclaration (s ++ '\n' :: x) =
      findLines readDeclaration s ++ declarations := hdeclarations
  simp only [declaredTypes, hfinds, List.map_append]
  rw [List.map_congr_left fun d hd => congrArg (qualified · d.2) (hsame d hd)]
  exact List.prefix_append _ _

/-- **Code on new lines behind a source never changes what was found in it**: what the source
declares comes first in what the longer one declares, and so every name that is known
after the source has been added, to any index, is known after the longer one has. -/
theorem declaredTypes_append (s x : Text) :
    declaredTypes s <+: declaredTypes (s ++ '\n' :: x) ∧
      ∀ (index : SourceIndex) (name : Text), (index.addText s).2.2.names.has name = true →
        (index.addText (s ++ '\n' :: x)).2.2.names.has name = true := by
  refine ⟨declaredTypes_prefix_append s x, fun index name hname => ?_⟩
  rw [SourceIndex.addText, SourceIndex.addDeclared, NameSet.has_insertAll] at hname ⊢
  refine hname.imp_right ?_
  rintro ⟨known, hknown, hkey⟩
  exact ⟨known, (declaredTypes_prefix_append s x).subset hknown, hkey⟩

/-- The code behind completes a class at the end of the source. -/
theorem declaredTypes_append_halfWritten :
    let source := "namespace App;\nclass Post \x7b\x7d\nfinal".toList
    let more := "class Tag \x7b\x7d".toList
    let index : SourceIndex := ⟨⟨false, []⟩, []⟩
    declaredTypes source <+: declaredTypes (source ++ '\n' :: more) ∧
      declaredTypes (source ++ '\n' :: more) = ["App\\Post".toList, "App\\Tag".toList] ∧
      (index.addText source).2.2.names.has "app\\post".toList = true ∧
      (index.addText (source ++ '\n' :: more)).2.2.names.has "app\\post".toList = true := by
  intro source more index
  obtain ⟨hfront, hkeeps⟩ := declaredTypes_append source more
  have hknown : (index.addText source).2.2.names.has "app\\post".toList = true := by
    decide +kernel
  exact ⟨hfront, by decide +kernel, hknown, hkeeps index _ hknown⟩

end DocTypes
