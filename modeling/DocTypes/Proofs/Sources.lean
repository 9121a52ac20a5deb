/-
# What a source index holds

A source index grows by three kinds of steps: a name is registered, a text is added, or
a file, which is passed over when it cannot be read (`SourceStep`). A run of steps leaves
in the index what its steps have given, and nothing else (`SourceIndex.after_eq`). So a
name is known by the keys of the names that were given, whatever the order of the steps
and however often they are taken (`SourceIndex.after_build`), and a name that is known
stays known.

Building an index from paths is such a run too: each file that it takes is added by a
step (`SourceIndex.build_eq_after`).

Key definitions: `Tree.text?`, `SourceStep`, `SourceStep.given`, `SourceIndex.after`,
`SourceIndex.Reads`.
Key theorems: `SourceIndex.after_eq`, `SourceIndex.has_after`, `SourceIndex.size_after`,
`SourceIndex.build_eq_after`, `SourceIndex.after_build`.
-/
import DocTypes.Proofs.Lowercase
import DocTypes.Registry
import Mathlib.Data.Finset.Card

namespace DocTypes

/-- The text of the file at a path, if it can be read. -/
def Tree.text? (t : Tree) (p : Path) : Option Text := (t.read p).toOption.map fileText

/-- The case of the letters of ASCII is not in a key, unless letter case counts. -/
theorem lookupKey_map_toLower (name : Text) :
    lookupKey false (name.map Char.toLower) = lookupKey false name := by
  have hseparator : ∀ c : Char, c.toLower = separator ↔ c = separator := by
    intro c
    constructor
    · intro h
      by_contra hc
      have hlower := congrArg lowerChar h
      rw [(lower_toLower c).1, (lowerChar_eq_iff isCaseless_separator).mpr rfl] at hlower
      exact hc ((lowerChar_eq_iff isCaseless_separator).mp hlower)
    · rintro rfl
      rfl
  have hbare : Text.trimStart (· == separator) (name.map Char.toLower) =
      (name.trimStart (· == separator)).map Char.toLower := by
    have hsame : ((· == separator) ∘ Char.toLower) = (· == separator) := by
      funext c
      rw [Function.comp_apply, Bool.eq_iff_iff, beq_iff_eq, beq_iff_eq]
      exact hseparator c
    rw [Text.trimStart, List.dropWhile_map, hsame]
    rfl
  show Text.lower _ = Text.lower _
  rw [hbare, Text.lower_map_toLower]

/-- A step by which a source index grows. A file is added as it lies in a tree at that
time. -/
inductive SourceStep where
  | register (name : Text)
  | addText (source : Text)
  | addFile (tree : Tree) (path : Path)

namespace SourceStep

/-- The names that a step gives to an index. -/
def given : SourceStep → List Text
  | register name => [name]
  | addText source => declaredTypes source
  | addFile tree path => (tree.text? path).elim [] declaredTypes

/-- The path of the file that a step reads. -/
def scanned? : SourceStep → Option Path
  | addFile tree path => (tree.text? path).map fun _ => path
  | _ => none

end SourceStep

namespace SourceIndex

open SourceStep (given scanned?)

/-- The index without names and files. -/
def new (caseSensitive : Bool) : SourceIndex := ⟨⟨caseSensitive, []⟩, []⟩

/-- The index after a step. -/
def step (x : SourceIndex) : SourceStep → SourceIndex
  | .register name => x.register name
  | .addText source => (x.addText source).2.2
  | .addFile tree path => (x.addFile tree path).2.2

/-- The index after steps in turn. -/
def after (x : SourceIndex) (steps : List SourceStep) : SourceIndex := steps.foldl step x

variable {x : SourceIndex} {tree : Tree} {path : Path}

/-! ### Steps -/

theorem addFile_of_ok {bytes : List UInt8} (h : tree.read path = .ok bytes) (x : SourceIndex) :
    x.addFile tree path =
      (.ok (declaredTypes (fileText bytes)).length,
        [.scannedFile (declaredTypes (fileText bytes)).length path],
        { x.addDeclared (fileText bytes) with scanned := x.scanned ++ [path] }) := by
  rw [addFile, h]

/-- A file that cannot be read gives nothing and leaves the index as it is. -/
theorem addFile_of_error {fault : ReadFault} (h : tree.read path = .error fault)
    (hfault : fault ≠ .holdsNull) (x : SourceIndex) :
    x.addFile tree path = (.ok 0, [.unreadable path fault], x) := by
  rw [addFile, h]
  cases fault <;> first | rfl | exact absurd rfl hfault

/-- **A step adds the names that it gives**, and the file that it reads. -/
theorem step_eq (x : SourceIndex) (s : SourceStep) :
    x.step s = ⟨x.names.insertAll s.given, x.scanned ++ s.scanned?.toList⟩ := by
  cases s with
  | register name => simp [step, register, given, scanned?, NameSet.insertAll]
  | addText source => simp [step, addText, addDeclared, given, scanned?]
  | addFile tree path =>
    cases h : tree.read path with
    | ok bytes =>
      rw [step, addFile_of_ok h]
      simp [addDeclared, given, scanned?, Tree.text?, h, Except.toOption]
    | error fault =>
      have hsame : (x.addFile tree path).2.2 = x := by
        rw [addFile, h]
        cases fault <;> rfl
      rw [step, hsame]
      simp [given, scanned?, Tree.text?, h, Except.toOption, NameSet.insertAll]

/-- **A run adds what its steps give**, in their order. -/
theorem after_eq (x : SourceIndex) (steps : List SourceStep) :
    x.after steps =
      ⟨x.names.insertAll (steps.flatMap given), x.scanned ++ steps.filterMap scanned?⟩ := by
  induction steps generalizing x with
  | nil => simp [after, NameSet.insertAll]
  | cons s steps ih =>
    have hcons : x.after (s :: steps) = (x.step s).after steps := rfl
    have hscanned : (s :: steps).filterMap scanned? =
        s.scanned?.toList ++ steps.filterMap scanned? := by
      rw [List.filterMap_cons]
      cases s.scanned? <;> rfl
    rw [hcons, ih, step_eq, List.flatMap_cons, hscanned, List.append_assoc]
    unfold NameSet.insertAll
    rw [List.foldl_append]

theorem after_append (x : SourceIndex) (steps more : List SourceStep) :
    x.after (steps ++ more) = (x.after steps).after more :=
  List.foldl_append ..

/-! ### What is known after a run -/

section
variable (caseSensitive : Bool) (steps : List SourceStep)

theorem mem_keys_after (key : Text) :
    key ∈ ((new caseSensitive).after steps).names.keys ↔
      ∃ name ∈ steps.flatMap given, key = lookupKey caseSensitive name := by
  rw [after_eq, NameSet.mem_keys_insertAll]
  exact or_iff_right List.not_mem_nil

/-- A name is known when one with its key has been given. -/
theorem has_after (name : Text) :
    ((new caseSensitive).after steps).names.has name = true ↔
      ∃ known ∈ steps.flatMap given,
        lookupKey caseSensitive name = lookupKey caseSensitive known := by
  rw [after_eq, NameSet.has_insertAll]
  exact or_iff_right (by simp [new, NameSet.has])

/-- The size is the number of different keys that have been given. -/
theorem size_after :
    ((new caseSensitive).after steps).names.size =
      ((steps.flatMap given).map (lookupKey caseSensitive)).toFinset.card := by
  have hnodup : ((new caseSensitive).after steps).names.keys.Nodup := by
    rw [after_eq]
    exact NameSet.nodup_keys_insertAll _ List.nodup_nil
  have hkeys : ((new caseSensitive).after steps).names.keys.toFinset =
      ((steps.flatMap given).map (lookupKey caseSensitive)).toFinset := by
    ext key
    rw [List.mem_toFinset, List.mem_toFinset, mem_keys_after, List.mem_map]
    exact exists_congr fun name => and_congr_right fun _ => eq_comm
  rw [← hkeys, List.toFinset_card_of_nodup hnodup, NameSet.size]

end

/-- Runs of the same steps, in any order and with repeats, know the same. -/
theorem same_of_mem_iff (caseSensitive : Bool) {steps others : List SourceStep}
    (h : ∀ s, s ∈ others ↔ s ∈ steps) :
    ((new caseSensitive).after others).names.size = ((new caseSensitive).after steps).names.size ∧
      ∀ name, ((new caseSensitive).after others).names.has name =
        ((new caseSensitive).after steps).names.has name := by
  have hgiven : ∀ name, name ∈ others.flatMap given ↔ name ∈ steps.flatMap given := by
    intro name
    simp only [List.mem_flatMap, h]
  constructor
  · rw [size_after, size_after]
    congr 1
    ext key
    simp only [List.mem_toFinset, List.mem_map, hgiven]
  · intro name
    rw [Bool.eq_iff_iff, has_after, has_after]
    simp only [hgiven]

/-! ### Building from paths -/

/-- The index `x'` is `x` after these files, all of which can be read. -/
def Reads (t : Tree) (x : SourceIndex) (files : List Path) (x' : SourceIndex) : Prop :=
  (∀ p ∈ files, ∃ bytes, t.read p = .ok bytes) ∧ x' = x.after (files.map (.addFile t))

namespace Reads

variable {t : Tree} {x' x'' : SourceIndex} {files more : List Path}

theorem nil (t : Tree) (x : SourceIndex) : Reads t x [] x := ⟨by simp, rfl⟩

theorem append (h : Reads t x files x') (hmore : Reads t x' more x'') :
    Reads t x (files ++ more) x'' := by
  obtain ⟨hfiles, rfl⟩ := h
  obtain ⟨hmore, rfl⟩ := hmore
  refine ⟨List.forall_mem_append.mpr ⟨hfiles, hmore⟩, ?_⟩
  rw [List.map_append, after_append]

theorem scanned_eq (h : Reads t x files x') : x'.scanned = x.scanned ++ files := by
  obtain ⟨hfiles, rfl⟩ := h
  have hall : ∀ p ∈ files, scanned? (.addFile t p) = some p := fun p hp => by
    obtain ⟨bytes, hread⟩ := hfiles p hp
    simp [scanned?, Tree.text?, hread, Except.toOption]
  have hscanned : (files.map (SourceStep.addFile t)).filterMap scanned? = files := by
    rw [List.filterMap_map]
    exact (List.filterMap_congr hall).trans List.filterMap_some
  rw [after_eq, hscanned]

end Reads

variable (t : Tree)

theorem exists_reads_addFile (p : Path) (x : SourceIndex) :
    ∃ files, Reads t x files (x.addFile t p).2.2 := by
  cases h : t.read p with
  | ok bytes => exact ⟨[p], List.forall_mem_singleton.mpr ⟨bytes, h⟩, rfl⟩
  | error fault =>
    refine ⟨[], by simp, ?_⟩
    rw [addFile, h]
    cases fault <;> rfl

theorem exists_reads_addFiles : ∀ (paths : List Path) (x : SourceIndex),
    ∃ files, Reads t x files (x.addFiles t paths).2.2
  | [], x => ⟨[], .nil t x⟩
  | p :: paths, x => by
    obtain ⟨files, hfiles⟩ := exists_reads_addFile t p x
    obtain ⟨more, hmore⟩ := exists_reads_addFiles paths (x.addFile t p).2.2
    rcases h : x.addFile t p with ⟨outcome, events, x'⟩
    rw [h] at hfiles hmore
    rw [addFiles, h]
    cases outcome with
    | error fault => exact ⟨files, hfiles⟩
    | ok count => exact ⟨files ++ more, hfiles.append hmore⟩

theorem exists_reads_addPath (search? : Option Search) (p : Path) (x : SourceIndex) :
    ∃ files, Reads t x files (x.addPath t search? p).2.2 := by
  unfold addPath
  split
  · exact exists_reads_addFiles t _ x
  · exact ⟨[], .nil t x⟩
  · exact ⟨[], .nil t x⟩

theorem exists_reads_addPaths (search? : Option Search) : ∀ (paths : List Path) (x : SourceIndex),
    ∃ files, Reads t x files (x.addPaths t search? paths).2.2
  | [], x => ⟨[], .nil t x⟩
  | p :: paths, x => by
    obtain ⟨files, hfiles⟩ := exists_reads_addPath t search? p x
    obtain ⟨more, hmore⟩ := exists_reads_addPaths search? paths (x.addPath t search? p).2.2
    rcases h : x.addPath t search? p with ⟨outcome, events, x'⟩
    rw [h] at hfiles hmore
    rw [addPaths, h]
    cases outcome with
    | error fault => exact ⟨files, hfiles⟩
    | ok _ => exact ⟨files ++ more, hfiles.append hmore⟩

/-- **An index built from paths is one after its files**, added one by one. -/
theorem build_eq_after (paths : List Path) (suffix : Text) (caseSensitive : Bool) :
    let built := (build t paths suffix caseSensitive).2.2
    built = (new caseSensitive).after (built.scanned.map (.addFile t)) := by
  intro built
  obtain ⟨files, hreads⟩ := exists_reads_addPaths t (suffixSearch? suffix) paths (new caseSensitive)
  have hscanned : built.scanned = files := hreads.scanned_eq
  rw [hscanned]
  exact hreads.2

/-- **An index is decided by the steps taken**, of which those of building it count as the
first. A name is known when one with its key has been given, and the size is the number
of these keys; the files that could be read stand in order with repeats; a file that
cannot be read gives nothing and changes nothing. So the order of the steps does not
count, nor how often each is taken; what is known stays known; and unless letter case
counts, the case of the letters of ASCII does not matter. -/
theorem after_build (paths : List Path) (suffix : Text) (caseSensitive : Bool)
    (steps : List SourceStep) :
    let built := (build t paths suffix caseSensitive).2.2
    let taken := built.scanned.map (.addFile t) ++ steps
    let x := built.after steps
    (∀ name, x.names.has name = true ↔ ∃ known ∈ taken.flatMap given,
        lookupKey caseSensitive name = lookupKey caseSensitive known) ∧
      x.names.size = ((taken.flatMap given).map (lookupKey caseSensitive)).toFinset.card ∧
      x.scanned = taken.filterMap scanned? ∧
      (∀ tree path fault, tree.read path = .error fault → fault ≠ .holdsNull →
        x.addFile tree path = (.ok 0, [.unreadable path fault], x)) ∧
      (∀ others, (∀ s, s ∈ others ↔ s ∈ steps) →
        (built.after others).names.size = x.names.size ∧
          ∀ name, (built.after others).names.has name = x.names.has name) ∧
      (∀ later name, x.names.has name = true →
        (built.after (steps ++ later)).names.has name = true) ∧
      (caseSensitive = false → ∀ name other : Text,
        name.map Char.toLower = other.map Char.toLower →
          x.names.has name = x.names.has other) := by
  intro built taken x
  have hafter : ∀ more, built.after more =
      (new caseSensitive).after (built.scanned.map (.addFile t) ++ more) := by
    intro more
    rw [after_append, ← build_eq_after]
  have hknown : ∀ name, x.names.has name = true ↔ ∃ known ∈ taken.flatMap given,
      lookupKey caseSensitive name = lookupKey caseSensitive known := by
    intro name
    rw [show x = _ from hafter steps]
    exact has_after caseSensitive taken name
  refine ⟨hknown, ?_, ?_, ?_, ?_, ?_, ?_⟩
  · rw [show x = _ from hafter steps]
    exact size_after caseSensitive taken
  · rw [show x = _ from hafter steps, after_eq]
    rfl
  · intro tree path fault h hfault
    exact addFile_of_error h hfault x
  · intro others hothers
    have hmem : ∀ s, s ∈ built.scanned.map (SourceStep.addFile t) ++ others ↔ s ∈ taken := by
      intro s
      rw [List.mem_append, List.mem_append, hothers]
    rw [show x = _ from hafter steps, hafter others]
    exact same_of_mem_iff caseSensitive hmem
  · intro later name h
    rw [hafter, has_after, ← List.append_assoc, List.flatMap_append]
    obtain ⟨known, hmem, hkey⟩ := (hknown name).mp h
    exact ⟨known, List.mem_append_left _ hmem, hkey⟩
  · rintro rfl name other hsame
    have hkey : lookupKey false name = lookupKey false other := by
      rw [← lookupKey_map_toLower name, hsame, lookupKey_map_toLower]
    rw [Bool.eq_iff_iff, hknown, hknown, hkey]

end SourceIndex
end DocTypes
