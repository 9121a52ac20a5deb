/-
# Line ends do not decide what is declared

A source declares the same with CRLF at the ends of its lines as with line feeds
(`declaredTypes_lineFeeds`). A carriage return in front of a line feed is one of two blanks
where blanks are read, and it stands in no word and in no name, so a statement is read as
without it (`IgnoresReturns`). The finds lie further ahead without the returns, but in the same
order: they start at line starts, and what stands between two of them does not go away
(`length_lineFeeds_le_iff`).

So a file is read as its text: where every carriage return has its line feed, the line ends
of the file are folded to the same text (`foldLineEnds_eq_lineFeeds`), and adding the file gives
the names that adding the text gives.

Key definitions: `lineFeeds`, `movedOffset`, `IgnoresReturns`, `ReturnsPaired`.
Key theorems: `length_lineFeeds_le_iff`, `IgnoresReturns.findAll_lineFeeds`,
`declaredTypes_lineFeeds`, `foldLineEnds_eq_lineFeeds`.
-/
import DocTypes.Proofs.Continued
import DocTypes.Proofs.Encoding
import DocTypes.Proofs.Sources

namespace DocTypes

/-- The text with every CRLF as a line feed. -/
def lineFeeds : Text → Text
  | [] => []
  | '\r' :: '\n' :: s => '\n' :: lineFeeds s
  | c :: s => c :: lineFeeds s

/-- Where an offset of a text lies in the text with line feeds. -/
def movedOffset (s : Text) (offset : Nat) : Nat := (lineFeeds (s.take offset)).length

theorem movedOffset_length (h k : Text) :
    movedOffset (h ++ k) h.length = (lineFeeds h).length := by
  rw [movedOffset, List.take_left]

/-! ### Texts with other line ends -/

theorem lineFeeds_cons {c : Char} {s : Text} (hnot : ∀ t, c = '\r' → s = '\n' :: t → False) :
    lineFeeds (c :: s) = c :: lineFeeds s := by
  rw [lineFeeds]
  exact hnot

theorem lineFeeds_eq_nil_iff {s : Text} : lineFeeds s = [] ↔ s = [] := by
  fun_cases lineFeeds s <;> simp

/-- The text goes on behind a text that does not end in a carriage return. -/
theorem lineFeeds_append {u : Text} (hu : u.getLast? ≠ some '\r') (v : Text) :
    lineFeeds (u ++ v) = lineFeeds u ++ lineFeeds v := by
  fun_induction lineFeeds u with
  | case1 => rfl
  | case2 u ih =>
    have hlast : u.getLast? ≠ some '\r' := fun h => hu (by simp [List.getLast?_cons, h])
    rw [List.cons_append, List.cons_append, lineFeeds, ih hlast, List.cons_append]
  | case3 c u hnot ih =>
    have hlast : u.getLast? ≠ some '\r' := fun h => hu (by simp [List.getLast?_cons, h])
    have hnot' : ∀ t, c = '\r' → u ++ v = '\n' :: t → False := by
      rintro t rfl ht
      cases u with
      | nil => exact hu rfl
      | cons d u =>
        obtain ⟨rfl, -⟩ := List.cons.inj ht
        exact hnot u rfl rfl
    rw [List.cons_append, lineFeeds_cons hnot', ih hlast, List.cons_append]

/-- A front part without the returns is what a front part becomes. -/
theorem exists_of_lineFeeds_eq_append {s u v : Text} (h : lineFeeds s = u ++ v) :
    ∃ u' v', s = u' ++ v' ∧ lineFeeds u' = u ∧ lineFeeds v' = v := by
  cases u with
  | nil => exact ⟨[], s, rfl, rfl, h⟩
  | cons d u =>
    fun_cases lineFeeds s with
    | case1 => cases h
    | case2 s =>
      obtain ⟨rfl, hrest⟩ := List.cons.inj h
      obtain ⟨u', v', rfl, rfl, rfl⟩ := exists_of_lineFeeds_eq_append hrest
      exact ⟨'\r' :: '\n' :: u', v', rfl, rfl, rfl⟩
    | case3 c s hnot =>
      rw [lineFeeds_cons hnot] at h
      obtain ⟨rfl, hrest⟩ := List.cons.inj h
      obtain ⟨u', v', rfl, rfl, rfl⟩ := exists_of_lineFeeds_eq_append hrest
      refine ⟨c :: u', v', rfl, lineFeeds_cons ?_, rfl⟩
      rintro t hc rfl
      exact hnot (t ++ v') hc rfl
termination_by s.length

theorem atLineStart_lineFeeds (s : Text) (lineStart : Bool) :
    atLineStart lineStart (lineFeeds s) = atLineStart lineStart s := by
  fun_induction lineFeeds s generalizing lineStart with
  | case1 => rfl
  | case2 s ih => rw [atLineStart_cons, atLineStart_cons, atLineStart_cons, ih]
  | case3 c s _ ih => rw [atLineStart_cons, atLineStart_cons, ih]

theorem getLast?_ne_of_atLineStart {lineStart : Bool} {h : Text}
    (hl : atLineStart lineStart h = true) : h.getLast? ≠ some '\r' := by
  intro hlast
  rw [atLineStart, hlast] at hl
  cases hl

/-- **Line starts keep their order.** -/
theorem length_lineFeeds_le_iff {h h' k k' : Text} (hs : h ++ k = h' ++ k')
    (hl : atLineStart true h = true) (hl' : atLineStart true h' = true) :
    (lineFeeds h).length ≤ (lineFeeds h').length ↔ h.length ≤ h'.length := by
  rcases List.append_eq_append_iff.mp hs with ⟨b, rfl, -⟩ | ⟨b, rfl, -⟩
  · rw [lineFeeds_append (getLast?_ne_of_atLineStart hl), List.length_append, List.length_append]
    exact iff_of_true (Nat.le_add_right _ _) (Nat.le_add_right _ _)
  · rw [lineFeeds_append (getLast?_ne_of_atLineStart hl'), List.length_append, List.length_append]
    have hnil : (lineFeeds b).length = 0 ↔ b.length = 0 := by
      rw [List.length_eq_zero_iff, lineFeeds_eq_nil_iff, List.length_eq_zero_iff]
    omega

/-! ### Reading -/

section Classes

variable {p : Char → Bool}

theorem dropWhile_lineFeeds (hp : p '\r' = p '\n') (s : Text) :
    (lineFeeds s).dropWhile p = lineFeeds (s.dropWhile p) := by
  fun_induction lineFeeds s with
  | case1 => rfl
  | case2 s ih => cases hn : p '\n' <;> simp [hp, hn, ih, lineFeeds]
  | case3 c s hnot ih =>
    cases hc : p c with
    | true => simp [hc, ih]
    | false =>
      rw [List.dropWhile_cons_of_neg (by simp [hc]), List.dropWhile_cons_of_neg (by simp [hc]),
        lineFeeds_cons hnot]

theorem takeWhile_lineFeeds (hr : p '\r' = false) (hn : p '\n' = false) (s : Text) :
    (lineFeeds s).takeWhile p = s.takeWhile p := by
  fun_induction lineFeeds s with
  | case1 => rfl
  | case2 s ih => simp [hr, hn]
  | case3 c s hnot ih => simp [List.takeWhile_cons, ih]

theorem head?_any_lineFeeds (hp : p '\r' = p '\n') (s : Text) :
    (lineFeeds s).head?.any p = s.head?.any p := by
  fun_cases lineFeeds s <;> simp [hp]

end Classes

theorem afterWord?_lineFeeds {w : Text} (hw : ∀ c ∈ w, isBlank c = false) (s : Text) :
    Text.afterWord? w (lineFeeds s) = (Text.afterWord? w s).map lineFeeds := by
  induction w generalizing s with
  | nil => rfl
  | cons x w ih =>
    obtain ⟨hx, hw⟩ := List.forall_mem_cons.mp hw
    fun_cases lineFeeds s with
    | case1 => rfl
    | case2 s =>
      have hreturn : x ≠ '\r' := by rintro rfl; cases hx
      have hfeed : x ≠ '\n' := by rintro rfl; cases hx
      rw [Text.afterWord?, Text.afterWord?, if_neg hreturn, if_neg hfeed]
      rfl
    | case3 c s _ =>
      rw [Text.afterWord?, Text.afterWord?]
      split
      · exact ih hw s
      · rfl

theorem afterBlanks?_lineFeeds (s : Text) :
    (lineFeeds s).afterBlanks? = s.afterBlanks?.map lineFeeds := by
  have hblank : isBlank '\r' = isBlank '\n' := by decide
  rw [afterBlanks?_eq, afterBlanks?_eq, head?_any_lineFeeds hblank, dropWhile_lineFeeds hblank]
  split <;> rfl

section Words

variable {words : List Text} (hwords : ∀ w ∈ words, IsName w) (s : Text)
include hwords

theorem afterAnyWord?_lineFeeds :
    afterAnyWord? words (lineFeeds s) = (afterAnyWord? words s).map lineFeeds := by
  induction words with
  | nil => rfl
  | cons w words ih =>
    obtain ⟨hw, hwords⟩ := List.forall_mem_cons.mp hwords
    have hfirst := afterWord?_lineFeeds (fun c hc => isBlank_of_isWordChar (hw.word c hc)) s
    rw [afterAnyWord?, afterAnyWord?, List.findSome?_cons, List.findSome?_cons, hfirst]
    cases Text.afterWord? w s with
    | some r => rfl
    | none => exact ih hwords

theorem afterSpacedWord?_lineFeeds :
    afterSpacedWord? words (lineFeeds s) = (afterSpacedWord? words s).map lineFeeds := by
  rw [afterSpacedWord?, afterSpacedWord?, afterAnyWord?_lineFeeds hwords]
  cases afterAnyWord? words s with
  | none => rfl
  | some r => exact afterBlanks?_lineFeeds r

end Words

theorem skipModifiers_lineFeeds (s : Text) :
    skipModifiers (lineFeeds s) = lineFeeds (skipModifiers s) := by
  have hword := afterSpacedWord?_lineFeeds Written.isName_of_mem_modifiers
  fun_induction skipModifiers s with
  | case1 s rest h ih =>
    have hsome : afterSpacedWord? modifiers (lineFeeds s) = some (lineFeeds rest) := by
      rw [hword, h, Option.map_some]
    rw [skipModifiers_of_some hsome, ih]
  | case2 s h =>
    have hnone : afterSpacedWord? modifiers (lineFeeds s) = none := by
      rw [hword, h, Option.map_none]
    exact skipModifiers_of_none hnone

/-- A reader for which a CRLF is like a line feed, and which does not end in one. -/
structure IgnoresReturns {α : Type} (read : Recogniser α) : Prop where
  reads : ∀ s, read (lineFeeds s) = (read s).map fun f => (f.1, lineFeeds f.2)
  ends : ∀ {s : Text} {f : α × Text}, read s = some f →
    ∃ d, isBlank d = false ∧ d :: f.2 <:+ s

theorem name?_lineFeeds (s : Text) :
    (lineFeeds s).name? = s.name?.map fun f => (f.1, lineFeeds f.2) := by
  have hreturn : isWordChar '\r' = false := by decide
  have hfeed : isWordChar '\n' = false := by decide
  rw [Text.name?, Text.name?, takeWhile_lineFeeds hreturn hfeed,
    dropWhile_lineFeeds (hreturn.trans hfeed.symm)]
  split <;> rfl

theorem namespaceName?_lineFeeds (s : Text) :
    namespaceName? (lineFeeds s) = (namespaceName? s).map fun f => (f.1, lineFeeds f.2) := by
  have hreturn : isNamespaceChar '\r' = false := by decide
  have hfeed : isNamespaceChar '\n' = false := by decide
  have hblank : isBlank '\r' = isBlank '\n' := by decide
  unfold namespaceName?
  rw [takeWhile_lineFeeds hreturn hfeed, dropWhile_lineFeeds (hreturn.trans hfeed.symm),
    dropWhile_lineFeeds hblank]
  have hreturns : ∀ d rest, (s.dropWhile isNamespaceChar).dropWhile isBlank = d :: rest →
      lineFeeds (d :: rest) = d :: lineFeeds rest := by
    refine fun d rest hrest => lineFeeds_cons ?_
    rintro t rfl -
    cases Text.head?_dropWhile isBlank _ '\r' (by rw [hrest]; rfl)
  cases s.takeWhile isNamespaceChar with
  | nil => rfl
  | cons c cs =>
    cases hrest : (s.dropWhile isNamespaceChar).dropWhile isBlank with
    | nil => rfl
    | cons d rest =>
      rw [hreturns d rest hrest]
      dsimp only
      split <;> rfl

theorem suffix_skipModifiers (s : Text) : skipModifiers s <:+ s := by
  fun_induction skipModifiers s with
  | case1 s rest h ih => exact ih.trans (suffix_of_afterSpacedWord? h)
  | case2 s _ => exact List.suffix_refl s

theorem ignoresReturns_readDeclaration : IgnoresReturns readDeclaration where
  reads s := by
    have hblank : isBlank '\r' = isBlank '\n' := by decide
    have hwords := afterSpacedWord?_lineFeeds Written.isName_of_mem_declarationWords
    rw [readDeclaration, readDeclaration, dropWhile_lineFeeds hblank, skipModifiers_lineFeeds,
      hwords, Option.bind_map, Option.map_bind]
    exact congrArg _ (funext name?_lineFeeds)
  ends {s f} hf := by
    obtain ⟨r, hr, hname⟩ := Option.bind_eq_some_iff.mp hf
    have hsuffix : r <:+ s := (suffix_of_afterSpacedWord? hr).trans
      ((suffix_skipModifiers _).trans (List.dropWhile_suffix _))
    have hn := isName_of_name? hname
    refine ⟨f.1.getLast hn.ne_nil, isBlank_of_isWordChar (hn.word _ (List.getLast_mem _)), ?_⟩
    refine List.IsSuffix.trans ⟨f.1.dropLast, ?_⟩ hsuffix
    rw [(eq_append_of_name? hname).1, ← List.singleton_append, ← List.append_assoc,
      List.dropLast_append_getLast]

theorem ignoresReturns_readNamespace : IgnoresReturns readNamespace where
  reads s := by
    have hblank : isBlank '\r' = isBlank '\n' := by decide
    have hname : ∀ w ∈ ["namespace".toList], IsName w := by decide
    have hword := afterSpacedWord?_lineFeeds hname
    rw [readNamespace, readNamespace, dropWhile_lineFeeds hblank, hword, Option.bind_map,
      Option.map_bind]
    exact congrArg _ (funext namespaceName?_lineFeeds)
  ends {s f} hf := by
    obtain ⟨r, hr, hname⟩ := Option.bind_eq_some_iff.mp hf
    have hsuffix : r <:+ s := (suffix_of_afterSpacedWord? hr).trans (List.dropWhile_suffix _)
    unfold namespaceName? at hname
    split at hname
    · cases hname
    · cases hname
    · next ending rest _ hrest =>
      have hend : isBlank ending = false :=
        Text.head?_dropWhile isBlank _ ending (by rw [hrest]; rfl)
      split at hname
      · cases hname
        refine ⟨ending, hend, List.IsSuffix.trans ?_ hsuffix⟩
        rw [← hrest]
        exact (List.dropWhile_suffix _).trans (List.dropWhile_suffix _)
      · cases hname

/-! ### Searching -/

section Searches

variable {α : Type} {read : Recogniser α}

/-- The first find of a search, when it ends within a line. -/
theorem findAll_of_first {lineStart : Bool} {h k rest : Text} {found : α}
    (hp : Passes read false lineStart h (k ++ rest)) (hl : atLineStart lineStart h = true)
    (hr : read (k ++ rest) = some (found, rest)) (hne : k ≠ [])
    (hends : ∀ b, atLineStart b k = false) (offset : Nat) :
    findAll read false offset lineStart 0 (h ++ (k ++ rest)) =
      (offset + h.length, found) :: findAll read false (offset + (h ++ k).length) false 0 rest := by
  have hstart : (false || atLineStart lineStart h) = true := by rwa [Bool.false_or]
  rw [findAll_of_passes hp, findAll_of_read hne hstart hr, hends, List.length_append,
    Nat.add_assoc]

variable (hread : IgnoresReturns read)
include hread

/-- Nothing is read in a part without its returns when nothing is read in it with them. -/
theorem IgnoresReturns.passes {lineStart : Bool} {h x : Text}
    (hx : h.getLast? ≠ some '\r' ∨ x = []) (hp : Passes read false lineStart h x) :
    Passes read false lineStart (lineFeeds h) (lineFeeds x) := by
  intro u v huv hv hl
  obtain ⟨u, v, rfl, rfl, rfl⟩ := exists_of_lineFeeds_eq_append huv
  have hne : v ≠ [] := fun h => hv (lineFeeds_eq_nil_iff.mpr h)
  have hjoin : lineFeeds v ++ lineFeeds x = lineFeeds (v ++ x) := by
    rcases hx with hx | rfl
    · rw [← getLast?_of_suffix (List.suffix_append u v) hne] at hx
      exact (lineFeeds_append hx x).symm
    · rw [lineFeeds, List.append_nil, List.append_nil]
  rw [atLineStart_lineFeeds] at hl
  rw [hjoin, hread.reads, hp u v rfl hne hl, Option.map_none]

/-- The first find of a search, and the same find without the returns. It ends within a line,
and what stands in front of it ends in no return. -/
theorem IgnoresReturns.exists_of_findAll {s : Text} {offset : Nat} {lineStart : Bool} {f : Nat × α}
    {fs : List (Nat × α)} (hfinds : findAll read false offset lineStart 0 s = f :: fs) :
    ∃ h k rest, s = h ++ (k ++ rest) ∧ k ≠ [] ∧ h.getLast? ≠ some '\r' ∧ k.getLast? ≠ some '\r' ∧
      ∀ start, findAll read false start lineStart 0 s = (start + h.length, f.2) ::
          findAll read false (start + (h ++ k).length) false 0 rest ∧
        findAll read false start lineStart 0 (lineFeeds s) = (start + (lineFeeds h).length, f.2) ::
          findAll read false (start + (lineFeeds h ++ lineFeeds k).length) false 0
            (lineFeeds rest) := by
  obtain ⟨h, k, rest, rfl, -, hl, hr, hp⟩ := exists_passes_of_findAll hfinds
  obtain ⟨d, hd, u, rfl⟩ := hread.ends hr
  rw [List.append_cons] at hr hp ⊢
  have hh : h.getLast? ≠ some '\r' := getLast?_ne_of_atLineStart hl
  have hk : (u ++ [d]).getLast? ≠ some '\r' := by
    rw [List.getLast?_concat]
    rintro ⟨⟩
    cases hd
  have hne : u ++ [d] ≠ [] := List.concat_ne_nil d u
  have hends : ∀ b, atLineStart b (u ++ [d]) = false := by
    intro b
    rw [atLineStart, List.getLast?_concat, Option.elim_some, beq_eq_false_iff_ne]
    rintro rfl
    cases hd
  refine ⟨h, u ++ [d], rest, rfl, hne, hh, hk, fun start => ?_⟩
  refine ⟨findAll_of_first hp hl hr hne hends start, ?_⟩
  have hpass := hread.passes (Or.inl hh) hp
  have hfound : read (lineFeeds (u ++ [d]) ++ lineFeeds rest) = some (f.2, lineFeeds rest) := by
    rw [← lineFeeds_append hk, hread.reads, hr, Option.map_some]
  have hne' : lineFeeds (u ++ [d]) ≠ [] := fun hnil => hne (lineFeeds_eq_nil_iff.mp hnil)
  have hends' : ∀ b, atLineStart b (lineFeeds (u ++ [d])) = false := fun b => by
    rw [atLineStart_lineFeeds, hends]
  have hl' : atLineStart lineStart (lineFeeds h) = true := by rwa [atLineStart_lineFeeds]
  rw [lineFeeds_append hk] at hpass
  rw [lineFeeds_append hh, lineFeeds_append hk]
  exact findAll_of_first hpass hl' hfound hne' hends' start

/-- **The finds without the returns**: the same ones, each as far ahead as what stands in
front of it is long without them. -/
theorem IgnoresReturns.findAll_lineFeeds {a s : Text} {lineStart : Bool}
    (ha : a.getLast? ≠ some '\r') :
    findAll read false (lineFeeds a).length lineStart 0 (lineFeeds s) =
      (findAll read false a.length lineStart 0 s).map fun f =>
        (movedOffset (a ++ s) f.1, f.2) := by
  -- from find to find, with `a` as what has been passed
  induction hn : s.length using Nat.strong_induction_on generalizing a s lineStart with | _ n ih
  subst hn
  cases hfinds : findAll read false a.length lineStart 0 s with
  | nil =>
    have hp := hread.passes (Or.inr rfl) (passes_of_findAll_eq_nil hfinds)
    exact findAll_eq_nil_of_passes hp _
  | cons f fs =>
    obtain ⟨h, k, rest, rfl, hne, hh, hk, hfirst⟩ := hread.exists_of_findAll hfinds
    have hshorter : rest.length < (h ++ (k ++ rest)).length := by
      have hpos := List.length_pos_iff.mpr hne
      rw [List.length_append, List.length_append]
      omega
    have hlast : (a ++ (h ++ k)).getLast? ≠ some '\r' := by
      rwa [← List.append_assoc, List.getLast?_append_of_ne_nil _ hne]
    have hbehind : findAll read false (lineFeeds (a ++ (h ++ k))).length false 0 (lineFeeds rest) =
        (findAll read false (a ++ (h ++ k)).length false 0 rest).map fun f =>
          (movedOffset (a ++ (h ++ k) ++ rest) f.1, f.2) :=
      ih rest.length hshorter hlast rfl
    rw [lineFeeds_append ha, lineFeeds_append hh, List.append_assoc, List.append_assoc] at hbehind
    have hmoved : movedOffset (a ++ (h ++ (k ++ rest))) (a.length + h.length) =
        (lineFeeds a).length + (lineFeeds h).length := by
      rw [← List.append_assoc, ← List.length_append, movedOffset_length, lineFeeds_append ha,
        List.length_append]
    rw [← hfinds, (hfirst _).1, (hfirst _).2, List.map_cons, hmoved]
    simp only [List.length_append] at hbehind ⊢
    rw [hbehind]

/-- The finds on lines without the returns. -/
theorem IgnoresReturns.findLines_lineFeeds (s : Text) : findLines read (lineFeeds s) =
    (findLines read s).map fun f => (movedOffset s f.1, f.2) :=
  hread.findAll_lineFeeds (a := []) (by simp)

end Searches

/-! ### Declared types -/

/-- The namespace at an offset, when the offsets change and keep their order to it. -/
theorem namespaceAt_map {statements : List (Nat × Text)} {move : Nat → Nat} {offset : Nat}
    (h : ∀ f ∈ statements, move f.1 ≤ move offset ↔ f.1 ≤ offset) :
    namespaceAt (statements.map fun f => (move f.1, f.2)) (move offset) =
      namespaceAt statements offset := by
  have hfilter : statements.filter (fun f => decide (move f.1 ≤ move offset)) =
      statements.filter fun f => decide (f.1 ≤ offset) :=
    List.filter_congr fun f hf => decide_eq_decide.mpr (h f hf)
  rw [namespaceAt, namespaceAt, ← hfilter, List.filter_map, List.getLast?_map, Option.elim_map]
  rfl

/-- A find starts where a line does. -/
theorem exists_of_mem_findLines {α : Type} {read : Recogniser α} {s : Text} {f : Nat × α}
    (hf : f ∈ findLines read s) :
    ∃ h k, h ++ k = s ∧ f.1 = h.length ∧ atLineStart true h = true := by
  obtain ⟨h, k, -, hs, ho, hl, -⟩ := foundAt_of_mem_findAll _ _ _ _ f hf
  exact ⟨h, k, hs.symm, by rw [ho, Nat.zero_add], by simpa using hl⟩

/-- **Line ends do not decide what is declared.** -/
theorem declaredTypes_lineFeeds (s : Text) : declaredTypes (lineFeeds s) = declaredTypes s := by
  have hnamespaces : namespacesOf (lineFeeds s) =
      (namespacesOf s).map fun f => (movedOffset s f.1, f.2) := by
    rw [namespacesOf, ignoresReturns_readNamespace.findLines_lineFeeds, List.map_map, namespacesOf,
      List.map_map]
    rfl
  have horder : ∀ d ∈ findLines readDeclaration s, ∀ f ∈ namespacesOf s,
      movedOffset s f.1 ≤ movedOffset s d.1 ↔ f.1 ≤ d.1 := by
    intro d hd f hf
    obtain ⟨f', hf', rfl⟩ := List.mem_map.mp hf
    obtain ⟨h, k, rfl, ho, hl⟩ := exists_of_mem_findLines hd
    obtain ⟨h', k', hs, ho', hl'⟩ := exists_of_mem_findLines hf'
    rw [ho, movedOffset_length, ← hs, ho', movedOffset_length]
    exact length_lineFeeds_le_iff hs hl' hl
  unfold declaredTypes
  rw [hnamespaces, ignoresReturns_readDeclaration.findLines_lineFeeds, List.map_map]
  refine List.map_congr_left fun d hd => ?_
  exact congrArg (qualified · d.2) (namespaceAt_map (horder d hd))

/-! ### Files -/

/-- Every carriage return has a line feed behind it. -/
def ReturnsPaired (s : Text) : Prop := ∀ u v, s = u ++ '\r' :: v → v.head? = some '\n'

theorem returnsPaired_cons {c : Char} {s : Text} :
    ReturnsPaired (c :: s) ↔ (c = '\r' → s.head? = some '\n') ∧ ReturnsPaired s := by
  constructor
  · intro h
    refine ⟨fun hc => h [] s (by rw [hc]; rfl), fun u v hs => h (c :: u) v (by rw [hs]; rfl)⟩
  · rintro ⟨hc, hs⟩ u v huv
    cases u with
    | nil =>
      obtain ⟨rfl, rfl⟩ := List.cons.inj huv
      exact hc rfl
    | cons d u => exact hs u v (List.cons.inj huv).2

/-- No return is left in the text with line feeds just when all of them had one. -/
theorem returnsPaired_iff {s : Text} : ReturnsPaired s ↔ '\r' ∉ lineFeeds s := by
  fun_induction lineFeeds s with
  | case1 => simp [ReturnsPaired]
  | case2 s ih => simp [returnsPaired_cons, ih]
  | case3 c s hnot ih =>
    have hlone : (c = '\r' → s.head? = some '\n') ↔ '\r' ≠ c := by
      refine ⟨fun h e => ?_, fun h e => absurd e.symm h⟩
      obtain ⟨t, ht⟩ := List.head?_eq_some_iff.mp (h e.symm)
      exact hnot t e.symm ht
    rw [returnsPaired_cons, ih, hlone, List.mem_cons, not_or]

instance (s : Text) : Decidable (ReturnsPaired s) := decidable_of_iff _ returnsPaired_iff.symm

/-- Folding the line ends gives the line feeds, when no return is left. -/
theorem foldLineEnds_eq_lineFeeds {s : Text} (h : ReturnsPaired s) :
    foldLineEnds s = lineFeeds s := by
  rw [returnsPaired_iff] at h
  unfold foldLineEnds
  fun_induction lineFeeds s with
  | case1 => rfl
  | case2 s ih =>
    rw [← ih fun hs => h (List.mem_cons_of_mem _ hs)]
    rfl
  | case3 c s _ ih =>
    rw [List.mem_cons, not_or] at h
    obtain ⟨hc, hs⟩ := h
    rw [foldLineEndsFrom, if_neg (Ne.symm hc), if_neg (by simp), ih hs]

namespace SourceIndex

/-- **Line ends do not decide what is declared, and a file is read like its text**: adding the
file gives the same number of declarations and the same names. -/
theorem addFile_encodeUtf8 {s : Text} (h : ReturnsPaired s) :
    declaredTypes s = declaredTypes (lineFeeds s) ∧
      ∀ (x : SourceIndex) (tree : Tree) (path : Path), tree.read path = .ok (encodeUtf8 s) →
        (x.addFile tree path).1 = .ok (x.addText s).1 ∧
          (∀ name, (x.addFile tree path).2.2.names.has name = (x.addText s).2.2.names.has name) ∧
          (x.addFile tree path).2.2.names.size = (x.addText s).2.2.names.size := by
  refine ⟨(declaredTypes_lineFeeds s).symm, fun x tree path hread => ?_⟩
  have hdeclared : declaredTypes (fileText (encodeUtf8 s)) = declaredTypes s := by
    rw [fileText, decodeUtf8_encodeUtf8, foldLineEnds_eq_lineFeeds h, declaredTypes_lineFeeds]
  have hfile := addFile_of_ok hread x
  rw [addDeclared, hdeclared] at hfile
  rw [hfile, addText, addDeclared]
  exact ⟨rfl, fun _ => rfl, rfl⟩

/-- A file with CRLF at the ends of its lines and blanks over two of them. -/
theorem addFile_encodeUtf8_crlf :
    let source := "namespace App;\r\n\r\nfinal\r\nclass Café\r\n".toList
    let tree : Tree := { files := .ofList [(["Café.php".toList], encodeUtf8 source)] }
    let path := Path.ofText "Café.php".toList
    ReturnsPaired source ∧ tree.read path = .ok (encodeUtf8 source) ∧
      declaredTypes (lineFeeds source) = ["App\\Café".toList] ∧
      declaredTypes source = declaredTypes (lineFeeds source) ∧
      ((new false).addFile tree path).1 = .ok ((new false).addText source).1 ∧
      ((new false).addFile tree path).2.2.names.has "app\\café".toList = true := by
  intro source tree path
  have hpaired : ReturnsPaired source := by decide +kernel
  have hread : tree.read path = .ok (encodeUtf8 source) := by decide +kernel
  obtain ⟨hsame, hadd⟩ := addFile_encodeUtf8 hpaired
  obtain ⟨hcount, hnames, -⟩ := hadd (new false) tree path hread
  refine ⟨hpaired, hread, by decide +kernel, hsame, hcount, (hnames _).trans ?_⟩
  decide +kernel

end SourceIndex
end DocTypes
