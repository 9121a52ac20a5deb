/-
# Where a search finds

Every find of a search was read at its offset (`foundAt_of_mem_findAll`), and the
finds stand in the order of their offsets (`pairwise_findAll`). The first find in
a text is the first one in its front part when there is one, and otherwise the
first one in the rest (`head?_findAll_append`); this needs that reading in the
front part does not depend on the rest.

A search through a text that is put together of parts goes part by part: past one
in which nothing is read (`findAll_of_passes`), as in front of the first find
(`exists_passes_of_findAll`), and over one that is read as a whole
(`findAll_of_read`). What is read may also be found early, in a part in front of it
(`exists_findAll_append`). Whole lines whose finds do not depend on what follows are
put together by their finds alone (`Yields`).

Key definitions: `atLineStart`, `FoundAt`, `Passes`, `Yields`.
Key theorems: `foundAt_of_mem_findAll`, `pairwise_findAll`,
`head?_findAll_append`, `findAll_of_passes`, `exists_passes_of_findAll`,
`findAll_of_read`, `exists_findAll_append`, `Yields.append`, `yields_of_read`.
-/
import DocTypes.Source.Header

namespace DocTypes

/-- Whether a line starts after `h`, where `lineStart` tells whether one starts
before it. -/
def atLineStart (lineStart : Bool) (h : Text) : Bool := h.getLast?.elim lineStart (· == '\n')

theorem atLineStart_cons (lineStart : Bool) (c : Char) (h : Text) :
    atLineStart lineStart (c :: h) = atLineStart (c == '\n') h := by
  unfold atLineStart
  rw [List.getLast?_cons]
  cases h.getLast? <;> rfl

theorem atLineStart_append (lineStart : Bool) (h k : Text) :
    atLineStart lineStart (h ++ k) = atLineStart (atLineStart lineStart h) k := by
  unfold atLineStart
  rw [List.getLast?_append]
  cases k.getLast? <;> rfl

theorem atLineStart_true {lineStart : Bool} {h : Text} (hl : atLineStart lineStart h = true) :
    atLineStart true h = true := by
  unfold atLineStart at hl ⊢
  cases hlast : h.getLast? with
  | none => rfl
  | some c => rwa [hlast] at hl

/-- No line starts within a line. -/
theorem atLineStart_eq_false {lineStart : Bool} {h : Text} (hne : h ≠ []) (hn : '\n' ∉ h) :
    atLineStart lineStart h = false := by
  rw [atLineStart, List.getLast?_eq_some_getLast hne]
  rw [Option.elim_some, beq_eq_false_iff_ne]
  exact fun e => hn (e ▸ List.getLast_mem hne)

section
variable {α : Type} {read : Recogniser α} {everywhere : Bool}

/-- No find lies before the text. -/
theorem le_of_mem_findAll : ∀ (s : Text) (offset : Nat) (lineStart : Bool) (covered : Nat),
    ∀ f ∈ findAll read everywhere offset lineStart covered s, offset ≤ f.1
  | [], _, _, _, f, hf => by simp [findAll] at hf
  | _ :: s, offset, _, _ + 1, f, hf => by
    rw [findAll] at hf
    exact Nat.le_of_succ_le (le_of_mem_findAll s _ _ _ f hf)
  | _ :: s, offset, lineStart, 0, f, hf => by
    rw [findAll] at hf
    split at hf
    · exact Nat.le_of_succ_le (le_of_mem_findAll s _ _ _ f hf)
    · rcases List.mem_cons.mp hf with rfl | hf
      · exact Nat.le_refl _
      · exact Nat.le_of_succ_le (le_of_mem_findAll s _ _ _ f hf)

/-- The finds stand in the order of their offsets. -/
theorem pairwise_findAll : ∀ (s : Text) (offset : Nat) (lineStart : Bool) (covered : Nat),
    (findAll read everywhere offset lineStart covered s).Pairwise (·.1 < ·.1)
  | [], _, _, _ => by simp [findAll]
  | _ :: s, _, _, _ + 1 => by
    rw [findAll]
    exact pairwise_findAll s _ _ _
  | _ :: s, _, _, 0 => by
    rw [findAll]
    split
    · exact pairwise_findAll s _ _ _
    · exact List.Pairwise.cons (fun f hf => le_of_mem_findAll s _ _ _ f hf)
        (pairwise_findAll s _ _ _)

/-- A find in a text at `offset` was read there: at its own offset and, unless
`everywhere`, at the start of a line. -/
def FoundAt (read : Recogniser α) (everywhere : Bool) (offset : Nat) (lineStart : Bool) (s : Text)
    (f : Nat × α) : Prop :=
  ∃ h x rest, s = h ++ x ∧ f.1 = offset + h.length ∧
    (everywhere || atLineStart lineStart h) = true ∧ read x = some (f.2, rest)

theorem FoundAt.cons {offset : Nat} {c : Char} {s : Text} {f : Nat × α}
    (h : FoundAt read everywhere (offset + 1) (c == '\n') s f) (lineStart : Bool) :
    FoundAt read everywhere offset lineStart (c :: s) f := by
  obtain ⟨h, x, rest, hs, ho, hl, hr⟩ := h
  refine ⟨c :: h, x, rest, by rw [hs]; rfl, ?_, by rwa [atLineStart_cons], hr⟩
  rw [ho, List.length_cons]
  omega

/-- Every find was read at its offset. -/
theorem foundAt_of_mem_findAll : ∀ (s : Text) (offset : Nat) (lineStart : Bool) (covered : Nat),
    ∀ f ∈ findAll read everywhere offset lineStart covered s,
      FoundAt read everywhere offset lineStart s f
  | [], _, _, _, f, hf => by simp [findAll] at hf
  | _ :: s, _, lineStart, _ + 1, f, hf => by
    rw [findAll] at hf
    exact (foundAt_of_mem_findAll s _ _ _ f hf).cons lineStart
  | c :: s, offset, lineStart, 0, f, hf => by
    rw [findAll] at hf
    split at hf
    · exact (foundAt_of_mem_findAll s _ _ _ f hf).cons lineStart
    · next found rest hr =>
      rcases List.mem_cons.mp hf with rfl | hf
      · split at hr
        · next hl => exact ⟨[], c :: s, rest, rfl, rfl, hl, hr⟩
        · cases hr
      · exact (foundAt_of_mem_findAll s _ _ _ f hf).cons lineStart

/-- **The first find of a text** is the first one of its front part, when what is
read there does not depend on the rest; when there is none it is the first one
of the rest. -/
theorem head?_findAll_append (everywhere : Bool) (x : Text) :
    ∀ (h : Text) (offset : Nat) (lineStart : Bool),
      (∀ u, u ≠ [] → u <:+ h → (read (u ++ x)).map (·.1) = (read u).map (·.1)) →
      (findAll read everywhere offset lineStart 0 (h ++ x)).head? =
        (findAll read everywhere offset lineStart 0 h).head?.or
          (findAll read everywhere (offset + h.length) (atLineStart lineStart h) 0 x).head?
  | [], _, _, _ => by simp [findAll, atLineStart]
  | c :: h, offset, lineStart, hread => by
    have ih := head?_findAll_append everywhere x h (offset + 1) (c == '\n') fun u hu hs =>
      hread u hu (hs.trans (List.suffix_cons c h))
    have hr := hread (c :: h) (List.cons_ne_nil c h) (List.suffix_refl _)
    have ho : offset + (h.length + 1) = offset + 1 + h.length := by omega
    rw [atLineStart_cons, List.length_cons, ho, List.cons_append, findAll, findAll]
    rw [List.cons_append] at hr
    by_cases hl : (everywhere || lineStart) = true
    · simp only [hl, if_true]
      cases hu : read (c :: h) with
      | none =>
        have hn : read (c :: (h ++ x)) = none := by simpa [hu] using hr
        rw [hn]
        exact ih
      | some found =>
        obtain ⟨v, rest⟩ := found
        rw [hu] at hr
        obtain ⟨found', hf', hv⟩ := Option.map_eq_some_iff.mp hr
        obtain rfl : found'.1 = v := hv
        rw [hf']
        simp
    · simp only [hl]
      exact ih

/-! ### Part by part -/

/-- Nothing is read in the part `h` in front of `x`, wherever it is tried. -/
def Passes (read : Recogniser α) (everywhere lineStart : Bool) (h x : Text) : Prop :=
  ∀ u v, h = u ++ v → v ≠ [] → (everywhere || atLineStart lineStart u) = true →
    read (v ++ x) = none

theorem Passes.append {lineStart : Bool} {h k x : Text}
    (hh : Passes read everywhere lineStart h (k ++ x))
    (hk : Passes read everywhere (atLineStart lineStart h) k x) :
    Passes read everywhere lineStart (h ++ k) x := by
  intro u v huv hv hl
  rcases List.append_eq_append_iff.mp huv with ⟨a, ha, hk'⟩ | ⟨a, ha, hv'⟩
  · rw [ha, atLineStart_append] at hl
    exact hk a v hk' hv hl
  · by_cases ha0 : a = []
    · rw [ha0, List.append_nil] at ha
      rw [ha0, List.nil_append] at hv'
      rw [ha] at hk
      exact hk [] v hv'.symm hv hl
    · rw [hv', List.append_assoc]
      exact hh u a ha ha0 hl

/-- It is enough to try as if a line started with the part. -/
theorem Passes.of_lineStart {h x : Text} (hp : Passes read everywhere true h x)
    (lineStart : Bool) : Passes read everywhere lineStart h x := fun u v huv hv hl => by
  refine hp u v huv hv ?_
  rw [Bool.or_eq_true] at hl ⊢
  exact hl.imp_right atLineStart_true

theorem Passes.read_eq_none {h x : Text} (hp : Passes read everywhere true h x) (hne : h ≠ []) :
    read (h ++ x) = none :=
  hp [] h rfl hne (Bool.or_true _)

/-- Nothing is read within a line when nothing is read at its start. -/
theorem passes_line {lineStart : Bool} {h x : Text} (hn : '\n' ∉ h.dropLast)
    (hr : lineStart = true → read (h ++ x) = none) : Passes read false lineStart h x := by
  intro u v huv hv hl
  cases u with
  | nil =>
    obtain rfl : h = v := huv
    exact hr hl
  | cons c u =>
    have hu : '\n' ∉ c :: u := fun hm => by
      rw [huv, List.dropLast_append_of_ne_nil hv] at hn
      exact hn (List.mem_append_left _ hm)
    rw [Bool.false_or, atLineStart_eq_false (List.cons_ne_nil c u) hu] at hl
    cases hl

/-- The search goes on behind a part in which nothing is read. -/
theorem findAll_of_passes : ∀ {h x : Text} {offset : Nat} {lineStart : Bool},
    Passes read everywhere lineStart h x →
    findAll read everywhere offset lineStart 0 (h ++ x) =
      findAll read everywhere (offset + h.length) (atLineStart lineStart h) 0 x
  | [], x, offset, lineStart, _ => rfl
  | c :: h, x, offset, lineStart, hp => by
    have hrest : Passes read everywhere (c == '\n') h x := fun u v huv hv hl =>
      hp (c :: u) v (by rw [huv]; rfl) hv (by rwa [atLineStart_cons])
    have hnone : (if everywhere || lineStart then read (c :: (h ++ x)) else none) = none := by
      split
      · next hl => exact hp [] (c :: h) rfl (List.cons_ne_nil c h) hl
      · rfl
    have ho : offset + (h.length + 1) = offset + 1 + h.length := by omega
    rw [List.cons_append, findAll, hnone]
    rw [findAll_of_passes hrest, atLineStart_cons, List.length_cons, ho]

/-- Nothing is found in a text in which nothing is read. -/
theorem findAll_eq_nil_of_passes {s : Text} {lineStart : Bool}
    (hp : Passes read everywhere lineStart s []) (offset : Nat) :
    findAll read everywhere offset lineStart 0 s = [] := by
  have hfinds : findAll read everywhere offset lineStart 0 (s ++ []) = _ := findAll_of_passes hp
  rwa [List.append_nil, findAll] at hfinds

/-- Nothing is read in a text in which nothing is found. -/
theorem passes_of_findAll_eq_nil : ∀ {s : Text} {offset : Nat} {lineStart : Bool},
    findAll read everywhere offset lineStart 0 s = [] → Passes read everywhere lineStart s []
  | [], _, _, _, u, v, huv, hv, _ => absurd (List.append_eq_nil_iff.mp huv.symm).2 hv
  | c :: s, offset, lineStart, hnil, u, v, huv, hv, hl => by
    rw [findAll] at hnil
    split at hnil
    · next hnone =>
      cases u with
      | nil =>
        obtain rfl : c :: s = v := huv
        rwa [if_pos (show (everywhere || lineStart) = true from hl), ← List.append_nil (c :: s)]
          at hnone
      | cons d u =>
        obtain ⟨rfl, rfl⟩ := List.cons.inj huv
        exact passes_of_findAll_eq_nil hnil u v rfl hv (by rwa [atLineStart_cons] at hl)
    · cases hnil

/-- Nothing is read in front of the first find of a search. -/
theorem exists_passes_of_findAll : ∀ {s : Text} {offset : Nat} {lineStart : Bool} {f : Nat × α}
    {fs : List (Nat × α)}, findAll read everywhere offset lineStart 0 s = f :: fs →
    ∃ h k rest, s = h ++ k ∧ f.1 = offset + h.length ∧
      (everywhere || atLineStart lineStart h) = true ∧ read k = some (f.2, rest) ∧
      Passes read everywhere lineStart h k
  | [], _, _, _, _, hfinds => by simp [findAll] at hfinds
  | c :: s, offset, lineStart, f, fs, hfinds => by
    rw [findAll] at hfinds
    split at hfinds
    · next hnone =>
      obtain ⟨h, k, rest, hs, ho, hl, hr, hp⟩ := exists_passes_of_findAll hfinds
      refine ⟨c :: h, k, rest, by rw [hs]; rfl, ?_, by rwa [atLineStart_cons], hr, ?_⟩
      · rw [ho, List.length_cons]
        omega
      · intro u v huv hv hu
        cases u with
        | nil =>
          obtain rfl : c :: h = v := huv
          rwa [if_pos (show (everywhere || lineStart) = true from hu), hs] at hnone
        | cons d u =>
          obtain ⟨rfl, rfl⟩ := List.cons.inj huv
          exact hp u v rfl hv (by rwa [atLineStart_cons] at hu)
    · next found rest hr =>
      obtain ⟨rfl, -⟩ := List.cons.inj hfinds
      split at hr
      · next hl =>
        refine ⟨[], c :: s, rest, rfl, rfl, hl, hr, fun u v huv hv _ => ?_⟩
        exact absurd (List.append_eq_nil_iff.mp huv.symm).2 hv
      · cases hr

/-- Characters that belong to a find are passed over. -/
theorem findAll_covered : ∀ (h x : Text) (offset : Nat) (lineStart : Bool),
    findAll read everywhere offset lineStart h.length (h ++ x) =
      findAll read everywhere (offset + h.length) (atLineStart lineStart h) 0 x
  | [], _, _, _ => rfl
  | c :: h, x, offset, lineStart => by
    have ho : offset + (h.length + 1) = offset + 1 + h.length := by omega
    rw [List.cons_append, List.length_cons, findAll, findAll_covered h x, atLineStart_cons, ho]

/-- **The finds of a text in front of another one** are its own, when everything in it is
read as if nothing came behind it. -/
theorem findAll_append_of_read {x : Text} : ∀ {h : Text} {offset : Nat} {lineStart : Bool}
    {covered : Nat}, covered ≤ h.length →
    (∀ u, u ≠ [] → u <:+ h → read (u ++ x) = (read u).map fun f => (f.1, f.2 ++ x)) →
    findAll read everywhere offset lineStart covered (h ++ x) =
      findAll read everywhere offset lineStart covered h ++
        findAll read everywhere (offset + h.length) (atLineStart lineStart h) 0 x
  | [], offset, lineStart, covered, hc, _ => by
    obtain rfl : covered = 0 := Nat.le_zero.mp hc
    rw [findAll]
    rfl
  | c :: h, offset, lineStart, covered + 1, hc, hread => by
    have ho : offset + (h.length + 1) = offset + 1 + h.length := by omega
    rw [List.cons_append, findAll, findAll, atLineStart_cons, List.length_cons, ho]
    exact findAll_append_of_read (Nat.le_of_succ_le_succ hc) fun u hu hs =>
      hread u hu (hs.trans (List.suffix_cons c h))
  | c :: h, offset, lineStart, 0, _, hread => by
    have ho : offset + (h.length + 1) = offset + 1 + h.length := by omega
    have hrest : ∀ u, u ≠ [] → u <:+ h → read (u ++ x) = (read u).map fun f => (f.1, f.2 ++ x) :=
      fun u hu hs => hread u hu (hs.trans (List.suffix_cons c h))
    have hhere := hread (c :: h) (List.cons_ne_nil c h) (List.suffix_refl _)
    rw [List.cons_append] at hhere ⊢
    rw [findAll, findAll, atLineStart_cons, List.length_cons, ho, hhere]
    by_cases hl : (everywhere || lineStart) = true
    · simp only [if_pos hl]
      cases read (c :: h) with
      | none => exact findAll_append_of_read (Nat.zero_le _) hrest
      | some found =>
        have hlength : (h ++ x).length - (found.2 ++ x).length = h.length - found.2.length := by
          rw [List.length_append, List.length_append]
          omega
        simp only [Option.map_some, hlength, List.cons_append]
        exact congrArg _ (findAll_append_of_read (Nat.sub_le _ _) hrest)
    · simp only [if_neg hl]
      exact findAll_append_of_read (Nat.zero_le _) hrest

/-- A part that is read as a whole is a find, and the search goes on behind it. -/
theorem findAll_of_read {h x : Text} {offset : Nat} {lineStart : Bool} {found : α} (hne : h ≠ [])
    (hl : (everywhere || lineStart) = true) (hr : read (h ++ x) = some (found, x)) :
    findAll read everywhere offset lineStart 0 (h ++ x) = (offset, found) ::
      findAll read everywhere (offset + h.length) (atLineStart lineStart h) 0 x := by
  cases h with
  | nil => exact absurd rfl hne
  | cons c h =>
    have hlen : (h ++ x).length - x.length = h.length := by simp
    have ho : offset + (h.length + 1) = offset + 1 + h.length := by omega
    rw [List.cons_append] at hr ⊢
    rw [findAll, if_pos hl, hr]
    simp only [hlen, findAll_covered, atLineStart_cons, List.length_cons, ho]

/-- **What is read behind a part may be found early in it**: if in the part `h`
either nothing is read or the same as behind it, then there is one find, up to
where the part ends, and the search goes on behind what was read. -/
theorem exists_findAll_append {k x : Text} {found : α} (hk : k ≠ [])
    (hr : read (k ++ x) = some (found, x)) :
    ∀ (h : Text) (offset : Nat) (lineStart : Bool),
      (everywhere || atLineStart lineStart h) = true →
      (∀ u v, h = u ++ v → v ≠ [] → (everywhere || atLineStart lineStart u) = true →
        read (v ++ (k ++ x)) = none ∨ read (v ++ (k ++ x)) = some (found, x)) →
      ∃ start, offset ≤ start ∧ start ≤ offset + h.length ∧
        findAll read everywhere offset lineStart 0 (h ++ (k ++ x)) = (start, found) ::
          findAll read everywhere (offset + (h ++ k).length) (atLineStart lineStart (h ++ k)) 0 x
  | [], offset, lineStart, hl, _ =>
    ⟨offset, Nat.le_refl _, Nat.le_refl _, findAll_of_read hk hl hr⟩
  | c :: h, offset, lineStart, hl, hread => by
    have hhere : ∀ hl : (everywhere || lineStart) = true, read (c :: h ++ (k ++ x)) = none ∨
        read (c :: h ++ (k ++ x)) = some (found, x) := fun hl =>
      hread [] (c :: h) rfl (List.cons_ne_nil c h) hl
    by_cases hfound : (everywhere || lineStart) = true ∧
        read (c :: h ++ (k ++ x)) = some (found, x)
    · refine ⟨offset, Nat.le_refl _, Nat.le_add_right _ _, ?_⟩
      rw [← List.append_assoc] at hfound ⊢
      exact findAll_of_read (by simp) hfound.1 hfound.2
    · have hnone : (if everywhere || lineStart then read (c :: (h ++ (k ++ x))) else none) =
          none := by
        split
        · next hl => exact (hhere hl).resolve_right fun hr => hfound ⟨hl, hr⟩
        · rfl
      obtain ⟨start, h1, h2, h3⟩ := exists_findAll_append hk hr h (offset + 1) (c == '\n')
        (by rwa [atLineStart_cons] at hl) fun u v huv hv hl =>
          hread (c :: u) v (by rw [huv]; rfl) hv (by rwa [atLineStart_cons])
      refine ⟨start, by omega, by rw [List.length_cons]; omega, ?_⟩
      have ho : offset + (c :: (h ++ k)).length = offset + 1 + (h ++ k).length := by
        rw [List.length_cons]
        omega
      rw [List.cons_append, findAll, hnone]
      rw [h3, List.cons_append, atLineStart_cons, ho]

/-! ### Line by line -/

/-- Lines with these finds, whatever follows: they start and end where a line does. -/
structure Yields (read : Recogniser α) (everywhere : Bool) (h : Text) (values : List α) : Prop where
  ends : atLineStart true h = true
  finds : ∀ (offset : Nat) (x : Text), ∃ fs : List (Nat × α), fs.map (·.2) = values ∧
    findAll read everywhere offset true 0 (h ++ x) =
      fs ++ findAll read everywhere (offset + h.length) true 0 x

theorem yields_nil : Yields read everywhere [] [] :=
  ⟨rfl, fun _ _ => ⟨[], rfl, rfl⟩⟩

namespace Yields

variable {h k : Text} {values values' : List α}

theorem append (hh : Yields read everywhere h values) (hk : Yields read everywhere k values') :
    Yields read everywhere (h ++ k) (values ++ values') := by
  refine ⟨by rw [atLineStart_append, hh.ends, hk.ends], fun offset x => ?_⟩
  obtain ⟨fs, hfs, hfinds⟩ := hh.finds offset (k ++ x)
  obtain ⟨fs', hfs', hfinds'⟩ := hk.finds (offset + h.length) x
  refine ⟨fs ++ fs', by rw [List.map_append, hfs, hfs'], ?_⟩
  rw [List.append_assoc, hfinds, hfinds', List.append_assoc, List.length_append, Nat.add_assoc]

/-- Lines of several items, each with its finds. -/
theorem flatMap {ι : Type} {text : ι → Text} {finds : ι → List α}
    (hitem : ∀ i, Yields read everywhere (text i) (finds i)) : ∀ items : List ι,
    Yields read everywhere (items.flatMap text) (items.flatMap finds)
  | [] => yields_nil
  | i :: items => (hitem i).append (flatMap hitem items)

/-- Lines of several items, none with a find. -/
theorem flatMap_nil {ι : Type} {text : ι → Text} (hitem : ∀ i, Yields read everywhere (text i) [])
    (items : List ι) : Yields read everywhere (items.flatMap text) [] := by
  have hall := flatMap hitem items
  rwa [List.flatMap_eq_nil_iff.mpr fun _ _ => rfl] at hall

/-- Lines of several items, each with one find. -/
theorem flatMap_map {ι : Type} {text : ι → Text} {value : ι → α}
    (hitem : ∀ i, Yields read everywhere (text i) [value i]) (items : List ι) :
    Yields read everywhere (items.flatMap text) (items.map value) := by
  rw [List.map_eq_flatMap]
  exact flatMap hitem items

/-- The finds in the lines alone. -/
theorem map_findAll (hh : Yields read everywhere h values) :
    (findAll read everywhere 0 true 0 h).map (·.2) = values := by
  obtain ⟨fs, hfs, hfinds⟩ := hh.finds 0 []
  rw [List.append_nil] at hfinds
  rw [hfinds, ← hfs]
  simp [findAll]

/-- Without finds in the lines the search goes on behind them. -/
theorem findAll_append (hh : Yields read everywhere h []) (offset : Nat) (x : Text) :
    findAll read everywhere offset true 0 (h ++ x) =
      findAll read everywhere (offset + h.length) true 0 x := by
  obtain ⟨fs, hfs, hfinds⟩ := hh.finds offset x
  rw [hfinds, List.map_eq_nil_iff.mp hfs, List.nil_append]

end Yields

theorem yields_of_passes {h : Text} (hends : atLineStart true h = true)
    (hp : ∀ x, Passes read everywhere true h x) : Yields read everywhere h [] :=
  ⟨hends, fun offset x => ⟨[], rfl, by rw [findAll_of_passes (hp x), hends]; rfl⟩⟩

/-- A line with one find, which is read somewhere in it. -/
theorem yields_of_read {a k : Text} {found : α} (hk : k ≠ []) (hn : '\n' ∉ k)
    (hl : (everywhere || atLineStart true a) = true)
    (ha : ∀ x, Passes read everywhere true a (k ++ '\n' :: x))
    (hr : ∀ x, read (k ++ '\n' :: x) = some (found, '\n' :: x))
    (hend : ∀ x, Passes read everywhere false ['\n'] x) :
    Yields read everywhere (a ++ (k ++ ['\n'])) [found] := by
  have hline : ∀ lineStart, atLineStart lineStart k = false := fun lineStart =>
    atLineStart_eq_false hk hn
  refine ⟨by rw [← List.append_assoc, atLineStart_append]; rfl, fun offset x => ?_⟩
  refine ⟨[(offset + a.length, found)], rfl, ?_⟩
  have hlength : (a ++ (k ++ ['\n'])).length = a.length + k.length + 1 := by
    simp [Nat.add_assoc]
  have hbehind : findAll read everywhere (offset + a.length + k.length) false 0 ('\n' :: x) =
      findAll read everywhere (offset + a.length + k.length + 1) true 0 x :=
    findAll_of_passes (hend x)
  rw [List.append_assoc, List.append_assoc, List.singleton_append, findAll_of_passes (ha x),
    findAll_of_read hk hl (hr x), hline, hbehind, hlength]
  simp only [Nat.add_assoc, List.singleton_append]

end

end DocTypes
