/-
# Statements at the start of a line

A statement of a source stands on a new line and begins, after any blanks, with
one of a few words and a blank (`beginsWith`). A recogniser of such statements
(`BeginsBy`) reads nothing elsewhere.

Between statements there may be any text with no such line (`Filler`), whose
first line may belong to the statement before it. Nothing is read in it
(`Filler.passes`), but the statement behind it may be found as early as on the
blank lines at its end (`Filler.exists_findAll`).

Key definitions: `beginsWith`, `BeginsBy`, `Quiet`, `Filler`.
Key theorems: `beginsBy_readNamespace`, `beginsBy_readDeclaration`,
`beginsBy_readImports`, `beginsWith_name`, `Filler.exists_findAll`.
-/
import DocTypes.Proofs.Matches
import DocTypes.Proofs.Names

namespace DocTypes

/-! ### The first word of a line -/

/-- Begins with one of the words and a blank, after any blanks. -/
def beginsWith (words : List Text) (s : Text) : Bool :=
  words.any fun w =>
    (Text.afterWord? w (s.dropWhile isBlank)).any fun rest => rest.head?.any isBlank

theorem beginsWith_iff {words : List Text} {s : Text} : beginsWith words s = true ↔
    ∃ w ∈ words, ∃ c z, s.dropWhile isBlank = w ++ c :: z ∧ isBlank c = true := by
  rw [beginsWith, List.any_eq_true]
  refine exists_congr fun w => and_congr_right fun _ => ?_
  rw [Option.any_eq_true]
  constructor
  · rintro ⟨rest, hrest, hb⟩
    obtain ⟨c, hc, hb⟩ := (Option.any_eq_true _ _).mp hb
    cases rest with
    | nil => cases hc
    | cons d z =>
      obtain rfl : d = c := Option.some.inj hc
      exact ⟨d, z, afterWord?_eq_some_iff.mp hrest, hb⟩
  · rintro ⟨c, z, hs, hb⟩
    exact ⟨c :: z, afterWord?_eq_some_iff.mpr hs, by simpa using hb⟩

section
variable {words : List Text} {s : Text}

/-- A line that begins with another name does not begin with one of the words. -/
theorem beginsWith_name (hwords : ∀ w ∈ words, IsName w) {n r : Text} (hn : IsName n)
    (hr : ∀ c ∈ r.head?, isWordChar c = false) (hnot : n ∉ words) :
    beginsWith words (n ++ r) = false := by
  rw [Bool.eq_false_iff]
  intro h
  obtain ⟨w, hw, c, z, hs, hc⟩ := beginsWith_iff.mp h
  rw [hn.dropWhile_isBlank] at hs
  have hcz : ∀ d ∈ (c :: z).head?, isWordChar d = false := fun d hd => by
    cases hd
    exact isWordChar_of_isBlank hc
  exact hnot ((hn.append_inj hr (hwords w hw) hcz hs).1 ▸ hw)

/-- Nor does a line that begins with no name. -/
theorem beginsWith_of_head? (hwords : ∀ w ∈ words, IsName w)
    (hs : ∀ c ∈ (s.dropWhile isBlank).head?, isWordChar c = false) :
    beginsWith words s = false := by
  rw [Bool.eq_false_iff]
  intro h
  obtain ⟨w, hw, c, z, he, -⟩ := beginsWith_iff.mp h
  obtain ⟨d, w', rfl⟩ := List.exists_cons_of_ne_nil (hwords w hw).ne_nil
  have hd := (hwords _ hw).word d List.mem_cons_self
  rw [hs d (by rw [he]; rfl)] at hd
  cases hd

/-- What follows a text with the end of a line does not matter, unless the text is
blank. -/
theorem beginsWith_append (hwords : ∀ w ∈ words, IsName w) {v : Text}
    (hl : v.getLast? = some '\n') (hv : v.dropWhile isBlank ≠ []) (x : Text) :
    beginsWith words (v ++ x) = beginsWith words v := by
  have hd : (v ++ x).dropWhile isBlank = v.dropWhile isBlank ++ x := by
    rw [List.dropWhile_append, if_neg (by simpa using hv)]
  have hdl : (v.dropWhile isBlank).getLast? = some '\n' :=
    (getLast?_of_suffix (List.dropWhile_suffix isBlank) hv).trans hl
  unfold beginsWith
  rw [hd, Bool.eq_iff_iff, List.any_eq_true, List.any_eq_true]
  refine exists_congr fun w => and_congr_right fun hw => ?_
  have hnl := (hwords w hw).lineFeed_not_mem
  rw [afterWord?_append x hdl hnl, Option.any_map]
  cases hz : Text.afterWord? w (v.dropWhile isBlank) with
  | none => rfl
  | some z =>
    rw [afterWord?_eq_some_iff] at hz
    have hzl : z.getLast? = some '\n' := getLast?_of_append (hz ▸ hdl) hnl
    cases z with
    | nil => cases hzl
    | cons c z => rfl

end

/-! ### Recognisers of statements -/

/-- The recogniser reads only what begins with one of the words and a blank, which
are names, and passes over blanks in front. -/
structure BeginsBy {α : Type} (words : List Text) (read : Recogniser α) : Prop where
  names : ∀ w ∈ words, IsName w
  blanks : ∀ {b : Text}, (∀ c ∈ b, isBlank c = true) → ∀ x, read (b ++ x) = read x
  begins : ∀ {x : Text}, beginsWith words x = false → read x = none

theorem beginsWith_of_afterSpacedWord? {words : List Text} {s r : Text}
    (h : afterSpacedWord? words (s.dropWhile isBlank) = some r) : beginsWith words s = true := by
  obtain ⟨w, hw, c, z, hs, hc, -⟩ := exists_of_afterSpacedWord? h
  exact beginsWith_iff.mpr ⟨w, hw, c, z, hs, hc⟩

/-- A recogniser that reads one of the words and a blank after any blanks. -/
theorem beginsBy_of_bind {α : Type} {words : List Text} (names : ∀ w ∈ words, IsName w)
    (next : Text → Option (α × Text)) :
    BeginsBy words fun s => (afterSpacedWord? words (s.dropWhile isBlank)).bind next where
  names := names
  blanks hb x := by
    simp only [List.dropWhile_append_of_pos hb]
  begins hx := by
    rw [Option.bind_eq_none_iff]
    intro r hr
    rw [beginsWith_of_afterSpacedWord? hr] at hx
    cases hx

theorem beginsBy_readNamespace : BeginsBy ["namespace".toList] readNamespace :=
  beginsBy_of_bind (by decide) _

theorem beginsBy_readImports : BeginsBy ["use".toList] readImports :=
  beginsBy_of_bind (by decide) _

theorem beginsBy_readDeclaration : BeginsBy (modifiers ++ declarationWords) readDeclaration where
  names := by decide
  blanks hb x := by
    simp only [readDeclaration, List.dropWhile_append_of_pos hb]
  begins {x} hx := by
    cases hr : readDeclaration x with
    | none => rfl
    | some f =>
      obtain ⟨w, hw, c, z, hs, hc, -⟩ := beginsDeclaration_of_readDeclaration hr
      rw [beginsWith_iff.mpr ⟨w, hw, c, z, hs, hc⟩] at hx
      cases hx

namespace BeginsBy

variable {α : Type} {words : List Text} {read : Recogniser α} {lineStart : Bool} {x : Text}

/-- Nothing is read on blanks in front of what is not read. -/
theorem passes_blanks (hread : BeginsBy words read) {b : Text} (hb : ∀ c ∈ b, isBlank c = true)
    (hx : read x = none) : Passes read false lineStart b x := by
  intro u v huv _ _
  rw [hread.blanks fun c hc => hb c (huv ▸ List.mem_append_right u hc)]
  exact hx

/-- A line has no finds when it does not begin with one of the words. -/
theorem yields_line (hread : BeginsBy words read) {l : Text} (hl : '\n' ∉ l)
    (hb : ∀ x, beginsWith words (l ++ '\n' :: x) = false) :
    Yields read false (l ++ ['\n']) [] := by
  refine yields_of_passes (by rw [atLineStart_append]; rfl) fun x => ?_
  refine passes_line (by rw [List.dropLast_concat]; exact hl) fun _ => ?_
  rw [List.append_assoc]
  exact hread.begins (hb x)

variable {n : Text} (hread : BeginsBy words read) (hn : IsName n)
  (hx : ∀ c ∈ x.head?, isWordChar c = false) (hnot : n ∉ words)
include hread hn hx hnot

/-- Nothing is read at another name. -/
theorem read_name : read (n ++ x) = none :=
  hread.begins (beginsWith_name hread.names hn hx hnot)

theorem passes_name : Passes read false lineStart n x :=
  passes_line (fun h => hn.lineFeed_not_mem (List.dropLast_subset n h)) fun _ =>
    hread.read_name hn hx hnot

end BeginsBy

/-- A statement on a line of its own is the one find in the line. -/
theorem yields_statement {α : Type} {read : Recogniser α} {k : Text} {found : α} (hk : k ≠ [])
    (hn : '\n' ∉ k) (hr : ∀ x, read (k ++ x) = some (found, x)) :
    Yields read false (k ++ ['\n']) [found] := by
  have hnil : ∀ x, Passes read false true [] (k ++ '\n' :: x) := fun x u v huv hv _ =>
    absurd (List.append_eq_nil_iff.mp huv.symm).2 hv
  have hend : ∀ x, Passes read false false ['\n'] x := fun x =>
    passes_line List.not_mem_nil fun h => by cases h
  exact yields_of_read hk hn rfl hnil (fun x => hr ('\n' :: x)) hend

/-! ### Between statements -/

/-- No line of the text begins with one of the words and a blank, where
`lineStart` tells whether a line starts with the text. -/
def Quiet (words : List Text) (lineStart : Bool) (g : Text) : Prop :=
  ∀ u v, g = u ++ v → atLineStart lineStart u = true → beginsWith words v = false

theorem quiet_nil (words : List Text) (lineStart : Bool) : Quiet words lineStart [] := by
  intro u v huv _
  obtain ⟨-, rfl⟩ := List.append_eq_nil_iff.mp huv.symm
  rw [Bool.eq_false_iff]
  intro h
  obtain ⟨w, -, c, z, hs, -⟩ := beginsWith_iff.mp h
  exact absurd hs.symm (by simp)

theorem quiet_cons {words : List Text} {lineStart : Bool} {c : Char} {g : Text} :
    Quiet words lineStart (c :: g) ↔
      (lineStart = true → beginsWith words (c :: g) = false) ∧ Quiet words (c == '\n') g := by
  constructor
  · exact fun h => ⟨fun hl => h [] (c :: g) rfl hl, fun u v huv hl =>
      h (c :: u) v (by rw [huv]; rfl) (by rwa [atLineStart_cons])⟩
  · rintro ⟨hhere, hrest⟩ u v huv hl
    cases u with
    | nil =>
      obtain rfl : c :: g = v := huv
      exact hhere hl
    | cons d u =>
      obtain ⟨rfl, rfl⟩ := List.cons.inj huv
      exact hrest u v rfl (by rwa [atLineStart_cons] at hl)

/-- Goes through the text from left to right. -/
def Quiet.decide (words : List Text) : (lineStart : Bool) → (g : Text) →
    Decidable (Quiet words lineStart g)
  | _, [] => isTrue (quiet_nil words _)
  | _, c :: g =>
    have : Decidable (Quiet words (c == '\n') g) := Quiet.decide words (c == '\n') g
    decidable_of_iff _ quiet_cons.symm

instance (words : List Text) (lineStart : Bool) (g : Text) : Decidable (Quiet words lineStart g) :=
  Quiet.decide words lineStart g

/-- Text between statements: a line starts behind it, and none of its lines begins
with one of the words. Where `lineStart` is unset, its first line is the rest of
the line of a statement. -/
structure Filler (words : List Text) (lineStart : Bool) (g : Text) : Prop where
  ends : atLineStart lineStart g = true
  quiet : Quiet words lineStart g

instance (words : List Text) (lineStart : Bool) (g : Text) :
    Decidable (Filler words lineStart g) :=
  decidable_of_iff (atLineStart lineStart g = true ∧ Quiet words lineStart g)
    ⟨fun h => ⟨h.1, h.2⟩, fun h => ⟨h.ends, h.quiet⟩⟩

namespace Filler

variable {words : List Text} {lineStart : Bool} {g : Text}

/-- Fewer words begin fewer lines. -/
theorem mono (h : Filler words lineStart g) {fewer : List Text} (hsub : fewer ⊆ words) :
    Filler fewer lineStart g := by
  refine ⟨h.ends, fun u v huv hl => ?_⟩
  rw [Bool.eq_false_iff]
  intro hb
  obtain ⟨w, hw, hs⟩ := beginsWith_iff.mp hb
  have hq := h.quiet u v huv hl
  rw [beginsWith_iff.mpr ⟨w, hsub hw, hs⟩] at hq
  cases hq

theorem getLast?_of_eq_append (h : Filler words lineStart g) {u v : Text} (huv : g = u ++ v)
    (hv : v ≠ []) : v.getLast? = some '\n' := by
  have he := h.ends
  rw [huv, atLineStart_append, atLineStart, List.getLast?_eq_some_getLast hv] at he
  rw [List.getLast?_eq_some_getLast hv]
  exact congrArg some (by simpa using he)

/-- Two fillers are one. -/
theorem append (h : Filler words lineStart g) (hwords : ∀ w ∈ words, IsName w) {k : Text}
    (hk : Filler words true k) : Filler words lineStart (g ++ k) := by
  refine ⟨by rw [atLineStart_append, h.ends, hk.ends], fun u v huv hl => ?_⟩
  rcases List.append_eq_append_iff.mp huv with ⟨a, rfl, hv⟩ | ⟨a, hu, rfl⟩
  · rw [atLineStart_append, h.ends] at hl
    exact hk.quiet a v hv hl
  · by_cases hb : a.dropWhile isBlank = []
    · have hblank : beginsWith words (a ++ k) = beginsWith words k := by
        rw [beginsWith, List.dropWhile_append_of_pos (List.dropWhile_eq_nil_iff.mp hb), beginsWith]
      rw [hblank]
      exact hk.quiet [] k rfl rfl
    · have hne : a ≠ [] := fun hnil => hb (by rw [hnil]; rfl)
      rw [beginsWith_append hwords (h.getLast?_of_eq_append hu hne) hb]
      exact h.quiet u a hu hl

variable {α : Type} {read : Recogniser α}

/-- At the start of a line of a filler nothing is read, or only blanks are left of
the filler. -/
theorem read_cases (h : Filler words lineStart g) (hread : BeginsBy words read) (x : Text)
    {u v : Text} (huv : g = u ++ v) (hv : v ≠ []) (hl : atLineStart lineStart u = true) :
    read (v ++ x) = none ∨ read (v ++ x) = read x := by
  by_cases hb : v.dropWhile isBlank = []
  · exact Or.inr (hread.blanks (List.dropWhile_eq_nil_iff.mp hb) x)
  · refine Or.inl (hread.begins ?_)
    rw [beginsWith_append hread.names (h.getLast?_of_eq_append huv hv) hb]
    exact h.quiet u v huv hl

/-- Nothing is read in a filler, if nothing is read behind it. -/
theorem passes (h : Filler words lineStart g) (hread : BeginsBy words read) {x : Text}
    (hx : read x = none) : Passes read false lineStart g x := fun u v huv hv hl => by
  rcases h.read_cases hread x huv hv (by simpa using hl) with hn | he
  · exact hn
  · rw [he, hx]

/-- **A statement behind a filler is found**, where it starts or on the blank lines
before it, and the search goes on behind the statement. -/
theorem exists_findAll (h : Filler words lineStart g) (hread : BeginsBy words read) {k x : Text}
    {found : α} (hk : k ≠ []) (hr : read (k ++ x) = some (found, x)) (offset : Nat) :
    ∃ start, offset ≤ start ∧ start ≤ offset + g.length ∧
      findAll read false offset lineStart 0 (g ++ (k ++ x)) = (start, found) ::
        findAll read false (offset + (g ++ k).length) (atLineStart lineStart (g ++ k)) 0 x := by
  have hends : (false || atLineStart lineStart g) = true := by simpa using h.ends
  refine exists_findAll_append hk hr g offset lineStart hends fun u v huv hv hl => ?_
  rw [← hr]
  exact h.read_cases hread (k ++ x) huv hv (by simpa using hl)

end Filler
end DocTypes
