/-
# What lies in a tree, and where paths lead

The listing of a tree holds just what lies in it (`Tree.mem_listing_iff`): what is above
a file, a listed directory or the working directory lies in a tree with it, and is a
directory (`Tree.entryAt?_of_append`).

So a path that leads to a directory leads on from there to what lies below, by the names
on the way (`Tree.locate_append`). Three things would keep it from that: a name that leads
up or that no entry can have (`IsEntryName`), and a path that is longer than any entry's
may be (`Path.Short`).

Key definitions: `IsEntryName`, `Tree.Named`, `Path.Short`.
Key theorems: `Tree.mem_listing_iff`, `Tree.entryAt?_of_append`,
`Tree.follow_names`, `Tree.locate_append`.
-/
import DocTypes.Files.Tree
import DocTypes.Proofs.Pieces

namespace DocTypes

/-! ### Lists -/

theorem mem_eraseReps {α : Type} [BEq α] [LawfulBEq α] {x : α} {l : List α} :
    x ∈ l.eraseReps ↔ x ∈ l := by
  have loop : ∀ (l : List α) (a : α) (kept : List α),
      x ∈ List.eraseRepsBy.loop (· == ·) a l kept ↔ x = a ∨ x ∈ l ∨ x ∈ kept := by
    intro l
    induction l with
    | nil => simp [List.eraseRepsBy.loop, or_comm]
    | cons b l ih =>
      intro a kept
      rw [List.eraseRepsBy.loop]
      split
      · next h =>
        rw [ih, eq_of_beq h, List.mem_cons]
        grind
      · rw [ih, List.mem_cons, List.mem_cons]
        grind
  cases l with
  | nil => simp [List.eraseReps, List.eraseRepsBy]
  | cons a l =>
    rw [List.eraseReps, List.eraseRepsBy, loop, List.mem_cons, or_iff_left List.not_mem_nil]

/-! ### Entries -/

namespace Tree

variable {t : Tree} {parts rest : List Text} {e : Entry}

theorem isDirectory_iff : t.isDirectory parts = true ↔
    (∃ d ∈ t.home :: t.dirs, parts <+: d) ∨ ∃ f ∈ t.files.keys, parts <+: f ∧ parts ≠ f := by
  simp [isDirectory]

theorem mem_keys_of_find? {bytes : List UInt8} (h : t.files.find? parts = some bytes) :
    parts ∈ t.files.keys :=
  List.mem_map.mpr ⟨_, Table.mem_entries_of_find? h, rfl⟩

/-- An entry is a directory, or a file that is not one. -/
theorem entryAt?_eq_some_iff : t.entryAt? parts = some e ↔
    (t.isDirectory parts = true ∧ e = .directory) ∨
      (t.isDirectory parts = false ∧
        ∃ bytes, t.files.find? parts = some bytes ∧ e = .file bytes) := by
  unfold entryAt?
  by_cases h : t.isDirectory parts = true
  · simp [h, eq_comm]
  · rw [if_neg h, Option.map_eq_some_iff]
    simp [h, eq_comm]

/-- Where an entry lies, the working directory, a listed one or a file lies at or below
it. -/
theorem exists_prefix_of_entryAt? (h : t.entryAt? parts = some e) :
    ∃ whole ∈ t.home :: t.dirs ++ t.files.keys, parts <+: whole := by
  rcases entryAt?_eq_some_iff.mp h with ⟨hd, -⟩ | ⟨-, bytes, hf, -⟩
  · rcases isDirectory_iff.mp hd with ⟨d, hd, hp⟩ | ⟨f, hf, hp, -⟩
    · exact ⟨d, List.mem_append_left _ hd, hp⟩
    · exact ⟨f, List.mem_append_right _ hf, hp⟩
  · exact ⟨parts, List.mem_append_right _ (mem_keys_of_find? hf), List.prefix_rfl⟩

/-- **What leads to an entry is a directory.** -/
theorem entryAt?_of_append (h : t.entryAt? (parts ++ rest) = some e) (hrest : rest ≠ []) :
    t.entryAt? parts = some .directory := by
  have hlonger : parts.length < (parts ++ rest).length := by
    have := List.length_pos_iff.mpr hrest
    rw [List.length_append]
    omega
  refine entryAt?_eq_some_iff.mpr (Or.inl ⟨isDirectory_iff.mpr ?_, rfl⟩)
  obtain ⟨whole, hwhole, hp⟩ := exists_prefix_of_entryAt? h
  have hparts : parts <+: whole := (List.prefix_append parts rest).trans hp
  rcases List.mem_append.mp hwhole with hd | hf
  · exact Or.inl ⟨whole, hd, hparts⟩
  · refine Or.inr ⟨whole, hf, hparts, ?_⟩
    rintro rfl
    exact absurd hp.length_le (by omega)

/-! ### The listing -/

theorem mem_beginnings {whole : List Text} : parts ∈ beginnings whole ↔ parts <+: whole := by
  unfold beginnings
  rw [List.mem_map]
  constructor
  · rintro ⟨n, -, rfl⟩
    exact List.take_prefix n whole
  · intro h
    refine ⟨parts.length, ?_, (List.prefix_iff_eq_take.mp h).symm⟩
    rw [List.mem_range]
    exact Nat.lt_succ_of_le h.length_le

theorem mem_places : parts ∈ t.places ↔
    ∃ whole ∈ t.home :: t.dirs ++ t.files.keys, parts <+: whole := by
  rw [places, mem_eraseReps, List.mem_mergeSort, List.mem_flatMap]
  simp only [mem_beginnings]

/-- **The listing holds just what lies in the tree.** -/
theorem mem_listing_iff : (parts, e) ∈ t.listing ↔ t.entryAt? parts = some e := by
  unfold listing
  rw [List.mem_filterMap]
  constructor
  · rintro ⟨names, -, h⟩
    obtain ⟨e', he, h⟩ := Option.map_eq_some_iff.mp h
    obtain ⟨rfl, rfl⟩ := Prod.mk.inj h
    exact he
  · intro h
    exact ⟨parts, mem_places.mpr (exists_prefix_of_entryAt? h), by rw [h]; rfl⟩

end Tree

/-! ### Names and paths -/

/-- A name that an entry can have: two dots lead up, and no entry's name holds NUL or has
more bytes than a system takes. -/
structure IsEntryName (name : Text) : Prop where
  notUp : name ≠ ['.', '.']
  noNull : Char.ofNat 0 ∉ name
  fits : Text.byteSize name ≤ Tree.longestName

instance (name : Text) : Decidable (IsEntryName name) :=
  decidable_of_iff
    (name ≠ ['.', '.'] ∧ Char.ofNat 0 ∉ name ∧ Text.byteSize name ≤ Tree.longestName)
    ⟨fun h => ⟨h.1, h.2.1, h.2.2⟩, fun h => ⟨h.notUp, h.noNull, h.fits⟩⟩

/-- All that lies in the tree has names that entries can have. -/
def Tree.Named (t : Tree) : Prop :=
  ∀ parts ∈ t.home :: t.dirs ++ t.files.keys, ∀ name ∈ parts, IsEntryName name

instance (t : Tree) : Decidable t.Named := List.decidableBAll _ _

theorem Tree.Named.isEntryName {t : Tree} (ht : t.Named) {parts : List Text} {e : Entry}
    (h : t.entryAt? parts = some e) : ∀ name ∈ parts, IsEntryName name := by
  intro name hname
  obtain ⟨whole, hwhole, hp⟩ := exists_prefix_of_entryAt? h
  exact ht whole hwhole name (hp.subset hname)

namespace Path

/-- No longer than an entry's path may be. -/
def Short (p : Path) : Prop := Text.byteSize p.render ≤ Tree.longestPath

instance (p : Path) : Decidable p.Short := Nat.decLe _ _

/-- The characters of a path as it is written, dots and slashes apart. -/
theorem mem_render_iff {p : Path} {c : Char} (hdot : c ≠ '.') (hslash : c ≠ '/') :
    c ∈ p.render ↔ c ∈ p.root ∨ ∃ part ∈ p.parts, c ∈ part := by
  unfold render
  split
  · next h => simp [h.1, h.2, hdot]
  · rw [List.mem_append]
    refine or_congr_right ⟨fun h => (Text.mem_join h).resolve_left hslash, ?_⟩
    rintro ⟨part, hpart, hc⟩
    exact Text.mem_join_of_mem hc hpart

theorem null_not_mem_render_append {p : Path} {trail : List Text}
    (hp : Char.ofNat 0 ∉ p.render) (htrail : ∀ name ∈ trail, IsEntryName name) :
    Char.ofNat 0 ∉ (p.append trail).render := by
  have hdot : Char.ofNat 0 ≠ '.' := by decide
  have hslash : Char.ofNat 0 ≠ '/' := by decide
  rw [mem_render_iff hdot hslash] at hp ⊢
  rintro (hroot | ⟨part, hpart, hc⟩)
  · exact hp (Or.inl hroot)
  · rcases List.mem_append.mp hpart with hpart | hpart
    · exact hp (Or.inr ⟨part, hpart, hc⟩)
    · exact (htrail part hpart).noNull hc

end Path

/-! ### Following -/

namespace Tree

variable {t : Tree}

/-- A path is followed part by part. -/
theorem follow_append : ∀ (a b : List Text) {place next : List Text} {e : Entry},
    t.follow place a = .ok (next, e) → t.follow place (a ++ b) = t.follow next b
  | [], b, place, next, e, h => by
    rw [follow] at h
    split at h
    · cases h
      rfl
    · cases h
  | part :: a, b, place, next, e, h => by
    rw [List.cons_append, follow]
    rw [follow] at h
    split at h
    · cases h
    · cases h
    · split at h
      · cases h
      · next hshort =>
        rw [if_neg hshort]
        exact follow_append a b h

/-- **Names lead down to what lies there.** -/
theorem follow_names : ∀ {trail parts : List Text} {e : Entry},
    (∀ name ∈ trail, IsEntryName name) → t.entryAt? (parts ++ trail) = some e →
      t.follow parts trail = .ok (parts ++ trail, e)
  | [], parts, e, _, h => by
    rw [List.append_nil] at h ⊢
    rw [follow, h]
  | name :: trail, parts, e, hnames, h => by
    obtain ⟨hname, hnames⟩ := List.forall_mem_cons.mp hnames
    have hhere : t.entryAt? parts = some .directory :=
      entryAt?_of_append h (List.cons_ne_nil name trail)
    have hnext : Path.next parts name = parts ++ [name] := if_neg hname.notUp
    have hfits : ¬ longestName < Text.byteSize name := Nat.not_lt_of_le hname.fits
    rw [List.append_cons] at h ⊢
    rw [follow, hhere]
    simp only [if_neg hfits, hnext]
    exact follow_names hnames h

theorem locate_eq_ok_iff {p : Path} {found : List Text × Entry} : t.locate p = .ok found ↔
    Char.ofNat 0 ∉ p.render ∧ p.Short ∧ t.follow (t.origin p) p.parts = .ok found := by
  unfold locate Path.Short
  split
  · next h => simp [h]
  · next h =>
    split
    · next hlong =>
      have := Nat.not_le_of_lt hlong
      simp [this]
    · next hlong => simp [h, Nat.le_of_not_lt hlong]

/-- **Below a directory that a path leads to, the path leads on by names** to what lies
there, if it is no longer than an entry's may be. -/
theorem locate_append {p : Path} {parts trail : List Text} {e : Entry}
    (hp : t.locate p = .ok (parts, .directory)) (htrail : ∀ name ∈ trail, IsEntryName name)
    (he : t.entryAt? (parts ++ trail) = some e) (hshort : (p.append trail).Short) :
    t.locate (p.append trail) = .ok (parts ++ trail, e) := by
  obtain ⟨hnull, -, hfollow⟩ := locate_eq_ok_iff.mp hp
  refine locate_eq_ok_iff.mpr ⟨Path.null_not_mem_render_append hnull htrail, hshort, ?_⟩
  show t.follow (t.origin p) (p.parts ++ trail) = _
  rw [follow_append p.parts trail hfollow]
  exact follow_names htrail he

end Tree
end DocTypes
