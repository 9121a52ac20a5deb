/-
# Tables

A table maps keys to values and remembers the order in which its keys first
came in. Every key stands once: `Table.put` on a key that is there replaces its
value in place. Reading is `Table.find?`; two tables that answer every look-up
alike are `Table.same`, whatever their order.

Key definitions: `Table`, `Table.put`, `Table.find?`, `Table.ofList`,
`Table.same`.
Key theorems: `Table.find?_put`, `Table.find?_ofList`, `Table.find?_map`,
`Table.map_eq_self_iff`, `Table.keys_put`.
-/

namespace DocTypes

variable {κ α : Type} [DecidableEq κ]

/-- Entries with `k` bound to `v`, in the place of an entry for `k` or at the end. -/
def putEntry (k : κ) (v : α) : List (κ × α) → List (κ × α)
  | [] => [(k, v)]
  | (k', v') :: es => if k' = k then (k, v) :: es else (k', v') :: putEntry k v es

theorem mem_keys_putEntry (k : κ) (v : α) (x : κ) :
    ∀ es : List (κ × α), x ∈ (putEntry k v es).map (·.1) → x = k ∨ x ∈ es.map (·.1)
  | [], h => by simpa [putEntry] using h
  | (k', v') :: es, h => by
    unfold putEntry at h
    split at h
    · next e => subst e; simpa using h
    · simp only [List.map_cons, List.mem_cons] at h ⊢
      rcases h with h | h
      · exact Or.inr (Or.inl h)
      · exact (mem_keys_putEntry k v x es h).imp_right Or.inr

theorem nodup_putEntry (k : κ) (v : α) :
    ∀ es : List (κ × α), (es.map (·.1)).Nodup → ((putEntry k v es).map (·.1)).Nodup
  | [], _ => by simp [putEntry]
  | (k', v') :: es, h => by
    rw [List.map_cons, List.nodup_cons] at h
    unfold putEntry
    split
    · next e => subst e; rw [List.map_cons, List.nodup_cons]; exact h
    · next ne =>
      rw [List.map_cons, List.nodup_cons]
      refine ⟨fun hm => ?_, nodup_putEntry k v es h.2⟩
      rcases mem_keys_putEntry k v k' es hm with e | hm
      · exact ne e
      · exact h.1 hm

/-- A table of values under keys, in the order in which the keys came in. -/
structure Table (κ α : Type) where
  entries : List (κ × α) := []
  nodup : (entries.map (·.1)).Nodup := by simp
  deriving DecidableEq

namespace Table

/-- The table without entries. -/
def empty : Table κ α := {}

/-- The keys, in the order in which they came in. -/
def keys (t : Table κ α) : List κ := t.entries.map (·.1)

/-- The number of keys. -/
def size (t : Table κ α) : Nat := t.entries.length

/-- Binds `k` to `v`, in place of what it was bound to. -/
def put (t : Table κ α) (k : κ) (v : α) : Table κ α :=
  ⟨putEntry k v t.entries, nodup_putEntry k v _ t.nodup⟩

/-- What `k` is bound to in some entries. -/
def lookup (k : κ) : List (κ × α) → Option α
  | [] => none
  | (k', v) :: es => if k' = k then some v else lookup k es

/-- What `k` is bound to. -/
def find? (t : Table κ α) (k : κ) : Option α := lookup k t.entries

/-- Whether `k` is bound. -/
def has (t : Table κ α) (k : κ) : Bool := (t.find? k).isSome

/-- Binds each pair in turn, so that the last value of a key counts. -/
def ofList (es : List (κ × α)) : Table κ α := es.foldl (fun t e => t.put e.1 e.2) empty

/-- Changes every value, the keys stay. -/
def map {β : Type} (f : α → β) (t : Table κ α) : Table κ β :=
  ⟨t.entries.map fun e => (e.1, f e.2), by
    have h : (t.entries.map fun e => (e.1, f e.2)).map (·.1) = t.entries.map (·.1) := by
      simp
    rw [h]; exact t.nodup⟩

/-- Whether two tables bind the same keys to the same values. -/
def same [DecidableEq α] (s t : Table κ α) : Bool :=
  s.size == t.size && s.entries.all fun e => t.find? e.1 == some e.2

theorem lookup_putEntry (k : κ) (v : α) (x : κ) :
    ∀ es : List (κ × α), lookup x (putEntry k v es) = if k = x then some v else lookup x es
  | [] => rfl
  | (k', v') :: es => by
    unfold putEntry
    split
    · next e =>
      subst e
      by_cases h : k' = x <;> simp [lookup, h]
    · next ne =>
      simp only [lookup, lookup_putEntry k v x es]
      by_cases h : k' = x
      · subst h
        have : ¬ k = k' := fun e => ne e.symm
        simp [this]
      · simp [h]

/-- A key reads as it was last put. -/
theorem find?_put (t : Table κ α) (k x : κ) (v : α) :
    (t.put k v).find? x = if k = x then some v else t.find? x :=
  lookup_putEntry k v x t.entries

theorem find?_empty (x : κ) : (empty : Table κ α).find? x = none := rfl

theorem find?_foldl_put (x : κ) : ∀ (es : List (κ × α)) (t : Table κ α),
    (es.foldl (fun t e => t.put e.1 e.2) t).find? x =
      ((es.reverse.find? fun e => e.1 = x).map (·.2)).or (t.find? x)
  | [], t => rfl
  | e :: es, t => by
    rw [List.foldl_cons, find?_foldl_put x es, find?_put, List.reverse_cons, List.find?_append,
      Option.map_or, Option.or_assoc]
    by_cases h : e.1 = x <;> simp [h]

/-- Of several values for a key the last one counts. -/
theorem find?_ofList (es : List (κ × α)) (x : κ) :
    (ofList es).find? x = (es.reverse.find? fun e => e.1 = x).map (·.2) := by
  rw [ofList, find?_foldl_put, find?_empty, Option.or_none]

theorem lookup_map {β : Type} (f : α → β) (x : κ) : ∀ es : List (κ × α),
    lookup x (es.map fun e => (e.1, f e.2)) = (lookup x es).map f
  | [] => rfl
  | (k, v) :: es => by
    simp only [List.map_cons, lookup, lookup_map f x es]
    split <;> rfl

/-- A key reads as its changed value. -/
theorem find?_map {β : Type} (f : α → β) (t : Table κ α) (x : κ) :
    (t.map f).find? x = (t.find? x).map f :=
  lookup_map f x t.entries

omit [DecidableEq κ] in
/-- The keys stay as they are. -/
theorem keys_map {β : Type} (f : α → β) (t : Table κ α) : (t.map f).keys = t.keys := by
  simp [keys, map]

omit [DecidableEq κ] in
/-- A table is left alone just where every value is. -/
theorem map_eq_self_iff {f : α → α} {t : Table κ α} :
    t.map f = t ↔ ∀ e ∈ t.entries, f e.2 = e.2 := by
  obtain ⟨es, hes⟩ := t
  have hid : es.map (fun e => (e.1, f e.2)) = es ↔
      es.map (fun e => (e.1, f e.2)) = es.map id := by rw [List.map_id]
  simp only [map, mk.injEq, hid, List.map_inj_left, Prod.ext_iff, id, true_and]

theorem mem_keys_iff_lookup (x : κ) :
    ∀ es : List (κ × α), x ∈ es.map (·.1) ↔ (lookup x es).isSome
  | [] => by simp [lookup]
  | (k, v) :: es => by
    by_cases h : k = x
    · simp [lookup, h]
    · have h' : ¬ x = k := fun e => h e.symm
      simpa [lookup, h, h'] using mem_keys_iff_lookup x es

theorem mem_of_lookup (x : κ) (v : α) :
    ∀ {es : List (κ × α)}, lookup x es = some v → (x, v) ∈ es
  | [], h => by cases h
  | (k, w) :: es, h => by
    unfold lookup at h
    split at h
    · next e => cases h; exact e ▸ List.mem_cons_self
    · exact List.mem_cons_of_mem _ (mem_of_lookup x v h)

/-- What is found is an entry. -/
theorem mem_entries_of_find? {t : Table κ α} {x : κ} {v : α} (h : t.find? x = some v) :
    (x, v) ∈ t.entries :=
  mem_of_lookup x v h

theorem mem_putEntry {k : κ} {v : α} {e : κ × α} :
    ∀ {es : List (κ × α)}, e ∈ putEntry k v es → e = (k, v) ∨ e ∈ es
  | [], h => Or.inl (List.mem_singleton.mp h)
  | (k', v') :: es, h => by
    unfold putEntry at h
    split at h
    · rcases List.mem_cons.mp h with rfl | h
      · exact Or.inl rfl
      · exact Or.inr (List.mem_cons_of_mem _ h)
    · rcases List.mem_cons.mp h with rfl | h
      · exact Or.inr List.mem_cons_self
      · exact (mem_putEntry h).imp_right (List.mem_cons_of_mem _)

/-- An entry is the one that was put, or it was there before. -/
theorem mem_entries_put {t : Table κ α} {k : κ} {v : α} {e : κ × α}
    (h : e ∈ (t.put k v).entries) : e = (k, v) ∨ e ∈ t.entries :=
  mem_putEntry h

/-- A new key goes to the end, an old one keeps its place. -/
theorem keys_put (t : Table κ α) (k : κ) (v : α) :
    (t.put k v).keys = if k ∈ t.keys then t.keys else t.keys ++ [k] := by
  have go : ∀ es : List (κ × α), (putEntry k v es).map (·.1) =
      if k ∈ es.map (·.1) then es.map (·.1) else es.map (·.1) ++ [k] := by
    intro es
    induction es with
    | nil => rfl
    | cons e es ih =>
      obtain ⟨k', v'⟩ := e
      unfold putEntry
      by_cases h : k' = k
      · simp [h]
      · have h' : ¬ k = k' := fun e => h e.symm
        by_cases hm : k ∈ es.map (·.1)
        · have ih' := ih; rw [if_pos hm] at ih'
          rw [if_neg h, List.map_cons, ih', List.map_cons, if_pos (List.mem_cons_of_mem _ hm)]
        · have ih' := ih; rw [if_neg hm] at ih'
          have hn : ¬ k ∈ k' :: es.map (·.1) := by
            intro hc; rcases List.mem_cons.mp hc with hc | hc
            · exact h' hc
            · exact hm hc
          rw [if_neg h, List.map_cons, ih', List.map_cons, if_neg hn, List.cons_append]
  exact go t.entries

end Table
end DocTypes
