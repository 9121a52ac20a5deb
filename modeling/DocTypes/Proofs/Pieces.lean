/-
# Cutting and joining

Cutting a text at a character and joining pieces by it undo each other: the pieces
of a text join to it (`Text.join_cutAll`), and a join is cut into its pieces again
when the character stands in none of them (`Text.cutAll_join`). Both go piece by
piece, by what is joined behind the first one (`Text.join_cons`,
`Text.cutAll_append`). So what is put in front of a text goes to its first piece, and what
is put behind to its last; and trimming a text makes no difference to its trimmed pieces
(`Text.map_trim_cutAll`).

Key theorems: `Text.join_append`, `Text.mem_join`, `Text.join_cutAll`,
`Text.cutAll_join`, `Text.map_trim_cutAll`.
-/
import DocTypes.Proofs.Trim

namespace DocTypes
namespace Text

variable {c : Char}

/-! ### Joining -/

theorem join_cons (c : Char) (piece : Text) : ∀ {pieces : List Text}, pieces ≠ [] →
    join c (piece :: pieces) = piece ++ c :: join c pieces
  | [], h => absurd rfl h
  | _ :: _, _ => rfl

/-- Behind the first piece of a join there is nothing, or the character. -/
theorem exists_join_cons (c : Char) (piece : Text) (pieces : List Text) :
    ∃ rest, join c (piece :: pieces) = piece ++ rest ∧ ∀ d ∈ rest.head?, d = c := by
  by_cases h : pieces = []
  · exact ⟨[], by rw [h, List.append_nil]; rfl, by simp⟩
  · exact ⟨c :: join c pieces, join_cons c piece h, fun d hd => (Option.some.inj hd).symm⟩

/-- Two joins are joined like two pieces. -/
theorem join_append (c : Char) : ∀ {ps qs : List Text}, ps ≠ [] → qs ≠ [] →
    join c (ps ++ qs) = join c ps ++ c :: join c qs
  | [], _, h, _ => absurd rfl h
  | [p], qs, _, hq => join_cons c p hq
  | p :: next :: ps, qs, _, hq => by
    rw [List.cons_append, join_cons c p (by simp), join_append c (List.cons_ne_nil next ps) hq,
      join_cons c p (List.cons_ne_nil next ps), List.append_assoc, List.cons_append]

/-- Every character of a join is the character between the pieces, or in a piece. -/
theorem mem_join {d : Char} : ∀ {pieces : List Text}, d ∈ join c pieces →
    d = c ∨ ∃ piece ∈ pieces, d ∈ piece
  | [], h => by cases h
  | [piece], h => Or.inr ⟨piece, List.mem_singleton_self piece, h⟩
  | piece :: next :: pieces, h => by
    rw [join, List.mem_append, List.mem_cons] at h
    rcases h with h | h | h
    · exact Or.inr ⟨piece, List.mem_cons_self, h⟩
    · exact Or.inl h
    · refine (mem_join h).imp_right ?_
      rintro ⟨p, hp, hd⟩
      exact ⟨p, List.mem_cons_of_mem _ hp, hd⟩

theorem mem_join_of_mem {d : Char} {piece : Text} (hd : d ∈ piece) :
    ∀ {pieces : List Text}, piece ∈ pieces → d ∈ join c pieces
  | [_], h => List.mem_singleton.mp h ▸ hd
  | first :: next :: pieces, h => by
    rw [join, List.mem_append]
    rcases List.mem_cons.mp h with rfl | h
    · exact Or.inl hd
    · exact Or.inr (List.mem_cons_of_mem c (mem_join_of_mem hd h))

/-- A join ends as one of its pieces does, or with the character between them. -/
theorem mem_getLast?_join {d : Char} : ∀ {pieces : List Text}, d ∈ (join c pieces).getLast? →
    d = c ∨ ∃ piece ∈ pieces, d ∈ piece.getLast?
  | [], h => by cases h
  | [piece], h => Or.inr ⟨piece, List.mem_singleton_self piece, h⟩
  | piece :: next :: pieces, h => by
    rw [join, List.getLast?_append_of_ne_nil _ (List.cons_ne_nil _ _), List.getLast?_cons] at h
    cases hlast : (join c (next :: pieces)).getLast? with
    | none =>
      rw [hlast] at h
      exact Or.inl (Option.some.inj h).symm
    | some e =>
      rw [hlast] at h
      obtain rfl : e = d := Option.some.inj h
      refine (mem_getLast?_join hlast).imp_right ?_
      rintro ⟨p, hp, he⟩
      exact ⟨p, List.mem_cons_of_mem _ hp, he⟩

/-! ### Cutting -/

theorem cutAll_ne_nil (c : Char) (s : Text) : cutAll c s ≠ [] := by
  cases s with
  | nil => simp [cutAll]
  | cons x s =>
    unfold cutAll
    split
    · simp
    · cases cutAll c s <;> simp [consHead]

/-- The pieces of a text join to it. -/
theorem join_cutAll (c : Char) : ∀ s : Text, join c (cutAll c s) = s
  | [] => rfl
  | x :: s => by
    have ih := join_cutAll c s
    unfold cutAll
    split
    · next h => rw [join_cons c [] (cutAll_ne_nil c s), ih, h, List.nil_append]
    · obtain ⟨p, ps, hp⟩ := List.exists_cons_of_ne_nil (cutAll_ne_nil c s)
      rw [hp] at ih ⊢
      rw [consHead, ← ih]
      cases ps <;> rfl

theorem not_mem_of_mem_cutAll : ∀ {s piece : Text}, piece ∈ cutAll c s → c ∉ piece
  | [], piece, h => by
    rw [List.mem_singleton.mp h]
    exact List.not_mem_nil
  | x :: s, piece, h => by
    unfold cutAll at h
    split at h
    · rcases List.mem_cons.mp h with rfl | h
      · exact List.not_mem_nil
      · exact not_mem_of_mem_cutAll h
    · next hx =>
      obtain ⟨p, ps, hp⟩ := List.exists_cons_of_ne_nil (cutAll_ne_nil c s)
      have hpieces : ∀ q ∈ p :: ps, c ∉ q := fun q hq => not_mem_of_mem_cutAll (hp ▸ hq)
      rw [hp, consHead] at h
      rcases List.mem_cons.mp h with rfl | h
      · exact List.not_mem_cons_of_ne_of_not_mem (Ne.symm hx) (hpieces p List.mem_cons_self)
      · exact hpieces piece (List.mem_cons_of_mem p h)

theorem cutAll_of_not_mem : ∀ {s : Text}, c ∉ s → cutAll c s = [s]
  | [], _ => rfl
  | d :: s, h => by
    have hd : ¬ d = c := fun e => h (e ▸ List.mem_cons_self)
    rw [cutAll, if_neg hd, cutAll_of_not_mem fun hs => h (List.mem_cons_of_mem d hs)]
    rfl

/-- The first occurrence of the character ends the first piece. -/
theorem cutAll_append (s : Text) : ∀ {piece : Text}, c ∉ piece →
    cutAll c (piece ++ c :: s) = piece :: cutAll c s
  | [], _ => by rw [List.nil_append, cutAll, if_pos rfl]
  | d :: piece, h => by
    have hd : ¬ d = c := fun e => h (e ▸ List.mem_cons_self)
    rw [List.cons_append, cutAll, if_neg hd, cutAll_append s fun hs => h (List.mem_cons_of_mem d hs)]
    rfl

/-- **A join is cut into its pieces again.** -/
theorem cutAll_join : ∀ {pieces : List Text}, pieces ≠ [] → (∀ piece ∈ pieces, c ∉ piece) →
    cutAll c (join c pieces) = pieces
  | [], h, _ => absurd rfl h
  | [piece], _, h => cutAll_of_not_mem (h piece List.mem_cons_self)
  | piece :: next :: pieces, _, h => by
    rw [List.forall_mem_cons] at h
    rw [join, cutAll_append _ h.1, cutAll_join (List.cons_ne_nil next pieces) h.2]

/-- What stands in front belongs to the first piece. -/
theorem cutAll_append_left {a : Text} (ha : c ∉ a) (s : Text) :
    ∃ first rest, cutAll c s = first :: rest ∧ cutAll c (a ++ s) = (a ++ first) :: rest := by
  obtain ⟨first, rest, hs⟩ := List.exists_cons_of_ne_nil (cutAll_ne_nil c s)
  have hpieces : ∀ piece ∈ (a ++ first) :: rest, c ∉ piece := by
    have hall : ∀ piece ∈ first :: rest, c ∉ piece := fun piece hp => not_mem_of_mem_cutAll (hs ▸ hp)
    rw [List.forall_mem_cons] at hall ⊢
    exact ⟨List.not_mem_append ha hall.1, hall.2⟩
  have hjoin : a ++ s = join c ((a ++ first) :: rest) := by
    rw [← join_cutAll c s, hs]
    cases rest <;> simp [join]
  exact ⟨first, rest, hs, by rw [hjoin, cutAll_join (List.cons_ne_nil _ _) hpieces]⟩

/-- What stands behind belongs to the last piece. -/
theorem cutAll_append_right {b : Text} (hb : c ∉ b) (s : Text) :
    ∃ init last, cutAll c s = init ++ [last] ∧ cutAll c (s ++ b) = init ++ [last ++ b] := by
  obtain ⟨init, last, hs⟩ := (List.eq_nil_or_concat (cutAll c s)).resolve_left (cutAll_ne_nil c s)
  rw [List.concat_eq_append] at hs
  have hpieces : ∀ piece ∈ init ++ [last ++ b], c ∉ piece := by
    have hall : ∀ piece ∈ init ++ [last], c ∉ piece := fun piece hp => not_mem_of_mem_cutAll (hs ▸ hp)
    rw [List.forall_mem_append, List.forall_mem_singleton] at hall ⊢
    exact ⟨hall.1, List.not_mem_append hall.2 hb⟩
  have hjoin : s ++ b = join c (init ++ [last ++ b]) := by
    rw [← join_cutAll c s, hs]
    by_cases hinit : init = []
    · rw [hinit]
      rfl
    · rw [join_append c hinit (List.cons_ne_nil _ _), join_append c hinit (List.cons_ne_nil _ _),
        List.append_assoc]
      rfl
  exact ⟨init, last, hs, by rw [hjoin, cutAll_join (by simp) hpieces]⟩

/-- **Trimmed pieces do not depend on what a trimmed text has lost**, which goes to the
first and the last of them. -/
theorem map_trim_cutAll {p : Char → Bool} (hc : p c = false) (s : Text) :
    (cutAll c (trim p s)).map (trim p) = (cutAll c s).map (trim p) := by
  obtain ⟨a, b, hs, ha, hb⟩ := exists_eq_trim p s
  have hout : ∀ {x : Text}, (∀ d ∈ x, p d = true) → c ∉ x := fun hx hm => by
    rw [hx c hm] at hc
    cases hc
  obtain ⟨first, rest, hrest, hfront⟩ := cutAll_append_left (hout ha) (trim p s ++ b)
  obtain ⟨init, last, hinit, hback⟩ := cutAll_append_right (hout hb) (trim p s)
  symm
  calc (cutAll c s).map (trim p)
      = (cutAll c (a ++ (trim p s ++ b))).map (trim p) := by rw [← hs]
    _ = (cutAll c (trim p s ++ b)).map (trim p) := by
        rw [hfront, hrest, List.map_cons, List.map_cons, trim_append_left ha]
    _ = (cutAll c (trim p s)).map (trim p) := by
        rw [hback, hinit, List.map_append, List.map_append, List.map_singleton,
          List.map_singleton, trim_append_right hb]

end Text
end DocTypes
