/-
# Splitting a union, as a theory of nesting depth

The alternatives of a union are cut at the union signs that stand at nesting
depth zero. So a text is one alternative when it has no such sign
(`Sealed`), and it can stand anywhere in a union when it also ends at depth
zero (`Closes`). A text falls apart into its alternatives, and in no other way
into parts of this kind (`Decomposition`): they are the only ones that join to
it, of which all but the last hold as many openers as closers, and of which none
has a union sign behind as many openers as closers (`eq_alternatives_iff`). The
depth may go below zero on the way and come back, and brackets of different
kinds may close each other.

From this follow the two directions of splitting: what is
split off closes (`closes_of_mem_alternatives`), and joining texts that end at
depth zero adds their alternatives up (`alternatives_join`), so that joining
texts that close is undone by splitting (`alternatives_join_of_closes`).

Key definitions: `Unbracketed`, `Flat`, `Sealed`, `Closes`, `Decomposition`.
Key theorems: `alternativesFrom_append_sign`, `decomposition_alternativesFrom`,
`eq_alternatives_iff`, `alternatives_join`, `closes_of_mem_alternatives`,
`alternatives_join_of_closes`.
-/
import DocTypes.Proofs.Pieces
import DocTypes.Token

namespace DocTypes

/-! ### Nesting depth -/

@[simp] theorem balance_nil : balance [] = 0 := rfl

@[simp] theorem balance_cons (c : Char) (s : Text) : balance (c :: s) = weight c + balance s :=
  rfl

@[simp] theorem balance_append : ∀ a b : Text, balance (a ++ b) = balance a + balance b
  | [], b => by simp
  | c :: a, b => by
    rw [List.cons_append, balance_cons, balance_cons, balance_append a b, Int.add_assoc]

@[simp] theorem weight_unionSign : weight unionSign = 0 := by decide

/-- A text without brackets. -/
def Unbracketed (s : Text) : Prop := ∀ c ∈ s, weight c = 0

instance (s : Text) : Decidable (Unbracketed s) := List.decidableBAll _ s

theorem Unbracketed.balance_eq : ∀ {s : Text}, Unbracketed s → balance s = 0
  | [], _ => rfl
  | c :: s, h => by
    have hs : Unbracketed s := fun x hx => h x (List.mem_cons_of_mem _ hx)
    rw [balance_cons, h c List.mem_cons_self, hs.balance_eq, Int.add_zero]

/-- A text without brackets and union signs. -/
structure Flat (s : Text) : Prop where
  unbracketed : Unbracketed s
  not_mem : unionSign ∉ s

instance (s : Text) : Decidable (Flat s) :=
  decidable_of_iff (Unbracketed s ∧ unionSign ∉ s) ⟨fun h => ⟨h.1, h.2⟩, fun h => ⟨h.1, h.2⟩⟩

theorem Flat.balance_eq {s : Text} (h : Flat s) : balance s = 0 := h.unbracketed.balance_eq

/-- No union sign of the text stands at depth zero, where its first character
stands at depth `depth`. -/
def Sealed (depth : Int) (s : Text) : Prop :=
  ∀ before after, s = before ++ unionSign :: after → depth + balance before ≠ 0

/-- Read from depth `depth`, the text has no union sign at depth zero and ends
there. -/
structure Closes (depth : Int) (s : Text) : Prop where
  isSealed : Sealed depth s
  ends : depth + balance s = 0

theorem sealed_of_not_mem {s : Text} (h : unionSign ∉ s) (depth : Int) : Sealed depth s := by
  intro a b hs
  exact absurd (hs ▸ List.mem_append_right a List.mem_cons_self) h

theorem sealed_cons {depth : Int} {c : Char} {s : Text} :
    Sealed depth (c :: s) ↔ ¬ (c = unionSign ∧ depth = 0) ∧ Sealed (depth + weight c) s := by
  constructor
  · intro h
    refine ⟨fun ⟨hc, hd⟩ => h [] s (by rw [hc]; rfl) (by simpa using hd), fun a b hs => ?_⟩
    have := h (c :: a) b (by rw [hs]; rfl)
    rwa [balance_cons, ← Int.add_assoc] at this
  · rintro ⟨hc, hs⟩ a b he
    cases a with
    | nil =>
      simp only [List.nil_append, List.cons.injEq] at he
      intro hd
      exact hc ⟨he.1, by simpa using hd⟩
    | cons x a =>
      simp only [List.cons_append, List.cons.injEq] at he
      obtain ⟨rfl, he⟩ := he
      rw [balance_cons, ← Int.add_assoc]
      exact hs a b he

theorem sealed_append : ∀ {a b : Text} {depth : Int},
    Sealed depth (a ++ b) ↔ Sealed depth a ∧ Sealed (depth + balance a) b
  | [], b, depth => by simp [sealed_of_not_mem]
  | c :: a, b, depth => by
    rw [List.cons_append, sealed_cons, sealed_append, sealed_cons, balance_cons, and_assoc,
      Int.add_assoc]

theorem Closes.of_append {depth : Int} {a b : Text} (h : Closes depth (a ++ b)) :
    Closes (depth + balance a) b := by
  refine ⟨(sealed_append.mp h.isSealed).2, ?_⟩
  have := h.ends
  rwa [balance_append, ← Int.add_assoc] at this

/-- A text without union signs that ends where it begins may come in front. -/
theorem closes_append_left {depth : Int} {a b : Text} (ha : unionSign ∉ a) (h0 : balance a = 0) :
    Closes depth (a ++ b) ↔ Closes depth b := by
  constructor
  · intro h
    have := h.of_append
    rwa [h0, Int.add_zero] at this
  · rintro ⟨hs, he⟩
    refine ⟨sealed_append.mpr ⟨sealed_of_not_mem ha _, by rwa [h0, Int.add_zero]⟩, ?_⟩
    rwa [balance_append, h0, Int.zero_add]

/-- A text without union signs that ends where it begins may come behind. -/
theorem closes_append_right {depth : Int} {a b : Text} (hb : unionSign ∉ b) (h0 : balance b = 0) :
    Closes depth (a ++ b) ↔ Closes depth a := by
  constructor
  · rintro ⟨hs, he⟩
    rw [balance_append, h0, Int.add_zero] at he
    exact ⟨(sealed_append.mp hs).1, he⟩
  · rintro ⟨hs, he⟩
    refine ⟨sealed_append.mpr ⟨hs, sealed_of_not_mem hb _⟩, ?_⟩
    rwa [balance_append, h0, Int.add_zero]

/-! ### Alternatives -/

theorem consHead_append (c : Char) : ∀ {ps : List Text} (qs : List Text), ps ≠ [] →
    Text.consHead c (ps ++ qs) = Text.consHead c ps ++ qs
  | [], _, h => absurd rfl h
  | _ :: _, _, _ => rfl

theorem alternativesFrom_ne_nil : ∀ (depth : Int) (s : Text), alternativesFrom depth s ≠ []
  | _, [] => by simp [alternativesFrom]
  | depth, c :: s => by
    unfold alternativesFrom
    split
    · simp
    · cases alternativesFrom (depth + weight c) s <;> simp [Text.consHead]

/-- **A union sign after a text that ends at depth zero is a cut.** -/
theorem alternativesFrom_append_sign : ∀ {a : Text} {depth : Int} (b : Text),
    depth + balance a = 0 →
    alternativesFrom depth (a ++ unionSign :: b) = alternativesFrom depth a ++ alternatives b
  | [], depth, b, h => by
    have hd : depth = 0 := by simpa using h
    simp [alternativesFrom, alternatives, hd]
  | c :: a, depth, b, h => by
    rw [balance_cons, ← Int.add_assoc] at h
    rw [List.cons_append]
    unfold alternativesFrom
    split
    · next hc =>
      have h0 : 0 + balance a = 0 := by rwa [hc.1, hc.2, weight_unionSign] at h
      rw [alternativesFrom_append_sign b h0, List.cons_append]
    · rw [alternativesFrom_append_sign b h]
      exact consHead_append c _ (alternativesFrom_ne_nil _ _)

theorem alternatives_append_sign {a : Text} (b : Text) (h : balance a = 0) :
    alternatives (a ++ unionSign :: b) = alternatives a ++ alternatives b :=
  alternativesFrom_append_sign b (by rw [h]; rfl)

theorem alternativesFrom_of_sealed : ∀ {s : Text} {depth : Int}, Sealed depth s →
    alternativesFrom depth s = [s]
  | [], _, _ => rfl
  | c :: s, depth, h => by
    obtain ⟨hc, hs⟩ := sealed_cons.mp h
    unfold alternativesFrom
    rw [if_neg hc, alternativesFrom_of_sealed hs]
    rfl

/-! ### Decompositions -/

/-- The text falls apart into these parts at union signs at depth zero, where its
first character stands at depth `depth`. -/
inductive Decomposition : (depth : Int) → Text → List Text → Prop
  | last {depth : Int} {p : Text} : Sealed depth p → Decomposition depth p [p]
  | sign {depth : Int} {p s : Text} {ps : List Text} : Closes depth p → Decomposition 0 s ps →
    Decomposition depth (p ++ unionSign :: s) (p :: ps)

theorem Decomposition.cons {depth : Int} {c : Char} {s : Text} {ps : List Text}
    (hc : ¬ (c = unionSign ∧ depth = 0)) (h : Decomposition (depth + weight c) s ps) :
    Decomposition depth (c :: s) (Text.consHead c ps) := by
  cases h with
  | last hs => exact .last (sealed_cons.mpr ⟨hc, hs⟩)
  | @sign _ p s ps hp hs =>
    have hends : depth + balance (c :: p) = 0 := by
      rw [balance_cons, ← Int.add_assoc]
      exact hp.ends
    exact .sign ⟨sealed_cons.mpr ⟨hc, hp.isSealed⟩, hends⟩ hs

theorem decomposition_alternativesFrom : ∀ (s : Text) (depth : Int),
    Decomposition depth s (alternativesFrom depth s)
  | [], _ => .last (sealed_of_not_mem List.not_mem_nil _)
  | c :: s, depth => by
    unfold alternativesFrom
    split
    · next hc =>
      obtain ⟨rfl, rfl⟩ := hc
      have hnil : Closes 0 [] := ⟨sealed_of_not_mem List.not_mem_nil _, rfl⟩
      exact .sign hnil (decomposition_alternativesFrom s 0)
    · next hc => exact (decomposition_alternativesFrom s (depth + weight c)).cons hc

/-- There is no other decomposition. -/
theorem Decomposition.eq_alternativesFrom {depth : Int} {s : Text} {ps : List Text}
    (h : Decomposition depth s ps) : ps = alternativesFrom depth s := by
  induction h with
  | last hs => exact (alternativesFrom_of_sealed hs).symm
  | sign hp _ ih =>
    rw [alternativesFrom_append_sign _ hp.ends, alternativesFrom_of_sealed hp.isSealed,
      alternatives, ← ih]
    rfl

/-- The parts of a text that ends at depth zero close. -/
theorem Decomposition.closes {depth : Int} {s : Text} {ps : List Text}
    (h : Decomposition depth s ps) (h0 : depth = 0) (hs : balance s = 0) :
    ∀ p ∈ ps, Closes 0 p := by
  induction h with
  | last hp =>
    subst h0
    exact List.forall_mem_singleton.mpr ⟨hp, by rw [hs, Int.add_zero]⟩
  | sign hp _ ih =>
    subst h0
    have hends := hp.ends
    rw [balance_append, balance_cons, weight_unionSign] at hs
    exact List.forall_mem_cons.mpr ⟨hp, ih rfl (by omega)⟩

/-- The alternatives of a text that ends at depth zero close. -/
theorem closes_of_mem_alternatives {s a : Text} (h : balance s = 0) (ha : a ∈ alternatives s) :
    Closes 0 a :=
  (decomposition_alternativesFrom s 0).closes rfl h a ha

/-- A decomposition by what holds of its parts. -/
theorem decomposition_iff : ∀ {ps : List Text} {s : Text}, Decomposition 0 s ps ↔
    ps ≠ [] ∧ Text.join unionSign ps = s ∧ (∀ p ∈ ps.dropLast, balance p = 0) ∧
      ∀ p ∈ ps, Sealed 0 p
  | [], s => by
    constructor
    · rintro ⟨⟩
    · rintro ⟨hne, -⟩
      exact absurd rfl hne
  | [p], s => by
    constructor
    · rintro (hp | ⟨_, ⟨⟩⟩)
      exact ⟨by simp, rfl, by simp, List.forall_mem_singleton.mpr hp⟩
    · rintro ⟨-, rfl, -, hs⟩
      exact .last (hs p List.mem_cons_self)
  | p :: q :: ps, s => by
    rw [List.dropLast_cons_cons, List.forall_mem_cons, List.forall_mem_cons,
      Text.join_cons unionSign p (List.cons_ne_nil q ps)]
    constructor
    · rintro ⟨⟩
      next s hp hs =>
        obtain ⟨-, hjoin, hlevel, hsealed⟩ := decomposition_iff.mp hs
        have hends : balance p = 0 := by
          rw [← Int.zero_add (balance p)]
          exact hp.ends
        exact ⟨by simp, by rw [hjoin], ⟨hends, hlevel⟩, hp.isSealed, hsealed⟩
    · rintro ⟨-, rfl, ⟨hends, hlevel⟩, hp, hsealed⟩
      refine .sign ⟨hp, by rw [hends, Int.add_zero]⟩ (decomposition_iff.mpr ?_)
      exact ⟨List.cons_ne_nil q ps, rfl, hlevel, hsealed⟩

/-- Whether a character is an opening bracket of some kind. -/
def isOpener (c : Char) : Bool := c == '<' || c == '(' || c == '[' || c == '{'

/-- Whether a character is a closing bracket of some kind. -/
def isCloser (c : Char) : Bool := c == '>' || c == ')' || c == ']' || c == '}'

/-- The number of opening brackets of a text. -/
def openers (s : Text) : Nat := s.countP isOpener

/-- The number of closing brackets of a text. -/
def closers (s : Text) : Nat := s.countP isCloser

theorem weight_add_closer (c : Char) :
    weight c + (if isCloser c then 1 else 0) = if isOpener c then 1 else 0 := by
  unfold weight isCloser isOpener
  grind

theorem balance_add_closers : ∀ s : Text, balance s + closers s = openers s
  | [] => rfl
  | c :: s => by
    have hweight := weight_add_closer c
    have hs := balance_add_closers s
    unfold closers openers at hs ⊢
    rw [balance_cons, List.countP_cons, List.countP_cons]
    split at hweight <;> split at hweight <;> simp_all <;> omega

theorem balance_eq_zero_iff (s : Text) : balance s = 0 ↔ openers s = closers s := by
  have hs := balance_add_closers s
  omega

/-- **The alternatives of a text are its only decomposition**: of the lists of texts that
are not empty they are the one that joins to the text, whose members but the last hold as
many openers as closers, and in whose members as many openers as closers stand in front
of no union sign. -/
theorem eq_alternatives_iff (s : Text) (ps : List Text) :
    ps = alternatives s ↔
      ps ≠ [] ∧ Text.join unionSign ps = s ∧ (∀ p ∈ ps.dropLast, openers p = closers p) ∧
        ∀ p ∈ ps, ∀ before after, p = before ++ unionSign :: after →
          openers before ≠ closers before := by
  have hsealed : ∀ p : Text, Sealed 0 p ↔
      ∀ before after, p = before ++ unionSign :: after → openers before ≠ closers before := by
    intro p
    simp only [Sealed, Int.zero_add, ne_eq, balance_eq_zero_iff]
  have hiff : ps = alternatives s ↔ Decomposition 0 s ps := by
    constructor
    · rintro rfl
      exact decomposition_alternativesFrom s 0
    · exact Decomposition.eq_alternativesFrom
  rw [hiff, decomposition_iff]
  simp only [hsealed, balance_eq_zero_iff]

/-- **Joining adds the alternatives up**, when every text but the last ends at
depth zero. -/
theorem alternatives_join : ∀ {ts : List Text}, ts ≠ [] → (∀ t ∈ ts.dropLast, balance t = 0) →
    alternatives (Text.join unionSign ts) = ts.flatMap alternatives
  | [], h, _ => absurd rfl h
  | [t], _, _ => by simp [Text.join]
  | t :: u :: ts, _, h => by
    rw [List.dropLast_cons_cons, List.forall_mem_cons] at h
    rw [Text.join, alternatives_append_sign _ h.1, alternatives_join (List.cons_ne_nil u ts) h.2]
    exact List.flatMap_cons.symm

/-- Splitting undoes the joining of texts that close. -/
theorem alternatives_join_of_closes {ts : List Text} (hne : ts ≠ []) (h : ∀ t ∈ ts, Closes 0 t) :
    alternatives (Text.join unionSign ts) = ts := by
  have hb : ∀ t ∈ ts.dropLast, balance t = 0 := fun t ht => by
    have := (h t (List.dropLast_subset _ ht)).ends
    rwa [Int.zero_add] at this
  have hs : ∀ t ∈ ts, alternatives t = [t] := fun t ht =>
    alternativesFrom_of_sealed (h t ht).isSealed
  rw [alternatives_join hne hb, List.flatMap_def, List.map_congr_left hs, ← List.flatMap_def,
    List.flatMap_singleton']

end DocTypes
