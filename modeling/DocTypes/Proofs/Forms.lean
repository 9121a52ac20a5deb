/-
# What the forms of a type look at

Facts about the recognisers of `Token`, as facts about lists: which characters
padding is made of, when a segment names a member (`memberParts?_eq_none_iff`), what
may stand around a signature (`isSignature_append_left`,
`isSignature_append_right`), and that the end of a name tells whether it is an array
(`arrayElement?_append_cons`).

Most of what is said about resolution holds for types that name no member in
front of their first separator (`NoInnerMember`): an alias replaced in front of
such a member would leave the member behind the rest of the name.

Key definitions: `Unpadded`, `NoInnerMember`.
Key theorems: `memberParts?_eq_none_iff`, `memberParts?_eq_some`,
`NoInnerMember.stripPadding`, `isSignature_append_left`, `isSignature_append_right`,
`isSignature_of_append`, `arrayElement?_append_cons`.
-/
import DocTypes.Proofs.Trim
import DocTypes.Token

namespace DocTypes

/-! ### Padding -/

theorem weight_of_isPadding {c : Char} (h : isPadding c = true) : weight c = 0 := by
  have hall : padding.all (fun x => weight x = 0) = true := by decide
  simpa using List.all_eq_true.mp hall c (of_decide_eq_true h)

theorem ne_unionSign_of_isPadding {c : Char} (h : isPadding c = true) : c ≠ unionSign := by
  rintro rfl
  revert h
  decide

theorem ne_separator_of_isPadding {c : Char} (h : isPadding c = true) : c ≠ separator := by
  rintro rfl
  revert h
  decide

/-- A text without padding anywhere. -/
def Unpadded (s : Text) : Prop := ∀ c ∈ s, isPadding c = false

instance (s : Text) : Decidable (Unpadded s) := List.decidableBAll _ s

theorem Unpadded.trimmed {s : Text} (h : Unpadded s) : Text.Trimmed isPadding s :=
  ⟨fun c hc => h c (List.mem_of_head? hc), fun c hc => h c (List.mem_of_getLast? hc)⟩

theorem trimmed_stripPadding (t : Text) : Text.Trimmed isPadding (stripPadding t) :=
  Text.trimmed_trim isPadding t

theorem stripPadding_stripPadding (t : Text) : stripPadding (stripPadding t) = stripPadding t :=
  (trimmed_stripPadding t).trim_eq

theorem mem_of_mem_stripPadding {c : Char} {t : Text} (h : c ∈ stripPadding t) : c ∈ t := by
  obtain ⟨a, b, ht, -, -⟩ := Text.exists_eq_trim isPadding t
  rw [ht]
  exact List.mem_append_right a (List.mem_append_left b h)

/-! ### Absolute names -/

theorem isAbsolute_append {x : Text} (h : isAbsolute x = true) (y : Text) :
    isAbsolute (x ++ y) = true := by
  cases x with
  | nil => cases h
  | cons c x => exact h

/-! ### Members -/

theorem memberParts?_eq_none_iff : ∀ {s : Text}, memberParts? s = none ↔ ¬ [':', ':'] <:+: s
  | [] => by simp [memberParts?]
  | c :: s => by
    have hpre : [':', ':'] <+: c :: s ↔ c = ':' ∧ s.head? = some ':' := by
      cases s with
      | nil => simp
      | cons d s => simp [List.cons_prefix_cons, eq_comm]
    unfold memberParts?
    rw [List.infix_cons_iff, hpre, not_or]
    split
    · next h => simp [h]
    · next h => simp [h, memberParts?_eq_none_iff (s := s)]

theorem before_append_of_not_mem {c : Char} {a : Text} (h : c ∉ a) (s : Text) :
    Text.before c (a ++ s) = a ++ Text.before c s :=
  List.takeWhile_append_of_pos fun x hx => by simpa using fun e : x = c => h (e ▸ hx)

theorem before_eq_self {c : Char} {s : Text} (h : c ∉ s) : s.before c = s := by
  have happend := before_append_of_not_mem h []
  simpa [Text.before] using happend

theorem Text.after?_eq_none {c : Char} {s : Text} (h : c ∉ s) : s.after? c = none := by
  have hall : s.dropWhile (· != c) = [] := List.dropWhile_eq_nil_iff.mpr fun d hd => by
    rw [bne_iff_ne]
    rintro rfl
    exact h hd
  rw [Text.after?, hall]

/-- The first occurrence of a character parts a text. -/
theorem before_append_cons {c : Char} {a : Text} (h : c ∉ a) (s : Text) :
    Text.before c (a ++ c :: s) = a := by
  rw [before_append_of_not_mem h, Text.before, List.takeWhile_cons_of_neg (by simp),
    List.append_nil]

theorem Text.after?_append_cons {c : Char} {a : Text} (h : c ∉ a) (s : Text) :
    Text.after? c (a ++ c :: s) = some s := by
  have ha : ∀ d ∈ a, (d != c) = true := fun d hd => by
    rw [bne_iff_ne]
    rintro rfl
    exact h hd
  have hrest : (a ++ c :: s).dropWhile (· != c) = c :: s := by
    rw [List.dropWhile_append_of_pos ha, List.dropWhile_cons_of_neg (by simp)]
  rw [Text.after?, hrest]

theorem before_prefix_append (c : Char) (s b : Text) :
    Text.before c s <+: Text.before c (s ++ b) := by
  rw [Text.before, Text.before, List.takeWhile_append]
  split
  · next h =>
    exact (List.takeWhile_prefix _).trans (List.prefix_append s _)
  · exact List.prefix_rfl

/-- A class name and its member are the two parts of the text, and the member comes
with its `::`. -/
theorem memberParts?_eq_some : ∀ {s owner member : Text},
    memberParts? s = some (owner, member) →
      s = owner ++ member ∧ ∃ name, member = ':' :: ':' :: name
  | [], owner, member, h => by cases h
  | c :: s, owner, member, h => by
    unfold memberParts? at h
    split at h
    · next hc =>
      cases h
      obtain ⟨name, rfl⟩ := List.head?_eq_some_iff.mp hc.2
      exact ⟨rfl, name, by rw [hc.1]⟩
    · obtain ⟨parts, hp, he⟩ := Option.map_eq_some_iff.mp h
      cases he
      obtain ⟨hs, hname⟩ := memberParts?_eq_some hp
      exact ⟨by rw [List.cons_append, ← hs], hname⟩

/-- A member comes behind the first `::`. -/
theorem memberParts?_append (name : Text) : ∀ {owner : Text}, ':' ∉ owner →
    memberParts? (owner ++ ':' :: ':' :: name) = some (owner, ':' :: ':' :: name)
  | [], _ => by simp [memberParts?]
  | c :: owner, h => by
    have hc : ¬ (c = ':' ∧ (owner ++ ':' :: ':' :: name).head? = some ':') := fun hc =>
      h (hc.1 ▸ List.mem_cons_self)
    have ih := memberParts?_append name fun hm => h (List.mem_cons_of_mem c hm)
    rw [List.cons_append, memberParts?, if_neg hc, ih]
    rfl

/-- No `::` stands before the first separator. A text without a separator may name a
member. -/
def NoInnerMember (t : Text) : Prop := separator ∈ t → ¬ [':', ':'] <:+: t.before separator

instance (t : Text) : Decidable (NoInnerMember t) :=
  decidable_of_iff (separator ∈ t → memberParts? (t.before separator) = none)
    (imp_congr_right fun _ => memberParts?_eq_none_iff)

theorem NoInnerMember.of_append {s b : Text} (h : NoInnerMember (s ++ b)) : NoInnerMember s :=
  fun hs hi =>
    h (List.mem_append_left b hs) (hi.trans (before_prefix_append separator s b).isInfix)

theorem NoInnerMember.stripPadding {t : Text} (h : NoInnerMember t) :
    NoInnerMember (stripPadding t) := by
  obtain ⟨a, b, ht, ha, -⟩ := Text.exists_eq_trim isPadding t
  have hsep : separator ∉ a := fun hm => ne_separator_of_isPadding (ha _ hm) rfl
  refine NoInnerMember.of_append (b := b) fun hs hi => ?_
  rw [ht] at h
  refine h (List.mem_append_right a hs) ?_
  rw [before_append_of_not_mem hsep]
  exact hi.trans (List.suffix_append a _).isInfix

/-! ### Shapes -/

/-- A run of characters of a class ends where a character outside it follows. -/
theorem takeWhile_append_of_head {p : Char → Bool} {x y : Text} (hx : ∀ c ∈ x, p c = true)
    (hy : ∀ c ∈ y.head?, p c = false) : (x ++ y).takeWhile p = x := by
  rw [List.takeWhile_append_of_pos hx]
  cases y with
  | nil => simp
  | cons c y => simp [hy c rfl]

theorem dropWhile_append_of_head {p : Char → Bool} {x y : Text} (hx : ∀ c ∈ x, p c = true)
    (hy : ∀ c ∈ y.head?, p c = false) : (x ++ y).dropWhile p = y := by
  rw [List.dropWhile_append_of_pos hx]
  exact Text.trimStart_eq_self hy

/-- A name and what does not go on it. -/
theorem isShape_append {name y : Text} (hname : ∀ c ∈ name, isHeadChar c = true)
    (hy : ∀ c ∈ y.head?, isHeadChar c = false) :
    isShape (name ++ y) = (!name.isEmpty && isBracketed y) := by
  rw [isShape, takeWhile_append_of_head hname hy, dropWhile_append_of_head hname hy]

/-- A text is its name, as far as the name of a generic goes, and what does not go on
it. -/
theorem exists_eq_name_append (s : Text) :
    ∃ name y, s = name ++ y ∧ (∀ c ∈ name, isHeadChar c = true) ∧
      ∀ c ∈ y.head?, isHeadChar c = false :=
  ⟨s.takeWhile isHeadChar, s.dropWhile isHeadChar, List.takeWhile_append_dropWhile.symm,
    fun _ => List.mem_takeWhile_imp, Text.head?_dropWhile isHeadChar s⟩

theorem closerOf_eq_square_iff {c : Char} : closerOf c = some ']' ↔ c = '[' := by
  constructor
  · intro h
    unfold closerOf at h
    split at h
    · cases h
    · rfl
    · split at h
      · cases h
      · cases h
  · rintro rfl
    rfl

/-- A body in brackets that ends with the array suffix is a square one, and goes up to
the middle of the suffix. -/
theorem isBracketed_cons_append (c : Char) (y : Text) :
    isBracketed (c :: (y ++ arraySuffix)) =
      (decide (closerOf c = some ']') && isBody c (y ++ ['['])) := by
  have hsplit : y ++ arraySuffix = (y ++ ['[']) ++ [']'] := by simp [arraySuffix]
  rw [isBracketed]
  cases hc : closerOf c with
  | none => rfl
  | some closer =>
    rw [hsplit, List.getLast?_append, List.dropLast_concat]
    by_cases h : closer = ']'
    · simp [h]
    · simp [h, Ne.symm h]

/-! ### Signatures -/

/-- Without a colon there is no signature. -/
theorem signatureFrom_eq_false : ∀ {s : Text} (opened : Bool), ':' ∉ s →
    signatureFrom opened s = false
  | [], _, _ => rfl
  | c :: s, opened, h => by
    have hc : (c == ':') = false := by
      rw [beq_eq_false_iff_ne]
      rintro rfl
      exact h List.mem_cons_self
    have hs : ':' ∉ s := fun hm => h (List.mem_cons_of_mem c hm)
    unfold signatureFrom
    simp only [signatureFrom_eq_false _ hs, hc, Bool.and_false, Bool.or_false, ite_self]

/-- What opens no parenthesis may come in front. -/
theorem isSignature_append_left : ∀ {x : Text} (y : Text), '(' ∉ x →
    isSignature (x ++ y) = isSignature y
  | [], _, _ => rfl
  | c :: x, y, h => by
    have hc : ¬ c = '(' := fun e => h (e ▸ List.mem_cons_self)
    have ih := isSignature_append_left y fun hm => h (List.mem_cons_of_mem c hm)
    unfold isSignature at ih ⊢
    rw [List.cons_append, signatureFrom, if_neg hc, ih, Bool.false_and, Bool.false_or, ite_self]

/-- What has no colon may come behind. -/
theorem isSignature_append_right (x : Text) {y : Text} (h : ':' ∉ y) :
    isSignature (x ++ y) = isSignature x := by
  have hfrom : ∀ (x : Text) (opened : Bool),
      signatureFrom opened (x ++ y) = signatureFrom opened x := by
    intro x
    induction x with
    | nil => exact fun opened => signatureFrom_eq_false opened h
    | cons c x ih =>
      intro opened
      simp only [List.cons_append, signatureFrom, ih]
  exact hfrom x false

theorem signatureFrom_true : ∀ {s : Text}, isSignature s = true → signatureFrom true s = true
  | [], h => by cases h
  | c :: s, h => by
    unfold isSignature signatureFrom at h
    unfold signatureFrom
    split
    · next hc => rwa [if_pos hc] at h
    · next hc =>
      rw [if_neg hc] at h
      split
      · next hp => rwa [if_pos hp] at h
      · next hp =>
        rw [if_neg hp, Bool.false_and, Bool.false_or] at h
        rw [signatureFrom_true h, Bool.or_true]

/-- A signature stays one behind other text. -/
theorem isSignature_of_append {x y : Text} (h : isSignature y = true) :
    isSignature (x ++ y) = true := by
  have hfrom : ∀ (x : Text) (opened : Bool), signatureFrom opened (x ++ y) = true := by
    intro x
    induction x with
    | nil =>
      intro opened
      cases opened
      · exact h
      · exact signatureFrom_true h
    | cons c x ih =>
      intro opened
      simp only [List.cons_append, signatureFrom, ih, Bool.or_true, ite_self]
  exact hfrom x false

/-! ### Arrays -/

theorem arrayElement?_of_not_mem {s : Text} (h : ']' ∉ s) : arrayElement? s = none := by
  cases he : arrayElement? s with
  | none => rfl
  | some e => exact absurd (by simp [eq_append_of_arrayElement? he, arraySuffix]) h

/-- What ends a text decides whether it is an array, when a character that is no square
bracket stands in front of it. -/
theorem arrayElement?_append_cons {c : Char} (hopen : c ≠ '[') (hclose : c ≠ ']') {s : Text}
    (x : Text) (h : arrayElement? s = none) : arrayElement? (x ++ c :: s) = none := by
  unfold arrayElement? at h ⊢
  rw [List.reverse_append, List.reverse_cons]
  match hs : s.reverse with
  | [] =>
    simp only [List.nil_append, List.cons_append]
    split
    · next h' => exact absurd (List.cons.inj h').1 hclose
    · rfl
  | [d] =>
    simp only [List.cons_append, List.nil_append]
    split
    · next h' => exact absurd (List.cons.inj (List.cons.inj h').2).1 hopen
    · rfl
  | d :: e :: u =>
    rw [hs] at h
    split at h
    · cases h
    · next hn =>
      simp only [List.cons_append]
      split
      · next h' =>
        simp only [List.cons.injEq] at h'
        exact absurd (by rw [h'.1, h'.2.1]) (hn u)
      · rfl

end DocTypes
