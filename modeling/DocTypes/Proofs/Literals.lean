/-
# Literals in a collection

A literal is kept as it is written when it is resolved, but it is split like any other text
before: union signs and brackets count in its body as elsewhere. So a literal is added as one
item just when no union sign of its body is a cut, and an alternative behind it is one of its
own just when its body also ends at the depth at which it begins.

What the first item is tells where the first cut is: text that begins with a quote only loses
the padding at its end (`exists_append_of_quoted`), and a literal ends in no padding.

Key definitions: `Literal`, `Collection.Appends`.
Key theorems: `alternatives_eq_cons`, `exists_append_of_quoted`,
`Collection.exists_alternatives_of_appends`.
-/
import DocTypes.Proofs.Collection
import DocTypes.Proofs.Grammar

namespace DocTypes

/-- The first alternative goes up to the first cut, if there is one. -/
theorem alternatives_eq_cons {t p : Text} {ps : List Text} (h : alternatives t = p :: ps) :
    (p = t ∧ Sealed 0 t ∧ ps = []) ∨
      ∃ s, t = p ++ unionSign :: s ∧ Closes 0 p ∧ ps = alternatives s := by
  have hd : Decomposition 0 t (p :: ps) := h ▸ decomposition_alternativesFrom t 0
  cases hd with
  | last hs => exact Or.inl ⟨rfl, hs, rfl⟩
  | sign hp hs => exact Or.inr ⟨_, rfl, hp, hs.eq_alternativesFrom⟩

theorem sealed_iff_alternatives {t : Text} : Sealed 0 t ↔ alternatives t = [t] := by
  constructor
  · exact alternativesFrom_of_sealed
  · intro h
    rcases alternatives_eq_cons h with ⟨-, hs, -⟩ | ⟨s, hs, -⟩
    · exact hs
    · exact absurd (congrArg List.length hs) (by simp)

instance (t : Text) : Decidable (Sealed 0 t) := decidable_of_iff _ sealed_iff_alternatives.symm

instance (t : Text) : Decidable (Closes 0 t) :=
  decidable_of_iff (Sealed 0 t ∧ 0 + balance t = 0) ⟨fun h => ⟨h.1, h.2⟩, fun h => ⟨h.1, h.2⟩⟩

/-! ### Literals -/

/-- A quote of either kind, text without it, and the quote again. -/
structure Literal where
  quote : Char
  isQuote : quote = Char.ofNat 34 ∨ quote = Char.ofNat 39
  body : Text
  not_mem : quote ∉ body

namespace Literal

variable (q : Literal)

def text : Text := q.quote :: (q.body ++ [q.quote])

theorem quoted_append (s : Text) : Quoted (q.text ++ s) :=
  q.isQuote.imp (congrArg some) (congrArg some)

theorem weight_quote : weight q.quote = 0 := by
  rcases q.isQuote with h | h <;> rw [h] <;> decide

theorem quote_ne_unionSign : q.quote ≠ unionSign := by
  rcases q.isQuote with h | h <;> rw [h] <;> decide

theorem isPadding_quote : isPadding q.quote = false := by
  rcases q.isQuote with h | h <;> rw [h] <;> decide

theorem stripPadding_text : stripPadding q.text = q.text := by
  refine Text.Trimmed.trim_eq ⟨fun c hc => ?_, fun c hc => ?_⟩
  · cases hc
    exact q.isPadding_quote
  · rw [text, ← List.cons_append, List.getLast?_concat] at hc
    cases hc
    exact q.isPadding_quote

/-- The quotes do not count where the text is split. -/
theorem sealed_text : Sealed 0 q.text ↔ Sealed 0 q.body := by
  have hquote : ∀ depth, Sealed depth [q.quote] := fun depth =>
    sealed_of_not_mem (by simpa using q.quote_ne_unionSign.symm) depth
  rw [text, sealed_cons, sealed_append, q.weight_quote]
  exact ⟨fun h => h.2.1, fun h => ⟨fun hc => q.quote_ne_unionSign hc.1, h, hquote _⟩⟩

theorem closes_text : Closes 0 q.text ↔ Closes 0 q.body := by
  have hbalance : balance q.text = balance q.body := by
    rw [text, balance_cons, balance_append, balance_cons, balance_nil, q.weight_quote]
    omega
  constructor
  · rintro ⟨hs, he⟩
    exact ⟨q.sealed_text.mp hs, by rwa [hbalance] at he⟩
  · rintro ⟨hs, he⟩
    exact ⟨q.sealed_text.mpr hs, by rwa [hbalance]⟩

end Literal

/-- A text that begins with a quote loses padding at its end only. -/
theorem exists_append_of_quoted {s : Text} (h : Quoted s) :
    Quoted (stripPadding s) ∧
      ∃ b, s = stripPadding s ++ b ∧ ∀ c ∈ b, isPadding c = true := by
  have hfirst : ∀ c ∈ s.head?, isPadding c = false := by
    intro c hc
    rcases h with h | h <;> rw [h] at hc <;> cases hc <;> decide
  have hnot : ∀ {c : Char} {x : Text}, s.head? = (c :: x).head? → isPadding c ≠ true := by
    intro c x hs hc
    rw [hfirst c hs] at hc
    cases hc
  obtain ⟨a, b, hs, ha, hb⟩ := Text.exists_eq_trim isPadding s
  have hnil : a = [] := by
    cases a with
    | nil => rfl
    | cons x a => exact absurd (ha x List.mem_cons_self) (hnot (congrArg List.head? hs))
  rw [hnil, List.nil_append] at hs
  refine ⟨?_, b, hs, hb⟩
  have hne : stripPadding s ≠ [] := by
    intro hstrip
    obtain ⟨c, x, rfl⟩ := List.exists_cons_of_ne_nil h.ne_nil
    exact hnot rfl (Text.trim_eq_nil_iff.mp hstrip c List.mem_cons_self)
  have hhead : (stripPadding s ++ b).head? = (stripPadding s).head? :=
    List.head?_append_of_ne_nil _ hne
  have hsame : (stripPadding s).head? = s.head? := by
    rw [← hhead]
    exact congrArg List.head? hs.symm
  rwa [Quoted, hsame]

theorem plan_of_quoted {σ : Scope} {s : Text} (h : Quoted s) :
    σ.plan s = .settled (stripPadding s) := by
  obtain ⟨hq, -⟩ := exists_append_of_quoted h
  have hverbatim : isVerbatim (stripPadding s) = true := by
    rcases hq with hq | hq <;> simp [isVerbatim, isLiteral, hq]
  exact Scope.plan_of_verbatim hq.ne_nil hverbatim

theorem Expander.expandAll_quoted {s : Text} (h : Quoted s) (e : Expander) (ts : List Text) :
    (e.expandAll (s :: ts)).1 = (e.expandAll ts).1.map (stripPadding s :: ·) := by
  rw [expandAll, expand_of_plan_eq (plan_of_quoted h)]
  cases hrun : e.expandAll ts with
  | mk outcome e' => cases outcome <;> simp [hrun, Except.map]

namespace Collection

variable {c : Collection} {t : Text} {l : List Text}

/-- Adding the text succeeds and appends the items. -/
def Appends (c : Collection) (t : Text) (l : List Text) : Prop :=
  (c.add (.text t)).1 = .ok () ∧ (c.add (.text t)).2.items = c.items ++ l

instance (c : Collection) (t : Text) (l : List Text) : Decidable (c.Appends t l) :=
  inferInstanceAs (Decidable (_ ∧ _))

theorem appends_iff : c.Appends t l ↔
    ∃ results, (c.expander.expandAll (alternatives t)).1 = .ok results ∧
      l = results.filter fun r => !r.isEmpty := by
  unfold Appends add addText
  cases hrun : c.expander.expandAll (alternatives t) with
  | mk outcome e =>
    cases outcome with
    | error fault => simp [hrun]
    | ok results => simp [hrun, eq_comm]

/-- A first alternative that begins with a quote is the first item, without the padding at
its end. -/
theorem appends_iff_of_quoted {p : Text} {ps : List Text} (ha : alternatives t = p :: ps)
    (hp : Quoted p) : c.Appends t l ↔
      ∃ results, (c.expander.expandAll ps).1 = .ok results ∧
        l = stripPadding p :: results.filter fun r => !r.isEmpty := by
  have hne : stripPadding p ≠ [] := (exists_append_of_quoted hp).1.ne_nil
  rw [appends_iff, ha, Expander.expandAll_quoted hp]
  cases (c.expander.expandAll ps).1 with
  | error fault => simp [Except.map]
  | ok results => simp [Except.map, hne]

/-- **A literal that is added as the first item** is the first alternative. -/
theorem exists_alternatives_of_appends (q : Literal) {rest : Text} (ht : t = q.text ++ rest)
    (hrest : ∀ d ∈ rest.head?, isPadding d = false) (h : c.Appends t (q.text :: l)) :
    ∃ ps, alternatives t = q.text :: ps := by
  subst ht
  obtain ⟨p, ps, ha⟩ := List.exists_cons_of_ne_nil (alternativesFrom_ne_nil 0 (q.text ++ rest))
  have ha : alternatives (q.text ++ rest) = p :: ps := ha
  have hfront : p <+: q.text ++ rest ∧ p ≠ [] := by
    rcases alternatives_eq_cons ha with ⟨rfl, -⟩ | ⟨s, hs, -⟩
    · exact ⟨List.prefix_rfl, (q.quoted_append rest).ne_nil⟩
    · refine ⟨⟨_, hs.symm⟩, ?_⟩
      rintro rfl
      exact q.quote_ne_unionSign (List.cons.inj hs).1
  obtain ⟨⟨x, hx⟩, hne⟩ := hfront
  have hp : Quoted p := by
    have hq := q.quoted_append rest
    rwa [← hx, Quoted, List.head?_append_of_ne_nil _ hne] at hq
  obtain ⟨results, -, hitems⟩ := (appends_iff_of_quoted ha hp).mp h
  obtain ⟨-, b, hpb, hb⟩ := exists_append_of_quoted hp
  rw [← (List.cons.inj hitems).1] at hpb
  -- no padding stands behind the literal
  have hnil : b = [] := by
    cases b with
    | nil => rfl
    | cons d b =>
      rw [hpb, List.append_assoc] at hx
      have hd := hrest d (by rw [← List.append_cancel_left hx]; rfl)
      rw [hb d List.mem_cons_self] at hd
      cases hd
  rw [hnil, List.append_nil] at hpb
  exact ⟨ps, hpb ▸ ha⟩

/-- **A literal is added as one item** just when no union sign of its body is a cut, and in front
of other alternatives just when its body also ends at depth zero. -/
theorem appends_literal (c : Collection) (q : Literal) :
    (c.Appends q.text [q.text] ↔ Sealed 0 q.body) ∧
      ∀ s l, c.Appends s l →
        (c.Appends (q.text ++ unionSign :: s) (q.text :: l) ↔ Closes 0 q.body) := by
  have hquoted : Quoted q.text := by
    have hq := q.quoted_append []
    rwa [List.append_nil] at hq
  refine ⟨?_, fun s l hs => ?_⟩
  · rw [← q.sealed_text]
    constructor
    · intro h
      obtain ⟨ps, ha⟩ :=
        exists_alternatives_of_appends q (List.append_nil q.text).symm (by simp) h
      rcases alternatives_eq_cons ha with ⟨-, hs, -⟩ | ⟨s, heq, -⟩
      · exact hs
      · exact absurd (congrArg List.length heq) (by simp)
    · intro h
      have ha : alternatives q.text = [q.text] := alternativesFrom_of_sealed h
      exact (appends_iff_of_quoted ha hquoted).mpr ⟨[], rfl, by rw [q.stripPadding_text]; rfl⟩
  · rw [← q.closes_text]
    constructor
    · intro h
      have hsign : ∀ d ∈ (unionSign :: s).head?, isPadding d = false := fun d hd => by
        cases hd
        decide
      obtain ⟨ps, ha⟩ := exists_alternatives_of_appends q rfl hsign h
      rcases alternatives_eq_cons ha with ⟨heq, -⟩ | ⟨s', -, hcloses, -⟩
      · exact absurd (congrArg List.length heq) (by simp)
      · exact hcloses
    · intro h
      have hbalance : balance q.text = 0 := by
        rw [← Int.zero_add (balance q.text)]
        exact h.ends
      have ha : alternatives (q.text ++ unionSign :: s) = q.text :: alternatives s := by
        rw [alternatives_append_sign s hbalance, alternatives,
          alternativesFrom_of_sealed h.isSealed]
        rfl
      obtain ⟨results, hrun, rfl⟩ := appends_iff.mp hs
      exact (appends_iff_of_quoted ha hquoted).mpr ⟨results, hrun, by rw [q.stripPadding_text]⟩

/-- A literal with a union sign in brackets, in front of a member of an alias. -/
theorem appends_literal_bracketed :
    let c := create shopContext [] (.ofProbe brittleProbe) false true
    let q : Literal := ⟨Char.ofNat 34, Or.inl rfl, "on (x|y): off".toList, by decide +kernel⟩
    let s := "M\\User".toList
    let l := ["\\Lib\\Models\\User".toList]
    Sealed 0 q.body ∧ Closes 0 q.body ∧ c.Appends s l ∧ c.Appends q.text [q.text] ∧
      c.Appends (q.text ++ unionSign :: s) (q.text :: l) := by
  intro c q s l
  have hcloses : Closes 0 q.body := by decide +kernel
  have hs : c.Appends s l := by decide +kernel
  obtain ⟨halone, hfront⟩ := appends_literal c q
  exact ⟨hcloses.isSealed, hcloses, hs, halone.mpr hcloses.isSealed, (hfront s l hs).mpr hcloses⟩

/-- A literal with a union sign is torn, and one with a bracket takes in what comes behind. -/
theorem appends_literal_torn :
    let c := create ⟨[], .empty, []⟩ [] .empty true true
    let torn : Literal := ⟨Char.ofNat 39, Or.inr rfl, "a|b".toList, by decide +kernel⟩
    let bracket : Literal := ⟨Char.ofNat 39, Or.inr rfl, ")".toList, by decide +kernel⟩
    ¬ c.Appends torn.text [torn.text] ∧ c.Appends torn.text ["'a".toList, "\\b'".toList] ∧
      c.Appends "Foo".toList ["\\Foo".toList] ∧
      ¬ c.Appends (bracket.text ++ unionSign :: "Foo".toList) [bracket.text, "\\Foo".toList] ∧
      c.Appends (bracket.text ++ unionSign :: "Foo".toList) ["')'|Foo".toList] := by
  decide +kernel

end Collection
end DocTypes
