/-
# Members of classes

A member stands behind its class, after `::`, and resolution takes both as one name. What
it puts in front of a class name, or in place of the first segment, leaves the end of the
name alone, so a class name with a member resolves as the class name does
(`NestedName.name_resolve_withMember`). The member of a class is then the member of what
the class resolves to, where the class is no reserved name and the registry says the same
of the class and of the member (`Expander.expand_withMember`).

A reserved name is one as a whole. `self` is kept, but `self::FOO` is a class name like any
other, and is placed in the namespace (`Expander.expand_withMember_self`).

Key definitions: `withMember`, `ClassName`, `ClassName.owner`.
Key theorems: `NestedName.name_resolve_withMember`, `Expander.expand_withMember`.
-/
import DocTypes.Proofs.Segments

namespace DocTypes

/-- A class name with a member behind it. -/
def withMember (s : Text) (m : PlainName) : Text := s ++ ':' :: ':' :: m.text

section

variable (s : Text) (m : PlainName)

theorem withMember_append (x : Text) : withMember (x ++ s) m = x ++ withMember s m :=
  List.append_assoc x s _

theorem nameChars_withMember {s : Text} (h : NameChars s) : NameChars (withMember s m) := by
  intro c hc
  rcases List.mem_append.mp hc with hc | hc
  · exact h c hc
  · simp only [List.mem_cons] at hc
    rcases hc with rfl | rfl | hc
    · exact Or.inr rfl
    · exact Or.inr rfl
    · exact m.isName.nameChars c hc

theorem withMember_ne_nil : withMember s m ≠ [] :=
  List.append_ne_nil_of_right_ne_nil s (List.cons_ne_nil _ _)

/-- No member is a reserved name. -/
theorem isKeyword_withMember : isKeyword (withMember s m) = false := by
  rw [Bool.eq_false_iff]
  intro hk
  apply colon_not_mem_of_isKeyword hk
  simp [withMember]

theorem isAbsolute_withMember {s : Text} (hne : s ≠ []) :
    isAbsolute (withMember s m) = isAbsolute s := by
  obtain ⟨c, s, rfl⟩ := List.exists_cons_of_ne_nil hne
  rfl

theorem separator_not_mem_withMember {s : Text} (h : separator ∉ s) :
    separator ∉ withMember s m := by
  have hcolon : separator ≠ ':' := by decide
  simp [withMember, h, hcolon, m.isName.separator_not_mem]

theorem Context.qualify_withMember (c : Context) :
    c.qualify (withMember s m) = withMember (c.qualify s) m := by
  unfold qualify withMember
  split <;> simp

end

/-- **A member goes with its class** when the class name is resolved, unless the name with
the member is an alias by itself. -/
theorem NestedName.name_resolve_withMember (n : NestedName) (m : PlainName) {c : Context}
    (ha : c.aliases.find? (withMember n.text m) = none) :
    (c.resolve (withMember n.text m)).name = withMember (c.resolve n.text).name m := by
  obtain ⟨first, inner, hs⟩ := List.exists_cons_of_ne_nil n.ne_nil
  have hfirst : IsName first := n.isName first (by rw [hs]; exact List.mem_cons_self)
  obtain ⟨hbefore, hrest⟩ := n.before_append_dropWhile hs
  have htext : n.text.before separator ++ n.text.dropWhile (· != separator) = n.text :=
    List.takeWhile_append_dropWhile
  rw [hbefore, hrest] at htext
  rw [n.name_resolve c hs]
  by_cases hi : inner = []
  · -- the only segment has the member, and is looked up without it
    rw [if_pos hi, List.append_nil] at htext
    rw [← htext] at ha ⊢
    have hsep : separator ∉ withMember first m :=
      separator_not_mem_withMember m hfirst.separator_not_mem
    have hparts : memberParts? (withMember first m) = some (first, ':' :: ':' :: m.text) :=
      memberParts?_append m.text (hfirst.not_mem (by decide))
    simp only [Context.resolve, Context.memberTarget?, before_eq_self hsep,
      Text.after?_eq_none hsep, hparts, if_neg hfirst.ne_nil, if_pos hi]
    cases c.aliases.find? first with
    | some target => simp [Resolution.name, withMember]
    | none => simp [ha, Resolution.name, Context.qualify_withMember]
  · -- the member is in the last segment, and the first one is looked up
    have hw : withMember n.text m = first ++ withMember (rootedName inner) m := by
      rw [← withMember_append, ← htext, if_neg hi]
    have hname : ∀ c ∈ first, (c != separator) = true := fun c hc => by
      simpa using hfirst.ne_separator hc
    have hhead : ∀ c ∈ (withMember (rootedName inner) m).head?, (c != separator) = false := by
      intro c hc
      cases hc
      rfl
    have hbefore' : (withMember n.text m).before separator = first := by
      rw [hw, Text.before, takeWhile_append_of_head hname hhead]
    have hm : memberParts? ((withMember n.text m).before separator) = none := by
      rw [hbefore']
      exact hfirst.memberParts?_eq_none
    rw [c.name_resolve hm, hbefore', hw,
      dropWhile_append_of_head hname hhead, ← hw, if_neg hi, Context.qualify_withMember]
    cases c.aliases.find? first with
    | some target => exact (withMember_append _ m target).symm
    | none => rfl

/-! ### Class names -/

/-- A nested name, as it is or from the root of all namespaces. -/
structure ClassName where
  name : NestedName
  fromRoot : Bool

namespace ClassName

variable (n : ClassName)

/-- The name as it is written. -/
def text : Text := if n.fromRoot then separator :: n.name.text else n.name.text

theorem nameChars : NameChars n.text := by
  unfold text
  split
  · intro c hc
    rcases List.mem_cons.mp hc with rfl | hc
    · exact Or.inl (by decide)
    · exact n.name.nameChars c hc
  · exact n.name.nameChars

theorem text_ne_nil : n.text ≠ [] := by
  unfold text
  split
  · exact List.cons_ne_nil _ _
  · exact n.name.text_ne_nil

theorem isAbsolute_text : isAbsolute n.text = n.fromRoot := by
  unfold text
  split
  · next h => rw [h]; rfl
  · next h => rw [n.name.isAbsolute_text, Bool.eq_false_iff.mpr h]

/-- The class that the name stands for, as a class name, where the registry tells whether it
is `known`. -/
def owner (σ : Scope) (known : Bool) : Text :=
  if n.fromRoot then n.text
  else if known then separator :: n.text else (σ.context.resolve n.text).name

end ClassName

namespace Expander

/-- What a text of the characters of names resolves to, when the registry answers. -/
theorem expand_of_nameChars {e : Expander} {s : Text} (hs : NameChars s) (hne : s ≠ [])
    {known : Bool} (hr : (e.session.registry.knows s).1 = .ok known) :
    (e.expand s).1 = .ok
      (if isAbsolute s || isKeyword s || e.scope.isGeneric s then s
      else if known then separator :: s else (e.scope.context.resolve s).name) := by
  show (e.session.carryOut (e.scope.plan s)).1 = _
  rw [hs.plan_eq hne]
  by_cases h : (isAbsolute s || isKeyword s || e.scope.isGeneric s) = true
  · rw [if_pos h, if_pos h]
    rfl
  · rw [if_neg h, if_neg h]
    exact Session.carryOut_ask_of_knows hr _ _ _

/-- **The member of a class is the member of what the class resolves to**: always for a class
from the root, and otherwise for one that is no reserved name and about which the registry
says the same with the member and without it. A reserved name without a member is kept, and
every other class comes out as its name alone tells, with the member behind it. The name with
the member is to be neither a generic parameter nor an alias by itself. -/
theorem expand_withMember {e : Expander} (n : ClassName) (m : PlainName)
    (hg : n.fromRoot = false → e.scope.isGeneric (withMember n.text m) = false)
    (ha : n.fromRoot = false → e.scope.context.aliases.find? (withMember n.text m) = none)
    {known knownMember : Bool} (hr : (e.session.registry.knows n.text).1 = .ok known)
    (hm : (e.session.registry.knows (withMember n.text m)).1 = .ok knownMember) :
    let reserved := isKeyword n.text || e.scope.isGeneric n.text
    (e.expand n.text).1 = .ok (if reserved then n.text else n.owner e.scope known) ∧
      (e.expand (withMember n.text m)).1 =
        .ok (withMember (n.owner e.scope knownMember) m) ∧
      (n.fromRoot = true ∨ reserved = false ∧ known = knownMember →
        (e.expand (withMember n.text m)).1 = (e.expand n.text).1.map (withMember · m)) := by
  intro reserved
  have hclass : (e.expand n.text).1 =
      .ok (if reserved then n.text else n.owner e.scope known) := by
    rw [expand_of_nameChars n.nameChars n.text_ne_nil hr, n.isAbsolute_text, ClassName.owner]
    cases n.fromRoot <;> simp [reserved]
  have hmember : (e.expand (withMember n.text m)).1 =
      .ok (withMember (n.owner e.scope knownMember) m) := by
    rw [expand_of_nameChars (nameChars_withMember m n.nameChars) (withMember_ne_nil _ m) hm,
      isAbsolute_withMember m n.text_ne_nil, n.isAbsolute_text, isKeyword_withMember,
      ClassName.owner]
    cases hroot : n.fromRoot with
    | true => rfl
    | false =>
      have htext : n.text = n.name.text := if_neg (by simp [hroot])
      have hresolve := n.name.name_resolve_withMember m (htext ▸ ha hroot)
      rw [← htext] at hresolve
      rw [hg hroot, hresolve]
      cases knownMember <;> rfl
  refine ⟨hclass, hmember, fun h => ?_⟩
  rw [hclass, hmember]
  rcases h with hroot | ⟨hreserved, hsame⟩
  · simp [ClassName.owner, hroot, Except.map]
  · rw [hreserved, hsame]
    rfl

/-- A context with an alias for an enumeration. -/
def stateContext : Context :=
  ⟨"Shop".toList, .ofList [("State".toList, "\\Lib\\Enums\\State".toList)], ["TKey".toList]⟩

/-- The enumeration by its alias. -/
def stateName : ClassName := ⟨⟨["State".toList], by decide, by decide⟩, false⟩

/-- One of its members. -/
def openMember : PlainName := ⟨"OPEN".toList, by decide⟩

/-- The alias is replaced with and without the member. -/
theorem expand_withMember_state :
    let e := create stateContext none (.ofNames ["DateTime".toList] false) true false
    e.scope.isGeneric (withMember stateName.text openMember) = false ∧
      e.scope.context.aliases.find? (withMember stateName.text openMember) = none ∧
      (e.session.registry.knows stateName.text).1 = .ok false ∧
      (e.session.registry.knows (withMember stateName.text openMember)).1 = .ok false ∧
      (e.expand stateName.text).1 = .ok "\\Lib\\Enums\\State".toList ∧
      (e.expand (withMember stateName.text openMember)).1 =
        .ok "\\Lib\\Enums\\State::OPEN".toList := by
  intro e
  have hg : e.scope.isGeneric (withMember stateName.text openMember) = false := by decide +kernel
  have ha : e.scope.context.aliases.find? (withMember stateName.text openMember) = none := by
    decide +kernel
  have hr : (e.session.registry.knows stateName.text).1 = .ok false := by decide +kernel
  have hm : (e.session.registry.knows (withMember stateName.text openMember)).1 = .ok false := by
    decide +kernel
  obtain ⟨hclass, -, hlaw⟩ :=
    expand_withMember stateName openMember (fun _ => hg) (fun _ => ha) hr hm
  have hstate : (e.expand stateName.text).1 = .ok "\\Lib\\Enums\\State".toList := by
    rw [hclass]
    decide +kernel
  refine ⟨hg, ha, hr, hm, hstate, ?_⟩
  rw [hlaw (Or.inr ⟨by decide +kernel, rfl⟩), hstate]
  rfl

/-- The name for the class around it. -/
def selfName : ClassName := ⟨⟨["self".toList], by decide, by decide⟩, false⟩

/-- A constant. -/
def fooMember : PlainName := ⟨"FOO".toList, by decide⟩

/-- A reserved name is placed in the namespace with a member, and is kept without one. -/
theorem expand_withMember_self :
    let e := create (.create "App".toList .empty []) none .empty true false
    (∀ name, (e.session.registry.knows name).1 = .ok false) ∧
      (e.expand selfName.text).1 = .ok "self".toList ∧
      (e.expand (withMember selfName.text fooMember)).1 = .ok "\\App\\self::FOO".toList ∧
      (e.expand (withMember selfName.text fooMember)).1 ≠
        (e.expand selfName.text).1.map (withMember · fooMember) := by
  intro e
  have hclass : (e.expand selfName.text).1 = .ok "self".toList := by decide +kernel
  have hmember : (e.expand (withMember selfName.text fooMember)).1 =
      .ok "\\App\\self::FOO".toList := by decide +kernel
  refine ⟨fun _ => rfl, hclass, hmember, ?_⟩
  rw [hclass, hmember]
  decide

end Expander
end DocTypes
