/-
# What a search for a suffix finds

A pattern of a star and an ending without marks fits just the names with that ending
(`Glob.fits_star_ending`), and the search for it goes through all directories to their
entries (`suffixSearch?_eq`).

A walk finds what its steps lead to, each spot once (`Tree.mem_walk_iff`, `Tree.nodup_walk`).
It comes to its end unless a spot stands in its way (`Tree.exists_walk_iff`), and that is one
with a path that is too long (`Tree.walk_eq_error`). So the walk for a suffix finds all
entries with it at any depth, if it can look at each of them and at each directory
(`Tree.leads_ofSuffix_iff`, `Tree.ends_ofSuffix_iff`).

Key definitions: `PlainEnding`, `LastEndsIn`, `Tree.Leads`, `Tree.Ends`.
Key theorems: `Glob.fits_star_ending`, `Tree.mem_walk_iff`, `Tree.exists_walk_iff`,
`Tree.walk_eq_error`, `Tree.ends_ofSuffix_iff`, `Tree.leads_ofSuffix_iff`.
-/
import DocTypes.Proofs.Trees
import DocTypes.Registry
import Mathlib.Data.List.Basic

namespace DocTypes

/-! ### Patterns -/

/-- An ending that stands for itself in a search: no slash is in it, and no mark. -/
def PlainEnding (ending : Text) : Prop := ∀ c ∈ ending, c ≠ '/' ∧ Search.isMark c = false

instance (ending : Text) : Decidable (PlainEnding ending) := List.decidableBAll _ _

/-- Characters that are no marks stand for themselves. -/
theorem Glob.read_of_unmarked : ∀ {s : Text} {fuel : Nat},
    (∀ c ∈ s, Search.isMark c = false) → s.length ≤ fuel → Glob.read fuel s = s.map .exactly
  | [], fuel, _, _ => by cases fuel <;> rfl
  | c :: s, 0, _, h => absurd h (Nat.not_succ_le_zero _)
  | c :: s, fuel + 1, hs, h => by
    obtain ⟨hc, hs⟩ := List.forall_mem_cons.mp hs
    have hpart : Glob.readPart c s = (.exactly c, s) := by
      simp only [Search.isMark, Bool.or_eq_false_iff, beq_eq_false_iff_ne] at hc
      obtain ⟨⟨hstar, hone⟩, hset⟩ := hc
      rw [Glob.readPart, if_neg hstar, if_neg hone, if_neg hset]
    rw [Glob.read, hpart, List.map_cons]
    exact congrArg _ (Glob.read_of_unmarked hs (Nat.le_of_succ_le_succ h))

theorem Glob.fits_exactly : ∀ w s : Text, Glob.fits (w.map .exactly) s = true ↔ s = w
  | [], s => by simp [Glob.fits_nil]
  | c :: w, [] => by
    rw [List.map_cons, Glob.fits_cons_nil (by simp)]
    simp
  | c :: w, d :: s => by
    have ih := Glob.fits_exactly w s
    rw [List.map_cons, Glob.fits_cons_cons (by simp), Bool.and_eq_true, ih, List.cons.injEq]
    exact and_congr_left fun _ => beq_iff_eq.trans eq_comm

/-- A star stands for any text. -/
theorem Glob.fits_star_iff (g : Glob) : ∀ s : Text,
    Glob.fits (.star :: g) s = true ↔ ∃ t, t <:+ s ∧ Glob.fits g t = true
  | [] => by simp [Glob.fits_star_nil]
  | c :: s => by
    rw [Glob.fits_star_cons, Bool.or_eq_true, Glob.fits_star_iff g s]
    simp only [List.suffix_cons_iff]
    grind

/-- **A star and an ending fit the names with that ending.** -/
theorem Glob.fits_star_ending {ending : Text} (h : PlainEnding ending) (name : Text) :
    (Glob.ofText ('*' :: ending)).fits name = true ↔ ending <:+ name := by
  have hread : Glob.ofText ('*' :: ending) = .star :: ending.map .exactly := by
    rw [Glob.ofText, List.length_cons, Glob.read, Glob.readPart, if_pos rfl]
    simp only [Glob.read_of_unmarked (fun c hc => (h c hc).2) (Nat.le_refl _)]
  rw [hread, Glob.fits_star_iff]
  simp [Glob.fits_exactly]

/-- Without slashes and marks, a suffix is looked for in all directories. -/
theorem suffixSearch?_eq {suffix : Text} (h : PlainEnding suffix) :
    SourceIndex.suffixSearch? suffix =
      some [.anyDepth, .entries (Glob.ofText ('*' :: suffix))] := by
  have hpart : '/' ∉ '*' :: suffix :=
    List.not_mem_cons_of_ne_of_not_mem (by decide) fun hslash => (h '/' hslash).1 rfl
  have hcomponents : Path.components ('*' :: suffix) = ['*' :: suffix] := by
    rw [Path.components, Text.cutAll_of_not_mem hpart]
    simp
  have hstar : '*' ∉ suffix := fun hmark => absurd (h '*' hmark).2 (by decide)
  have htwo : ∀ s : Text, '*' ∉ s → Search.hasTwoStars s = false := by
    intro s
    fun_induction Search.hasTwoStars s <;> simp_all
  have hbeside : Search.hasTwoStars ('*' :: suffix) = false := by
    cases suffix with
    | nil => rfl
    | cons c s =>
      have hc : c ≠ '*' := fun e => hstar (e ▸ List.mem_cons_self)
      rw [Search.hasTwoStars]
      · exact htwo _ hstar
      · rintro s' - h
        exact hc (List.cons.inj h).1
  have hstep : Search.step? ('*' :: suffix) = some (.entries (Glob.ofText ('*' :: suffix))) := by
    have hne : '*' :: suffix ≠ ['*', '*'] := fun e => hstar (by simp [List.cons.inj e])
    rw [Search.step?, if_neg hne, hbeside]
    simp [Search.isMark]
  have hlast : ('*' :: suffix).getLast? ≠ some '/' := fun e => hpart (List.mem_of_getLast? e)
  rw [SourceIndex.suffixSearch?, Search.atAnyDepth?, hcomponents, if_neg hlast]
  simp [Search.steps?, hstep]

/-! ### Walks -/

section Results

variable {α β ε : Type} {f : α → Except ε β} {x : α} {l : List α} {ys : List β}

theorem mapM_cons_eq_ok_iff : (x :: l).mapM f = .ok ys ↔
    ∃ y zs, f x = .ok y ∧ l.mapM f = .ok zs ∧ ys = y :: zs := by
  rw [List.mapM_cons]
  cases f x with
  | error fault => simp [bind, Except.bind]
  | ok y =>
    cases l.mapM f with
    | error fault => simp [bind, Except.bind]
    | ok zs => simp [bind, Except.bind, pure, Except.pure, eq_comm]

theorem map_eq_ok_iff {r : Except ε α} {g : α → β} {y : β} :
    r.map g = .ok y ↔ ∃ x, r = .ok x ∧ g x = y := by
  cases r <;> simp [Except.map]

theorem map_eq_error_iff {r : Except ε α} {g : α → β} {fault : ε} :
    r.map g = .error fault ↔ r = .error fault := by
  cases r <;> simp [Except.map]

/-- A run over a list comes to its end when it does so at each element. -/
theorem exists_mapM_iff : (∃ ys, l.mapM f = .ok ys) ↔ ∀ x ∈ l, ∃ y, f x = .ok y := by
  induction l with
  | nil => exact iff_of_true ⟨[], rfl⟩ (by simp)
  | cons x l ih =>
    rw [List.forall_mem_cons, ← ih]
    simp only [mapM_cons_eq_ok_iff]
    constructor
    · rintro ⟨_, y, zs, hy, hzs, -⟩
      exact ⟨⟨y, hy⟩, zs, hzs⟩
    · rintro ⟨⟨y, hy⟩, zs, hzs⟩
      exact ⟨y :: zs, y, zs, hy, hzs, rfl⟩

theorem mem_of_mapM_eq_ok (h : l.mapM f = .ok ys) (y : β) : y ∈ ys ↔ ∃ x ∈ l, f x = .ok y := by
  induction l generalizing ys with
  | nil =>
    cases h
    simp
  | cons x l ih =>
    obtain ⟨z, zs, hz, hzs, rfl⟩ := mapM_cons_eq_ok_iff.mp h
    have hy : y = z ↔ f x = .ok y := by rw [hz, Except.ok.injEq, eq_comm]
    rw [List.mem_cons, ih hzs, List.exists_mem_cons_iff, hy]

/-- A run over a list fails as one of its elements does. -/
theorem exists_of_mapM_eq_error {fault : ε} (h : l.mapM f = .error fault) :
    ∃ x ∈ l, f x = .error fault := by
  induction l with
  | nil => cases h
  | cons x l ih =>
    rw [List.mapM_cons] at h
    rw [List.exists_mem_cons_iff]
    cases hx : f x with
    | error other =>
      rw [hx] at h
      exact Or.inl (congrArg Except.error (Except.error.inj h))
    | ok y =>
      rw [hx] at h
      cases hl : l.mapM f with
      | error other =>
        rw [hl] at h
        exact Or.inr (ih (hl.trans (congrArg Except.error (Except.error.inj h))))
      | ok zs =>
        rw [hl] at h
        cases h

end Results

/-- A list without repeats keeps one of each. -/
theorem nodup_eraseDups {α : Type} [BEq α] [LawfulBEq α] : ∀ l : List α, l.eraseDups.Nodup
  | [] => List.nodup_nil
  | x :: l => by
    rw [List.eraseDups_cons, List.nodup_cons]
    exact ⟨by simp, nodup_eraseDups (l.filter fun y => !y == x)⟩
termination_by l => l.length
decreasing_by exact Nat.lt_succ_of_le (List.length_filter_le _ _)

namespace Tree

variable (t : Tree) (listing : List (List Text × Entry)) (start : Path)

/-- The steps of a search lead from one spot to another. -/
def Leads : Search → Spot → Spot → Prop
  | [], s, s' => s' = s
  | step :: steps, s, s' =>
    ∃ reached, s.next t listing start step = .ok reached ∧ ∃ r ∈ reached, Leads steps r s'

/-- No spot that the steps of a search come to stands in the way of the walk. -/
def Ends : Search → Spot → Prop
  | [], s => s.look start = .ok ()
  | step :: steps, s =>
    ∃ reached, s.next t listing start step = .ok reached ∧ ∀ r ∈ reached, Ends steps r

variable {t listing start}

theorem walk_cons_eq_ok_iff {step : SearchStep} {steps : Search} {s : Spot} {found : List Spot} :
    t.walk listing start (step :: steps) s = .ok found ↔
      ∃ reached, s.next t listing start step = .ok reached ∧
        ∃ parts, reached.mapM (t.walk listing start steps) = .ok parts ∧
          found = parts.flatten.eraseDups := by
  rw [walk]
  cases s.next t listing start step with
  | error fault => simp
  | ok reached =>
    simp only [map_eq_ok_iff, Except.ok.injEq, exists_eq_left']
    exact exists_congr fun parts => and_congr_right fun _ => eq_comm

theorem walk_nil_eq_ok_iff {s : Spot} {found : List Spot} :
    t.walk listing start [] s = .ok found ↔ s.look start = .ok () ∧ found = [s] := by
  rw [walk, map_eq_ok_iff]
  constructor
  · rintro ⟨_, hlook, rfl⟩
    exact ⟨hlook, rfl⟩
  · rintro ⟨hlook, rfl⟩
    exact ⟨(), hlook, rfl⟩

/-- **A walk comes to its end** when no spot that it comes to stands in its way. -/
theorem exists_walk_iff : ∀ {steps : Search} {s : Spot},
    (∃ found, t.walk listing start steps s = .ok found) ↔ Ends t listing start steps s
  | [], s => by simp [walk_nil_eq_ok_iff, Ends]
  | step :: steps, s => by
    simp only [walk_cons_eq_ok_iff, Ends]
    constructor
    · rintro ⟨_, reached, hreached, parts, hparts, -⟩
      exact ⟨reached, hreached, fun r hr =>
        exists_walk_iff.mp (exists_mapM_iff.mp ⟨parts, hparts⟩ r hr)⟩
    · rintro ⟨reached, hreached, hends⟩
      obtain ⟨parts, hparts⟩ := exists_mapM_iff.mpr fun r hr => exists_walk_iff.mpr (hends r hr)
      exact ⟨_, reached, hreached, parts, hparts, rfl⟩

/-- **A walk finds what its steps lead to.** -/
theorem mem_walk_iff : ∀ {steps : Search} {s : Spot} {found : List Spot},
    t.walk listing start steps s = .ok found →
      ∀ s', s' ∈ found ↔ Leads t listing start steps s s'
  | [], s, found, h, s' => by
    obtain ⟨-, rfl⟩ := walk_nil_eq_ok_iff.mp h
    rw [List.mem_singleton, Leads]
  | step :: steps, s, found, h, s' => by
    obtain ⟨reached, hreached, parts, hparts, rfl⟩ := walk_cons_eq_ok_iff.mp h
    rw [List.mem_eraseDups, List.mem_flatten, Leads]
    constructor
    · rintro ⟨part, hpart, hs'⟩
      obtain ⟨r, hr, hwalk⟩ := (mem_of_mapM_eq_ok hparts part).mp hpart
      exact ⟨reached, hreached, r, hr, (mem_walk_iff hwalk s').mp hs'⟩
    · rintro ⟨reached', hreached', r, hr, hleads⟩
      obtain rfl : reached' = reached := Except.ok.inj (hreached'.symm.trans hreached)
      obtain ⟨part, hwalk⟩ := exists_mapM_iff.mp ⟨parts, hparts⟩ r hr
      exact ⟨part, (mem_of_mapM_eq_ok hparts part).mpr ⟨r, hr, hwalk⟩,
        (mem_walk_iff hwalk s').mpr hleads⟩

/-- A walk finds each spot once. -/
theorem nodup_walk {steps : Search} {s : Spot} {found : List Spot}
    (h : t.walk listing start steps s = .ok found) : found.Nodup := by
  cases steps with
  | nil =>
    obtain ⟨-, rfl⟩ := walk_nil_eq_ok_iff.mp h
    exact List.nodup_cons.mpr ⟨List.not_mem_nil, List.nodup_nil⟩
  | cons step steps =>
    obtain ⟨reached, -, parts, -, rfl⟩ := walk_cons_eq_ok_iff.mp h
    exact nodup_eraseDups _

/-- A look fails at a path that is too long. -/
theorem look_eq_error {s : Spot} {fault : ScanFault} (h : s.look start = .error fault) :
    fault = .badPath (start.append s.trail) .tooLong := by
  rw [Spot.look] at h
  split at h
  · exact (Except.error.inj h).symm
  · cases h

theorem next_eq_error {step : SearchStep} {s : Spot} {fault : ScanFault}
    (h : s.next t listing start step = .error fault) : ∃ q, fault = .badPath q .tooLong := by
  unfold Spot.next at h
  split at h
  · cases h
  · split at h
    · cases h
    · exact ⟨_, look_eq_error (map_eq_error_iff.mp h)⟩
    · simp only [Spot.named] at h
      split at h
      · cases h
      · exact ⟨_, (Except.error.inj h).symm⟩
      · cases h
    · cases h

/-- **A walk that does not come to its end** has come to a path that is too long. -/
theorem walk_eq_error : ∀ {steps : Search} {s : Spot} {fault : ScanFault},
    t.walk listing start steps s = .error fault → ∃ q, fault = .badPath q .tooLong
  | [], s, fault, h => by
    rw [walk, map_eq_error_iff] at h
    exact ⟨_, look_eq_error h⟩
  | step :: steps, s, fault, h => by
    rw [walk] at h
    split at h
    · next other hnext =>
      obtain rfl : other = fault := Except.error.inj h
      exact next_eq_error hnext
    · next reached hnext =>
      obtain ⟨r, -, hr⟩ := exists_of_mapM_eq_error (map_eq_error_iff.mp h)
      exact walk_eq_error hr

/-! ### Steps through a tree -/

theorem look_eq_ok_iff {s : Spot} : s.look start = .ok () ↔ (start.append s.trail).Short := by
  simp only [Spot.look, Path.Short]
  split
  · next h => simp [h]
  · next h => simp [Nat.le_of_not_lt h]

section Steps

variable {step : SearchStep} {steps : Search} {s s' : Spot} {reached : List Spot}

theorem leads_cons_iff (h : s.next t listing start step = .ok reached) :
    Leads t listing start (step :: steps) s s' ↔
      ∃ r ∈ reached, Leads t listing start steps r s' := by
  simp only [Leads, h, Except.ok.injEq, exists_eq_left']

theorem ends_cons_iff (h : s.next t listing start step = .ok reached) :
    Ends t listing start (step :: steps) s ↔ ∀ r ∈ reached, Ends t listing start steps r := by
  simp only [Ends, h, Except.ok.injEq, exists_eq_left']

variable {parts trail : List Text} {e : Entry} {pattern : Glob}

/-- At and below a place is what lies there, with the way to it. -/
theorem mem_below_iff : s' ∈ Spot.below ⟨parts, e, trail⟩ t.listing ↔
    ∃ rest below, t.entryAt? (parts ++ rest) = some below ∧
      s' = ⟨parts ++ rest, below, trail ++ rest⟩ := by
  unfold Spot.below
  rw [List.mem_filterMap]
  constructor
  · rintro ⟨⟨names, below⟩, hmem, h⟩
    obtain ⟨hp, h⟩ := Option.ite_none_right_eq_some.mp h
    obtain ⟨rest, rfl⟩ := List.isPrefixOf_iff_prefix.mp hp
    rw [List.drop_left] at h
    exact ⟨rest, below, mem_listing_iff.mp hmem, (Option.some.inj h).symm⟩
  · rintro ⟨rest, below, hbelow, rfl⟩
    refine ⟨(parts ++ rest, below), mem_listing_iff.mpr hbelow, ?_⟩
    simp [List.isPrefixOf_iff_prefix]

theorem isEntry_iff {place : List Text} {rest : List Text} :
    s.isEntry pattern ⟨place, e, s.trail ++ rest⟩ = true ↔
      ∃ name, rest = [name] ∧ pattern.fits name = true := by
  unfold Spot.isEntry
  rw [List.drop_left]
  match rest with
  | [] => simp
  | [name] => simp
  | _ :: _ :: _ => simp

/-- Any number of directories leads to each directory at or below a place. -/
theorem next_anyDepth (t : Tree) (start : Path) (parts trail : List Text) : ∃ reached,
    Spot.next t t.listing start .anyDepth ⟨parts, .directory, trail⟩ = .ok reached ∧
      ∀ s', s' ∈ reached ↔ ∃ rest, t.entryAt? (parts ++ rest) = some .directory ∧
        s' = ⟨parts ++ rest, .directory, trail ++ rest⟩ := by
  refine ⟨_, rfl, fun s' => ?_⟩
  rw [List.mem_filter, mem_below_iff]
  constructor
  · rintro ⟨⟨rest, below, hbelow, rfl⟩, hdir⟩
    cases below with
    | directory => exact ⟨rest, hbelow, rfl⟩
    | file bytes => cases hdir
  · rintro ⟨rest, hrest, rfl⟩
    exact ⟨⟨rest, .directory, hrest, rfl⟩, rfl⟩

/-- From a directory with a path that is not too long, a pattern leads to the entries whose
names fit. -/
theorem next_entries (h : (start.append trail).Short) : ∃ reached,
    Spot.next t t.listing start (.entries pattern) ⟨parts, .directory, trail⟩ =
        .ok reached ∧
      ∀ s', s' ∈ reached ↔ ∃ name e, pattern.fits name = true ∧
        t.entryAt? (parts ++ [name]) = some e ∧
          s' = ⟨parts ++ [name], e, trail ++ [name]⟩ := by
  refine ⟨_, map_eq_ok_iff.mpr ⟨(), look_eq_ok_iff.mpr h, rfl⟩, fun s' => ?_⟩
  rw [List.mem_filter, mem_below_iff]
  constructor
  · rintro ⟨⟨rest, e, he, rfl⟩, hentry⟩
    obtain ⟨name, rfl, hfits⟩ := isEntry_iff.mp hentry
    exact ⟨name, e, hfits, he, rfl⟩
  · rintro ⟨name, e, hfits, he, rfl⟩
    exact ⟨⟨[name], e, he, rfl⟩, isEntry_iff.mpr ⟨name, rfl, hfits⟩⟩

/-- A pattern looks at the directory that it leads from. -/
theorem Ends.short
    (h : Ends t listing start (.entries pattern :: steps) ⟨parts, .directory, trail⟩) :
    (start.append trail).Short := by
  obtain ⟨reached, hreached, -⟩ := h
  obtain ⟨_, hlook, -⟩ := map_eq_ok_iff.mp hreached
  exact look_eq_ok_iff.mp hlook

end Steps

/-! ### The files with an ending -/

end Tree

/-- The last name of a trail has an ending. -/
def LastEndsIn (ending : Text) (trail : List Text) : Prop :=
  ∃ name, trail.getLast? = some name ∧ ending <:+ name

instance (ending : Text) (trail : List Text) : Decidable (LastEndsIn ending trail) :=
  decidable_of_iff (∃ name ∈ trail.getLast?, ending <:+ name) Iff.rfl

namespace Tree

section Endings

variable {suffix : Text} {parts : List Text} {p : Path}

/-- The search for a suffix looks at all directories, and at all entries with the suffix. -/
theorem ends_ofSuffix_iff (hplain : PlainEnding suffix) :
    Ends t t.listing p [.anyDepth, .entries (Glob.ofText ('*' :: suffix))]
        ⟨parts, .directory, []⟩ ↔
      ∀ trail e, t.entryAt? (parts ++ trail) = some e →
        e = .directory ∨ LastEndsIn suffix trail → (p.append trail).Short := by
  obtain ⟨dirs, hdirs, hmem⟩ := next_anyDepth t p parts []
  rw [ends_cons_iff hdirs]
  constructor
  · -- an entry is looked at from the directory that holds it
    intro h trail e he hlooked
    have hof : ∀ init, t.entryAt? (parts ++ init) = some .directory →
        Ends t t.listing p [.entries (Glob.ofText ('*' :: suffix))]
          ⟨parts ++ init, .directory, init⟩ :=
      fun init hinit => h _ ((hmem _).mpr ⟨init, hinit, rfl⟩)
    rcases hlooked with rfl | ⟨name, hlast, hname⟩
    · exact (hof trail he).short
    · obtain ⟨init, rfl⟩ := List.getLast?_eq_some_iff.mp hlast
      rw [← List.append_assoc] at he
      have hends := hof init (entryAt?_of_append he (List.cons_ne_nil name []))
      obtain ⟨reached, hreached, hentries⟩ := next_entries hends.short
      rw [ends_cons_iff hreached] at hends
      exact look_eq_ok_iff.mp (hends _ ((hentries _).mpr
        ⟨name, e, (Glob.fits_star_ending hplain name).mpr hname, he, rfl⟩))
  · intro h r hr
    obtain ⟨init, hinit, rfl⟩ := (hmem r).mp hr
    obtain ⟨reached, hreached, hentries⟩ := next_entries (h init _ hinit (Or.inl rfl))
    refine (ends_cons_iff hreached).mpr fun r' hr' => ?_
    obtain ⟨name, e, hfits, he, rfl⟩ := (hentries r').mp hr'
    have hends : LastEndsIn suffix (init ++ [name]) :=
      ⟨name, List.getLast?_concat, (Glob.fits_star_ending hplain name).mp hfits⟩
    refine look_eq_ok_iff.mpr (h (init ++ [name]) e ?_ (Or.inr hends))
    rw [← List.append_assoc]
    exact he

/-- The search for a suffix leads to all that has it. -/
theorem leads_ofSuffix_iff (hplain : PlainEnding suffix)
    (hends : Ends t t.listing p [.anyDepth, .entries (Glob.ofText ('*' :: suffix))]
      ⟨parts, .directory, []⟩) (s : Spot) :
    Leads t t.listing p [.anyDepth, .entries (Glob.ofText ('*' :: suffix))]
        ⟨parts, .directory, []⟩ s ↔
      ∃ trail e, t.entryAt? (parts ++ trail) = some e ∧ LastEndsIn suffix trail ∧
        s = ⟨parts ++ trail, e, trail⟩ := by
  have hshort := (ends_ofSuffix_iff hplain).mp hends
  obtain ⟨dirs, hdirs, hmem⟩ := next_anyDepth t p parts []
  rw [leads_cons_iff hdirs]
  constructor
  · rintro ⟨r, hr, hleads⟩
    obtain ⟨init, hinit, rfl⟩ := (hmem r).mp hr
    obtain ⟨reached, hreached, hentries⟩ := next_entries (hshort init _ hinit (Or.inl rfl))
    obtain ⟨r', hr', rfl⟩ := (leads_cons_iff hreached).mp hleads
    obtain ⟨name, e, hfits, he, rfl⟩ := (hentries _).mp hr'
    rw [List.append_assoc] at he ⊢
    exact ⟨init ++ [name], e, he,
      ⟨name, List.getLast?_concat, (Glob.fits_star_ending hplain name).mp hfits⟩, rfl⟩
  · rintro ⟨trail, e, he, ⟨name, hlast, hname⟩, rfl⟩
    obtain ⟨init, rfl⟩ := List.getLast?_eq_some_iff.mp hlast
    rw [← List.append_assoc] at he ⊢
    have hinit := entryAt?_of_append he (List.cons_ne_nil name [])
    obtain ⟨reached, hreached, hentries⟩ := next_entries (hshort init _ hinit (Or.inl rfl))
    exact ⟨_, (hmem _).mpr ⟨init, hinit, rfl⟩, (leads_cons_iff hreached).mpr ⟨_, (hentries _).mpr
      ⟨name, e, (Glob.fits_star_ending hplain name).mpr hname, he, rfl⟩, rfl⟩⟩

end Endings

end Tree
end DocTypes
