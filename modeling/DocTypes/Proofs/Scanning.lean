/-
# What a scan of paths reads

The source files of a directory are the regular files at any depth below it whose names
have the suffix, in the strict order of their components; a file stands for itself, and
what leads nowhere for no file (`Tree.Scans`). A scan finds them if no path that it looks
at is longer than any entry's may be (`Tree.Within`, `Tree.sourceFiles_of_within`), and
otherwise it does not come to its end (`Tree.sourceFiles_of_not_within`).

All files that are found can be read. So an index built from paths has read the files
of one path after the other, has noted each path that leads nowhere and nothing else, and
knows the names that these files declare (`SourceIndex.build_scans`).

Key definitions: `Tree.Within`, `Tree.Scans`, `Tree.Finds`, `Event.isWarning`.
Key theorems: `Tree.sourceFiles_of_within`, `Tree.sourceFiles_of_not_within`,
`SourceIndex.addPath_of_within`, `SourceIndex.build_scans`.
-/
import DocTypes.Proofs.Searches
import DocTypes.Proofs.Sources

namespace DocTypes

namespace Tree

/-! ### The files of a path -/

/-- The scan of a path looks at no path that is longer than any entry's may be. It looks
at the path itself and, below a directory, at all directories and at the entries with the
suffix. -/
def Within (t : Tree) (suffix : Text) (p : Path) : Prop :=
  match t.locate p with
  | .ok (parts, .directory) => ∀ trail e, t.entryAt? (parts ++ trail) = some e →
      e = .directory ∨ LastEndsIn suffix trail → (p.append trail).Short
  | .ok (_, .file _) => True
  | .error fault => fault ≠ .tooLong

/-- These are the files that a path stands for. -/
def Scans (t : Tree) (suffix : Text) (p : Path) (files : List Path) : Prop :=
  match t.locate p with
  | .ok (parts, .directory) =>
      files.Pairwise (fun a b => a.parts < b.parts) ∧
        ∀ q, q ∈ files ↔ ∃ trail bytes, q = p.append trail ∧ LastEndsIn suffix trail ∧
          t.entryAt? (parts ++ trail) = some (.file bytes)
  | .ok (_, .file _) => files = [p]
  | .error _ => files = []

variable {t : Tree} {suffix : Text} {p : Path} {parts : List Text}

/-- What lies below a place is on the way to a file or a directory that the tree names. -/
theorem forall_below_iff {P : List Text → Entry → Prop} :
    (∀ trail e, t.entryAt? (parts ++ trail) = some e → P trail e) ↔
      ∀ whole ∈ t.home :: t.dirs ++ t.files.keys, ∀ names ∈ beginnings whole, parts <+: names →
        ∀ e ∈ t.entryAt? names, P (names.drop parts.length) e := by
  constructor
  · rintro h whole - names - ⟨trail, rfl⟩ e he
    rw [List.drop_left]
    exact h trail e he
  · intro h trail e he
    obtain ⟨whole, hwhole, hprefix⟩ := exists_prefix_of_entryAt? he
    have := h whole hwhole _ (mem_beginnings.mpr hprefix) (List.prefix_append parts trail) e he
    rwa [List.drop_left] at this

instance (t : Tree) (suffix : Text) (p : Path) : Decidable (t.Within suffix p) :=
  match h : t.locate p with
  | .ok (_, .directory) => decidable_of_iff _ (forall_below_iff.symm.trans (by rw [Within, h]))
  | .ok (_, .file _) => isTrue (by rw [Within, h]; trivial)
  | .error fault => decidable_of_iff (fault ≠ .tooLong) (by rw [Within, h])

/-- Different trails come in strict order when they are sorted. -/
theorem pairwise_sorted {trails : List (List Text)} (h : trails.Nodup) (p : Path) :
    ((trails.mergeSort Path.leParts).map p.append).Pairwise (fun a b => a.parts < b.parts) := by
  have htrans : ∀ a b c, Path.leParts a b = true → Path.leParts b c = true →
      Path.leParts a c = true := by
    simp only [Path.leParts, decide_eq_true_iff]
    exact fun a b c hab hbc => List.le_trans hab hbc
  have htotal : ∀ a b, (Path.leParts a b || Path.leParts b a) = true := by
    simp only [Path.leParts, Bool.or_eq_true, decide_eq_true_iff]
    exact fun a b => List.le_total a b
  have hsorted := List.pairwise_mergeSort htrans htotal trails
  have hnodup : (trails.mergeSort Path.leParts).Nodup :=
    (List.mergeSort_perm trails Path.leParts).nodup_iff.mpr h
  refine List.pairwise_map.mpr ((hsorted.and hnodup).imp ?_)
  rintro a b ⟨hle, hne⟩
  rw [Path.leParts, decide_eq_true_iff] at hle
  exact List.append_left_lt ((List.le_iff_lt_or_eq.mp hle).resolve_right hne)

/-- Below a directory, a search for a suffix that comes to its end finds the files of the
path. -/
theorem search_of_within (hplain : PlainEnding suffix)
    (hlocate : t.locate p = .ok (parts, .directory)) (hwithin : t.Within suffix p) :
    ∃ files, t.search [.anyDepth, .entries (Glob.ofText ('*' :: suffix))] p parts = .ok files ∧
      t.Scans suffix p files := by
  rw [Within, hlocate] at hwithin
  have hends := (ends_ofSuffix_iff hplain).mpr hwithin
  obtain ⟨found, hwalk⟩ := exists_walk_iff.mpr hends
  have hmem : ∀ s, s ∈ found ↔ ∃ trail e, t.entryAt? (parts ++ trail) = some e ∧
      LastEndsIn suffix trail ∧ s = ⟨parts ++ trail, e, trail⟩ :=
    fun s => (mem_walk_iff hwalk s).trans (leads_ofSuffix_iff hplain hends s)
  refine ⟨_, map_eq_ok_iff.mpr ⟨found, hwalk, rfl⟩, ?_⟩
  rw [Scans, hlocate]
  constructor
  · refine pairwise_sorted (List.Nodup.map_on ?_ ((nodup_walk hwalk).filter _)) p
    -- the place and the entry at the end of a trail are given by the trail
    intro s hs s' hs' htrail
    obtain ⟨trail, e, he, -, rfl⟩ := (hmem s).mp (List.mem_of_mem_filter hs)
    obtain ⟨trail', e', he', -, rfl⟩ := (hmem s').mp (List.mem_of_mem_filter hs')
    obtain rfl : trail = trail' := htrail
    obtain rfl : e = e' := Option.some.inj (he.symm.trans he')
    rfl
  · intro q
    simp only [List.mem_map, List.mem_mergeSort, List.mem_filter, hmem]
    constructor
    · rintro ⟨_, ⟨_, ⟨⟨trail, e, he, hlast, rfl⟩, hfile⟩, rfl⟩, rfl⟩
      cases e with
      | directory => cases hfile
      | file bytes => exact ⟨trail, bytes, rfl, hlast, he⟩
    · rintro ⟨trail, bytes, rfl, hlast, he⟩
      exact ⟨trail, ⟨_, ⟨⟨trail, _, he, hlast, rfl⟩, rfl⟩, rfl⟩, rfl⟩

/-- A scan answers the files of a path, or that it leads nowhere. -/
structure Finds (t : Tree) (suffix : Text) (p : Path) (files : List Path) : Prop where
  scans : t.Scans suffix p files
  answer : t.sourceFiles (SourceIndex.suffixSearch? suffix) p =
    .ok (if (t.locate p).isOk then some files else none)

/-- **A scan that looks at no path that is too long finds the files of a path.** -/
theorem sourceFiles_of_within (hplain : PlainEnding suffix) (h : t.Within suffix p) :
    ∃ files, t.Finds suffix p files := by
  have hsearch : SourceIndex.suffixSearch? suffix = _ := suffixSearch?_eq hplain
  cases hlocate : t.locate p with
  | error fault =>
    refine ⟨[], by rw [Scans, hlocate], ?_⟩
    rw [Within, hlocate] at h
    rw [sourceFiles, hlocate]
    cases fault <;> first | rfl | exact absurd rfl h
  | ok found =>
    obtain ⟨parts, e⟩ := found
    cases e with
    | file bytes => exact ⟨[p], by rw [Scans, hlocate], by rw [sourceFiles, hlocate]; rfl⟩
    | directory =>
      obtain ⟨files, hfiles, hscans⟩ := search_of_within hplain hlocate h
      refine ⟨files, hscans, ?_⟩
      rw [sourceFiles, hsearch, hlocate]
      exact map_eq_ok_iff.mpr ⟨files, hfiles, rfl⟩

/-- **A scan that looks at a path that is too long** does not come to its end. -/
theorem sourceFiles_of_not_within (hplain : PlainEnding suffix) (h : ¬ t.Within suffix p) :
    ∃ q, t.sourceFiles (SourceIndex.suffixSearch? suffix) p = .error (.badPath q .tooLong) := by
  have hsearch : SourceIndex.suffixSearch? suffix = _ := suffixSearch?_eq hplain
  rw [sourceFiles, hsearch]
  rw [Within] at h
  cases hlocate : t.locate p with
  | error fault =>
    rw [hlocate] at h
    obtain rfl : fault = .tooLong := not_not.mp h
    exact ⟨p, rfl⟩
  | ok found =>
    obtain ⟨parts, e⟩ := found
    rw [hlocate] at h
    cases e with
    | file bytes => exact absurd trivial h
    | directory =>
      cases hwalk : t.walk t.listing p [.anyDepth, .entries (Glob.ofText ('*' :: suffix))]
          ⟨parts, .directory, []⟩ with
      | ok found =>
        have hends := exists_walk_iff.mp ⟨found, hwalk⟩
        exact absurd ((ends_ofSuffix_iff hplain).mp hends) h
      | error fault =>
        obtain ⟨q, rfl⟩ := walk_eq_error hwalk
        exact ⟨q, map_eq_error_iff.mpr (map_eq_error_iff.mpr hwalk)⟩

/-- A file with the suffix that lies below a directory is one of the files of its path. -/
theorem Scans.mem {files : List Path} {trail : List Text} {bytes : List UInt8}
    (h : t.Scans suffix p files) (hlocate : t.locate p = .ok (parts, .directory))
    (hlast : LastEndsIn suffix trail) (he : t.entryAt? (parts ++ trail) = some (.file bytes)) :
    p.append trail ∈ files := by
  rw [Scans, hlocate] at h
  exact (h.2 _).mpr ⟨trail, bytes, rfl, hlast, he⟩

/-- The files of a path can be read. -/
theorem Scans.exists_read {files : List Path} (ht : t.Named) (hwithin : t.Within suffix p)
    (h : t.Scans suffix p files) : ∀ q ∈ files, ∃ bytes, t.read q = .ok bytes := by
  intro q hq
  rw [Scans] at h
  rw [Within] at hwithin
  split at h
  · next parts hlocate =>
    rw [hlocate] at hwithin
    obtain ⟨trail, bytes, rfl, hlast, he⟩ := (h.2 q).mp hq
    have hnames : ∀ name ∈ trail, IsEntryName name := fun name hname =>
      ht.isEntryName he name (List.mem_append_right parts hname)
    refine ⟨bytes, ?_⟩
    rw [read, locate_append hlocate hnames he (hwithin trail _ he (Or.inr hlast))]
  · next place bytes hlocate =>
    subst h
    obtain rfl := List.mem_singleton.mp hq
    exact ⟨bytes, by rw [read, hlocate]⟩
  · subst h
    cases hq

end Tree

/-! ### Indexes -/

/-- Whether an event is written to the log as a warning. -/
def Event.isWarning (e : Event) : Bool := e.record?.any fun record => record.level = .warning

namespace SourceIndex

variable {t : Tree} {suffix : Text}

/-- Files that can be read are added without a warning. -/
theorem addFiles_of_read : ∀ {files : List Path} (x : SourceIndex),
    (∀ q ∈ files, ∃ bytes, t.read q = .ok bytes) →
      ∃ events, x.addFiles t files = (.ok (), events, x.after (files.map (.addFile t))) ∧
        events.filter Event.isWarning = []
  | [], x, _ => ⟨[], rfl, rfl⟩
  | q :: files, x, h => by
    obtain ⟨⟨bytes, hread⟩, hfiles⟩ := List.forall_mem_cons.mp h
    obtain ⟨events, hadded, hevents⟩ := addFiles_of_read (x.step (.addFile t q)) hfiles
    have hadd : x.addFile t q = (.ok (declaredTypes (fileText bytes)).length,
        [.scannedFile (declaredTypes (fileText bytes)).length q], x.step (.addFile t q)) := by
      rw [step, addFile_of_ok hread]
    refine ⟨.scannedFile (declaredTypes (fileText bytes)).length q :: events, ?_, hevents⟩
    rw [addFiles, hadd]
    simp only [hadded]
    rfl

variable {p : Path}

/-- The sources of a path are added with a warning just when it leads nowhere. -/
theorem addPath_of_within (ht : t.Named) (hwithin : t.Within suffix p) {files : List Path}
    (hfiles : t.Finds suffix p files) (x : SourceIndex) :
    ∃ events, x.addPath t (suffixSearch? suffix) p =
        (.ok (), events, x.after (files.map (.addFile t))) ∧
      events.filter Event.isWarning = if (t.locate p).isOk then [] else [.noSuchPath p] := by
  obtain ⟨hscans, hsource⟩ := hfiles
  by_cases hlocate : (t.locate p).isOk = true
  · rw [if_pos hlocate] at hsource ⊢
    rw [addPath, hsource]
    exact addFiles_of_read x (hscans.exists_read ht hwithin)
  · have hnone : files = [] := by
      rw [Tree.Scans] at hscans
      cases h : t.locate p with
      | error fault => rwa [h] at hscans
      | ok found =>
        rw [h] at hlocate
        exact absurd rfl hlocate
    rw [if_neg hlocate] at hsource ⊢
    rw [addPath, hsource, hnone]
    exact ⟨[.noSuchPath p], rfl, rfl⟩

/-- Paths are added one after the other, with the files of each. -/
theorem addPaths_of_within (ht : t.Named) {files : Path → List Path}
    (hfiles : ∀ p, t.Within suffix p → t.Finds suffix p (files p)) :
    ∀ {paths : List Path} (x : SourceIndex), (∀ p ∈ paths, t.Within suffix p) →
      ∃ events, x.addPaths t (suffixSearch? suffix) paths =
          (.ok (), events, x.after ((paths.flatMap files).map (.addFile t))) ∧
        events.filter Event.isWarning =
          (paths.filter fun p => !(t.locate p).isOk).map .noSuchPath
  | [], x, _ => ⟨[], rfl, rfl⟩
  | p :: paths, x, h => by
    obtain ⟨hp, hpaths⟩ := List.forall_mem_cons.mp h
    obtain ⟨events, hadd, hevents⟩ := addPath_of_within ht hp (hfiles p hp) x
    obtain ⟨more, hmore, hwarnings⟩ :=
      addPaths_of_within ht hfiles (x.after ((files p).map (.addFile t))) hpaths
    refine ⟨events ++ more, ?_, ?_⟩
    · rw [addPaths, hadd]
      simp only [hmore]
      rw [List.flatMap_cons, List.map_append, after_append]
    · rw [List.filter_append, hevents, hwarnings, List.filter_cons]
      cases (t.locate p).isOk <;> rfl

/-- A path that a scan cannot be carried out for ends it. -/
theorem addPaths_of_not_within (ht : t.Named) (hplain : PlainEnding suffix) :
    ∀ {paths : List Path} (x : SourceIndex), (∃ p ∈ paths, ¬ t.Within suffix p) →
      ∃ q, (x.addPaths t (suffixSearch? suffix) paths).1 = .error (.badPath q .tooLong)
  | [], x, h => by simp at h
  | p :: paths, x, h => by
    by_cases hp : t.Within suffix p
    · have hrest : ∃ p ∈ paths, ¬ t.Within suffix p :=
        ((List.exists_mem_cons_iff _ p paths).mp h).resolve_left fun hnot => hnot hp
      obtain ⟨files, hfiles⟩ := Tree.sourceFiles_of_within hplain hp
      obtain ⟨events, hadd, -⟩ := addPath_of_within ht hp hfiles x
      rw [addPaths, hadd]
      exact addPaths_of_not_within ht hplain _ hrest
    · obtain ⟨q, hq⟩ := Tree.sourceFiles_of_not_within hplain hp
      have hadd : x.addPath t (suffixSearch? suffix) p = (.error (.badPath q .tooLong), [], x) := by
        rw [addPath, hq]
      rw [addPaths, hadd]
      exact ⟨q, rfl⟩

/-- The names of files that can be read are known. -/
theorem has_after_files (caseSensitive : Bool) {files : List Path} (name : Text) :
    ((new caseSensitive).after (files.map (.addFile t))).names.has name = true ↔
      ∃ q ∈ files, ∃ bytes, t.read q = .ok bytes ∧ ∃ known ∈ declaredTypes (fileText bytes),
        lookupKey caseSensitive name = lookupKey caseSensitive known := by
  have hgiven : ∀ q known, known ∈ SourceStep.given (.addFile t q) ↔
      ∃ bytes, t.read q = .ok bytes ∧ known ∈ declaredTypes (fileText bytes) := by
    intro q known
    cases h : t.read q <;> simp [SourceStep.given, Tree.text?, h, Except.toOption]
  rw [has_after]
  simp only [List.mem_flatMap, List.mem_map]
  constructor
  · rintro ⟨known, ⟨_, ⟨q, hq, rfl⟩, hknown⟩, hkey⟩
    obtain ⟨bytes, hread, hknown⟩ := (hgiven q known).mp hknown
    exact ⟨q, hq, bytes, hread, known, hknown, hkey⟩
  · rintro ⟨q, hq, bytes, hread, known, hknown, hkey⟩
    exact ⟨known, ⟨_, ⟨q, hq, rfl⟩, (hgiven q known).mpr ⟨bytes, hread, hknown⟩⟩, hkey⟩

/-- **A scan of paths** reads the files of one path after the other: for a directory all
regular files at any depth below it with the suffix, each once and in strict order, for a
file that file, and for what leads nowhere no file, with one warning. The names known are
then those that the files declare, whatever the order of the paths and however often
each is given. Only a path that is too long ends the scan. -/
theorem build_scans (ht : t.Named) (hplain : PlainEnding suffix) (paths : List Path)
    (caseSensitive : Bool) :
    let built := build t paths suffix caseSensitive
    let x := built.2.2
    ((∀ p ∈ paths, t.Within suffix p) →
      built.1 = .ok () ∧
      (∃ files : Path → List Path, (∀ p ∈ paths, t.Scans suffix p (files p)) ∧
        x.scanned = paths.flatMap files) ∧
      built.2.1.filter Event.isWarning =
        (paths.filter fun p => !(t.locate p).isOk).map .noSuchPath ∧
      (∀ name, x.names.has name = true ↔ ∃ q ∈ x.scanned, ∃ bytes, t.read q = .ok bytes ∧
        ∃ known ∈ declaredTypes (fileText bytes),
          lookupKey caseSensitive name = lookupKey caseSensitive known) ∧
      ∀ others, (∀ p, p ∈ others ↔ p ∈ paths) → ∀ name,
        (build t others suffix caseSensitive).2.2.names.has name = x.names.has name) ∧
    ((∃ p ∈ paths, ¬ t.Within suffix p) → ∃ q, built.1 = .error (.badPath q .tooLong)) := by
  intro built x
  refine ⟨fun hwithin => ?_, addPaths_of_not_within ht hplain (new caseSensitive)⟩
  choose! files hfiles using fun p (h : t.Within suffix p) => Tree.sourceFiles_of_within hplain h
  have hbuild : ∀ sources : List Path, (∀ p ∈ sources, t.Within suffix p) → ∃ events,
      build t sources suffix caseSensitive =
          (.ok (), events, (new caseSensitive).after ((sources.flatMap files).map (.addFile t))) ∧
        events.filter Event.isWarning =
          (sources.filter fun p => !(t.locate p).isOk).map .noSuchPath :=
    fun sources => addPaths_of_within ht hfiles (new caseSensitive)
  obtain ⟨events, hbuilt, hevents⟩ := hbuild paths hwithin
  have hread : ∀ q ∈ paths.flatMap files, ∃ bytes, t.read q = .ok bytes := by
    intro q hq
    obtain ⟨p, hp, hq⟩ := List.mem_flatMap.mp hq
    exact (hfiles p (hwithin p hp)).scans.exists_read ht (hwithin p hp) q hq
  have hx : x = (new caseSensitive).after ((paths.flatMap files).map (.addFile t)) :=
    congrArg (·.2.2) hbuilt
  have hscanned : x.scanned = paths.flatMap files :=
    Reads.scanned_eq (x := new caseSensitive) ⟨hread, hx⟩
  have hscans : ∀ p ∈ paths, t.Scans suffix p (files p) := fun p hp =>
    (hfiles p (hwithin p hp)).scans
  refine ⟨congrArg (·.1) hbuilt, ⟨files, hscans, hscanned⟩, ?_, ?_, ?_⟩
  · exact (congrArg (fun built => built.2.1.filter Event.isWarning) hbuilt).trans hevents
  · intro name
    rw [hscanned, hx]
    exact has_after_files caseSensitive name
  · intro others hothers name
    obtain ⟨events', hbuilt', -⟩ := hbuild others fun p hp => hwithin p ((hothers p).mp hp)
    rw [Bool.eq_iff_iff, hbuilt', hx, has_after_files, has_after_files]
    simp only [List.mem_flatMap, hothers]

/-- Sources at two depths below the working directory, one of them hidden, a source
beside it, and a file without the suffix. -/
def site : Tree where
  home := ["srv", "shop"].map String.toList
  files := .ofList
    [(["srv", "shop", "lib", "Post.php"].map String.toList, "class Post {}".toUTF8.toList),
      (["srv", "shop", "lib", ".cache", "Tag.php"].map String.toList, "enum Tag {}".toUTF8.toList),
      (["srv", "shop", "readme.md"].map String.toList, []),
      (["srv", "shared", "Money.php"].map String.toList, "class Money {}".toUTF8.toList)]

/-- A scan of a directory, twice, of a file, of a path that leads nowhere, and of two
directories from which others are reached by two dots or from the root. -/
theorem build_scans_site :
    let paths := ["lib", "readme.md", "missing", "/srv/../srv", "../shared", "lib"].map fun path =>
      Path.ofText path.toList
    let built := build site paths ".php".toList false
    site.Named ∧ PlainEnding ".php".toList ∧ (∀ p ∈ paths, site.Within ".php".toList p) ∧
      built.1 = .ok () ∧
      (∃ files : Path → List Path, (∀ p ∈ paths, site.Scans ".php".toList p (files p)) ∧
        built.2.2.scanned = paths.flatMap files) ∧
      Path.ofText "../shared/Money.php".toList ∈ built.2.2.scanned ∧
      Path.ofText "/srv/../srv/shop/lib/.cache/Tag.php".toList ∈ built.2.2.scanned ∧
      built.2.1.filter Event.isWarning = [.noSuchPath (Path.ofText "missing".toList)] := by
  intro paths built
  have hnamed : site.Named := by decide +kernel
  have hplain : PlainEnding ".php".toList := by decide +kernel
  have hwithin : ∀ p ∈ paths, site.Within ".php".toList p := by decide +kernel
  obtain ⟨hok, ⟨files, hscans, hscanned⟩, hwarnings, -⟩ :=
    (build_scans hnamed hplain paths false).1 hwithin
  -- two dots lead up to what lies beside the working directory, and a root leads down to it
  have hshared : site.locate (.ofText "../shared".toList) =
      .ok (["srv", "shared"].map String.toList, .directory) := by decide +kernel
  have hmoney : site.entryAt? (["srv", "shared"].map String.toList ++ ["Money.php".toList]) =
      some (.file "class Money {}".toUTF8.toList) := by decide +kernel
  have hroot : site.locate (.ofText "/srv/../srv".toList) =
      .ok (["srv".toList], .directory) := by decide +kernel
  have htag : site.entryAt? (["srv".toList] ++
      ["shop", "lib", ".cache", "Tag.php"].map String.toList) =
        some (.file "enum Tag {}".toUTF8.toList) := by decide +kernel
  refine ⟨hnamed, hplain, hwithin, hok, ⟨files, hscans, hscanned⟩, ?_, ?_, hwarnings.trans ?_⟩
  · rw [hscanned]
    exact List.mem_flatMap.mpr ⟨.ofText "../shared".toList, by decide +kernel,
      (hscans _ (by decide +kernel)).mem hshared (by decide +kernel) hmoney⟩
  · rw [hscanned]
    exact List.mem_flatMap.mpr ⟨.ofText "/srv/../srv".toList, by decide +kernel,
      (hscans _ (by decide +kernel)).mem hroot (by decide +kernel) htag⟩
  · decide +kernel

/-- A path whose name is too long ends the scan: it is not passed over with a warning, as
other paths that lead nowhere are. -/
theorem build_longName :
    let path := Path.ofText (List.replicate 256 'x')
    Tree.Named {} ∧ PlainEnding ".php".toList ∧ (Tree.read {} path).isOk = false ∧
      build {} [path] ".php".toList false = (.error (.badPath path .tooLong), [], new false) := by
  decide +kernel

end SourceIndex
end DocTypes
