import Mathlib.Data.List.Flatten
import ImportTidy.Proofs.Walks

/-!
# The files that a scan finds

A scan goes through the tree below a root and leaves out whole directories on the way.  Path by
path, a file is wanted if it is no directory and has an extension that is read, and if neither
it nor a directory between the root and it is passed over (`Scanner.Wanted`).

The two agree.  A scan picks the files among the entries of a walk (`Scanner.filesIn_eq`).  So
below a root that is a directory it finds each wanted file once, and any other walk meets the same
files (`Scanner.finds_filesIn`).

A root that is no directory is found as it is.  A root that is a link to a directory can be found
too, in front of what is below it, since the link counts as an entry that is no directory.  A
filter that passes over more finds less (`Scanner.sublist_filesOfRoot`).
`Scanner.sourceFiles_wanted` says all of this, and `Scanner.not_only_wanted` is such a link.
-/

namespace ImportTidy

namespace Scanner

open ImportTidy.Path (entry)

variable {f f' : FileFilter} {root start p : Path} {n directory : Node}
  {entries : List (RawText × Node)} {names : List RawText} {visited : List (List RawText)}

/-! ## The files among the entries -/

/-- The files that are read among the entries of a walk. -/
def filesAmong (f : FileFilter) (start : Path) (n : Node) (visited : List (List RawText)) :
    List Path :=
  (visited.filter fun names => (n.get? names).any (!·.isDirectory) &&
    f.readsExtension (names.foldl entry start)).map fun names => names.foldl entry start

theorem filesIn_eq_flatMap (f : FileFilter) (root directory : Path)
    (entries : List (RawText × Node)) :
    filesIn f root directory entries =
      entries.flatMap fun e => filesOf f root (entry directory e.1) e.2 := by
  induction entries with
  | nil => rw [filesIn, List.flatMap_nil]
  | cons e entries ih => rw [filesIn, ih, List.flatMap_cons]

theorem filesOf_of_not_directory (noDirectory : n.isDirectory = false) :
    filesOf f root start n =
      if !f.ignores root start false && f.readsExtension start then [start] else [] := by
  cases n with
  | directory entries => cases noDirectory
  | file bytes => rw [filesOf]; nofun
  | link target => rw [filesOf]; nofun

theorem filesAmong_map_cons (distinct : (entries.map (·.1)).Nodup) {e : RawText × Node}
    (mem : e ∈ entries) (visited : List (List RawText)) :
    filesAmong f start (.directory entries) (visited.map (e.1 :: ·)) =
      filesAmong f (entry start e.1) e.2 visited := by
  have found := (Node.isEntry_iff_mem distinct).mpr mem
  have below : ∀ names, Node.get? (e.1 :: names) (.directory entries) = e.2.get? names := by
    intro names
    rw [Node.get?, found]
    rfl
  rw [filesAmong, filesAmong, List.filter_map, List.map_map]
  simp only [Function.comp_def, below, List.foldl_cons]

theorem filesIn_eq_of (distinct : (entries.map (·.1)).Nodup)
    (each : ∀ e ∈ entries, filesOf f root (entry start e.1) e.2 =
      filesAmong f (entry start e.1) e.2 (visitsOf f root (entry start e.1) e.2)) :
    filesIn f root start entries =
      filesAmong f start (.directory entries) (visitsIn f root start entries) := by
  have among : filesAmong f start (.directory entries) (visitsIn f root start entries) =
      entries.flatMap fun e => filesAmong f start (.directory entries)
        ((visitsOf f root (entry start e.1) e.2).map (e.1 :: ·)) := by
    rw [visitsIn_eq, filesAmong, List.filter_flatMap, List.map_flatMap]
    rfl
  rw [among, filesIn_eq_flatMap]
  refine List.flatMap_congr fun e mem => ?_
  rw [filesAmong_map_cons distinct mem, each e mem]

theorem filesOf_eq_of_not_directory (noDirectory : n.isDirectory = false) :
    filesOf f root start n = filesAmong f start n (visitsOf f root start n) := by
  have itself : n.get? [] = some n := rfl
  rw [filesOf_of_not_directory noDirectory, visitsOf_of_not_directory noDirectory, filesAmong]
  cases f.ignores root start false with
  | true => rfl
  | false => cases reads : f.readsExtension start <;> simp [itself, noDirectory, reads]

/-- The scan of an entry picks the files of a walk. -/
theorem filesOf_eq (wellNamed : n.WellNamed) :
    filesOf f root start n = filesAmong f start n (visitsOf f root start n) := by
  induction wellNamed generalizing start with
  | file bytes => exact filesOf_eq_of_not_directory rfl
  | link target => exact filesOf_eq_of_not_directory rfl
  | directory distinct areNames inner ih =>
    rw [filesOf, visitsOf]
    split
    next => rfl
    next => exact filesIn_eq_of distinct fun e mem => ih e mem

theorem filesIn_eq (wellNamed : (Node.directory entries).WellNamed) :
    filesIn f root root entries =
      filesAmong f root (.directory entries) (visitsIn f root root entries) := by
  cases wellNamed with
  | directory distinct areNames inner =>
    exact filesIn_eq_of distinct fun e mem => filesOf_eq (inner e mem)

/-! ## Wanted files -/

/-- The names lead from a root to a file that a scan below it wants: no directory, with an
extension that is read, and neither it nor a directory between the root and it is passed over. -/
structure Wanted (f : FileFilter) (root : Path) (directory : Node) (names : List RawText) :
    Prop where
  isFile : ∃ m, directory.get? names = some m ∧ m.isDirectory = false
  reads : f.readsExtension (names.foldl entry root) = true
  kept : f.ignores root (names.foldl entry root) false = false
  inKept : ∀ front, front <+: names → front ≠ [] → front ≠ names →
    f.ignores root (front.foldl entry root) true = false

theorem Wanted.areNames (wanted : Wanted f root directory names)
    (wellNamed : directory.WellNamed) : ∀ name ∈ names, Path.IsEntryName name := by
  obtain ⟨m, found, -⟩ := wanted.isFile
  exact (wellNamed.of_get? found).2

theorem wanted_iff (isDirectory : directory.isDirectory = true) :
    Wanted f root directory names ↔ Visited f root root directory names ∧
      ((directory.get? names).any (!·.isDirectory) &&
        f.readsExtension (names.foldl entry root)) = true := by
  rw [Bool.and_eq_true]
  constructor
  · rintro ⟨⟨m, found, noDirectory⟩, reads, kept, inKept⟩
    refine ⟨⟨?_, ⟨m, found, by rwa [noDirectory]⟩, inKept⟩, ?_, reads⟩
    · rintro rfl
      cases found
      rw [isDirectory] at noDirectory
      cases noDirectory
    · rw [found, Option.any_some, noDirectory]
      rfl
  · rintro ⟨⟨-, ⟨m, found, kept⟩, inKept⟩, noDirectory, reads⟩
    rw [found, Option.any_some, Bool.not_eq_true'] at noDirectory
    rw [noDirectory] at kept
    exact ⟨⟨m, found, noDirectory⟩, reads, kept, inKept⟩

/-- These are the wanted files below a directory, each once.  Every walk meets them. -/
structure Finds (f : FileFilter) (root : Path) (directory : Node) (found : List Path) : Prop where
  nodup : found.Nodup
  mem_iff : ∀ p, p ∈ found ↔ ∃ names, Wanted f root directory names ∧ names.foldl entry root = p
  unique : ∀ names names', Wanted f root directory names → Wanted f root directory names' →
    names.foldl entry root = names'.foldl entry root → names = names'
  perm : ∀ visited, IsWalk f root directory visited →
    (filesAmong f root directory visited).Perm found

theorem IsWalk.mem_filesAmong (isWalk : IsWalk f root directory visited)
    (isDirectory : directory.isDirectory = true) :
    p ∈ filesAmong f root directory visited ↔
      ∃ names, Wanted f root directory names ∧ names.foldl entry root = p := by
  rw [filesAmong, List.mem_map]
  refine exists_congr fun names => and_congr_left fun _ => ?_
  rw [List.mem_filter, isWalk.mem_iff, wanted_iff isDirectory]

theorem IsWalk.nodup_filesAmong (isWalk : IsWalk f root directory visited)
    (wellNamed : directory.WellNamed) : (filesAmong f root directory visited).Nodup := by
  refine (isWalk.nodup.filter _).map_on fun names mem names' mem' same => ?_
  obtain ⟨m, found, -⟩ := ((isWalk.mem_iff names).mp (List.mem_of_mem_filter mem)).kept
  obtain ⟨m', found', -⟩ := ((isWalk.mem_iff names').mp (List.mem_of_mem_filter mem')).kept
  exact Path.foldl_entry_inj (wellNamed.of_get? found).2 (wellNamed.of_get? found').2 same

/-- Below a directory a scan finds the wanted files. -/
theorem finds_filesIn (wellNamed : (Node.directory entries).WellNamed) :
    Finds f root (.directory entries) (filesIn f root root entries) := by
  have isWalk : IsWalk f root (.directory entries) (visitsIn f root root entries) :=
    isWalk_visitsIn wellNamed
  rw [filesIn_eq wellNamed]
  refine ⟨isWalk.nodup_filesAmong wellNamed, fun p => isWalk.mem_filesAmong rfl,
    fun names names' wanted wanted' => ?_, fun visited other => ?_⟩
  · exact Path.foldl_entry_inj (wanted.areNames wellNamed) (wanted'.areNames wellNamed)
  · -- Walks visit the same entries, so they differ in the order only.
    have same : visited.Perm (visitsIn f root root entries) :=
      (List.perm_ext_iff_of_nodup other.nodup isWalk.nodup).mpr fun names =>
        (other.mem_iff names).trans (isWalk.mem_iff names).symm
    exact (same.filter _).map _

/-! ## Roots -/

/-- The root is a link, and its own name has an extension that is read. -/
def IsReadLink (t : FileTree) (f : FileFilter) (root : Path) : Prop :=
  (∃ target, t.find root = .ok (.link target)) ∧ f.readsExtension root = true

theorem filesOfRoot_of_not_directory {t : FileTree} (noDirectory : t.isDirectory root = false) :
    filesOfRoot t f root = [root] := by
  rw [filesOfRoot]
  split
  next entries found =>
    rw [FileTree.isDirectory, found] at noDirectory
    cases noDirectory
  next => rfl

/-- Below a root that is a directory a scan finds the wanted files, and in front of them a root
that is a link to it and looks like a file that is read. -/
theorem filesOfRoot_of_directory {t : FileTree} (wellNamed : t.root.WellNamed)
    (resolves : t.resolve root = .ok directory) (isDirectory : directory.isDirectory = true) :
    ∃ found, Finds f root directory found ∧
      (IsReadLink t f root → filesOfRoot t f root = root :: found) ∧
      (¬ IsReadLink t f root → filesOfRoot t f root = found) := by
  have inner := FileTree.wellNamed_resolve wellNamed resolves
  cases directory with
  | file bytes => cases isDirectory
  | link target => cases isDirectory
  | directory entries =>
    refine ⟨_, finds_filesIn inner, ?_, ?_⟩
    · rintro ⟨⟨target, isLink⟩, reads⟩
      rw [filesOfRoot, resolves]
      simp only [isLink, reads, if_true, List.singleton_append]
    · intro other
      rw [filesOfRoot, resolves]
      dsimp only
      split
      next target isLink =>
        rw [if_neg fun reads => other ⟨⟨target, isLink⟩, reads⟩, List.nil_append]
      next => rfl

/-! ## Passing over more -/

/-- The second filter passes over what the first one does, and reads the same extensions. -/
structure PassesOverMore (f f' : FileFilter) : Prop where
  ignores : ∀ root p isDirectory, f.ignores root p isDirectory = true →
    f'.ignores root p isDirectory = true
  extensions : f'.extensions = f.extensions

theorem PassesOverMore.readsExtension (more : PassesOverMore f f') (p : Path) :
    f'.readsExtension p = f.readsExtension p := by
  rw [FileFilter.readsExtension, more.extensions, FileFilter.readsExtension]

theorem sublist_filesOf_of_not_directory (more : PassesOverMore f f')
    (noDirectory : n.isDirectory = false) :
    (filesOf f' root start n).Sublist (filesOf f root start n) := by
  rw [filesOf_of_not_directory noDirectory, filesOf_of_not_directory noDirectory,
    more.readsExtension]
  cases ignored : f.ignores root start false with
  | true => rw [more.ignores _ _ _ ignored]
  | false =>
    cases f'.ignores root start false with
    | true => exact List.nil_sublist _
    | false => exact .refl _

mutual

theorem sublist_filesOf (more : PassesOverMore f f') (start : Path) :
    ∀ n, (filesOf f' root start n).Sublist (filesOf f root start n)
  | .file _ => sublist_filesOf_of_not_directory more rfl
  | .link _ => sublist_filesOf_of_not_directory more rfl
  | .directory entries => by
    rw [filesOf, filesOf]
    cases ignored : f.ignores root start true with
    | true =>
      rw [more.ignores _ _ _ ignored]
      exact .refl _
    | false =>
      cases f'.ignores root start true with
      | true => exact List.nil_sublist _
      | false => exact sublist_filesIn more start entries

theorem sublist_filesIn (more : PassesOverMore f f') (start : Path) :
    ∀ entries, (filesIn f' root start entries).Sublist (filesIn f root start entries)
  | [] => .refl _
  | (name, n) :: entries => by
    rw [filesIn, filesIn]
    exact (sublist_filesOf more (entry start name) n).append (sublist_filesIn more start entries)

end

/-- A filter that passes over more finds less. -/
theorem sublist_filesOfRoot (more : PassesOverMore f f') (t : FileTree) (root : Path) :
    (filesOfRoot t f' root).Sublist (filesOfRoot t f root) := by
  rw [filesOfRoot, filesOfRoot]
  split
  next entries _ =>
    simp only [more.readsExtension]
    exact (List.Sublist.refl _).append (sublist_filesIn more root entries)
  next => exact .refl _

end Scanner

namespace FileFilter

variable {texts texts' : List String} {globs globs' : List Glob} {t : FileTree}
  {s : ScanSettings}

theorem parse_of_globsOf (h : globsOf texts = .ok globs) :
    ∀ text ∈ texts, ∃ glob ∈ globs, Glob.parse text = .ok glob := by
  induction texts generalizing globs with
  | nil => exact nofun
  | cons text texts ih =>
    rw [globsOf] at h
    split at h
    next => cases h
    next glob parsed =>
      cases rest : globsOf texts with
      | error fault =>
        rw [rest] at h
        cases h
      | ok others =>
        rw [rest] at h
        cases h
        refine List.forall_mem_cons.mpr ⟨⟨glob, List.mem_cons_self, parsed⟩, fun text mem => ?_⟩
        obtain ⟨other, inOthers, parsed⟩ := ih rest text mem
        exact ⟨other, List.mem_cons_of_mem _ inOthers, parsed⟩

theorem globsOf_of_parse (each : ∀ text ∈ texts, ∃ glob ∈ globs', Glob.parse text = .ok glob) :
    ∃ globs, globsOf texts = .ok globs ∧ globs ⊆ globs' := by
  induction texts with
  | nil => exact ⟨[], rfl, List.nil_subset _⟩
  | cons text texts ih =>
    obtain ⟨⟨glob, mem, parsed⟩, others⟩ := List.forall_mem_cons.mp each
    obtain ⟨rest, made, inMore⟩ := ih others
    refine ⟨glob :: rest, ?_, List.cons_subset.mpr ⟨mem, inMore⟩⟩
    rw [globsOf, parsed]
    dsimp only
    rw [made]
    rfl

/-- Fewer texts have fewer globs. -/
theorem globsOf_of_subset (fewer : texts ⊆ texts') (h : globsOf texts' = .ok globs') :
    ∃ globs, globsOf texts = .ok globs ∧ globs ⊆ globs' :=
  globsOf_of_parse fun text mem => parse_of_globsOf h text (fewer mem)

theorem ofSettings_eq_ok_iff {f : FileFilter} : ofSettings t s = .ok f ↔
    ignoreFileOf t s = .ok f.ignoreFile ∧ globsOf s.ignoredGlobs = .ok f.ignoredGlobs ∧
      globsOf (s.skippedDirectories.flatMap skipTexts) = .ok f.skippedGlobs ∧
      s.extensions.map normalExtension = f.extensions := by
  rw [ofSettings]
  cases ignoreFileOf t s with
  | error fault => simp
  | ok ignoreFile =>
    cases globsOf s.ignoredGlobs with
    | error fault => simp
    | ok ignored =>
      cases globsOf (s.skippedDirectories.flatMap skipTexts) with
      | error fault => simp
      | ok skipped =>
        cases f
        simp

/-- Further names and globs make a filter that passes over more. -/
theorem passesOverMore_of_added {directories ignored : List String} {f' : FileFilter}
    (directoriesAdded : s.skippedDirectories ⊆ directories) (globsAdded : s.ignoredGlobs ⊆ ignored)
    (made : ofSettings t { s with skippedDirectories := directories, ignoredGlobs := ignored } =
      .ok f') :
    ∃ f, ofSettings t s = .ok f ∧ Scanner.PassesOverMore f f' := by
  obtain ⟨ignoreFile, ignoredGlobs, skippedGlobs, extensions⟩ := ofSettings_eq_ok_iff.mp made
  obtain ⟨ignored, madeIgnored, inIgnored⟩ := globsOf_of_subset globsAdded ignoredGlobs
  have textsAdded : s.skippedDirectories.flatMap skipTexts ⊆ directories.flatMap skipTexts := by
    intro text mem
    obtain ⟨directory, inFewer, isText⟩ := List.mem_flatMap.mp mem
    exact List.mem_flatMap.mpr ⟨directory, directoriesAdded inFewer, isText⟩
  obtain ⟨skipped, madeSkipped, inSkipped⟩ := globsOf_of_subset textsAdded skippedGlobs
  refine ⟨⟨f'.ignoreFile, ignored, skipped, f'.extensions⟩,
    ofSettings_eq_ok_iff.mpr ⟨ignoreFile, madeIgnored, madeSkipped, extensions⟩, ?_, rfl⟩
  intro root p isDirectory passedOver
  simp only [ignores, Bool.or_eq_true, List.any_eq_true] at passedOver ⊢
  rcases passedOver with (⟨glob, mem, isMatch⟩ | ⟨glob, mem, isMatch⟩) | byFile
  · exact .inl (.inl ⟨glob, inSkipped mem, isMatch⟩)
  · exact .inl (.inr ⟨glob, inIgnored mem, isMatch⟩)
  · exact .inr byFile

end FileFilter

namespace Scanner

open ImportTidy.Path (entry)

theorem ofSettings_eq_ok_iff {t : FileTree} {settings : ScanSettings} {scanner : Scanner} :
    ofSettings t settings = .ok scanner ↔ settings.sort.fault? = none ∧
      FileFilter.ofSettings t settings = .ok scanner.filter ∧ settings = scanner.settings := by
  rw [ofSettings]
  cases settings.sort.fault? with
  | some fault => simp
  | none =>
    cases FileFilter.ofSettings t settings with
    | error fault => simp
    | ok filter =>
      cases scanner
      simp [and_comm]

/-- A scan takes the roots in order.  A root that is no directory it takes as it is, and below one
that is a directory it finds the wanted files.  Further names and globs that are passed over only
take files away. -/
theorem sourceFiles_wanted (t : FileTree) (s : Scanner) (wellNamed : t.root.WellNamed) :
    s.sourceFiles t = s.settings.roots.flatMap (filesOfRoot t s.filter) ∧
      (∀ root, t.isDirectory root = false → filesOfRoot t s.filter root = [root]) ∧
      (∀ root directory, t.resolve root = .ok directory → directory.isDirectory = true →
        ∃ found, Finds s.filter root directory found ∧
          (IsReadLink t s.filter root → filesOfRoot t s.filter root = root :: found) ∧
          (¬ IsReadLink t s.filter root → filesOfRoot t s.filter root = found)) ∧
      ∀ settings directories globs more,
        settings.skippedDirectories ⊆ directories → settings.ignoredGlobs ⊆ globs →
        ofSettings t { settings with skippedDirectories := directories, ignoredGlobs := globs } =
          .ok more →
        ∃ fewer, ofSettings t settings = .ok fewer ∧
          (∀ root, (filesOfRoot t more.filter root).Sublist (filesOfRoot t fewer.filter root)) ∧
          (more.sourceFiles t).Sublist (fewer.sourceFiles t) := by
  refine ⟨rfl, fun root => filesOfRoot_of_not_directory,
    fun root directory => filesOfRoot_of_directory wellNamed, ?_⟩
  intro settings directories globs more directoriesAdded globsAdded made
  obtain ⟨valid, filter, same⟩ := ofSettings_eq_ok_iff.mp made
  obtain ⟨f, madeFilter, passesOverMore⟩ :=
    FileFilter.passesOverMore_of_added directoriesAdded globsAdded filter
  have sublist := sublist_filesOfRoot passesOverMore t
  refine ⟨⟨settings, f⟩, ofSettings_eq_ok_iff.mpr ⟨valid, madeFilter, rfl⟩, sublist, ?_⟩
  rw [sourceFiles, sourceFiles, ← same]
  exact List.Sublist.flatMap_right _ fun root _ => sublist root

/-! ## A link with the name of a source file -/

/-- A directory with a directory in it that is skipped, and a link to the first one. -/
def linkedTree : FileTree where
  root := .directory [("d", .directory [("a.py", .file []), ("n.txt", .file []),
      ("venv", .directory [("b.py", .file [])])]), ("l.py", .link "d")]
  working := []

theorem exists_of_any_toOption {ε α : Type} {x : Except ε α} {q : α → Bool}
    (h : x.toOption.any q = true) : ∃ a, x = .ok a ∧ q a = true := by
  cases x with
  | error e => cases h
  | ok a => exact ⟨a, rfl, h⟩

theorem wellNamed_linkedTree : linkedTree.root.WellNamed := by
  have venv : Node.WellNamed (.directory [("b.py", .file [])]) :=
    .directory (by decide) (by decide +kernel) (by simpa using .file [])
  refine .directory (by decide) (by decide +kernel) ?_
  simp only [List.forall_mem_cons, List.not_mem_nil, false_imp_iff, implies_true, and_true]
  refine ⟨.directory (by decide) (by decide +kernel) ?_, .link "d"⟩
  simp only [List.forall_mem_cons, List.not_mem_nil, false_imp_iff, implies_true, and_true]
  exact ⟨.file [], .file [], venv⟩

/-- Below a directory one file is wanted, and none is left if its name is passed over.  Nothing is
where the other root leads. -/
theorem sourceFiles_wanted_of_linkedTree :
    let settings : ScanSettings := { roots := ["gone", "d"] }
    ∃ s more found directory, ofSettings linkedTree settings = .ok s ∧
      ofSettings linkedTree { settings with ignoredGlobs := ["a.*"] } = .ok more ∧
      linkedTree.resolve "d" = .ok directory ∧ Finds s.filter "d" directory found ∧
      s.sourceFiles linkedTree = [("gone" : Path)] ++ found ∧ found = ["d/a.py"] ∧
      (more.sourceFiles linkedTree).Sublist (s.sourceFiles linkedTree) ∧
      more.sourceFiles linkedTree = ["gone"] := by
  intro settings
  have scanned : (ofSettings linkedTree { settings with ignoredGlobs := ["a.*"] }).toOption.any
      (fun more => more.sourceFiles linkedTree = [("gone" : Path)]) = true := by decide +kernel
  obtain ⟨more, madeMore, emptied⟩ := exists_of_any_toOption scanned
  have scanned : (ofSettings linkedTree settings).toOption.any
      (fun s => s.sourceFiles linkedTree = [("gone" : Path), "d/a.py"]) = true := by decide +kernel
  obtain ⟨s, made, all⟩ := exists_of_any_toOption scanned
  obtain ⟨inOrder, others, below, adding⟩ :=
    sourceFiles_wanted linkedTree s wellNamed_linkedTree
  obtain ⟨fewer, madeFewer, -, sublist⟩ := adding settings settings.skippedDirectories ["a.*"] more
    (List.Subset.refl _) (List.nil_subset _) madeMore
  obtain rfl : s = fewer := by
    rw [made] at madeFewer
    exact Except.ok.inj madeFewer
  obtain ⟨found, finds, -, asFound⟩ := below "d" _ rfl rfl
  have noLink : ¬ IsReadLink linkedTree s.filter "d" := by
    rintro ⟨⟨target, isLink⟩, -⟩
    cases isLink
  have roots : s.settings.roots = [("gone" : Path), "d"] := by
    rw [← (ofSettings_eq_ok_iff.mp made).2.2]
  have files : s.sourceFiles linkedTree = [("gone" : Path)] ++ found := by
    rw [inOrder, roots, List.flatMap_cons, others "gone" rfl, List.flatMap_singleton,
      asFound noLink]
  have all := of_decide_eq_true all
  refine ⟨s, more, found, _, made, madeMore, rfl, finds, files, ?_, sublist,
    of_decide_eq_true emptied⟩
  rw [files] at all
  exact (List.cons.inj all).2

/-- A root that is a link to a directory is found, though no file below it has its path. -/
theorem not_only_wanted :
    ∃ s directory, ofSettings linkedTree { roots := ["l.py"] } = .ok s ∧
      linkedTree.resolve "l.py" = .ok directory ∧ directory.isDirectory = true ∧
      s.sourceFiles linkedTree = ["l.py", "l.py/a.py"] ∧
      ¬ ∃ names, Wanted s.filter "l.py" directory names ∧ names.foldl entry "l.py" = "l.py" := by
  have scanned : (ofSettings linkedTree { roots := ["l.py"] }).toOption.any
      (fun s => s.sourceFiles linkedTree = [("l.py" : Path), "l.py/a.py"]) = true := by decide +kernel
  obtain ⟨s, made, all⟩ := exists_of_any_toOption scanned
  refine ⟨s, _, made, rfl, rfl, of_decide_eq_true all, ?_⟩
  rintro ⟨names, wanted, path⟩
  have wellNamed := FileTree.wellNamed_resolve wellNamed_linkedTree (p := "l.py") rfl
  obtain rfl : names = [] := Path.foldl_entry_inj (wanted.areNames wellNamed) nofun path
  obtain ⟨m, itself, noDirectory⟩ := wanted.isFile
  cases itself
  cases noDirectory

end Scanner

end ImportTidy
