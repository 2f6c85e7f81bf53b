import Mathlib.Data.List.Forall2
import ImportTidy.Category
import ImportTidy.Proofs.Cuts

/-!
# What a category depends on

The category of a module is that of its top-level package.  `Category.IsPackage` says what the
package is without saying how it is found: the module is cut into blanks, a word and what is
behind it, and the word is cut before its first dot.  There is one such cut, and
`Category.packageOf` finds it (`isPackage_iff`).  A package is its own package
(`isPackage_self`), so nothing but the package counts.

A package is looked up twice, as it is and with every `-` replaced.  The names that are looked
up have no `-`, so the first look finds nothing that the second would not find, and two names
agree exactly if they differ only in `-` and `_` (`alike_iff`).
-/

namespace ImportTidy

namespace Category

open Whitespace (isSpace)

/-! ## The package of a module -/

/-- The first word of a text.  A blank text counts as a word. -/
inductive IsFirstWord : List Char → List Char → Prop where
  | blank {cs : List Char} : (∀ c ∈ cs, isSpace c = true) → IsFirstWord cs cs
  | word {blanks word rest : List Char} : (∀ c ∈ blanks, isSpace c = true) → word ≠ [] →
      (∀ c ∈ word, isSpace c = false) → (∀ c ∈ rest.head?, isSpace c = true) →
      IsFirstWord (blanks ++ (word ++ rest)) word

/-- The package is what stands before the first dot of the first word. -/
def IsPackage (module package : String) : Prop :=
  ∃ rest, IsFirstWord module.toList (package.toList ++ rest) ∧
    CutsAt (· ≠ '.') package.toList rest

theorem toList_firstWord (text : String) :
    (Whitespace.firstWord text).toList =
      (text.toList.dropWhile isSpace).takeWhile fun c => !isSpace c := by
  rw [Whitespace.firstWord, String.toList_ofList]

/-- Only a blank text has no word. -/
theorem blank_of_firstWord {text : String} (h : Whitespace.firstWord text = "") :
    ∀ c ∈ text.toList, isSpace c = true := by
  have found := toList_firstWord text
  have cut := CutsAt.of_list isSpace text.toList
  have whole := List.takeWhile_append_dropWhile (p := isSpace) (l := text.toList)
  cases behind : text.toList.dropWhile isSpace with
  | nil =>
    rw [behind, List.append_nil] at whole
    exact whole ▸ cut.front
  | cons c cs =>
    have solid : isSpace c = false := cut.rest c (by rw [behind]; rfl)
    rw [h, behind, List.takeWhile_cons_of_pos (by simp [solid])] at found
    cases found

theorem isFirstWord_wordOf (module : String) :
    IsFirstWord module.toList (wordOf module).toList := by
  rw [wordOf]
  split
  next noWord => exact .blank (blank_of_firstWord noWord)
  next hasWord =>
    have cut := CutsAt.of_list (fun c => !isSpace c) (module.toList.dropWhile isSpace)
    have whole : module.toList = module.toList.takeWhile isSpace ++
        ((Whitespace.firstWord module).toList ++
          (module.toList.dropWhile isSpace).dropWhile fun c => !isSpace c) := by
      rw [toList_firstWord, List.takeWhile_append_dropWhile, List.takeWhile_append_dropWhile]
    rw [← toList_firstWord] at cut
    rw [whole]
    refine .word (CutsAt.of_list isSpace module.toList).front ?_ ?_ ?_
    · intro empty
      exact hasWord (String.toList_inj.mp empty)
    · intro c mem
      simpa using cut.front c mem
    · intro c first
      simpa using cut.rest c first

/-- A text has one first word. -/
theorem IsFirstWord.eq {module : String} {word : List Char}
    (h : IsFirstWord module.toList word) : word = (wordOf module).toList := by
  have found := toList_firstWord module
  generalize chars : module.toList = cs at h found
  cases h with
  | blank blank =>
    have whole : CutsAt isSpace word [] := ⟨blank, nofun⟩
    have empty := whole.dropWhile_eq
    rw [List.append_nil] at empty
    rw [empty, List.takeWhile_nil] at found
    rw [wordOf, if_pos (String.toList_inj.mp found), chars]
  | @word blanks word rest blank proper solid ends =>
    have first : CutsAt isSpace blanks (word ++ rest) := by
      refine ⟨blank, ?_⟩
      intro c mem
      rw [List.head?_append_of_ne_nil _ proper] at mem
      exact solid c (List.mem_of_mem_head? mem)
    have last : CutsAt (fun c => !isSpace c) word rest := by
      refine ⟨?_, ?_⟩
      · intro c mem
        simp [solid c mem]
      · intro c mem
        simp [ends c mem]
    rw [first.dropWhile_eq, last.takeWhile_eq] at found
    have hasWord : Whitespace.firstWord module ≠ "" := by
      intro empty
      rw [empty] at found
      exact proper found.symm
    rw [wordOf, if_neg hasWord, found]

theorem isPackage_iff {module package : String} :
    IsPackage module package ↔ package = packageOf module := by
  constructor
  · rintro ⟨rest, first, cut⟩
    rw [packageOf, ← first.eq, cut.takeWhile_eq, String.ofList_toList]
  · rintro rfl
    have cut := CutsAt.of_list (fun c => decide (c ≠ '.')) (wordOf module).toList
    refine ⟨(wordOf module).toList.dropWhile (· ≠ '.'), ?_, ?_⟩
    · rw [packageOf, String.toList_ofList, List.takeWhile_append_dropWhile]
      exact isFirstWord_wordOf module
    · rw [packageOf, String.toList_ofList]
      exact cut

/-- A package is its own package. -/
theorem isPackage_self {module package : String} (h : IsPackage module package) :
    IsPackage package package := by
  obtain ⟨rest, first, cut⟩ := h
  refine ⟨[], ?_, cut.front, nofun⟩
  rw [List.append_nil]
  generalize module.toList = cs at first
  generalize same : package.toList ++ rest = ws at first
  have inWord : ∀ c ∈ package.toList, c ∈ ws := by
    intro c mem
    rw [← same]
    exact List.mem_append_left _ mem
  cases first with
  | blank blank =>
    refine .blank ?_
    intro c mem
    exact blank c (inWord c mem)
  | word _ _ solid _ =>
    by_cases empty : package.toList = []
    · rw [empty]
      exact .blank nofun
    · have own : ∀ c ∈ package.toList, isSpace c = false := fun c mem => solid c (inWord c mem)
      simpa using @IsFirstWord.word [] package.toList [] nofun empty own nofun

theorem not_dot_of_isPackage {module package : String} (h : IsPackage module package) :
    package.toList.head? ≠ some '.' := by
  obtain ⟨_, _, cut⟩ := h
  intro dot
  simpa using cut.front '.' (List.mem_of_mem_head? dot)

/-! ## Names of libraries -/

/-- The texts are the same up to `-` and `_`. -/
def Alike (s t : String) : Prop :=
  List.Forall₂ (fun c d => c = d ∨ c ∈ ['-', '_'] ∧ d ∈ ['-', '_']) s.toList t.toList

theorem alike_iff {s t : String} : Alike s t ↔ underscored s = underscored t := by
  have each : ∀ c d : Char, (c = d ∨ c ∈ ['-', '_'] ∧ d ∈ ['-', '_']) ↔
      (if c = '-' then '_' else c) = if d = '-' then '_' else d := by
    intro c d
    grind
  rw [underscored, underscored, String.ofList_inj, ← List.forall₂_eq_eq_eq,
    List.forall₂_map_left_iff, List.forall₂_map_right_iff, Alike]
  simp only [each]

theorem underscored_underscored (s : String) : underscored (underscored s) = underscored s := by
  rw [underscored, underscored, String.toList_ofList, List.map_map]
  congr 1
  refine List.map_congr_left fun c _ => ?_
  by_cases dash : c = '-' <;> simp [dash]

theorem isKnown_iff {libraries : List String} {package : String} :
    isKnown libraries package = true ↔
      ∃ library ∈ libraries, underscored library = underscored package := by
  simp only [isKnown, knownNames, Bool.or_eq_true, List.contains_iff_mem, List.mem_map]
  constructor
  · rintro (⟨library, mem, same⟩ | found)
    · exact ⟨library, mem, by rw [← same, underscored_underscored]⟩
    · exact found
  · exact .inr

theorem isKnown_congr {libraries libraries' : List String}
    (alike : List.Forall₂ Alike libraries libraries') (package : String) :
    isKnown libraries package = isKnown libraries' package := by
  have names : knownNames libraries = knownNames libraries' := by
    rw [knownNames, knownNames, ← List.forall₂_eq_eq_eq, List.forall₂_map_left_iff,
      List.forall₂_map_right_iff]
    exact alike.imp fun _ _ => alike_iff.mp
  rw [isKnown, isKnown, names]

theorem isKnown_alike (libraries : List String) {package package' : String}
    (alike : Alike package package') : isKnown libraries package = isKnown libraries package' := by
  rw [Bool.eq_iff_iff, isKnown_iff, isKnown_iff, alike_iff.mp alike]

example : isKnown ["ruamel-yaml"] "ruamel_yaml" = true := by decide +kernel

/-! ## The category of a package -/

theorem ofModule_of_isPackage (libraries : List String) {module package : String}
    (absolute : module.toList.head? ≠ some '.') (h : IsPackage module package) :
    ofModule libraries module =
      if package ∈ standardPackages then .standard
      else if isKnown libraries package then .known else .unknown := by
  rw [ofModule, if_neg absolute, ← isPackage_iff.mp h]
  simp only [List.contains_iff_mem]

/-- The three categories of a module that does not start with a dot. -/
theorem ofModule_iff (libraries : List String) {module package : String}
    (absolute : module.toList.head? ≠ some '.') (h : IsPackage module package) :
    (ofModule libraries module = .standard ↔ package ∈ standardPackages) ∧
    (ofModule libraries module = .known ↔ package ∉ standardPackages ∧
      ∃ library ∈ libraries, underscored library = underscored package) ∧
    (ofModule libraries module = .unknown ↔ package ∉ standardPackages ∧
      ∀ library ∈ libraries, underscored library ≠ underscored package) := by
  have none : (∀ library ∈ libraries, underscored library ≠ underscored package) ↔
      ¬ ∃ library ∈ libraries, underscored library = underscored package := by
    simp only [not_exists, not_and, ne_eq]
  rw [ofModule_of_isPackage libraries absolute h, none, ← isKnown_iff]
  by_cases standard : package ∈ standardPackages
  · simp [standard]
  · cases isKnown libraries package <;> simp [standard]

/-- A module that starts with a dot is local.  Every other one has the category of its package,
which is standard, or else known if a library has its name up to `-` and `_`, or else unknown.
A library may be written with `-` or `_`, and so may a package, where neither spelling is one of
the standard library. -/
theorem ofModule_by_package (libraries : List String) (module : String) :
    (module.toList.head? = some '.' → ofModule libraries module = .relative) ∧
    (∃ package, ∀ p, IsPackage module p ↔ p = package) ∧
    (∀ package, module.toList.head? ≠ some '.' → IsPackage module package →
      (ofModule libraries module = .standard ↔ package ∈ standardPackages) ∧
      (ofModule libraries module = .known ↔ package ∉ standardPackages ∧
        ∃ library ∈ libraries, underscored library = underscored package) ∧
      (ofModule libraries module = .unknown ↔ package ∉ standardPackages ∧
        ∀ library ∈ libraries, underscored library ≠ underscored package) ∧
      ofModule libraries module = ofModule libraries package) ∧
    (∀ libraries', List.Forall₂ Alike libraries libraries' →
      ofModule libraries' module = ofModule libraries module) ∧
    ∀ module' package package', IsPackage module package → IsPackage module' package' →
      Alike package package' → package ∉ standardPackages → package' ∉ standardPackages →
        ofModule libraries package = ofModule libraries package' := by
  refine ⟨fun dot => if_pos dot, ⟨packageOf module, fun p => isPackage_iff⟩, ?_, ?_, ?_⟩
  · intro package absolute h
    have same : ofModule libraries module = ofModule libraries package := by
      rw [ofModule_of_isPackage libraries absolute h,
        ofModule_of_isPackage libraries (not_dot_of_isPackage h) (isPackage_self h)]
    obtain ⟨standard, known, unknown⟩ := ofModule_iff libraries absolute h
    exact ⟨standard, known, unknown, same⟩
  · intro libraries' alike
    simp only [ofModule, isKnown_congr alike]
  · intro module' package package' h h' alike other other'
    rw [ofModule_of_isPackage libraries (not_dot_of_isPackage h) (isPackage_self h),
      ofModule_of_isPackage libraries (not_dot_of_isPackage h') (isPackage_self h'), if_neg other,
      if_neg other', isKnown_alike libraries alike]

/-- A module behind a blank, with a dash where the library has an underscore. -/
theorem ofModule_by_package_of_dash :
    ofModule ["numpy", "ruamel_yaml"] "\truamel-yaml.main as m" = .known ∧
      ofModule ["numpy", "ruamel-yaml"] "\truamel-yaml.main as m" = .known ∧
      ofModule ["numpy", "ruamel_yaml"] "ruamel-yaml" =
        ofModule ["numpy", "ruamel_yaml"] "ruamel_yaml" := by
  obtain ⟨-, -, decided, respelled, bases⟩ :=
    ofModule_by_package ["numpy", "ruamel_yaml"] "\truamel-yaml.main as m"
  have package : IsPackage "\truamel-yaml.main as m" "ruamel-yaml" :=
    isPackage_iff.mpr (by decide +kernel)
  have alike : Alike "ruamel-yaml" "ruamel_yaml" := alike_iff.mpr (by decide +kernel)
  have known := (decided "ruamel-yaml" (by decide) package).2.1.mpr
    ⟨by decide, "ruamel_yaml", by decide, by decide +kernel⟩
  refine ⟨known, ?_, bases "ruamel_yaml" "ruamel-yaml" "ruamel_yaml" package
    (isPackage_iff.mpr (by decide +kernel)) alike (by decide) (by decide)⟩
  rw [respelled ["numpy", "ruamel-yaml"]
    (.cons (alike_iff.mpr rfl) (.cons (alike_iff.mpr (by decide +kernel)) .nil)), known]

end Category

end ImportTidy
