import Mathlib.Data.List.Nodup
import ImportTidy.Scan
import ImportTidy.Proofs.Pieces

/-!
# Walks through a tree

In a directory the names differ, and none is empty or has a slash (`Node.WellNamed`).  A lookup
in such a tree ends in a part of it that is like that too (`FileTree.wellNamed_resolve`).

A walk below a directory visits each entry once, and nothing in a directory that is passed over
(`Scanner.IsWalk`).  In the order of the tree these are `Scanner.visitsIn`
(`Scanner.isWalk_visitsIn`), by induction over the tree.
-/

namespace ImportTidy

/-! ## Trees -/

/-- In every directory the names differ, and each is the name of an entry. -/
inductive Node.WellNamed : Node → Prop where
  | file (bytes : List UInt8) : WellNamed (.file bytes)
  | link (target : Path) : WellNamed (.link target)
  | directory {entries : List (RawText × Node)} (distinct : (entries.map (·.1)).Nodup)
      (names : ∀ e ∈ entries, Path.IsEntryName e.1) (inner : ∀ e ∈ entries, WellNamed e.2) :
      WellNamed (.directory entries)

namespace Node

variable {n child : Node} {entries : List (RawText × Node)} {name : RawText} {names : List RawText}

theorem mem_of_isEntry (h : Node.entry? (.directory entries) name = some child) :
    (name, child) ∈ entries := by
  obtain ⟨e, found, rfl⟩ := Option.map_eq_some_iff.mp h
  have same : e.1 = name := by simpa using List.find?_some found
  rw [← same]
  exact List.mem_of_find?_eq_some found

/-- An entry is found by its name. -/
theorem isEntry_iff_mem (distinct : (entries.map (·.1)).Nodup) :
    Node.entry? (.directory entries) name = some child ↔ (name, child) ∈ entries := by
  refine ⟨mem_of_isEntry, fun mem => ?_⟩
  cases found : entries.find? (fun e => e.1 == name) with
  | none =>
    have absent := List.find?_eq_none.mp found _ mem
    simp at absent
  | some e =>
    have same : e.1 = name := by simpa using List.find?_some found
    have entry := List.inj_on_of_nodup_map distinct (List.mem_of_find?_eq_some found) mem same
    unfold entry?
    rw [Node.entries, found, entry]
    rfl

theorem noEntry_of_not_directory (noDirectory : n.isDirectory = false) : n.entry? name = none := by
  cases n with
  | directory entries => cases noDirectory
  | file bytes => rfl
  | link target => rfl

namespace WellNamed

theorem of_isEntry (wellNamed : n.WellNamed) (h : n.entry? name = some child) :
    child.WellNamed ∧ Path.IsEntryName name := by
  cases wellNamed with
  | file bytes => cases h
  | link target => cases h
  | directory distinct areNames inner =>
    have mem := mem_of_isEntry h
    exact ⟨inner _ mem, areNames _ mem⟩

theorem of_get? (wellNamed : n.WellNamed) (h : n.get? names = some child) :
    child.WellNamed ∧ ∀ name ∈ names, Path.IsEntryName name := by
  induction names generalizing n with
  | nil =>
    cases h
    exact ⟨wellNamed, nofun⟩
  | cons name names ih =>
    obtain ⟨next, found, rest⟩ := Option.bind_eq_some_iff.mp h
    obtain ⟨inner, isName⟩ := wellNamed.of_isEntry found
    obtain ⟨last, others⟩ := ih inner rest
    exact ⟨last, List.forall_mem_cons.mpr ⟨isName, others⟩⟩

theorem getD_get? (wellNamed : n.WellNamed) (names : List RawText) :
    ((n.get? names).getD n).WellNamed := by
  cases found : n.get? names with
  | none => exact wellNamed
  | some child => exact (wellNamed.of_get? found).1

end WellNamed

end Node

namespace FileTree

/-- Where a lookup ends, the tree is well named. -/
def Place.WellNamed : Place → Prop
  | .taken _ n => n.WellNamed
  | .free _ => True

theorem wellNamed_descend {root : Node} (rootNamed : root.WellNamed) {aim : Aim}
    {jump : List RawText → Node → List RawText → Except IoError Place}
    (jumps : ∀ {names n steps place}, n.WellNamed → jump names n steps = .ok place →
      place.WellNamed)
    {names : List RawText} {n : Node} (named : n.WellNamed) {steps : List RawText} {place : Place}
    (h : descend root aim jump names n steps = .ok place) : place.WellNamed := by
  induction steps generalizing names n with
  | nil =>
    cases h
    exact named
  | cons step rest ih =>
    rw [descend] at h
    split at h
    next => cases h
    next =>
      split at h
      next => cases h
      next =>
        split at h
        next => exact ih named h
        next =>
          split at h
          -- Upwards the lookup starts again at the root.
          next => exact ih (rootNamed.getD_get? _) h
          next =>
            split at h
            next => cases h
            next =>
              split at h
              next =>
                split at h
                next =>
                  cases h
                  trivial
                next => cases h
              next target _ =>
                split at h
                next =>
                  cases h
                  exact .link target
                next =>
                  split at h
                  next => cases h
                  next =>
                    split at h
                    next => exact jumps rootNamed h
                    next => exact jumps named h
              next child _ found => exact ih (named.of_isEntry found).1 h

theorem wellNamed_walk {root : Node} (rootNamed : root.WellNamed) {aim : Aim} {links : Nat}
    {names : List RawText} {n : Node} (named : n.WellNamed) {steps : List RawText} {place : Place}
    (h : walk root aim links names n steps = .ok place) : place.WellNamed := by
  induction links generalizing names n steps place with
  | zero => exact wellNamed_descend rootNamed (fun _ never => by cases never) named h
  | succ links ih => exact wellNamed_descend rootNamed (fun named h => ih named h) named h

/-- A path leads to a part of the tree. -/
theorem wellNamed_resolve {t : FileTree} (wellNamed : t.root.WellNamed) {p : Path} {n : Node}
    (h : t.resolve p = .ok n) : n.WellNamed := by
  rw [resolve] at h
  split at h
  next names found place =>
    cases h
    rw [lookup] at place
    split_ifs at place
    · exact wellNamed_walk wellNamed (wellNamed.getD_get? _) place
    · exact wellNamed_walk wellNamed (wellNamed.getD_get? _) place
  next => cases h
  next => cases h

end FileTree

namespace Scanner

open ImportTidy.Path (entry)

variable {f : FileFilter} {root start : Path} {n : Node} {entries : List (RawText × Node)}
  {names : List RawText}

/-! ## Walks -/

/-- The names lead from a directory to an entry that is not passed over, and neither is a
directory on the way.  The directory has the path `start`. -/
structure Visited (f : FileFilter) (root start : Path) (n : Node) (names : List RawText) : Prop where
  below : names ≠ []
  kept : ∃ m, n.get? names = some m ∧
    f.ignores root (names.foldl entry start) m.isDirectory = false
  inKept : ∀ front, front <+: names → front ≠ [] → front ≠ names →
    f.ignores root (front.foldl entry start) true = false

/-- The same from an entry, which may be passed over itself. -/
def VisitedAt (f : FileFilter) (root start : Path) (n : Node) (names : List RawText) : Prop :=
  names = [] ∧ f.ignores root start n.isDirectory = false ∨
    f.ignores root start true = false ∧ Visited f root start n names

/-- One name more in front. -/
theorem visited_cons {name : RawText} : Visited f root start n (name :: names) ↔
    ∃ child, n.entry? name = some child ∧ VisitedAt f root (entry start name) child names := by
  constructor
  · rintro ⟨-, ⟨m, found, kept⟩, inKept⟩
    obtain ⟨child, first, rest⟩ := Option.bind_eq_some_iff.mp found
    refine ⟨child, first, ?_⟩
    by_cases last : names = []
    · subst last
      cases rest
      exact .inl ⟨rfl, kept⟩
    · refine .inr ⟨?_, last, ⟨m, rest, kept⟩, fun front isPrefix some other => ?_⟩
      · exact inKept [name] (by simp) (List.cons_ne_nil _ _) (by simpa using Ne.symm last)
      · exact inKept (name :: front) (List.cons_prefix_cons.mpr ⟨rfl, isPrefix⟩)
          (List.cons_ne_nil _ _) (by simpa using other)
  · rintro ⟨child, first, ⟨rfl, kept⟩ | ⟨firstKept, -, ⟨m, rest, kept⟩, inKept⟩⟩
    · refine ⟨List.cons_ne_nil _ _, ⟨child, ?_, kept⟩, fun front isPrefix some other => ?_⟩
      · rw [Node.get?, first]
        rfl
      · rcases List.prefix_cons_iff.mp isPrefix with rfl | ⟨front, rfl, inner⟩
        · exact absurd rfl some
        · exact absurd (by rw [List.prefix_nil.mp inner]) other
    · refine ⟨List.cons_ne_nil _ _, ⟨m, ?_, kept⟩, fun front isPrefix some other => ?_⟩
      · exact Option.bind_eq_some_iff.mpr ⟨child, first, rest⟩
      · rcases List.prefix_cons_iff.mp isPrefix with rfl | ⟨front, rfl, inner⟩
        · exact absurd rfl some
        · by_cases empty : front = []
          · rwa [empty]
          · exact inKept front inner empty fun same => other (by rw [same])

theorem not_visited_of_not_directory (noDirectory : n.isDirectory = false) :
    ¬ Visited f root start n names := by
  rintro ⟨below, ⟨m, found, -⟩, -⟩
  cases names with
  | nil => exact below rfl
  | cons name names =>
    rw [Node.get?, Node.noEntry_of_not_directory noDirectory] at found
    cases found

mutual

/-- The names that lead from an entry to what a walk visits there, the entry itself included. -/
def visitsOf (f : FileFilter) (root start : Path) : Node → List (List RawText)
  | .directory entries =>
      if f.ignores root start true then [] else [] :: visitsIn f root start entries
  | _ => if f.ignores root start false then [] else [[]]

/-- The names that lead from a directory to what a walk visits in it. -/
def visitsIn (f : FileFilter) (root directory : Path) : List (RawText × Node) → List (List RawText)
  | [] => []
  | (name, n) :: entries =>
      (visitsOf f root (entry directory name) n).map (name :: ·)
        ++ visitsIn f root directory entries

end

theorem visitsIn_eq (f : FileFilter) (root directory : Path) (entries : List (RawText × Node)) :
    visitsIn f root directory entries =
      entries.flatMap fun e => (visitsOf f root (entry directory e.1) e.2).map (e.1 :: ·) := by
  induction entries with
  | nil => rw [visitsIn, List.flatMap_nil]
  | cons e entries ih => rw [visitsIn, ih, List.flatMap_cons]

theorem visitsOf_of_not_directory (noDirectory : n.isDirectory = false) :
    visitsOf f root start n = if f.ignores root start false then [] else [[]] := by
  cases n with
  | directory entries => cases noDirectory
  | file bytes => rw [visitsOf]; nofun
  | link target => rw [visitsOf]; nofun

theorem mem_visitsIn_of (distinct : (entries.map (·.1)).Nodup)
    (each : ∀ e ∈ entries, ∀ names, names ∈ visitsOf f root (entry start e.1) e.2 ↔
      VisitedAt f root (entry start e.1) e.2 names) :
    names ∈ visitsIn f root start entries ↔ Visited f root start (.directory entries) names := by
  rw [visitsIn_eq, List.mem_flatMap]
  constructor
  · rintro ⟨e, mem, inEntry⟩
    obtain ⟨rest, visits, rfl⟩ := List.mem_map.mp inEntry
    have found := (Node.isEntry_iff_mem distinct).mpr mem
    exact visited_cons.mpr ⟨e.2, found, (each e mem rest).mp visits⟩
  · intro visited
    cases names with
    | nil => exact absurd rfl visited.below
    | cons name rest =>
      obtain ⟨child, found, visits⟩ := visited_cons.mp visited
      have mem := Node.mem_of_isEntry found
      exact ⟨(name, child), mem, List.mem_map_of_mem ((each _ mem rest).mpr visits)⟩

theorem mem_visitsOf_of_not_directory (noDirectory : n.isDirectory = false) :
    names ∈ visitsOf f root start n ↔ VisitedAt f root start n names := by
  rw [visitsOf_of_not_directory noDirectory, VisitedAt, noDirectory]
  simp only [not_visited_of_not_directory noDirectory, and_false, or_false]
  cases f.ignores root start false <;> simp

theorem mem_visitsOf (wellNamed : n.WellNamed) :
    names ∈ visitsOf f root start n ↔ VisitedAt f root start n names := by
  induction wellNamed generalizing start names with
  | file bytes => exact mem_visitsOf_of_not_directory rfl
  | link target => exact mem_visitsOf_of_not_directory rfl
  | directory distinct areNames inner ih =>
    rw [visitsOf, VisitedAt]
    cases ignored : f.ignores root start true with
    | true => simp [ignored, Node.isDirectory]
    | false =>
      rw [if_neg Bool.false_ne_true, List.mem_cons,
        mem_visitsIn_of distinct fun e mem names => ih e mem]
      simp [ignored, Node.isDirectory]

/-- Different entries of a directory have different names in front. -/
theorem nodup_visitsIn_of (distinct : (entries.map (·.1)).Nodup)
    (each : ∀ e ∈ entries, (visitsOf f root (entry start e.1) e.2).Nodup) :
    (visitsIn f root start entries).Nodup := by
  rw [visitsIn_eq, List.nodup_flatMap]
  refine ⟨fun e mem => (each e mem).map (List.cons_injective), ?_⟩
  refine (List.pairwise_map.mp distinct).imp fun {e e'} differ names inE inE' => ?_
  obtain ⟨rest, -, rfl⟩ := List.mem_map.mp inE
  obtain ⟨rest', -, same⟩ := List.mem_map.mp inE'
  exact differ (List.cons.inj same).1.symm

theorem nodup_visitsOf (wellNamed : n.WellNamed) : (visitsOf f root start n).Nodup := by
  induction wellNamed generalizing start with
  | file bytes => rw [visitsOf_of_not_directory rfl]; split <;> simp
  | link target => rw [visitsOf_of_not_directory rfl]; split <;> simp
  | directory distinct areNames inner ih =>
    rw [visitsOf]
    split
    next => exact List.nodup_nil
    next =>
      refine List.nodup_cons.mpr ⟨fun mem => ?_, nodup_visitsIn_of distinct fun e mem => ih e mem⟩
      rw [mem_visitsIn_of distinct fun e mem names => mem_visitsOf (inner e mem)] at mem
      exact mem.below rfl

/-- A walk below a directory visits each entry once, and none that is passed over or in a
directory that is. -/
structure IsWalk (f : FileFilter) (root : Path) (directory : Node) (visited : List (List RawText)) :
    Prop where
  nodup : visited.Nodup
  mem_iff : ∀ names, names ∈ visited ↔ Visited f root root directory names

theorem isWalk_visitsIn (wellNamed : (Node.directory entries).WellNamed) :
    IsWalk f root (.directory entries) (visitsIn f root root entries) := by
  cases wellNamed with
  | directory distinct areNames inner =>
    refine ⟨nodup_visitsIn_of distinct fun e mem => nodup_visitsOf (inner e mem), fun names => ?_⟩
    exact mem_visitsIn_of distinct fun e mem names => mem_visitsOf (inner e mem)

end Scanner

end ImportTidy
