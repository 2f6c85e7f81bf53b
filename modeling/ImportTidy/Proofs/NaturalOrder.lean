import ImportTidy.NaturalOrder

/-!
# The natural order is a total order

The comparison of two names is lexicographic in four keys: the stem, the number of
digits that the run has without its leading zeros, these digits, and all bytes.  Each
key has a total order, so `cmp` is one (`transCmp_cmp`), and the last key makes it a
strict one between different names (`lawfulEqCmp_cmp`).

So sorting twice is sorting once, and there is one way to have names in order (`sort_eq`).
-/

namespace ImportTidy.NaturalOrder

/-- The digits of a number without its leading zeros. -/
def significant (digits : List UInt8) : List UInt8 := digits.dropWhile (· == 0x30)

/-- The digits of the number at the end of a name. -/
def number (name : String) : List UInt8 := significant (run (Utf8.encode name))

/-- The four keys. -/
theorem cmp_eq_compareLex :
    cmp = compareLex (compareOn fun s => stem (Utf8.encode s))
      (compareLex
        (compareLex (compareOn fun s => (number s).length) (compareOn number))
        (compareOn Utf8.encode)) := rfl

example : cmp "lib2" "lib10" = .lt ∧ cmp "lib1" "lib01" = .gt ∧ cmp "lib" "lib0" = .lt := by
  decide +kernel

instance transCmp_cmp : Std.TransCmp cmp := by
  rw [cmp_eq_compareLex]
  infer_instance

instance lawfulEqCmp_cmp : Std.LawfulEqCmp cmp where
  eq_of_compare {a b} equal := by
    simp only [cmp_eq_compareLex, compareLex, Ordering.then_eq_eq] at equal
    exact Utf8.encode_injective (Std.LawfulEqOrd.eq_of_compare equal.2.2)

/-- The sorted names are in order. -/
theorem pairwise_sort (names : List String) :
    (sort names).Pairwise fun a b => (cmp a b).isLE = true := by
  refine List.pairwise_mergeSort (fun a b c => Std.TransCmp.isLE_trans) (fun a b => ?_) names
  rw [Bool.or_eq_true]
  cases h : cmp a b with
  | lt => exact .inl rfl
  | eq => exact .inl rfl
  | gt =>
    have swapped : cmp b a = (cmp a b).swap := Std.OrientedCmp.eq_swap
    rw [swapped, h]
    exact .inr rfl

/-- Different names are sorted in strict order. -/
theorem pairwise_lt_sort {names : List String} (nodup : names.Nodup) :
    (sort names).Pairwise fun a b => cmp a b = .lt := by
  have differ : (sort names).Nodup := (sort_perm names).nodup_iff.mpr nodup
  refine (pairwise_sort names).imp₂ ?_ differ
  intro a b inOrder different
  cases order : cmp a b with
  | lt => rfl
  | eq => exact absurd (Std.LawfulEqCmp.eq_of_compare order) different
  | gt =>
    rw [order] at inOrder
    cases inOrder

/-- Sorting twice is sorting once. -/
theorem sort_sort (names : List String) : sort (sort names) = sort names :=
  List.mergeSort_of_pairwise (pairwise_sort names)

/-- Names in order are the sorted ones of every list that has them. -/
theorem sort_eq {names sorted : List String} (perm : sorted.Perm names)
    (inOrder : sorted.Pairwise fun a b => (cmp a b).isLE = true) : sort names = sorted := by
  refine List.Perm.eq_of_pairwise ?_ (pairwise_sort names) inOrder
    ((sort_perm names).trans perm.symm)
  intro a b _ _ hab hba
  exact Std.LawfulEqCmp.eq_of_compare (Std.OrientedCmp.isLE_antisymm hab hba)

/-- The order in which names are given does not matter. -/
theorem sort_congr {names names' : List String} (perm : names.Perm names') :
    sort names = sort names' :=
  sort_eq ((sort_perm names').trans perm.symm) (pairwise_sort names')

theorem mem_sort {names : List String} {name : String} : name ∈ sort names ↔ name ∈ names :=
  (sort_perm names).mem_iff

end ImportTidy.NaturalOrder
