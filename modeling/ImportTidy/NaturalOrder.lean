import ImportTidy.Text.Utf8

/-!
# The natural order of names

`lib2` stands before `lib10`.  A name is split into the run of decimal digits at
its end and the bytes before.  Two names are compared by

* the bytes before the run,
* then the numbers that the runs denote, where no run denotes zero,
* then all their bytes.

The numbers are compared as digit strings, so a run may have any length: leading
zeros are dropped, a longer string is greater, and strings of one length are
compared from the left.  The last step decides between `lib1` and `lib01`, so two
names are equal in this order only if they are the same.
-/

namespace ImportTidy.NaturalOrder

/-- An ASCII digit. -/
def isDigit (b : UInt8) : Bool := 0x30 ≤ b && b ≤ 0x39

/-- The bytes before the run of digits at the end. -/
def stem (bytes : List UInt8) : List UInt8 := (bytes.reverse.dropWhile isDigit).reverse

/-- The run of digits at the end. -/
def run (bytes : List UInt8) : List UInt8 := (bytes.reverse.takeWhile isDigit).reverse

/-- The comparison of two digit strings as numbers. -/
def compareRuns (a b : List UInt8) : Ordering :=
  let a' := a.dropWhile (· == 0x30)
  let b' := b.dropWhile (· == 0x30)
  (compare a'.length b'.length).then (compare a' b')

/-- The comparison of two byte strings. -/
def compareBytes (a b : List UInt8) : Ordering :=
  (compare (stem a) (stem b)).then ((compareRuns (run a) (run b)).then (compare a b))

/-- The comparison of two names. -/
def cmp (a b : String) : Ordering := compareBytes (Utf8.encode a) (Utf8.encode b)

/-- The names in natural order. -/
def sort (names : List String) : List String := names.mergeSort fun a b => (cmp a b).isLE

/-- A name is its stem and its run. -/
theorem stem_append_run (bytes : List UInt8) : stem bytes ++ run bytes = bytes := by
  simp [stem, run, ← List.reverse_append]

theorem sort_perm (names : List String) : (sort names).Perm names :=
  List.mergeSort_perm names _

end ImportTidy.NaturalOrder
