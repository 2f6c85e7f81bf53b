import ImportTidy.Feed

/-!
# A reader of lines

A feed lists what the reads of an input give.  `LineReader` is the reader itself: the bytes
that no read took yet, the number of lines so far, and the line of the last read.

A read at the end of the input gives that there is no line, as often as it is made.
-/

namespace ImportTidy

/-- A reader of lines between two reads. -/
structure LineReader where
  /-- The bytes that no read took. -/
  remaining : List UInt8
  /-- How many reads took bytes. -/
  linesRead : Nat := 0
  /-- The line of the last read. -/
  line : String := ""
deriving DecidableEq, Repr

namespace LineReader

/-- What a read gives, and the reader behind it.  It gives whether there was a line, or why
that line could not be read. -/
def read (limit : UInt64) (r : LineReader) : Except ReadError Bool × LineReader :=
  match cutLine (readSpan limit) r.remaining with
  | ([], rest) => (.ok false, ⟨rest, r.linesRead, ""⟩)
  | (b :: line, rest) =>
      match judgeLine limit (r.linesRead + 1) (b :: line) with
      | .ok text => (.ok true, ⟨rest, r.linesRead + 1, text⟩)
      | .error e => (.error e, ⟨rest, r.linesRead + 1, ""⟩)

/-- The reader behind a number of reads. -/
def after (limit : UInt64) (r : LineReader) : Nat → LineReader
  | 0 => r
  | n + 1 => ((r.after limit n).read limit).2

/-- What the reads on these bytes give, the first of them numbered zero. -/
def nth (limit : UInt64) (bytes : List UInt8) (n : Nat) : Except ReadError Bool × LineReader :=
  (after limit { remaining := bytes } n).read limit

end LineReader

end ImportTidy
