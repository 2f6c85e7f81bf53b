import ImportTidy.IoError

/-!
# The lines of an input

An input is read line by line.  A *feed* is the list of what the reads give: a
line with its terminator, or the reason why the read failed.  A failed read does
not end a feed, since a later read goes on behind it.

`Feed.ofBytes` is the feed of a byte sequence under a limit on the length of a
line.  One read takes bytes up to and including the next newline, and at most
two bytes more than the limit.  The two bytes leave room for the terminator `CR
LF`, so a line over the limit shows as a read that holds more content than the
limit.  The content of a line is the line without a final `CR LF` or `LF`.

* A read whose content is longer than the limit fails as too long.
* Otherwise a read whose bytes are not a text fails with their first fault.
* Otherwise the read gives its bytes as a text, terminator included.

So the length is checked before the text, and a character that the limit cuts
through never shows as a fault.

The limit is a 64-bit word and so is the number of bytes that one read takes.
For the two greatest limits the sum does not fit into a word.  In a program that is
built without checks it wraps to zero and to one, and a read of no bytes is the end
of the input.  In one that checks its sums the first read panics (`Build.panics`), so
there is no feed.
-/

namespace ImportTidy

/-- Why a line could not be read. -/
inductive ReadError where
  /-- The line of this number has more bytes than the limit allows. -/
  | tooLong (line limit : Nat)
  /-- The input could not be read, or is not a text. -/
  | io (cause : IoError)
deriving DecidableEq, Repr

/-- The text of a failed read. -/
def ReadError.message : ReadError → String
  | .tooLong line limit =>
      "line " ++ toString line ++ " exceeds the maximum length of " ++ toString limit ++ " bytes"
  | .io cause => "IO error: " ++ cause.message

/-- What the reads of an input give, in order. -/
abbrev Feed := List (Except ReadError String)

/-! ## Cutting lines -/

/-- The byte that ends a line. -/
def newline : UInt8 := 0x0A

/-- The byte that may stand before the newline. -/
def carriageReturn : UInt8 := 0x0D

/-- The bytes up to and including the first newline, `span` of them at most, and
the bytes behind them. -/
def cutLine : Nat → List UInt8 → List UInt8 × List UInt8
  | 0, bytes => ([], bytes)
  | _, [] => ([], [])
  | span + 1, b :: bytes =>
      if b = newline then ([b], bytes)
      else
        let cut := cutLine span bytes
        (b :: cut.1, cut.2)

/-- Cutting loses nothing. -/
theorem cutLine_append (span : Nat) (bytes : List UInt8) :
    (cutLine span bytes).1 ++ (cutLine span bytes).2 = bytes := by
  induction bytes generalizing span with
  | nil => cases span <;> rfl
  | cons b bytes ih =>
    cases span with
    | zero => rfl
    | succ span =>
      by_cases h : b = newline
      · simp [cutLine, h]
      · simp [cutLine, h, ih]

/-- A cut takes at most `span` bytes. -/
theorem length_cutLine_le (span : Nat) (bytes : List UInt8) :
    (cutLine span bytes).1.length ≤ span := by
  induction bytes generalizing span with
  | nil => cases span <;> simp [cutLine]
  | cons b bytes ih =>
    cases span with
    | zero => simp [cutLine]
    | succ span =>
      by_cases h : b = newline
      · simp [cutLine, h]
      · simpa [cutLine, h] using ih span

/-- The bytes of a line without a final `CR LF` or `LF`. -/
def lineContent (line : List UInt8) : List UInt8 :=
  match line.reverse with
  | [] => []
  | b :: front =>
      if b = newline then
        match front with
        | [] => []
        | c :: rest => if c = carriageReturn then rest.reverse else front.reverse
      else line

/-- What a read of these bytes gives, as line `number` under the limit. -/
def judgeLine (limit : UInt64) (number : Nat) (line : List UInt8) : Except ReadError String :=
  if (lineContent line).length > limit.toNat then .error (.tooLong number limit.toNat)
  else
    match Utf8.decode line with
    | .ok text => .ok text
    | .error fault => .error (.io (.illFormed fault))

/-! ## The feed of a byte sequence -/

/-- The most bytes that one read takes: two more than the limit, as a 64-bit
word. -/
def readSpan (limit : UInt64) : Nat := (limit + 2).toNat

/-- How a program is built, which decides what becomes of a sum that does not fit into a
word. -/
inductive Build where
  /-- The sum wraps. -/
  | wrapping
  /-- The program panics. -/
  | checked
deriving DecidableEq, Repr

/-- A read under this limit panics. -/
def Build.panics (b : Build) (limit : UInt64) : Bool :=
  b = .checked && decide (UInt64.size ≤ limit.toNat + 2)

/-- The feed of the bytes behind line `number`. -/
def Feed.after (limit : UInt64) (number : Nat) (bytes : List UInt8) : Feed :=
  match h : cutLine (readSpan limit) bytes with
  | ([], _) => []
  | (b :: line, rest) =>
      judgeLine limit (number + 1) (b :: line) :: Feed.after limit (number + 1) rest
termination_by bytes.length
decreasing_by
  have := congrArg List.length (cutLine_append (readSpan limit) bytes)
  rw [h] at this
  simp only [List.length_append, List.length_cons] at this
  omega

/-- The feed of a byte sequence whose lines hold at most `limit` bytes. -/
def Feed.ofBytes (limit : UInt64) (bytes : List UInt8) : Feed := Feed.after limit 0 bytes

/-- The feed of a text. -/
def Feed.ofText (limit : UInt64) (text : String) : Feed := Feed.ofBytes limit (Utf8.encode text)

/-- The feed of an input that no read can be made on.  A read that takes no byte does not
fail. -/
def Feed.ofFailure (limit : UInt64) (cause : IoError) : Feed :=
  if readSpan limit = 0 then [] else [.error (.io cause)]

end ImportTidy
