/-!
# What a YAML text without quotes denotes

A reader of YAML takes a text without quotes for null, a truth value or a number
where it looks like one.  `Yaml.resolves` says that it would.  Such a text needs
quotes to stay a text.

* null is empty, `~`, or the word in lower case, capitalised or in upper case.
* A truth value is `true` or `false` in one of the same three forms.
* An integer has a sign or none, and digits of base ten, or of base 16, 8 or 2
  behind `0x`, `0o` or `0b`.  It fits into 128 bits, with a sign if it is negative.
* A float is a decimal with a point, an exponent, both or neither, that rounds to a
  finite number of double precision, or one of the names of infinity and of no
  number.
* Several digits with a zero in front are no number.  They get quotes as well, since
  other readers take them for one.
-/

namespace ImportTidy.Yaml

/-! ## Names -/

/-- The texts that denote null. -/
def nullNames : List String := ["", "~", "null", "Null", "NULL"]

/-- The texts that denote a truth value. -/
def boolNames : List String := ["true", "True", "TRUE", "false", "False", "FALSE"]

/-- The texts that denote an infinity or no number. -/
def floatNames : List String :=
  [".inf", ".Inf", ".INF", "+.inf", "+.Inf", "+.INF", "-.inf", "-.Inf", "-.INF",
   ".nan", ".NaN", ".NAN"]

/-! ## Digits -/

/-- The value of a digit of this base. -/
def digitValue? (base : Nat) (c : Char) : Option Nat :=
  let value? : Option Nat :=
    if '0' ≤ c ∧ c ≤ '9' then some (c.toNat - 0x30)
    else if 'a' ≤ c ∧ c ≤ 'z' then some (c.toNat - 0x57)
    else if 'A' ≤ c ∧ c ≤ 'Z' then some (c.toNat - 0x37)
    else none
  value?.filter (· < base)

/-- The number that digits of this base denote, behind the digits of `n`. -/
def numberFrom? (base n : Nat) : List Char → Option Nat
  | [] => some n
  | c :: cs =>
      match digitValue? base c with
      | none => none
      | some d => numberFrom? base (base * n + d) cs

/-- The number that one or more digits of this base denote. -/
def number? (base : Nat) (cs : List Char) : Option Nat :=
  if cs.isEmpty then none else numberFrom? base 0 cs

/-- The text is decimal digits behind a zero, with a sign or none. -/
def isZeroPadded (cs : List Char) : Bool :=
  let unsigned := match cs with
    | '+' :: rest => rest
    | '-' :: rest => rest
    | rest => rest
  match unsigned with
  | '0' :: d :: rest => (d :: rest).all Char.isDigit
  | _ => false

/-! ## Integers -/

/-- The number that the digits behind an optional sign denote. -/
def magnitude? : List Char → Option Nat
  | '0' :: 'x' :: rest => number? 16 rest
  | '0' :: 'o' :: rest => number? 8 rest
  | '0' :: 'b' :: rest => number? 2 rest
  | cs => number? 10 cs

/-- The number fits into the bits. -/
def fits (bound : Nat) (n? : Option Nat) : Bool :=
  match n? with
  | some n => n < bound
  | none => false

/-- The text denotes an integer. -/
def isInteger : List Char → Bool
  | '+' :: rest => fits (Nat.pow 2 128) (magnitude? rest)
  | '-' :: rest => fits (Nat.pow 2 127 + 1) (magnitude? rest)
  | cs => fits (Nat.pow 2 128) (magnitude? cs)

/-! ## Floats -/

/-- A decimal: its digits without the point, how many of them stand behind the
point, and its exponent. -/
structure Decimal where
  /-- The digits. -/
  digits : List Char
  /-- How many stand behind the point. -/
  places : Nat
  /-- The exponent. -/
  exponent : Int

/-- The exponent of a decimal, which may be absent. -/
def exponent? : List Char → Option Int
  | [] => some 0
  | e :: rest =>
      if e = 'e' ∨ e = 'E' then
        match rest with
        | '+' :: digits => (number? 10 digits).map Int.ofNat
        | '-' :: digits => (number? 10 digits).map fun n => -(n : Int)
        | digits => (number? 10 digits).map Int.ofNat
      else none

/-- The decimal that a text without a sign is. -/
def decimal? (cs : List Char) : Option Decimal :=
  let whole := cs.takeWhile Char.isDigit
  let (part, rest) := match cs.dropWhile Char.isDigit with
    | '.' :: rest => (rest.takeWhile Char.isDigit, rest.dropWhile Char.isDigit)
    | rest => ([], rest)
  if whole.isEmpty && part.isEmpty then none
  else (exponent? rest).map fun e => ⟨whole ++ part, part.length, e⟩

/-- The least number that no longer rounds to a finite number of double precision. -/
def overflow : Nat := Nat.pow 2 1024 - Nat.pow 2 970

/-- The decimal rounds to a finite number.  Its size is told by the place of its
first digit that is not zero, and by the digits where that place is the greatest
one possible. -/
def Decimal.isFinite (d : Decimal) : Bool :=
  let significant := d.digits.dropWhile (· = '0')
  let scale := d.exponent - (d.places : Int)
  let size := (significant.length : Int) + scale
  if significant.isEmpty || size < 309 then true
  else if 309 < size then false
  else
    let n := (number? 10 significant).getD 0
    if 0 ≤ scale then n * Nat.pow 10 scale.toNat < overflow
    else n < overflow * Nat.pow 10 (-scale).toNat

/-- The text is a decimal that rounds to a finite number. -/
def isDecimal (cs : List Char) : Bool :=
  let unsigned := match cs with
    | '+' :: rest => rest
    | '-' :: rest => rest
    | rest => rest
  match decimal? unsigned with
  | some d => d.isFinite
  | none => false

/-! ## The rule -/

/-- A reader would not take the text for a text, or might not. -/
def resolves (text : String) : Bool :=
  let cs := text.toList
  nullNames.contains text || boolNames.contains text || floatNames.contains text
    || isZeroPadded cs || isInteger cs || isDecimal cs

end ImportTidy.Yaml
