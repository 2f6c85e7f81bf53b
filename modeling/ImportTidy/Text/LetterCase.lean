import ImportTidy.Text.LetterCase.Table

/-!
# Lower case

`lower` gives a text in lower case.  Nearly every character has one character as its
lower case, which may be itself.  Two do not.

* The lower case of `İ` is `i` with a dot above.
* The lower case of `Σ` is `ς` at the end of a word, and `σ` elsewhere.

A `Σ` is at the end of a word if a cased character stands before it and none behind
it.  Characters between these that do not end a word do not count.
-/

namespace ImportTidy.LetterCase

/-- The number lies in one of the ranges. -/
def within (ranges : List (Nat × Nat)) (n : Nat) : Bool :=
  ranges.any fun r => r.1 ≤ n && n ≤ r.2

/-- The run has this number. -/
def Run.contains (r : Run) (n : Nat) : Bool :=
  r.first ≤ n && n ≤ r.last && (n - r.first) % r.step = 0

/-- The lower case of a character that has one of one character. -/
def lowerChar (c : Char) : Char :=
  if c.toNat < 0x80 then c.toLower
  else
    match lowering.find? (·.contains c.toNat) with
    | some r => Char.ofNat (c.toNat + r.shift).toNat
    | none => c

/-- The nearest of these characters that can end a word has a case. -/
def reachesCased (cs : List Char) : Bool :=
  match cs.dropWhile fun c => within ignorable c.toNat with
  | [] => false
  | c :: _ => within cased c.toNat

/-- The lower case of a character between those before it, nearest first, and those behind
it. -/
def lowerAt (before : List Char) (c : Char) (behind : List Char) : List Char :=
  if c = 'İ' then ['i', '\u0307']
  else if c = 'Σ' then [if reachesCased before && !reachesCased behind then 'ς' else 'σ']
  else [lowerChar c]

/-- The lower case of characters behind others, nearest first. -/
def lowerFrom (before : List Char) : List Char → List Char
  | [] => []
  | c :: cs => lowerAt before c cs ++ lowerFrom (c :: before) cs

/-- A text in lower case. -/
def lower (text : String) : String := String.ofList (lowerFrom [] text.toList)

end ImportTidy.LetterCase
