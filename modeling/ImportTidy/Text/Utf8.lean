/-!
# UTF-8 and its faults

A text is read from bytes.  `decode` gives the text the bytes encode, or the
first fault in them.

A fault has a place and an extent.

* The place is the number of bytes before the first character that is not well
  formed.
* The extent is the number of bytes that belong together there: the bytes that a
  well-formed character could start with, and never fewer than one.  Bytes that
  end inside a character have no extent, since more bytes could complete them.

Bytes that are no text are shown with a mark for each fault (`decodeLossy`).  What is shown
is put out byte by byte, each character where it is complete (`Begun`).

The decoder's state between two bytes is a `State`.  It says which bytes may
come next: how many continuation bytes are owed, and the range of the next one.
The ranges that are narrower than `80..BF` keep out overlong forms, surrogates
and values above `10FFFF`.
-/

namespace ImportTidy.Utf8

/-! ## The states between bytes -/

/-- Where a decoder stands between two bytes. -/
structure State where
  /-- Continuation bytes still owed.  None are owed between characters. -/
  owed : Nat
  /-- The least continuation byte that may come next. -/
  low : UInt8 := 0x80
  /-- The greatest continuation byte that may come next. -/
  high : UInt8 := 0xBF
deriving DecidableEq, Repr

/-- Between two characters. -/
def State.boundary : State := { owed := 0 }

/-- The state after the first byte of a character, or none for a byte that
starts no character. -/
def State.afterFirst (b : UInt8) : Option State :=
  if b ≤ 0x7F then some .boundary
  else if b < 0xC2 then none
  else if b ≤ 0xDF then some { owed := 1 }
  else if b = 0xE0 then some { owed := 2, low := 0xA0 }
  else if b = 0xED then some { owed := 2, high := 0x9F }
  else if b ≤ 0xEF then some { owed := 2 }
  else if b = 0xF0 then some { owed := 3, low := 0x90 }
  else if b ≤ 0xF3 then some { owed := 3 }
  else if b = 0xF4 then some { owed := 3, high := 0x8F }
  else none

/-- The state after one more byte, or none where the byte cannot stand. -/
def State.step (s : State) (b : UInt8) : Option State :=
  match s.owed with
  | 0 => State.afterFirst b
  | n + 1 => if s.low ≤ b ∧ b ≤ s.high then some { owed := n } else none

/-! ## Faults -/

/-- The first fault of a byte sequence. -/
structure Fault where
  /-- Bytes before the character that is not well formed. -/
  index : Nat
  /-- Bytes of the broken sequence.  None when the input ends inside a
  character. -/
  extent : Option Nat
deriving DecidableEq, Repr

/-- The text of a fault. -/
def Fault.message (f : Fault) : String :=
  match f.extent with
  | some n =>
      "invalid utf-8 sequence of " ++ toString n ++ " bytes from index " ++ toString f.index
  | none => "incomplete utf-8 byte sequence from index " ++ toString f.index

/-- The first fault from a state on.  `start` is where the character at hand
begins and `seen` the number of its bytes already read. -/
def faultFrom? (start seen : Nat) (s : State) : List UInt8 → Option Fault
  | [] => if s.owed = 0 then none else some ⟨start, none⟩
  | b :: bs =>
      match s.step b with
      | none => some ⟨start, some (max 1 seen)⟩
      | some t =>
          if t.owed = 0 then faultFrom? (start + seen + 1) 0 t bs
          else faultFrom? start (seen + 1) t bs

/-- The first fault of a byte sequence, if it has one. -/
def fault? (bytes : List UInt8) : Option Fault := faultFrom? 0 0 .boundary bytes

/-! ## Encoding and decoding -/

/-- The bytes of a text. -/
def encode (s : String) : List UInt8 := s.toByteArray.data.toList

/-- The text the bytes encode, or their first fault. -/
def decode (bytes : List UInt8) : Except Fault String :=
  match String.fromUTF8? ⟨bytes.toArray⟩ with
  | some s => .ok s
  | none => .error ((fault? bytes).getD ⟨0, none⟩)

/-- Decoding undoes encoding. -/
theorem decode_encode (s : String) : decode (encode s) = .ok s := by
  have h : (⟨(encode s).toArray⟩ : ByteArray) = s.toByteArray := by
    simp [encode]
  rw [decode, h, String.fromUTF8?, dif_pos s.isValidUTF8]
  rfl

/-- Encoding undoes decoding. -/
theorem encode_of_decode {bytes : List UInt8} {s : String} (h : decode bytes = .ok s) :
    encode s = bytes := by
  rw [decode, String.fromUTF8?] at h
  split at h
  next valid found =>
    cases h
    split at found
    · cases found
      simp [encode, String.fromUTF8]
    · cases found
  next => cases h

/-- Different texts have different bytes. -/
theorem encode_injective {s t : String} (h : encode s = encode t) : s = t := by
  have := decode_encode s
  rw [h, decode_encode t] at this
  exact (Except.ok.inj this).symm

theorem length_encode (s : String) : (encode s).length = s.utf8ByteSize := by
  rfl

theorem encode_append (s t : String) : encode (s ++ t) = encode s ++ encode t := by
  simp [encode]

/-! ## Showing what is no text -/

/-- The mark that stands for bytes that are no text. -/
def mark : Char := '\uFFFD'

/-- The bytes of a character that is not complete, and the state behind them. -/
structure Begun where
  bytes : List UInt8 := []
  state : State := .boundary
deriving DecidableEq, Repr

namespace Begun

/-- What is shown of one more byte of the character, and what is begun behind it.  None where
the byte cannot stand. -/
def take? (p : Begun) (b : UInt8) : Option (String × Begun) :=
  (p.state.step b).map fun s =>
    if s.owed = 0 then ((decode (p.bytes ++ [b])).toOption.getD (.singleton mark), {})
    else ("", ⟨p.bytes ++ [b], s⟩)

/-- What is shown of a byte between two characters. -/
def start (b : UInt8) : String × Begun := (take? {} b).getD (.singleton mark, {})

/-- What is shown of a byte.  A byte that cannot stand breaks off the character, and stands
between two of them. -/
def take (p : Begun) (b : UInt8) : String × Begun :=
  if p.bytes = [] then start b
  else (p.take? b).getD (.singleton mark ++ (start b).1, (start b).2)

/-- What is shown of the bytes behind these. -/
def shown (p : Begun) : List UInt8 → String
  | [] => if p.bytes = [] then "" else .singleton mark
  | b :: bs =>
      let taken := p.take b
      taken.1 ++ taken.2.shown bs

end Begun

/-- The text that is shown for bytes: each broken sequence becomes a mark. -/
def decodeLossy (bytes : List UInt8) : String := Begun.shown {} bytes

end ImportTidy.Utf8
