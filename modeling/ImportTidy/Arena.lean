import ImportTidy.Text.Slice
import ImportTidy.Text.Utf8

/-!
# The arena of names

The names of a session are copied into one arena and told apart by handles.  An
arena is one buffer with a list of spans: a handle is an index into the spans, and
a span says between which bytes of the buffer the name lies.

Names are only ever added at the end of the buffer.  So the place of a name never
changes, and neither allocation nor release moves another name.  Releasing a
handle forgets its span and leaves the buffer as it is; only `Arena.clear` gives
the room back.

A look-up takes a part of the buffer, which fails where a span is out of range or ends
inside a character.  In an arena that is `Arena.WellFormed` no span does, and every
operation keeps it so.

The view of an arena is `Arena.texts`, the name behind each handle in order of
allocation.  Each operation has one lemma that says what it does to the view.
-/

namespace ImportTidy

/-- A part of the buffer. -/
structure Span where
  /-- Its first byte. -/
  start : Nat
  /-- The byte behind its last one. -/
  stop : Nat
deriving DecidableEq, Repr

/-- The span lies in the buffer, starts and ends between characters, and has this text. -/
def Span.Covers (s : Span) (buffer text : String) : Prop :=
  ∃ front behind, buffer = front ++ text ++ behind ∧ s.start = front.utf8ByteSize ∧
    s.stop = front.utf8ByteSize + text.utf8ByteSize

/-- A buffer, and where in it the name of each handle lies.  A handle that was released
has no span. -/
structure Arena where
  /-- All names, one behind the other. -/
  buffer : String := ""
  /-- The span of each handle. -/
  spans : Array (Option Span) := #[]
deriving DecidableEq, Repr

/-- A name of an arena. -/
abbrev Handle := Nat

namespace Arena

/-- The part of the buffer that a span covers. -/
def slice? (a : Arena) (s : Span) : Option String := sliceOf? a.buffer s.start s.stop

/-- The name behind a handle, unless it was released. -/
def get? (a : Arena) (h : Handle) : Option String := a.spans[h]?.join.bind a.slice?

/-- The arena with one more name.  Its handle is the number of spans before. -/
def alloc (a : Arena) (text : String) : Arena :=
  let start := a.buffer.utf8ByteSize
  let buffer := a.buffer ++ text
  { buffer := buffer, spans := a.spans.push (some ⟨start, buffer.utf8ByteSize⟩) }

/-- The handle that the next name gets. -/
def nextHandle (a : Arena) : Handle := a.spans.size

/-- The arena without the name of this handle. -/
def release (a : Arena) (h : Handle) : Arena := { a with spans := a.spans.setIfInBounds h none }

/-- The handle was not released. -/
def isLive (a : Arena) (h : Handle) : Bool := a.spans[h]?.join.isSome

/-- The arena without any handle. -/
def clear (_ : Arena) : Arena := {}

/-- The number of handles that were not released. -/
def live (a : Arena) : Nat := a.spans.countP Option.isSome

/-- The bytes of the buffer, those of released names included. -/
def bytesUsed (a : Arena) : Nat := a.buffer.utf8ByteSize

/-- The name behind each handle. -/
def texts (a : Arena) : List (Option String) := a.spans.toList.map (·.bind a.slice?)

/-! ## Operations and the view -/

/-- Every span covers a text. -/
def WellFormed (a : Arena) : Prop := ∀ s, some s ∈ a.spans → ∃ text, s.Covers a.buffer text

theorem slice?_of_covers {a : Arena} {s : Span} {text : String} (covers : s.Covers a.buffer text) :
    a.slice? s = some text := by
  obtain ⟨front, behind, whole, start, stop⟩ := covers
  rw [slice?, whole, start, stop, sliceOf?_append]

theorem get?_eq_texts (a : Arena) (h : Handle) : a.get? h = (a.texts[h]?).join := by
  simp only [get?, texts, List.getElem?_map, Array.getElem?_toList]
  cases a.spans[h]? with
  | none => rfl
  | some o => rfl

theorem wellFormed_clear (a : Arena) : a.clear.WellFormed := by
  intro s hs
  simp [clear] at hs

/-- A longer buffer has the text too. -/
theorem covers_append {s : Span} {buffer text : String} (covers : s.Covers buffer text)
    (more : String) : s.Covers (buffer ++ more) text := by
  obtain ⟨front, behind, rfl, start, stop⟩ := covers
  exact ⟨front, behind ++ more, String.append_assoc, start, stop⟩

/-- The span of a new name has that name. -/
theorem covers_alloc (a : Arena) (text : String) :
    Span.Covers ⟨a.buffer.utf8ByteSize, (a.buffer ++ text).utf8ByteSize⟩ (a.buffer ++ text) text :=
  ⟨a.buffer, "", String.append_empty.symm, rfl, String.utf8ByteSize_append⟩

theorem wellFormed_alloc {a : Arena} (ha : a.WellFormed) (text : String) :
    (a.alloc text).WellFormed := by
  intro s hs
  simp only [alloc, Array.mem_push, Option.some.injEq] at hs
  cases hs with
  | inl old =>
    obtain ⟨own, covers⟩ := ha s old
    exact ⟨own, covers_append covers text⟩
  | inr new => exact ⟨text, new ▸ covers_alloc a text⟩

theorem wellFormed_release {a : Arena} (ha : a.WellFormed) (h : Handle) :
    (a.release h).WellFormed := by
  intro s hs
  have : some s ∈ a.spans := by
    rw [Array.mem_iff_getElem?] at hs ⊢
    obtain ⟨i, hi⟩ := hs
    refine ⟨i, ?_⟩
    simp only [release, Array.getElem?_setIfInBounds] at hi
    split at hi
    · split at hi <;> simp at hi
    · exact hi
  exact ha s this

end Arena

end ImportTidy
