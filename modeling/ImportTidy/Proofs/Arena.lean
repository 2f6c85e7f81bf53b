import Mathlib.Algebra.BigOperators.Group.List.Defs
import Mathlib.Algebra.GroupWithZero.Nat
import ImportTidy.Arena

/-!
# What an allocation does to an arena

Allocation adds one text at the end of the view `Arena.texts` and moves no other.
So a live handle keeps its text (`Arena.Keeps`), and the new handle has the new one.

Spans that lie in the buffer are what makes this true.  A span behind its end would cover
nothing, and something else once the buffer has grown.

`Arena.Holds` says of an arena from which nothing was released that it has certain
texts and nothing else.  It gives the counts of the arena.
-/

namespace ImportTidy

namespace Arena

/-- A span covers the same text of every longer buffer. -/
theorem slice?_alloc {a : Arena} (ha : a.WellFormed) {s : Span} (old : some s ∈ a.spans)
    (text : String) : (a.alloc text).slice? s = a.slice? s := by
  obtain ⟨own, covers⟩ := ha s old
  rw [slice?_of_covers covers]
  exact slice?_of_covers (covers_append covers text)

/-- Allocation adds the text at the end of the view. -/
theorem texts_alloc {a : Arena} (ha : a.WellFormed) (text : String) :
    (a.alloc text).texts = a.texts ++ [some text] := by
  have kept : ∀ s ∈ a.spans.toList, s.bind (a.alloc text).slice? = s.bind a.slice? := by
    intro s mem
    cases s with
    | none => rfl
    | some span => exact slice?_alloc ha (by simpa using mem) text
  have added : (a.alloc text).slice? ⟨a.buffer.utf8ByteSize, (a.buffer ++ text).utf8ByteSize⟩ =
      some text := slice?_of_covers (covers_alloc a text)
  have spans : (a.alloc text).spans.toList =
      a.spans.toList ++ [some ⟨a.buffer.utf8ByteSize, (a.buffer ++ text).utf8ByteSize⟩] := by
    simp [alloc]
  rw [texts, spans, List.map_append, List.map_congr_left kept, List.map_singleton,
    Option.bind_some, added, texts]

theorem length_texts (a : Arena) : a.texts.length = a.nextHandle := by
  simp [texts, nextHandle]

/-- A live handle keeps its text. -/
theorem get?_alloc {a : Arena} (ha : a.WellFormed) (text : String) {h : Handle} {t : String}
    (live : a.get? h = some t) : (a.alloc text).get? h = some t := by
  rw [get?_eq_texts] at live ⊢
  cases Nat.lt_or_ge h a.texts.length with
  | inl inside =>
    rw [texts_alloc ha, List.getElem?_append_left inside]
    exact live
  | inr outside =>
    rw [List.getElem?_eq_none outside] at live
    cases live

/-- The new handle has the new text. -/
theorem get?_alloc_nextHandle {a : Arena} (ha : a.WellFormed) (text : String) :
    (a.alloc text).get? a.nextHandle = some text := by
  rw [get?_eq_texts, texts_alloc ha, ← length_texts]
  simp

@[simp] theorem nextHandle_alloc (a : Arena) (text : String) :
    (a.alloc text).nextHandle = a.nextHandle + 1 := by
  simp [nextHandle, alloc]

/-! ## Live handles keep their texts -/

/-- Live handles of the one arena have the same texts in the other. -/
def Keeps (a a' : Arena) : Prop :=
  a.WellFormed → a'.WellFormed ∧ ∀ h t, a.get? h = some t → a'.get? h = some t

namespace Keeps

variable {a a' a'' : Arena}

theorem refl (a : Arena) : a.Keeps a := fun wf => ⟨wf, fun _ _ live => live⟩

theorem trans (first : a.Keeps a') (second : a'.Keeps a'') : a.Keeps a'' := by
  intro wf
  obtain ⟨wf', kept⟩ := first wf
  obtain ⟨wf'', kept'⟩ := second wf'
  exact ⟨wf'', fun h t live => kept' h t (kept h t live)⟩

theorem alloc (a : Arena) (text : String) : a.Keeps (a.alloc text) := fun wf =>
  ⟨wellFormed_alloc wf text, fun _ _ live => get?_alloc wf text live⟩

theorem named (keeps : a.Keeps a') (wf : a.WellFormed) {hs : List Handle} {texts : List String}
    (named : hs.map a.get? = texts.map some) : hs.map a'.get? = texts.map some := by
  rw [← named]
  refine List.map_congr_left fun h mem => ?_
  have isSome : a.get? h ∈ texts.map some := named ▸ List.mem_map_of_mem mem
  obtain ⟨t, -, live⟩ := List.mem_map.mp isSome
  rw [← live]
  exact (keeps wf).2 h t live.symm

end Keeps

/-! ## Arenas without a released handle -/

/-- The handles of the arena have these texts in order, and the buffer has nothing else. -/
structure Holds (a : Arena) (ts : List String) : Prop where
  wellFormed : a.WellFormed
  texts : a.texts = ts.map some
  buffer : a.buffer = String.join ts

theorem holds_empty : Holds {} [] := ⟨wellFormed_clear {}, rfl, rfl⟩

/-- A span that was not released has a text. -/
theorem isSome_bind_slice? {a : Arena} (ha : a.WellFormed) {s : Option Span} (mem : s ∈ a.spans) :
    (s.bind a.slice?).isSome = s.isSome := by
  cases s with
  | none => rfl
  | some span =>
    obtain ⟨text, covers⟩ := ha span mem
    rw [Option.bind_some, slice?_of_covers covers, Option.isSome_some, Option.isSome_some]

/-- The live names are those of the view. -/
theorem live_eq_countP_texts {a : Arena} (ha : a.WellFormed) :
    a.live = a.texts.countP Option.isSome := by
  rw [live, texts, List.countP_map, ← Array.countP_toList]
  refine List.countP_congr fun s mem => ?_
  rw [Function.comp_apply, isSome_bind_slice? ha (by simpa using mem)]

/-- A buffer of texts takes their bytes. -/
theorem bytesUsed_eq_of_buffer {a : Arena} {ts : List String} (buffer : a.buffer = String.join ts) :
    a.bytesUsed = (ts.map String.utf8ByteSize).sum := by
  rw [bytesUsed, buffer]
  clear buffer
  induction ts with
  | nil => rfl
  | cons t ts ih => rw [String.join_cons, String.utf8ByteSize_append, ih, List.map_cons, List.sum_cons]

namespace Holds

variable {a : Arena} {ts : List String}

theorem alloc (h : a.Holds ts) (text : String) : (a.alloc text).Holds (ts ++ [text]) := by
  refine ⟨wellFormed_alloc h.wellFormed text, ?_, ?_⟩
  · rw [texts_alloc h.wellFormed, h.texts, List.map_append, List.map_singleton]
  · simp [Arena.alloc, h.buffer, String.join_append]

theorem length_eq (h : a.Holds ts) : ts.length = a.nextHandle := by
  rw [← length_texts, h.texts, List.length_map]

theorem get?_eq (h : a.Holds ts) (handle : Handle) : a.get? handle = ts[handle]? := by
  rw [get?_eq_texts, h.texts, List.getElem?_map]
  cases ts[handle]? <;> rfl

theorem live_eq (h : a.Holds ts) : a.live = ts.length := by
  rw [live_eq_countP_texts h.wellFormed, h.texts, List.countP_eq_length.mpr (by simp), List.length_map]

theorem bytesUsed_eq (h : a.Holds ts) : a.bytesUsed = (ts.map String.utf8ByteSize).sum :=
  bytesUsed_eq_of_buffer h.buffer

end Holds

end Arena

end ImportTidy
