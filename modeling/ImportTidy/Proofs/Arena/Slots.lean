import ImportTidy.Proofs.Arena

/-!
# The arena as a growing list

Seen from outside an arena is a list of texts.  Allocation adds a text at the end, a release
takes a text away and leaves its place, and only clearing gives the places back.  `Slots` is
this list.  It keeps the text of a released handle too, since the buffer does.

`Arena.Fills` says that an arena shows such a list: each live span covers the text of its
place, and the buffer has all texts one behind the other.  Every action keeps it
(`Fills.act`), so every sequence of actions does (`fills_of`).

What a handle denotes is then read off the list.  While it is not cleared, a place keeps its
text and is live up to its first release (`Slots.getElem?_foldl_act`).
-/

namespace ImportTidy

namespace Arena

/-- What can be done with an arena. -/
inductive Action where
  /-- One more name. -/
  | alloc (text : String)
  /-- The release of a handle. -/
  | release (h : Handle)
  /-- The release of all handles. -/
  | clear
deriving DecidableEq

/-- What an action answers. -/
inductive Answer where
  /-- The handle of the new name. -/
  | handle (h : Handle)
  /-- Whether the handle had a name. -/
  | released (live : Bool)
  /-- Nothing. -/
  | done
deriving DecidableEq

/-- The arena after an action. -/
def act (a : Arena) : Action → Arena
  | .alloc text => a.alloc text
  | .release h => a.release h
  | .clear => a.clear

/-- What an arena answers to an action. -/
def answer (a : Arena) : Action → Answer
  | .alloc _ => .handle a.nextHandle
  | .release h => .released (a.isLive h)
  | .clear => .done

/-- The arena after actions on a new one. -/
def of (actions : List Action) : Arena := actions.foldl act {}

end Arena

/-! ## Places -/

/-- The place of a text. -/
structure Slot where
  /-- The text. -/
  text : String
  /-- Its handle was not released. -/
  live : Bool := true
deriving DecidableEq

namespace Slot

/-- The text, unless it was released. -/
def text? (s : Slot) : Option String := if s.live then some s.text else none

/-- The place after the release of its handle. -/
def freed (s : Slot) : Slot := { s with live := false }

@[simp] theorem text?_freed (s : Slot) : s.freed.text? = none := rfl

@[simp] theorem text_freed (s : Slot) : s.freed.text = s.text := rfl

theorem isSome_text? (s : Slot) : s.text?.isSome = s.live := by
  cases live : s.live <;> simp [text?, live]

end Slot

/-- The texts since the last clearing, in the order of their handles. -/
abbrev Slots := List Slot

namespace Slots

/-- The text of a handle. -/
def get? (slots : Slots) (h : Handle) : Option String := slots[h]?.bind Slot.text?

/-- The list after an action. -/
def act (slots : Slots) : Arena.Action → Slots
  | .alloc text => slots ++ [{ text := text }]
  | .release h => slots.modify h Slot.freed
  | .clear => []

/-- What the list answers to an action. -/
def answer (slots : Slots) : Arena.Action → Arena.Answer
  | .alloc _ => .handle slots.length
  | .release h => .released (slots.get? h).isSome
  | .clear => .done

/-- The list after actions on the empty one. -/
def of (actions : List Arena.Action) : Slots := actions.foldl act []

theorem map_text_release (slots : Slots) (h : Handle) :
    (slots.modify h Slot.freed).map Slot.text = slots.map Slot.text := by
  refine List.ext_getElem? fun i => ?_
  rw [List.getElem?_map, List.getElem?_map, List.getElem?_modify]
  cases slots[i]? with
  | none => rfl
  | some s => by_cases same : h = i <;> simp [same]

theorem map_text?_release (slots : Slots) (h : Handle) :
    (slots.modify h Slot.freed).map Slot.text? = (slots.map Slot.text?).set h none := by
  refine List.ext_getElem? fun i => ?_
  rw [List.getElem?_map, List.getElem?_modify, List.getElem?_set', List.getElem?_map]
  cases slots[i]? with
  | none => by_cases same : h = i <;> simp [same]
  | some s => by_cases same : h = i <;> simp [same]

/-- A place keeps its text.  It is live up to its first release. -/
theorem getElem?_foldl_act {slots : Slots} {s : Slot} {h : Handle}
    {actions : List Arena.Action} (at_ : slots[h]? = some s) (kept : .clear ∉ actions) :
    (actions.foldl act slots)[h]? =
      some { s with live := s.live && decide (.release h ∉ actions) } := by
  induction actions generalizing slots s with
  | nil => simp [at_]
  | cons x actions ih =>
    rw [List.mem_cons, not_or] at kept
    have inside : h < slots.length := (List.getElem?_eq_some_iff.mp at_).1
    rw [List.foldl_cons]
    cases x with
    | alloc text =>
      have same : (slots.act (.alloc text))[h]? = some s := by
        rw [act, List.getElem?_append_left inside, at_]
      simp [ih same kept.2]
    | release h' =>
      have changed : (slots.act (.release h'))[h]? = some (if h' = h then s.freed else s) := by
        rw [act, List.getElem?_modify, at_]
        rfl
      rw [ih changed kept.2]
      by_cases same : h' = h
      · simp [same, Slot.freed]
      · simp [same, Ne.symm same]
    | clear => exact absurd rfl kept.1

end Slots

/-! ## Arenas and lists -/

namespace Arena

/-- The handle has a span in the buffer, and the bytes of this span are those of the text. -/
def Covers (a : Arena) (h : Handle) (text : String) : Prop :=
  ∃ s, a.spans[h]? = some (some s) ∧ s.start ≤ s.stop ∧ s.stop ≤ a.buffer.utf8ByteSize ∧
    ((Utf8.encode a.buffer).drop s.start).take (s.stop - s.start) = Utf8.encode text

theorem WellFormed.covers {a : Arena} (wf : a.WellFormed) {h : Handle} {text : String}
    (live : a.get? h = some text) : a.Covers h text := by
  obtain ⟨s, span, part⟩ := Option.bind_eq_some_iff.mp live
  have at_ : a.spans[h]? = some (some s) := Option.join_eq_some_iff.mp span
  obtain ⟨own, covers⟩ := wf s (Array.mem_of_getElem? at_)
  obtain rfl : own = text := by
    rw [slice?_of_covers covers] at part
    exact Option.some.inj part
  obtain ⟨front, behind, whole, start, stop⟩ := covers
  refine ⟨s, at_, by omega, ?_, ?_⟩
  · rw [whole, String.utf8ByteSize_append, String.utf8ByteSize_append, stop]
    exact Nat.le_add_right _ _
  · rw [whole, stop, start, Nat.add_sub_cancel_left, Utf8.encode_append, Utf8.encode_append,
      List.append_assoc, ← Utf8.length_encode front, ← Utf8.length_encode own, List.drop_left,
      List.take_left]

theorem texts_release (a : Arena) (h : Handle) : (a.release h).texts = a.texts.set h none := by
  simp only [texts, release, Array.toList_setIfInBounds, List.map_set]
  rfl

theorem isLive_eq {a : Arena} (wf : a.WellFormed) (h : Handle) :
    a.isLive h = (a.get? h).isSome := by
  rw [isLive, get?]
  cases span : a.spans[h]? with
  | none => rfl
  | some s => exact (isSome_bind_slice? wf (Array.mem_of_getElem? span)).symm

/-- The arena shows the list, and its buffer has nothing else. -/
structure Fills (a : Arena) (slots : Slots) : Prop where
  wellFormed : a.WellFormed
  texts : a.texts = slots.map Slot.text?
  buffer : a.buffer = String.join (slots.map Slot.text)

theorem fills_empty : Fills {} [] := ⟨wellFormed_clear {}, rfl, rfl⟩

namespace Fills

variable {a : Arena} {slots : Slots}

theorem alloc (h : a.Fills slots) (text : String) :
    (a.alloc text).Fills (slots ++ [{ text := text }]) where
  wellFormed := wellFormed_alloc h.wellFormed text
  texts := by
    rw [texts_alloc h.wellFormed, h.texts, List.map_append]
    rfl
  buffer := by simp [Arena.alloc, h.buffer, String.join_append]

theorem release (h : a.Fills slots) (handle : Handle) :
    (a.release handle).Fills (slots.modify handle Slot.freed) where
  wellFormed := wellFormed_release h.wellFormed handle
  texts := by rw [texts_release, h.texts, Slots.map_text?_release]
  buffer := by
    rw [Slots.map_text_release, ← h.buffer]
    rfl

/-- The step lemma: an action does to the arena what it does to the list. -/
theorem act (h : a.Fills slots) (x : Action) : (a.act x).Fills (slots.act x) := by
  cases x with
  | alloc text => exact h.alloc text
  | release handle => exact h.release handle
  | clear => exact fills_empty

theorem foldl (h : a.Fills slots) (actions : List Action) :
    (actions.foldl Arena.act a).Fills (actions.foldl Slots.act slots) := by
  induction actions generalizing a slots with
  | nil => exact h
  | cons x actions ih => exact ih (h.act x)

theorem get?_eq (h : a.Fills slots) (handle : Handle) : a.get? handle = slots.get? handle := by
  rw [get?_eq_texts, h.texts, List.getElem?_map, Slots.get?]
  cases slots[handle]? <;> rfl

theorem nextHandle_eq (h : a.Fills slots) : a.nextHandle = slots.length := by
  rw [← length_texts, h.texts, List.length_map]

theorem answer_eq (h : a.Fills slots) (x : Action) : a.answer x = slots.answer x := by
  cases x with
  | alloc text => rw [answer, Slots.answer, h.nextHandle_eq]
  | release handle => rw [answer, Slots.answer, isLive_eq h.wellFormed, h.get?_eq]
  | clear => rfl

theorem live_eq (h : a.Fills slots) : a.live = slots.countP Slot.live := by
  rw [live_eq_countP_texts h.wellFormed, h.texts, List.countP_map]
  exact List.countP_congr fun s _ => by simp [Slot.isSome_text?]

theorem bytesUsed_eq (h : a.Fills slots) :
    a.bytesUsed = (slots.map (·.text.utf8ByteSize)).sum := by
  rw [bytesUsed_eq_of_buffer h.buffer, List.map_map]
  rfl

end Fills

theorem fills_of (actions : List Action) : (of actions).Fills (Slots.of actions) :=
  fills_empty.foldl actions

/-! ## Histories -/

/-- A release changes no other handle. -/
theorem get?_release_of_ne (a : Arena) {h h' : Handle} (other : h' ≠ h) :
    (a.release h).get? h' = a.get? h' := by
  rw [get?_eq_texts, get?_eq_texts, texts_release, List.getElem?_set_ne other.symm]

/-- A handle keeps the text that it was made for, up to its release. -/
theorem get?_of_alloc (before : List Action) (text : String) {after : List Action}
    (kept : .clear ∉ after) :
    (of (before ++ .alloc text :: after)).get? (of before).nextHandle =
      if .release (of before).nextHandle ∈ after then none else some text := by
  have made : ((Slots.of before).act (.alloc text))[(of before).nextHandle]? =
      some { text := text } := by
    rw [(fills_of before).nextHandle_eq, Slots.act]
    simp
  have slot := Slots.getElem?_foldl_act made kept
  rw [(fills_of _).get?_eq, Slots.get?, Slots.of, List.foldl_append, List.foldl_cons, ← Slots.of,
    slot]
  by_cases released : .release (of before).nextHandle ∈ after <;> simp [released, Slot.text?]

/-- After every sequence of allocations, releases and clearings the arena shows the list that
these actions make.

* A handle has the text of its place, which its span in the buffer covers to the byte.
* The next action is answered as the list answers it: handles count from zero since the last
  clearing, and a release says whether the handle had a name.
* As many names are live as there are places that were not released, and the buffer takes the
  bytes of all of them.
* A release changes no other handle.
* A handle has the text that it was made for, whatever was allocated and released since, and
  from its release on it has none. -/
theorem of_shows_slots (actions : List Action) :
    (∀ h, (of actions).get? h = (Slots.of actions).get? h) ∧
    (∀ h text, (of actions).get? h = some text → (of actions).Covers h text) ∧
    (∀ x, (of actions).answer x = (Slots.of actions).answer x) ∧
    (of actions).live = (Slots.of actions).countP Slot.live ∧
    (of actions).bytesUsed = ((Slots.of actions).map (·.text.utf8ByteSize)).sum ∧
    (∀ h, ((of actions).answer (.release h) = .released true ↔
        ∃ text, (of actions).get? h = some text) ∧
      ∀ h', h' ≠ h → ((of actions).act (.release h)).get? h' = (of actions).get? h') ∧
    ∀ before text after, actions = before ++ .alloc text :: after → .clear ∉ after →
      (of actions).get? (of before).nextHandle =
        if .release (of before).nextHandle ∈ after then none else some text := by
  have fills := fills_of actions
  refine ⟨fills.get?_eq, ?_, fills.answer_eq, fills.live_eq, fills.bytesUsed_eq, ?_, ?_⟩
  · intro h text live
    exact fills.wellFormed.covers live
  · intro h
    constructor
    · rw [answer, isLive_eq fills.wellFormed, Answer.released.injEq, Option.isSome_iff_exists]
    · intro h' other
      exact get?_release_of_ne _ other
  · rintro before text after rfl kept
    exact get?_of_alloc before text kept

/-- The empty name in second place stays, the name before it is released twice, and the index
of the third name was released too early to count. -/
theorem of_shows_slots_of_release :
    (of [.release 2, .alloc "é", .alloc "", .release 0, .alloc "x", .release 0]).get? 0 = none ∧
      (of [.release 2, .alloc "é", .alloc "", .release 0, .alloc "x", .release 0]).get? 1 =
        some "" ∧
      (of [.release 2, .alloc "é", .alloc "", .release 0, .alloc "x", .release 0]).get? 2 =
        some "x" := by
  obtain ⟨-, -, -, -, -, -, kept⟩ := of_shows_slots
    [.release 2, .alloc "é", .alloc "", .release 0, .alloc "x", .release 0]
  exact ⟨kept [.release 2] "é" _ rfl (by decide),
    kept [.release 2, .alloc "é"] "" _ rfl (by decide),
    kept [.release 2, .alloc "é", .alloc "", .release 0] "x" _ rfl (by decide)⟩

end Arena

end ImportTidy
