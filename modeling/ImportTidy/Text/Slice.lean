/-!
# Parts of a text

A part of a text is taken by the places of its ends, which count bytes.  `sliceOf?` fails where
a place is out of range or inside a character.  It gives what stands between its places
(`sliceOf?_append`).
-/

namespace ImportTidy

/-- The part of a text between two bytes. -/
def sliceOf? (text : String) (start stop : Nat) : Option String := do
  let p ← text.pos? ⟨start⟩
  let q ← text.pos? ⟨stop⟩
  let part ← text.slice? p q
  return part.copy

theorem pos?_of_isValid {text : String} {place : String.Pos.Raw} (valid : place.IsValid text) :
    text.pos? place = some ⟨place, valid⟩ := by
  have validForSlice := String.Pos.Raw.isValidForSlice_toSlice_iff.mpr valid
  simp only [String.pos?, String.Slice.pos?]
  rw [dif_pos (String.Pos.Raw.isValidForSlice_eq_true_iff.mpr validForSlice)]
  rfl

/-- A part of a text stands between its bytes. -/
theorem sliceOf?_append (front part behind : String) :
    sliceOf? (front ++ part ++ behind) front.utf8ByteSize
      (front.utf8ByteSize + part.utf8ByteSize) = some part := by
  have start : String.Pos.Raw.IsValid (front ++ part ++ behind) ⟨front.utf8ByteSize⟩ :=
    String.Pos.Raw.isValid_iff_exists_append.mpr
      ⟨front, part ++ behind, String.append_assoc, rfl⟩
  have stop : String.Pos.Raw.IsValid (front ++ part ++ behind)
      ⟨front.utf8ByteSize + part.utf8ByteSize⟩ := by
    refine String.Pos.Raw.isValid_iff_exists_append.mpr ⟨front ++ part, behind, rfl, ?_⟩
    rw [← String.utf8ByteSize_append]
    rfl
  have inOrder : (⟨_, start⟩ : (front ++ part ++ behind).Pos) ≤ ⟨_, stop⟩ :=
    Nat.le_add_right front.utf8ByteSize part.utf8ByteSize
  rw [sliceOf?, pos?_of_isValid start, pos?_of_isValid stop]
  simp only [Option.bind_eq_bind, Option.bind_some, String.slice?, dif_pos inOrder]
  rw [Option.pure_def, Option.some.injEq, ← String.toByteArray_inj, String.toByteArray_copy_slice,
    String.toByteArray_append, String.toByteArray_append, ByteArray.append_assoc]
  exact (ByteArray.extract_append_size_add' (i := 0) rfl).trans (ByteArray.extract_append_eq_left rfl)

end ImportTidy
