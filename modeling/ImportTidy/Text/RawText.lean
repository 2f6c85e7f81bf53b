import ImportTidy.Text.Utf8

/-!
# Names that need not be texts

A name in a file system is a sequence of bytes, and so is an argument of a command.  Most of
them are texts in UTF-8, but none has to be.

* `RawText.ofText` is the bytes of a text.  A text stands for its bytes where a `RawText` is
  wanted.
* `RawText.text?` is the text that the bytes are, if they are one.  Where a text is needed,
  bytes that are none are refused.
* `RawText.shown` is what is shown of the bytes: the text that they are, or one with marks.
-/

namespace ImportTidy

/-- Bytes that may be a text. -/
structure RawText where
  /-- The bytes. -/
  bytes : List UInt8
deriving DecidableEq, Repr, Inhabited

namespace RawText

/-- The bytes of a text. -/
def ofText (text : String) : RawText := ⟨Utf8.encode text⟩

instance : Coe String RawText := ⟨ofText⟩

instance : Append RawText := ⟨fun r s => ⟨r.bytes ++ s.bytes⟩⟩

/-- The text that the bytes are. -/
def text? (r : RawText) : Option String := (Utf8.decode r.bytes).toOption

/-- The text that is shown. -/
def shown (r : RawText) : String := Utf8.decodeLossy r.bytes

@[simp] theorem bytes_append (r s : RawText) : (r ++ s).bytes = r.bytes ++ s.bytes := rfl

@[simp] theorem bytes_ofText (text : String) : (ofText text).bytes = Utf8.encode text := rfl

@[simp] theorem text?_ofText (text : String) : (ofText text).text? = some text := by
  rw [text?, bytes_ofText, Utf8.decode_encode]
  rfl

end RawText

end ImportTidy
