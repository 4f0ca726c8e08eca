/-!
# Texts and their bytes

Files and paths are lists of bytes; texts are written to them in UTF-8.  Not every list of bytes is
the writing of a text, so reading comes in two forms.

* `Text.bytes`: the bytes of a text;
* `Text.ofBytes?`: the text that was written, if the bytes are the writing of one;
* `Text.shown`: a text for any bytes at all, in which every malformed stretch appears as one
  replacement character.
-/

namespace RulePack.Text

/-- The bytes of a text. -/
def bytes (text : String) : List UInt8 := text.toList.flatMap String.utf8EncodeChar

/-- The text that the bytes are the writing of, if there is one. -/
def ofBytes? (bytes : List UInt8) : Option String := String.fromUTF8? bytes.toByteArray

theorem toByteArray_bytes (text : String) : (bytes text).toByteArray = text.toByteArray := by
  show text.toList.utf8Encode = text.toByteArray
  rw [String.utf8Encode_toList]

/-- A text is read back from its bytes. -/
theorem ofBytes?_bytes (text : String) : ofBytes? (bytes text) = some text := by
  have h : text.toByteArray.IsValidUTF8 := text.isValidUTF8
  rw [ofBytes?, toByteArray_bytes, String.fromUTF8?, dif_pos h]
  rfl

theorem bytes_injective {text other : String} (h : bytes text = bytes other) : text = other := by
  have hread : ofBytes? (bytes text) = some other := by rw [h, ofBytes?_bytes]
  rw [ofBytes?_bytes] at hread
  exact Option.some.inj hread

/-! ### Malformed bytes -/

/-- What a first byte announces: the bits it contributes, how many bytes follow it, and between
which bounds the next of them lies. -/
structure Lead where
  bits : Nat
  following : Nat
  least : UInt8
  greatest : UInt8

/-- The announcement of a first byte, if it is one. -/
def lead? (b : UInt8) : Option Lead :=
  if b < 0x80 then some ⟨b.toNat, 0, 0x80, 0xBF⟩
  else if b < 0xC2 then none
  else if b < 0xE0 then some ⟨b.toNat - 0xC0, 1, 0x80, 0xBF⟩
  else if b = 0xE0 then some ⟨0, 2, 0xA0, 0xBF⟩
  else if b = 0xED then some ⟨0xD, 2, 0x80, 0x9F⟩
  else if b < 0xF0 then some ⟨b.toNat - 0xE0, 2, 0x80, 0xBF⟩
  else if b = 0xF0 then some ⟨0, 3, 0x90, 0xBF⟩
  else if b < 0xF4 then some ⟨b.toNat - 0xF0, 3, 0x80, 0xBF⟩
  else if b = 0xF4 then some ⟨4, 3, 0x80, 0x8F⟩
  else none

/-- The character that stands for a malformed stretch. -/
def replacement : Char := '\uFFFD'

/-- Reads bytes after the announcement `pending`, if one is open.  A stretch ends before the first
byte that cannot continue it, and that byte is read afresh. -/
def repairFrom (pending : Option Lead) : List UInt8 → List Char
  | [] => if pending.isSome then [replacement] else []
  | b :: rest =>
    match pending.filter (fun l => l.least ≤ b && b ≤ l.greatest) with
    | some l =>
      let bits := l.bits * 64 + (b.toNat - 0x80)
      if l.following = 1 then Char.ofNat bits :: repairFrom none rest
      else repairFrom (some ⟨bits, l.following - 1, 0x80, 0xBF⟩) rest
    | none =>
      let broken : List Char := if pending.isSome then [replacement] else []
      match lead? b with
      | none => broken ++ replacement :: repairFrom none rest
      | some l =>
        if l.following = 0 then broken ++ Char.ofNat l.bits :: repairFrom none rest
        else broken ++ repairFrom (some l) rest

/-- The bytes as a text; each longest stretch that begins a character but does not complete it, and
each byte that begins none, becomes one replacement character. -/
def shown (bytes : List UInt8) : String :=
  (ofBytes? bytes).getD (String.ofList (repairFrom none bytes))

theorem shown_bytes (text : String) : shown (bytes text) = text := by
  rw [shown, ofBytes?_bytes]
  rfl

end RulePack.Text
