/-!
# UTF-8

The bytes of a text and the text of bytes. Decoding refuses bytes that are not the encoding of any
text: overlong forms, surrogates, values above the last character, and sequences cut short.
-/

namespace Ensemble

/-- A sequence of bytes, as it travels between members. -/
abbrev Bytes := List UInt8

namespace Utf8

/-- The bytes of a text. -/
def encode (text : List Char) : Bytes := text.flatMap String.utf8EncodeChar

/-- The text of bytes, if they encode one. -/
def decode? (bytes : Bytes) : Option (List Char) :=
  (String.fromUTF8? ⟨bytes.toArray⟩).map String.toList

end Utf8

end Ensemble
