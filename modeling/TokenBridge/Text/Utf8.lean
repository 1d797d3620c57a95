/-!
Byte strings, and a text as the bytes that encode it.
-/
namespace TokenBridge

abbrev Bytes := List UInt8

namespace Text

def utf8 (s : String) : Bytes := s.toUTF8.data.toList

def ofUtf8? (raw : Bytes) : Option String := String.fromUTF8? ⟨raw.toArray⟩

theorem utf8Injective {s t : String} (h : utf8 s = utf8 t) : s = t :=
  String.toByteArray_inj.1 (ByteArray.ext (Array.toList_inj.1 h))

end Text

end TokenBridge
