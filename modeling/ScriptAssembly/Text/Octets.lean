import ScriptAssembly.Text.Utf8

/-!
# Octet texts

An octet text is a list of characters each of which stands for one byte, that of its code.  It holds
any bytes, UTF-8 or not, and can be cut anywhere.
-/

namespace ScriptAssembly.Text

/-- The octet text of bytes. -/
def octets (bytes : ByteArray) : List Char := bytes.data.toList.map fun b => Char.ofNat b.toNat

/-- The bytes of an octet text. -/
def ofOctets (s : List Char) : ByteArray := ⟨(s.map fun c => UInt8.ofNat c.toNat).toArray⟩

end ScriptAssembly.Text
