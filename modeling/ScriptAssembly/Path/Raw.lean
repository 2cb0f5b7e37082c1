import ScriptAssembly.Path
import ScriptAssembly.Text.Octets

/-!
# Paths of any bytes

The system keeps a path as bytes, UTF-8 or not.  A slash and a dot are bytes by themselves and no
part of another character in UTF-8, so a path of any bytes is cut and joined as the octet text of
its bytes is.  Only what is shown of it must be text, and there all that is not UTF-8 is replaced.
-/

namespace ScriptAssembly

/-- A path as the system keeps it. -/
structure RawPath where
  /-- The written form, UTF-8 or not. -/
  bytes : ByteArray

/-- The bytes of a path that is text. -/
def Path.raw (p : Path) : RawPath := ⟨p.text.toUTF8⟩

namespace RawPath

/-- The path with a character for each byte. -/
def octets (p : RawPath) : Path := ⟨.ofList (Text.octets p.bytes)⟩

/-- The path whose bytes the characters stand for. -/
def ofOctets (p : Path) : RawPath := ⟨Text.ofOctets p.text.toList⟩

/-- The path starts at the root. -/
def isAbsolute (p : RawPath) : Bool := p.octets.isAbsolute

/-- Two spellings of one path. -/
def Same (p q : RawPath) : Prop := p.octets.Same q.octets

instance (p q : RawPath) : Decidable (p.Same q) :=
  inferInstanceAs (Decidable (p.octets.Same q.octets))

/-- A relative path is read from `base`; an absolute one stays as it is. -/
def join (base p : RawPath) : RawPath := ofOctets (base.octets.join p.octets)

/-- The rest of `p` below `base`, if the components of `base` begin those of `p`. -/
def below? (p base : RawPath) : Option RawPath :=
  (p.octets.below? base.octets).map ofOctets

/-- What a listing from `root` leaves of a path: what is below the root without it, anything else in
full. -/
def listed (p root : RawPath) : RawPath := (p.below? root).getD p

/-- The text of a path, with replacement characters for what is not UTF-8. -/
def shown (p : RawPath) : String := .ofList (Text.lossy p.bytes)

/-- How a path is listed from `root`. -/
def display (p root : RawPath) : String := (p.listed root).shown

end RawPath

end ScriptAssembly
