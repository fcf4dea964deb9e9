/-
Module: WireSchema.Text.Utf8
Purpose: Text is stored as UTF-8.  Three questions are asked of bytes that may hold it: which text
  they spell, at which byte they stop being well formed, and which text is left when every malformed
  stretch is replaced.
Main exports: utf8Bytes, ofUtf8?, validLength, ofUtf8Lossy
-/

namespace WireSchema.Text

/-!
A malformed stretch is the longest run of bytes that begins some character and cannot be continued
by the byte after it, or else a single byte.  Each such stretch becomes one replacement character.
-/

/-- The bytes that spell a text. -/
def utf8Bytes (text : String) : List UInt8 :=
  text.toUTF8.data.toList

/-- The text that bytes spell, if they are well formed throughout. -/
def ofUtf8? (bytes : List UInt8) : Option String :=
  String.fromUTF8? ⟨bytes.toArray⟩

/-- What the first byte of a character promises: how many bytes follow it, and the range of the
first of them.  The narrower ranges exclude overlong spellings, surrogates and code points past
the last one. -/
def leadByte (byte : UInt8) : Option (Nat × UInt8 × UInt8) :=
  if byte < 0x80 then some (0, 0x80, 0xbf)
  else if byte < 0xc2 then none
  else if byte < 0xe0 then some (1, 0x80, 0xbf)
  else if byte = 0xe0 then some (2, 0xa0, 0xbf)
  else if byte = 0xed then some (2, 0x80, 0x9f)
  else if byte < 0xf0 then some (2, 0x80, 0xbf)
  else if byte = 0xf0 then some (3, 0x90, 0xbf)
  else if byte < 0xf4 then some (3, 0x80, 0xbf)
  else if byte = 0xf4 then some (3, 0x80, 0x8f)
  else none

/-- How many of the `owed` continuation bytes are there, the first of them in a given range. -/
def continuation : (owed : Nat) → (least greatest : UInt8) → List UInt8 → Nat
  | 0, _, _, _ => 0
  | _, _, _, [] => 0
  | owed + 1, least, greatest, byte :: rest =>
    if least ≤ byte ∧ byte ≤ greatest then 1 + continuation owed 0x80 0xbf rest else 0

/-- Whether a byte and those behind it begin with one whole character, and how many continuation
bytes belong to the first stretch. -/
def firstStretch (byte : UInt8) (rest : List UInt8) : Bool × Nat :=
  match leadByte byte with
  | none => (false, 0)
  | some (owed, least, greatest) =>
    let held := continuation owed least greatest rest
    (held == owed, held)

/-- Every stretch of the bytes in turn, each with whether it is a whole character. -/
def stretches : List UInt8 → List (Bool × List UInt8)
  | [] => []
  | byte :: rest =>
    let (whole, held) := firstStretch byte rest
    (whole, byte :: rest.take held) :: stretches (rest.drop held)
termination_by bytes => bytes.length
decreasing_by
  simp only [List.length_drop, List.length_cons]
  omega

/-- The stretches are the bytes, cut into pieces. -/
theorem flatMap_stretches (bytes : List UInt8) : (stretches bytes).flatMap (·.2) = bytes := by
  fun_induction stretches bytes with
  | case1 => rfl
  | case2 byte rest whole held _ ih =>
    rw [List.flatMap_cons, ih, List.cons_append, List.take_append_drop]

/-- How many bytes at the start are well formed. -/
def validLength (bytes : List UInt8) : Nat :=
  (((stretches bytes).takeWhile (·.1)).flatMap (·.2)).length

/-- The text that stands for one stretch: its character, or the replacement character. -/
def stretchText (stretch : Bool × List UInt8) : String :=
  (if stretch.1 then ofUtf8? stretch.2 else none).getD "\ufffd"

/-- The text that bytes spell, with one replacement character for each malformed stretch. -/
def ofUtf8Lossy (bytes : List UInt8) : String :=
  match ofUtf8? bytes with
  | some text => text
  | none => String.join ((stretches bytes).map stretchText)

/-- Bytes read one by one as the first 256 characters. -/
def ofLatin1 (bytes : List UInt8) : String :=
  String.ofList (bytes.map fun byte => Char.ofNat byte.toNat)

end WireSchema.Text
