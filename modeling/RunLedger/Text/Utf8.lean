/-
UTF-8. Bytes are read one at a time; what has been read of an unfinished character is kept in a
`Partial`. A byte that cannot continue it ends a broken piece and is read again as a first byte, so
that broken pieces are as long as a well-formed beginning allows. Strict decoding refuses broken
pieces and lossy decoding writes U+FFFD for each.
-/

set_option autoImplicit false

namespace RunLedger.Text

/-- A sequence of octets: file content, a file name, a stream, a variable's value. -/
abbrev Bytes := List UInt8

namespace Utf8

/-- A decoded character, or a longest sequence of bytes that begins a character and ends it
wrongly. -/
inductive Piece where
  | char (c : Char)
  | broken
  deriving DecidableEq, Repr

/-- An unfinished character: its value so far, how many more bytes it needs, and the bounds of the
next one. The bounds rule out overlong forms, surrogates and values above U+10FFFF. -/
structure Partial where
  value : Nat
  more : Nat
  low : UInt8
  high : UInt8
  deriving DecidableEq, Repr

/-- What a first byte begins. -/
def start (b : UInt8) : Piece ⊕ Partial :=
  if b < 0x80 then .inl (.char (Char.ofNat b.toNat))
  else if b < 0xC2 then .inl .broken
  else if b < 0xE0 then .inr ⟨b.toNat - 0xC0, 1, 0x80, 0xBF⟩
  else if b < 0xF0 then
    .inr ⟨b.toNat - 0xE0, 2, if b = 0xE0 then 0xA0 else 0x80, if b = 0xED then 0x9F else 0xBF⟩
  else if b < 0xF5 then
    .inr ⟨b.toNat - 0xF0, 3, if b = 0xF0 then 0x90 else 0x80, if b = 0xF4 then 0x8F else 0xBF⟩
  else .inl .broken

/-- What an unfinished character becomes with one more byte, if the byte fits. -/
def Partial.extend (p : Partial) (b : UInt8) : Option (Piece ⊕ Partial) :=
  if p.low ≤ b ∧ b ≤ p.high then
    let v := p.value * 64 + (b.toNat - 0x80)
    if p.more ≤ 1 then some (.inl (.char (Char.ofNat v)))
    else some (.inr ⟨v, p.more - 1, 0x80, 0xBF⟩)
  else none

/-- Reads bytes after an unfinished character, if there is one. -/
def pieces : Option Partial → Bytes → List Piece
  | none, [] => []
  | some _, [] => [.broken]
  | none, b :: r =>
    match start b with
    | .inl p => p :: pieces none r
    | .inr q => pieces (some q) r
  | some q, b :: r =>
    match q.extend b with
    | some (.inl p) => p :: pieces none r
    | some (.inr q') => pieces (some q') r
    | none =>
      match start b with
      | .inl p => .broken :: p :: pieces none r
      | .inr q' => .broken :: pieces (some q') r

def Piece.char? : Piece → Option Char
  | .char c => some c
  | .broken => none

/-- The text that the bytes spell, if nothing in them is broken. -/
def decode? (bs : Bytes) : Option String :=
  ((pieces none bs).mapM Piece.char?).map String.ofList

/-- The text that the bytes spell, with U+FFFD for each broken piece. -/
def decodeLossy (bs : Bytes) : String :=
  String.ofList ((pieces none bs).map fun p => p.char?.getD '\uFFFD')

def encodeChars (cs : List Char) : Bytes :=
  cs.flatMap String.utf8EncodeChar

def encode (s : String) : Bytes :=
  encodeChars s.toList

theorem encode_append (s t : String) : encode (s ++ t) = encode s ++ encode t := by
  simp [encode, encodeChars]

end Utf8

end RunLedger.Text
