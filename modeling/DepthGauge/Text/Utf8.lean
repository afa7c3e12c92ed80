/-!
# UTF-8

Strict decoding of bytes. A sequence that is too long for its character, that stands for a
surrogate or for a number above `0x10FFFF`, or that ends early, is a fault; nothing is replaced.

## Main definitions

* `encode text`: the bytes of a text.
* `decode bytes`: the text, or where and how the bytes stop being UTF-8.
* `Decoder`: the state of decoding after some bytes, moved on by `Decoder.step`.
-/

namespace DepthGauge.Utf8

/-- The bytes of a text. -/
def encode (text : List Char) : List UInt8 := text.flatMap String.utf8EncodeChar

@[simp]
theorem encode_nil : encode [] = [] := rfl

@[simp]
theorem encode_cons (c : Char) (text : List Char) :
    encode (c :: text) = String.utf8EncodeChar c ++ encode text := rfl

@[simp]
theorem encode_append (a b : List Char) : encode (a ++ b) = encode a ++ encode b :=
  List.flatMap_append

/-- Where decoding stops. -/
structure Fault where
  /-- The number of bytes of the characters before the fault. -/
  validLength : Nat
  /-- The number of bytes that start a character and cannot be continued, or one byte that starts
  none. It is `none` if the bytes end inside a character. -/
  invalidLength : Option Nat
deriving DecidableEq, Repr

/-- A character of which some bytes are read. -/
structure Pending where
  /-- The bits collected so far. -/
  value : Nat
  /-- The number of bytes read. -/
  seen : Nat
  /-- The number of bytes to come after the next one. -/
  afterNext : Nat
  /-- The least next byte. -/
  low : Nat
  /-- The greatest next byte. -/
  high : Nat

/-- What the first byte of a character with several bytes says. The bounds of the second byte keep
out long forms (after `E0` and `F0`), surrogates (after `ED`) and numbers that are too large
(after `F4`). -/
def Pending.ofLead? (b : Nat) : Option Pending :=
  if b < 0xC2 then none
  else if b < 0xE0 then some ⟨b - 0xC0, 1, 0, 0x80, 0xBF⟩
  else if b = 0xE0 then some ⟨b - 0xE0, 1, 1, 0xA0, 0xBF⟩
  else if b = 0xED then some ⟨b - 0xE0, 1, 1, 0x80, 0x9F⟩
  else if b < 0xF0 then some ⟨b - 0xE0, 1, 1, 0x80, 0xBF⟩
  else if b = 0xF0 then some ⟨b - 0xF0, 1, 2, 0x90, 0xBF⟩
  else if b < 0xF4 then some ⟨b - 0xF0, 1, 2, 0x80, 0xBF⟩
  else if b = 0xF4 then some ⟨b - 0xF0, 1, 2, 0x80, 0x8F⟩
  else none

/-- The state of decoding: the characters completed, the number of their bytes, and the character
that is being read. -/
structure Decoder where
  text : Array Char
  length : Nat
  pending : Option Pending

namespace Decoder

/-- The state before the first byte. -/
def start : Decoder := ⟨#[], 0, none⟩

/-- Completes a character that was read from `width` bytes. -/
def push (d : Decoder) (value width : Nat) : Decoder :=
  ⟨d.text.push (Char.ofNat value), d.length + width, none⟩

/-- Reads one byte. -/
def step (d : Decoder) (byte : UInt8) : Except Fault Decoder :=
  let b := byte.toNat
  match d.pending with
  | none =>
    if b < 0x80 then .ok (d.push b 1)
    else match Pending.ofLead? b with
      | some p => .ok { d with pending := some p }
      | none => .error ⟨d.length, some 1⟩
  | some p =>
    if p.low ≤ b ∧ b ≤ p.high then
      let value := p.value * 64 + b % 64
      match p.afterNext with
      | 0 => .ok (d.push value (p.seen + 1))
      | n + 1 => .ok { d with pending := some ⟨value, p.seen + 1, n, 0x80, 0xBF⟩ }
    else .error ⟨d.length, some p.seen⟩

/-- The text read, if no character is left half read. -/
def finish (d : Decoder) : Except Fault (List Char) :=
  match d.pending with
  | none => .ok d.text.toList
  | some _ => .error ⟨d.length, none⟩

end Decoder

/-- The text that some bytes encode, or their first fault. -/
def decode (bytes : List UInt8) : Except Fault (List Char) :=
  bytes.foldlM Decoder.step Decoder.start >>= Decoder.finish

/-- The wording of a fault. -/
def Fault.message (f : Fault) : String :=
  match f.invalidLength with
  | some n => s!"invalid utf-8 sequence of {n} bytes from index {f.validLength}"
  | none => s!"incomplete utf-8 byte sequence from index {f.validLength}"

end DepthGauge.Utf8
