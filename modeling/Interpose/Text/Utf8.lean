/-!
UTF-8. Octets are decoded one by one; where they cannot go on to a character, one mark stands for
the longest start of a character that was there. A text is well formed if there is no mark, and can
be shown in any case with the replacement character for each.
-/

set_option autoImplicit false
set_option relaxedAutoImplicit false

namespace Interpose.Text.Utf8

/-- A character begun: the bits so far, the range of the next octet, and how many octets follow that
one. -/
structure Begun where
  bits : Nat
  low : Nat
  high : Nat
  following : Nat

/-- What one octet at the start of a character decodes to, and what it leaves open. -/
def begin (octet : Nat) : List (Option Char) × Option Begun :=
  if octet < 0x80 then ([some (Char.ofNat octet)], none)
  else if 0xC2 ≤ octet && octet ≤ 0xDF then ([], some ⟨octet - 0xC0, 0x80, 0xBF, 0⟩)
  else if octet == 0xE0 then ([], some ⟨0, 0xA0, 0xBF, 1⟩)
  else if octet == 0xED then ([], some ⟨0xD, 0x80, 0x9F, 1⟩)
  else if 0xE1 ≤ octet && octet ≤ 0xEF then ([], some ⟨octet - 0xE0, 0x80, 0xBF, 1⟩)
  else if octet == 0xF0 then ([], some ⟨0, 0x90, 0xBF, 2⟩)
  else if 0xF1 ≤ octet && octet ≤ 0xF3 then ([], some ⟨octet - 0xF0, 0x80, 0xBF, 2⟩)
  else if octet == 0xF4 then ([], some ⟨4, 0x80, 0x8F, 2⟩)
  else ([none], none)

/-- What one more octet decodes to, and what it leaves open. -/
def next (open? : Option Begun) (octet : Nat) : List (Option Char) × Option Begun :=
  match open? with
  | none => begin octet
  | some p =>
    if p.low ≤ octet && octet ≤ p.high then
      let bits := p.bits * 64 + (octet - 0x80)
      match p.following with
      | 0 => ([some (Char.ofNat bits)], none)
      | n + 1 => ([], some ⟨bits, 0x80, 0xBF, n⟩)
    else (none :: (begin octet).1, (begin octet).2)

/-- The characters of some octets behind a character begun, with a mark for each fault. -/
def decodeFrom : (open? : Option Begun) → List UInt8 → List (Option Char)
  | none, [] => []
  | some _, [] => [none]
  | open?, octet :: rest =>
    (next open? octet.toNat).1 ++ decodeFrom (next open? octet.toNat).2 rest

def decode? (octets : List UInt8) : Option String :=
  ((decodeFrom none octets).mapM id).map String.ofList

def lossy (octets : List UInt8) : String :=
  String.ofList ((decodeFrom none octets).map fun c => c.getD '\ufffd')

def encode (s : String) : List UInt8 := s.toUTF8.toList

end Interpose.Text.Utf8
