/-!
# Decoding bytes

Text as it comes from a file: its characters in order, and `none` for a byte that belongs to no
well-formed UTF-8 sequence.
-/
namespace LoweringCheck.Text

abbrev Symbols := List (Option Char)

def symbols (s : String) : Symbols := s.toList.map some

private def between (low high b : Nat) : Bool := low ≤ b && b ≤ high

/-- A byte that continues a sequence carries six bits. -/
private def continues (b : Nat) : Bool := between 0x80 0xBF b

/-- The range of the second byte after a first byte of a sequence of three. -/
private def second3 (a b : Nat) : Bool :=
  between (if a = 0xE0 then 0xA0 else 0x80) (if a = 0xED then 0x9F else 0xBF) b

/-- The range of the second byte after a first byte of a sequence of four. -/
private def second4 (a b : Nat) : Bool :=
  between (if a = 0xF0 then 0x90 else 0x80) (if a = 0xF4 then 0x8F else 0xBF) b

/-- The character that starts with byte `a`, and how many of the bytes behind it belong to it. -/
private def sequence? (a : Nat) (rest : List Nat) : Option (Char × Nat) :=
  if a < 0x80 then some (Char.ofNat a, 0)
  else if between 0xC2 0xDF a then
    match rest with
    | b :: _ =>
      if continues b then some (Char.ofNat ((a - 0xC0) * 64 + (b - 0x80)), 1) else none
    | _ => none
  else if between 0xE0 0xEF a then
    match rest with
    | b :: c :: _ =>
      if second3 a b && continues c then
        some (Char.ofNat ((a - 0xE0) * 4096 + (b - 0x80) * 64 + (c - 0x80)), 2)
      else none
    | _ => none
  else if between 0xF0 0xF4 a then
    match rest with
    | b :: c :: d :: _ =>
      if second4 a b && continues c && continues d then
        some (Char.ofNat ((a - 0xF0) * 262144 + (b - 0x80) * 4096 + (c - 0x80) * 64 + (d - 0x80)), 3)
      else none
    | _ => none
  else none

/-- Decodes behind the given number of bytes that belong to the last character. -/
private def decodeAfter : Nat → List Nat → Symbols
  | _, [] => []
  | n + 1, _ :: rest => decodeAfter n rest
  | 0, a :: rest =>
    match sequence? a rest with
    | some (c, n) => some c :: decodeAfter n rest
    | none => none :: decodeAfter 0 rest

/-- The characters of some bytes; a byte that starts no sequence is passed over alone. -/
def decode (bytes : List Nat) : Symbols := decodeAfter 0 bytes

end LoweringCheck.Text
