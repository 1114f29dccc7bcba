import LoweringCheck.Json.Numeral
import LoweringCheck.Json.Reader
import LoweringCheck.Text.Integer
import LoweringCheck.Text.Utf8
/-!
# Splitting text into tokens

Words are read left to right. After a word that can be passed over by a reader who skips it, splitting
goes on; after any other fault it ends.
-/
namespace LoweringCheck.Json
open Text (Symbols)

def malformed : Token := .flaw false .malformed (some .malformed)

/-- What a quoted word is made of. -/
inductive Piece where
  | char (c : Char)
  /-- half of a surrogate pair, written by its number -/
  | half (n : Nat)
  /-- a byte that is no text -/
  | stray
deriving DecidableEq, Repr

namespace Piece

def isHigh (n : Nat) : Bool := 0xD800 ≤ n && n < 0xDC00
def isLow (n : Nat) : Bool := 0xDC00 ≤ n && n < 0xE000
def paired (h l : Nat) : Bool := isHigh h && isLow l

/-- The characters of a closed word, its surrogates joined in pairs. -/
def join? : List Piece → Option (List Char)
  | [] => some []
  | .char c :: rest => (join? rest).map (c :: ·)
  | .half h :: .half l :: rest =>
    if paired h l then
      (join? rest).map (Char.ofNat (0x10000 + (h - 0xD800) * 1024 + (l - 0xDC00)) :: ·)
    else none
  | _ => none

/-- Whether an unclosed word holds a surrogate that no later text can complete. -/
def hasLone : List Piece → Bool
  | [] => false
  | [.half n] => !isHigh n
  | .half h :: .half l :: rest => !paired h l || hasLone rest
  | .half _ :: _ => true
  | _ :: rest => hasLone rest

end Piece

/-- How a quoted word ends: at its quote, at the end of the text, or at a fault. -/
inductive Ending where
  | closed
  | cut
  | faulty
deriving DecidableEq, Repr

def hexValue? (c : Char) : Option Nat :=
  if c.isDigit then some (Text.digitValue c)
  else if 'a' ≤ c ∧ c ≤ 'f' then some (c.toNat - 'a'.toNat + 10)
  else if 'A' ≤ c ∧ c ≤ 'F' then some (c.toNat - 'A'.toNat + 10)
  else none

def hex4? (a b c d : Char) : Option Nat := do
  return (← hexValue? a) * 4096 + (← hexValue? b) * 256 + (← hexValue? c) * 16 + (← hexValue? d)

def ofNumber (n : Nat) : Piece :=
  if 0xD800 ≤ n ∧ n < 0xE000 then .half n else .char (Char.ofNat n)

def shortEscape? : Char → Option Char
  | '"' => some '"'
  | '\\' => some '\\'
  | '/' => some '/'
  | 'b' => some '\x08'
  | 'f' => some '\x0c'
  | 'n' => some '\n'
  | 'r' => some '\r'
  | 't' => some '\t'
  | _ => none

private def byteCount (s : Symbols) : Nat :=
  s.foldl (fun n c => n + match c with | some c => c.utf8Size | none => 1) 0

def extend (p : Piece) : List Piece × Ending × Symbols → List Piece × Ending × Symbols
  | (pieces, ending, rest) => (p :: pieces, ending, rest)

/-- The rest of a quoted word. A number escape needs four bytes before the text ends. -/
def scanQuoted : Symbols → List Piece × Ending × Symbols
  | [] => ([], .cut, [])
  | none :: rest => extend .stray (scanQuoted rest)
  | some c :: rest =>
    if c = '"' then ([], .closed, rest)
    else if c = '\\' then
      match rest with
      | some 'u' :: some a :: some b :: some c :: some d :: rest =>
        match hex4? a b c d with
        | some n => extend (ofNumber n) (scanQuoted rest)
        | none => ([], .faulty, [])
      | some 'u' :: rest => ([], if byteCount rest < 4 then .cut else .faulty, [])
      | some e :: rest =>
        match shortEscape? e with
        | some c => extend (.char c) (scanQuoted rest)
        | none => ([], .faulty, [])
      | none :: _ => ([], .faulty, [])
      | [] => ([], .cut, [])
    else if c.toNat < 0x20 then ([], .faulty, [])
    else extend (.char c) (scanQuoted rest)

def quotedToken (pieces : List Piece) : Ending → Token
  | .closed =>
    match Piece.join? pieces with
    | some cs => .text (String.ofList cs)
    | none => .flaw true .malformed none
  | .cut => .flaw true (if Piece.hasLone pieces then .malformed else .truncated) (some .truncated)
  | .faulty => .flaw true .malformed (some .malformed)

/-- The digits that a text begins with. -/
def takeDigits : Symbols → List Nat × Symbols
  | some c :: rest =>
    if c.isDigit then
      let (ds, rest) := takeDigits rest
      (Text.digitValue c :: ds, rest)
    else ([], some c :: rest)
  | s => ([], s)

/-- A numeral that breaks off: a reader tells the end of the text apart, a skipping one does not. -/
def brokenNumeral (rest : Symbols) : Token × Symbols :=
  (.flaw false (if rest.isEmpty then .truncated else .malformed) (some .malformed), [])

def numeralToken (numeral : Numeral) : Token :=
  match numeral.number? with
  | some n => .number n
  | none => .flaw false .malformed none

def scanExponent (negative : Bool) (whole : List Nat) (fraction : Option (List Nat)) :
    Symbols → Token × Symbols
  | some c :: rest =>
    if c = 'e' ∨ c = 'E' then
      let (down, rest) := match rest with
        | some '+' :: rest => (false, rest)
        | some '-' :: rest => (true, rest)
        | _ => (false, rest)
      match takeDigits rest with
      | ([], rest) => brokenNumeral rest
      | (digits, rest) => (numeralToken ⟨negative, whole, fraction, some (down, digits)⟩, rest)
    else (numeralToken ⟨negative, whole, fraction, none⟩, some c :: rest)
  | rest => (numeralToken ⟨negative, whole, fraction, none⟩, rest)

/-- A numeral behind its sign. No digit follows a leading zero. -/
def scanNumeral (negative : Bool) (s : Symbols) : Token × Symbols :=
  match takeDigits s with
  | ([], rest) => brokenNumeral rest
  | (0 :: _ :: _, _) => (malformed, [])
  | (whole, some '.' :: rest) =>
    match takeDigits rest with
    | ([], rest) => brokenNumeral rest
    | (fraction, rest) => scanExponent negative whole (some fraction) rest
  | (whole, rest) => scanExponent negative whole none rest

/-- The rest of a word that has only one form. -/
def scanWord (token : Token) : List Char → Symbols → Token × Symbols
  | [], rest => (token, rest)
  | _ :: _, [] => (.flaw false .truncated (some .truncated), [])
  | w :: ws, c :: rest => if c = some w then scanWord token ws rest else (malformed, [])

def isBlank (c : Char) : Bool := c = ' ' || c = '\n' || c = '\t' || c = '\r'

/-- The first word of a text that does not begin with a blank. -/
def scanToken (c : Option Char) (rest : Symbols) : Token × Symbols :=
  match c with
  | none => (malformed, [])
  | some c =>
    match c with
    | '{' => (.openBrace, rest)
    | '}' => (.closeBrace, rest)
    | '[' => (.openBracket, rest)
    | ']' => (.closeBracket, rest)
    | ':' => (.colon, rest)
    | ',' => (.comma, rest)
    | '"' =>
      let (pieces, ending, rest) := scanQuoted rest
      (quotedToken pieces ending, rest)
    | '-' => scanNumeral true rest
    | 'n' => scanWord .null ['u', 'l', 'l'] rest
    | 't' => scanWord (.truth true) ['r', 'u', 'e'] rest
    | 'f' => scanWord (.truth false) ['a', 'l', 's', 'e'] rest
    | c => if c.isDigit then scanNumeral false (some c :: rest) else (malformed, [])

/-- Splits off at most the given number of words; every word takes a symbol. -/
def scanAtMost : Nat → Symbols → List Token
  | 0, _ => []
  | _ + 1, [] => []
  | n + 1, c :: rest =>
    if c.any isBlank then scanAtMost n rest
    else match scanToken c rest with
      | (.flaw quoted reading (some skipping), _) => [.flaw quoted reading (some skipping)]
      | (token, rest) => token :: scanAtMost n rest

def tokenize (s : Symbols) : List Token := scanAtMost s.length s

/-- Reads a value from a text. -/
def Reader.parse {α : Type} (r : Reader α) (s : String) : Except Problem α :=
  r.run (tokenize (Text.symbols s))

end LoweringCheck.Json
