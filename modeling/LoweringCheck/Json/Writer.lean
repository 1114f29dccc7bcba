import LoweringCheck.Decimal.Layout
import LoweringCheck.Json.Value
/-!
# Writing JSON

The compact form has no blanks. The indented form has one item or member a line, two blanks a level,
and keeps empty containers closed up.
-/
namespace LoweringCheck.Json

def pad2 : List Char → List Char
  | [c] => ['0', c]
  | cs => cs

/-- Quotes, backslashes and controls are escaped; every other character stands as it is. -/
def escape (c : Char) : List Char :=
  if c = '"' then ['\\', '"']
  else if c = '\\' then ['\\', '\\']
  else if c = '\x08' then ['\\', 'b']
  else if c = '\x0c' then ['\\', 'f']
  else if c = '\n' then ['\\', 'n']
  else if c = '\r' then ['\\', 'r']
  else if c = '\t' then ['\\', 't']
  else if c.toNat < 0x20 then ['\\', 'u', '0', '0'] ++ pad2 (Nat.toDigits 16 c.toNat)
  else [c]

def quote (s : String) : List Char := '"' :: s.toList.flatMap escape ++ ['"']

def writeInt (i : Int) : List Char :=
  if i < 0 then '-' :: Decimal.digitsOf i.natAbs else Decimal.digitsOf i.natAbs

def Number.write : Number → List Char
  | .integer i => writeInt i
  | .real f x => (Decimal.Layout.json f).render x

def writeTruth (b : Bool) : List Char := (if b then "true" else "false").toList

mutual

def compact : Json → List Char
  | .null => ['n', 'u', 'l', 'l']
  | .truth b => writeTruth b
  | .number n => n.write
  | .text s => quote s
  | .array [] => ['[', ']']
  | .array (x :: xs) => '[' :: x.compact ++ compactItems xs
  | .object [] => ['{', '}']
  | .object ((k, x) :: ms) => '{' :: quote k ++ ':' :: x.compact ++ compactMembers ms

def compactItems : List Json → List Char
  | [] => [']']
  | x :: xs => ',' :: x.compact ++ compactItems xs

def compactMembers : List (String × Json) → List Char
  | [] => ['}']
  | (k, x) :: ms => ',' :: quote k ++ ':' :: x.compact ++ compactMembers ms

end

/-- A new line at the given depth. -/
def newLine (depth : Nat) : List Char := '\n' :: List.replicate (2 * depth) ' '

mutual

def indented (depth : Nat) : Json → List Char
  | .null => ['n', 'u', 'l', 'l']
  | .truth b => writeTruth b
  | .number n => n.write
  | .text s => quote s
  | .array [] => ['[', ']']
  | .array (x :: xs) => '[' :: newLine (depth + 1) ++ x.indented (depth + 1) ++ indentedItems depth xs
  | .object [] => ['{', '}']
  | .object ((k, x) :: ms) =>
    '{' :: newLine (depth + 1) ++ quote k ++ ':' :: ' ' :: x.indented (depth + 1) ++
      indentedMembers depth ms

def indentedItems (depth : Nat) : List Json → List Char
  | [] => newLine depth ++ [']']
  | x :: xs => ',' :: newLine (depth + 1) ++ x.indented (depth + 1) ++ indentedItems depth xs

def indentedMembers (depth : Nat) : List (String × Json) → List Char
  | [] => newLine depth ++ ['}']
  | (k, x) :: ms =>
    ',' :: newLine (depth + 1) ++ quote k ++ ':' :: ' ' :: x.indented (depth + 1) ++
      indentedMembers depth ms

end

def render (x : Json) : String := String.ofList x.compact
def renderIndented (x : Json) : String := String.ofList (x.indented 0)

end LoweringCheck.Json
