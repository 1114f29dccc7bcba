import LoweringCheck.Text.Printable
/-!
# Quoted text and listings

A quoted text stands between double quotes; a backslash goes before quotes and backslashes, the usual
controls have letters, and any other character that is not printable is written by its number.
-/
namespace LoweringCheck.Text

def hexDigits (n : Nat) : List Char := Nat.toDigits 16 n

private def escape (c : Char) : List Char :=
  if c = '"' then ['\\', '"']
  else if c = '\\' then ['\\', '\\']
  else if c = '\n' then ['\\', 'n']
  else if c = '\r' then ['\\', 'r']
  else if c = '\t' then ['\\', 't']
  else if c.toNat = 0 then ['\\', '0']
  else if isPrintable c then [c]
  else ['\\', 'u', '\x7b'] ++ hexDigits c.toNat ++ ['\x7d']

def quoted (s : String) : String :=
  String.ofList ('"' :: s.toList.flatMap escape ++ ['"'])

/-- Items between brackets. -/
def listing (items : List String) : String :=
  "[" ++ ", ".intercalate items ++ "]"

def naturals (ns : List Nat) : String := listing (ns.map toString)
def integers (is : List Int) : String := listing (is.map toString)
def quotedList (items : List String) : String := listing (items.map quoted)

/-- An optional value, written by its case. -/
def optional {α : Type} (write : α → String) : Option α → String
  | none => "None"
  | some x => "Some(" ++ write x ++ ")"

/-- A record with named fields. -/
def record (name : String) (fields : List (String × String)) : String :=
  name ++ " \x7b " ++ ", ".intercalate (fields.map fun p => p.1 ++ ": " ++ p.2) ++ " \x7d"

def truth (b : Bool) : String := if b then "true" else "false"

end LoweringCheck.Text
