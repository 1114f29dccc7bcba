import LoweringCheck.Json.Reader
/-!
# JSON values

Any JSON value, its tokens, and the reader that takes one. A value can be read again through its tokens
by any other reader.
-/
namespace LoweringCheck

inductive Json where
  | null
  | truth (b : Bool)
  | number (n : Json.Number)
  | text (s : String)
  | array (items : List Json)
  | object (members : List (String × Json))

namespace Json

def integer (i : Int) : Json := .number (.integer i)
def natural (n : Nat) : Json := .number (.integer n)

instance : Coe String Json := ⟨.text⟩
instance : Coe Nat Json := ⟨.natural⟩
instance : Coe Bool Json := ⟨.truth⟩

mutual

def tokens : Json → List Token
  | .null => [.null]
  | .truth b => [.truth b]
  | .number n => [.number n]
  | .text s => [.text s]
  | .array [] => [.openBracket, .closeBracket]
  | .array (x :: xs) => .openBracket :: x.tokens ++ itemTokens xs
  | .object [] => [.openBrace, .closeBrace]
  | .object ((k, x) :: ms) => .openBrace :: .text k :: .colon :: x.tokens ++ memberTokens ms

def itemTokens : List Json → List Token
  | [] => [.closeBracket]
  | x :: xs => .comma :: x.tokens ++ itemTokens xs

def memberTokens : List (String × Json) → List Token
  | [] => [.closeBrace]
  | (k, x) :: ms => .comma :: .text k :: .colon :: x.tokens ++ memberTokens ms

end

/-- The value of a name; the last of equal names counts. -/
def get? (name : String) : Json → Option Json
  | .object ms => ms.reverse.lookup name
  | _ => none

/-- Any value. -/
def read : Reader Json
  | _, .null :: rest => .ok (.null, rest)
  | _, .truth b :: rest => .ok (.truth b, rest)
  | _, .number x :: rest => .ok (.number x, rest)
  | _, .text s :: rest => .ok (.text s, rest)
  | 0, .openBracket :: _ | 0, .openBrace :: _ => .error .malformed
  | n + 1, .openBracket :: rest =>
    match Reader.items (read n) rest with
    | .ok (xs, rest) => .ok (.array xs, rest)
    | .error p => .error p
  | n + 1, .openBrace :: rest =>
    let step (name : String) (ms : List (String × Json)) (ts : List Token) :
        Except Problem (List (String × Json) × List Token) :=
      match Reader.colon ts with
      | .error p => .error p
      | .ok ts =>
        match read n ts with
        | .error p => .error p
        | .ok (x, ts) => .ok ((name, x) :: ms, ts)
    match Reader.members step [] rest with
    | .ok (ms, rest) => .ok (.object ms.reverse, rest)
    | .error p => .error p
  | _, ts => .error (Reader.unexpected ts)

/-- The value read as a type; every misfit counts as a wrong type. -/
def as? {α : Type} (r : Reader α) (x : Json) : Option α :=
  (r.run x.tokens).toOption

end Json
end LoweringCheck
