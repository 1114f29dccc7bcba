import LoweringCheck.Binary.Convert
/-!
# JSON tokens

The words of a JSON text. A faulty word is a token of its own: whether it matters depends on the reader
that comes to it, and the first fault that matters decides how reading fails.
-/
namespace LoweringCheck.Json

/-- Why a text cannot be read: it is no JSON, it ends early, or it is JSON of another type or range. -/
inductive Problem where
  | malformed
  | truncated
  | mistyped
deriving DecidableEq, Repr

/-- The name of the category of a problem. -/
def Problem.category : Problem → String
  | malformed => "syntax"
  | truncated => "eof"
  | mistyped => "data"

/-- A number keeps the difference between integers and reals: `11` is not `11.0`. -/
inductive Number where
  | integer (i : Int)
  | real (f : Binary.Format) (x : Binary f)

inductive Token where
  | openBrace
  | closeBrace
  | openBracket
  | closeBracket
  | colon
  | comma
  | null
  | truth (b : Bool)
  | number (n : Number)
  | text (s : String)
  /-- a faulty word: whether it began with a quote, how reading it fails, and how skipping it fails, if
  it does -/
  | flaw (quoted : Bool) (reading : Problem) (skipping : Option Problem)

end LoweringCheck.Json
