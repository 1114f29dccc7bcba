import LoweringCheck.Json.Token
/-!
# Reading typed values

A reader takes a value of one type off the front of a token list. Values are taken strictly left to
right, so the first problem on the way is the one reported; what no reader asks for is skipped.
-/
namespace LoweringCheck.Json

/-- Takes a value off the front, entering at most the given number of nested containers. -/
abbrev Reader (α : Type) := Nat → List Token → Except Problem (α × List Token)

namespace Reader
variable {α σ : Type}

/-- How many containers may stand inside one another. -/
def levels : Nat := 127

/-- The problem with a token where a value of another kind is due. -/
def unexpected : List Token → Problem
  | [] => .truncated
  | .flaw _ problem _ :: _ => problem
  | .closeBrace :: _ | .closeBracket :: _ | .colon :: _ | .comma :: _ => .malformed
  | _ => .mistyped

/-- The problem with a token where only punctuation may stand. -/
def misplaced : List Token → Problem
  | [] => .truncated
  | _ => .malformed

def map {β : Type} (f : α → β) (r : Reader α) : Reader β := fun n ts =>
  match r n ts with
  | .ok (x, rest) => .ok (f x, rest)
  | .error p => .error p

/-- A value that a further condition may refuse. -/
def filterMap {β : Type} (f : α → Option β) (r : Reader α) : Reader β := fun n ts =>
  match r n ts with
  | .ok (x, rest) =>
    match f x with
    | some y => .ok (y, rest)
    | none => .error .mistyped
  | .error p => .error p

/-- Enters a container, which takes one level. -/
def enter (inside : Reader α) : Reader α
  | 0, _ => .error .malformed
  | n + 1, ts => inside n ts

def text : Reader String
  | _, .text s :: rest => .ok (s, rest)
  | _, ts => .error (unexpected ts)

def truth : Reader Bool
  | _, .truth b :: rest => .ok (b, rest)
  | _, ts => .error (unexpected ts)

def integer (low high : Int) : Reader Int
  | _, .number (.integer i) :: rest =>
    if low ≤ i ∧ i ≤ high then .ok (i, rest) else .error .mistyped
  | _, ts => .error (unexpected ts)

def natural (limit : Nat) : Reader Nat := (integer 0 limit).map Int.toNat

/-- A real of the given format; integers are reals too. -/
def real (f : Binary.Format) : Reader (Binary f)
  | _, .number (.integer i) :: rest => .ok (.ofInt f i, rest)
  | _, .number (.real _ x) :: rest => .ok (x.convert f, rest)
  | _, ts => .error (unexpected ts)

def optional (r : Reader α) : Reader (Option α)
  | _, .null :: rest => .ok (none, rest)
  | n, ts => r.map some n ts

def colon : List Token → Except Problem (List Token)
  | .colon :: rest => .ok rest
  | ts => .error (misplaced ts)

/-- The items after the first one, up to the bracket. Every item takes a token, so their number bounds
the items. -/
def moreItems (item : List Token → Except Problem (α × List Token)) :
    Nat → List Token → Except Problem (List α × List Token)
  | _, .closeBracket :: rest => .ok ([], rest)
  | 0, _ => .error .truncated
  | fuel + 1, .comma :: rest =>
    match rest with
    | .closeBracket :: _ => .error .malformed
    | _ =>
      match item rest with
      | .error p => .error p
      | .ok (x, rest) =>
        match moreItems item fuel rest with
        | .error p => .error p
        | .ok (xs, rest) => .ok (x :: xs, rest)
  | _, ts => .error (misplaced ts)

/-- The items up to the bracket. -/
def items (item : List Token → Except Problem (α × List Token)) (ts : List Token) :
    Except Problem (List α × List Token) :=
  match ts with
  | .closeBracket :: rest => .ok ([], rest)
  | _ =>
    match item ts with
    | .error p => .error p
    | .ok (x, rest) =>
      match moreItems item rest.length rest with
      | .error p => .error p
      | .ok (xs, rest) => .ok (x :: xs, rest)

def list (item : Reader α) : Reader (List α)
  | n, .openBracket :: rest => enter (fun n => items (item n)) n rest
  | _, ts => .error (unexpected ts)

/-- Where the next member of an object begins. -/
def key : List Token → Except Problem (String × List Token)
  | .text s :: rest => .ok (s, rest)
  | .flaw true problem _ :: _ => .error problem
  | ts => .error (misplaced ts)

/-- The members after the first one, folded from the left up to the brace. -/
def moreMembers (step : String → σ → List Token → Except Problem (σ × List Token)) :
    Nat → σ → List Token → Except Problem (σ × List Token)
  | _, s, .closeBrace :: rest => .ok (s, rest)
  | 0, _, _ => .error .truncated
  | fuel + 1, s, .comma :: rest =>
    match key rest with
    | .error p => .error p
    | .ok (name, rest) =>
      match step name s rest with
      | .error p => .error p
      | .ok (s, rest) => moreMembers step fuel s rest
  | _, _, ts => .error (misplaced ts)

/-- The members up to the brace. A step reads from the colon to the end of the value. -/
def members (step : String → σ → List Token → Except Problem (σ × List Token)) (s : σ)
    (ts : List Token) : Except Problem (σ × List Token) :=
  match ts with
  | .closeBrace :: rest => .ok (s, rest)
  | _ =>
    match key ts with
    | .error p => .error p
    | .ok (name, rest) =>
      match step name s rest with
      | .error p => .error p
      | .ok (s, rest) => moreMembers step rest.length s rest

/-- Reads a value behind its colon. -/
def afterColon (r : Reader α) (n : Nat) (ts : List Token) : Except Problem (α × List Token) :=
  match colon ts with
  | .error p => .error p
  | .ok rest => r n rest

/-- What a skipped text may go on with. -/
private inductive Awaiting where
  | value
  | firstItem
  | firstMember
  | member
  | colon
  | next

/-- What a token does to a skipped text. -/
private inductive Turn where
  | fail (p : Problem)
  | await (a : Awaiting)
  | endValue
  | enter (object : Bool)
  | leave

private def valueTurn : Token → Turn
  | .openBracket => .enter false
  | .openBrace => .enter true
  | .null | .truth _ | .number _ | .text _ | .flaw _ _ none => .endValue
  | .flaw _ _ (some problem) => .fail problem
  | _ => .fail .malformed

private def memberTurn : Token → Turn
  | .text _ | .flaw true _ none => .await .colon
  | .flaw true _ (some problem) => .fail problem
  | _ => .fail .malformed

/-- `inside` tells whether the innermost open container is an object. -/
private def turn (inside : Option Bool) : Awaiting → Token → Turn
  | .firstItem, .closeBracket => .leave
  | .value, t | .firstItem, t => valueTurn t
  | .firstMember, .closeBrace => .leave
  | .member, t | .firstMember, t => memberTurn t
  | .colon, .colon => .await .value
  | .next, t =>
    match inside, t with
    | some false, .closeBracket | some true, .closeBrace => .leave
    | some false, .comma => .await .value
    | some true, .comma => .await .member
    | _, _ => .fail .malformed
  | _, _ => .fail .malformed

/-- Skips to the end of a value. The containers around it are listed innermost first, objects as
`true`. -/
private def skipFrom : List Bool → Awaiting → List Token → Except Problem (List Token)
  | _, _, [] => .error .truncated
  | around, awaiting, t :: rest =>
    match turn around.head? awaiting t with
    | .fail problem => .error problem
    | .await awaiting => skipFrom around awaiting rest
    | .enter object => skipFrom (object :: around) (if object then .firstMember else .firstItem) rest
    | .endValue => if around.isEmpty then .ok rest else skipFrom around .next rest
    | .leave => if around.tail.isEmpty then .ok rest else skipFrom around.tail .next rest

/-- Skips a value of any kind. Its numbers and texts need not denote anything. -/
def skip : List Token → Except Problem (List Token) := skipFrom [] .value

/-- One of several names, which may also stand as `{name: null}` in place of the name alone. -/
def choice (names : List (String × α)) : Reader α
  | _, .text s :: rest =>
    match names.lookup s with
    | some x => .ok (x, rest)
    | none => .error .mistyped
  | _, .flaw true problem _ :: _ => .error problem
  | n, .openBrace :: rest =>
    enter (fun _ ts =>
      match key ts with
      | .error p => .error p
      | .ok (name, rest) =>
        match names.lookup name with
        | none => .error .mistyped
        | some x =>
          match colon rest with
          | .error p => .error p
          | .ok (.null :: .closeBrace :: rest) => .ok (x, rest)
          | .ok (.null :: rest) => .error (misplaced rest)
          | .ok rest => .error (unexpected rest)) n rest
  | _, ts => .error (misplaced ts)

/-- One of several names, standing alone. -/
def bareChoice (names : List (String × α)) : Reader α := text.filterMap (names.lookup ·)

/-- A named part of a record that is being read. -/
structure Field (σ : Type) where
  name : String
  /-- whether the part has been read -/
  filled : σ → Bool
  read : σ → Reader σ
  /-- how the part is read where the record is a list -/
  readItem : σ → Reader σ := read

/-- The members of a record: each part at most once, other names skipped. -/
def recordMember (fields : List (Field σ)) (n : Nat) (name : String) (s : σ) (ts : List Token) :
    Except Problem (σ × List Token) :=
  match fields.find? (·.name == name) with
  | none =>
    match colon ts with
    | .error p => .error p
    | .ok rest =>
      match skip rest with
      | .error p => .error p
      | .ok rest => .ok (s, rest)
  | some field => if field.filled s then .error .mistyped else afterColon (field.read s) n ts

/-- The parts of a record in order, between brackets. Where `mayStop` holds, the last ones may be
absent. -/
def recordItems (mayStop : Bool) (n : Nat) :
    (first : Bool) → List (Field σ) → σ → List Token → Except Problem (σ × List Token)
  | _, [], s, ts =>
    match ts with
    | .closeBracket :: rest => .ok (s, rest)
    | ts => .error (misplaced ts)
  | first, field :: fields, s, ts =>
    match ts with
    | .closeBracket :: rest => if mayStop then .ok (s, rest) else .error .mistyped
    | _ =>
      let value : Except Problem (List Token) :=
        if first then .ok ts
        else match ts with
          | .comma :: .closeBracket :: _ => .error .malformed
          | .comma :: rest => .ok rest
          | ts => .error (misplaced ts)
      match value with
      | .error p => .error p
      | .ok ts =>
        match field.readItem s n ts with
        | .error p => .error p
        | .ok (s, rest) => recordItems mayStop n false fields s rest

/-- A record as an object or as the list of its parts, gathered in a draft. -/
def record (fields : List (Field σ)) (mayStop : Bool) (draft : σ) : Reader σ
  | n, .openBrace :: rest => enter (fun n => members (recordMember fields n) draft) n rest
  | n, .openBracket :: rest => enter (fun n => recordItems mayStop n true fields draft) n rest
  | _, ts => .error (unexpected ts)

/-- Reads a whole text. -/
def run (r : Reader α) (ts : List Token) : Except Problem α :=
  match r levels ts with
  | .error p => .error p
  | .ok (x, []) => .ok x
  | .ok (_, _ :: _) => .error .malformed

end Reader
end LoweringCheck.Json
