import LoweringCheck.Random.ChaCha
/-!
# Random integers

A seed fixes a key, a key the words of its blocks in order, and the words a sequence of integers.
-/
namespace LoweringCheck.Random

/-- One step of the generator that expands a seed. -/
def advance (s : UInt64) : UInt64 := s * 6364136223846793005 + 11634580027462260723

/-- The word that a state of that generator puts out: its high bits, mixed and rotated to the right by
the highest ones. -/
def output (s : UInt64) : UInt32 :=
  rotateRight (((s >>> 18) ^^^ s) >>> 27).toUInt32 (s >>> 59).toUInt32

/-- The states behind a state. -/
def states : Nat → UInt64 → List UInt64
  | 0, _ => []
  | n + 1, s => advance s :: states n (advance s)

def keyOf (seed : UInt64) : Key :=
  let words := ((states 8 seed).map output).toArray
  Vector.ofFn fun i => words.getD i 0

/-- The words to come: those left of the last block, and the number of the next one. -/
structure Stream where
  key : Key
  left : List UInt32
  next : UInt64
deriving DecidableEq, Repr

namespace Stream

def ofSeed (seed : UInt64) : Stream := ⟨keyOf seed, [], 0⟩

def word (s : Stream) : UInt32 × Stream :=
  match s.left with
  | w :: rest => (w, { s with left := rest })
  | [] =>
    let words := block s.key s.next
    (words[0], { s with left := words.toList.tail, next := s.next + 1 })

/-- A word is scaled to the width of the range. It is refused if its fraction lies where the integers
would not come out equally often. -/
def scale? (low : Int) (width : Nat) (w : UInt32) : Option Int :=
  let product := w.toNat * width
  let bound := width * Nat.pow 2 (31 - width.log2)
  if product % 4294967296 < bound then some (low + (product / 4294967296 : Nat)) else none

/-- Takes words until one is not refused, but not more than a given number. -/
def search (low : Int) (width : Nat) : Nat → Stream → Int × Stream
  | 0, s => (low, s)
  | fuel + 1, s =>
    let (w, s) := s.word
    match scale? low width w with
    | some i => (i, s)
    | none => search low width fuel s

/-- The number of words after which a stream repeats. -/
def period : Nat := Nat.pow 2 68

/-- The next integer of the range that begins with `low`. -/
def draw (low : Int) (width : Nat) (s : Stream) : Int × Stream := search low width period s

def draws (low : Int) (width : Nat) : Nat → Stream → List Int × Stream
  | 0, s => ([], s)
  | n + 1, s =>
    let (i, s) := s.draw low width
    let (is, s) := draws low width n s
    (i :: is, s)

end Stream
end LoweringCheck.Random
