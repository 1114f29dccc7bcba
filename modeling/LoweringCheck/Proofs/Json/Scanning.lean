import LoweringCheck.Proofs.Json.Words
/-!
# Written values are split into their tokens

Words follow one another: each is read in front of what is written behind it. Blanks between words give
no token, and no word takes more rounds than it has characters.
-/
namespace LoweringCheck.Json
open Text (Symbols symbols)

/-- In front of other text a text is split into tokens, in no more rounds than it has characters. -/
def Scans (s : List Char) (ts : List Token) (rest : Symbols) : Prop :=
  ∃ rounds ≤ s.length, ∀ n, scanAtMost (n + rounds) (s.map some ++ rest) = ts ++ scanAtMost n rest

private theorem Scans.append {s s' : List Char} {ts ts' : List Token} {rest : Symbols}
    (h : Scans s ts (s'.map some ++ rest)) (h' : Scans s' ts' rest) :
    Scans (s ++ s') (ts ++ ts') rest := by
  obtain ⟨k, hk, hscan⟩ := h
  obtain ⟨k', hk', hscan'⟩ := h'
  refine ⟨k' + k, by rw [List.length_append]; omega, fun n => ?_⟩
  rw [List.map_append, List.append_assoc, ← Nat.add_assoc, hscan, hscan', List.append_assoc]

private theorem scans_blanks {s : List Char} (h : ∀ c ∈ s, isBlank c = true) (rest : Symbols) :
    Scans s [] rest := by
  induction s with
  | nil => exact ⟨0, Nat.le_refl _, fun _ => rfl⟩
  | cons c s ih =>
    obtain ⟨k, hk, hscan⟩ := ih fun d hd => h d (List.mem_cons_of_mem _ hd)
    refine ⟨k + 1, Nat.succ_le_succ hk, fun n => ?_⟩
    have hblank : (some c).any isBlank = true := h c List.mem_cons_self
    rw [List.map_cons, List.cons_append, ← Nat.add_assoc, scanAtMost, if_pos hblank, hscan]

theorem scans_word {c : Char} {cs : List Char} {token : Token} {rest : Symbols}
    (hblank : isBlank c = false)
    (hscan : scanToken (some c) (cs.map some ++ rest) = (token, rest))
    (hflaw : ∀ quoted reading skipping, token ≠ .flaw quoted reading (some skipping)) :
    Scans (c :: cs) [token] rest := by
  refine ⟨1, Nat.succ_le_succ (Nat.zero_le _), fun n => ?_⟩
  have hword : ¬ (some c).any isBlank = true := by simpa using hblank
  rw [List.map_cons, List.cons_append, scanAtMost, if_neg hword, hscan]
  split
  · rename_i heq
    exact absurd (Prod.mk.inj heq).1 (hflaw _ _ _)
  · rename_i heq
    obtain ⟨rfl, rfl⟩ := Prod.mk.inj heq
    rfl

private theorem scans_quote (s : String) (rest : Symbols) : Scans (quote s) [.text s] rest :=
  scans_word rfl (scanToken_quote s rest) (by simp)

/-- What the text of a number is read as. -/
def Number.ReadsAs (n : Number) (token : Token) : Prop :=
  ∀ rest, EndsNumeral rest → Scans n.write [token] rest

/-- A number whose text is read as it again. -/
def Number.Stable (n : Number) : Prop := n.ReadsAs (.number n)

theorem scanToken_digit {c : Char} (h : c.isDigit = true) (rest : Symbols) :
    scanToken (some c) rest = scanNumeral false (some c :: rest) := by
  unfold scanToken
  dsimp only
  split
  -- no other word begins with a digit
  iterate 11 exact absurd h (by decide)
  exact if_pos h

theorem isBlank_of_isDigit {c : Char} (h : c.isDigit = true) : isBlank c = false := by
  cases hblank : isBlank c with
  | false => rfl
  | true =>
    simp only [isBlank, Bool.or_eq_true, decide_eq_true_eq] at hblank
    rcases hblank with ((rfl | rfl) | rfl) | rfl <;> cases h

private theorem Number.stable_natural {n : Nat} (h : n ≤ Numeral.natLimit) : (Number.integer n).Stable := by
  intro rest hrest
  have hdigits : (Number.integer n).write = Nat.toDigits 10 n := rfl
  obtain ⟨c, cs, hcs⟩ := List.exists_cons_of_ne_nil (Nat.toDigits_ne_nil (n := n) (b := 10))
  have hdigit : c.isDigit = true :=
    Nat.isDigit_of_mem_toDigits (by decide) (by decide) (hcs ▸ List.mem_cons_self)
  have hscan := scanNumeral_natural h hrest
  rw [hcs, List.map_cons, List.cons_append] at hscan
  rw [hdigits, hcs]
  exact scans_word (isBlank_of_isDigit hdigit) ((scanToken_digit hdigit _).trans hscan) (by simp)

private theorem Number.stable_integer {i : Int} (hlow : -2 ^ 63 ≤ i) (hhigh : i ≤ Numeral.natLimit) :
    (Number.integer i).Stable := by
  by_cases hneg : i < 0
  · intro rest hrest
    obtain ⟨n, rfl⟩ : ∃ n : Nat, i = -n := ⟨i.natAbs, by omega⟩
    have hwrite : (Number.integer (-n)).write = '-' :: Nat.toDigits 10 n := by
      rw [Number.write, writeInt, if_pos hneg, Int.natAbs_neg, Int.natAbs_natCast]
      rfl
    rw [hwrite]
    exact scans_word rfl (scanNumeral_negative (by omega) (by omega) hrest) (by simp)
  · obtain ⟨n, rfl⟩ := Int.eq_ofNat_of_zero_le (Int.not_lt.mp hneg)
    exact stable_natural (Int.ofNat_le.mp hhigh)

mutual

/-- The numbers in a value, in the order in which they are written. -/
def numbers : Json → List Number
  | .null => []
  | .truth _ => []
  | .number n => [n]
  | .text _ => []
  | .array xs => itemNumbers xs
  | .object ms => memberNumbers ms

def itemNumbers : List Json → List Number
  | [] => []
  | x :: xs => x.numbers ++ itemNumbers xs

def memberNumbers : List (String × Json) → List Number
  | [] => []
  | (_, x) :: ms => x.numbers ++ memberNumbers ms

end

private theorem itemNumbers_eq (xs : List Json) : itemNumbers xs = xs.flatMap numbers := by
  induction xs with
  | nil => rw [itemNumbers, List.flatMap_nil]
  | cons x xs ih => rw [itemNumbers, ih, List.flatMap_cons]

private theorem memberNumbers_eq (ms : List (String × Json)) :
    memberNumbers ms = ms.flatMap fun m => m.2.numbers := by
  induction ms with
  | nil => rw [memberNumbers, List.flatMap_nil]
  | cons m ms ih => rw [memberNumbers, ih, List.flatMap_cons]

/-- All numbers in a value are read as the given tokens. -/
def Reads (w : Number → Token) (x : Json) : Prop := ∀ n ∈ x.numbers, n.ReadsAs (w n)

/-- All numbers in a value are read again as they are. -/
abbrev Stable : Json → Prop := Reads .number

section
variable {w : Number → Token}

@[simp] theorem reads_null : Reads w .null := by simp [Reads, numbers]

@[simp] theorem reads_text (s : String) : Reads w (.text s) := by simp [Reads, numbers]

@[simp] theorem reads_number {n : Number} : Reads w (.number n) ↔ n.ReadsAs (w n) := by
  simp [Reads, numbers]

@[simp] theorem reads_array {xs : List Json} : Reads w (.array xs) ↔ ∀ x ∈ xs, x.Reads w := by
  rw [Reads, numbers, itemNumbers_eq]
  simp only [Reads, List.forall_mem_flatMap]

@[simp] theorem reads_object {ms : List (String × Json)} :
    Reads w (.object ms) ↔ ∀ m ∈ ms, m.2.Reads w := by
  rw [Reads, numbers, memberNumbers_eq]
  simp only [Reads, List.forall_mem_flatMap]

variable (hw : ∀ i, w (.integer i) = .number (.integer i))
include hw

theorem reads_natural {n : Nat} (h : n ≤ Numeral.natLimit) : Reads w (.natural n) := by
  rw [natural, reads_number, hw]
  exact Number.stable_natural h

theorem reads_integer {i : Int} (hlow : -2 ^ 63 ≤ i) (hhigh : i ≤ Numeral.natLimit) :
    Reads w (.integer i) := by
  rw [integer, reads_number, hw]
  exact Number.stable_integer hlow hhigh

end

mutual

/-- The tokens of a value with the given ones for its numbers. -/
def tokensBy (w : Number → Token) : Json → List Token
  | .null => [.null]
  | .truth b => [.truth b]
  | .number n => [w n]
  | .text s => [.text s]
  | .array [] => [.openBracket, .closeBracket]
  | .array (x :: xs) => .openBracket :: x.tokensBy w ++ itemTokensBy w xs
  | .object [] => [.openBrace, .closeBrace]
  | .object ((k, x) :: ms) => .openBrace :: .text k :: .colon :: x.tokensBy w ++ memberTokensBy w ms

def itemTokensBy (w : Number → Token) : List Json → List Token
  | [] => [.closeBracket]
  | x :: xs => .comma :: x.tokensBy w ++ itemTokensBy w xs

def memberTokensBy (w : Number → Token) : List (String × Json) → List Token
  | [] => [.closeBrace]
  | (k, x) :: ms => .comma :: .text k :: .colon :: x.tokensBy w ++ memberTokensBy w ms

end

private theorem scans_newLine (depth : Nat) (rest : Symbols) : Scans (newLine depth) [] rest := by
  apply scans_blanks
  intro c hc
  rcases List.mem_cons.mp hc with rfl | hc
  · rfl
  · rw [List.eq_of_mem_replicate hc]
    rfl

private theorem scans_blank (rest : Symbols) : Scans [' '] [] rest := by
  apply scans_blanks
  intro c hc
  rw [List.mem_singleton.mp hc]
  rfl

private theorem scans_mark {c : Char} {token : Token}
    (hscan : ∀ rest, scanToken (some c) rest = (token, rest))
    (hblank : isBlank c = false)
    (hflaw : ∀ quoted reading skipping, token ≠ .flaw quoted reading (some skipping))
    (rest : Symbols) : Scans [c] [token] rest :=
  scans_word hblank (hscan _) hflaw

private theorem scans_comma (rest : Symbols) : Scans [','] [.comma] rest :=
  scans_mark (fun _ => rfl) rfl (by simp) rest

private theorem scans_colon (rest : Symbols) : Scans [':'] [.colon] rest :=
  scans_mark (fun _ => rfl) rfl (by simp) rest

private theorem scans_openBracket (rest : Symbols) : Scans ['['] [.openBracket] rest :=
  scans_mark (fun _ => rfl) rfl (by simp) rest

private theorem scans_closeBracket (rest : Symbols) : Scans [']'] [.closeBracket] rest :=
  scans_mark (fun _ => rfl) rfl (by simp) rest

private theorem scans_openBrace (rest : Symbols) : Scans ['{'] [.openBrace] rest :=
  scans_mark (fun _ => rfl) rfl (by simp) rest

private theorem scans_closeBrace (rest : Symbols) : Scans ['}'] [.closeBrace] rest :=
  scans_mark (fun _ => rfl) rfl (by simp) rest

private theorem endsNumeral_items (depth : Nat) (xs : List Json) (rest : Symbols) :
    EndsNumeral ((indentedItems depth xs).map some ++ rest) := by
  cases xs <;> simp [indentedItems, newLine, EndsNumeral]

private theorem endsNumeral_members (depth : Nat) (ms : List (String × Json)) (rest : Symbols) :
    EndsNumeral ((indentedMembers depth ms).map some ++ rest) := by
  cases ms <;> simp [indentedMembers, newLine, EndsNumeral]

variable {w : Number → Token}

mutual

/-- A written value is split into the tokens that its numbers are read as, and its others. -/
theorem scans_indented (depth : Nat) : (x : Json) → (∀ n ∈ x.numbers, n.ReadsAs (w n)) →
    (rest : Symbols) → EndsNumeral rest → Scans (x.indented depth) (x.tokensBy w) rest
  | .null, _, rest, _ => by
    rw [indented, tokensBy]
    exact scans_word rfl rfl (by simp)
  | .truth b, _, rest, _ => by
    rw [indented, tokensBy]
    cases b <;> exact scans_word rfl rfl (by simp)
  | .number n, h, rest, hrest => by
    rw [indented, tokensBy]
    exact h n (by simp [numbers]) rest hrest
  | .text s, _, rest, _ => by
    rw [indented, tokensBy]
    exact scans_quote s rest
  | .array [], _, rest, _ => by
    rw [indented, tokensBy]
    exact (scans_openBracket _).append (scans_closeBracket rest)
  | .array (x :: xs), h, rest, _ => by
    rw [numbers, itemNumbers, List.forall_mem_append] at h
    rw [indented, tokensBy]
    have hitem := scans_indented (depth + 1) x h.1 _ (endsNumeral_items depth xs rest)
    exact (((scans_openBracket _).append (scans_newLine _ _)).append hitem).append
      (scans_items depth xs h.2 rest)
  | .object [], _, rest, _ => by
    rw [indented, tokensBy]
    exact (scans_openBrace _).append (scans_closeBrace rest)
  | .object ((k, x) :: ms), h, rest, _ => by
    rw [numbers, memberNumbers, List.forall_mem_append] at h
    rw [indented, tokensBy]
    have hvalue := scans_indented (depth + 1) x h.1 _ (endsNumeral_members depth ms rest)
    exact ((((scans_openBrace _).append (scans_newLine _ _)).append (scans_quote k _)).append
      ((scans_colon _).append ((scans_blank _).append hvalue))).append (scans_members depth ms h.2 rest)

theorem scans_items (depth : Nat) : (xs : List Json) → (∀ n ∈ itemNumbers xs, n.ReadsAs (w n)) →
    (rest : Symbols) → Scans (indentedItems depth xs) (itemTokensBy w xs) rest
  | [], _, rest => by
    rw [indentedItems, itemTokensBy]
    exact (scans_newLine _ _).append (scans_closeBracket rest)
  | x :: xs, h, rest => by
    rw [itemNumbers, List.forall_mem_append] at h
    rw [indentedItems, itemTokensBy]
    have hitem := scans_indented (depth + 1) x h.1 _ (endsNumeral_items depth xs rest)
    exact (((scans_comma _).append (scans_newLine _ _)).append hitem).append
      (scans_items depth xs h.2 rest)

theorem scans_members (depth : Nat) : (ms : List (String × Json)) →
    (∀ n ∈ memberNumbers ms, n.ReadsAs (w n)) → (rest : Symbols) →
      Scans (indentedMembers depth ms) (memberTokensBy w ms) rest
  | [], _, rest => by
    rw [indentedMembers, memberTokensBy]
    exact (scans_newLine _ _).append (scans_closeBrace rest)
  | (k, x) :: ms, h, rest => by
    rw [memberNumbers, List.forall_mem_append] at h
    rw [indentedMembers, memberTokensBy]
    have hvalue := scans_indented (depth + 1) x h.1 _ (endsNumeral_members depth ms rest)
    exact ((((scans_comma _).append (scans_newLine _ _)).append (scans_quote k _)).append
      ((scans_colon _).append ((scans_blank _).append hvalue))).append (scans_members depth ms h.2 rest)

end

/-- The text that a value is written as is split into the tokens of the value. -/
theorem tokenize_renderIndented {x : Json} (h : x.Reads w) :
    tokenize (symbols x.renderIndented) = x.tokensBy w := by
  obtain ⟨k, hk, hscan⟩ := scans_indented 0 x h [] trivial
  have hlength : (symbols x.renderIndented).length = (x.indented 0).length - k + k := by
    simp only [symbols, renderIndented, String.toList_ofList, List.length_map]
    omega
  have hend : ∀ n, scanAtMost n [] = [] := by
    intro n
    cases n <;> rfl
  rw [tokenize, hlength, symbols, renderIndented, String.toList_ofList,
    ← List.append_nil (List.map _ _), hscan, hend, List.append_nil]

end LoweringCheck.Json
