import LoweringCheck.Proofs.Comparison.Outputs
/-!
# The worst of the rejected pairs

A deviation is never NaN, so every rejected pair deviates by more than the start of a comparison does, and
the place that a comparison keeps is that of the first rejected pair that deviates most.
-/
namespace LoweringCheck

namespace Binary
variable {f : Format}

private theorem isNaN_sub_of_ne {x y : Binary f} (hx : x.isNaN = false) (hy : y.isNaN = false)
    (hne : y.equals x = false) : (x.sub y).isNaN = false := by
  cases x with
  | nan => cases hx
  | signed m a =>
    cases y with
    | nan => cases hy
    | signed n b =>
      simp only [sub, neg, add]
      split
      · rename_i ha
        split
        · rename_i hboth
          have hsign : m = n := by cases m <;> cases n <;> simp_all
          simp [equals, compares, rank, hsign, ha, hboth.1] at hne
        · rfl
      · split
        · rfl
        · rfl

private theorem exists_abs {x : Binary f} (hx : x.isNaN = false) : ∃ code, x.abs = .signed false code := by
  cases x with
  | nan => cases hx
  | signed negative code => exact ⟨code, rfl⟩

@[simp] theorem less_signed_false (a b : Fin (f.infinity + 1)) :
    less (.signed false a : Binary f) (.signed false b) = decide (a < b) := by
  simp only [less, compares, rank, Bool.false_eq_true, if_false]
  apply decide_eq_decide.mpr
  exact Int.ofNat_lt

private theorem less_infinite (hf : 0 < f.infinity) (code : Fin (f.infinity + 1)) :
    less (infinite true) (.signed false code : Binary f) = true := by
  simp [less, compares, rank, infinite, ofCode]
  omega

end Binary

theorem exists_deviation (expected actual : Single) :
    ∃ code, deviation expected actual = .signed false code := by
  unfold deviation
  split
  · split
    · exact ⟨_, rfl⟩
    · exact ⟨_, rfl⟩
  · rename_i hnan
    simp only [Bool.or_eq_true, not_or, Bool.not_eq_true] at hnan
    split
    · exact ⟨_, rfl⟩
    · rename_i hne
      apply Binary.exists_abs
      exact Binary.isNaN_sub_of_ne hnan.2 hnan.1 (by simpa using hne)

namespace Difference
variable {t : Tolerance} {pairs : List (Single × Single)}

/-- The place and the deviation of the worst rejected pair: there is none, or it is the first one that
deviates most. -/
inductive Worst (t : Tolerance) (pairs : List (Single × Single)) : Nat → Single → Prop where
  | none (allowed : ∀ p ∈ pairs, t.allows p.1 p.2 = true) : Worst t pairs 0 (.infinite true)
  | at {k : Nat} {p : Single × Single} (here : pairs[k]? = some p)
      (rejected : t.allows p.1 p.2 = false)
      (before : ∀ (j : Nat) (q : Single × Single), j < k → pairs[j]? = some q →
        t.allows q.1 q.2 = false → (deviation q.1 q.2).less (deviation p.1 p.2) = true)
      (most : ∀ q ∈ pairs, t.allows q.1 q.2 = false →
        (deviation p.1 p.2).less (deviation q.1 q.2) = false) :
      Worst t pairs k (deviation p.1 p.2)

private theorem Worst.keep {k : Nat} {far : Single} (h : Worst t pairs k far) {p : Single × Single}
    (hp : t.allows p.1 p.2 = true ∨ far.less (deviation p.1 p.2) = false) :
    Worst t (pairs ++ [p]) k far := by
  cases h with
  | none allowed =>
    apply Worst.none
    intro q hq
    rcases List.mem_append.mp hq with hq | hq
    · exact allowed q hq
    · obtain ⟨code, hcode⟩ := exists_deviation p.1 p.2
      rw [hcode, Binary.less_infinite (by decide)] at hp
      rw [List.mem_singleton.mp hq]
      simpa using hp
  | @«at» k w here rejected before most =>
    have hk := (List.getElem?_eq_some_iff.mp here).1
    apply Worst.at
    · rw [List.getElem?_append_left hk, here]
    · exact rejected
    · intro j q hj hq
      rw [List.getElem?_append_left (Nat.lt_trans hj hk)] at hq
      exact before j q hj hq
    · intro q hq hrejected
      rcases List.mem_append.mp hq with hq | hq
      · exact most q hq hrejected
      · rw [List.mem_singleton.mp hq] at hrejected ⊢
        exact hp.resolve_left (by simp [hrejected])

private theorem Worst.replace {k : Nat} {far : Single} (h : Worst t pairs k far) {p : Single × Single}
    (hp : t.allows p.1 p.2 = false) (hless : far.less (deviation p.1 p.2) = true) :
    Worst t (pairs ++ [p]) pairs.length (deviation p.1 p.2) := by
  have hearlier : ∀ q ∈ pairs, t.allows q.1 q.2 = false →
      (deviation q.1 q.2).less (deviation p.1 p.2) = true := by
    intro q hq hrejected
    cases h with
    | none allowed => simp [allowed q hq] at hrejected
    | @«at» k w here rejected before most =>
      have hmost := most q hq hrejected
      obtain ⟨a, ha⟩ := exists_deviation p.1 p.2
      obtain ⟨b, hb⟩ := exists_deviation q.1 q.2
      obtain ⟨c, hc⟩ := exists_deviation w.1 w.2
      simp only [ha, hb, hc, Binary.less_signed_false, decide_eq_true_eq, decide_eq_false_iff_not]
        at hless hmost ⊢
      omega
  apply Worst.at
  · simp
  · exact hp
  · intro j q hj hq
    rw [List.getElem?_append_left hj] at hq
    exact hearlier q (List.mem_of_getElem? hq)
  · intro q hq hrejected
    obtain ⟨a, ha⟩ := exists_deviation p.1 p.2
    obtain ⟨b, hb⟩ := exists_deviation q.1 q.2
    rcases List.mem_append.mp hq with hq | hq
    · have hlt := hearlier q hq hrejected
      simp only [ha, hb, Binary.less_signed_false, decide_eq_true_eq, decide_eq_false_iff_not]
        at hlt ⊢
      omega
    · rw [List.mem_singleton.mp hq, ha]
      simp

/-- A comparison keeps the worst pair with every pair that it sees. -/
theorem Worst.step {p : Progress} (h : Worst t pairs p.found.worst p.worstDeviation)
    (hseen : p.seen = pairs.length) (pair : Single × Single) :
    Worst t (pairs ++ [pair]) (step t p pair).found.worst (step t p pair).worstDeviation := by
  by_cases hallows : t.allows pair.1 pair.2 = true
  · have hstep := h.keep (.inl hallows)
    simpa [Difference.step, widen, hallows] using hstep
  · have hrejected : t.allows pair.1 pair.2 = false := by simpa using hallows
    by_cases hless : p.worstDeviation.less (deviation pair.1 pair.2) = true
    · have hstep := h.replace hrejected hless
      simpa [Difference.step, widen, reject, hrejected, hless, hseen] using hstep
    · have hstep := h.keep (.inr (by simpa using hless))
      simpa [Difference.step, widen, reject, hrejected, hless] using hstep

private theorem seen_step (p : Progress) (pair : Single × Single) : (step t p pair).seen = p.seen + 1 := by
  unfold step reject
  by_cases hallows : t.allows pair.1 pair.2 = true
  · simp [hallows]
  · by_cases hless : p.worstDeviation.less (deviation pair.1 pair.2) = true
    · simp [hallows, hless]
    · simp [hallows, hless]

private theorem worst_foldl {p : Progress} (h : Worst t pairs p.found.worst p.worstDeviation)
    (hseen : p.seen = pairs.length) (rest : List (Single × Single)) :
    Worst t (pairs ++ rest) (rest.foldl (step t) p).found.worst
      (rest.foldl (step t) p).worstDeviation := by
  induction rest generalizing p pairs with
  | nil => simpa using h
  | cons pair rest ih =>
    have hnext : (step t p pair).seen = (pairs ++ [pair]).length := by simp [seen_step, hseen]
    have hrest := ih (h.step hseen pair) hnext
    simpa using hrest

end Difference

/-- The place that a comparison reports is that of the worst rejected pair. -/
theorem worst_compareValues (t : Tolerance) (expected actual : List Single) :
    ∃ far, Difference.Worst t (expected.zip actual) (compareValues t expected actual).worst far := by
  have hstart : Difference.Worst t [] Difference.start.found.worst
      Difference.start.worstDeviation := .none (by simp)
  exact ⟨_, Difference.worst_foldl hstart rfl (expected.zip actual)⟩

theorem exists_rejected {t : Tolerance} {expected actual : List Single}
    (h : (compareValues t expected actual).rejected ≠ 0) :
    ∃ p, (expected.zip actual)[(compareValues t expected actual).worst]? = some p ∧
      t.allows p.1 p.2 = false := by
  obtain ⟨far, hworst⟩ := worst_compareValues t expected actual
  generalize (compareValues t expected actual).worst = k at hworst ⊢
  cases hworst with
  | none allowed =>
    have hzero : (expected.zip actual).countP (fun p => !t.allows p.1 p.2) = 0 := by
      apply List.countP_eq_zero.mpr
      intro p hp
      simp [allowed p hp]
    rw [rejected_compareValues, hzero] at h
    exact absurd rfl h
  | @«at» k p here rejected before most => exact ⟨p, here, rejected⟩

end LoweringCheck
