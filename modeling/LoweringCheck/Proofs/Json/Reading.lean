import LoweringCheck.Graph.Codec
import LoweringCheck.Proofs.Json.Scanning
import LoweringCheck.Proofs.Replacing
import LoweringCheck.Proofs.Tensor.Casting
/-!
# What readers make of written values

A written value gives tokens in which each number stands as what its text is read as. A reader takes these
tokens off the front of any tokens and gives a value, or fails. Lists are read item by item, and records
from members that fill their parts in any order; the first part that is not read fails the whole.
-/
namespace LoweringCheck

namespace Json
variable {w : Number → Token}

private theorem tokensBy_cons (hw : ∀ n, w n ≠ .closeBracket) (x : Json) :
    ∃ t ts, x.tokensBy w = t :: ts ∧ t ≠ .closeBracket := by
  match x with
  | .null => exact ⟨_, _, by rw [tokensBy], by simp⟩
  | .truth _ => exact ⟨_, _, by rw [tokensBy], by simp⟩
  | .number n => exact ⟨_, _, by rw [tokensBy], hw n⟩
  | .text _ => exact ⟨_, _, by rw [tokensBy], by simp⟩
  | .array [] => exact ⟨_, _, by rw [tokensBy], by simp⟩
  | .array (_ :: _) => exact ⟨_, _, by rw [tokensBy]; rfl, by simp⟩
  | .object [] => exact ⟨_, _, by rw [tokensBy], by simp⟩
  | .object ((_, _) :: _) => exact ⟨_, _, by rw [tokensBy]; rfl, by simp⟩

private theorem length_itemTokensBy (xs : List Json) : xs.length < (itemTokensBy w xs).length := by
  induction xs with
  | nil => simp [itemTokensBy]
  | cons x xs ih =>
    simp only [itemTokensBy, List.length_cons, List.length_append]
    omega

private theorem length_memberTokensBy (ms : List (String × Json)) :
    ms.length < (memberTokensBy w ms).length := by
  induction ms with
  | nil => simp [memberTokensBy]
  | cons m ms ih =>
    simp only [memberTokensBy, List.length_cons, List.length_append]
    omega

namespace Reader
variable {α β σ : Type}

/-- A value in front of the tokens that are left, or some problem. -/
inductive Outcome (rest : List Token) : Except Problem (α × List Token) → Option α → Prop
  | read (a : α) : Outcome rest (.ok (a, rest)) (some a)
  | problem (p : Problem) : Outcome rest (.error p) none

/-- What a reader makes of the tokens of a value in front of any others, if no fewer levels than its depth
may be entered. -/
def Gives (w : Number → Token) (r : Reader α) (depth : Nat) (x : Json) (o : Option α) : Prop :=
  ∀ n rest, depth ≤ n → Outcome rest (r n (x.tokensBy w ++ rest)) o

/-- How the numbers of a written value are read: integers as they are, and reals as what `v` says. -/
structure Keeps (w : Number → Token) (v : Binary .double → Option (Binary .double)) : Prop where
  integer : ∀ i, w (.integer i) = .number (.integer i)
  real : ∀ x, ((real .double).run [w (.real .double x)]).toOption = v x
  noBracket : ∀ n, w n ≠ .closeBracket

theorem keeps_number : Keeps .number some where
  integer _ := rfl
  real x := congrArg some x.convert_self
  noBracket _ := by simp

variable {v : Binary .double → Option (Binary .double)} {r : Reader α} {depth : Nat} {x : Json}
  {o : Option α}

theorem Gives.map (h : r.Gives w depth x o) (f : α → β) : (r.map f).Gives w depth x (o.map f) := by
  intro n rest hn
  have hread := h n rest hn
  unfold Reader.map
  generalize r n (x.tokensBy w ++ rest) = result at hread ⊢
  cases hread with
  | read a => exact .read (f a)
  | problem p => exact .problem p

theorem Gives.filterMap (h : r.Gives w depth x o) {f : α → Option β} {o' : Option β}
    (hf : o.bind f = o') : (r.filterMap f).Gives w depth x o' := by
  intro n rest hn
  have hread := h n rest hn
  unfold Reader.filterMap
  subst hf
  generalize r n (x.tokensBy w ++ rest) = result at hread ⊢
  cases hread with
  | problem p => exact .problem p
  | read a =>
    rw [Option.bind_some]
    dsimp only
    cases f a with
    | some b => exact .read b
    | none => exact .problem .mistyped

theorem Gives.mono (h : r.Gives w depth x o) {depth' : Nat} (hle : depth ≤ depth') :
    r.Gives w depth' x o :=
  fun n rest hn => h n rest (Nat.le_trans hle hn)

theorem text_gives (s : String) : text.Gives w 0 (.text s) (some s) := by
  intro n rest _
  rw [tokensBy]
  exact .read s

private theorem integer_gives (hw : Keeps w v) {low high i : Int} (hlow : low ≤ i) (hhigh : i ≤ high) :
    (integer low high).Gives w 0 (.integer i) (some i) := by
  intro n rest _
  rw [Json.integer, tokensBy, hw.integer]
  show Outcome rest (if low ≤ i ∧ i ≤ high then .ok (i, rest) else .error .mistyped) _
  rw [if_pos ⟨hlow, hhigh⟩]
  exact .read i

theorem natural_gives (hw : Keeps w v) {limit n : Nat} (h : n ≤ limit) :
    (natural limit).Gives w 0 (.natural n) (some n) :=
  (integer_gives hw (Int.natCast_nonneg n) (Int.ofNat_le.mpr h)).map Int.toNat

theorem int64_gives (hw : Keeps w v) (i : Int64) :
    int64.Gives w 0 (.integer i.toInt) (some i) := by
  have h := (integer_gives hw i.le_toInt i.toInt_le).map Int64.ofInt
  rwa [Option.map_some, Int64.ofInt_toInt] at h

private theorem real_token (f : Binary.Format) (n : Nat) (t : Token) (rest : List Token) :
    Outcome rest (real f n (t :: rest)) ((real f).run [t]).toOption := by
  cases t with
  | number x => cases x <;> exact .read _
  | _ => exact .problem _

theorem real_gives (hw : Keeps w v) (x : Binary .double) :
    (real .double).Gives w 0 (.number (.real .double x)) (v x) := by
  intro n rest _
  rw [tokensBy, ← hw.real]
  exact real_token .double n _ rest

theorem optional_null (r : Reader α) : (optional r).Gives w 0 .null (some none) := by
  intro n rest _
  rw [tokensBy]
  exact .read none

theorem optional_text {s : String} (h : r.Gives w depth (.text s) o) :
    (optional r).Gives w depth (.text s) (o.map some) := by
  intro n rest hn
  have hread := h.map some n rest hn
  rw [tokensBy] at hread ⊢
  exact hread

theorem choice_gives {names : List (String × α)} {name : String} {a : α}
    (h : names.lookup name = some a) : (choice names).Gives w 0 (.text name) (some a) := by
  intro n rest _
  rw [tokensBy]
  simp only [List.singleton_append, choice, h]
  exact .read a

theorem run_gives (h : r.Gives w depth x o) (hdepth : depth ≤ levels) :
    (r.run (x.tokensBy w)).toOption = o := by
  have hread := h levels [] hdepth
  rw [List.append_nil] at hread
  unfold run
  generalize r levels (x.tokensBy w) = result at hread ⊢
  cases hread <;> rfl

/-! ## Lists -/

private theorem Outcome.cons {value : β → Option α} {b : β} {bs : List β} {mid rest : List Token}
    {result : Except Problem (α × List Token)}
    {more : List Token → Except Problem (List α × List Token)}
    (hitem : Outcome mid result (value b)) (hmore : Outcome rest (more mid) (bs.mapM value)) :
    Outcome rest
      (match result with
        | .error p => .error p
        | .ok (x, ts) =>
          match more ts with
          | .error p => .error p
          | .ok (xs, ts) => .ok (x :: xs, ts)) ((b :: bs).mapM value) := by
  rw [List.mapM_cons]
  generalize value b = o at hitem ⊢
  cases hitem with
  | problem p => exact .problem p
  | read a =>
    dsimp only
    generalize more mid = results, bs.mapM value = os at hmore ⊢
    cases hmore with
    | problem p => exact .problem p
    | read as => exact .read (a :: as)

private theorem moreItems_gives (hw : ∀ n, w n ≠ .closeBracket)
    {item : List Token → Except Problem (α × List Token)} {write : β → Json} {value : β → Option α}
    {bs : List β} (h : ∀ b ∈ bs, ∀ rest, Outcome rest (item ((write b).tokensBy w ++ rest)) (value b))
    {fuel : Nat} (hfuel : bs.length ≤ fuel) (rest : List Token) :
    Outcome rest (moreItems item fuel (itemTokensBy w (bs.map write) ++ rest)) (bs.mapM value) := by
  induction bs generalizing fuel with
  | nil =>
    rw [List.map_nil, itemTokensBy]
    cases fuel <;> exact .read []
  | cons b bs ih =>
    obtain ⟨fuel, rfl⟩ : ∃ k, fuel = k + 1 := ⟨fuel - 1, by simp at hfuel; omega⟩
    have hrest := ih (fun b hb => h b (List.mem_cons_of_mem _ hb)) (Nat.le_of_succ_le_succ hfuel)
    have hitem := h b List.mem_cons_self (itemTokensBy w (bs.map write) ++ rest)
    obtain ⟨t, ts, htokens, ht⟩ := tokensBy_cons hw (write b)
    rw [List.map_cons, itemTokensBy]
    simp only [htokens, List.cons_append, List.append_assoc] at hitem ⊢
    rw [moreItems]
    · exact hitem.cons hrest
    · exact fun _ heq => ht (List.cons.inj heq).1

theorem list_gives (hw : ∀ n, w n ≠ .closeBracket) {item : Reader α} {write : β → Json}
    {value : β → Option α} {bs : List β} (h : ∀ b ∈ bs, item.Gives w depth (write b) (value b)) :
    (list item).Gives w (depth + 1) (.array (bs.map write)) (bs.mapM value) := by
  intro n rest hn
  obtain ⟨n, rfl⟩ : ∃ k, n = k + 1 := ⟨n - 1, by omega⟩
  have hn : depth ≤ n := Nat.le_of_succ_le_succ hn
  cases bs with
  | nil =>
    rw [List.map_nil, tokensBy]
    exact .read []
  | cons b bs =>
    have hlength : bs.length ≤ (itemTokensBy w (bs.map write) ++ rest).length := by
      have h := length_itemTokensBy (w := w) (bs.map write)
      rw [List.length_map] at h
      rw [List.length_append]
      omega
    have hmore := moreItems_gives hw
      (fun b hb rest => h b (List.mem_cons_of_mem _ hb) n rest hn) hlength rest
    have hitem := h b List.mem_cons_self n (itemTokensBy w (bs.map write) ++ rest) hn
    obtain ⟨t, ts, htokens, ht⟩ := tokensBy_cons hw (write b)
    rw [List.map_cons, tokensBy]
    simp only [htokens, List.cons_append, List.append_assoc] at hitem ⊢
    show Outcome rest (items (item n) (t :: (ts ++ (itemTokensBy w (bs.map write) ++ rest)))) _
    rw [items.eq_def]
    split
    · rename_i heq
      exact absurd (List.cons.inj heq).1 ht
    · exact hitem.cons hmore

theorem list_reads (hw : ∀ n, w n ≠ .closeBracket) {item : Reader α} {write : α → Json} {as : List α}
    (h : ∀ a ∈ as, item.Gives w depth (write a) (some a)) :
    (list item).Gives w (depth + 1) (.array (as.map write)) (some as) := by
  have hitems := list_gives hw h
  rwa [mapM_eq_self_iff.mpr fun _ _ => rfl] at hitems

/-! ## Objects -/

/-- Members that a step takes one after the other, up to the end or to the first one that it does not
take. -/
inductive Steps (w : Number → Token)
    (step : String → σ → List Token → Except Problem (σ × List Token)) :
    σ → List (String × Json) → Option σ → Prop
  | nil (s : σ) : Steps w step s [] (some s)
  | cons {s : σ} {o : Option σ} {next : σ → Option σ} {name : String} {x : Json}
    {ms : List (String × Json)}
    (first : ∀ rest, Outcome rest (step name s (.colon :: (x.tokensBy w ++ rest))) o)
    (others : ∀ t, o = some t → Steps w step t ms (next t)) :
    Steps w step s ((name, x) :: ms) (o.bind next)

private theorem moreMembers_gives
    {step : String → σ → List Token → Except Problem (σ × List Token)} {s : σ} {o : Option σ}
    {ms : List (String × Json)} (h : Steps w step s ms o) {fuel : Nat} (hfuel : ms.length ≤ fuel)
    (rest : List Token) : Outcome rest (moreMembers step fuel s (memberTokensBy w ms ++ rest)) o := by
  induction h generalizing fuel with
  | nil s =>
    rw [memberTokensBy]
    cases fuel <;> exact .read s
  | @cons s o next name x ms hfirst _ ih =>
    obtain ⟨fuel, rfl⟩ : ∃ k, fuel = k + 1 := ⟨fuel - 1, by simp at hfuel; omega⟩
    have hstep := hfirst (memberTokensBy w ms ++ rest)
    rw [memberTokensBy]
    simp only [List.cons_append, List.append_assoc, moreMembers, key]
    generalize step name s _ = result at hstep ⊢
    cases hstep with
    | read t => exact ih t rfl (Nat.le_of_succ_le_succ hfuel)
    | problem p => exact .problem p

private theorem members_gives {step : String → σ → List Token → Except Problem (σ × List Token)}
    {s : σ} {o : Option σ} {ms : List (String × Json)} (h : Steps w step s ms o) (rest : List Token) :
    ∃ ts, (Json.object ms).tokensBy w ++ rest = .openBrace :: ts ∧
      Outcome rest (members step s ts) o := by
  cases h with
  | nil =>
    rw [tokensBy]
    exact ⟨_, rfl, .read s⟩
  | @cons _ o next name x ms hfirst hothers =>
    rw [tokensBy]
    refine ⟨_, rfl, ?_⟩
    have hstep := hfirst (memberTokensBy w ms ++ rest)
    simp only [List.append_eq, List.cons_append, List.append_assoc, members, key]
    generalize step name s _ = result at hstep ⊢
    cases hstep with
    | problem p => exact .problem p
    | read t =>
      refine moreMembers_gives (hothers t rfl) ?_ rest
      rw [List.length_append]
      exact Nat.le_trans (Nat.le_of_lt (length_memberTokensBy ms)) (Nat.le_add_right _ _)

/-- Members that fill parts of a record, each one that was still empty, up to the end or to the first one
that is not read. -/
inductive Fills (w : Number → Token) (fields : List (Field σ)) (depth : Nat) :
    σ → List (String × Json) → Option σ → Prop
  | nil (s : σ) : Fills w fields depth s [] (some s)
  | cons {s t : σ} {o : Option σ} {name : String} {x : Json} {ms : List (String × Json)}
    {field : Field σ} (find : fields.find? (·.name == name) = some field)
    (empty : field.filled s = false) (read : (field.read s).Gives w depth x (some t))
    (others : Fills w fields depth t ms o) : Fills w fields depth s ((name, x) :: ms) o
  | stop {s : σ} {name : String} {x : Json} {ms : List (String × Json)} {field : Field σ}
    (find : fields.find? (·.name == name) = some field) (empty : field.filled s = false)
    (read : (field.read s).Gives w depth x none) : Fills w fields depth s ((name, x) :: ms) none

theorem Fills.last {fields : List (Field σ)} {field : Field σ} {name : String} {s : σ} {o : Option σ}
    (find : fields.find? (·.name == name) = some field) (empty : field.filled s = false)
    (read : (field.read s).Gives w depth x o) : Fills w fields depth s [(name, x)] o := by
  cases o with
  | some t => exact .cons find empty read (.nil t)
  | none => exact .stop find empty read

private theorem recordMember_gives {fields : List (Field σ)} {field : Field σ} {name : String} {s : σ}
    {o : Option σ} {n : Nat} (find : fields.find? (·.name == name) = some field)
    (empty : field.filled s = false) (read : (field.read s).Gives w depth x o) (hn : depth ≤ n)
    (rest : List Token) :
    Outcome rest (recordMember fields n name s (.colon :: (x.tokensBy w ++ rest))) o := by
  rw [recordMember, find]
  simp only [empty, Bool.false_eq_true, if_false]
  exact read n rest hn

theorem record_gives {fields : List (Field σ)} {mayStop : Bool} {s : σ} {o : Option σ}
    {ms : List (String × Json)} (h : Fills w fields depth s ms o) :
    (record fields mayStop s).Gives w (depth + 1) (.object ms) o := by
  intro n rest hn
  obtain ⟨n, rfl⟩ : ∃ k, n = k + 1 := ⟨n - 1, by omega⟩
  have hn : depth ≤ n := Nat.le_of_succ_le_succ hn
  have hsteps : Steps w (recordMember fields n) s ms o := by
    induction h with
    | nil s => exact .nil s
    | @cons s t o name x ms field find empty read _ ih =>
      have hcons : Steps w (recordMember fields n) s ((name, x) :: ms) ((some t).bind fun _ => o) :=
        .cons (recordMember_gives find empty read hn) fun _ ht => Option.some.inj ht ▸ ih
      exact hcons
    | @stop s name x ms field find empty read =>
      have hstop : Steps w (recordMember fields n) s ((name, x) :: ms) (none.bind fun _ => none) :=
        .cons (recordMember_gives find empty read hn) fun _ ht => nomatch ht
      exact hstop
  obtain ⟨ts, htokens, hmembers⟩ := members_gives hsteps rest
  rw [htokens]
  exact hmembers

theorem part_gives {name : String} {get : σ → Option α} {set : σ → α → σ} (s : σ)
    (h : r.Gives w depth x o) : ((part name get set r).read s).Gives w depth x (o.map (set s)) :=
  h.map (set s)

theorem dictionary_gives {value : Reader β} {write : α → Json} {f : α → Option β} {d : Dictionary α}
    (h : ∀ e ∈ d.entries, value.Gives w depth (write e.2) (f e.2)) :
    (dictionary value).Gives w (depth + 1) (.ofDictionary write d) (d.map? f) := by
  intro n rest hn
  obtain ⟨n, rfl⟩ : ∃ k, n = k + 1 := ⟨n - 1, by omega⟩
  have hn : depth ≤ n := Nat.le_of_succ_le_succ hn
  let step (name : String) (d : Dictionary β) := afterColon (value.map (d.insert name)) n
  have hsteps : ∀ (es : List (String × α)) (start : Dictionary β),
      (∀ e ∈ es, value.Gives w depth (write e.2) (f e.2)) →
      Steps w step start (es.map fun e => (e.1, write e.2))
        ((es.mapM fun e => (f e.2).map (e.1, ·)).map
          (·.foldl (fun d e => d.insert e.1 e.2) start)) := by
    intro es
    induction es with
    | nil => exact fun start _ => .nil start
    | cons e es ih =>
      intro start hes
      have hfirst := fun rest => (hes e List.mem_cons_self).map (start.insert e.1) n rest hn
      have hothers := fun start => ih start fun e' he' => hes e' (List.mem_cons_of_mem _ he')
      have hentries : Steps w step start ((e.1, write e.2) :: es.map fun e => (e.1, write e.2))
          (((f e.2).map (start.insert e.1)).bind fun t =>
            (es.mapM fun e => (f e.2).map (e.1, ·)).map (·.foldl (fun d e => d.insert e.1 e.2) t)) :=
        .cons hfirst fun t _ => hothers t
      rw [List.mapM_cons]
      generalize f e.2 = o, es.mapM (fun e => (f e.2).map (e.1, ·)) = rest at hentries ⊢
      cases o <;> cases rest <;> exact hentries
  obtain ⟨ts, htokens, hmembers⟩ := members_gives (hsteps d.entries .empty h) rest
  rw [Json.ofDictionary, htokens]
  exact hmembers

end Reader
end Json
end LoweringCheck
