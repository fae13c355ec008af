import FxVol.MirrorLag
import FxVol.GateClosure
import FxVol.GuardedRuns

/-!
# Do the caps bound the book

The gate tests the rows of `open_position` with the trade on top.  It sees neither the fills the
mirror does not show yet, nor the rests of open structures, nor the trade but as the preview
counts it.
-/
namespace FxVol.BookExposure

open Greeks TradePreviews PretradeGate GateUnits GateClosure GuardedRuns

section Sight
variable (m : Market) (w : World) (r : GateReads) (payload : PreviewPayload)
  (contracts : ℕ → String) (a : Axis)

/-- The greeks of the trade as the gate takes them from the payload. -/
def tradeSeen : ℚ := ((tradeGreeksFromPreview payload (r.spot payload)).map a.trade).getD 0

/-- What is compared with the cap. -/
def seen : ℚ := a.book (bookGreeks w.bookRows) + tradeSeen r payload a

/-- The greeks of the fills that the rows do not show: unsynced, unpriced or rounded away. -/
def lag : ℚ := executed m a w - a.book (bookGreeks w.bookRows)

/-- By how much the greeks of the legs differ from those of the payload. -/
def misread : ℚ := wholeOf m a (orderedLegs payload contracts) - tradeSeen r payload a

def unseen : ℚ := lag m w a + inFlight m a w + misread m r payload contracts a

variable {m w r payload contracts a}

theorem seen_add_unseen : seen w r payload a + unseen m w r payload contracts a =
    exposure m a w + wholeOf m a (orderedLegs payload contracts) := by
  rw [seen, unseen, lag, misread, exposure]
  ring

/-- An admitted trade is within the caps as far as the gate sees. -/
theorem admitted_seen (h : Admitted m w r payload) : |seen w r payload a| ≤ a.cap m.caps := by
  rw [Admitted, runPretradeGate, evaluatePretrade_passed] at h
  obtain ⟨caps, hcaps, book, hbook, trade, htrade, hwithin⟩ := h.caps
  cases hcaps
  cases hbook
  have hseen : tradeSeen r payload a = a.trade trade := by
    change ((tradeGreeksFromPreview payload ((gateReads m w r).spot payload)).map a.trade).getD 0 = _
    rw [show tradeGreeksFromPreview payload _ = some trade from htrade]
    rfl
  rw [seen, hseen]
  cases a with
  | delta => exact hwithin.delta
  | vega => exact hwithin.vega
  | gamma => exact hwithin.gamma

end Sight

/-- The greeks of all fills and of every structure that is not terminal stay within the caps. -/
def BookWithin (m : Market) (w : World) : Prop := ∀ a : Axis, |exposure m a w| ≤ a.cap m.caps

namespace Submitted

/-- In flight -/
def Open (st : Submitted) : Prop := st.terminal = false ∧ ∃ l ∈ st.legs, l.filled ≠ l.qty

instance (st : Submitted) : Decidable st.Open := inferInstanceAs (Decidable (_ ∧ _))

/-- Every leg is filled as far as the others. -/
def Even (st : Submitted) : Prop := ∃ t : ℚ, 0 ≤ t ∧ t ≤ 1 ∧ ∀ l ∈ st.legs, (l.filled : ℚ) = t * l.qty

end Submitted

/-- What the sums of the gate may be off by once the rows are up to date -/
def slack (m : Market) (w : World) (r : GateReads) (payload : PreviewPayload) (contracts : ℕ → String) (a : Axis) : ℚ :=
  w.mirror.rows.length * (1 / 200) + |misread m r payload contracts a|

/-- A trade is admitted with nothing in flight and the rows synced and priced, and no sum that the gate finds within its
cap is closer to it than the sum may be off; a structure that ends in flight has its legs filled evenly. -/
def Meets (m : Market) (w : World) : Event → Prop
  | .submit r payload contracts => Admitted m w r payload →
      (∀ st ∈ w.submitted, ¬ st.Open) ∧ Synced w ∧ Priced m w ∧ ∀ a : Axis, |seen w r payload a| ≤ a.cap m.caps →
        |seen w r payload a| + slack m w r payload contracts a ≤ a.cap m.caps
  | .finish s => ∀ st ∈ w.submitted[s]?, st.Open → st.Even
  | .fill .. | .report .. | .sync .. | .load | .persist => True

/-- At most one structure is in flight, and the book without it is within the caps too. -/
structure Inv (m : Market) (w : World) : Prop where
  mirror : w.mirror.WellFormed
  within : BookWithin m w
  alone : ∀ (i j : ℕ) (st st' : Submitted), w.submitted[i]? = some st → w.submitted[j]? = some st' →
    st.Open → st'.Open → i = j
  before : ∀ (i : ℕ) (st : Submitted), w.submitted[i]? = some st → st.Open →
    ∀ a : Axis, |exposure m a w - wholeOf m a st.legs| ≤ a.cap m.caps

section Steps
variable {m : Market} {w : World} {a : Axis} {st : Submitted}

theorem rest_settled (h : ¬ st.Open) : st.rest m a = 0 := by
  rw [Submitted.rest]
  split_ifs with hterminal
  · rfl
  · have hfilled : ∀ l ∈ st.legs, l.filled = l.qty := by
      intro l hl
      by_contra hne
      exact h ⟨Bool.eq_false_iff.mpr hterminal, l, hl, hne⟩
    apply List.sum_eq_zero
    intro x hx
    obtain ⟨l, hl, rfl⟩ := List.mem_map.mp hx
    rw [OrderedLeg.rest, hfilled l hl, sub_self, mul_zero, zero_mul]

theorem restOf_even {t : ℚ} {legs : List OrderedLeg} (h : ∀ l ∈ legs, (l.filled : ℚ) = t * l.qty) :
    restOf m a legs = (1 - t) * wholeOf m a legs := by
  rw [restOf, wholeOf, ← List.sum_map_mul_left]
  congr 1
  apply List.map_congr_left
  intro l hl
  rw [OrderedLeg.rest, h l hl]
  ring

/-- Where the rows are up to date and nothing is in flight, a trade that the gate admits keeps the book within the
caps. -/
theorem within_admitted {r : GateReads} {payload : PreviewPayload} {contracts : ℕ → String} (hw : Inv m w)
    (hadmitted : Admitted m w r payload) (hmeets : Meets m w (.submit r payload contracts)) :
    BookWithin m (step m w (.submit r payload contracts)) := by
  intro a
  obtain ⟨hidle, hsynced, hpriced, hclear⟩ := hmeets hadmitted
  have hcap := hclear a (admitted_seen hadmitted)
  have hlag : |lag m w a| ≤ w.mirror.rows.length * (1 / 200) := lag_le hw.mirror.one hsynced hpriced
  have hflight : inFlight m a w = 0 := by
    apply List.sum_eq_zero
    intro x hx
    obtain ⟨st, hst, rfl⟩ := List.mem_map.mp hx
    exact rest_settled (hidle st hst)
  rw [exposure_admitted hadmitted, ← seen_add_unseen (r := r), unseen, hflight, add_zero]
  calc |seen w r payload a + (lag m w a + misread m r payload contracts a)|
      ≤ |seen w r payload a| + (|lag m w a| + |misread m r payload contracts a|) :=
        (abs_add_le _ _).trans (add_le_add_right (abs_add_le _ _) _)
    _ ≤ |seen w r payload a| + slack m w r payload contracts a := add_le_add_right (add_le_add_left hlag _) _
    _ ≤ a.cap m.caps := hcap

/-- A trade that is submitted with nothing in flight is the only one in flight. -/
theorem inv_admitted {r : GateReads} {payload : PreviewPayload} {contracts : ℕ → String} (hw : Inv m w)
    (hadmitted : Admitted m w r payload) (hmeets : Meets m w (.submit r payload contracts)) :
    Inv m (step m w (.submit r payload contracts)) := by
  obtain ⟨hidle, -⟩ := hmeets hadmitted
  have hlast : ∀ (i : ℕ) (st : Submitted), (step m w (.submit r payload contracts)).submitted[i]? = some st → st.Open →
      i = w.submitted.length ∧ st = ⟨orderedLegs payload contracts, false⟩ := by
    intro i st hi hopen
    rw [step, if_pos hadmitted] at hi
    rcases Nat.lt_or_ge i w.submitted.length with hold | hnew
    · rw [List.getElem?_append_left hold] at hi
      exact absurd hopen (hidle st (List.mem_of_getElem? hi))
    · rw [List.getElem?_append_right hnew, List.getElem?_singleton] at hi
      split_ifs at hi with hzero
      exact ⟨by omega, (Option.some.inj hi).symm⟩
  refine ⟨?_, within_admitted hw hadmitted hmeets, fun i j st st' hi hj hopen hopen' => ?_, fun i st hi hopen a => ?_⟩
  · rw [step, if_pos hadmitted]
    exact hw.mirror
  · rw [(hlast i st hi hopen).1, (hlast j st' hj hopen').1]
  · rw [(hlast i st hi hopen).2, exposure_admitted hadmitted, add_sub_cancel_right]
    exact hw.within a

/-- A change of one structure that puts none in flight -/
theorem open_modify {l : List Submitted} {s i : ℕ} {f : Submitted → Submitted} {st : Submitted}
    (hopen : ∀ st, (f st).Open → st.Open) (hwhole : ∀ st, wholeOf m a (f st).legs = wholeOf m a st.legs)
    (hi : (l.modify s f)[i]? = some st) (hst : st.Open) :
    ∃ old, l[i]? = some old ∧ old.Open ∧ wholeOf m a st.legs = wholeOf m a old.legs ∧ (s = i → st = f old) := by
  rw [List.getElem?_modify] at hi
  obtain ⟨old, hold, rfl⟩ := Option.map_eq_some_iff.mp hi
  refine ⟨old, hold, ?_⟩
  split_ifs at hst ⊢ with hs
  · exact ⟨hopen old hst, hwhole old, fun _ => rfl⟩
  · exact ⟨hst, rfl, fun h => absurd h hs⟩

theorem inv_modify {s : ℕ} {f : Submitted → Submitted} (hw : Inv m w) (hopen : ∀ st, (f st).Open → st.Open)
    (hwhole : ∀ a st, wholeOf m a (f st).legs = wholeOf m a st.legs)
    (hsame : ∀ a, exposure m a { w with submitted := w.submitted.modify s f } = exposure m a w) :
    Inv m { w with submitted := w.submitted.modify s f } where
  mirror := hw.mirror
  within a := by
    rw [hsame]
    exact hw.within a
  alone i j st st' hi hj hst hst' := by
    obtain ⟨old, hold, holdopen, -⟩ := open_modify (a := .delta) hopen (hwhole _) hi hst
    obtain ⟨old', hold', holdopen', -⟩ := open_modify (a := .delta) hopen (hwhole _) hj hst'
    exact hw.alone i j old old' hold hold' holdopen holdopen'
  before i st hi hst a := by
    obtain ⟨old, hold, holdopen, hlegs, -⟩ := open_modify hopen (hwhole a) hi hst
    rw [hsame, hlegs]
    exact hw.before i old hold holdopen a

theorem open_fill {leg n : ℕ} (h : Submitted.Open { st with legs := st.legs.modify leg (·.fill n) }) : st.Open := by
  obtain ⟨hterminal, l, hl, hne⟩ := h
  refine ⟨hterminal, ?_⟩
  obtain ⟨i, hi⟩ := List.mem_iff_getElem?.mp hl
  rw [List.getElem?_modify] at hi
  obtain ⟨old, hold, rfl⟩ := Option.map_eq_some_iff.mp hi
  refine ⟨old, List.mem_of_getElem? hold, fun hfilled => hne ?_⟩
  split_ifs
  · simp only [OrderedLeg.fill, hfilled]
    omega
  · exact hfilled

/-- Between two books within the caps lies no other. -/
theorem within_between {x y c t : ℚ} (hx : |x| ≤ c) (hy : |y| ≤ c) (h0 : 0 ≤ t) (h1 : t ≤ 1) :
    |t * x + (1 - t) * y| ≤ c := by
  calc |t * x + (1 - t) * y| ≤ |t * x| + |(1 - t) * y| := abs_add_le _ _
    _ = t * |x| + (1 - t) * |y| := by rw [abs_mul, abs_mul, abs_of_nonneg h0, abs_of_nonneg (sub_nonneg.mpr h1)]
    _ ≤ t * c + (1 - t) * c :=
        add_le_add (mul_le_mul_of_nonneg_left hx h0) (mul_le_mul_of_nonneg_left hy (sub_nonneg.mpr h1))
    _ = c := by ring

/-- What ends in flight leaves a book between the one with it and the one without it. -/
theorem inv_finish {s : ℕ} (hw : Inv m w) (hmeets : Meets m w (.finish s)) : Inv m (step m w (.finish s)) := by
  have hclosed : ∀ st : Submitted, ¬ Submitted.Open { st with terminal := true } := fun st h => nomatch h.1
  by_cases hopen : ∃ st, w.submitted[s]? = some st ∧ st.Open
  · obtain ⟨st, hst, hopen⟩ := hopen
    obtain ⟨t, h0, h1, heven⟩ := hmeets st hst hopen
    have hnone : ∀ (i : ℕ) (st' : Submitted), (step m w (.finish s)).submitted[i]? = some st' → ¬ st'.Open := by
      intro i st' hi hopen'
      obtain ⟨old, hold, holdopen, -, hf⟩ :=
        open_modify (m := m) (a := .delta) (fun st h => absurd h (hclosed st)) (fun _ => rfl) hi hopen'
      obtain rfl := hw.alone s i st old hst hold hopen holdopen
      rw [hf rfl] at hopen'
      exact hclosed old hopen'
    refine ⟨hw.mirror, fun a => ?_, fun i j st' _ hi _ hopen' => absurd hopen' (hnone i st' hi),
      fun i st' hi hopen' => absurd hopen' (hnone i st' hi)⟩
    have hrest : restAt m a w s = (1 - t) * wholeOf m a st.legs := by
      rw [restAt, hst, Option.elim_some, Submitted.rest, hopen.1, if_neg Bool.false_ne_true, restOf_even heven]
    have hmean : exposure m a w - (1 - t) * wholeOf m a st.legs =
        t * exposure m a w + (1 - t) * (exposure m a w - wholeOf m a st.legs) := by ring
    rw [exposure_finish, hrest, hmean]
    exact within_between (hw.within a) (hw.before s st hst hopen a) h0 h1
  · refine inv_modify hw (fun st h => absurd h (hclosed st)) (fun _ _ => rfl) fun a => ?_
    have hrest : restAt m a w s = 0 := by
      rw [restAt]
      cases hst : w.submitted[s]? with
      | none => rfl
      | some st => exact rest_settled fun h => hopen ⟨st, hst, h⟩
    exact (exposure_finish w s).trans (by rw [hrest, sub_zero])

theorem step_inv (hw : Inv m w) (e : Event) (hmeets : Meets m w e) : Inv m (step m w e) := by
  cases e with
  | submit r payload contracts =>
    by_cases hadmitted : Admitted m w r payload
    · exact inv_admitted hw hadmitted hmeets
    · rwa [step, if_neg hadmitted]
  | fill s leg n =>
    refine inv_modify hw (fun st => ?_) (fun a st => ?_) fun a => exposure_fill w s leg n
    · split_ifs
      · exact id
      · exact open_fill
    · split_ifs
      · rfl
      · exact wholeOf_fill st.legs leg n
  | finish s => exact inv_finish hw hmeets
  | report connected streaming => exact ⟨hw.mirror, hw.within, hw.alone, hw.before⟩
  | sync db now => exact ⟨hw.mirror.sync db w.account now, hw.within, hw.alone, hw.before⟩
  | load => exact ⟨hw.mirror, hw.within, hw.alone, hw.before⟩
  | persist => exact ⟨hw.mirror, hw.within, hw.alone, hw.before⟩

end Steps

/-- Over every run that starts within the caps with nothing in flight and whose steps meet the condition, the greeks of
the fills and of the structures in flight are within the caps in every state. -/
theorem caps_bound_book (m : Market) (w : World) (hmirror : w.mirror.WellFormed) (hwithin : BookWithin m w)
    (hidle : ∀ st ∈ w.submitted, ¬ st.Open) (es : List Event) (h : Guarded (step m) (Meets m) w es)
    (past : List Event) (hpast : past <+: es) : BookWithin m (past.foldl (step m) w) := by
  obtain ⟨rest, rfl⟩ := hpast
  have hstart : Inv m w := ⟨hmirror, hwithin, fun i _ st _ hi _ hopen => absurd hopen (hidle st (List.mem_of_getElem? hi)),
    fun i st hi hopen => absurd hopen (hidle st (List.mem_of_getElem? hi))⟩
  exact ((Run.of_foldl past (guarded_append.mp h).1).invariant (fun w e hw he => step_inv hw e he) hstart).within

/-- Heron's approximations of a square root. -/
def heron (x : ℚ) : ℕ → ℚ
  | 0 => (1 + x) / 2
  | n + 1 => (heron x n + x / heron x n) / 2

def nearTheMoney : Numerics :=
  ofElementary (fun x => 1 + x + x * x / 2) (fun x => x - 1 - (x - 1) * (x - 1) / 2)
    (fun x => heron x 3) (fun x => 1128379 / 1000000 * x) (355 / 113)

def straddleLeg (right : ContractType) : TradePreviews.LegSpec :=
  ⟨right, .buy, .known .m3, none, some (10856557 / 10000000), 1, none⟩

/-- `n` straddles, struck so that the deltas of call and put cancel. -/
def straddle (n : ℤ) : PreviewRequest := ⟨.legs [straddleLeg .call, straddleLeg .put], some n⟩

def straddleStructure : Structure :=
  ⟨[⟨0, .call, 90, some (10856557 / 10000000), 1, .buy, some 7⟩,
    ⟨1, .put, 90, some (10856557 / 10000000), 1, .buy, some 7⟩], true, .positive, none⟩

def straddlePayload (n : ℤ) : PreviewPayload :=
  previewPayload nearTheMoney straddleStructure (straddle n) (published (1 / 100))

example : buildRequested (straddle 6).body (published (1 / 100)).priced.1 = .ok straddleStructure := by
  decide +kernel

/-- IB lists the nearest strike. -/
def straddleContracts (i : ℕ) : String := if i = 0 then "EUUZ6 C1085" else "EUUZ6 P1085"

def quietMarket : Market where
  numerics := nearTheMoney
  spot := 1085 / 1000
  years _ := 90 / 365
  iv _ := 7 / 100
  contract _ := reportedCall 0
  caps := ⟨243600, 5075, 3007⟩

instance (m : Market) (w : World) : Decidable (BookWithin m w) := by
  unfold BookWithin
  infer_instance

instance (m : Market) (w : World) (r : GateReads) (payload : PreviewPayload) (contracts : ℕ → String) :
    Decidable (Meets m w (.submit r payload contracts)) :=
  inferInstanceAs (Decidable (Admitted m w r payload → _ ∧ _ ∧ _ ∧ ∀ _ : Axis, _ ≤ _ → _ ≤ _))

abbrev submitStraddle (n : ℤ) : Event := .submit allInOrder (straddlePayload n) straddleContracts

/-- Four straddles are filled and mirrored before the next four are submitted, which end half filled. -/
def oneByOne : List Event :=
  [submitStraddle 4, .fill 0 0 4, .fill 0 1 4, .report true true, .sync .empty 0, .load, .persist,
    submitStraddle 4, .fill 1 0 2, .fill 1 1 2, .finish 1]

def halfFilled : Submitted := ⟨[⟨"EUUZ6 C1085", .buy, 4, 2⟩, ⟨"EUUZ6 P1085", .buy, 4, 2⟩], false⟩

theorem oneByOne_meets : Guarded (step quietMarket) (Meets quietMarket) .empty oneByOne := by
  have hend : ((oneByOne.take 10).foldl (step quietMarket) .empty).submitted[1]? = some halfFilled := by decide +kernel
  refine ⟨by decide +kernel, trivial, trivial, trivial, trivial, trivial, trivial, by decide +kernel, trivial, trivial,
    fun st hst _ => ?_, trivial⟩
  obtain rfl : halfFilled = st := Option.some.inj (hend.symm.trans hst)
  exact ⟨1 / 2, by norm_num, by norm_num, by decide +kernel⟩

theorem caps_bound_book_oneByOne :
    (oneByOne.foldl (step quietMarket) .empty).submitted.length = 2 ∧
    ∀ past, past <+: oneByOne → BookWithin quietMarket (past.foldl (step quietMarket) .empty) :=
  ⟨by decide +kernel, fun past hpast => caps_bound_book quietMarket .empty .empty (by decide +kernel) nofun
    oneByOne oneByOne_meets past hpast⟩

/-- Six straddles are admitted, and six more before the first have filled: vega and gamma are beyond
their caps. -/
theorem caps_breached_in_flight :
    BookWithin quietMarket .empty ∧
    Admitted quietMarket .empty allInOrder (straddlePayload 6) ∧
    Admitted quietMarket (step quietMarket .empty (submitStraddle 6)) allInOrder
      (straddlePayload 6) ∧
    ¬ BookWithin quietMarket
      ([submitStraddle 6, submitStraddle 6].foldl (step quietMarket) .empty) := by
  decide +kernel

end FxVol.BookExposure
