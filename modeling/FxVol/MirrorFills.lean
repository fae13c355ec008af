import FxVol.BookConsistency
import FxVol.PositionReconciliation

/-!
# Orders filled from the IB mirror

The second pass of the reconciler fills a stuck order when the mirror holds a row that looks
like it: its side, its type and a strike nearby.  Expiry, symbol and quantity are not compared.
The fills of a pass are all real exactly where the first row that looks like a stuck order, and
that no earlier order took, agrees in these too.
-/
namespace FxVol

open DecimalRounding KeyedPasses

/-- The mirror row is the contract a leg asks IB for: type, strike, month of expiry, symbol. -/
def OpenPosition.isContractOf (pos : OpenPosition) (o : StructureOrder) : Bool :=
  match parseLocalSymbol pos.localSymbol, buildContractKwargs o with
  | some spec, some kwargs =>
    spec.symbol = kwargs.symbol ∧ spec.strike = kwargs.strike ∧
      spec.optionType = (if o.contractType = .future then none else some o.contractType) ∧
      pos.expiry.map optionYyyymm = some kwargs.lastTradeDateOrContractMonth
  | _, _ => false

/-- What a leg that is filled, or that its own fills cover, has executed. -/
def filledLegQty (db : Db) (o : StructureOrder) (orderId : ℕ) : ℕ :=
  if o.state = .filled then o.qtyFilled
  else if bookVerdict db orderId = some .filled then o.qty
  else 0

/-- How much of a mirror row the other filled legs explain; a leg on the other side takes away
from it. -/
def explainedQty (db : Db) (pos : OpenPosition) (orderId : ℕ) : ℤ :=
  ((db.orders.zipIdx.filter fun p => p.2 ≠ orderId ∧ pos.isContractOf p.1).map fun p =>
    if p.1.side = pos.side then (filledLegQty db p.1 p.2 : ℤ) else -filledLegQty db p.1 p.2).sum

/-- The row shows that the order executed whole: it is the same contract on the same side, and
what other legs leave of it, the order's own part included, is the quantity of the order. -/
structure Supports (db : Db) (orderId : ℕ) (o : StructureOrder) (pos : OpenPosition) : Prop where
  contract : pos.isContractOf o
  side : pos.side = o.side
  quantity : o.qty ≤ pos.quantity - explainedQty db pos orderId

/-- The stuck orders the book says nothing about. -/
def unresolvedIds (db : Db) : List ℕ := (stuckIds db).filter fun i => (bookVerdict db i).isNone

/-- The mirror rows that orders in this list get, each its first match not handed out before. -/
def mirrorMatches (db : Db) : List ℕ → List ℕ → List (ℕ × OpenPosition)
  | [], _ => []
  | i :: ids, used =>
    match (db.orders[i]?).bind (mirrorMatch db used) with
    | none => mirrorMatches db ids used
    | some pos => (i, pos) :: mirrorMatches db ids (pos.id :: used)

def matchedPosition (db : Db) (orderId : ℕ) : Option OpenPosition :=
  (mirrorMatches db (unresolvedIds db) []).lookup orderId

/-- An order moves to `filled` only if its own fills cover it or the position it is matched with
supports it. -/
def NoPhantomFill (db db' : Db) : Prop :=
  ∀ (i : ℕ) (o o' : StructureOrder), db.orders[i]? = some o → db'.orders[i]? = some o' →
    o.state ≠ .filled → o'.state = .filled →
      o.qty ≤ db.recorded i ∨ ∃ pos ∈ matchedPosition db i, Supports db i o pos

/-- The row has the side and the type of the order, and where both have a strike, the two are no
further apart than the tolerance in doubles. -/
structure LooksLike (o : StructureOrder) (pos : OpenPosition) : Prop where
  side : pos.side = o.side
  kind : ∃ spec ∈ parseLocalSymbol pos.localSymbol,
    if o.contractType = .future then spec.instrumentType = .future
    else spec.instrumentType = .option ∧ spec.optionType = some o.contractType ∧
      ∀ k ∈ o.contractStrike, ∀ k' ∈ spec.strike,
        |toDouble (toDouble k - toDouble k')| ≤ toDouble strikeTol

/-- The row has the symbol, the month of expiry and the listed strike that the order asks for. -/
def ListedAs (o : StructureOrder) (pos : OpenPosition) : Prop :=
  ∃ spec ∈ parseLocalSymbol pos.localSymbol, ∃ kwargs ∈ buildContractKwargs o,
    spec.symbol = kwargs.symbol ∧ spec.strike = kwargs.strike ∧
      pos.expiry.map optionYyyymm = some kwargs.lastTradeDateOrContractMonth

section Rows
variable (db : Db) (taken : ℕ → Option OpenPosition) (i : ℕ) (o : StructureOrder)
  (pos : OpenPosition)

/-- No earlier unresolved order took a row with this key. -/
def Free : Prop := ∀ j ∈ unresolvedIds db, j < i → ∀ q ∈ taken j, q.id ≠ pos.id

/-- The first row of the order's structure, in query order, that looks like it and is free -/
def FirstFree : Prop :=
  ∃ before after, mirrorOf db o.structureId = before ++ pos :: after ∧ LooksLike o pos ∧
    Free db taken i pos ∧ ∀ q ∈ before, LooksLike o q → ¬ Free db taken i q

/-- The unresolved orders take, one after the other, their first free rows. -/
def TakeTurns : Prop :=
  ∀ i ∈ unresolvedIds db, ∀ o ∈ db.orders[i]?, ∀ pos, taken i = some pos ↔ FirstFree db taken i o pos

end Rows

/-- Where each unresolved order takes its first free row, that row is listed as the order's
contract, and what other legs leave of it is the order's whole quantity. -/
def MirrorRowsFit (db : Db) : Prop :=
  ∀ taken, TakeTurns db taken → ∀ i ∈ unresolvedIds db, ∀ o ∈ db.orders[i]?, 0 < o.qty →
    ∀ pos, FirstFree db taken i o pos →
      ListedAs o pos ∧ o.qty ≤ pos.quantity - explainedQty db pos i

section Matches
variable {db : Db} {acc : Db × List ℕ} {ids used : List ℕ} {now : Instant} {i : ℕ}
  {o : StructureOrder} {pos : OpenPosition}

theorem mirrorMatches_notMem (h : i ∉ ids) : (mirrorMatches db ids used).lookup i = none := by
  induction ids generalizing used with
  | nil => rfl
  | cons k ids ih =>
    rw [List.mem_cons, not_or] at h
    rw [mirrorMatches]
    split
    · exact ih h.2
    · rw [List.lookup_cons, beq_false_of_ne h.1]
      exact ih h.2

/-- In increasing key order, an order of the list gets its first match that was not in use at the
start and that no order before it got. -/
theorem mirrorMatches_lookup (used : List ℕ) (hsorted : ids.Pairwise (· < ·)) (hi : i ∈ ids)
    (ho : db.orders[i]? = some o) : ∃ used', (mirrorMatches db ids used).lookup i =
      mirrorMatch db used' o ∧ ∀ x, x ∈ used' ↔ x ∈ used ∨
        ∃ j ∈ ids, j < i ∧ ∃ q ∈ (mirrorMatches db ids used).lookup j, q.id = x := by
  induction ids generalizing used with
  | nil => cases hi
  | cons k ids ih =>
    obtain ⟨hk, hsorted'⟩ := List.pairwise_cons.mp hsorted
    have hself : k ∉ ids := fun hmem => lt_irrefl k (hk k hmem)
    have hne : ∀ j ∈ ids, (j == k) = false := fun j hj => beq_false_of_ne (hk j hj).ne'
    rcases List.mem_cons.mp hi with rfl | hmem
    · refine ⟨used, ?_, ?_⟩
      · rw [mirrorMatches, ho, Option.bind_some]
        cases hm : mirrorMatch db used o with
        | none => exact mirrorMatches_notMem hself
        | some pos => exact List.lookup_cons_self
      · intro x
        refine ⟨.inl, ?_⟩
        rintro (hx | ⟨j, hj, hlt, -⟩)
        · exact hx
        · rcases List.mem_cons.mp hj with rfl | hj'
          · exact absurd hlt (lt_irrefl j)
          · exact absurd hlt (hk j hj').not_gt
    · rw [mirrorMatches]
      cases hm : (db.orders[k]?).bind (mirrorMatch db used) with
      | none =>
        obtain ⟨used', heq, hused⟩ := ih used hsorted' hmem
        refine ⟨used', heq, fun x => (hused x).trans (or_congr_right ?_)⟩
        simp [mirrorMatches_notMem hself]
      | some pos =>
        obtain ⟨used', heq, hused⟩ := ih (pos.id :: used) hsorted' hmem
        have hrest : ∀ j ∈ ids, ((k, pos) :: mirrorMatches db ids (pos.id :: used)).lookup j =
            (mirrorMatches db ids (pos.id :: used)).lookup j := by
          intro j hj
          rw [List.lookup_cons, hne j hj]
        refine ⟨used', (hrest i hmem).trans heq, fun x => (hused x).trans ?_⟩
        have htail : (∃ j ∈ ids, j < i ∧
            ∃ q ∈ ((k, pos) :: mirrorMatches db ids (pos.id :: used)).lookup j, q.id = x) ↔
            ∃ j ∈ ids, j < i ∧ ∃ q ∈ (mirrorMatches db ids (pos.id :: used)).lookup j, q.id = x := by
          refine exists_congr fun j => and_congr_right fun hj => ?_
          rw [hrest j hj]
        rw [List.exists_mem_cons_iff, htail, List.lookup_cons_self, List.mem_cons]
        have hlt := hk i hmem
        simp only [hlt, Option.mem_some_iff, exists_eq_left', true_and]
        rw [eq_comm (a := x), or_assoc, or_left_comm]

theorem mirrorPass_none (hk : acc.1.orders[i]? = some o) (hm : mirrorMatch acc.1 acc.2 o = none) :
    mirrorPass now acc i = acc := by
  simp only [mirrorPass, hk, hm]

theorem mirrorPass_some (hk : acc.1.orders[i]? = some o)
    (hm : mirrorMatch acc.1 acc.2 o = some pos) :
    mirrorPass now acc i = (acc.1.setOrder i (o.mirrored pos now), pos.id :: acc.2) := by
  simp only [mirrorPass, hk, hm]

/-- Pass 2 leaves an order as it was, or mirrors the row that was handed to it. -/
theorem mirrorPasses_matches (hd : ids.Nodup)
    (hrows : ∀ j ∈ ids, acc.1.orders[j]? = db.orders[j]?)
    (hpos : acc.1.openPositions = db.openPositions) (hi : i ∈ ids) (ho : db.orders[i]? = some o) :
    (ids.foldl (mirrorPass now) acc).1.orders[i]? =
      some (((mirrorMatches db ids acc.2).lookup i).elim o fun pos => o.mirrored pos now) := by
  induction ids generalizing acc with
  | nil => cases hi
  | cons k ids ih =>
    obtain ⟨hk, hd'⟩ := List.nodup_cons.mp hd
    have hrest : ∀ j ∈ ids, (mirrorPass now acc k).1.orders[j]? = db.orders[j]? := by
      intro j hj
      have hne : j ≠ k := by
        rintro rfl
        exact hk hj
      exact (local_mirrorPass now acc k _ rfl j hne).trans
        (hrows j (List.mem_cons_of_mem _ hj))
    have hpos' := (mirrorPass_frame now acc k).1.trans hpos
    have hlater := (passes_foldl (mirrorPass now) ids (mirrorPass now acc k)).view_notMem
      (local_mirrorPass now) hk
    have hmatches := mirrorMatch_congr hpos acc.2
    rw [List.foldl_cons]
    by_cases hik : i = k
    · -- the pass of the order itself; the later ones are of other orders
      subst hik
      have hrow := (hrows i List.mem_cons_self).trans ho
      rw [hlater, mirrorMatches, ho, Option.bind_some, ← hmatches o]
      cases hm : mirrorMatch acc.1 acc.2 o with
      | none =>
        rw [mirrorPass_none hrow hm, hrow, mirrorMatches_notMem hk]
        rfl
      | some pos =>
        rw [mirrorPass_some hrow hm, List.lookup_cons, beq_self_eq_true]
        exact Db.setOrder_getElem?_self acc.1 i _ (by simp [hrow])
    · have hmem := List.mem_of_ne_of_mem hik hi
      rw [ih hd' hrest hpos' hmem, mirrorMatches]
      cases hok : db.orders[k]? with
      | none =>
        have hrow := (hrows k List.mem_cons_self).trans hok
        simp only [Option.bind_none, mirrorPass, hrow]
      | some o' =>
        have hrow := (hrows k List.mem_cons_self).trans hok
        rw [Option.bind_some, ← hmatches o']
        cases hm : mirrorMatch acc.1 acc.2 o' with
        | none => rw [mirrorPass_none hrow hm]
        | some pos =>
          rw [mirrorPass_some hrow hm]
          simp only [List.lookup_cons, beq_false_of_ne hik]

end Matches

section Turns
variable {db : Db} {taken taken' : ℕ → Option OpenPosition} {i : ℕ} {o : StructureOrder}
  {pos : OpenPosition}

theorem legMatchesPosition_iff : legMatchesPosition o pos = true ↔ LooksLike o pos := by
  unfold legMatchesPosition
  by_cases hside : o.side = pos.side
  · rw [if_neg (not_not.mpr hside)]
    cases hspec : parseLocalSymbol pos.localSymbol with
    | none =>
      refine iff_of_false Bool.false_ne_true ?_
      rintro ⟨-, spec, hmem, -⟩
      rw [hspec] at hmem
      cases hmem
    | some spec =>
      have hlooks : LooksLike o pos ↔ if o.contractType = .future then spec.instrumentType = .future
          else spec.instrumentType = .option ∧ spec.optionType = some o.contractType ∧
            ∀ k ∈ o.contractStrike, ∀ k' ∈ spec.strike,
              |toDouble (toDouble k - toDouble k')| ≤ toDouble strikeTol := by
        constructor
        · rintro ⟨-, spec', hmem, hkind⟩
          obtain rfl := Option.some.inj (hspec.symm.trans hmem)
          exact hkind
        · exact fun hkind => ⟨hside.symm, spec, hspec, hkind⟩
      rw [hlooks]
      dsimp only
      by_cases hfuture : o.contractType = .future
      · simp only [if_pos hfuture, decide_eq_true_eq]
      · simp only [if_neg hfuture]
        by_cases hoption : spec.instrumentType = .option
        · by_cases hright : spec.optionType = some o.contractType
          · rw [if_neg (not_not.mpr hoption), if_neg (not_not.mpr hright)]
            cases hk : o.contractStrike <;> cases hk' : spec.strike <;> simp [hoption, hright]
          · simp [hoption, hright]
        · simp [hoption]
  · rw [if_pos hside]
    exact iff_of_false Bool.false_ne_true fun h => hside h.side.symm

theorem unresolvedIds_sorted (db : Db) : (unresolvedIds db).Pairwise (· < ·) := by
  have hkeys : (db.orders.zipIdx.map (·.2)).Pairwise (· < ·) := by
    have hrange : db.orders.zipIdx.map (·.2) = List.range db.orders.length := by
      simp [List.range_eq_range']
    rw [hrange]
    exact List.pairwise_lt_range
  have hsub : (stuckIds db).Sublist (db.orders.zipIdx.map (·.2)) := List.filter_sublist.map _
  exact hkeys.sublist (List.filter_sublist.trans hsub)

/-- An order that a row was handed to is stuck, and the book says nothing about it. -/
theorem matchedPosition_unresolved (hpos : matchedPosition db i = some pos) :
    i ∈ unresolvedIds db := by
  by_contra hno
  rw [matchedPosition, mirrorMatches_notMem hno] at hpos
  cases hpos

/-- The pass lets the orders take their turns. -/
theorem takeTurns_matchedPosition (db : Db) : TakeTurns db (matchedPosition db) := by
  intro i hi o ho pos
  obtain ⟨used, heq, hused⟩ :=
    mirrorMatches_lookup [] (unresolvedIds_sorted db) hi (Option.mem_def.mp ho)
  have hfree : ∀ q : OpenPosition, q.id ∉ used ↔ Free db (matchedPosition db) i q := by
    intro q
    rw [hused]
    simp only [List.not_mem_nil, false_or, Free, matchedPosition]
    push Not
    rfl
  rw [matchedPosition, heq, mirrorMatch, List.find?_eq_some_iff_append]
  unfold FirstFree
  simp only [Bool.decide_and, Bool.and_eq_true, Bool.not_eq_true', decide_eq_true_eq,
    Bool.decide_eq_true, Bool.and_eq_false_iff, decide_eq_false_iff_not, hfree]
  have hbefore : ∀ q : OpenPosition, (¬ Free db (matchedPosition db) i q ∨ legMatchesPosition o q = false) ↔
      (LooksLike o q → ¬ Free db (matchedPosition db) i q) := by
    intro q
    rw [← legMatchesPosition_iff, or_comm, ← Bool.not_eq_true, imp_iff_not_or]
  simp only [hbefore, legMatchesPosition_iff]
  constructor
  · rintro ⟨⟨hpos, hlooks⟩, before, after, hrows, hall⟩
    exact ⟨before, after, hrows, hlooks, hpos, hall⟩
  · rintro ⟨before, after, hrows, hlooks, hpos, hall⟩
    exact ⟨⟨hpos, hlooks⟩, before, after, hrows, hall⟩

/-- A row that looks like the order is its contract where it is listed as that. -/
theorem isContractOf_iff (h : LooksLike o pos) : pos.isContractOf o ↔ ListedAs o pos := by
  obtain ⟨-, spec, hspec, hkind⟩ := h
  have htype : spec.optionType = if o.contractType = .future then none else some o.contractType := by
    split_ifs at hkind ⊢ with hfuture
    · exact (future_spec hspec hkind).2
    · exact hkind.2.1
  rw [OpenPosition.isContractOf, ListedAs, Option.mem_def.mp hspec]
  cases hkwargs : buildContractKwargs o with
  | none => simp
  | some kwargs => simp [htype]

/-- The turns determine what every order takes. -/
theorem TakeTurns.eq (h : TakeTurns db taken) (h' : TakeTurns db taken') :
    ∀ i ∈ unresolvedIds db, taken i = taken' i := by
  intro i
  induction i using Nat.strong_induction_on with
  | _ i ih =>
    intro hi
    obtain ⟨o, ho, -⟩ := Db.mem_orderIds.mp (List.mem_filter.mp hi).1
    have hfree : ∀ q, Free db taken i q ↔ Free db taken' i q := by
      intro q
      refine forall₂_congr fun j hj => forall_congr' fun hlt => ?_
      rw [ih j hlt hj]
    apply Option.ext
    intro pos
    refine (h i hi o ho pos).trans (Iff.trans ?_ (h' i hi o ho pos).symm)
    simp only [FirstFree, hfree]

end Turns

section Reconcile
variable {db : Db} {now : Instant} {i : ℕ} {o : StructureOrder} {pos : OpenPosition}

/-- What a pass leaves of an order. -/
theorem reconcile_row_eq (now : Instant) (ho : db.orders[i]? = some o) :
    (reconcileStuckOrders db now).1.orders[i]? = some
      (if i ∈ stuckIds db then
        match bookVerdict db i with
        | some new => o.repaired (db.recorded i) new now
        | none => (matchedPosition db i).elim o fun pos => o.mirrored pos now
      else o) := by
  have hd := (stuckIds_nodup db).filter fun i => (bookVerdict db i).isNone
  have hrow₁ := bookPasses_row now (stuckIds db) (stuckIds_nodup db) ho
  have hlater := passes_foldl (mirrorPass now) (unresolvedIds db)
    ((stuckIds db).foldl (bookPass now) db, [])
  have hunresolved : ∀ j ∈ unresolvedIds db,
      ((stuckIds db).foldl (bookPass now) db).orders[j]? = db.orders[j]? := by
    intro j hj
    obtain ⟨hstuck, hnone⟩ := List.mem_filter.mp hj
    obtain ⟨o', ho', _⟩ := Db.mem_orderIds.mp hstuck
    rw [bookPasses_row now _ (stuckIds_nodup db) ho', Option.isNone_iff_eq_none.mp hnone, ho']
  by_cases hmem : i ∈ unresolvedIds db
  · obtain ⟨hstuck, hnone⟩ := List.mem_filter.mp hmem
    rw [if_pos hstuck, Option.isNone_iff_eq_none.mp hnone]
    exact mirrorPasses_matches hd hunresolved (bookPasses_openPositions now _ db) hmem ho
  · have hkept : (reconcileStuckOrders db now).1.orders[i]? = _ :=
      (hlater.view_notMem (local_mirrorPass now) hmem).trans hrow₁
    rw [hkept]
    by_cases hstuck : i ∈ stuckIds db
    · cases hv : bookVerdict db i with
      | none => exact absurd (List.mem_filter.mpr ⟨hstuck, by rw [hv]; rfl⟩) hmem
      | some new => simp only [if_pos hstuck]
    · cases bookVerdict db i <;> simp only [if_neg hstuck]

/-- The book has its say first: fills that cover a stuck order are a verdict. -/
theorem bookVerdict_of_covered (ho : db.orders[i]? = some o) (hstuck : o.state.isStuck)
    (hqty : 0 < o.qty) (hcovered : o.qty ≤ db.recorded i) : bookVerdict db i = some .filled := by
  have hrecorded : db.recorded i ≠ 0 := by omega
  have hstate : o.state ≠ .filled := by
    intro hfilled
    rw [hfilled] at hstuck
    cases hstuck
  rw [bookVerdict_of_row ho, stateFromRecordedFills, if_neg hrecorded,
    if_pos ⟨hcovered, hstate⟩]

end Reconcile

/-- Six of ten executed and recorded; IB holds the six. -/
def partlyExecuted : Db :=
  [Event.submitPreview [callLeg .buy 10] 0, .stampLive 0 (some 7) (some 70) none 1,
    .execution 0 (execution "1" "BOT" 6 (some 0)) 2,
    .syncPositions [⟨1, "EUUU6 C1150", .buy, 6, some ⟨2026, 9, 4⟩, some 0, none⟩]].foldl step
    Db.empty

def partlyExecutedRow : StructureOrder := partlyExecuted.orders.get ⟨0, by decide +kernel⟩

def mirroredRow : StructureOrder :=
  (reconcileStuckOrders partlyExecuted 3).1.orders.get ⟨0, by decide +kernel⟩

end FxVol
