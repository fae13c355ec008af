import FxVol.BookExposure
import FxVol.MirrorFaithfulness
import FxVol.TableTotals

/-!
# How far the rows lag behind the fills

Where the rows hold the positions that the fills add up to, and their columns the greeks of these positions, the greeks
of the rows are those of the executed fills up to the rounding of the columns.  A report of the account, a pass of the
sync and one of the risk engine, with nothing in between, bring the rows there.
-/
namespace FxVol.BookExposure

open Greeks PretradeGate TableTotals

/-- The rows are the positions that the fills add up to. -/
def Synced (w : World) : Prop :=
  (∀ r ∈ w.mirror.rows, r.localSymbol ∈ w.contracts ∧ r.signedQty = w.held r.localSymbol) ∧
    ∀ k ∈ w.contracts, w.held k ≠ 0 → k ∈ w.mirror.rows.map (·.localSymbol)

instance (w : World) : Decidable (Synced w) := inferInstanceAs (Decidable (_ ∧ _))

/-- The columns are the greeks of the rows. -/
def Priced (m : Market) (w : World) : Prop :=
  ∀ r ∈ w.mirror.rows, w.greeks r.id = (greeksOf m r.localSymbol r.signedQty).map rowGreeks

instance (m : Market) (w : World) : Decidable (Priced m w) := inferInstanceAs (Decidable (∀ _ ∈ _, _))

section Persist
variable {m : Market} {mirror : Mirror} {greeks : ℕ → Option RowGreeks} {a : Axis}
  {loaded : List LoadedPosition}

theorem persist_notMem {id : ℕ} (h : id ∉ loaded.map (·.id)) :
    loaded.foldl (persistPosition m mirror) greeks id = greeks id := by
  induction loaded generalizing greeks with
  | nil => rfl
  | cons pos loaded ih =>
    rw [List.map_cons, List.mem_cons, not_or] at h
    rw [List.foldl_cons, ih h.2, persistPosition]
    split_ifs
    · exact Function.update_of_ne h.1 _ _
    · rfl

theorem persist_mem (hn : (loaded.map (·.id)).Nodup)
    (hrows : ∀ pos ∈ loaded, mirror.rows.any (·.id = pos.id) = true) (pos : LoadedPosition)
    (hpos : pos ∈ loaded) : loaded.foldl (persistPosition m mirror) greeks pos.id =
      (greeksOf m pos.localSymbol pos.quantity).map rowGreeks := by
  induction loaded generalizing greeks with
  | nil => cases hpos
  | cons pos' loaded ih =>
    rw [List.map_cons, List.nodup_cons] at hn
    rw [List.foldl_cons]
    rcases List.mem_cons.mp hpos with rfl | hmem
    · rw [persist_notMem hn.1, persistPosition, if_pos (hrows pos List.mem_cons_self),
        Function.update_self]
    · exact ih hn.2 (fun p hp => hrows p (List.mem_cons_of_mem _ hp)) hmem

theorem loadPositions_eq (h : ∀ r ∈ mirror.rows, (parseLocalSymbol r.localSymbol).isSome = true) :
    loadPositions mirror = mirror.rows.map fun r => ⟨r.id, r.localSymbol, r.signedQty⟩ := by
  rw [loadPositions, ← List.filterMap_eq_map]
  apply List.filterMap_congr
  intro r hr
  obtain ⟨spec, hspec⟩ := Option.isSome_iff_exists.mp (h r hr)
  rw [hspec]
  rfl

/-- A row shows the greeks of its position, rounded. -/
theorem priced_row (hm : mirror.WellFormed)
    (h : ∀ r ∈ mirror.rows, (parseLocalSymbol r.localSymbol).isSome = true) {r : MirrorRow}
    (hr : r ∈ mirror.rows) : (loadPositions mirror).foldl (persistPosition m mirror) greeks r.id =
      (greeksOf m r.localSymbol r.signedQty).map rowGreeks := by
  rw [loadPositions_eq h]
  refine persist_mem ?_ ?_ ⟨r.id, r.localSymbol, r.signedQty⟩ ?_
  · rw [List.map_map]
    exact hm.ids
  · intro pos hpos
    obtain ⟨r', hr', rfl⟩ := List.mem_map.mp hpos
    exact List.any_eq_true.mpr ⟨r', hr', decide_eq_true rfl⟩
  · exact List.mem_map_of_mem hr

theorem rowGreeks_near (k : String) (q : ℚ) :
    |(((greeksOf m k q).map rowGreeks).map a.row).getD 0 - q * unit m a k| ≤ 1 / 200 := by
  rw [← greeksOf_position]
  cases greeksOf m k q with
  | none => norm_num
  | some g =>
    have hround : a.row (rowGreeks g) = pyRound (a.position g) 2 := by cases a <;> rfl
    simp only [Option.map_some, Option.getD_some, hround]
    refine (pyRound_near _ 2).trans ?_
    norm_num

/-- Sums differ by no more than their terms do together. -/
theorem sum_near {α : Type*} {f g : α → ℚ} {ε : ℚ} {rows : List α}
    (h : ∀ r ∈ rows, |f r - g r| ≤ ε) :
    |(rows.map f).sum - (rows.map g).sum| ≤ rows.length * ε := by
  induction rows with
  | nil => simp
  | cons r rows ih =>
    obtain ⟨hr, hrows⟩ := List.forall_mem_cons.mp h
    have hone := abs_le.mp hr
    have hrest := abs_le.mp (ih hrows)
    rw [List.map_cons, List.map_cons, List.sum_cons, List.sum_cons, List.length_cons, abs_le]
    push_cast
    constructor <;> linarith

end Persist

section Sync
variable {m : Market} {w : World} {a : Axis} {k : String}

theorem executed_eq (m : Market) (w : World) (a : Axis) :
    executed m a w = (w.contracts.map fun k => w.held k * unit m a k).sum := by
  have hall : ∀ l ∈ w.legs, l.contract ∈ w.contracts := fun l hl =>
    List.mem_dedup.mpr (List.mem_map_of_mem hl)
  have hbook : executed m a w = (w.legs.map fun l => l.held * unit m a l.contract).sum := by
    rw [executed, World.legs]
    induction w.submitted with
    | nil => rfl
    | cons st l ih =>
      rw [List.map_cons, List.sum_cons, ih, List.flatMap_cons, List.map_append, List.sum_append,
        heldOf]
  rw [hbook, ← sum_by_key w.legs (·.contract) _ (List.nodup_dedup _) hall]
  congr 1
  apply List.map_congr_left
  intro k _
  rw [World.held, ← List.sum_map_mul_right]
  congr 1
  apply List.map_congr_left
  intro l hl
  rw [decide_eq_true_eq.mp (List.mem_filter.mp hl).2]

/-- What IB reports under a symbol is what the fills add up to. -/
theorem reported_positions {p : ReportedPosition}
    (h : AccountSnapshot.reported ⟨true, true, w.positions m⟩ k = some p) :
    k ∈ w.contracts ∧ p.position = w.held k := by
  obtain ⟨-, hactive, hsym⟩ := AccountSnapshot.reported_spec h
  obtain ⟨k', hk', rfl⟩ := List.mem_map.mp (List.mem_filter.mp hactive).1
  obtain rfl : k' = k := hsym
  exact ⟨hk', rfl⟩

theorem reported_held (hk : k ∈ w.contracts) (hne : k ≠ "") (hheld : w.held k ≠ 0) :
    ∃ p, AccountSnapshot.reported ⟨true, true, w.positions m⟩ k = some p := by
  let p : ReportedPosition := { m.contract k with localSymbol := k, position := w.held k }
  have hactive : p ∈ AccountSnapshot.active ⟨true, true, w.positions m⟩ :=
    List.mem_filter.mpr ⟨List.mem_map_of_mem hk, decide_eq_true (abs_pos.mpr hheld)⟩
  have hat : p ∈ (AccountSnapshot.active ⟨true, true, w.positions m⟩).filter
      fun p => p.localSymbol = k := List.mem_filter.mpr ⟨hactive, decide_eq_true rfl⟩
  rw [AccountSnapshot.reported, if_neg hne]
  exact ⟨_, List.getLast?_eq_some_getLast (List.ne_nil_of_mem hat)⟩

theorem signedQty_reported {r : MirrorRow} {p : ReportedPosition} (hside : r.side = p.side)
    (hqty : r.quantity = |p.position|) : r.signedQty = p.position := by
  rw [MirrorRow.signedQty, hside, hqty, ReportedPosition.side]
  split_ifs with hpos
  · rw [sideSign, one_mul, abs_of_pos hpos]
  · rw [sideSign, abs_of_nonpos (not_lt.mp hpos), neg_one_mul, neg_neg]

/-- The rows that a sync leaves hold what the fills add up to. -/
theorem mirrored_row {mirror : Mirror} (hm : mirror.WellFormed)
    (hf : Faithful ⟨true, true, w.positions m⟩ mirror) {r : MirrorRow} (hr : r ∈ mirror.rows) :
    r.localSymbol ∈ w.contracts ∧ r.signedQty = w.held r.localSymbol := by
  have hat := hf r.localSymbol
  have hrow := hm.rowsAt_mem hr
  cases hp : AccountSnapshot.reported ⟨true, true, w.positions m⟩ r.localSymbol with
  | none =>
    rw [hp] at hat
    rw [hrow] at hat
    cases hat
  | some p =>
    rw [hp] at hat
    obtain ⟨r', hr', hside, hqty⟩ := hat
    obtain rfl : r = r' := List.singleton_inj.mp (hrow.symm.trans hr')
    obtain ⟨hk, hposition⟩ := reported_positions hp
    exact ⟨hk, (signedQty_reported hside hqty).trans hposition⟩

/-- The greeks of the mirrored positions are those of the executed fills. -/
theorem sum_mirrored (hm : (w.mirror.rows.map (·.localSymbol)).Nodup) (hs : Synced w) :
    (w.mirror.rows.map fun r => r.signedQty * unit m a r.localSymbol).sum = executed m a w := by
  have hsymbols : w.mirror.rows.map (fun r => r.signedQty * unit m a r.localSymbol) =
      (w.mirror.rows.map (·.localSymbol)).map fun k => w.held k * unit m a k := by
    rw [List.map_map]
    apply List.map_congr_left
    intro r hr
    rw [Function.comp_apply, (hs.1 r hr).2]
  have hnodup : w.contracts.Nodup := List.nodup_dedup _
  rw [hsymbols, executed_eq, ← List.sum_toFinset _ hm, ← List.sum_toFinset _ hnodup]
  apply Finset.sum_subset
  · intro k hk
    obtain ⟨r, hr, rfl⟩ := List.mem_map.mp (List.mem_toFinset.mp hk)
    exact List.mem_toFinset.mpr (hs.1 r hr).1
  · intro k hk hnot
    by_contra hne
    have hheld : w.held k ≠ 0 := fun h => hne (by rw [h, zero_mul])
    exact hnot (List.mem_toFinset.mpr (hs.2 k (List.mem_toFinset.mp hk) hheld))

/-- The rows lag behind the fills by no more than the rounding of their columns. -/
theorem lag_le (hm : (w.mirror.rows.map (·.localSymbol)).Nodup) (hs : Synced w) (hp : Priced m w) :
    |executed m a w - a.book (bookGreeks w.bookRows)| ≤ w.mirror.rows.length * (1 / 200) := by
  rw [Axis.book_bookGreeks, World.bookRows, List.map_map, ← sum_mirrored hm hs, abs_sub_comm]
  apply sum_near
  intro r hr
  rw [Function.comp_apply, hp r hr]
  exact rowGreeks_near r.localSymbol r.signedQty

/-- One round from the account to the columns. -/
def settle (db : Db) (now : Instant) : List Event :=
  [.report true true, .sync db now, .load, .persist]

section Settle
variable (hm : w.mirror.WellFormed) (hseen : ¬ FlatUnseen ⟨true, true, w.positions m⟩ w.mirror)
  (hread : ∀ k ∈ w.contracts, (parseLocalSymbol k).isSome = true) (db : Db) (now : Instant)
include hm hseen

theorem faithful_settle : Faithful ⟨true, true, w.positions m⟩ ((settle db now).foldl (step m) w).mirror :=
  faithful_trusted hm ((trustworthy_iff hm).mpr ⟨rfl, hseen⟩)

include hread

theorem synced_settle : Synced ((settle db now).foldl (step m) w) := by
  have hwell : ((settle db now).foldl (step m) w).mirror.WellFormed := hm.sync db ⟨true, true, w.positions m⟩ now
  have hfaithful := faithful_settle hm hseen db now
  refine ⟨fun r hr => mirrored_row hwell hfaithful hr, fun k hk hheld => ?_⟩
  have hnonempty : k ≠ "" := by
    rintro rfl
    exact absurd (hread "" hk) (by decide)
  obtain ⟨p, hp⟩ := reported_held (m := m) (w := w) hk hnonempty hheld
  have hat := hfaithful k
  rw [hp] at hat
  obtain ⟨r, hr, -⟩ := hat
  obtain ⟨hmem, rfl⟩ := Mirror.mem_rowsAt.mp (hr ▸ List.mem_singleton.mpr rfl : r ∈ Mirror.rowsAt _ k)
  exact List.mem_map_of_mem hmem

theorem priced_settle : Priced m ((settle db now).foldl (step m) w) := by
  have hwell : ((settle db now).foldl (step m) w).mirror.WellFormed := hm.sync db ⟨true, true, w.positions m⟩ now
  have hparse : ∀ r ∈ ((settle db now).foldl (step m) w).mirror.rows, (parseLocalSymbol r.localSymbol).isSome = true :=
    fun r hr => hread _ (mirrored_row hwell (faithful_settle hm hseen db now) hr).1
  exact fun r hr => priced_row hwell hparse hr

end Settle

end Sync

end FxVol.BookExposure
