import FxVol.SpotOrders
import Mathlib.Data.List.Infix

/-!
# Folding the fills of a spot order

Each fill task folds the cumulative list it saw, each status task looks at the state, and they
interleave at will.  Where a task that changes state, quantity or price writes over the row it has
read, the row ends as the largest complete list says.
-/
namespace FxVol

open GuardedRuns ReadModifyWrite

section Book
variable {row row' loaded : SpotOrder} {t : SpotTask}

def SpotState.afterStatus (state : SpotState) (new : Option SpotState) : SpotState :=
  match new with
  | none | some .filled => state
  | some new =>
    if state.isTerminal ∨ new = .submitted ∧ state = .partiallyFilled then state else new

def SpotBook.afterFold (b : SpotBook) (fills : List SpotFill) : SpotBook :=
  if spotQty fills < b.qtyFilled then b
  else { b with
    qtyFilled := spotQty fills
    avgFillPrice := spotVwap fills
    state :=
      if b.qty ≤ spotQty fills then .filled
      else if 0 < spotQty fills ∧ ¬ b.state.isTerminal then .partiallyFilled
      else b.state }

def SpotBook.apply (b : SpotBook) : SpotTask → SpotBook
  | .status s _ | .stamp _ _ _ _ s _ => { b with state := b.state.afterStatus s.newState }
  | .fold fills _ _ => b.afterFold fills

theorem afterStatus_some (state : SpotState) {new : SpotState} (h : new ≠ .filled) :
    state.afterStatus (some new) =
      if state.isTerminal ∨ new = .submitted ∧ state = .partiallyFilled then state else new := by
  cases new <;> first | rfl | exact absurd rfl h

theorem book_applyStatus (row : SpotOrder) (s : SpotStatus) (now : Instant) :
    (row.applyStatus s now).book =
      { row.book with state := row.state.afterStatus s.newState } := by
  unfold SpotOrder.applyStatus
  dsimp only
  split
  · next h =>
    rw [h]
    rfl
  · next h =>
    rw [h]
    rfl
  · next new hne h =>
    rw [h, afterStatus_some _ hne]
    by_cases hterm : row.state.isTerminal
    · rw [if_pos hterm, if_pos (.inl hterm)]
      rfl
    · by_cases hpartial : new = .submitted ∧ row.state = .partiallyFilled
      · rw [if_neg hterm, if_pos hpartial, if_pos (.inr hpartial)]
        rfl
      · rw [if_neg hterm, if_neg hpartial, if_neg (not_or.mpr ⟨hterm, hpartial⟩)]
        by_cases hsame : new = row.state
        · rw [if_pos hsame, hsame]
          rfl
        · rw [if_neg hsame]
          rfl

theorem book_apply (row : SpotOrder) (t : SpotTask) : (row.apply t).book = row.book.apply t := by
  cases t with
  | status s now => exact book_applyStatus row s now
  | stamp ibOrderId ibPermId limitPrice localSymbol s now => exact book_applyStatus _ s now
  | fold fills localSymbol now =>
    simp only [SpotOrder.apply, SpotOrder.foldFills, SpotBook.apply, SpotBook.afterFold]
    by_cases hless : spotQty fills < row.qtyFilled
    · simp [hless, SpotOrder.book]
    · simp [hless, SpotOrder.book]

theorem writtenColumn_self {α : Type*} [DecidableEq α] (new current : α) :
    writtenColumn current new current = new := by
  unfold writtenColumn
  split_ifs with h
  · exact h.symm
  · rfl

theorem writtenColumn_idle {α : Type*} [DecidableEq α] (loaded current : α) :
    writtenColumn loaded loaded current = current := if_pos rfl

def spotWriter : Writer SpotOrder SpotTask SpotBook where
  apply := SpotOrder.apply
  write loaded current t := loaded.written (loaded.apply t) current
  view := SpotOrder.book
  fresh loaded current t h := by
    have hnew : (loaded.apply t).book = (current.apply t).book := by
      rw [book_apply, book_apply, h]
    simp only [SpotOrder.book, SpotBook.mk.injEq] at h hnew
    obtain ⟨hqty, hstate, hfilled, havg⟩ := h
    simp only [SpotOrder.book, SpotOrder.written, hqty, hstate, hfilled, havg, writtenColumn_self,
      hnew]
  idle loaded current t h := by
    simp only [SpotOrder.book, SpotBook.mk.injEq] at h
    obtain ⟨hqty, hstate, hfilled, havg⟩ := h
    simp only [SpotOrder.book, SpotOrder.written, hqty, hstate, hfilled, havg, writtenColumn_idle]

end Book

/-- The list holds all executions of the order up to some moment, in any order. -/
def CompleteUpTo (executions fills : List SpotFill) : Prop :=
  ∃ past, past <+: executions ∧ fills.Perm past

def FoldedComplete (executions : List SpotFill) (ran : List SpotTask) (fills : List SpotFill) : Prop :=
  CompleteUpTo executions fills ∧ ∃ localSymbol now, SpotTask.fold fills localSymbol now ∈ ran

/-- The row has the quantity and the price of the largest complete list folded, and is filled where
they fill it. -/
structure FoldedAs (executions : List SpotFill) (b : SpotBook) (ran : List SpotTask) : Prop where
  largest : ∀ fills, FoldedComplete executions ran fills → spotQty fills ≤ b.qtyFilled
  booked : (b.qtyFilled = 0 ∧ b.avgFillPrice = none) ∨ ∃ fills, FoldedComplete executions ran fills ∧
    spotQty fills = b.qtyFilled ∧ spotVwap fills = b.avgFillPrice
  filled : b.state = .filled ↔ b.qty ≤ b.qtyFilled

/-- Nothing filled is taken back. -/
structure SpotBook.Grows (b b' : SpotBook) : Prop where
  qty : b'.qty = b.qty
  qtyFilled : b.qtyFilled ≤ b'.qtyFilled
  filled : b.state = .filled → b'.state = .filled

def PartialFallsShort (executions : List SpotFill) (b : SpotBook) : SpotTask → Prop
  | .fold fills _ _ => CompleteUpTo executions fills ∨ spotQty fills < b.qtyFilled ∨
      spotQty fills = b.qtyFilled ∧ spotVwap fills = b.avgFillPrice
  | .status .. | .stamp .. => True

section Tasks
variable {executions : List SpotFill} {b b' : SpotBook} {ran : List SpotTask} {t : SpotTask}
  {fills : List SpotFill}

/-- A status neither fills an order nor takes a fill back. -/
theorem afterStatus_filled (state : SpotState) (new : Option SpotState) :
    state.afterStatus new = .filled ↔ state = .filled := by
  cases new with
  | none => rfl
  | some new =>
    by_cases hnew : new = .filled
    · rw [hnew]
      rfl
    · rw [afterStatus_some state hnew]
      split_ifs with h
      · rfl
      · refine iff_of_false hnew ?_
        rintro rfl
        exact h (.inl rfl)

theorem SpotBook.grows_apply (b : SpotBook) (t : SpotTask) : b.Grows (b.apply t) := by
  cases t with
  | status s now | stamp _ _ _ _ s now =>
    exact ⟨rfl, le_rfl, (afterStatus_filled b.state s.newState).mpr⟩
  | fold fills localSymbol now =>
    simp only [SpotBook.apply, SpotBook.afterFold]
    split_ifs with hless hfull hpart
    · exact ⟨rfl, le_rfl, id⟩
    · exact ⟨rfl, not_lt.mp hless, fun _ => rfl⟩
    · refine ⟨rfl, not_lt.mp hless, fun hfilled => ?_⟩
      rw [hfilled] at hpart
      exact absurd rfl hpart.2
    · exact ⟨rfl, not_lt.mp hless, id⟩

theorem SpotBook.Grows.trans {b'' : SpotBook} (h : b.Grows b') (h' : b'.Grows b'') : b.Grows b'' :=
  ⟨h'.qty.trans h.qty, h.qtyFilled.trans h'.qtyFilled, fun hf => h'.filled (h.filled hf)⟩

theorem FoldedComplete.mono (h : FoldedComplete executions ran fills) (t : SpotTask) :
    FoldedComplete executions (ran ++ [t]) fills := by
  obtain ⟨hcomplete, localSymbol, now, hmem⟩ := h
  exact ⟨hcomplete, localSymbol, now, List.mem_append_left _ hmem⟩

/-- A task that folds no complete list of more than is booked. -/
theorem FoldedAs.keep (h : FoldedAs executions b ran)
    (ht : ∀ fills localSymbol now, t = .fold fills localSymbol now →
      CompleteUpTo executions fills → spotQty fills ≤ b.qtyFilled)
    (hqty : b'.qty = b.qty) (hfilled : b'.qtyFilled = b.qtyFilled)
    (havg : b'.avgFillPrice = b.avgFillPrice) (hstate : b'.state = .filled ↔ b.state = .filled) :
    FoldedAs executions b' (ran ++ [t]) := by
  refine ⟨?_, ?_, ?_⟩
  · rintro fills ⟨hcomplete, localSymbol, now, hmem⟩
    rw [hfilled]
    rcases List.mem_append.mp hmem with hold | hnew
    · exact h.largest fills ⟨hcomplete, localSymbol, now, hold⟩
    · exact ht fills localSymbol now (List.mem_singleton.mp hnew).symm hcomplete
  · rw [hfilled, havg]
    refine h.booked.imp id ?_
    rintro ⟨fills, hfolded, hsame⟩
    exact ⟨fills, hfolded.mono t, hsame⟩
  · rw [hstate, hqty, hfilled]
    exact h.filled

theorem FoldedAs.apply (h : FoldedAs executions b ran)
    (ht : PartialFallsShort executions b t) : FoldedAs executions (b.apply t) (ran ++ [t]) := by
  cases t with
  | status s now | stamp _ _ _ _ s now =>
    exact h.keep nofun rfl rfl rfl (afterStatus_filled b.state s.newState)
  | fold fills localSymbol now =>
    have own {fills' : List SpotFill} {localSymbol' : Option String} {now' : Instant}
        (heq : SpotTask.fold fills localSymbol now = .fold fills' localSymbol' now') :
        fills' = fills := by
      cases heq
      rfl
    simp only [SpotBook.apply, SpotBook.afterFold]
    by_cases hless : spotQty fills < b.qtyFilled
    · rw [if_pos hless]
      refine h.keep ?_ rfl rfl rfl Iff.rfl
      intro fills' _ _ heq _
      rw [own heq]
      exact hless.le
    · rw [if_neg hless]
      -- a filled order has its quantity booked, and the list has at least that
      have hstate : (if b.qty ≤ spotQty fills then SpotState.filled
          else if 0 < spotQty fills ∧ ¬ b.state.isTerminal then .partiallyFilled
          else b.state) = .filled ↔ b.qty ≤ spotQty fills := by
        split_ifs with hfull hpart
        · exact iff_of_true rfl hfull
        · exact iff_of_false nofun hfull
        · refine iff_of_false (fun hfilled => hfull ?_) hfull
          have hbooked := h.filled.mp hfilled
          omega
      by_cases hcomplete : CompleteUpTo executions fills
      · have hfolded : FoldedComplete executions (ran ++ [.fold fills localSymbol now]) fills :=
          ⟨hcomplete, localSymbol, now, List.mem_append_right _ List.mem_cons_self⟩
        refine ⟨?_, .inr ⟨fills, hfolded, rfl, rfl⟩, hstate⟩
        rintro fills' ⟨hcomplete', localSymbol', now', hmem⟩
        rcases List.mem_append.mp hmem with hold | hnew
        · have hbooked := h.largest fills' ⟨hcomplete', localSymbol', now', hold⟩
          dsimp only
          omega
        · rw [own (List.mem_singleton.mp hnew).symm]
      · obtain ⟨hsame, havg⟩ := (ht.resolve_left hcomplete).resolve_left hless
        refine h.keep ?_ rfl hsame havg ?_
        · intro fills' _ _ heq hcomplete'
          rw [own heq] at hcomplete'
          exact absurd hcomplete' hcomplete
        · rw [h.filled, ← hsame]
          exact hstate

/-- What one task after another keeps of a spot order. -/
theorem spotWriter_keeps (executions : List SpotFill) :
    spotWriter.Keeps (PartialFallsShort executions) (FoldedAs executions) SpotBook.Grows where
  refl _ := ⟨rfl, le_rfl, id⟩
  trans _ _ _ := SpotBook.Grows.trans
  grows row t := by
    rw [show spotWriter.view (spotWriter.apply row t) = row.book.apply t from book_apply row t]
    exact row.book.grows_apply t
  apply row ran t h ht := by
    rw [show spotWriter.view (spotWriter.apply row t) = row.book.apply t from book_apply row t]
    exact h.apply ht
  idle read row ran t h ht hgrown hidle := by
    refine h.keep ?_ rfl rfl rfl Iff.rfl
    rintro fills localSymbol now rfl _
    have hbook : read.book.afterFold fills = read.book :=
      (book_apply read (.fold fills localSymbol now)).symm.trans hidle
    have hread : spotQty fills ≤ read.book.qtyFilled := by
      by_contra hless
      rw [SpotBook.afterFold, if_neg (by omega)] at hbook
      have hsame := congrArg SpotBook.qtyFilled hbook
      dsimp only at hsame
      omega
    exact hread.trans hgrown.qtyFilled

end Tasks

def spotTable (qty : ℕ) (limitPrice : Option ℚ) (created : Instant) : Table SpotOrder SpotTask :=
  ⟨.new qty limitPrice created, [], []⟩

/-- Any tasks on a new order, in any order of reads and commits: what they fold is what the row
says, and nothing is taken back, where no task writes over columns that have changed since it has
read them and no incomplete list has more than is booked. -/
theorem spot_order_folds {qty : ℕ} (hqty : 0 < qty) (limitPrice : Option ℚ) (created : Instant)
    (executions : List SpotFill) (moves : List (Move SpotTask))
    (h : Guarded spotWriter.step (spotWriter.Serial (PartialFallsShort executions))
      (spotTable qty limitPrice created) moves) :
    FoldedAs executions (moves.foldl spotWriter.step (spotTable qty limitPrice created)).row.book
        (moves.foldl spotWriter.step (spotTable qty limitPrice created)).ran ∧
      ∀ past, past <+: moves →
        (past.foldl spotWriter.step (spotTable qty limitPrice created)).row.book.Grows
          (moves.foldl spotWriter.step (spotTable qty limitPrice created)).row.book := by
  have hnew : FoldedAs executions (spotTable qty limitPrice created).row.book [] := by
    refine ⟨?_, .inl ⟨rfl, rfl⟩, iff_of_false nofun ?_⟩
    · rintro fills ⟨_, _, _, hmem⟩
      cases hmem
    · exact not_le.mpr hqty
  have hidle : spotWriter.Grown SpotBook.Grows (spotTable qty limitPrice created) := by
    intro task htask
    cases htask
  have hkeeps := spotWriter_keeps executions
  refine ⟨(hkeeps.run (Run.of_foldl moves h) hnew hidle).1, ?_⟩
  rintro past ⟨rest, rfl⟩
  obtain ⟨hpast, hrest⟩ := guarded_append.mp h
  obtain ⟨hfolded, hgrown, _⟩ := hkeeps.run (Run.of_foldl past hpast) hnew hidle
  rw [List.foldl_append]
  exact (hkeeps.run (Run.of_foldl rest hrest) hfolded hgrown).2.2

section Decide
variable (executions fills : List SpotFill) (b : SpotBook) (w : Table SpotOrder SpotTask)

instance : Decidable (CompleteUpTo executions fills) :=
  decidable_of_iff (∃ past ∈ executions.inits, fills.Perm past) (by simp [CompleteUpTo, List.mem_inits])

instance : ∀ t, Decidable (PartialFallsShort executions b t)
  | .fold fills _ _ =>
    inferInstanceAs (Decidable (CompleteUpTo executions fills ∨ spotQty fills < b.qtyFilled ∨ _ ∧ _))
  | .status .. | .stamp .. => .isTrue trivial

instance : ∀ m, Decidable (spotWriter.Serial (PartialFallsShort executions) w m)
  | .read _ => .isTrue trivial
  | .commit k => inferInstanceAs (Decidable (∀ task ∈ w.reading[k]?,
      PartialFallsShort executions task.2.book task.1 ∧
        (task.2.book = w.row.book ∨ (task.2.apply task.1).book = task.2.book)))

end Decide

/-- An order of ten, filled in two executions of five, whose tasks come one after another or at
once. -/
def spotExecutions : List SpotFill := [⟨5, 11 / 10, none⟩, ⟨5, 12 / 10, none⟩]

def foldTask (n : ℕ) : SpotTask := .fold (spotExecutions.take n) none 1

def submittedTask : SpotTask := .status ⟨some .submitted, none, none⟩ 0

/-- The status that changes nothing overlaps the first fill. -/
def foldsInTurn : List (Move SpotTask) :=
  [.read submittedTask, .commit 0, .read (foldTask 1), .read submittedTask, .commit 0, .commit 0,
    .read (foldTask 2), .commit 0]

theorem spot_order_folds_inTurn :
    FoldedAs spotExecutions (foldsInTurn.foldl spotWriter.step (spotTable 10 none 0)).row.book
        (foldsInTurn.foldl spotWriter.step (spotTable 10 none 0)).ran ∧
      (foldsInTurn.foldl spotWriter.step (spotTable 10 none 0)).row.state = .filled :=
  ⟨(spot_order_folds (by decide) none 0 spotExecutions foldsInTurn (by decide +kernel)).1,
    by decide +kernel⟩

/-- The task of the first fill has read the row before the task of the second commits. -/
def foldsAtOnce : List (Move SpotTask) :=
  [.read (foldTask 1), .read (foldTask 2), .commit 1, .commit 0]

/-- Both lists are complete when they are seen; the smaller one is what stays, and the order is no
longer filled. -/
theorem overlapping_folds_lose_fills :
    (foldsAtOnce.foldl spotWriter.step (spotTable 10 none 0)).reading = [] ∧
      ((foldsAtOnce.take 3).foldl spotWriter.step (spotTable 10 none 0)).row.state = .filled ∧
      (foldsAtOnce.foldl spotWriter.step (spotTable 10 none 0)).row.state = .partiallyFilled ∧
      ¬ FoldedAs spotExecutions (foldsAtOnce.foldl spotWriter.step (spotTable 10 none 0)).row.book
        (foldsAtOnce.foldl spotWriter.step (spotTable 10 none 0)).ran := by
  refine ⟨by decide +kernel, by decide +kernel, by decide +kernel, ?_⟩
  intro h
  have hlargest := h.largest spotExecutions ⟨by decide +kernel, none, 1, ?_⟩
  · revert hlargest
    decide +kernel
  · exact List.mem_cons_self

end FxVol
