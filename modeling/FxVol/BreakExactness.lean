import FxVol.BreakReconciler
import FxVol.BookConsistency
import FxVol.StructurePnl

/-!
# Are the breaks exact

One contract has at most one open break, and a resolved row never changes.  The breaks are the
differences between the fills of the legs and the mirror as long as the fills of legs whose
symbol was never recorded, as after a combo is booked from its aggregate fill, cancel out.
-/
namespace FxVol

open GuardedRuns KeyedLog

section Classify
variable {book broker book' : String → ℚ} {c : String}

theorem pyRound_int (n : ℤ) (digits : ℕ) : pyRound n digits = n := by
  have hpow : (10 : ℚ) ^ digits ≠ 0 := by positivity
  have hgrid : (n : ℚ) = ((n * 10 ^ digits : ℤ) : ℚ) / 10 ^ digits := by
    push_cast
    rw [mul_div_cancel_right₀ _ hpow]
  rw [hgrid, pyRound_grid]

theorem classifyBreak_none {x y : ℚ} (h : classifyBreak x y = none) :
    |pyRound (pyRound x 4 - pyRound y 4) 4| ≤ breakEps := by
  unfold classifyBreak at h
  dsimp only at h
  split_ifs at h with hsame
  exact hsame

/-- Contracts held in whole numbers show different breaks, or none on one side only. -/
theorem breakAt_injective {m n : ℤ} (hm : book c = m) (hn : book' c = n)
    (h : breakAt book broker c = breakAt book' broker c) : m = n := by
  unfold breakAt at h
  dsimp only at h
  rw [hm, hn, pyRound_int, pyRound_int] at h
  cases hx : classifyBreak (m : ℚ) (pyRound (broker c) 4) with
  | some t =>
    rw [hx] at h
    cases hy : classifyBreak (n : ℚ) (pyRound (broker c) 4) with
    | none => rw [hy] at h; cases h
    | some t' =>
      rw [hy] at h
      have hqty : (m : ℚ) = n := congrArg PositionBreak.bookQty (Option.some.inj h)
      exact_mod_cast hqty
  | none =>
    rw [hx] at h
    cases hy : classifyBreak (n : ℚ) (pyRound (broker c) 4) with
    | some t' => rw [hy] at h; cases h
    | none =>
      have hnear := classifyBreak_none hx
      have hnear' := classifyBreak_none hy
      rw [pyRound_int] at hnear hnear'
      generalize pyRound (pyRound (broker c) 4) 4 = k at hnear hnear'
      have hround := abs_le.mp (pyRound_near ((m : ℚ) - k) 4)
      have hround' := abs_le.mp (pyRound_near ((n : ℚ) - k) 4)
      rw [breakEps, abs_le] at hnear hnear'
      have hlow : (-1 : ℚ) < (m : ℚ) - n := by
        norm_num at hround hround' hnear hnear' ⊢
        linarith [hround.1, hround.2, hround'.1, hround'.2, hnear.1, hnear.2, hnear'.1, hnear'.2]
      have hhigh : (m : ℚ) - n < 1 := by
        norm_num at hround hround' hnear hnear' ⊢
        linarith [hround.1, hround.2, hround'.1, hround'.2, hnear.1, hnear.2, hnear'.1, hnear'.2]
      have hlow' : -1 < m - n := by exact_mod_cast hlow
      have hhigh' : m - n < 1 := by exact_mod_cast hhigh
      omega

theorem breakAt_contract {br : PositionBreak} (h : breakAt book broker c = some br) :
    br.contract = c := by
  obtain ⟨t, -, rfl⟩ := Option.map_eq_some_iff.mp h
  rfl

/-- Where neither dict has the contract there is no break. -/
theorem breakAt_flat (hb : book c = 0) (hk : broker c = 0) : breakAt book broker c = none := by
  have hzero : pyRound 0 4 = 0 := by simpa using pyRound_int 0 4
  simp [breakAt, classifyBreak, hb, hk, hzero, breakEps]

end Classify

section Table
variable {rows : List BreakRow} {keys : List String} {book broker : String → ℚ} {c : String}
  {now : Instant}

def openAt (rows : List BreakRow) (contract : String) : List BreakRow :=
  rows.filter fun r => r.resolvedAt = none ∧ r.localSymbol = contract

def OneOpen (rows : List BreakRow) : Prop := ∀ c, (openAt rows c).length ≤ 1

theorem OneOpen.singleton (h : OneOpen rows) (hne : openAt rows c ≠ []) : ∃ r, openAt rows c = [r] := by
  have hpos := List.length_pos_of_ne_nil hne
  have hle := h c
  exact List.length_eq_one_iff.mp (by omega)

def BreakRow.found (r : BreakRow) : PositionBreak :=
  ⟨r.localSymbol, r.bookQty, r.brokerQty, r.diff, r.breakType⟩

theorem mem_openAt {r : BreakRow} :
    r ∈ openAt rows c ↔ r ∈ rows ∧ r.resolvedAt = none ∧ r.localSymbol = c := by
  simp [openAt]

theorem openKeys_rows (rows : List BreakRow) (c : String) :
    ((rows.zipIdx.filter fun p => p.1.resolvedAt = none ∧ p.1.localSymbol = c).map (·.1)) =
      openAt rows c := by
  have hrows : rows.zipIdx.map (·.1) = rows := List.zipIdx_map_fst 0 rows
  rw [openAt]
  conv_rhs => rw [← hrows, List.filter_map]
  rfl

theorem openByContract_none : openByContract rows c = none ↔ openAt rows c = [] := by
  rw [openByContract, List.getLast?_eq_none_iff, List.map_eq_nil_iff, ← openKeys_rows,
    List.map_eq_nil_iff]

/-- The dict holds an open row at its own key, and no resolved row. -/
theorem openByContract_self (h : OneOpen rows) {i : ℕ} {r : BreakRow} (hr : rows[i]? = some r) :
    openByContract rows r.localSymbol = some i ↔ r.resolvedAt = none := by
  constructor
  · intro hkey
    have hmem := List.mem_of_getLast? hkey
    obtain ⟨⟨r', j⟩, hp, rfl⟩ := List.mem_map.mp hmem
    obtain ⟨hz, hopen⟩ := List.mem_filter.mp hp
    have hr' := List.mem_zipIdx_iff_getElem?.mp hz
    obtain rfl := Option.some.inj (hr.symm.trans hr')
    rw [decide_eq_true_eq] at hopen
    exact hopen.1
  · intro hopen
    have hp : (r, i) ∈ rows.zipIdx.filter fun p =>
        p.1.resolvedAt = none ∧ p.1.localSymbol = r.localSymbol := by
      rw [List.mem_filter, decide_eq_true_eq]
      exact ⟨List.mem_zipIdx_iff_getElem?.mpr hr, hopen, rfl⟩
    have hlen := h r.localSymbol
    rw [← openKeys_rows, List.length_map] at hlen
    rw [openByContract]
    generalize rows.zipIdx.filter (fun p => p.1.resolvedAt = none ∧
      p.1.localSymbol = r.localSymbol) = l at hp hlen
    have hone : l.length = 1 := by
      have hpos := List.length_pos_of_mem hp
      omega
    obtain ⟨p, rfl⟩ := List.length_eq_one_iff.mp hone
    rw [← List.mem_singleton.mp hp]
    rfl

variable (keys book broker) in
/-- The breaks found at a contract. -/
theorem computeBreaks_at (c : String) :
    (computeBreaks keys book broker).filter (fun br => br.contract = c) =
      (if c ∈ keys then breakAt book broker c else none).toList := by
  have hlist : ∀ l : List String, l.Nodup →
      (l.filterMap (breakAt book broker)).filter (fun br => br.contract = c) =
        (if c ∈ l then breakAt book broker c else none).toList := by
    intro l
    induction l with
    | nil => simp
    | cons k l ih =>
      intro hcons
      obtain ⟨hk, hd⟩ := List.nodup_cons.mp hcons
      cases hbr : breakAt book broker k with
      | none =>
        rw [List.filterMap_cons_none hbr, ih hd]
        by_cases hck : c = k
        · subst hck; simp [hk, hbr]
        · simp [hck]
      | some br =>
        rw [List.filterMap_cons_some hbr]
        have hcontract := breakAt_contract hbr
        by_cases hck : c = k
        · subst hck
          rw [List.filter_cons_of_pos (by simpa using hcontract), ih hd]
          simp [hk, hbr]
        · have hne : br.contract ≠ c := fun heq => hck (heq.symm.trans hcontract)
          rw [List.filter_cons_of_neg (by simpa using hne), ih hd]
          simp [hck]
  have hperm := List.perm_insertionSort (· ≤ ·) keys.dedup
  rw [computeBreaks, hlist _ (hperm.nodup_iff.mpr (List.nodup_dedup keys))]
  simp [hperm.mem_iff]

/-- The row a pass leaves of an old row, by the break at its contract. -/
def BreakRow.reviewed (r : BreakRow) (br : Option PositionBreak) (now : Instant) : BreakRow :=
  if r.resolvedAt = none then
    match br with
    | some br => r.seen br now
    | none => { r with resolvedAt := some now }
  else r

@[simp] theorem reviewed_localSymbol (r : BreakRow) (br : Option PositionBreak) :
    (r.reviewed br now).localSymbol = r.localSymbol := by
  unfold BreakRow.reviewed
  split_ifs
  · split <;> rfl
  · rfl

theorem reviewed_rows (h : OneOpen rows) (breaks : List PositionBreak) :
    rows.zipIdx.map (fun p => reviewRow rows breaks now p.1 p.2) = rows.map fun r =>
      r.reviewed ((breaks.filter fun br => br.contract = r.localSymbol).head?) now := by
  apply List.ext_getElem?
  intro i
  rw [List.getElem?_map, List.getElem?_map, List.getElem?_zipIdx]
  cases hr : rows[i]? with
  | none => rfl
  | some r =>
    have hself := openByContract_self h hr
    cases hbreak : breaks.find? fun br => br.contract = r.localSymbol <;>
      simp [reviewRow, BreakRow.reviewed, hself, List.head?_filter, hbreak]

section Pass
variable {breaks : List PositionBreak} {found : Option PositionBreak}
  (hat : breaks.filter (fun br => br.contract = c) = found.toList)
include hat

theorem head_found : (breaks.filter fun br => br.contract = c).head? = found := by
  rw [hat]
  cases found <;> rfl

/-- The old rows left open at a contract: those of its break, seen again. -/
theorem openAt_reviewed :
    openAt (rows.map fun r => r.reviewed
      ((breaks.filter fun br => br.contract = r.localSymbol).head?) now) c =
    match found with
    | some br => (openAt rows c).map (·.seen br now)
    | none => [] := by
  have hhead := head_found hat
  rw [openAt, List.filter_map]
  cases found with
  | none =>
    rw [List.map_eq_nil_iff, List.filter_eq_nil_iff]
    intro r _ hkeep
    simp only [Function.comp_apply, reviewed_localSymbol, decide_eq_true_eq] at hkeep
    obtain ⟨hopen, hsym⟩ := hkeep
    rw [hsym, hhead] at hopen
    by_cases hres : r.resolvedAt = none <;> simp [BreakRow.reviewed, hres] at hopen
  | some br =>
    have hsame : rows.filter ((fun r : BreakRow => decide (r.resolvedAt = none ∧
        r.localSymbol = c)) ∘ fun r => r.reviewed ((breaks.filter fun br =>
        br.contract = r.localSymbol).head?) now) = openAt rows c := by
      apply List.filter_congr
      intro r _
      simp only [Function.comp_apply, reviewed_localSymbol, decide_eq_decide]
      by_cases hsym : r.localSymbol = c
      · rw [hsym, hhead]
        by_cases hres : r.resolvedAt = none <;> simp [BreakRow.reviewed, BreakRow.seen, hres]
      · simp only [hsym, and_false]
    rw [hsame]
    apply List.map_congr_left
    intro r hr
    obtain ⟨-, hres, hsym⟩ := mem_openAt.mp hr
    rw [hsym, hhead]
    simp [BreakRow.reviewed, hres]

/-- The rows added at a contract: one for its break, when no row was open. -/
theorem openAt_new :
    openAt ((breaks.filter fun br => openByContract rows br.contract = none).map
      (·.newRow now)) c = if openAt rows c = [] then found.toList.map (·.newRow now) else [] := by
  rw [openAt, List.filter_map, List.filter_filter]
  have hcongr : breaks.filter (fun br =>
      ((fun r : BreakRow => decide (r.resolvedAt = none ∧ r.localSymbol = c)) ∘
        fun x => x.newRow now) br && decide (openByContract rows br.contract = none)) =
      (breaks.filter fun br => br.contract = c).filter fun _ => openAt rows c = [] := by
    rw [List.filter_filter]
    apply List.filter_congr
    intro br _
    by_cases hbr : br.contract = c
    · simp [PositionBreak.newRow, hbr, openByContract_none]
    · simp [PositionBreak.newRow, hbr]
  rw [hcongr, hat]
  by_cases hnil : openAt rows c = [] <;> simp [hnil]

end Pass

theorem openAt_append (l l' : List BreakRow) (c : String) :
    openAt (l ++ l') c = openAt l c ++ openAt l' c := List.filter_append ..

/-- **What a pass leaves open at a contract**: one row with the break found there, or none. -/
theorem openAt_pass (h : OneOpen rows) (keys : List String) (c : String) :
    (openAt (rows.zipIdx.map (fun p =>
        reviewRow rows (computeBreaks keys book broker) now p.1 p.2) ++
      ((computeBreaks keys book broker).filter fun br => openByContract rows br.contract = none).map
        (·.newRow now)) c).map BreakRow.found =
      (if c ∈ keys then breakAt book broker c else none).toList := by
  have hat := computeBreaks_at keys book broker c
  have hcontract : ∀ br ∈ (if c ∈ keys then breakAt book broker c else none), br.contract = c := by
    intro br hbr
    split_ifs at hbr
    · exact breakAt_contract hbr
    · cases hbr
  generalize (if c ∈ keys then breakAt book broker c else none) = found at hat hcontract ⊢
  rw [reviewed_rows h, openAt_append, openAt_reviewed hat, openAt_new hat]
  cases found with
  | none => simp
  | some br =>
    obtain rfl := hcontract br rfl
    by_cases hnil : openAt rows br.contract = []
    · simp [hnil, BreakRow.found, PositionBreak.newRow]
    · obtain ⟨r, hrow⟩ := h.singleton hnil
      have hr : r ∈ openAt rows br.contract := by rw [hrow]; exact List.mem_singleton_self r
      obtain ⟨-, -, hsym'⟩ := mem_openAt.mp hr
      rw [hrow]
      simp [BreakRow.found, BreakRow.seen, hsym']

end Table

section Book
variable {db : Db} {mirror : List MirrorRow} {c : String}

def netFills (db : Db) (i : ℕ) : ℤ := ((db.fillsOf i).map fun f => signed f.side f.qtyFilled).sum

/-- The contract a leg trades: the recorded symbol, else the one IB names it by. -/
def legContract (named : ℕ → String) (o : StructureOrder) (i : ℕ) : String :=
  o.bookKey.getD (named i)

/-- The fills of every leg on the contract, whatever path booked them. -/
def filledBook (named : ℕ → String) (db : Db) (c : String) : ℤ :=
  ((db.orders.zipIdx.filter fun p => legContract named p.1 p.2 = c).map fun p =>
    netFills db p.2).sum

/-- The fills of the legs on the contract whose symbol is not recorded. -/
def unnamedBook (named : ℕ → String) (db : Db) (c : String) : ℤ :=
  ((db.orders.zipIdx.filter fun p => p.1.bookKey = none ∧ named p.2 = c).map fun p =>
    netFills db p.2).sum

theorem bookByContract_eq (h : Reachable db) (c : String) :
    bookByContract db c = ((((db.orders.zipIdx.filter fun p => p.1.bookKey = some c).map fun p =>
      netFills db p.2).sum : ℤ) : ℚ) := by
  rw [bookByContract, bookRows]
  induction db.orders.zipIdx with
  | nil => simp
  | cons p l ih =>
    have hopen := h.openQty p.2
    change _ = netFills db p.2 at hopen
    cases hk : p.1.bookKey with
    | none => simpa [hk] using ih
    | some k =>
      cases hlp : db.legPositions p.2 with
      | none =>
        rw [hlp] at hopen
        by_cases hkc : k = c <;> simp [hk, hlp, hkc, ih, ← hopen]
      | some lp =>
        rw [hlp] at hopen
        simp only [Option.map_some, Option.getD_some] at hopen
        by_cases hkc : k = c <;> simp [hk, hlp, hkc, ih, ← hopen]

variable (db c) in
theorem filledBook_split (named : ℕ → String) :
    filledBook named db c =
      ((db.orders.zipIdx.filter fun p => p.1.bookKey = some c).map fun p =>
        netFills db p.2).sum + unnamedBook named db c := by
  rw [filledBook, unnamedBook]
  induction db.orders.zipIdx with
  | nil => rfl
  | cons p l ih =>
    cases hk : p.1.bookKey with
    | none =>
      have hleg : legContract named p.1 p.2 = named p.2 := by rw [legContract, hk]; rfl
      by_cases hn : named p.2 = c
      · rw [List.filter_cons_of_pos (by simp [hleg, hn]), List.filter_cons_of_neg (by simp [hk]),
          List.filter_cons_of_pos (by simp [hk, hn])]
        simp only [List.map_cons, List.sum_cons, ih]
        omega
      · rw [List.filter_cons_of_neg (by simp [hleg, hn]), List.filter_cons_of_neg (by simp [hk]),
          List.filter_cons_of_neg (by simp [hn])]
        exact ih
    | some k =>
      have hleg : legContract named p.1 p.2 = k := by rw [legContract, hk]; rfl
      by_cases hkc : k = c
      · rw [List.filter_cons_of_pos (by simp [hleg, hkc]),
          List.filter_cons_of_pos (by simp [hk, hkc]), List.filter_cons_of_neg (by simp [hk])]
        simp only [List.map_cons, List.sum_cons, ih]
        omega
      · rw [List.filter_cons_of_neg (by simp [hleg, hkc]),
          List.filter_cons_of_neg (by simp [hk, hkc]), List.filter_cons_of_neg (by simp [hk])]
        exact ih

/-- Contracts of neither dict have no book and no mirror. -/
theorem breakAt_unlisted (hc : c ≠ "") (h : c ∉ reconciledContracts db mirror) :
    breakAt (bookByContract db) (brokerByContract mirror) c = none := by
  rw [reconciledContracts, List.mem_append, not_or] at h
  apply breakAt_flat
  · have hnil : (bookRows db).filter (fun r => r.1 = c) = [] := by
      rw [List.filter_eq_nil_iff]
      intro r hr hkey
      exact h.1 (List.mem_map.mpr ⟨r, hr, of_decide_eq_true hkey⟩)
    simp [bookByContract, hnil]
  · have hnil : mirror.filter (fun r => r.localSymbol = c) = [] := by
      rw [List.filter_eq_nil_iff]
      intro r hr hkey
      have hsym : r.localSymbol = c := of_decide_eq_true hkey
      exact h.2 (List.mem_filter.mpr ⟨List.mem_map.mpr ⟨r, hr, hsym⟩, decide_eq_true hc⟩)
    simp [brokerByContract, hnil]

end Book

section Runs
variable {named : ℕ → String} {w : BreakWorld} {e : BreakEvent}

/-- What is asked of one event: a pass leaves open exactly the breaks between the fills and the
mirror, a resolved row stays as it is, and no contract has two open rows. -/
structure BreaksRight (named : ℕ → String) (w : BreakWorld) (e : BreakEvent) : Prop where
  exact : ∀ now, e = .pass true now → ∀ c ≠ "",
    (openAt (breakStep w e).breaks c).map BreakRow.found =
      (breakAt (fun c => filledBook named w.db c) (brokerByContract w.mirror) c).toList
  resolved : ∀ (i : ℕ) (r : BreakRow), w.breaks[i]? = some r → r.resolvedAt ≠ none →
    (breakStep w e).breaks[i]? = some r
  single : OneOpen (breakStep w e).breaks

/-- A pass finds no contract on which fills of legs without a recorded symbol remain. -/
def FillsNamed (named : ℕ → String) (w : BreakWorld) (e : BreakEvent) : Prop :=
  (∃ now, e = .pass true now) → ∀ c ≠ "", unnamedBook named w.db c = 0

structure BreakInvariant (w : BreakWorld) : Prop where
  reachable : Reachable w.db
  single : OneOpen w.breaks

theorem BreakInvariant.empty : BreakInvariant .empty where
  reachable := Run.refl _
  single c := by simp [BreakWorld.empty, openAt]

theorem reconcile_openAt (h : OneOpen w.breaks) (now : Instant) (c : String) :
    (openAt (breakStep w (.pass true now)).breaks c).map BreakRow.found =
      (if c ∈ reconciledContracts w.db w.mirror then
        breakAt (bookByContract w.db) (brokerByContract w.mirror) c else none).toList :=
  openAt_pass h (reconciledContracts w.db w.mirror) c

theorem BreakInvariant.step (h : BreakInvariant w) (e : BreakEvent) :
    BreakInvariant (breakStep w e) := by
  cases e with
  | book e => exact ⟨h.reachable.snoc e trivial, h.single⟩
  | mirror rows => exact ⟨h.reachable, h.single⟩
  | pass reporting now =>
    refine ⟨h.reachable, ?_⟩
    cases reporting with
    | false => exact h.single
    | true =>
      intro c
      have hlen := congrArg List.length (reconcile_openAt h.single now c)
      rw [List.length_map] at hlen
      rw [hlen]
      cases (if c ∈ reconciledContracts w.db w.mirror then
        breakAt (bookByContract w.db) (brokerByContract w.mirror) c else none) <;> simp

/-- A row that is resolved is not written again. -/
theorem step_resolved (h : OneOpen w.breaks) {i : ℕ} {r : BreakRow} (hr : w.breaks[i]? = some r)
    (hres : r.resolvedAt ≠ none) : (breakStep w e).breaks[i]? = some r := by
  cases e with
  | book e => exact hr
  | mirror rows => exact hr
  | pass reporting now =>
    cases reporting with
    | false => exact hr
    | true =>
      have hi : i < w.breaks.length := (List.getElem?_eq_some_iff.mp hr).1
      have hkey : openByContract w.breaks r.localSymbol ≠ some i := fun heq =>
        hres ((openByContract_self h hr).mp heq)
      simp only [breakStep, reconcilePositions, not_true_eq_false, if_false]
      rw [List.getElem?_append_left (by simpa using hi), List.getElem?_map, List.getElem?_zipIdx, hr]
      simp [reviewRow, hkey]

/-- A pass on a contract is exact just when the fills it misses there cancel out. -/
theorem exact_iff (h : BreakInvariant w) (now : Instant) {c : String} (hc : c ≠ "") :
    (openAt (breakStep w (.pass true now)).breaks c).map BreakRow.found =
        (breakAt (fun c => filledBook named w.db c) (brokerByContract w.mirror) c).toList ↔
      unnamedBook named w.db c = 0 := by
  have hcode : (if c ∈ reconciledContracts w.db w.mirror then
      breakAt (bookByContract w.db) (brokerByContract w.mirror) c else none) =
      breakAt (bookByContract w.db) (brokerByContract w.mirror) c := by
    split_ifs with hmem
    · rfl
    · exact (breakAt_unlisted hc hmem).symm
  have hbook := bookByContract_eq h.reachable c
  have hsplit := filledBook_split w.db c named
  rw [reconcile_openAt h.single now c, hcode]
  constructor
  · intro heq
    have hname : (fun c => (filledBook named w.db c : ℚ)) c = (filledBook named w.db c : ℤ) := rfl
    have hsame := breakAt_injective hbook hname (by simpa using congrArg List.head? heq)
    omega
  · intro hzero
    have hsame : bookByContract w.db c = (fun c => (filledBook named w.db c : ℚ)) c := by
      rw [hbook]
      change _ = ((filledBook named w.db c : ℤ) : ℚ)
      rw [hsplit, hzero, add_zero]
    simp only [breakAt, hsame]

theorem breaksRight_iff (h : BreakInvariant w) (e : BreakEvent) :
    BreaksRight named w e ↔ FillsNamed named w e := by
  constructor
  · rintro hright ⟨now, rfl⟩ c hc
    exact (exact_iff h now hc).mp (hright.exact now rfl c hc)
  · intro hnamed
    constructor
    · rintro now rfl c hc
      exact (exact_iff h now hc).mpr (hnamed ⟨now, rfl⟩ c hc)
    · exact fun i r hr hres => step_resolved h.single hr hres
    · exact (h.step e).single

/-- **The breaks are exact while every leg with fills is named.**  Along any sequence of order
book transactions, mirror changes and passes, each pass leaves open exactly the breaks between
the fills of the legs and the mirror, just when each pass finds the fills of the legs whose
symbol is not recorded cancelling out on every contract. -/
theorem breaks_exact_iff (named : ℕ → String) (events : List BreakEvent) :
    Guarded breakStep (BreaksRight named) .empty events ↔
      Guarded breakStep (FillsNamed named) .empty events :=
  Guarded.congr (I := BreakInvariant) (fun _ e h => h.step e) (fun _ e h => breaksRight_iff h e)
    BreakInvariant.empty events

/-- A combo of a call bought and a call sold fills and is booked from its aggregate fill; the
mirror then shows both calls. -/
def bookedSpreadBreaks : List BreakEvent :=
  [.book (.submitPreview [callLeg .buy 10, callLeg .sell 10] 0),
    .book (.comboStatus "900" [0, 1] .filled none 1),
    .mirror [⟨0, "EUUZ6 C1160", none, none, .buy, 10, 2⟩, ⟨1, "EUUZ6 C1180", none, none, .sell, 10, 2⟩],
    .pass true 3]

/-- Book and mirror agree, and the pass opens two breaks. -/
theorem combo_breaks :
    ((bookedSpreadBreaks.foldl breakStep .empty).breaks.map (·.breakType)) =
      [.unbookedAtIb, .unbookedAtIb] ∧
    ¬ Guarded breakStep
      (BreaksRight fun i => if i = 0 then "EUUZ6 C1160" else "EUUZ6 C1180") .empty
      bookedSpreadBreaks := by
  refine ⟨by decide +kernel, ?_⟩
  rintro ⟨-, -, -, hpass, -⟩
  have hexact := hpass.exact 3 rfl "EUUZ6 C1160" (by decide)
  revert hexact
  decide +kernel

end Runs

end FxVol
