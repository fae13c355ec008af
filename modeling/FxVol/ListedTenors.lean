import FxVol.TradePreviews
import Mathlib.Algebra.Order.Group.Int
import Mathlib.Data.List.MinMax
import Mathlib.Data.List.Sort

/-!
# Tenors of the listed chains

Each target of days to expiry takes the nearest option chain that is left and gives it the label of its
months; the smiles are then kept under the label alone, and the display pillars are read off at the days
that the label stands for.
-/
namespace FxVol.ListedTenors

open TradePreviews (Tenor DeltaPillar)

/-- The computable order, which a search by instances does not find first -/
local instance dayOrder : Preorder ℤ := Int.instLinearOrder.toPartialOrder.toPreorder

structure Chain where
  expiry : ℤ
  dte : ℤ
  exchange : String
  strikes : List ℚ
  multipliers : List String
  deriving DecidableEq

/-- An answer to `reqSecDefOptParams`, with the days of its expirations -/
structure OptionParams where
  tradingClass : String
  exchange : String
  multiplier : String
  expirations : List ℤ
  strikes : List ℚ

/-- What IB answers: the futures with their last trade day and `conId`, their option parameters, and the
(delta, iv, strike) triples of a scan, none where too few strikes have quotes. -/
structure Ib where
  futures : List (ℤ × ℕ)
  optionParams : ℕ → List OptionParams
  triples : Chain → List (ℚ × ℚ × ℚ)

def dayMicroseconds : ℤ := 86400000000

/-- `(exp_date - now).days` -/
def daysTo (now day : ℤ) : ℤ := (day * dayMicroseconds - now) / dayMicroseconds

/-- The futures that are queried: the first eight that last a week or more -/
def futures (ib : Ib) (now : ℤ) : List (ℤ × ℕ) :=
  (((ib.futures.map fun f => (daysTo now f.1, f.2)).filter fun f => 7 ≤ f.1).insertionSort (·.1 ≤ ·.1)).take 8

/-- An expiration of an answer: a chain of its own, or more strikes of one that is there -/
def noteExpiry (now : ℤ) (data : List Chain) (ch : OptionParams × ℤ) : List Chain :=
  if daysTo now ch.2 < 10 then data
  else if ch.2 ∈ data.map (·.expiry) then
    data.map fun c =>
      if c.expiry = ch.2 then
        { c with strikes := c.strikes ∪ ch.1.strikes, multipliers := c.multipliers.insert ch.1.multiplier }
      else c
  else data ++ [⟨ch.2, daysTo now ch.2, ch.1.exchange, ch.1.strikes, [ch.1.multiplier]⟩]

def chainData (ib : Ib) (now : ℤ) (tradingClass : String) : List Chain :=
  let answers := (futures ib now).flatMap fun f => ib.optionParams f.2
  let expirations := (answers.filter fun ch => ch.tradingClass = tradingClass).flatMap fun ch =>
    (ch.expirations.insertionSort (· ≤ ·)).map fun day => (ch, day)
  expirations.foldl (noteExpiry now) []

/-- The chains in the order of their days to expiry -/
def listedChains (ib : Ib) (now : ℤ) (tradingClass : String) : List Chain :=
  ((chainData ib now tradingClass).map fun c =>
    { c with strikes := c.strikes.insertionSort (· ≤ ·) }).insertionSort (·.dte ≤ ·.dte)

structure Selected where
  chain : Chain
  target : ℤ

/-- The months of the label `"{target // 30}M"` -/
def Selected.label (s : Selected) : ℤ := s.target / 30

/-- The chains that no target has taken -/
def remaining (chains : List Chain) (used : List ℤ) : List Chain := chains.filter fun c => c.expiry ∉ used

def closest (chains : List Chain) (target : ℤ) : Option Chain := chains.argmin fun c => |c.dte - target|

def select (chains : List Chain) : List ℤ → List ℤ → List Selected
  | _, [] => []
  | used, target :: targets =>
    match closest (remaining chains used) target with
    | none => []
    | some best => ⟨best, target⟩ :: select chains (used ++ [best.expiry]) targets

def discoverChains (ib : Ib) (now : ℤ) (targets : List ℤ) (tradingClass : String) : List Selected :=
  select (listedChains ib now tradingClass) [] targets

inductive Source | pchip | sviFallback | none | interp | listed
  deriving DecidableEq

structure Cell where
  iv : Option ℚ
  strike : Option ℚ
  source : Source

abbrev Row := DeltaPillar → Option Cell

/-- The smile of a label from its triples, interpolation in total variance, and rounding to six digits -/
structure Numerics where
  smile : ℤ → List (ℚ × ℚ × ℚ) → DeltaPillar → Option ℚ × Option ℚ × Bool
  interpIv : ℚ → ℤ → ℚ → ℤ → ℤ → ℚ
  round6 : ℚ → ℚ

def assign {κ ν : Type*} [DecidableEq κ] (dict : List (κ × ν)) (key : κ) (value : ν) : List (κ × ν) :=
  if key ∈ dict.map (·.1) then dict.map fun e => if e.1 = key then (key, value) else e
  else dict ++ [(key, value)]

/-- `scan_all_tenors_concurrent`: the triples under the labels of their chains -/
def scanAllTenors (ib : Ib) (chains : List Selected) : List (ℤ × List (ℚ × ℚ × ℚ)) :=
  chains.foldl (fun out s => if ib.triples s.chain = [] then out else assign out s.label (ib.triples s.chain)) []

/-- The cells of `interpolate_delta_pillars`, by PCHIP, from the SVI fallback, or empty -/
def smileRow (N : Numerics) (label : ℤ) (triples : List (ℚ × ℚ × ℚ)) : Row := fun d =>
  let (iv, strike, fallback) := N.smile label triples d
  some ⟨iv, strike, if iv = none then .none else if fallback then .sviFallback else .pchip⟩

/-- The rows of `_compute_surface` before the display pillars -/
def computeSurface (N : Numerics) (ib : Ib) (chains : List Selected) : List (ℤ × Row) :=
  (scanAllTenors ib chains).map fun e => (e.1, smileRow N e.1 e.2)

/-- `LABEL_DTE`, of the labels in months -/
def labelDte (label : ℤ) : Option ℤ :=
  if (1 ≤ label ∧ label ≤ 6) ∨ label = 9 then some (30 * label) else none

def listedToleranceDays : ℤ := 12
def extrapMarginDays : ℤ := 45

structure Anchor where
  dte : ℤ
  row : Row

def Row.iv (row : Row) (d : DeltaPillar) : Option ℚ := (row d).bind (·.iv)

def Row.hasIv (row : Row) : Bool := DeltaPillar.all.any fun d => (row.iv d).isSome

def anchors (surface : List (ℤ × Row)) : List Anchor :=
  surface.filterMap fun e => (labelDte e.1).bind fun dte => if e.2.hasIv then some ⟨dte, e.2⟩ else none

def nearestAnchor (as : List Anchor) (target : ℤ) : Option Anchor := as.argmin fun a => |a.dte - target|

/-- `interpolate_pillar`: the IVs and the source -/
def interpolatePillar (N : Numerics) (as : List Anchor) (target : ℤ) : Option ((DeltaPillar → Option ℚ) × Source) :=
  let ordered := as.insertionSort (·.dte ≤ ·.dte)
  match nearestAnchor ordered target with
  | none => none
  | some nearest =>
    if |nearest.dte - target| ≤ listedToleranceDays then some (nearest.row.iv, .listed)
    else
      match (ordered.filter fun a => a.dte < target).getLast?, (ordered.filter fun a => target < a.dte).head? with
      | some lo, some hi =>
        let ivs := fun d =>
          (lo.row.iv d).bind fun l => (hi.row.iv d).map fun h => N.interpIv l lo.dte h hi.dte target
        if DeltaPillar.all.any fun d => (ivs d).isSome then some (ivs, .interp) else none
      | some lo, none => if target - lo.dte ≤ extrapMarginDays then some (lo.row.iv, .interp) else none
      | none, _ => none

def Row.strikes (row : Row) (d : DeltaPillar) : Option ℚ := (row d).bind fun c => c.strike.filter (0 < ·)

def interpStrikes (N : Numerics) (as : List Anchor) (target : ℤ) : DeltaPillar → Option ℚ :=
  let dated := (as.insertionSort (·.dte ≤ ·.dte)).filter fun a => DeltaPillar.all.any fun d => (a.row.strikes d).isSome
  match (dated.filter fun a => a.dte < target).getLast?, (dated.filter fun a => target < a.dte).head? with
  | some lo, some hi => fun d =>
    (lo.row.strikes d).bind fun k₀ => (hi.row.strikes d).map fun k₁ =>
      N.round6 (k₀ + (k₁ - k₀) * ((target - lo.dte : ℤ) / (hi.dte - lo.dte : ℤ) : ℚ))
  | some lo, none => lo.row.strikes
  | none, some hi => hi.row.strikes
  | none, none => fun _ => none

/-- A cell of a listed pillar; one that is interpolated stays so. -/
def Cell.listed (c : Cell) : Cell := if c.source = .interp then c else { c with source := .listed }

/-- `to_display_surface`, without the z scores -/
def toDisplaySurface (N : Numerics) (surface : List (ℤ × Row)) (pillar : Tenor) : Option Row :=
  let target : ℤ := pillar.dte
  let interpolated := (interpolatePillar N (anchors surface) target).map fun (ivs, source) =>
    fun d => (ivs d).map fun iv => ⟨some iv, interpStrikes N (anchors surface) target d, source⟩
  match nearestAnchor (anchors surface) target with
  | some nearest =>
    if |nearest.dte - target| ≤ listedToleranceDays then some fun d => (nearest.row d).map Cell.listed
    else interpolated
  | none => interpolated

def pillarLabel (pillar : Tenor) : ℤ := (pillar.dte : ℤ) / 30

/-- A scan of the listed chains: what IB answers, and the targets -/
structure Scan where
  ib : Ib
  now : ℤ
  tradingClass : String
  targets : List ℤ
  numerics : Numerics

namespace Scan

variable (q : Scan)

def chains : List Chain := listedChains q.ib q.now q.tradingClass

def selected : List Selected := discoverChains q.ib q.now q.targets q.tradingClass

def display (pillar : Tenor) : Option Row :=
  toDisplaySurface q.numerics (computeSurface q.numerics q.ib q.selected) pillar

/-- The chain whose triples end under a label: the last one with that label and any quotes -/
def supplier (label : ℤ) : Option Selected :=
  (q.selected.filter fun s => s.label = label ∧ q.ib.triples s.chain ≠ []).getLast?

/-- Later targets have later chains, and a cell of a pillar that is listed has its IV and strike from a chain
within the tolerance of the pillar's days. -/
structure RightTenors : Prop where
  ascending : q.selected.Pairwise fun a b => a.chain.dte < b.chain.dte
  listed : ∀ pillar row d cell, q.display pillar = some row → row d = some cell → cell.source = .listed →
    ∃ s, q.supplier (pillarLabel pillar) = some s ∧
      (smileRow q.numerics (pillarLabel pillar) (q.ib.triples s.chain) d).map Cell.listed = some cell ∧
        |s.chain.dte - pillar.dte| ≤ listedToleranceDays

def taken (past : List ℤ) : List Chain := (select q.chains [] past).map (·.chain)

def free (past : List ℤ) : List Chain := remaining q.chains ((q.taken past).map (·.expiry))

/-- When its turn comes, each target has a free chain beyond those taken that is nearer than each that was
passed over; and the free chain closest to it is within the tolerance of the days of its label, where it has a
smile for a pillar and no later target with that label has quotes. -/
structure Suits : Prop where
  beyond : ∀ past target rest, q.targets = past ++ target :: rest → ∀ below ∈ q.free past,
    (∃ d ∈ q.taken past, below.dte < d.dte) →
      ∃ above ∈ q.free past, (∀ d ∈ q.taken past, d.dte < above.dte) ∧ |above.dte - target| < |below.dte - target|
  near : ∀ past target rest, q.targets = past ++ target :: rest → ∀ pillar, pillarLabel pillar = target / 30 →
    ∀ best, closest (q.free past) target = some best → q.ib.triples best ≠ [] →
      (smileRow q.numerics (target / 30) (q.ib.triples best)).hasIv = true →
        (∀ s ∈ select q.chains ((q.taken (past ++ [target])).map (·.expiry)) rest, s.label = target / 30 →
          q.ib.triples s.chain = []) →
          |best.dte - pillar.dte| ≤ listedToleranceDays

end Scan

section Chains
variable {now : ℤ} {chains : List Chain}

theorem daysTo_eq (now day : ℤ) : daysTo now day = day + (-now) / dayMicroseconds := by
  rw [daysTo, sub_eq_neg_add, Int.add_mul_ediv_right _ _ (by decide), add_comm]

/-- The chains have expiries of their own, at their days. -/
structure Dated (now : ℤ) (chains : List Chain) : Prop where
  nodup : (chains.map (·.expiry)).Nodup
  dte : ∀ c ∈ chains, c.dte = daysTo now c.expiry

theorem Dated.noteExpiry (h : Dated now chains) (ch : OptionParams × ℤ) : Dated now (noteExpiry now chains ch) := by
  unfold ListedTenors.noteExpiry
  split_ifs with hnear hmem
  · exact h
  · constructor
    · rw [List.map_map]
      have hsame : ∀ c ∈ chains, ((fun c : Chain => c.expiry) ∘ fun c => if c.expiry = ch.2 then
          { c with strikes := c.strikes ∪ ch.1.strikes, multipliers := c.multipliers.insert ch.1.multiplier }
        else c) c = c.expiry := by
        intro c _
        simp only [Function.comp_apply]
        split_ifs <;> rfl
      rw [List.map_congr_left hsame]
      exact h.nodup
    · intro c hc
      obtain ⟨c', hc', rfl⟩ := List.mem_map.mp hc
      split_ifs <;> exact h.dte c' hc'
  · constructor
    · rw [List.map_append]
      exact List.nodup_append.mpr ⟨h.nodup, List.nodup_singleton _, by
        intro a ha b hb
        rw [List.mem_singleton.mp hb]
        rintro rfl
        exact hmem ha⟩
    · intro c hc
      rcases List.mem_append.mp hc with hold | hnew
      · exact h.dte c hold
      · rw [List.mem_singleton.mp hnew]

theorem dated_chainData (ib : Ib) (now : ℤ) (tradingClass : String) : Dated now (chainData ib now tradingClass) := by
  have hall : ∀ (answers : List (OptionParams × ℤ)) (data : List Chain), Dated now data →
      Dated now (answers.foldl (noteExpiry now) data) := by
    intro answers
    induction answers with
    | nil => exact fun _ h => h
    | cons ch answers ih => exact fun data h => ih _ (h.noteExpiry ch)
  exact hall _ [] ⟨List.nodup_nil, by simp⟩

/-- The listed chains are in the strict order of their days. -/
theorem listedChains_sorted (ib : Ib) (now : ℤ) (tradingClass : String) :
    (listedChains ib now tradingClass).Pairwise fun a b => a.dte < b.dte := by
  have hdated := dated_chainData ib now tradingClass
  have hsorted : (listedChains ib now tradingClass).Pairwise fun a b => a.dte ≤ b.dte :=
    haveI : Std.Total fun a b : Chain => a.dte ≤ b.dte := ⟨fun a b => le_total a.dte b.dte⟩
    haveI : IsTrans Chain fun a b => a.dte ≤ b.dte := ⟨fun _ _ _ => le_trans⟩
    List.pairwise_insertionSort _ _
  have hdtes : ((listedChains ib now tradingClass).map (·.dte)).Nodup := by
    have hperm := (List.perm_insertionSort (fun a b : Chain => a.dte ≤ b.dte)
      ((chainData ib now tradingClass).map fun c => { c with strikes := c.strikes.insertionSort (· ≤ ·) })).map (·.dte)
    rw [listedChains, hperm.nodup_iff, List.map_map]
    have hdays : (chainData ib now tradingClass).map ((fun c : Chain => c.dte) ∘ fun c =>
        { c with strikes := c.strikes.insertionSort (· ≤ ·) }) =
          ((chainData ib now tradingClass).map (·.expiry)).map (daysTo now) := by
      rw [List.map_map]
      exact List.map_congr_left fun c hc => hdated.dte c hc
    rw [hdays]
    refine hdated.nodup.map fun a b hab => ?_
    rw [daysTo_eq, daysTo_eq] at hab
    omega
  rw [List.Nodup, List.pairwise_map] at hdtes
  exact (hsorted.and hdtes).imp fun h => lt_of_le_of_ne h.1 h.2

end Chains

section Picks
variable {chains : List Chain} {used : List ℤ} {target : ℤ} {best c : Chain} {past rest : List ℤ}

theorem closest_mem (h : closest chains target = some best) : best ∈ chains := List.argmin_mem h

theorem closest_le (h : closest chains target = some best) (hc : c ∈ chains) :
    |best.dte - target| ≤ |c.dte - target| :=
  List.le_of_mem_argmin (f := fun c : Chain => |c.dte - target|) hc h

/-- Of two chains as near the earlier one is taken. -/
theorem closest_lt (hsorted : chains.Pairwise fun a b => a.dte < b.dte) (h : closest chains target = some best)
    (hc : c ∈ chains) (hlt : c.dte < best.dte) : |best.dte - target| < |c.dte - target| := by
  induction chains generalizing best with
  | nil => cases hc
  | cons a chains ih =>
    obtain ⟨hfirst, hrest⟩ := List.pairwise_cons.mp hsorted
    rw [closest, List.argmin_cons] at h
    cases hmin : chains.argmin fun c => |c.dte - target| with
    | none =>
      rw [List.argmin_eq_none] at hmin
      subst hmin
      simp only [List.argmin_nil, Option.some.injEq] at h
      subst h
      rw [List.mem_singleton.mp hc] at hlt
      exact absurd hlt (lt_irrefl _)
    | some m =>
      simp only [hmin] at h
      split_ifs at h with hnear
      · cases h
        rcases List.mem_cons.mp hc with rfl | hc
        · exact hnear
        · exact ih hrest hmin hc hlt
      · cases h
        rcases List.mem_cons.mp hc with rfl | hc
        · exact absurd hlt (lt_irrefl _)
        · exact absurd hlt (not_lt_of_gt (hfirst c hc))

theorem closest_eq_none : closest chains target = none ↔ chains = [] := List.argmin_eq_none

theorem select_none (h : remaining chains used = []) (targets : List ℤ) : select chains used targets = [] := by
  cases targets with
  | nil => rfl
  | cons target targets =>
    have hnone : closest (remaining chains used) target = none := closest_eq_none.mpr h
    rw [select, hnone]

/-- The targets that come later see the chains that the earlier ones have left. -/
theorem select_append (chains : List Chain) (used past rest : List ℤ) :
    select chains used (past ++ rest) = select chains used past ++
      select chains (used ++ (select chains used past).map (·.chain.expiry)) rest := by
  induction past generalizing used with
  | nil => simp [select]
  | cons target past ih =>
    rw [List.cons_append, select, select]
    cases hclosest : closest (remaining chains used) target with
    | none =>
      dsimp only
      rw [List.map_nil, List.append_nil, select_none (closest_eq_none.mp hclosest), List.append_nil]
    | some best =>
      dsimp only
      rw [ih, List.cons_append, List.map_cons, List.append_assoc, List.singleton_append]

/-- Where a split of the picks falls in the targets -/
theorem select_split {targets : List ℤ} {s : Selected} {pre post : List Selected}
    (h : select chains used targets = pre ++ s :: post) :
    ∃ past rest, targets = past ++ s.target :: rest ∧ pre = select chains used past ∧
      closest (remaining chains (used ++ pre.map (·.chain.expiry))) s.target = some s.chain ∧
        post = select chains (used ++ pre.map (·.chain.expiry) ++ [s.chain.expiry]) rest := by
  induction pre generalizing used targets with
  | nil =>
    cases targets with
    | nil => cases h
    | cons target targets =>
      rw [select] at h
      cases hclosest : closest (remaining chains used) target with
      | none => simp [hclosest] at h
      | some best =>
        simp only [hclosest, List.nil_append, List.cons.injEq] at h
        obtain ⟨rfl, rfl⟩ := h
        refine ⟨[], targets, rfl, rfl, ?_, ?_⟩
        · rw [List.map_nil, List.append_nil]
          exact hclosest
        · rw [List.map_nil, List.append_nil]
  | cons p pre ih =>
    cases targets with
    | nil => cases h
    | cons target targets =>
      rw [select] at h
      cases hclosest : closest (remaining chains used) target with
      | none => simp [hclosest] at h
      | some best =>
        simp only [hclosest, List.cons_append, List.cons.injEq] at h
        obtain ⟨rfl, hrest⟩ := h
        obtain ⟨past, rest, htargets, hpre, hpick, hpost⟩ := ih hrest
        refine ⟨target :: past, rest, by rw [htargets]; rfl, ?_, ?_, ?_⟩
        · rw [select, hclosest]
          exact congrArg _ hpre
        · simpa [List.append_assoc] using hpick
        · simpa [List.append_assoc] using hpost

end Picks

namespace Scan

variable {q : Scan} {past rest : List ℤ} {target : ℤ} {best c d : Chain} {s : Selected}

theorem selected_eq (q : Scan) (past rest : List ℤ) : select q.chains [] (past ++ rest) =
    select q.chains [] past ++ select q.chains ((q.taken past).map (·.expiry)) rest := by
  rw [select_append, List.nil_append, taken, List.map_map]
  rfl

/-- The picks for one target more -/
theorem select_concat (q : Scan) (past : List ℤ) (target : ℤ) : select q.chains [] (past ++ [target]) =
    select q.chains [] past ++ ((closest (q.free past) target).map fun best => ⟨best, target⟩).toList := by
  have hfree : remaining q.chains ((q.taken past).map (·.expiry)) = q.free past := rfl
  rw [selected_eq, select, hfree]
  cases closest (q.free past) target with
  | none => rfl
  | some best => rfl

theorem mem_free : c ∈ q.free past ↔ c ∈ q.chains ∧ ∀ d ∈ q.taken past, d.expiry ≠ c.expiry := by
  simp [free, remaining]

theorem chains_sorted (q : Scan) : q.chains.Pairwise fun a b => a.dte < b.dte := listedChains_sorted _ _ _

theorem free_sorted (q : Scan) (past : List ℤ) : (q.free past).Pairwise fun a b => a.dte < b.dte :=
  q.chains_sorted.filter _

theorem taken_mem (h : d ∈ q.taken past) : d ∈ q.chains := by
  induction past using List.reverseRecOn with
  | nil => cases h
  | append_singleton past target ih =>
    rw [taken, select_concat, List.map_append, List.mem_append] at h
    rcases h with hold | hnew
    · exact ih hold
    · cases hclosest : closest (q.free past) target with
      | none => simp [hclosest] at hnew
      | some best =>
        simp only [hclosest, Option.map_some, Option.toList_some, List.map_cons, List.map_nil,
          List.mem_singleton] at hnew
        rw [hnew]
        exact (mem_free.mp (closest_mem hclosest)).1

/-- A free chain has not the days of one that is taken. -/
theorem dte_ne (hc : c ∈ q.free past) (hd : d ∈ q.taken past) : d.dte ≠ c.dte := by
  obtain ⟨hmem, hfree⟩ := mem_free.mp hc
  intro heq
  have hnodup : (q.chains.map (·.dte)).Nodup :=
    List.pairwise_map.mpr (q.chains_sorted.imp fun h => ne_of_lt h)
  have hsame := List.inj_on_of_nodup_map hnodup (taken_mem hd) hmem heq
  exact hfree d hd (congrArg Chain.expiry hsame)

theorem selected_split {pre post : List Selected} (h : q.selected = pre ++ s :: post) :
    ∃ past rest, q.targets = past ++ s.target :: rest ∧ pre = select q.chains [] past ∧
      closest (q.free past) s.target = some s.chain ∧
        post = select q.chains ((q.taken (past ++ [s.target])).map (·.expiry)) rest := by
  obtain ⟨past, rest, htargets, rfl, hpick, hpost⟩ := select_split h
  rw [List.nil_append] at hpick hpost
  have hfree : closest (q.free past) s.target = some s.chain := by
    rw [free, taken, List.map_map]
    exact hpick
  refine ⟨past, rest, htargets, rfl, hfree, ?_⟩
  rw [hpost, taken, select_concat, hfree, List.map_map, List.map_append]
  rfl

/-- A target that finds a chain splits the picks. -/
theorem selected_at (h : q.targets = past ++ target :: rest) (hpick : closest (q.free past) target = some best) :
    q.selected = select q.chains [] past ++ ⟨best, target⟩ ::
      select q.chains ((q.taken (past ++ [target])).map (·.expiry)) rest := by
  have hsplit : past ++ target :: rest = past ++ [target] ++ rest := by simp
  have hall : q.selected = select q.chains [] q.targets := rfl
  rw [hall, h, hsplit, selected_eq, select_concat, hpick, List.append_assoc]
  rfl

/-- The chains ascend just where no target falls back to a chain that was passed over. -/
theorem ascending_iff (q : Scan) : (q.selected.Pairwise fun a b => a.chain.dte < b.chain.dte) ↔
    ∀ past target rest, q.targets = past ++ target :: rest → ∀ below ∈ q.free past,
      (∃ d ∈ q.taken past, below.dte < d.dte) →
        ∃ above ∈ q.free past, (∀ d ∈ q.taken past, d.dte < above.dte) ∧
          |above.dte - target| < |below.dte - target| := by
  constructor
  · intro hascend past target rest htargets below hbelow hpassed
    cases hpick : closest (q.free past) target with
    | none =>
      rw [closest_eq_none.mp hpick] at hbelow
      cases hbelow
    | some best =>
      have hbeyond : ∀ d ∈ q.taken past, d.dte < best.dte := by
        intro d hd
        obtain ⟨s, hs, rfl⟩ := List.mem_map.mp hd
        rw [selected_at htargets hpick] at hascend
        exact (List.pairwise_append.mp hascend).2.2 s hs _ List.mem_cons_self
      obtain ⟨d, hd, hlt⟩ := hpassed
      exact ⟨best, closest_mem hpick, hbeyond, closest_lt (q.free_sorted past) hpick hbelow (hlt.trans (hbeyond d hd))⟩
  · intro hbeyond
    have hpast : ∀ past rest, q.targets = past ++ rest →
        (select q.chains [] past).Pairwise fun a b => a.chain.dte < b.chain.dte := by
      intro past
      induction past using List.reverseRecOn with
      | nil => exact fun _ _ => List.Pairwise.nil
      | append_singleton past target ih =>
        intro rest htargets
        rw [List.append_assoc, List.singleton_append] at htargets
        rw [select_concat, List.pairwise_append]
        cases hpick : closest (q.free past) target with
        | none => exact ⟨ih _ htargets, List.Pairwise.nil, fun _ _ _ h => nomatch h⟩
        | some best =>
          refine ⟨ih _ htargets, List.pairwise_singleton _ _, fun a ha b hb => ?_⟩
          rw [List.mem_singleton.mp hb]
          have htaken : a.chain ∈ q.taken past := List.mem_map_of_mem ha
          by_contra hnot
          have hback : best.dte < a.chain.dte :=
            lt_of_le_of_ne (not_lt.mp hnot) (dte_ne (closest_mem hpick) htaken).symm
          obtain ⟨above, habove, -, hnearer⟩ :=
            hbeyond past target rest htargets best (closest_mem hpick) ⟨a.chain, htaken, hback⟩
          exact absurd (closest_le hpick habove) (not_le_of_gt hnearer)
    exact hpast q.targets [] (List.append_nil _).symm

end Scan

section Labels
variable {κ ν : Type*} [DecidableEq κ] {dict : List (κ × ν)} {key k : κ} {value v : ν}

theorem mem_assign : (k, v) ∈ assign dict key value ↔ k = key ∧ v = value ∨ k ≠ key ∧ (k, v) ∈ dict := by
  unfold assign
  split_ifs with hmem
  · rw [List.mem_map]
    constructor
    · rintro ⟨e, he, heq⟩
      split_ifs at heq with hkey
      · cases heq
        exact .inl ⟨rfl, rfl⟩
      · subst heq
        exact .inr ⟨hkey, he⟩
    · rintro (⟨rfl, rfl⟩ | ⟨hne, hold⟩)
      · obtain ⟨e, he, hkey⟩ := List.mem_map.mp hmem
        exact ⟨e, he, if_pos hkey⟩
      · exact ⟨(k, v), hold, if_neg hne⟩
  · rw [List.mem_append, List.mem_singleton, Prod.mk.injEq]
    constructor
    · rintro (hold | hnew)
      · refine .inr ⟨fun hkey => hmem ?_, hold⟩
        exact hkey ▸ List.mem_map_of_mem hold
      · exact .inl hnew
    · rintro (hnew | ⟨-, hold⟩)
      · exact .inr hnew
      · exact .inl hold

end Labels

theorem smileRow_source (N : Numerics) (label : ℤ) (triples : List (ℚ × ℚ × ℚ)) (d : DeltaPillar) :
    ∃ cell, smileRow N label triples d = some cell ∧ cell.source ≠ .interp := by
  refine ⟨_, rfl, ?_⟩
  dsimp only
  split_ifs <;> nofun

/-- What one more chain adds to the labels -/
theorem scanAllTenors_append (ib : Ib) (chains : List Selected) (last : Selected) :
    scanAllTenors ib (chains ++ [last]) = if ib.triples last.chain = [] then scanAllTenors ib chains
      else assign (scanAllTenors ib chains) last.label (ib.triples last.chain) := List.foldl_concat _ _ _ _

/-- The triples under a label are those of the last chain with it that has any. -/
theorem mem_scanAllTenors (ib : Ib) (chains : List Selected) (label : ℤ) (triples : List (ℚ × ℚ × ℚ)) :
    (label, triples) ∈ scanAllTenors ib chains ↔
      ∃ s, (chains.filter fun s => s.label = label ∧ ib.triples s.chain ≠ []).getLast? = some s ∧
        triples = ib.triples s.chain := by
  induction chains using List.reverseRecOn with
  | nil => simp [scanAllTenors]
  | append_singleton chains last ih =>
    rw [scanAllTenors_append, List.filter_append]
    by_cases hempty : ib.triples last.chain = []
    · simp only [if_pos hempty, ih]
      simp [hempty]
    · rw [if_neg hempty, mem_assign, ih]
      by_cases hlabel : last.label = label
      · simp [hlabel, hempty]
      · simp [hlabel, Ne.symm hlabel]

theorem labelDte_eq {label dte : ℤ} (h : labelDte label = some dte) : dte = 30 * label := by
  unfold labelDte at h
  split_ifs at h
  exact (Option.some.inj h).symm

theorem pillar_dte (pillar : Tenor) : (pillar.dte : ℤ) = 30 * pillarLabel pillar := by cases pillar <;> rfl

theorem labelDte_pillar (pillar : Tenor) : labelDte (pillarLabel pillar) = some (pillar.dte : ℤ) := by
  cases pillar <;> rfl

namespace Scan

variable {q : Scan} {pillar : Tenor} {s : Selected} {a : Anchor} {row : Row} {d : DeltaPillar} {cell : Cell}

def anchors (q : Scan) : List Anchor := ListedTenors.anchors (computeSurface q.numerics q.ib q.selected)

theorem mem_anchors : a ∈ q.anchors ↔ ∃ label s, q.supplier label = some s ∧ labelDte label = some a.dte ∧
    a.row = smileRow q.numerics label (q.ib.triples s.chain) ∧ a.row.hasIv = true := by
  rw [anchors, ListedTenors.anchors, List.mem_filterMap]
  constructor
  · rintro ⟨⟨label, row⟩, hrow, ha⟩
    obtain ⟨⟨label', triples⟩, hscan, heq⟩ := List.mem_map.mp hrow
    cases heq
    obtain ⟨s, hs, rfl⟩ := (mem_scanAllTenors _ _ _ _).mp hscan
    obtain ⟨dte, hdte, hanchor⟩ := Option.bind_eq_some_iff.mp ha
    split_ifs at hanchor with hiv
    cases hanchor
    exact ⟨label', s, hs, hdte, rfl, hiv⟩
  · rintro ⟨label, s, hs, hdte, hrow, hiv⟩
    refine ⟨(label, a.row), List.mem_map.mpr ⟨(label, q.ib.triples s.chain),
      (mem_scanAllTenors _ _ _ _).mpr ⟨s, hs, rfl⟩, by rw [hrow]⟩, ?_⟩
    dsimp only
    rw [hdte, Option.bind_some, if_pos hiv]

/-- An anchor within the tolerance of a pillar has the label of the pillar. -/
theorem anchor_near (ha : a ∈ q.anchors) (hnear : |a.dte - pillar.dte| ≤ listedToleranceDays) :
    ∃ s, q.supplier (pillarLabel pillar) = some s ∧
      a.row = smileRow q.numerics (pillarLabel pillar) (q.ib.triples s.chain) ∧ a.row.hasIv = true := by
  obtain ⟨label, s, hs, hdte, hrow, hiv⟩ := mem_anchors.mp ha
  have hlabel : label = pillarLabel pillar := by
    rw [labelDte_eq hdte, pillar_dte, abs_le, listedToleranceDays] at hnear
    omega
  subst hlabel
  exact ⟨s, hs, hrow, hiv⟩

/-- What is read off between the anchors is not listed, unless an anchor is near. -/
theorem interpolatePillar_source {N : Numerics} {as : List Anchor} {target : ℤ} {ivs : DeltaPillar → Option ℚ}
    {source : Source} (h : interpolatePillar N as target = some (ivs, source))
    (hfar : ∀ a ∈ as, ¬ |a.dte - target| ≤ listedToleranceDays) : source = .interp := by
  unfold interpolatePillar at h
  dsimp only at h
  split at h
  · cases h
  · next nearest hnearest =>
    have hmem := (List.mem_insertionSort _).mp (List.argmin_mem hnearest)
    rw [if_neg (hfar nearest hmem)] at h
    split at h
    · split_ifs at h
      cases h
      rfl
    · split_ifs at h
      cases h
      rfl
    · cases h

/-- A pillar whose label has a smile shows it as listed. -/
theorem display_of_supplier (hs : q.supplier (pillarLabel pillar) = some s)
    (hiv : (smileRow q.numerics (pillarLabel pillar) (q.ib.triples s.chain)).hasIv = true) :
    q.display pillar = some fun d =>
      (smileRow q.numerics (pillarLabel pillar) (q.ib.triples s.chain) d).map Cell.listed := by
  have hmem : (⟨pillar.dte, smileRow q.numerics (pillarLabel pillar) (q.ib.triples s.chain)⟩ : Anchor) ∈ q.anchors :=
    mem_anchors.mpr ⟨_, s, hs, labelDte_pillar pillar, rfl, hiv⟩
  rw [display, toDisplaySurface]
  change (match nearestAnchor q.anchors pillar.dte with
    | some nearest => _
    | none => _) = _
  cases hnearest : nearestAnchor q.anchors (pillar.dte : ℤ) with
  | none =>
    rw [List.argmin_eq_none.mp hnearest] at hmem
    cases hmem
  | some nearest =>
    have hle := List.le_of_mem_argmin (f := fun a : Anchor => |a.dte - pillar.dte|) hmem hnearest
    dsimp only at hle ⊢
    rw [sub_self, abs_zero] at hle
    have hnear : |nearest.dte - pillar.dte| ≤ listedToleranceDays := hle.trans (by decide)
    obtain ⟨s', hs', hrow, -⟩ := anchor_near (List.argmin_mem hnearest) hnear
    rw [hs] at hs'
    cases hs'
    rw [if_pos hnear, hrow]

/-- A listed cell is of the smile under the label of its pillar. -/
theorem supplier_of_display (hrow : q.display pillar = some row) (hcell : row d = some cell)
    (hlisted : cell.source = .listed) : ∃ s, q.supplier (pillarLabel pillar) = some s ∧
      (smileRow q.numerics (pillarLabel pillar) (q.ib.triples s.chain)).hasIv = true ∧
        (smileRow q.numerics (pillarLabel pillar) (q.ib.triples s.chain) d).map Cell.listed = some cell := by
  by_cases hnear : ∃ a ∈ q.anchors, |a.dte - pillar.dte| ≤ listedToleranceDays
  · obtain ⟨a, ha, hnear⟩ := hnear
    obtain ⟨s, hs, harow, hiv⟩ := anchor_near ha hnear
    rw [harow] at hiv
    rw [display_of_supplier hs hiv] at hrow
    refine ⟨s, hs, hiv, ?_⟩
    rw [← hcell, ← Option.some.inj hrow]
  · push Not at hnear
    have hfar : ∀ a ∈ q.anchors, ¬ |a.dte - pillar.dte| ≤ listedToleranceDays := fun a ha => not_le_of_gt (hnear a ha)
    have hinterp : (interpolatePillar q.numerics q.anchors pillar.dte).map (fun p => fun d => (p.1 d).map fun iv =>
        (⟨some iv, interpStrikes q.numerics q.anchors pillar.dte d, p.2⟩ : Cell)) = some row := by
      rw [display, toDisplaySurface] at hrow
      change (match nearestAnchor q.anchors pillar.dte with
        | some nearest => _
        | none => _) = _ at hrow
      cases hnearest : nearestAnchor q.anchors (pillar.dte : ℤ) with
      | none =>
        rw [hnearest] at hrow
        exact hrow
      | some nearest =>
        rw [hnearest] at hrow
        dsimp only at hrow
        rw [if_neg (hfar nearest (List.argmin_mem hnearest))] at hrow
        exact hrow
    obtain ⟨⟨ivs, source⟩, hpillar, rfl⟩ := Option.map_eq_some_iff.mp hinterp
    obtain ⟨iv, -, rfl⟩ := Option.map_eq_some_iff.mp hcell
    rw [interpolatePillar_source hpillar hfar] at hlisted
    cases hlisted

/-- The listed cells are right just where the supplier of every pillar with a smile is near it. -/
theorem listed_iff (q : Scan) : (∀ pillar row d cell, q.display pillar = some row → row d = some cell →
    cell.source = .listed → ∃ s, q.supplier (pillarLabel pillar) = some s ∧
      (smileRow q.numerics (pillarLabel pillar) (q.ib.triples s.chain) d).map Cell.listed = some cell ∧
        |s.chain.dte - pillar.dte| ≤ listedToleranceDays) ↔
    ∀ pillar s, q.supplier (pillarLabel pillar) = some s →
      (smileRow q.numerics (pillarLabel pillar) (q.ib.triples s.chain)).hasIv = true →
        |s.chain.dte - pillar.dte| ≤ listedToleranceDays := by
  constructor
  · intro h pillar s hs hiv
    obtain ⟨cell, hcell, hsource⟩ := smileRow_source q.numerics (pillarLabel pillar) (q.ib.triples s.chain) .atm
    obtain ⟨s', hs', -, hnear⟩ := h pillar _ .atm cell.listed (display_of_supplier hs hiv)
      (by rw [hcell]; rfl) (by rw [Cell.listed, if_neg hsource])
    rw [hs] at hs'
    cases hs'
    exact hnear
  · intro h pillar row d cell hrow hcell hlisted
    obtain ⟨s, hs, hiv, hsmile⟩ := supplier_of_display hrow hcell hlisted
    exact ⟨s, hs, hsmile, h pillar s hs hiv⟩

theorem getLast?_filter_iff {α : Type*} {p : α → Bool} {xs : List α} {x : α} :
    (xs.filter p).getLast? = some x ↔
      ∃ pre post, xs = pre ++ x :: post ∧ p x = true ∧ ∀ y ∈ post, p y = false := by
  rw [List.getLast?_eq_some_iff]
  constructor
  · rintro ⟨ys, hys⟩
    obtain ⟨pre, post, rfl, -, hpost⟩ := List.filter_eq_append_iff.mp hys
    obtain ⟨skipped, rest, rfl, -, hx, hnil⟩ := List.filter_eq_cons_iff.mp hpost
    refine ⟨pre ++ skipped, rest, (List.append_assoc _ _ _).symm, hx, fun y hy => ?_⟩
    exact Bool.eq_false_iff.mpr (List.filter_eq_nil_iff.mp hnil y hy)
  · rintro ⟨pre, post, rfl, hx, hpost⟩
    refine ⟨pre.filter p, ?_⟩
    have hnil : post.filter p = [] := List.filter_eq_nil_iff.mpr fun y hy => by simp [hpost y hy]
    rw [List.filter_append, List.filter_cons_of_pos hx, hnil]

theorem supplier_iff {label : ℤ} : q.supplier label = some s ↔ ∃ pre post, q.selected = pre ++ s :: post ∧
    s.label = label ∧ q.ib.triples s.chain ≠ [] ∧
      ∀ s' ∈ post, s'.label = label → q.ib.triples s'.chain = [] := by
  rw [supplier, getLast?_filter_iff]
  simp only [decide_eq_true_eq, decide_eq_false_iff_not, not_and, not_not, and_assoc]

/-- The supplier of each pillar is near it just where the closest chain is near when its target comes. -/
theorem near_iff (q : Scan) : (∀ pillar s, q.supplier (pillarLabel pillar) = some s →
      (smileRow q.numerics (pillarLabel pillar) (q.ib.triples s.chain)).hasIv = true →
        |s.chain.dte - pillar.dte| ≤ listedToleranceDays) ↔
    ∀ past target rest, q.targets = past ++ target :: rest → ∀ pillar, pillarLabel pillar = target / 30 →
      ∀ best, closest (q.free past) target = some best → q.ib.triples best ≠ [] →
        (smileRow q.numerics (target / 30) (q.ib.triples best)).hasIv = true →
          (∀ s ∈ select q.chains ((q.taken (past ++ [target])).map (·.expiry)) rest, s.label = target / 30 →
            q.ib.triples s.chain = []) →
            |best.dte - pillar.dte| ≤ listedToleranceDays := by
  constructor
  · intro h past target rest htargets pillar hlabel best hpick hquotes hiv hlater
    rw [← hlabel] at hiv hlater
    exact h pillar ⟨best, target⟩ (supplier_iff.mpr ⟨_, _, selected_at htargets hpick, hlabel.symm, hquotes, hlater⟩) hiv
  · intro h pillar s hs hiv
    obtain ⟨pre, post, hsplit, hlabel, hquotes, hlater⟩ := supplier_iff.mp hs
    obtain ⟨past, rest, htargets, -, hpick, rfl⟩ := selected_split hsplit
    rw [← hlabel] at hiv hlater
    exact h past s.target rest htargets pillar hlabel.symm s.chain hpick hquotes hiv hlater

/-- The chains carry the right tenors just where the listed expiries suit the targets. -/
theorem rightTenors_iff (q : Scan) : q.RightTenors ↔ q.Suits := by
  constructor
  · rintro ⟨hascending, hlisted⟩
    exact ⟨q.ascending_iff.mp hascending, q.near_iff.mp (q.listed_iff.mp hlisted)⟩
  · rintro ⟨hbeyond, hnear⟩
    exact ⟨q.ascending_iff.mpr hbeyond, q.listed_iff.mpr (q.near_iff.mpr hnear)⟩

end Scan

def weeklies : Ib where
  futures := [(40, 1)]
  optionParams _ := [⟨"EUU", "CME", "125000", [10, 30], [11 / 10]⟩]
  triples _ := [(1 / 2, 7 / 100, 11 / 10)]

def flatSmile : Numerics where
  smile _ triples _ := ((triples.head?.map fun t => t.2.1), (triples.head?.map fun t => t.2.2), false)
  interpIv iv _ _ _ _ := iv
  round6 := id

/-- The first targets of `DEFAULT_TARGET_DTES` on these expiries -/
def weeklyScan : Scan where
  ib := weeklies
  now := 0
  tradingClass := "EUU"
  targets := [30, 60]
  numerics := flatSmile

example : weeklyScan.selected.map (fun s => (s.target, s.chain.dte)) = [(30, 30), (60, 10)] := by decide +kernel

theorem not_rightTenors : ¬ weeklyScan.RightTenors := by
  intro h
  have hascending := h.ascending
  revert hascending
  decide +kernel

end FxVol.ListedTenors
