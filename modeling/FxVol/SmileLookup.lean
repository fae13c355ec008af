import FxVol.Numerals
import FxVol.Polyline
import FxVol.VolSurface
import Mathlib.Analysis.Real.Sqrt
import Mathlib.Analysis.SpecialFunctions.Exp

/-!
# The smile lookup in real arithmetic

`iv_at_strike` over any ordered field: over the rationals it is the lookup that the engines are modelled with,
and over the reals its volatility, as a function of the strike, follows the placed pillars of the tenor.
-/
namespace FxVol.SmileLookup

open scoped Numerals
open TradePreviews (DeltaPillar)
open VolSurface (IvSource callDelta)
open Polyline

section Lookup

structure Node (K : Type*) where
  iv : Option K
  strike : Option K

/-- The nodes of a tenor by their labels -/
abbrev Pillars (K : Type*) := DeltaPillar → Option (Node K)

abbrev Surface (τ K : Type*) := τ → Option (Pillars K)

structure IvResult (K : Type*) where
  iv : K
  source : IvSource
  nPoints : ℕ

/-- `math` and the `NormalDist` -/
structure Numerics (K : Type*) where
  sqrt : K → K
  exp : K → K
  invCdf : K → K

variable {τ K : Type*} [Field K] [LinearOrder K] (N : Numerics K)

def strikeFromDelta (F T sigma : K) (label : DeltaPillar) : K :=
  if label = .atm ∨ T ≤ 0 ∨ sigma ≤ 0 then F
  else
    let volT := sigma * N.sqrt T
    F * N.exp (1 / 2 * volT * volT - N.invCdf (callDelta label) * volT)

/-- A node of `_points`: its strike, or that of its delta where it has none -/
def pillarPoint (F T : Option K) (label : DeltaPillar) (node : Node K) : Option (K × K) :=
  node.iv.bind fun iv =>
    if iv ≤ 0 then none
    else
      match node.strike.filter (0 < ·), F, T with
      | some strike, _, _ => some (strike, iv)
      | none, some F, some T => if F ≤ 0 then none else some (strikeFromDelta N F T iv label, iv)
      | none, _, _ => none

/-- The pillars that can be placed, in the order of `LABELS` -/
def placed (pillars : Pillars K) (F T : Option K) : List (K × K) :=
  DeltaPillar.all.filterMap fun label => (pillars label).bind (pillarPoint N F T label)

def points (pillars : Pillars K) (F T : Option K) : List (K × K) :=
  (placed N pillars F T).insertionSort fun p q => p.1 ≤ q.1

/-- The loop over adjacent pillars, and the last pillar after it -/
def bracket (strike : K) : List (K × K) → Option (K × IvSource)
  | (k₀, v₀) :: (k₁, v₁) :: rest =>
    if strike = k₀ then some (v₀, .pillar)
    else if k₀ < strike ∧ strike < k₁ then
      some (v₀ + (strike - k₀) / (k₁ - k₀) * (v₁ - v₀), .interpStrike)
    else bracket strike ((k₁, v₁) :: rest)
  | [(_, v)] => some (v, .pillar)
  | [] => none

/-- `iv_at_strike` on a list of points -/
def ivOnPoints (strike : K) (pts : List (K × K)) : Option (IvResult K) :=
  match pts.head?, pts.getLast? with
  | some (kFirst, vFirst), some (kLast, vLast) =>
    if pts.length = 1 then some ⟨vFirst, .singlePillar, pts.length⟩
    else if strike ≤ kFirst then
      some ⟨vFirst, if strike = kFirst then .pillar else .wingClamp, pts.length⟩
    else if kLast ≤ strike then
      some ⟨vLast, if strike = kLast then .pillar else .wingClamp, pts.length⟩
    else (bracket strike pts).map fun p => ⟨p.1, p.2, pts.length⟩
  | _, _ => none

def ivAtStrike (surface : Option (Surface τ K)) (tenor : τ) (strike : K) (F T : Option K) : Option (IvResult K) :=
  surface.bind fun s => (s tenor).bind fun pillars => ivOnPoints strike (points N pillars F T)

end Lookup

section Claim
variable {τ K : Type*} [Field K] [LinearOrder K] (N : Numerics K) (surface : Option (Surface τ K)) (tenor : τ) (F T : K)

/-- A pillar of the tenor has a positive IV and a strike: its own, or that of its delta. -/
def Placed (label : DeltaPillar) (k v : K) : Prop :=
  ∃ pillars node, surface.bind (fun s => s tenor) = some pillars ∧ pillars label = some node ∧ node.iv = some v ∧
    0 < v ∧ ((node.strike = some k ∧ 0 < k) ∨
      ((∀ given, node.strike = some given → given ≤ 0) ∧ k = strikeFromDelta N F T v label))

def ivsAt (k : K) : List K :=
  let pts := ((surface.bind fun s => s tenor).map fun pillars => placed N pillars (some F) (some T)).getD []
  (pts.filter fun p => p.1 = k).map (·.2)

/-- The volatility as a function of the strike, zero where there is none -/
def curve (k : K) : K := ((ivAtStrike N surface tenor k (some F) (some T)).map (·.iv)).getD 0

/-- What holds of the lookup at a forward and an expiry -/
structure Interpolates [TopologicalSpace K] : Prop where
  returns : ∀ k, (ivAtStrike N surface tenor k (some F) (some T)).isSome ↔
    ∃ label k' v, Placed N surface tenor F T label k' v
  between : ∀ k res, ivAtStrike N surface tenor k (some F) (some T) = some res →
    ∃ low high, IsLeast {v | ∃ label k', Placed N surface tenor F T label k' v} low ∧
      IsGreatest {v | ∃ label k', Placed N surface tenor F T label k' v} high ∧ low ≤ res.iv ∧ res.iv ≤ high
  hits : ∀ label k v, Placed N surface tenor F T label k v →
    (∀ label' v', Placed N surface tenor F T label' k v' → label' = label) → curve N surface tenor F T k = v
  flatLeft : ∀ x y, (∀ label k v, Placed N surface tenor F T label k v → x < k ∧ y < k) →
    curve N surface tenor F T x = curve N surface tenor F T y
  flatRight : ∀ x y, (∀ label k v, Placed N surface tenor F T label k v → k < x ∧ k < y) →
    curve N surface tenor F T x = curve N surface tenor F T y
  linear : ∀ k k' v v', (ivsAt N surface tenor F T k).getLast? = some v → (ivsAt N surface tenor F T k').head? = some v' →
    (∀ label x w, Placed N surface tenor F T label x w → x ≤ k ∨ k' ≤ x) → ∀ x, k < x → x < k' →
      curve N surface tenor F T x = v + (x - k) / (k' - k) * (v' - v)
  continuousAt_iff : ∀ k, ContinuousAt (curve N surface tenor F T) k ↔
    (ivsAt N surface tenor F T k).head? = (ivsAt N surface tenor F T k).getLast?
  continuous : (∀ label label' k v v', Placed N surface tenor F T label k v → Placed N surface tenor F T label' k v' →
    label = label') → Continuous (curve N surface tenor F T)

end Claim

section Rationals
variable (N : VolSurface.Numerics) {pts : List (ℚ × ℚ)} {strike : ℚ}

def ofNumerics : Numerics ℚ := ⟨N.sqrt, N.exp, N.invCdf⟩

def ofSurface (s : TradePreviews.Surface) : Surface TradePreviews.Tenor ℚ := fun t =>
  some fun label => (s.cell t label).map fun c => ⟨c.iv, c.strike⟩

def ofResult (res : VolSurface.IvResult) : IvResult ℚ := ⟨res.iv, res.source, res.nPoints⟩

theorem bracket_rat (strike : ℚ) (pts : List (ℚ × ℚ)) : VolSurface.bracket strike pts = bracket strike pts := by
  induction pts with
  | nil => rfl
  | cons p rest ih =>
    cases rest with
    | nil => rfl
    | cons q rest =>
      rw [VolSurface.bracket, bracket, ih]

theorem ivOnPoints_rat (strike : ℚ) (pts : List (ℚ × ℚ)) :
    ivOnPoints strike pts = (VolSurface.ivOnPoints strike pts).map ofResult := by
  rw [ivOnPoints, VolSurface.ivOnPoints, bracket_rat]
  cases pts.head? with
  | none => rfl
  | some first =>
    cases pts.getLast? with
    | none => rfl
    | some last =>
      dsimp only
      split_ifs
      any_goals rfl
      rw [Option.map_map]
      rfl

theorem strikeFromDelta_rat (F T sigma : ℚ) (label : DeltaPillar) :
    strikeFromDelta (ofNumerics N) F T sigma label = VolSurface.strikeFromDelta N F T sigma label := by
  simp only [strikeFromDelta, VolSurface.strikeFromDelta, ofNumerics, Rat.cast_id]

theorem placed_rat (s : TradePreviews.Surface) (t : TradePreviews.Tenor) (F T : ℚ) :
    placed (ofNumerics N) (fun label => (s.cell t label).map fun c => ⟨c.iv, c.strike⟩) (some F) (some T) =
      VolSurface.placed N s t F T := by
  rw [placed, VolSurface.placed]
  apply List.filterMap_congr
  intro label _
  rw [TradePreviews.Surface.iv, TradePreviews.Surface.strike]
  cases s.cell t label with
  | none => rfl
  | some c =>
    obtain ⟨iv, strike, interp⟩ := c
    cases iv with
    | none => rfl
    | some iv =>
      simp only [Option.map_some, Option.bind_some, pillarPoint, strikeFromDelta_rat]
      by_cases hiv : iv ≤ 0
      · rw [if_pos hiv, if_pos hiv]
      · rw [if_neg hiv, if_neg hiv]
        cases strike with
        | none => rfl
        | some strike =>
          by_cases hstrike : 0 < strike
          · simp only [Option.filter_some, hstrike, decide_true, if_true]
          · simp only [Option.filter_some, hstrike, decide_false, if_false, Bool.false_eq_true]

/-- The lookup of the engines is the one over the rationals. -/
theorem ivAtStrike_rat (surface : Option TradePreviews.Surface) (tenor : TradePreviews.Tenor) (strike F T : ℚ) :
    ivAtStrike (ofNumerics N) (surface.map ofSurface) tenor strike (some F) (some T) =
      (VolSurface.ivAtStrike N surface tenor strike F T).map ofResult := by
  cases surface with
  | none => rfl
  | some s =>
    change ivOnPoints strike ((placed (ofNumerics N) _ (some F) (some T)).insertionSort _) =
      (VolSurface.ivOnPoints strike ((VolSurface.placed N s tenor F T).insertionSort _)).map ofResult
    rw [placed_rat, ivOnPoints_rat]

end Rationals

section Following
variable {K : Type*} [Field K] [LinearOrder K] {pts below pre post rest : List (K × K)} {p q : K × K} {x : K}

theorem bracket_skip (hp : p.1 < x) (hq : q.1 ≤ x) : bracket x (p :: q :: rest) = bracket x (q :: rest) := by
  rw [bracket, if_neg hp.ne', if_neg (fun h => absurd h.2 (not_lt.mpr hq))]

/-- The loop passes the points before the strike. -/
theorem bracket_append (hbelow : ∀ p ∈ below, p.1 < x) (hq : q.1 ≤ x) :
    bracket x (below ++ q :: rest) = bracket x (q :: rest) := by
  induction below with
  | nil => rfl
  | cons p below ih =>
    rw [← ih fun r hr => hbelow r (List.mem_cons_of_mem p hr)]
    cases below with
    | nil => exact bracket_skip (hbelow p List.mem_cons_self) hq
    | cons r below => exact bracket_skip (hbelow p List.mem_cons_self) (hbelow r (by simp)).le

theorem bracket_hit (hbelow : ∀ p ∈ below, p.1 < q.1) : bracket q.1 (below ++ q :: rest) = some (q.2, .pillar) := by
  rw [bracket_append hbelow le_rfl]
  cases rest with
  | nil => rfl
  | cons r rest => rw [bracket, if_pos rfl]

theorem bracket_inside (hpre : ∀ r ∈ pre, r.1 < x) (hp : p.1 < x) (hq : x < q.1) :
    bracket x (pre ++ p :: q :: post) = some (chord p q x, .interpStrike) := by
  rw [bracket_append hpre hp.le, bracket, if_neg hp.ne', if_pos ⟨hp, hq⟩]
  rfl

/-- The volatility of a strike -/
def value (pts : List (K × K)) (x : K) : K := ((ivOnPoints x pts).map (·.iv)).getD 0

theorem bracket_isSome (hne : pts ≠ []) : (bracket x pts).isSome := by
  induction pts with
  | nil => exact absurd rfl hne
  | cons p rest ih =>
    cases rest with
    | nil => rfl
    | cons q rest =>
      rw [bracket]
      split_ifs
      · rfl
      · rfl
      · exact ih (List.cons_ne_nil q rest)

variable {a b : K × K}

theorem ivOnPoints_value (ha : pts.head? = some a) (hb : pts.getLast? = some b) (x : K) :
    (ivOnPoints x pts).map (·.iv) = some (value pts x) := by
  have hne : pts ≠ [] := by
    rintro rfl
    cases ha
  have hsome : (ivOnPoints x pts).isSome := by
    rw [ivOnPoints, ha, hb]
    dsimp only
    split_ifs
    any_goals rfl
    rw [Option.isSome_map]
    exact bracket_isSome hne
  obtain ⟨res, hres⟩ := Option.isSome_iff_exists.mp hsome
  rw [value, hres]
  rfl

theorem value_eq (ha : pts.head? = some a) (hb : pts.getLast? = some b) (x : K) :
    value pts x =
      if pts.length = 1 ∨ x ≤ a.1 then a.2 else if b.1 ≤ x then b.2 else ((bracket x pts).map (·.1)).getD 0 := by
  rw [value, ivOnPoints, ha, hb]
  dsimp only
  by_cases hone : pts.length = 1
  · rw [if_pos hone, if_pos (.inl hone)]
    rfl
  · by_cases hlow : x ≤ a.1
    · rw [if_neg hone, if_pos hlow, if_pos (Or.inr hlow : pts.length = 1 ∨ x ≤ a.1)]
      rfl
    · rw [if_neg hone, if_neg hlow, if_neg (not_or.mpr ⟨hone, hlow⟩)]
      by_cases hhigh : b.1 ≤ x
      · rw [if_pos hhigh, if_pos hhigh]
        rfl
      · rw [if_neg hhigh, if_neg hhigh, Option.map_map]
        rfl

/-- One point has one value everywhere, and the first one those up to it. -/
theorem value_low (h : x ≤ p.1) : value (p :: rest) x = p.2 := by
  obtain ⟨b, hb⟩ := Option.ne_none_iff_exists'.mp (mt List.getLast?_eq_none_iff.mp (List.cons_ne_nil p rest))
  rw [value_eq rfl hb, if_pos (.inr h)]

/-- The last point has those from it on. -/
theorem value_high (hfirst : ∀ q, (pre ++ [p]).head? = some q → q.1 < x) (h : p.1 ≤ x) : value (pre ++ [p]) x = p.2 := by
  cases pre with
  | nil => rfl
  | cons r pre =>
    have hlast : (r :: pre ++ [p]).getLast? = some p := List.getLast?_concat
    have hlen : ¬ (r :: pre ++ [p]).length = 1 := by simp
    rw [value_eq rfl hlast, if_neg (not_or.mpr ⟨hlen, not_le.mpr (hfirst r rfl)⟩), if_pos h]

/-- Between the outer points the loop finds the value. -/
theorem value_bracket (ha : pts.head? = some a) (hb : pts.getLast? = some b) (hlow : a.1 < x) (hhigh : x < b.1)
    {v : K × IvSource} (h : bracket x pts = some v) : value pts x = v.1 := by
  have hlen : ¬ pts.length = 1 := by
    intro hone
    obtain ⟨c, rfl⟩ := List.length_eq_one_iff.mp hone
    cases ha
    cases hb
    exact absurd (hlow.trans hhigh) (lt_irrefl _)
  rw [value_eq ha hb, if_neg (not_or.mpr ⟨hlen, not_le.mpr hlow⟩), if_neg (not_le.mpr hhigh), h]
  rfl

/-- `iv_at_strike` follows the points. -/
theorem follows_value (hs : Ordered pts) : Follows pts (value pts) where
  left p rest heq x hx := by
    rw [heq]
    exact value_low hx.le
  right pre p heq x hx := by
    subst heq
    have hlast : (pre ++ [p]).getLast? = some p := List.getLast?_concat
    refine value_high (fun q hq => ?_) hx.le
    exact (hs.le_last hlast (List.mem_of_mem_head? hq)).trans_lt hx
  inside pre p q post heq x hp hq := by
    subst heq
    have hne : pre ++ p :: q :: post ≠ [] := by simp
    obtain ⟨a, ha⟩ := Option.ne_none_iff_exists'.mp (mt List.head?_eq_none_iff.mp hne)
    obtain ⟨b, hb⟩ := Option.ne_none_iff_exists'.mp (mt List.getLast?_eq_none_iff.mp hne)
    have hlow : a.1 < x := (hs.head_le ha (by simp)).trans_lt hp
    have hhigh : x < b.1 := hq.trans_le (hs.le_last hb (by simp))
    have hpre : ∀ r ∈ pre, r.1 < x := fun r hr =>
      ((List.pairwise_append.mp hs).2.2 r hr p List.mem_cons_self).trans_lt hp
    exact value_bracket ha hb hlow hhigh (bracket_inside hpre hp hq)
  hit x hx := by
    obtain ⟨q, hhead⟩ := Option.ne_none_iff_exists'.mp (mt List.head?_eq_none_iff.mp hx)
    obtain ⟨p, hlast⟩ := Option.ne_none_iff_exists'.mp (mt List.getLast?_eq_none_iff.mp hx)
    rw [hhead, hlast]
    obtain ⟨below, rest, heq, rfl, hbelow⟩ := hs.head_group hhead
    obtain ⟨pre, above, heq', hpx, habove⟩ := hs.last_group hlast
    cases below with
    | nil =>
      left
      rw [heq, List.nil_append, value_low le_rfl]
      rfl
    | cons r below =>
      have ha : pts.head? = some r := by rw [heq]; rfl
      have hlow : r.1 < q.1 := hbelow r List.mem_cons_self
      cases above with
      | nil =>
        right
        have hvalue : value pts q.1 = p.2 := by
          rw [heq']
          refine value_high (fun r' hr' => ?_) hpx.le
          rw [← heq', ha] at hr'
          cases hr'
          exact hlow
        rw [hvalue]
        rfl
      | cons c above =>
        left
        obtain ⟨b, hb⟩ := Option.ne_none_iff_exists'.mp
          (mt List.getLast?_eq_none_iff.mp (List.ne_nil_of_mem (List.mem_of_mem_head? ha)))
        have hhigh : q.1 < b.1 :=
          (habove c List.mem_cons_self).trans_le (hs.le_last hb (by rw [heq']; simp))
        have hfound : bracket q.1 pts = some (q.2, .pillar) := by
          rw [heq]
          exact bracket_hit hbelow
        rw [value_bracket ha hb hlow hhigh hfound]
        rfl

end Following

section Pillars
variable {τ K : Type*} [Field K] [LinearOrder K] {N : Numerics K} {surface : Option (Surface τ K)} {tenor : τ} {F T : K}
variable {pillars : Pillars K} {label : DeltaPillar} {node : Node K} {k v : K}

theorem pillarPoint_iff (hF : 0 < F) : pillarPoint N (some F) (some T) label node = some (k, v) ↔
    node.iv = some v ∧ 0 < v ∧ ((node.strike = some k ∧ 0 < k) ∨
      ((∀ given, node.strike = some given → given ≤ 0) ∧ k = strikeFromDelta N F T v label)) := by
  obtain ⟨iv, strike⟩ := node
  cases iv with
  | none => simp [pillarPoint]
  | some iv =>
    by_cases hiv : iv ≤ 0
    · have hno : ¬ (iv = v ∧ 0 < v) := by
        rintro ⟨rfl, hpos⟩
        exact absurd hpos (not_lt.mpr hiv)
      simp only [pillarPoint, Option.bind_some, if_pos hiv, Option.some.injEq]
      constructor
      · exact fun h => nomatch h
      · exact fun h => absurd ⟨h.1, h.2.1⟩ hno
    · have hpos : 0 < iv := not_le.mp hiv
      cases strike with
      | none =>
        simp only [pillarPoint, Option.bind_some, if_neg hiv, Option.filter_none, if_neg (not_le.mpr hF),
          Option.some.injEq, Prod.mk.injEq, reduceCtorEq, false_and, false_or, false_implies, implies_true, true_and]
        constructor
        · rintro ⟨rfl, rfl⟩
          exact ⟨rfl, hpos, rfl⟩
        · rintro ⟨rfl, -, rfl⟩
          exact ⟨rfl, rfl⟩
      | some strike =>
        by_cases hstrike : 0 < strike
        · simp only [pillarPoint, Option.bind_some, if_neg hiv, Option.filter_some, hstrike, decide_true, if_true,
            Option.some.injEq, Prod.mk.injEq]
          constructor
          · rintro ⟨rfl, rfl⟩
            exact ⟨rfl, hpos, .inl ⟨rfl, hstrike⟩⟩
          · rintro ⟨rfl, -, ⟨rfl, -⟩ | ⟨hgiven, -⟩⟩
            · exact ⟨rfl, rfl⟩
            · exact absurd hstrike (not_lt.mpr (hgiven strike rfl))
        · simp only [pillarPoint, Option.bind_some, if_neg hiv, Option.filter_some, hstrike, decide_false,
            Bool.false_eq_true, if_false, if_neg (not_le.mpr hF), Option.some.injEq, Prod.mk.injEq]
          constructor
          · rintro ⟨rfl, rfl⟩
            exact ⟨rfl, hpos, .inr ⟨fun given hg => hg ▸ not_lt.mp hstrike, rfl⟩⟩
          · rintro ⟨rfl, -, ⟨rfl, hk⟩ | ⟨-, rfl⟩⟩
            · exact absurd hk hstrike
            · exact ⟨rfl, rfl⟩

theorem mem_placed : (k, v) ∈ placed N pillars (some F) (some T) ↔
    ∃ label node, pillars label = some node ∧ pillarPoint N (some F) (some T) label node = some (k, v) := by
  rw [placed, List.mem_filterMap]
  constructor
  · rintro ⟨label, -, h⟩
    obtain ⟨node, hnode, hpoint⟩ := Option.bind_eq_some_iff.mp h
    exact ⟨label, node, hnode, hpoint⟩
  · rintro ⟨label, node, hnode, hpoint⟩
    exact ⟨label, by cases label <;> decide, by rw [hnode]; exact hpoint⟩

def pillarsAt (surface : Option (Surface τ K)) (tenor : τ) : Pillars K :=
  (surface.bind fun s => s tenor).getD fun _ => none

theorem placed_point_iff (hF : 0 < F) : Placed N surface tenor F T label k v ↔
    ∃ node, pillarsAt surface tenor label = some node ∧ pillarPoint N (some F) (some T) label node = some (k, v) := by
  simp only [pillarPoint_iff hF, Placed, pillarsAt]
  cases surface.bind fun s => s tenor with
  | none => simp
  | some pillars =>
    simp only [Option.some.injEq, Option.getD_some]
    constructor
    · rintro ⟨_, node, rfl, h⟩
      exact ⟨node, h⟩
    · rintro ⟨node, h⟩
      exact ⟨pillars, node, rfl, h⟩

theorem mem_points_iff (hF : 0 < F) :
    (k, v) ∈ points N (pillarsAt surface tenor) (some F) (some T) ↔ ∃ label, Placed N surface tenor F T label k v := by
  rw [points, List.mem_insertionSort, mem_placed]
  simp only [placed_point_iff hF]

theorem ordered_points (N : Numerics K) (pillars : Pillars K) (F T : Option K) : Ordered (points N pillars F T) :=
  haveI : Std.Total fun p q : K × K => p.1 ≤ q.1 := ⟨fun p q => le_total p.1 q.1⟩
  haveI : IsTrans (K × K) fun p q => p.1 ≤ q.1 := ⟨fun _ _ _ => le_trans⟩
  List.pairwise_insertionSort _ _

/-- The sort keeps the order of the labels at a strike. -/
theorem group_points (N : Numerics K) (pillars : Pillars K) (F T : Option K) (k : K) :
    group (points N pillars F T) k = group (placed N pillars F T) k := by
  have htotal : Std.Total fun p q : K × K => p.1 ≤ q.1 := ⟨fun p q => le_total p.1 q.1⟩
  have htrans : IsTrans (K × K) fun p q => p.1 ≤ q.1 := ⟨fun _ _ _ => le_trans⟩
  have hsame : (group (placed N pillars F T) k).Pairwise fun p q => p.1 ≤ q.1 := by
    refine List.pairwise_of_forall_mem_list fun p hp q hq => ?_
    rw [(mem_group.mp hp).2, (mem_group.mp hq).2]
  have hsub : (group (placed N pillars F T) k).Sublist (points N pillars F T) :=
    List.sublist_insertionSort hsame List.filter_sublist
  have hsub' : (group (placed N pillars F T) k).Sublist (group (points N pillars F T) k) := by
    have h := hsub.filter fun p => p.1 = k
    simp only [group, List.filter_filter, Bool.and_self] at h
    exact h
  have hlen : (group (points N pillars F T) k).length = (group (placed N pillars F T) k).length :=
    ((List.perm_insertionSort _ _).filter _).length_eq
  exact (hsub'.eq_of_length hlen.symm).symm

theorem ivsAt_eq (k : K) : ivsAt N surface tenor F T k =
    (group (points N (pillarsAt surface tenor) (some F) (some T)) k).map (·.2) := by
  rw [group_points, ivsAt, pillarsAt]
  cases surface.bind fun s => s tenor <;> rfl

theorem ivAtStrike_eq (k : K) (F T : Option K) :
    ivAtStrike N surface tenor k F T = ivOnPoints k (points N (pillarsAt surface tenor) F T) := by
  rw [ivAtStrike, pillarsAt]
  cases surface with
  | none => rfl
  | some s =>
    rw [Option.bind_some, Option.bind_some]
    cases s tenor <;> rfl

theorem curve_eq : curve N surface tenor F T = value (points N (pillarsAt surface tenor) (some F) (some T)) := by
  funext k
  rw [curve, value, ivAtStrike_eq]

theorem filterMap_single {α β : Type*} {f : α → Option β} {xs : List α} {a : α} {b : β} (hxs : xs.Nodup) (ha : a ∈ xs)
    (hb : f a = some b) (hnone : ∀ a' ≠ a, f a' = none) : xs.filterMap f = [b] := by
  obtain ⟨pre, post, rfl⟩ := List.append_of_mem ha
  have hnot : a ∉ pre ++ post := (List.nodup_cons.mp (List.nodup_middle.mp hxs)).1
  have hpre : pre.filterMap f = [] := List.filterMap_eq_nil_iff.mpr fun a' ha' => hnone a' (by
    rintro rfl
    exact hnot (List.mem_append_left post ha'))
  have hpost : post.filterMap f = [] := List.filterMap_eq_nil_iff.mpr fun a' ha' => hnone a' (by
    rintro rfl
    exact hnot (List.mem_append_right pre ha'))
  rw [List.filterMap_append, List.filterMap_cons_some hb, hpre, hpost, List.nil_append]

/-- A pillar that has a strike of its own is the only point there. -/
theorem group_single (hF : 0 < F) (h : Placed N surface tenor F T label k v)
    (honly : ∀ label' v', Placed N surface tenor F T label' k v' → label' = label) :
    group (points N (pillarsAt surface tenor) (some F) (some T)) k = [(k, v)] := by
  rw [group_points, group, placed, List.filter_filterMap]
  obtain ⟨node, hnode, hpoint⟩ := (placed_point_iff hF).mp h
  refine filterMap_single (a := label) (by decide) (by cases label <;> decide) ?_ ?_
  · rw [hnode, Option.bind_some, hpoint, Option.filter_some, if_pos (by simp)]
  · intro label' hne
    rw [Option.filter_eq_none_iff]
    rintro ⟨k', v'⟩ hpoint' hk
    obtain ⟨node', hnode', hpoint'⟩ := Option.bind_eq_some_iff.mp hpoint'
    obtain rfl : k' = k := of_decide_eq_true hk
    exact hne (honly label' v' ((placed_point_iff hF).mpr ⟨node', hnode', hpoint'⟩))

end Pillars

section Interpolation
variable {τ K : Type*} [Field K] [LinearOrder K] {N : Numerics K} {surface : Option (Surface τ K)} {tenor : τ} {F T : K}

theorem ivOnPoints_isSome {x : K} {pts : List (K × K)} : (ivOnPoints x pts).isSome ↔ pts ≠ [] := by
  constructor
  · rintro h rfl
    cases h
  · intro hne
    obtain ⟨a, ha⟩ := Option.ne_none_iff_exists'.mp (mt List.head?_eq_none_iff.mp hne)
    obtain ⟨b, hb⟩ := Option.ne_none_iff_exists'.mp (mt List.getLast?_eq_none_iff.mp hne)
    have hvalue := ivOnPoints_value ha hb x
    rw [← Option.isSome_map (f := (·.iv)), hvalue]
    rfl

theorem curve_follows : Follows (points N (pillarsAt surface tenor) (some F) (some T)) (curve N surface tenor F T) := by
  rw [curve_eq]
  exact follows_value (ordered_points N _ _ _)

theorem curve_returns (hF : 0 < F) (k : K) : (ivAtStrike N surface tenor k (some F) (some T)).isSome ↔
    ∃ label k' v, Placed N surface tenor F T label k' v := by
  rw [ivAtStrike_eq, ivOnPoints_isSome]
  constructor
  · intro hne
    obtain ⟨p, hp⟩ := List.exists_mem_of_ne_nil _ hne
    obtain ⟨label, h⟩ := (mem_points_iff hF).mp hp
    exact ⟨label, p.1, p.2, h⟩
  · rintro ⟨label, k', v, h⟩
    exact List.ne_nil_of_mem ((mem_points_iff hF).mpr ⟨label, h⟩)

theorem curve_of_result {k : K} {res : IvResult K} (h : ivAtStrike N surface tenor k (some F) (some T) = some res) :
    curve N surface tenor F T k = res.iv := by
  rw [curve, h]
  rfl

theorem curve_hits (hF : 0 < F) {label : DeltaPillar} {k v : K} (h : Placed N surface tenor F T label k v)
    (honly : ∀ label' v', Placed N surface tenor F T label' k v' → label' = label) :
    curve N surface tenor F T k = v :=
  curve_follows.at_point (group_single hF h honly)

theorem curve_flatLeft (hF : 0 < F) {x y : K} (h : ∀ label k v, Placed N surface tenor F T label k v → x < k ∧ y < k) :
    curve N surface tenor F T x = curve N surface tenor F T y := by
  have hfollows : Follows (points N (pillarsAt surface tenor) (some F) (some T)) (curve N surface tenor F T) :=
    curve_follows
  cases hpts : points N (pillarsAt surface tenor) (some F) (some T) with
  | nil =>
    rw [curve_eq, hpts]
    rfl
  | cons p rest =>
    have hp : p ∈ points N (pillarsAt surface tenor) (some F) (some T) := by rw [hpts]; exact List.mem_cons_self
    obtain ⟨label, hplaced⟩ := (mem_points_iff hF).mp hp
    obtain ⟨hx, hy⟩ := h label p.1 p.2 hplaced
    rw [hfollows.left p rest hpts x hx, hfollows.left p rest hpts y hy]

theorem curve_flatRight (hF : 0 < F) {x y : K}
    (h : ∀ label k v, Placed N surface tenor F T label k v → k < x ∧ k < y) :
    curve N surface tenor F T x = curve N surface tenor F T y := by
  have hfollows : Follows (points N (pillarsAt surface tenor) (some F) (some T)) (curve N surface tenor F T) :=
    curve_follows
  rcases List.eq_nil_or_concat (points N (pillarsAt surface tenor) (some F) (some T)) with hpts | ⟨pre, p, hpts⟩
  · rw [curve_eq, hpts]
    rfl
  · rw [List.concat_eq_append] at hpts
    have hp : p ∈ points N (pillarsAt surface tenor) (some F) (some T) := by rw [hpts]; simp
    obtain ⟨label, hplaced⟩ := (mem_points_iff hF).mp hp
    obtain ⟨hx, hy⟩ := h label p.1 p.2 hplaced
    rw [hfollows.right pre p hpts x hx, hfollows.right pre p hpts y hy]

/-- Between neighbouring strikes the curve is the line from the last pillar of the lower one to the first of the
upper one. -/
theorem curve_linear (hF : 0 < F) {k k' v v' x : K} (hv : (ivsAt N surface tenor F T k).getLast? = some v)
    (hv' : (ivsAt N surface tenor F T k').head? = some v')
    (hgap : ∀ label x w, Placed N surface tenor F T label x w → x ≤ k ∨ k' ≤ x) (hlow : k < x) (hhigh : x < k') :
    curve N surface tenor F T x = v + (x - k) / (k' - k) * (v' - v) := by
  rw [ivsAt_eq, List.getLast?_map] at hv
  rw [ivsAt_eq, List.head?_map] at hv'
  obtain ⟨p, hp, rfl⟩ := Option.map_eq_some_iff.mp hv
  obtain ⟨q, hq, rfl⟩ := Option.map_eq_some_iff.mp hv'
  have hgap' : ∀ r ∈ points N (pillarsAt surface tenor) (some F) (some T), r.1 ≤ k ∨ k' ≤ r.1 := by
    intro r hr
    obtain ⟨label, hplaced⟩ := (mem_points_iff hF).mp hr
    exact hgap label r.1 r.2 hplaced
  have hline := curve_follows.between_neighbours (ordered_points N _ _ _) hp hq hgap' hlow hhigh
  rw [chord, (mem_group.mp (List.mem_of_getLast? hp)).2, (mem_group.mp (List.mem_of_mem_head? hq)).2] at hline
  exact hline

variable [IsStrictOrderedRing K]

theorem curve_between (hF : 0 < F) {k : K} {res : IvResult K}
    (h : ivAtStrike N surface tenor k (some F) (some T) = some res) :
    ∃ low high, IsLeast {v | ∃ label k', Placed N surface tenor F T label k' v} low ∧
      IsGreatest {v | ∃ label k', Placed N surface tenor F T label k' v} high ∧ low ≤ res.iv ∧ res.iv ≤ high := by
  have hne : points N (pillarsAt surface tenor) (some F) (some T) ≠ [] := by
    rw [← ivOnPoints_isSome (x := k), ← ivAtStrike_eq, h]
    rfl
  obtain ⟨low, high, hlow, hhigh⟩ := exists_bounds hne
  have hsame : {v | ∃ k, (k, v) ∈ points N (pillarsAt surface tenor) (some F) (some T)} =
      {v | ∃ label k', Placed N surface tenor F T label k' v} := by
    ext v
    simp only [Set.mem_ofPred_eq, mem_points_iff hF]
    exact exists_comm
  have hvalue : curve N surface tenor F T k ∈ Set.Icc low high := by
    refine curve_follows.mem hne Set.ordConnected_Icc (fun p hp => ?_) k
    exact ⟨hlow.2 ⟨p.1, hp⟩, hhigh.2 ⟨p.1, hp⟩⟩
  rw [curve_of_result h] at hvalue
  rw [hsame] at hlow hhigh
  exact ⟨low, high, hlow, hhigh, hvalue⟩

variable [TopologicalSpace K] [OrderTopology K]

theorem curve_continuousAt_iff (k : K) : ContinuousAt (curve N surface tenor F T) k ↔
    (ivsAt N surface tenor F T k).head? = (ivsAt N surface tenor F T k).getLast? := by
  rw [ivsAt_eq, List.head?_map, List.getLast?_map, curve_eq]
  by_cases hne : points N (pillarsAt surface tenor) (some F) (some T) = []
  · rw [hne]
    exact iff_of_true continuousAt_const rfl
  · have hs := ordered_points N (pillarsAt surface tenor) (some F) (some T)
    exact (follows_value hs).continuousAt_iff hs hne

theorem curve_continuous (hF : 0 < F) (hdistinct : ∀ label label' k v v', Placed N surface tenor F T label k v →
    Placed N surface tenor F T label' k v' → label = label') : Continuous (curve N surface tenor F T) := by
  rw [continuous_iff_continuousAt]
  intro k
  rw [curve_continuousAt_iff, ivsAt_eq]
  by_cases hnil : group (points N (pillarsAt surface tenor) (some F) (some T)) k = []
  · rw [hnil]
    rfl
  · obtain ⟨⟨k', v⟩, hp⟩ := List.exists_mem_of_ne_nil _ hnil
    obtain ⟨hmem, rfl⟩ := mem_group.mp hp
    obtain ⟨label, hplaced⟩ := (mem_points_iff hF).mp hmem
    rw [group_single hF hplaced fun label' v' h => hdistinct label' label k' v' v h hplaced]
    rfl

/-- `iv_at_strike` interpolates the placed pillars of the tenor. -/
theorem interpolates (N : Numerics K) (surface : Option (Surface τ K)) (tenor : τ) (T : K) (hF : 0 < F) :
    Interpolates N surface tenor F T where
  returns := curve_returns hF
  between _ _ := curve_between hF
  hits _ _ _ := curve_hits hF
  flatLeft _ _ := curve_flatLeft hF
  flatRight _ _ := curve_flatRight hF
  linear _ _ _ _ hv hv' hgap _ := curve_linear hF hv hv' hgap
  continuousAt_iff := curve_continuousAt_iff
  continuous := curve_continuous hF

end Interpolation

section Reals
variable {τ : Type*}

/-- The lookup in real arithmetic, for any square root, exponential and quantile -/
theorem smile_interpolates (N : Numerics ℝ) (surface : Option (Surface τ ℝ)) (tenor : τ) (F T : ℝ) (hF : 0 < F) :
    Interpolates N surface tenor F T :=
  interpolates N surface tenor T hF

/-- The functions of `math`; the quantile is not read where each pillar has a strike or is at the money. -/
noncomputable def realNumerics : Numerics ℝ := ⟨Real.sqrt, Real.exp, fun _ => 0⟩

/-- A put wing at its strike, and the pillar at the money without one -/
noncomputable def putWing : Surface Unit ℝ := fun _ => some fun
  | .dp25 => some ⟨some (8 / 100), some (21 / 20)⟩
  | .atm => some ⟨some (7 / 100), none⟩
  | _ => none

theorem smile_interpolates_putWing : Interpolates realNumerics (some putWing) () (11 / 10) 1 :=
  smile_interpolates realNumerics (some putWing) () (11 / 10) 1 (by norm_num)

/-- Two pillars at one strike, with volatilities of their own -/
noncomputable def twinPillars : Pillars ℝ
  | .dp25 => some ⟨some (8 / 100), some (11 / 10)⟩
  | .atm => some ⟨some (7 / 100), some (11 / 10)⟩
  | _ => none

noncomputable def twinStrikes : Surface Unit ℝ := fun _ => some twinPillars

theorem placed_twinPillars :
    placed realNumerics twinPillars (some (11 / 10)) (some 1) = [(11 / 10, 8 / 100), (11 / 10, 7 / 100)] := by
  have hput : pillarPoint realNumerics (some (11 / 10)) (some 1) .dp25 ⟨some (8 / 100), some (11 / 10)⟩ =
      some (11 / 10, 8 / 100) := (pillarPoint_iff (by norm_num)).mpr ⟨rfl, by norm_num, .inl ⟨rfl, by norm_num⟩⟩
  have hatm : pillarPoint realNumerics (some (11 / 10)) (some 1) .atm ⟨some (7 / 100), some (11 / 10)⟩ =
      some (11 / 10, 7 / 100) := (pillarPoint_iff (by norm_num)).mpr ⟨rfl, by norm_num, .inl ⟨rfl, by norm_num⟩⟩
  simp [placed, TradePreviews.DeltaPillar.all, twinPillars, hput, hatm]

theorem not_continuous_smile : ¬ Continuous (curve realNumerics (some twinStrikes) () (11 / 10) 1) := by
  intro h
  have hat := (curve_continuousAt_iff (11 / 10)).mp h.continuousAt
  have hivs : ivsAt realNumerics (some twinStrikes) () (11 / 10) 1 (11 / 10) = [8 / 100, 7 / 100] := by
    simp [ivsAt, twinStrikes, placed_twinPillars]
  rw [hivs] at hat
  norm_num at hat

end Reals

end FxVol.SmileLookup
