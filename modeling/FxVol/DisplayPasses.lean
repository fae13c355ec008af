import FxVol.AnchorGrid

/-!
# Passes over the display surface

`to_display_surface` re-keys a surface to the six display pillars.  The engine applies it to the surface that
it publishes, and the API again to the surface that it reads, so that a pillar which the first pass read off
its neighbours, or held flat, is an anchor of the second.
-/
namespace FxVol.DisplayPasses

open TradePreviews (Tenor DeltaPillar)
open GridFilling AnchorGrid
open ListedTenors (Source Anchor interpolatePillar interpStrikes listedToleranceDays extrapMarginDays)

/-- The computable order, which a search by instances does not find first -/
local instance labelDayOrder : Preorder ℤ := Int.instLinearOrder.toPartialOrder.toPreorder

/-- The labels of `LABEL_DTE`, and others -/
inductive Label | pillar (t : Tenor) | m9 | y1 | other (name : String)
  deriving DecidableEq

def labelDte : List (Label × ℤ) :=
  (Tenor.all.map fun t => (.pillar t, (t.dte : ℤ))) ++ [(.m9, 270), (.y1, 365)]

structure Cell where
  iv : Option ℚ
  strike : Option ℚ
  source : Option Source
  z : Option ℚ
  deriving DecidableEq

abbrev Row := DeltaPillar → Option Cell

/-- The rows of the labels, and the keys that start with `_` -/
structure Surface (μ : Type*) where
  rows : Label → Option Row
  metaKeys : μ

structure Numerics extends ListedTenors.Numerics where
  sqrt : ℚ → ℚ

variable {μ : Type*}

def Row.iv (row : Row) (d : DeltaPillar) : Option ℚ := (row d).bind (·.iv)

def Row.hasIv (row : Row) : Bool := DeltaPillar.all.any fun d => (row.iv d).isSome

/-- The row as an anchor has it; of an anchor only the IVs and the strikes are read. -/
def Row.anchor (row : Row) : ListedTenors.Row := fun d =>
  (row d).map fun c => ⟨c.iv, c.strike, c.source.getD .none⟩

def rawCells (s : Surface μ) : List (ℤ × Row) :=
  labelDte.filterMap fun e => (s.rows e.1).bind fun row => if row.hasIv then some (e.2, row) else none

def anchors (s : Surface μ) : List Anchor := (rawCells s).map fun e => ⟨e.1, e.2.anchor⟩

/-- A cell of a listed pillar; one that is interpolated stays so. -/
def Cell.listed (c : Cell) : Cell :=
  if c.source = some .interp then c else { c with source := some .listed }

/-- The cells of a pillar that no listed expiry is near -/
def interpolatedRow (N : Numerics) (s : Surface μ) (pillar : Tenor) : Option Row :=
  (interpolatePillar N.toNumerics (anchors s) pillar.dte).map fun (ivs, source) =>
    fun d => (ivs d).map fun iv =>
      ⟨some iv, interpStrikes N.toNumerics (anchors s) pillar.dte d, some source, none⟩

def displayRow (N : Numerics) (s : Surface μ) (pillar : Tenor) : Option Row :=
  match (rawCells s).argmin fun e => |e.1 - (pillar.dte : ℤ)| with
  | some nearest =>
    if |nearest.1 - (pillar.dte : ℤ)| ≤ listedToleranceDays then some fun d => (nearest.2 d).map Cell.listed
    else interpolatedRow N s pillar
  | none => interpolatedRow N s pillar

def gridIvs (display : Tenor → Option Row) : List ℚ :=
  Tenor.all.flatMap fun t => DeltaPillar.all.filterMap fun d => (display t).bind fun row => row.iv d

def Cell.score (mean std : ℚ) (c : Cell) : Cell :=
  match c.iv with
  | some iv => { c with z := some ((iv - mean) / std) }
  | none => c

/-- `_recompute_surface_z`; a flat grid keeps the scores it has. -/
def recomputeSurfaceZ (N : Numerics) (display : Tenor → Option Row) : Tenor → Option Row :=
  let ivs := gridIvs display
  let mean := ivs.sum / ivs.length
  let std := N.sqrt ((ivs.map fun x => (x - mean) ^ 2).sum / ivs.length)
  if ivs.length < 2 ∨ std ≤ 0 then display
  else fun t => (display t).map fun row d => (row d).map (Cell.score mean std)

def toDisplaySurface (N : Numerics) (s : Surface μ) : Surface μ where
  rows
    | .pillar t => recomputeSurfaceZ N (displayRow N s) t
    | _ => none
  metaKeys := s.metaKeys

def Surface.cell (s : Surface μ) (l : Label) (d : DeltaPillar) : Option Cell := (s.rows l).bind fun row => row d

def HasIv (s : Surface μ) (l : Label) : Prop := ∃ row, s.rows l = some row ∧ row.hasIv = true

/-- The label is one of `surface_listed_tenors`: it has an IV and no interpolated cell. -/
def ReallyListed (s : Surface μ) (l : Label) : Prop :=
  HasIv s l ∧ ∀ d c, s.cell l d = some c → c.source ≠ some .interp

/-- A second pass changes nothing, no pass shows a pillar further than the margin past the listed expiries, and
none lists a cell that is interpolated. -/
structure Sound (N : Numerics) (s : Surface μ) : Prop where
  idempotent : toDisplaySurface N (toDisplaySurface N s) = toDisplaySurface N s
  margin : ∀ n t, ((toDisplaySurface N)^[n + 1] s).rows (.pillar t) ≠ none →
    ∃ e ∈ labelDte, ReallyListed s e.1 ∧ (t.dte : ℤ) - e.2 ≤ extrapMarginDays
  kept : ∀ n l d c c', ((toDisplaySurface N)^[n] s).cell l d = some c → c.source = some .interp →
    ((toDisplaySurface N)^[n + 1] s).cell l d = some c' → c'.source ≠ some .listed

/-- The furthest display pillar with an IV -/
def Furthest (s : Surface μ) (t : Tenor) : Prop :=
  HasIv s (.pillar t) ∧ ∀ u, HasIv s (.pillar u) → u.dte ≤ t.dte

/-- The nearer of 9M and 1Y with an IV -/
def Beyond (s : Surface μ) (l : Label) : Prop :=
  (l = .m9 ∧ HasIv s .m9) ∨ (l = .y1 ∧ HasIv s .y1 ∧ ¬ HasIv s .m9)

/-- Two labels have an IV at one delta. -/
def Share (s : Surface μ) (l l' : Label) : Prop :=
  ∃ d, ((s.cell l d).bind (·.iv)).isSome ∧ ((s.cell l' d).bind (·.iv)).isSome

/-- No display pillar has an IV; or one of 5M, 6M, 9M and 1Y is really listed and, where 6M has none and 9M or
1Y has one, the furthest display pillar with an IV shares a delta with the nearer of these. -/
def ReachesEnd (s : Surface μ) : Prop :=
  (∀ t, ¬ HasIv s (.pillar t)) ∨
    ((∃ l, (l = .pillar .m5 ∨ l = .pillar .m6 ∨ l = .m9 ∨ l = .y1) ∧ ReallyListed s l) ∧
      ∀ t l, Furthest s t → t ≠ .m6 → Beyond s l → Share s (.pillar t) l)

section Rows
variable {N : Numerics} {s : Surface μ} {l l' : Label} {x y : ℤ} {t : Tenor} {row : Row} {d : DeltaPillar}

theorem mem_labelDte (t : Tenor) : (Label.pillar t, (t.dte : ℤ)) ∈ labelDte := by cases t <;> decide

theorem labelDte_sorted : labelDte.Pairwise fun e e' => e.2 < e'.2 := by decide

theorem label_unique (h : (l, x) ∈ labelDte) (h' : (l', x) ∈ labelDte) : l = l' := by
  have hnodup : (labelDte.map (·.2)).Nodup := by decide
  exact congrArg Prod.fst (List.inj_on_of_nodup_map hnodup h h' rfl)

/-- The days of a label that is near a pillar are those of the pillar. -/
theorem label_near (h : (l, x) ∈ labelDte) (hnear : |x - t.dte| ≤ listedToleranceDays) : l = .pillar t := by
  have hall : ∀ e ∈ labelDte, ∀ u ∈ Tenor.all, |e.2 - (u.dte : ℤ)| ≤ listedToleranceDays → e.1 = .pillar u := by
    decide
  have hmem : t ∈ Tenor.all := by cases t <;> decide
  exact hall _ h t hmem hnear

theorem Row.hasIv_iff : row.hasIv = true ↔ ∃ d, (row.iv d).isSome := by
  rw [Row.hasIv, List.any_eq_true]
  exact ⟨fun ⟨d, _, hd⟩ => ⟨d, hd⟩, fun ⟨d, hd⟩ => ⟨d, mem_all d, hd⟩⟩

theorem Row.anchor_iv (row : Row) (d : DeltaPillar) : row.anchor.iv d = row.iv d := by
  rw [ListedTenors.Row.iv, Row.iv]
  change ((row d).map _).bind _ = _
  cases row d <;> rfl

theorem mem_rawCells : (x, row) ∈ rawCells s ↔
    ∃ l, (l, x) ∈ labelDte ∧ s.rows l = some row ∧ row.hasIv = true := by
  rw [rawCells, List.mem_filterMap]
  constructor
  · rintro ⟨⟨l, x'⟩, hmem, h⟩
    obtain ⟨row', hrow, h⟩ := Option.bind_eq_some_iff.mp h
    split_ifs at h with hiv
    cases h
    exact ⟨l, hmem, hrow, hiv⟩
  · rintro ⟨l, hmem, hrow, hiv⟩
    exact ⟨(l, x), hmem, by rw [hrow, Option.bind_some, if_pos hiv]⟩

theorem ordered_anchors (s : Surface μ) : Ordered (anchors s) where
  sorted := by
    rw [anchors, List.pairwise_map]
    refine List.Pairwise.filterMap _ (fun e e' hlt b hb b' hb' => ?_) labelDte_sorted
    obtain ⟨r, -, hb⟩ := Option.bind_eq_some_iff.mp hb
    obtain ⟨r', -, hb'⟩ := Option.bind_eq_some_iff.mp hb'
    split_ifs at hb hb'
    cases hb
    cases hb'
    exact hlt
  hasIv a ha := by
    obtain ⟨⟨x, row⟩, he, rfl⟩ := List.mem_map.mp ha
    obtain ⟨l, -, -, hiv⟩ := mem_rawCells.mp he
    obtain ⟨d, hd⟩ := Row.hasIv_iff.mp hiv
    exact (hasIv_iff _).mpr ⟨d, by rw [Row.anchor_iv]; exact hd⟩

/-- The deltas with an IV at the days of each label -/
def support (s : Surface μ) : Grid ℤ DeltaPillar := anchorGrid (anchors s)

theorem support_iff (h : (l, x) ∈ labelDte) : d ∈ support s x ↔ ((s.cell l d).bind (·.iv)).isSome := by
  constructor
  · rintro ⟨a, ha, hx, hiv⟩
    obtain ⟨⟨x', row⟩, he, rfl⟩ := List.mem_map.mp ha
    obtain ⟨l', hmem, hrow, -⟩ := mem_rawCells.mp he
    have hx : x' = x := hx
    subst hx
    rw [label_unique h hmem, Surface.cell, hrow]
    rw [Row.anchor_iv] at hiv
    exact hiv
  · intro hd
    obtain ⟨v, hv⟩ := Option.isSome_iff_exists.mp hd
    obtain ⟨c, hc, hv⟩ := Option.bind_eq_some_iff.mp hv
    obtain ⟨row, hrow, hcell⟩ := Option.bind_eq_some_iff.mp hc
    have hiv : (row.iv d).isSome := by rw [Row.iv, hcell, Option.bind_some, hv]; rfl
    refine ⟨⟨x, row.anchor⟩, List.mem_map.mpr ⟨(x, row), mem_rawCells.mpr ⟨l, h, hrow, ?_⟩, rfl⟩, rfl, ?_⟩
    · exact Row.hasIv_iff.mpr ⟨d, hiv⟩
    · rw [Row.anchor_iv]
      exact hiv

theorem known_support : Known (support s) x ↔ ∃ l, (l, x) ∈ labelDte ∧ HasIv s l := by
  rw [support, (ordered_anchors s).known_iff]
  constructor
  · rintro ⟨a, ha, hx⟩
    obtain ⟨⟨x', row⟩, he, rfl⟩ := List.mem_map.mp ha
    obtain ⟨l, hmem, hrow, hiv⟩ := mem_rawCells.mp he
    exact ⟨l, hx ▸ hmem, row, hrow, hiv⟩
  · rintro ⟨l, hmem, row, hrow, hiv⟩
    exact ⟨⟨x, row.anchor⟩, List.mem_map.mpr ⟨(x, row), mem_rawCells.mpr ⟨l, hmem, hrow, hiv⟩, rfl⟩, rfl⟩

theorem known_label (h : (l, x) ∈ labelDte) : Known (support s) x ↔ HasIv s l := by
  rw [known_support]
  constructor
  · rintro ⟨l', hmem, hiv⟩
    rwa [label_unique h hmem]
  · exact fun hiv => ⟨l, h, hiv⟩

/-- A pillar with an IV of its own shows its own cells. -/
theorem displayRow_own (hrow : s.rows (.pillar t) = some row) (hiv : row.hasIv = true) :
    displayRow N s t = some fun d => (row d).map Cell.listed := by
  have hmem : ((t.dte : ℤ), row) ∈ rawCells s := mem_rawCells.mpr ⟨_, mem_labelDte t, hrow, hiv⟩
  rw [displayRow]
  cases hnearest : (rawCells s).argmin fun e => |e.1 - (t.dte : ℤ)| with
  | none =>
    rw [List.argmin_eq_none.mp hnearest] at hmem
    cases hmem
  | some nearest =>
    have hle : |nearest.1 - (t.dte : ℤ)| ≤ |(t.dte : ℤ) - t.dte| :=
      List.le_of_mem_argmin (f := fun e : ℤ × Row => |e.1 - (t.dte : ℤ)|) hmem hnearest
    rw [sub_self, abs_zero] at hle
    have hnear : |nearest.1 - (t.dte : ℤ)| ≤ listedToleranceDays := hle.trans (by decide)
    obtain ⟨l, hlabel, hrow', -⟩ := mem_rawCells.mp (List.argmin_mem hnearest)
    rw [label_near hlabel hnear, hrow] at hrow'
    dsimp only
    rw [if_pos hnear, Option.some.inj hrow']

theorem far_of_absent (h : ¬ HasIv s (.pillar t)) : ∀ e ∈ rawCells s, ¬ |e.1 - (t.dte : ℤ)| ≤ listedToleranceDays := by
  rintro ⟨x, row⟩ he hnear
  obtain ⟨l, hlabel, hrow, hiv⟩ := mem_rawCells.mp he
  rw [label_near hlabel hnear] at hrow
  exact h ⟨row, hrow, hiv⟩

theorem anchors_far (h : ¬ HasIv s (.pillar t)) :
    ∀ a ∈ anchors s, ¬ |a.dte - (t.dte : ℤ)| ≤ listedToleranceDays := by
  intro a ha
  obtain ⟨e, he, rfl⟩ := List.mem_map.mp ha
  exact far_of_absent h e he

/-- A pillar without one is read off the anchors. -/
theorem displayRow_absent (h : ¬ HasIv s (.pillar t)) : displayRow N s t = interpolatedRow N s t := by
  rw [displayRow]
  cases hnearest : (rawCells s).argmin fun e => |e.1 - (t.dte : ℤ)| with
  | none => rfl
  | some nearest =>
    dsimp only
    rw [if_neg (far_of_absent h nearest (List.argmin_mem hnearest))]

theorem interpolatedRow_iv (hrow : interpolatedRow N s t = some row) :
    ∃ p, interpolatePillar N.toNumerics (anchors s) t.dte = some p ∧ ∀ d, row.iv d = p.1 d := by
  obtain ⟨⟨ivs, source⟩, hp, rfl⟩ := Option.map_eq_some_iff.mp hrow
  refine ⟨_, hp, fun d => ?_⟩
  rw [Row.iv]
  dsimp only
  cases ivs d <;> rfl

theorem interpolatedRow_source (hrow : interpolatedRow N s t = some row) (h : ¬ HasIv s (.pillar t)) {c : Cell}
    (hc : row d = some c) : c.source = some .interp := by
  obtain ⟨⟨ivs, source⟩, hp, rfl⟩ := Option.map_eq_some_iff.mp hrow
  obtain ⟨iv, -, rfl⟩ := Option.map_eq_some_iff.mp hc
  exact congrArg some (ListedTenors.Scan.interpolatePillar_source hp (anchors_far h))

theorem Cell.listed_iv (c : Cell) : c.listed.iv = c.iv := by
  rw [Cell.listed]
  split_ifs <;> rfl

theorem Cell.listed_source (c : Cell) : c.listed.source = some .interp ∨ c.listed.source = some .listed := by
  rw [Cell.listed]
  split_ifs with h
  · exact .inl h
  · exact .inr rfl

theorem Cell.listed_of_source {c : Cell} (h : c.source = some .interp ∨ c.source = some .listed) : c.listed = c := by
  rw [Cell.listed]
  rcases h with h | h
  · rw [if_pos h]
  · rw [if_neg (by rw [h]; decide), ← h]

theorem row_map_iv {g : Cell → Cell} (hg : ∀ c, (g c).iv = c.iv) (row : Row) (d : DeltaPillar) :
    Row.iv (fun d => (row d).map g) d = row.iv d := by
  rw [Row.iv, Row.iv]
  cases row d with
  | none => rfl
  | some c => exact hg c

/-- The cells of a row that is shown are tagged. -/
theorem displayRow_source (hrow : displayRow N s t = some row) {c : Cell} (hc : row d = some c) :
    c.source = some .interp ∨ c.source = some .listed := by
  by_cases h : HasIv s (.pillar t)
  · obtain ⟨own, hown, hiv⟩ := h
    rw [displayRow_own hown hiv] at hrow
    cases hrow
    obtain ⟨c', -, rfl⟩ := Option.map_eq_some_iff.mp hc
    exact c'.listed_source
  · rw [displayRow_absent h] at hrow
    exact .inl (interpolatedRow_source hrow h hc)

/-- The deltas that a pillar shows are those of a pass over the grid. -/
theorem displayRow_reads :
    Reads extrapMarginDays (support s) t.dte d ↔ ∃ row, displayRow N s t = some row ∧ (row.iv d).isSome := by
  by_cases h : HasIv s (.pillar t)
  · have hknown : Known (support s) t.dte := (known_label (mem_labelDte t)).mpr h
    obtain ⟨row, hrow, hiv⟩ := h
    rw [reads_of_known hknown, support_iff (mem_labelDte t), displayRow_own hrow hiv, Surface.cell, hrow]
    have hsame := row_map_iv Cell.listed_iv row d
    constructor
    · exact fun hd => ⟨_, rfl, by rw [hsame]; exact hd⟩
    · rintro ⟨row', hrow', hd⟩
      rw [← Option.some.inj hrow', hsame] at hd
      exact hd
  · rw [displayRow_absent h, support, (ordered_anchors s).interpolatePillar_reads (N := N.toNumerics) (anchors_far h)]
    constructor
    · rintro ⟨p, hp, hd⟩
      obtain ⟨row, hrow⟩ : ∃ row, interpolatedRow N s t = some row := ⟨_, by rw [interpolatedRow, hp]; rfl⟩
      obtain ⟨p', hp', hiv⟩ := interpolatedRow_iv hrow
      rw [hp] at hp'
      cases hp'
      exact ⟨row, hrow, by rw [hiv]; exact hd⟩
    · rintro ⟨row, hrow, hd⟩
      obtain ⟨p, hp, hiv⟩ := interpolatedRow_iv hrow
      exact ⟨p, hp, by rw [← hiv]; exact hd⟩

theorem displayRow_hasIv (hrow : displayRow N s t = some row) : row.hasIv = true := by
  by_cases h : HasIv s (.pillar t)
  · obtain ⟨own, hown, hiv⟩ := h
    rw [displayRow_own hown hiv] at hrow
    cases hrow
    obtain ⟨d, hd⟩ := Row.hasIv_iff.mp hiv
    exact Row.hasIv_iff.mpr ⟨d, by rw [row_map_iv Cell.listed_iv]; exact hd⟩
  · rw [displayRow_absent h] at hrow
    obtain ⟨p, hp, hiv⟩ := interpolatedRow_iv hrow
    obtain ⟨d, hd⟩ := (ordered_anchors s).interpolatePillar_hasIv (anchors_far h) hp
    exact Row.hasIv_iff.mpr ⟨d, by rw [hiv]; exact hd⟩

end Rows

section Scores
variable {N : Numerics} {display : Tenor → Option Row} {s : Surface μ} {t : Tenor} {d : DeltaPillar} {c : Cell}

theorem Cell.score_iv (mean std : ℚ) (c : Cell) : (c.score mean std).iv = c.iv := by
  rw [Cell.score]
  cases h : c.iv with
  | none => exact h
  | some iv => rfl

theorem Cell.score_source (mean std : ℚ) (c : Cell) : (c.score mean std).source = c.source := by
  rw [Cell.score]
  cases c.iv <;> rfl

theorem Cell.score_score (mean std : ℚ) (c : Cell) : (c.score mean std).score mean std = c.score mean std := by
  cases h : c.iv with
  | none => rw [show c.score mean std = c by rw [Cell.score, h], Cell.score, h]
  | some iv => simp only [Cell.score, h]

/-- The scores are given to each cell by a function of the cell. -/
theorem recompute_cells (N : Numerics) (display : Tenor → Option Row) :
    ∃ g : Cell → Cell, (∀ c, (g c).iv = c.iv ∧ (g c).source = c.source) ∧
      ∀ t, recomputeSurfaceZ N display t = (display t).map fun row d => (row d).map g := by
  rw [recomputeSurfaceZ]
  split_ifs
  · refine ⟨id, fun c => ⟨rfl, rfl⟩, fun t => ?_⟩
    simp only [Option.map_id]
    exact Option.map_id'.symm
  · exact ⟨_, fun c => ⟨c.score_iv _ _, c.score_source _ _⟩, fun t => rfl⟩

theorem gridIvs_recompute (N : Numerics) (display : Tenor → Option Row) :
    gridIvs (recomputeSurfaceZ N display) = gridIvs display := by
  obtain ⟨g, hg, hrows⟩ := recompute_cells N display
  have hcells : ∀ t d, ((recomputeSurfaceZ N display t).bind fun row => row.iv d) =
      (display t).bind fun row => row.iv d := by
    intro t d
    rw [hrows]
    cases display t with
    | none => rfl
    | some row => exact row_map_iv (fun c => (hg c).1) row d
  simp only [gridIvs, hcells]

/-- Scores of the same grid are those that are there. -/
theorem recompute_recompute (N : Numerics) (display : Tenor → Option Row) :
    recomputeSurfaceZ N (recomputeSurfaceZ N display) = recomputeSurfaceZ N display := by
  have hivs := gridIvs_recompute N display
  rw [recomputeSurfaceZ]
  rw [hivs]
  split_ifs with hflat
  · rfl
  · funext t
    simp only [recomputeSurfaceZ, if_neg hflat]
    cases display t with
    | none => rfl
    | some row =>
      simp only [Option.map_some, Option.map_map]
      congr 1
      funext d
      cases row d with
      | none => rfl
      | some c => exact congrArg some (c.score_score _ _)

theorem display_iv : (((toDisplaySurface N s).cell (.pillar t) d).bind (·.iv)).isSome ↔
    ∃ row, displayRow N s t = some row ∧ (row.iv d).isSome := by
  obtain ⟨g, hg, hrows⟩ := recompute_cells N (displayRow N s)
  change (((recomputeSurfaceZ N (displayRow N s) t).bind fun row => row d).bind (·.iv)).isSome ↔ _
  rw [hrows]
  cases displayRow N s t with
  | none => simp
  | some row =>
    have hiv := row_map_iv (fun c => (hg c).1) row d
    rw [Row.iv] at hiv
    simp only [Option.map_some, Option.bind_some, hiv, Option.some.injEq, exists_eq_left']

theorem display_hasIv {row : Row} (hrow : (toDisplaySurface N s).rows (.pillar t) = some row) : row.hasIv = true := by
  obtain ⟨g, hg, hrows⟩ := recompute_cells N (displayRow N s)
  change recomputeSurfaceZ N (displayRow N s) t = some row at hrow
  rw [hrows] at hrow
  obtain ⟨shown, hshown, rfl⟩ := Option.map_eq_some_iff.mp hrow
  obtain ⟨d, hd⟩ := Row.hasIv_iff.mp (displayRow_hasIv hshown)
  exact Row.hasIv_iff.mpr ⟨d, by rw [row_map_iv (fun c => (hg c).1)]; exact hd⟩

theorem display_source {row : Row} (hrow : (toDisplaySurface N s).rows (.pillar t) = some row) (hc : row d = some c) :
    c.source = some .interp ∨ c.source = some .listed := by
  obtain ⟨g, hg, hrows⟩ := recompute_cells N (displayRow N s)
  change recomputeSurfaceZ N (displayRow N s) t = some row at hrow
  rw [hrows] at hrow
  obtain ⟨shown, hshown, rfl⟩ := Option.map_eq_some_iff.mp hrow
  obtain ⟨c', hc', rfl⟩ := Option.map_eq_some_iff.mp hc
  rw [(hg c').2]
  exact displayRow_source hshown hc'

end Scores

section Passes
variable {N : Numerics} {s : Surface μ} {t : Tenor} {d : DeltaPillar} {x : ℤ} {l : Label}

theorem pillar_days (h : (Label.pillar t, x) ∈ labelDte) : x = t.dte := by
  cases t <;> simpa [labelDte, Tenor.all, Tenor.dte] using h

theorem display_support (N : Numerics) (s : Surface μ) :
    support (toDisplaySurface N s) = pass extrapMarginDays targets (support s) := by
  ext x d
  constructor
  · intro hd
    obtain ⟨l, hl, row, hrow, -⟩ := known_support.mp ⟨d, hd⟩
    cases l with
    | pillar t =>
      have hx : x = t.dte := pillar_days hl
      subst hx
      exact ⟨⟨t, rfl⟩, displayRow_reads.mpr (display_iv.mp ((support_iff hl).mp hd))⟩
    | m9 => cases hrow
    | y1 => cases hrow
    | other name => cases hrow
  · rintro ⟨⟨t, rfl⟩, hd⟩
    exact (support_iff (mem_labelDte t)).mpr (display_iv.mpr (displayRow_reads.mp hd))

/-- A second pass changes nothing just where it fills nothing. -/
theorem idempotent_iff (N : Numerics) (s : Surface μ) :
    toDisplaySurface N (toDisplaySurface N s) = toDisplaySurface N s ↔
      ∀ t : Tenor, Known (support (toDisplaySurface N (toDisplaySurface N s))) t.dte →
        Known (support (toDisplaySurface N s)) t.dte := by
  constructor
  · intro h t ht
    rwa [h] at ht
  · intro h
    have hrows : ∀ t, displayRow N (toDisplaySurface N s) t = (toDisplaySurface N s).rows (.pillar t) := by
      intro t
      cases hrow : (toDisplaySurface N s).rows (.pillar t) with
      | some row =>
        rw [displayRow_own hrow (display_hasIv hrow)]
        congr 1
        funext d
        cases hc : row d with
        | none => rfl
        | some c => exact congrArg some (Cell.listed_of_source (display_source hrow hc))
      | none =>
        cases hshown : displayRow N (toDisplaySurface N s) t with
        | none => rfl
        | some row =>
          obtain ⟨d, hd⟩ := Row.hasIv_iff.mp (displayRow_hasIv hshown)
          have hknown : Known (support (toDisplaySurface N (toDisplaySurface N s))) t.dte :=
            ⟨d, (support_iff (mem_labelDte t)).mpr (display_iv.mpr ⟨row, hshown, hd⟩)⟩
          obtain ⟨row', hrow', -⟩ := (known_label (mem_labelDte t)).mp (h t hknown)
          rw [hrow] at hrow'
          cases hrow'
    have hz : recomputeSurfaceZ N (displayRow N (toDisplaySurface N s)) = recomputeSurfaceZ N (displayRow N s) := by
      rw [funext hrows]
      exact recompute_recompute N (displayRow N s)
    simp only [toDisplaySurface] at hz ⊢
    congr 1
    funext l
    cases l with
    | pillar t => exact congrFun hz t
    | m9 => rfl
    | y1 => rfl
    | other name => rfl

end Passes

section Soundness
variable {N : Numerics} {s : Surface μ} {t : Tenor} {d : DeltaPillar} {l : Label} {x : ℤ}

theorem monthly_support (s : Surface μ) : Monthly (support s) := by
  intro b hb
  obtain ⟨l, hl, row, hrow, -⟩ := known_support.mp hb
  cases l with
  | pillar t => exact .inl ⟨t, (pillar_days hl).symm⟩
  | m9 => exact .inr (.inl (by simpa [labelDte, Tenor.all] using hl))
  | y1 => exact .inr (.inr (by simpa [labelDte, Tenor.all] using hl))
  | other name => simp [labelDte, Tenor.all] at hl

/-- A second pass changes nothing where no pillar is severed and the labels are not short. -/
theorem idempotent_iff_months (N : Numerics) (s : Surface μ) :
    toDisplaySurface N (toDisplaySurface N s) = toDisplaySurface N s ↔
      (∀ L, ¬ Severed (support s) L) ∧ ∀ L, ¬ Short (support s) L := by
  rw [idempotent_iff, ← not_exists, ← not_exists, ← not_or, ← fills_iff (monthly_support s), not_exists]
  simp only [display_support]
  constructor
  · rintro h x ⟨habsent, hfilled⟩
    obtain ⟨t, rfl⟩ := (known_pass.mp hfilled).1
    exact habsent (h t hfilled)
  · intro h t hfilled
    by_contra habsent
    exact h t.dte ⟨habsent, hfilled⟩

/-- A pass lists no cell that is interpolated. -/
theorem kept_interp {c c' : Cell} (hc : s.cell l d = some c) (hinterp : c.source = some .interp)
    (hc' : (toDisplaySurface N s).cell l d = some c') : c'.source ≠ some .listed := by
  obtain ⟨row', hrow', hcell'⟩ := Option.bind_eq_some_iff.mp hc'
  cases l with
  | pillar t =>
    obtain ⟨g, hg, hrows⟩ := recompute_cells N (displayRow N s)
    change recomputeSurfaceZ N (displayRow N s) t = some row' at hrow'
    rw [hrows] at hrow'
    obtain ⟨shown, hshown, rfl⟩ := Option.map_eq_some_iff.mp hrow'
    obtain ⟨b, hb, rfl⟩ := Option.map_eq_some_iff.mp hcell'
    rw [(hg b).2]
    have hb' : b.source = some .interp := by
      by_cases h : HasIv s (.pillar t)
      · obtain ⟨row, hrow, hiv⟩ := h
        rw [Surface.cell, hrow, Option.bind_some] at hc
        rw [displayRow_own hrow hiv] at hshown
        cases hshown
        obtain ⟨own, hown, rfl⟩ := Option.map_eq_some_iff.mp hb
        rw [hc] at hown
        cases hown
        rw [Cell.listed, if_pos hinterp]
        exact hinterp
      · rw [displayRow_absent h] at hshown
        exact interpolatedRow_source hshown h hb
    rw [hb']
    decide
  | m9 => cases hrow'
  | y1 => cases hrow'
  | other name => cases hrow'

theorem shown_iff : (toDisplaySurface N s).rows (.pillar t) ≠ none ↔
    Known (pass extrapMarginDays targets (support s)) t.dte := by
  rw [← display_support N s, known_label (mem_labelDte t)]
  constructor
  · intro h
    obtain ⟨row, hrow⟩ := Option.ne_none_iff_exists'.mp h
    exact ⟨row, hrow, display_hasIv hrow⟩
  · rintro ⟨row, hrow, -⟩
    rw [hrow]
    exact Option.some_ne_none row

theorem unknown_targets (hnone : ∀ t, ¬ HasIv s (.pillar t)) : ∀ b ∈ targets, ¬ Known (support s) b := by
  rintro _ ⟨t, rfl⟩ hknown
  exact hnone t ((known_label (mem_labelDte t)).mp hknown)

/-- Without an IV at a display pillar nothing is shown. -/
theorem not_shown (hnone : ∀ t, ¬ HasIv s (.pillar t)) (x : ℤ) :
    ¬ Known (pass extrapMarginDays targets (support s)) x := by
  intro hshown
  obtain ⟨hx, d, hd⟩ := known_pass.mp hshown
  have hdown := (monthly_support s).downward x hx
  cases hd with
  | own hd => exact unknown_targets hnone x hx ⟨d, hd⟩
  | between _ lower => exact unknown_targets hnone _ (hdown _ lower.known lower.lt.le) lower.known
  | flat _ lower => exact unknown_targets hnone _ (hdown _ lower.known lower.lt.le) lower.known

theorem share_iff {y : ℤ} {l' : Label} (h : (l, x) ∈ labelDte) (h' : (l', y) ∈ labelDte) :
    Share s l l' ↔ ¬ Disjoint (support s x) (support s y) := by
  rw [Set.not_disjoint_iff]
  constructor
  · rintro ⟨d, hd, hd'⟩
    exact ⟨d, (support_iff h).mpr hd, (support_iff h').mpr hd'⟩
  · rintro ⟨d, hd, hd'⟩
    exact ⟨d, (support_iff h).mp hd, (support_iff h').mp hd'⟩

theorem furthest_iff : Furthest s t ↔
    Known (support s) t.dte ∧ ∀ b ∈ targets, Known (support s) b → b ≤ t.dte := by
  rw [Furthest, known_label (mem_labelDte t)]
  refine and_congr_right fun _ => ?_
  constructor
  · rintro h _ ⟨u, rfl⟩ hknown
    exact Int.ofNat_le.mpr (h u ((known_label (mem_labelDte u)).mp hknown))
  · intro h u hu
    exact Int.ofNat_le.mp (h u.dte ⟨u, rfl⟩ ((known_label (mem_labelDte u)).mpr hu))

/-- The label past the furthest display pillar is the nearer of 9M and 1Y. -/
theorem beyond_iff (hfar : ∀ b ∈ targets, Known (support s) b → b ≤ t.dte) :
    Beyond s l ↔ ∃ x, (l, x) ∈ labelDte ∧ Upper (support s) t.dte x := by
  have h9 : (Label.m9, (270 : ℤ)) ∈ labelDte := by decide
  have h1 : (Label.y1, (365 : ℤ)) ∈ labelDte := by decide
  have ht : (t.dte : ℤ) ≤ 180 := (mem_targets.mp ⟨t, rfl⟩).2.2
  constructor
  · rintro (⟨rfl, hiv⟩ | ⟨rfl, hiv, hno⟩)
    · refine ⟨270, h9, (known_label h9).mpr hiv, by omega, fun b hb hlt => ?_⟩
      rcases monthly_support s b hb with htar | rfl | rfl
      · exact absurd (hfar b htar hb) (not_le.mpr hlt)
      · exact le_rfl
      · decide
    · refine ⟨365, h1, (known_label h1).mpr hiv, by omega, fun b hb hlt => ?_⟩
      rcases monthly_support s b hb with htar | rfl | rfl
      · exact absurd (hfar b htar hb) (not_le.mpr hlt)
      · exact absurd ((known_label h9).mp hb) hno
      · exact le_rfl
  · rintro ⟨x, hx, hupper⟩
    cases l with
    | pillar u =>
      obtain rfl := pillar_days hx
      exact absurd (hfar u.dte ⟨u, rfl⟩ hupper.known) (not_le.mpr hupper.lt)
    | m9 => exact .inl ⟨rfl, (known_label hx).mp hupper.known⟩
    | y1 =>
      refine .inr ⟨rfl, (known_label hx).mp hupper.known, fun hiv => ?_⟩
      have hle := hupper.le 270 ((known_label h9).mpr hiv) (by omega)
      have hx' : x = 365 := by simpa [labelDte, Tenor.all] using hx
      omega
    | other name => simp [labelDte, Tenor.all] at hx

theorem severed_iff : (∃ L, Severed (support s) L) ↔
    ∃ t l, Furthest s t ∧ t ≠ .m6 ∧ Beyond s l ∧ ¬ Share s (.pillar t) l := by
  constructor
  · rintro ⟨_, ⟨t, rfl⟩, hearly, hknown, hlast, h, hupper, hdisjoint⟩
    obtain ⟨l, hl, -⟩ := known_support.mp hupper.known
    refine ⟨t, l, furthest_iff.mpr ⟨hknown, hlast⟩, ?_, (beyond_iff hlast).mpr ⟨h, hl, hupper⟩, ?_⟩
    · rintro rfl
      exact absurd hearly (by decide)
    · rw [share_iff (mem_labelDte t) hl, not_not]
      exact hdisjoint
  · rintro ⟨t, l, hfar, hne, hbeyond, hshare⟩
    obtain ⟨hknown, hlast⟩ := furthest_iff.mp hfar
    obtain ⟨x, hx, hupper⟩ := (beyond_iff hlast).mp hbeyond
    have hearly : (t.dte : ℤ) ≤ 150 := by cases t <;> first | decide | exact absurd rfl hne
    rw [share_iff (mem_labelDte t) hx, not_not] at hshare
    exact ⟨t.dte, ⟨t, rfl⟩, hearly, hknown, hlast, x, hupper, hshare⟩

/-- Without an IV at a display pillar a second pass has nothing to fill. -/
theorem no_targets (hnone : ∀ t, ¬ HasIv s (.pillar t)) :
    (∀ L, ¬ Severed (support s) L) ∧ ∀ L, ¬ Short (support s) L := by
  constructor
  · intro L hL
    exact unknown_targets hnone L hL.1 hL.2.2.1
  · intro L hL
    have hearly := hL.1
    exact unknown_targets hnone L ((monthly_support s L hL.2.1).resolve_right (by omega)) hL.2.1

theorem late_days (hl : l = .pillar .m5 ∨ l = .pillar .m6 ∨ l = .m9 ∨ l = .y1) :
    ∃ x, (l, x) ∈ labelDte ∧ 150 ≤ x := by
  rcases hl with rfl | rfl | rfl | rfl
  · exact ⟨150, by decide, le_rfl⟩
  · exact ⟨180, by decide, by omega⟩
  · exact ⟨270, by decide, by omega⟩
  · exact ⟨365, by decide, by omega⟩

/-- A label within the margin of 6M is one of the last four. -/
theorem late_label {e : Label × ℤ} (he : e ∈ labelDte) :
    180 - e.2 ≤ extrapMarginDays ↔ e.1 = .pillar .m5 ∨ e.1 = .pillar .m6 ∨ e.1 = .m9 ∨ e.1 = .y1 := by
  have hall : ∀ e ∈ labelDte,
      (180 - e.2 ≤ extrapMarginDays ↔ e.1 = .pillar .m5 ∨ e.1 = .pillar .m6 ∨ e.1 = .m9 ∨ e.1 = .y1) := by decide
  exact hall e he

theorem passes_sound_iff (N : Numerics) (s : Surface μ) : Sound N s ↔ ReachesEnd s := by
  constructor
  · intro h
    obtain ⟨hsevered, hshort⟩ := (idempotent_iff_months N s).mp h.idempotent
    by_cases hnone : ∀ t, ¬ HasIv s (.pillar t)
    · exact .inl hnone
    · right
      simp only [not_forall, not_not] at hnone
      obtain ⟨t, ht⟩ := hnone
      constructor
      · have hlast := last_shown (monthly_support s) ⟨t.dte, ⟨t, rfl⟩, (known_label (mem_labelDte t)).mpr ht⟩
          hsevered hshort
        obtain ⟨e, he, hlisted, hmargin⟩ := h.margin 0 .m6 (shown_iff.mpr hlast)
        exact ⟨e.1, (late_label he).mp hmargin, hlisted⟩
      · intro u l hfar hne hbeyond
        by_contra hshare
        obtain ⟨L, hL⟩ := severed_iff.mpr ⟨u, l, hfar, hne, hbeyond, hshare⟩
        exact hsevered L hL
  · intro h
    have hidempotent : toDisplaySurface N (toDisplaySurface N s) = toDisplaySurface N s := by
      rw [idempotent_iff_months]
      rcases h with hnone | ⟨⟨l, hl, hlisted⟩, hshare⟩
      · exact no_targets hnone
      · constructor
        · intro L hL
          obtain ⟨t, l', hfar, hne, hbeyond, hno⟩ := severed_iff.mp ⟨L, hL⟩
          exact hno (hshare t l' hfar hne hbeyond)
        · intro L hL
          obtain ⟨x, hx, hlate⟩ := late_days hl
          have hle := hL.2.2 x ((known_label hx).mpr hlisted.1)
          have hearly := hL.1
          omega
    constructor
    · exact hidempotent
    · intro n t hshown
      rw [Function.iterate_succ_apply, Function.iterate_fixed hidempotent] at hshown
      rcases h with hnone | ⟨⟨l, hl, hlisted⟩, -⟩
      · exact absurd (shown_iff.mp hshown) (not_shown hnone _)
      · obtain ⟨x, hx, hlate⟩ := late_days hl
        have ht : (t.dte : ℤ) ≤ 180 := (mem_targets.mp ⟨t, rfl⟩).2.2
        refine ⟨(l, x), hx, hlisted, ?_⟩
        rw [extrapMarginDays]
        omega
    · intro n l d c c' hc hinterp hc'
      rw [Function.iterate_succ_apply'] at hc'
      exact kept_interp hc hinterp hc'

end Soundness

/-- A smile at 3M only -/
def loneExpiry : Surface Unit where
  rows
    | .pillar .m3 => some fun _ => some ⟨some (7 / 100), some (11 / 10), some .pchip, none⟩
    | _ => none
  metaKeys := ()

/-- On a flat grid the scores are not recomputed. -/
def flatNumerics : Numerics := { ListedTenors.flatSmile with sqrt := id }

example : (Tenor.all.filter fun t => (((toDisplaySurface flatNumerics)^[3] loneExpiry).rows (.pillar t)).isSome) =
    [.m3, .m4, .m5, .m6] := by decide +kernel

theorem not_passes_sound : ¬ Sound flatNumerics loneExpiry := by
  intro h
  have hrow := congrArg (fun s : Surface Unit => (s.rows (.pillar .m5)).isSome) h.idempotent
  revert hrow
  decide +kernel

end FxVol.DisplayPasses
