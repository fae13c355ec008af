import FxVol.GroupedRows
import FxVol.KnownSums
import FxVol.PnlAttributions

/-!
# The attribution pivot

`attribution_groups` of `core.risk.attribution` sums the terms of the positions under each label and takes the residual of
a group from its sums.  A group in which some positions lack terms that others have takes the missing terms into its
residual.
-/
namespace FxVol.AttributionPivot

open KnownSums PnlAttributions RiskSnapshots

/-- `ATTRIB_GROUP_KEYS` -/
inductive GroupBy | tenor | «structure» | wing
  deriving DecidableEq

/-- `ATTRIB_SUM_COLS` -/
inductive SumCol | actual | delta | gamma | vega | theta
  deriving DecidableEq

def attribTerms : List SumCol := [.delta, .gamma, .vega, .theta]

/-- `_TERM_KEYS` -/
inductive TermKey
  | col (c : SumCol)
  | residual
  deriving DecidableEq

/-- A row of `per_position` -/
structure PositionRow where
  source : Source
  attribTenor : Option String
  structureType : Option String
  wing : Option String
  terms : Decomposition

def column (d : Decomposition) : SumCol → Option ℚ
  | .actual => d.actualPnlUsd
  | .delta => d.deltaPnlUsd
  | .gamma => d.gammaPnlUsd
  | .vega => d.vegaPnlUsd
  | .theta => d.thetaPnlUsd

def PositionRow.col (r : PositionRow) (c : SumCol) : Option ℚ := column r.terms c

def PositionRow.key (r : PositionRow) : TermKey → Option ℚ
  | .col c => r.col c
  | .residual => r.terms.residualUsd

def PositionRow.keyCol (r : PositionRow) : GroupBy → Option String
  | .tenor => r.attribTenor
  | .structure => r.structureType
  | .wing => r.wing

/-- `label`, the catch-all for an empty one too -/
def PositionRow.label (groupBy : GroupBy) (r : PositionRow) : String :=
  match r.keyCol groupBy with
  | some label => if label = "" then "other" else label
  | none => "other"

/-- `buckets[label]` -/
structure Bucket where
  label : String
  sums : SumCol → Option ℚ

def Bucket.add (b : Bucket) (r : PositionRow) : Bucket :=
  { b with sums := fun c => (r.col c).elim (b.sums c) fun x => some ((b.sums c).getD 0 + x) }

def bucketing (groupBy : GroupBy) : GroupedRows.Grouping PositionRow Bucket String where
  key := PositionRow.label groupBy
  keyOf := Bucket.label
  start r := Bucket.add ⟨r.label groupBy, fun _ => none⟩ r
  extend := Bucket.add
  start_key _ := rfl
  extend_key _ _ := rfl

def buckets (groupBy : GroupBy) (rows : List PositionRow) : List Bucket := rows.foldl (bucketing groupBy).addTo []

structure Group where
  label : String
  cols : SumCol → Option ℚ
  residualUsd : Option ℚ

def Group.key (g : Group) : TermKey → Option ℚ
  | .col c => g.cols c
  | .residual => g.residualUsd

/-- `residual`: none where the actual or a term is -/
def residual (sums : SumCol → Option ℚ) : Option ℚ :=
  if (sums .actual).isSome ∧ ∀ t ∈ attribTerms, (sums t).isSome then
    some ((sums .actual).getD 0 - (attribTerms.map fun t => (sums t).getD 0).sum)
  else none

/-- `_mk` -/
def Bucket.group (ρ : Rounding) (b : Bucket) : Group where
  label := b.label
  cols c := (b.sums c).map fun x => ρ.round x 2
  residualUsd := (residual b.sums).map fun x => ρ.round x 2

/-- `ATTRIB_TENOR_LADDER` -/
def tenorLadder : List String := ["1M", "2M", "3M", "4M", "5M", "6M"]

/-- `ATTRIB_WING_ORDER` -/
def wingOrder : List String := ["Put wing", "Body (ATM)", "Call wing", "Future / delta-1", "other"]

/-- `buckets[label]`, of a label that is there -/
def bucketOf (bs : List Bucket) (label : String) : Bucket := (bs.find? fun b => b.label = label).getD ⟨label, fun _ => none⟩

/-- `head`; the structures are ranked by the size of their P&L. -/
def head (groupBy : GroupBy) (bs : List Bucket) : List String :=
  match groupBy with
  | .tenor => tenorLadder.filter fun t => t ∈ bs.map (·.label)
  | .wing => wingOrder.filter fun w => w ∈ bs.map (·.label)
  | .structure => (bs.map (·.label)).insertionSort fun g g' =>
      |((bucketOf bs g').sums .actual).getD 0| ≤ |((bucketOf bs g).sums .actual).getD 0|

def order (groupBy : GroupBy) (bs : List Bucket) : List String :=
  head groupBy bs ++ ((bs.map (·.label)).filter fun g => g ∉ head groupBy bs).insertionSort (· ≤ ·)

def attributionGroups (ρ : Rounding) (rows : List PositionRow) (groupBy : GroupBy) : List Group × (TermKey → Option ℚ) :=
  let bs := buckets groupBy rows
  let groups := (order groupBy bs).map fun label => (bucketOf bs label).group ρ
  (groups, fun k => (knownSum (groups.map fun g => g.key k)).map fun x => ρ.round x 2)

def attributionTotals (ρ : Rounding) (rows : List PositionRow) (k : TermKey) : Option ℚ :=
  (knownSum (rows.map fun r => r.key k)).map fun x => ρ.round x 2

/-- `filter_source`; without a source all rows are kept. -/
def filterSource (rows : List PositionRow) (source : Option Source) : List PositionRow :=
  source.elim rows fun source => rows.filter fun r => r.source = source

/-- The payload of `/portfolio/pnl-attribution` -/
inductive Payload
  | pivot (groups : List Group) (totals : TermKey → Option ℚ)
  | rows (totals : TermKey → Option ℚ) (perPosition : List PositionRow)

def Payload.totals : Payload → TermKey → Option ℚ
  | .pivot _ totals => totals
  | .rows totals _ => totals

def assembleAttribution (ρ : Rounding) (perPosition : List PositionRow) (source : Option Source) : Option GroupBy → Payload
  | some groupBy =>
    let (groups, totals) := attributionGroups ρ (filterSource perPosition source) groupBy
    .pivot groups totals
  | none => .rows (attributionTotals ρ (filterSource perPosition source)) (filterSource perPosition source)

def PositionRow.Complete (r : PositionRow) : Prop := ∀ c, (r.col c).isSome

def PositionRow.Contributes (r : PositionRow) : Prop := ∃ c, (r.col c).isSome

/-- The residual of a row as `decompose_row` takes it, before rounding -/
def PositionRow.Decomposed (r : PositionRow) : Prop := r.terms.residualUsd = residual r.col

def labelled (groupBy : GroupBy) (rows : List PositionRow) (label : String) : List PositionRow :=
  rows.filter fun r => r.label groupBy = label

/-- The pivot conserves, before rounding. -/
structure Conserves (groupBy : GroupBy) (rows : List PositionRow) : Prop where
  labels : ((attributionGroups .exact rows groupBy).1.map (·.label)).Nodup
  partition : ∀ label, label ∈ (attributionGroups .exact rows groupBy).1.map (·.label) ↔ labelled groupBy rows label ≠ []
  column : ∀ c, (attributionGroups .exact rows groupBy).2 (.col c) = attributionTotals .exact rows (.col c)
  complete : ∀ g ∈ (attributionGroups .exact rows groupBy).1,
    (∀ r ∈ labelled groupBy rows g.label, r.Contributes → r.Complete) →
      g.residualUsd = knownSum ((labelled groupBy rows g.label).map (·.terms.residualUsd))
  incomplete : ∀ g ∈ (attributionGroups .exact rows groupBy).1,
    (∃ r ∈ labelled groupBy rows g.label, r.Contributes ∧ ¬ r.Complete) → g.residualUsd = none
  residual : (attributionGroups .exact rows groupBy).2 .residual = attributionTotals .exact rows .residual
  permuted : ∀ rows', rows'.Perm rows →
    (attributionGroups .exact rows' groupBy).1.Perm (attributionGroups .exact rows groupBy).1 ∧
      (attributionGroups .exact rows' groupBy).2 = (attributionGroups .exact rows groupBy).2 ∧
      attributionTotals .exact rows' = attributionTotals .exact rows

/-- Under each label the rows with a term have all of them, or there is a term that none of them has. -/
def Unmixed (groupBy : GroupBy) (rows : List PositionRow) : Prop :=
  ∀ label, (∀ r ∈ labelled groupBy rows label, r.Contributes → r.Complete) ∨
    ∃ c, ∀ r ∈ labelled groupBy rows label, r.col c = none

section Buckets
variable (groupBy : GroupBy) (rows : List PositionRow)

theorem add_foldl (label : String) (rs : List PositionRow) (c : SumCol) :
    (rs.foldl Bucket.add ⟨label, fun _ => none⟩).sums c = knownSum (rs.map (·.col c)) := by
  induction rs using List.reverseRecOn with
  | nil => rfl
  | append_singleton rs r ih =>
    rw [List.foldl_append, List.map_append, List.map_singleton, knownSum_snoc, ← ih]
    rfl

theorem buckets_grouped : (bucketing groupBy).Grouped rows (buckets groupBy rows) := GroupedRows.Grouping.grouped_fold rows

/-- The sums of a bucket are those of the rows of its label. -/
theorem bucket_sums {b : Bucket} (hb : b ∈ buckets groupBy rows) (c : SumCol) :
    b.sums c = knownSum ((labelled groupBy rows b.label).map (·.col c)) := by
  have hsummary : (bucketing groupBy).summary (labelled groupBy rows b.label) = some b := ((buckets_grouped groupBy rows).mem b).mp hb
  cases hrows : labelled groupBy rows b.label with
  | nil =>
    rw [hrows] at hsummary
    cases hsummary
  | cons r rs =>
    rw [hrows] at hsummary
    obtain rfl : (r :: rs).foldl Bucket.add ⟨r.label groupBy, fun _ => none⟩ = b := Option.some.inj hsummary
    exact add_foldl (r.label groupBy) (r :: rs) c

theorem labels_nodup : ((buckets groupBy rows).map (·.label)).Nodup := (buckets_grouped groupBy rows).nodup

theorem mem_labels (label : String) : label ∈ (buckets groupBy rows).map (·.label) ↔ labelled groupBy rows label ≠ [] := by
  constructor
  · intro hlabel hnil
    obtain ⟨b, hb, rfl⟩ := List.mem_map.mp hlabel
    have hsummary : (bucketing groupBy).summary (labelled groupBy rows b.label) = some b :=
      ((buckets_grouped groupBy rows).mem b).mp hb
    rw [hnil] at hsummary
    cases hsummary
  · intro hne
    have hsome : (bucketing groupBy).summary (labelled groupBy rows label) ≠ none := fun h =>
      hne (GroupedRows.Grouping.summary_eq_none.mp h)
    obtain ⟨b, hb⟩ := Option.ne_none_iff_exists'.mp hsome
    have hkey : b.label = label := GroupedRows.Grouping.summary_key (G := bucketing groupBy)
      (fun r hr => of_decide_eq_true (List.mem_filter.mp hr).2) hb
    have hkeyOf : (bucketing groupBy).keyOf b = label := hkey
    refine List.mem_map.mpr ⟨b, ((buckets_grouped groupBy rows).mem b).mpr ?_, hkey⟩
    rw [hkeyOf]
    exact hb

variable {groupBy rows}

theorem bucketOf_eq {bs : List Bucket} (hn : (bs.map (·.label)).Nodup) {b : Bucket} (hb : b ∈ bs) : bucketOf bs b.label = b := by
  cases hfind : bs.find? fun b' => b'.label = b.label with
  | none => exact absurd (decide_eq_true rfl) (List.find?_eq_none.mp hfind b hb)
  | some b' =>
    have hlabel : b'.label = b.label := by simpa using List.find?_some hfind
    rw [bucketOf, hfind, Option.getD_some]
    exact List.inj_on_of_nodup_map hn (List.mem_of_find?_eq_some hfind) hb hlabel

/-- The order has each label once. -/
theorem order_perm {bs : List Bucket} (hn : (bs.map (·.label)).Nodup) : (order groupBy bs).Perm (bs.map (·.label)) := by
  have hhead : (head groupBy bs).Nodup ∧ ∀ l ∈ head groupBy bs, l ∈ bs.map (·.label) := by
    cases groupBy with
    | tenor => exact ⟨List.Nodup.filter _ (by decide), fun l hl => of_decide_eq_true (List.mem_filter.mp hl).2⟩
    | wing => exact ⟨List.Nodup.filter _ (by decide), fun l hl => of_decide_eq_true (List.mem_filter.mp hl).2⟩
    | «structure» =>
      exact ⟨(List.perm_insertionSort _ _).nodup_iff.mpr hn, fun l hl => (List.mem_insertionSort _).mp hl⟩
  have hsort := List.perm_insertionSort (· ≤ ·) ((bs.map (·.label)).filter fun g => g ∉ head groupBy bs)
  have hrest : ((bs.map (·.label)).filter fun g => g ∉ head groupBy bs).Nodup := hn.filter _
  rw [order, List.perm_ext_iff_of_nodup _ hn]
  · intro l
    rw [List.mem_append, List.mem_insertionSort, List.mem_filter, decide_eq_true_eq]
    by_cases hl : l ∈ head groupBy bs
    · exact iff_of_true (.inl hl) (hhead.2 l hl)
    · simp only [hl, false_or, not_false_eq_true, and_true]
  · refine List.nodup_append'.mpr ⟨hhead.1, hsort.nodup_iff.mpr hrest, fun l hl hl' => ?_⟩
    rw [List.mem_insertionSort, List.mem_filter, decide_eq_true_eq] at hl'
    exact hl'.2 hl

end Buckets

section Groups
variable (groupBy : GroupBy) (rows : List PositionRow)

def groupOf (label : String) : Group where
  label
  cols c := knownSum ((labelled groupBy rows label).map (·.col c))
  residualUsd := residual fun c => knownSum ((labelled groupBy rows label).map (·.col c))

def labelOrder : List String := order groupBy (buckets groupBy rows)

theorem labelOrder_perm : (labelOrder groupBy rows).Perm ((buckets groupBy rows).map (·.label)) :=
  order_perm (labels_nodup groupBy rows)

theorem labelOrder_nodup : (labelOrder groupBy rows).Nodup :=
  (labelOrder_perm groupBy rows).nodup_iff.mpr (labels_nodup groupBy rows)

theorem mem_labelOrder (label : String) : label ∈ labelOrder groupBy rows ↔ labelled groupBy rows label ≠ [] :=
  (labelOrder_perm groupBy rows).mem_iff.trans (mem_labels groupBy rows label)

theorem exact_map (x : Option ℚ) : (x.map fun x => Rounding.exact.round x 2) = x := by
  cases x with
  | none => rfl
  | some x => rfl

theorem groups_eq : (attributionGroups .exact rows groupBy).1 = (labelOrder groupBy rows).map (groupOf groupBy rows) := by
  apply List.map_congr_left
  intro label hlabel
  obtain ⟨b, hb, rfl⟩ := List.mem_map.mp ((labelOrder_perm groupBy rows).mem_iff.mp hlabel)
  have hsums : b.sums = fun c => knownSum ((labelled groupBy rows b.label).map (·.col c)) :=
    funext fun c => bucket_sums groupBy rows hb c
  rw [bucketOf_eq (labels_nodup groupBy rows) hb, Bucket.group, exact_map, groupOf, ← hsums]
  congr 1
  funext c
  exact exact_map _

theorem totals_eq (k : TermKey) : (attributionGroups .exact rows groupBy).2 k =
    knownSum ((labelOrder groupBy rows).map fun label => (groupOf groupBy rows label).key k) := by
  have h : (attributionGroups .exact rows groupBy).2 k =
      (knownSum ((attributionGroups .exact rows groupBy).1.map fun g => g.key k)).map fun x => Rounding.exact.round x 2 := rfl
  rw [h, exact_map, groups_eq, List.map_map]
  rfl

theorem attributionTotals_eq (k : TermKey) : attributionTotals .exact rows k = knownSum (rows.map fun r => r.key k) := exact_map _

theorem sum_labels (col : PositionRow → Option ℚ) :
    knownSum ((labelOrder groupBy rows).map fun label => knownSum ((labelled groupBy rows label).map col)) =
      knownSum (rows.map col) := by
  apply knownSum_by_key rows (PositionRow.label groupBy) col (labelOrder_nodup groupBy rows)
  intro r hr
  rw [mem_labelOrder]
  exact List.ne_nil_of_mem (List.mem_filter.mpr ⟨hr, decide_eq_true rfl⟩)

theorem labelled_perm {rows' : List PositionRow} (h : rows'.Perm rows) (label : String) :
    (labelled groupBy rows' label).Perm (labelled groupBy rows label) := h.filter _

theorem groupOf_perm {rows' : List PositionRow} (h : rows'.Perm rows) : groupOf groupBy rows' = groupOf groupBy rows := by
  funext label
  have hcols : ∀ c, knownSum ((labelled groupBy rows' label).map (·.col c)) = knownSum ((labelled groupBy rows label).map (·.col c)) :=
    fun c => knownSum_perm ((labelled_perm groupBy rows h label).map _)
  rw [groupOf, groupOf]
  simp only [hcols]

theorem labelOrder_congr {rows' : List PositionRow} (h : rows'.Perm rows) : (labelOrder groupBy rows').Perm (labelOrder groupBy rows) := by
  rw [List.perm_ext_iff_of_nodup (labelOrder_nodup groupBy rows') (labelOrder_nodup groupBy rows)]
  intro label
  rw [mem_labelOrder, mem_labelOrder, ← List.length_pos_iff, ← List.length_pos_iff, (labelled_perm groupBy rows h label).length_eq]

end Groups

section Residuals

theorem residual_eq_none {sums : SumCol → Option ℚ} : residual sums = none ↔ ∃ c, sums c = none := by
  rw [residual]
  constructor
  · intro h
    by_contra! hall
    have hsome : ∀ c, (sums c).isSome := fun c => Option.isSome_iff_ne_none.mpr (hall c)
    rw [if_pos ⟨hsome .actual, fun t _ => hsome t⟩] at h
    cases h
  · rintro ⟨c, hc⟩
    apply if_neg
    rintro ⟨hactual, hterms⟩
    have hsome : (sums c).isSome := by
      cases c with
      | actual => exact hactual
      | delta | gamma | vega | theta => exact hterms _ (by decide)
    rw [hc] at hsome
    cases hsome

/-- The residual of sums that are known together -/
theorem residual_getD {sums : SumCol → Option ℚ} (h : (∃ c, (sums c).isSome) → ∀ c, (sums c).isSome) :
    (residual sums).getD 0 = (sums .actual).getD 0 - (attribTerms.map fun t => (sums t).getD 0).sum := by
  by_cases hknown : ∃ c, (sums c).isSome
  · have hall := h hknown
    rw [residual, if_pos ⟨hall .actual, fun t _ => hall t⟩, Option.getD_some]
  · have hnone : ∀ c, sums c = none := fun c => Option.not_isSome_iff_eq_none.mp fun hc => hknown ⟨c, hc⟩
    rw [residual_eq_none.mpr ⟨.actual, hnone .actual⟩]
    simp [hnone, attribTerms]

variable {rs : List PositionRow}

/-- The residuals of sums add up. -/
theorem residual_add (rs : List PositionRow) :
    (rs.map fun r => (r.col .actual).getD 0 - (attribTerms.map fun t => (r.col t).getD 0).sum).sum =
      (rs.map fun r => (r.col .actual).getD 0).sum - (attribTerms.map fun t => (rs.map fun r => (r.col t).getD 0).sum).sum := by
  induction rs with
  | nil => simp [attribTerms]
  | cons r rs ih =>
    rw [List.map_cons, List.sum_cons, ih]
    simp only [attribTerms, List.map_cons, List.map_nil, List.sum_cons, List.sum_nil]
    ring

theorem knownSum_isSome {c : SumCol} : (knownSum (rs.map (·.col c))).isSome ↔ ∃ r ∈ rs, (r.col c).isSome := by
  rw [Option.isSome_iff_ne_none, Ne, knownSum_eq_none, List.forall_mem_map]
  push Not
  simp only [Option.isSome_iff_ne_none]

/-- Of complete rows, the residual of the sums is the sum of the residuals. -/
theorem residual_sums (hrows : ∀ r ∈ rs, r.Decomposed) (hcomplete : ∀ r ∈ rs, r.Contributes → r.Complete) :
    residual (fun c => knownSum (rs.map (·.col c))) = knownSum (rs.map (·.terms.residualUsd)) := by
  have htogether : (∃ c, (knownSum (rs.map (·.col c))).isSome) → ∀ c, (knownSum (rs.map (·.col c))).isSome := by
    rintro ⟨c, hc⟩ c'
    obtain ⟨r, hr, hsome⟩ := knownSum_isSome.mp hc
    exact knownSum_isSome.mpr ⟨r, hr, hcomplete r hr ⟨c, hsome⟩ c'⟩
  have hrow : ∀ r ∈ rs, r.terms.residualUsd.getD 0 = (r.col .actual).getD 0 - (attribTerms.map fun t => (r.col t).getD 0).sum := by
    intro r hr
    rw [hrows r hr]
    exact residual_getD fun hc => hcomplete r hr hc
  refine eq_knownSum ?_ ?_
  · rw [residual_eq_none, List.forall_mem_map]
    constructor
    · rintro ⟨c, hc⟩ r hr
      rw [hrows r hr, residual_eq_none]
      exact ⟨c, knownSum_eq_none.mp hc _ (List.mem_map_of_mem hr)⟩
    · intro hnone
      refine ⟨.actual, knownSum_eq_none.mpr (List.forall_mem_map.mpr fun r hr => ?_)⟩
      have hres := hnone r hr
      rw [hrows r hr, residual_eq_none] at hres
      obtain ⟨c, hc⟩ := hres
      by_contra hactual
      have hsome := hcomplete r hr ⟨.actual, Option.isSome_iff_ne_none.mpr hactual⟩ c
      rw [hc] at hsome
      cases hsome
  · rw [residual_getD htogether, List.map_map]
    have hsum : rs.map ((·.getD 0) ∘ (·.terms.residualUsd)) =
        rs.map fun r => (r.col .actual).getD 0 - (attribTerms.map fun t => (r.col t).getD 0).sum :=
      List.map_congr_left hrow
    rw [hsum, residual_add]
    simp only [knownSum_getD, List.map_map]
    rfl

end Residuals

section Conservation
variable {groupBy : GroupBy} {rows : List PositionRow}

theorem groupOf_residual_eq_none {label : String} :
    (groupOf groupBy rows label).residualUsd = none ↔ ∃ c, ∀ r ∈ labelled groupBy rows label, r.col c = none := by
  rw [groupOf, residual_eq_none]
  exact exists_congr fun c => knownSum_eq_none.trans List.forall_mem_map

/-- Without mixed groups, a group has the residuals of its rows. -/
theorem Unmixed.residual (h : Unmixed groupBy rows) (hrows : ∀ r ∈ rows, r.Decomposed) (label : String) :
    (groupOf groupBy rows label).residualUsd = knownSum ((labelled groupBy rows label).map (·.terms.residualUsd)) := by
  have hlabelled : ∀ r ∈ labelled groupBy rows label, r.Decomposed := fun r hr => hrows r (List.mem_filter.mp hr).1
  rcases h label with hcomplete | ⟨c, hc⟩
  · exact residual_sums hlabelled hcomplete
  · rw [groupOf_residual_eq_none.mpr ⟨c, hc⟩, eq_comm, knownSum_eq_none, List.forall_mem_map]
    intro r hr
    rw [hlabelled r hr, residual_eq_none]
    exact ⟨c, hc r hr⟩

/-- The groups sum up to the totals of the rows. -/
theorem totals_col (c : SumCol) :
    (attributionGroups .exact rows groupBy).2 (.col c) = attributionTotals .exact rows (.col c) := by
  rw [totals_eq, attributionTotals_eq]
  exact sum_labels groupBy rows (·.col c)

theorem Unmixed.totals_residual (h : Unmixed groupBy rows) (hrows : ∀ r ∈ rows, r.Decomposed) :
    (attributionGroups .exact rows groupBy).2 .residual = attributionTotals .exact rows .residual := by
  rw [totals_eq, attributionTotals_eq, ← sum_labels groupBy rows fun r => r.key .residual]
  congr 1
  exact List.map_congr_left fun label _ => h.residual hrows label

theorem mem_groups {g : Group} : g ∈ (attributionGroups .exact rows groupBy).1 ↔
    ∃ label, labelled groupBy rows label ≠ [] ∧ groupOf groupBy rows label = g := by
  rw [groups_eq, List.mem_map]
  exact exists_congr fun label => and_congr_left fun _ => mem_labelOrder groupBy rows label

theorem groups_labels : (attributionGroups .exact rows groupBy).1.map (·.label) = labelOrder groupBy rows := by
  rw [groups_eq, List.map_map]
  exact List.map_id _

theorem explained_residual (actual : ℚ) (delta gamma vega theta r : Option ℚ) :
    (Option.map₂ (· + ·) (Option.map₂ (· + ·) (Option.map₂ (· + ·) delta gamma) vega) theta).map (actual - ·) =
      residual (column ⟨some actual, delta, gamma, vega, theta, r⟩) := by
  rcases delta with _ | d
  · exact (residual_eq_none.mpr ⟨.delta, rfl⟩).symm
  rcases gamma with _ | g
  · exact (residual_eq_none.mpr ⟨.gamma, rfl⟩).symm
  rcases vega with _ | v
  · exact (residual_eq_none.mpr ⟨.vega, rfl⟩).symm
  rcases theta with _ | t
  · exact (residual_eq_none.mpr ⟨.theta, rfl⟩).symm
  rw [residual, if_pos (by simp [column, attribTerms])]
  simp [column, attribTerms, add_assoc]

/-- The rows of `decompose_row` have the residual of their terms. -/
theorem decomposeRow_decomposed (now : Instant) (latest start : Reading) (tThen : Option Instant) (gammaScale : ℚ)
    (source : Source) (attribTenor structureType wing : Option String) :
    (PositionRow.mk source attribTenor structureType wing (decomposeRow .exact now latest start tThen gammaScale)).Decomposed := by
  rw [PositionRow.Decomposed]
  cases hactual : change latest.pnl start.pnl with
  | none =>
    have hnone : decomposeRow .exact now latest start tThen gammaScale = ⟨none, none, none, none, none, none⟩ := by
      simp only [decomposeRow, hactual]
    rw [hnone]
    exact (residual_eq_none.mpr ⟨.actual, rfl⟩).symm
  | some actual =>
    simp only [decomposeRow, hactual, exact_map]
    exact explained_residual actual _ _ _ _ _

/-- A call with all of its terms and one without a vega -/
def mixedRows : List PositionRow := [
  ⟨.ibLive, some "1M", some "long call", some "Call wing", ⟨some 100, some 60, some 10, some 20, some (-5), some 15⟩⟩,
  ⟨.ibLive, some "1M", some "long call", some "Call wing", ⟨some 50, some 20, some 5, none, some (-5), none⟩⟩]

theorem mixedRows_decomposed : ∀ r ∈ mixedRows, r.Decomposed := by
  rw [mixedRows, List.forall_mem_cons, List.forall_mem_singleton]
  constructor
  · norm_num [PositionRow.Decomposed, PositionRow.col, column, residual, attribTerms]
  · simp [PositionRow.Decomposed, PositionRow.col, column, residual, attribTerms]

/-- The residual of the group takes in the vega that the second call lacks. -/
theorem not_conserves : ¬ ∀ (groupBy : GroupBy) (rows : List PositionRow), (∀ r ∈ rows, r.Decomposed) →
    Conserves groupBy rows := by
  intro h
  have hconserves := h .tenor mixedRows mixedRows_decomposed
  have hmem : groupOf .tenor mixedRows "1M" ∈ (attributionGroups .exact mixedRows .tenor).1 :=
    mem_groups.mpr ⟨"1M", by decide +kernel, rfl⟩
  have hnone := hconserves.incomplete _ hmem
    ⟨_, List.mem_filter.mpr ⟨List.mem_cons_of_mem _ List.mem_cons_self, by decide +kernel⟩, ⟨.actual, rfl⟩, fun hall =>
      absurd (hall .vega) Bool.false_ne_true⟩
  exact absurd hnone (by decide +kernel)

/-- The pivot conserves just where no group mixes rows with and without a term. -/
theorem conserves_iff (groupBy : GroupBy) (rows : List PositionRow) (hrows : ∀ r ∈ rows, r.Decomposed) :
    Conserves groupBy rows ↔ Unmixed groupBy rows := by
  constructor
  · intro h label
    by_cases hcomplete : ∀ r ∈ labelled groupBy rows label, r.Contributes → r.Complete
    · exact .inl hcomplete
    · push Not at hcomplete
      obtain ⟨r, hr, hmixed⟩ := hcomplete
      have hmem := mem_groups.mpr ⟨label, List.ne_nil_of_mem hr, rfl⟩
      exact .inr (groupOf_residual_eq_none.mp (h.incomplete _ hmem ⟨r, hr, hmixed⟩))
  · intro h
    exact {
      labels := by
        rw [groups_labels]
        exact labelOrder_nodup groupBy rows
      partition := by
        rw [groups_labels]
        exact mem_labelOrder groupBy rows
      column := totals_col
      complete := by
        intro g hg _
        obtain ⟨label, -, rfl⟩ := mem_groups.mp hg
        exact h.residual hrows label
      incomplete := by
        rintro g hg ⟨r, hr, hcontributes, hincomplete⟩
        obtain ⟨label, -, rfl⟩ := mem_groups.mp hg
        rcases h label with hcomplete | ⟨c, hc⟩
        · exact absurd (hcomplete r hr hcontributes) hincomplete
        · exact groupOf_residual_eq_none.mpr ⟨c, hc⟩
      residual := h.totals_residual hrows
      permuted := by
        intro rows' hperm
        have hgroups := groupOf_perm groupBy rows hperm
        have horder := labelOrder_congr groupBy rows hperm
        refine ⟨?_, ?_, ?_⟩
        · rw [groups_eq, groups_eq, hgroups]
          exact horder.map _
        · funext k
          rw [totals_eq, totals_eq, hgroups]
          exact knownSum_perm (horder.map _)
        · funext k
          rw [attributionTotals_eq, attributionTotals_eq]
          exact knownSum_perm (hperm.map _) }

/-- A call with all of its terms and one that was opened in the window -/
def openedRows : List PositionRow := [
  ⟨.ibLive, some "1M", some "long call", some "Call wing", ⟨some 100, some 60, some 10, some 20, some (-5), some 15⟩⟩,
  ⟨.ibLive, some "1M", some "long call", some "Call wing", ⟨none, none, none, none, none, none⟩⟩]

theorem openedRows_decomposed : ∀ r ∈ openedRows, r.Decomposed := by
  rw [openedRows, List.forall_mem_cons, List.forall_mem_singleton]
  constructor
  · norm_num [PositionRow.Decomposed, PositionRow.col, column, residual, attribTerms]
  · simp [PositionRow.Decomposed, PositionRow.col, column, residual]

theorem conserves_opened : Conserves .tenor openedRows := by
  refine (conserves_iff .tenor openedRows openedRows_decomposed).mpr fun label => .inl fun r hr hcontributes => ?_
  obtain ⟨c, hc⟩ := hcontributes
  rcases List.mem_pair.mp (List.mem_filter.mp hr).1 with rfl | rfl
  · intro c'
    cases c' <;> rfl
  · cases c <;> cases hc

/-- Grouped or not, the payload of a source has the same totals. -/
theorem assembleAttribution_totals {perPosition : List PositionRow} {source : Option Source}
    (h : Unmixed groupBy (filterSource perPosition source)) (hrows : ∀ r ∈ filterSource perPosition source, r.Decomposed) :
    (assembleAttribution .exact perPosition source (some groupBy)).totals =
      (assembleAttribution .exact perPosition source none).totals := by
  funext k
  cases k with
  | col c => exact totals_col c
  | residual => exact h.totals_residual hrows

end Conservation

end FxVol.AttributionPivot
