import FxVol.LegInstruments
import FxVol.ListedTenors
import FxVol.PositionMarks

/-!
# The contract month of a leg

A preview dates a leg by the days of its tenor from today, and the contract that is sent to IB keeps the year
and the month of that date; its quotes come from a listed chain with an expiry of its own.
-/
namespace FxVol.ContractMonths

open TradePreviews ListedTenors LegInstruments

def yearStart (y : ℕ) : ℕ := (y - 1) * 365 + (y - 1) / 4 - (y - 1) / 100 + (y - 1) / 400

/-- `_DAYS_BEFORE_MONTH` -/
def monthStart (leap : Bool) (month : ℕ) : ℕ :=
  ([31, 28, 31, 30, 31, 30, 31, 31, 30, 31, 30].take (month - 1)).sum + if 2 < month ∧ leap = true then 1 else 0

def monthLength (leap : Bool) (month : ℕ) : ℕ :=
  if month = 2 ∧ leap = true then 29
  else [31, 28, 31, 30, 31, 30, 31, 31, 30, 31, 30, 31][month - 1]?.getD 0

def daysInMonth (d : Date) : ℕ := monthLength (isLeapYear d.year) d.month

/-- The month of a day of the year, an estimate put right -/
def monthOf (leap : Bool) (n : ℕ) : ℕ :=
  let month := (n + 50) / 32
  if n < monthStart leap month then month - 1 else month

/-- `date.fromordinal` -/
def ofOrdinal (ordinal : ℤ) : Date :=
  let n := (ordinal - 1).toNat
  let n400 := n / 146097
  let n100 := n % 146097 / 36524
  let n4 := n % 146097 % 36524 / 1461
  let n1 := n % 146097 % 36524 % 1461 / 365
  let rest := n % 146097 % 36524 % 1461 % 365
  let year := 400 * n400 + 100 * n100 + 4 * n4 + n1 + 1
  if n1 = 4 ∨ n100 = 4 then ⟨year - 1, 12, 31⟩
  else
    let leap : Bool := isLeapYear year
    ⟨year, monthOf leap rest, rest - monthStart leap (monthOf leap rest) + 1⟩

structure Valid (d : Date) : Prop where
  year : 1 ≤ d.year
  month : 1 ≤ d.month ∧ d.month ≤ 12
  day : 1 ≤ d.day ∧ d.day ≤ daysInMonth d

theorem yearStart_succ (k : ℕ) :
    yearStart (k + 2) = yearStart (k + 1) + 365 + if isLeapYear (k + 1) then 1 else 0 := by
  rw [yearStart, yearStart, show k + 2 - 1 = k + 1 from rfl, Nat.add_sub_cancel,
    (Nat.succ_div : (k + 1) / 4 = _), (Nat.succ_div : (k + 1) / 100 = _), (Nat.succ_div : (k + 1) / 400 = _)]
  have hle : k / 100 ≤ k / 4 := Nat.div_le_div_left (by decide) (by decide)
  simp only [isLeapYear, ← Nat.dvd_iff_mod_eq_zero, ne_eq]
  by_cases h4 : 4 ∣ k + 1
  · by_cases h100 : 100 ∣ k + 1
    · by_cases h400 : 400 ∣ k + 1
      · simp only [h4, h100, h400, if_true, not_true, or_true, and_true]
        omega
      · simp only [h4, h100, h400, if_true, if_false, not_true, or_false, and_false]
        omega
    · have h400 : ¬ 400 ∣ k + 1 := fun h => h100 ((by decide : 100 ∣ 400).trans h)
      simp only [h4, h100, h400, if_true, if_false, not_false_eq_true, true_or, and_true]
      omega
  · have h100 : ¬ 100 ∣ k + 1 := fun h => h4 ((by decide : 4 ∣ 100).trans h)
    have h400 : ¬ 400 ∣ k + 1 := fun h => h4 ((by decide : 4 ∣ 400).trans h)
    simp only [h4, h100, h400, if_false, false_and]
    omega

theorem yearStart_mono {y y' : ℕ} (h : y ≤ y') : yearStart y ≤ yearStart y' := by
  have hstep : ∀ y, yearStart y ≤ yearStart (y + 1) := by
    intro y
    cases y with
    | zero => exact Nat.zero_le _
    | succ k =>
      rw [yearStart_succ]
      omega
  exact monotone_nat_of_le_succ hstep h

theorem yearStart_parts (a b c d : ℕ) (hb : b ≤ 3) (hc : c ≤ 24) (hd : d ≤ 3) :
    yearStart (400 * a + 100 * b + 4 * c + d + 1) = 146097 * a + 36524 * b + 1461 * c + 365 * d := by
  unfold yearStart
  omega

theorem monthOf_spec : ∀ leap : Bool, ∀ n < 365, 1 ≤ monthOf leap n ∧ monthOf leap n ≤ 12 ∧
    monthStart leap (monthOf leap n) ≤ n ∧
      n < monthStart leap (monthOf leap n) + monthLength leap (monthOf leap n) := by decide +kernel

theorem monthStart_next : ∀ leap : Bool, ∀ m ≤ 12, ∀ m' ≤ 12, 1 ≤ m → m < m' →
    monthStart leap m + monthLength leap m ≤ monthStart leap m' := by decide +kernel

theorem monthStart_end : ∀ leap : Bool, ∀ m ≤ 12, 1 ≤ m →
    monthStart leap m + monthLength leap m ≤ 365 + if leap then 1 else 0 := by decide +kernel

theorem toOrdinal_eq (d : Date) :
    d.toOrdinal = (yearStart d.year + monthStart (isLeapYear d.year) d.month + d.day : ℕ) := by
  simp [Date.toOrdinal, yearStart, monthStart, daysBeforeMonth]

theorem ofOrdinal_spec {n : ℤ} (hn : 1 ≤ n) : Valid (ofOrdinal n) ∧ (ofOrdinal n).toOrdinal = n := by
  obtain ⟨k, rfl⟩ : ∃ k : ℕ, n = k + 1 := ⟨(n - 1).toNat, by omega⟩
  have hk : ((k : ℤ) + 1 - 1).toNat = k := by omega
  rw [ofOrdinal, hk]
  dsimp only
  set a := k / 146097 with ha
  set b := k % 146097 / 36524 with hb
  set c := k % 146097 % 36524 / 1461 with hc
  set d := k % 146097 % 36524 % 1461 / 365 with hd
  set r := k % 146097 % 36524 % 1461 % 365 with hr
  have hparts : k = 146097 * a + 36524 * b + 1461 * c + 365 * d + r := by omega
  have hrest : r < 365 := by omega
  split_ifs with hlast
  · -- the last day of a leap year
    have hday : isLeapYear (400 * a + 100 * b + 4 * c + d) ∧
        yearStart (400 * a + 100 * b + 4 * c + d) + 366 = k + 1 ∧ 1 ≤ 400 * a + 100 * b + 4 * c + d := by
      rcases hlast with hfour | hfour
      · have hb3 : b ≤ 3 := by omega
        have hc23 : c ≤ 23 := by omega
        have hstart := yearStart_parts a b c 3 hb3 (by omega) (by omega)
        rw [hfour]
        refine ⟨⟨by omega, .inl (by omega)⟩, ?_, by omega⟩
        change yearStart (400 * a + 100 * b + 4 * c + 4) = _ at hstart
        omega
      · have hzero : c = 0 ∧ d = 0 := by omega
        have hstart := yearStart_parts a 3 24 3 (by omega) (by omega) (by omega)
        rw [hfour, hzero.1, hzero.2]
        refine ⟨⟨by omega, .inr (by omega)⟩, ?_, by omega⟩
        rw [show 400 * a + 100 * 4 + 4 * 0 + 0 = 400 * a + 100 * 3 + 4 * 24 + 3 + 1 by omega]
        omega
    obtain ⟨hleap, hstart, hpos⟩ := hday
    rw [Nat.add_sub_cancel]
    refine ⟨⟨hpos, ⟨show 1 ≤ 12 by decide, show 12 ≤ 12 by decide⟩, show 1 ≤ 31 by decide, ?_⟩, ?_⟩
    · simp [daysInMonth, monthLength]
    · rw [toOrdinal_eq]
      simp only [hleap, decide_true]
      have hdec : monthStart true 12 = 335 := by decide
      rw [hdec]
      omega
  · have hb3 : b ≤ 3 := by omega
    have hc24 : c ≤ 24 := by omega
    have hd3 : d ≤ 3 := by omega
    have hstart := yearStart_parts a b c d hb3 hc24 hd3
    obtain ⟨hone, htwelve, hle, hlt⟩ := monthOf_spec (isLeapYear (400 * a + 100 * b + 4 * c + d + 1)) r hrest
    refine ⟨⟨Nat.le_add_left 1 _, ⟨hone, htwelve⟩, Nat.le_add_left 1 _, ?_⟩, ?_⟩
    · rw [daysInMonth]
      dsimp only
      omega
    · rw [toOrdinal_eq]
      dsimp only
      rw [hstart]
      omega

theorem year_end {d : Date} (h : Valid d) :
    yearStart d.year + monthStart (isLeapYear d.year) d.month + daysInMonth d ≤ yearStart (d.year + 1) := by
  obtain ⟨k, hk⟩ : ∃ k, d.year = k + 1 := ⟨d.year - 1, by have := h.year; omega⟩
  have hend := monthStart_end (isLeapYear d.year) d.month h.month.2 h.month.1
  rw [daysInMonth, hk] at *
  rw [yearStart_succ]
  by_cases hleap : isLeapYear (k + 1)
  · simp only [hleap, decide_true, if_true] at hend ⊢
    omega
  · simp only [hleap, decide_false, Bool.false_eq_true, if_false] at hend ⊢
    omega

/-- A day of an earlier month is before the first of the month. -/
theorem month_before {d e : Date} (hd : Valid d) (he : Valid e)
    (h : d.year < e.year ∨ d.year = e.year ∧ d.month < e.month) : d.toOrdinal ≤ e.toOrdinal - e.day := by
  rw [toOrdinal_eq, toOrdinal_eq]
  have hday := hd.day.2
  rcases h with hyear | ⟨hyear, hmonth⟩
  · have hend := year_end hd
    have hmono := yearStart_mono (show d.year + 1 ≤ e.year from hyear)
    omega
  · have hnext := monthStart_next (isLeapYear d.year) d.month hd.month.2 e.month he.month.2 hd.month.1 hmonth
    rw [daysInMonth] at hday
    rw [← hyear]
    omega

/-- Two days are in one month where they are no farther apart than that month lets them be. -/
theorem sameMonth_iff {d e : Date} (hd : Valid d) (he : Valid e) : (d.year = e.year ∧ d.month = e.month) ↔
    1 - (e.day : ℤ) ≤ d.toOrdinal - e.toOrdinal ∧ d.toOrdinal - e.toOrdinal ≤ daysInMonth e - e.day := by
  constructor
  · rintro ⟨hyear, hmonth⟩
    have hday := hd.day
    rw [daysInMonth, hyear, hmonth] at hday
    rw [toOrdinal_eq, toOrdinal_eq, daysInMonth, hyear, hmonth]
    omega
  · rintro ⟨hlow, hhigh⟩
    have hday := he.day
    rcases Nat.lt_trichotomy d.year e.year with hyear | hyear | hyear
    · have h := month_before hd he (.inl hyear)
      omega
    · rcases Nat.lt_trichotomy d.month e.month with hmonth | hmonth | hmonth
      · have h := month_before hd he (.inr ⟨hyear, hmonth⟩)
        omega
      · exact ⟨hyear, hmonth⟩
      · -- the month of `d` starts after the last of the month of `e`
        have hlast : Valid ⟨e.year, e.month, daysInMonth e⟩ := ⟨he.year, he.month, hday.1.trans hday.2, le_rfl⟩
        have h := month_before hlast hd (.inr ⟨hyear.symm, hmonth⟩)
        have hone := hd.day.1
        rw [toOrdinal_eq] at h
        have heq := toOrdinal_eq e
        dsimp only at h
        omega
    · have hlast : Valid ⟨e.year, e.month, daysInMonth e⟩ := ⟨he.year, he.month, hday.1.trans hday.2, le_rfl⟩
      have h := month_before hlast hd (.inl hyear)
      have hone := hd.day.1
      rw [toOrdinal_eq] at h
      have heq := toOrdinal_eq e
      dsimp only at h
      omega

theorem zeroPadded_toList (width n : ℕ) : (zeroPadded width n).toList =
    List.replicate (width - (Nat.toDigits 10 n).length) '0' ++ Nat.toDigits 10 n := by
  have hlist : (toString n).toList = Nat.toDigits 10 n := Nat.toList_repr
  have hlength : (toString n).length = (Nat.toDigits 10 n).length := by
    rw [← hlist, String.length_toList]
  rw [zeroPadded, String.toList_append, String.toList_ofList, hlist, hlength]

theorem zeroPadded_injective (width : ℕ) : Function.Injective (zeroPadded width) := by
  have hdecode : ∀ n, Nat.ofDigitChars 10 (zeroPadded width n).toList 0 = n := by
    intro n
    rw [zeroPadded_toList, Nat.ofDigitChars_append, Nat.ofDigitChars_replicate_zero, Nat.mul_zero]
    exact Nat.ofDigitChars_ten_toDigits
  intro m n h
  have hdecoded := congrArg (fun s : String => Nat.ofDigitChars 10 s.toList 0) h
  rwa [hdecode, hdecode] at hdecoded

theorem zeroPadded_length {width n : ℕ} (hwidth : 0 < width) (hn : n < 10 ^ width) :
    (zeroPadded width n).toList.length = width := by
  have hdigits := (Nat.length_toDigits_le_iff (by decide) hwidth).mpr hn
  rw [zeroPadded_toList, List.length_append, List.length_replicate]
  omega

theorem optionYyyymm_iff {d e : Date} (hd : Valid d) (he : Valid e) :
    optionYyyymm d = optionYyyymm e ↔ d.year = e.year ∧ d.month = e.month := by
  constructor
  · intro h
    have htwo : ∀ m ≤ 12, (zeroPadded 2 m).toList.length = 2 := fun m hm => zeroPadded_length (by decide) (by omega)
    have hlists := congrArg String.toList h
    rw [optionYyyymm, optionYyyymm, String.toList_append, String.toList_append] at hlists
    obtain ⟨hyear, hmonth⟩ := List.append_inj' hlists ((htwo _ hd.month.2).trans (htwo _ he.month.2).symm)
    exact ⟨zeroPadded_injective 4 (String.toList_injective hyear), zeroPadded_injective 2 (String.toList_injective hmonth)⟩
  · rintro ⟨hyear, hmonth⟩
    rw [optionYyyymm, optionYyyymm, hyear, hmonth]

/-- `(now + timedelta(days=dte)).date()` -/
def legExpiry (now : Instant) (dte : ℕ) : Date := ofOrdinal (dateOrdinal now + dte)

/-- The ordinal of a chain's expiry, whose days count from 1970 -/
def expiryOrdinal (c : Chain) : ℤ := c.expiry + 719163

def expiryDate (c : Chain) : Date := ofOrdinal (expiryOrdinal c)

/-- A preview on the surface that a scan published -/
structure Desk where
  scan : Scan
  svi : Option (List (Option ℚ))
  now : Instant
  now_pos : 1 ≤ dateOrdinal now
  expiries_pos : ∀ c ∈ scan.chains, 1 ≤ expiryOrdinal c

def Desk.surface (desk : Desk) : Surface where
  cell t d := ((desk.scan.display t).bind fun row => row d).map fun c => ⟨c.iv, c.strike, c.source = .interp⟩
  svi := desk.svi

/-- Where an option leg is quoted: no pillar where its name is none, and the strike that the user gave it -/
structure Quote where
  tenor : Tenor
  pillar : Option DeltaPillar
  strike : Option ℚ
  deriving DecidableEq

def specQuote (s : Surface) (spec : TradePreviews.LegSpec) : Option Quote :=
  match spec.tenor, spec.deltaPillar.getD (.known .atm) with
  | .known tenor, .known pillar =>
    if spec.contractType = .future then none else some ⟨snapTenor tenor s, some pillar, spec.strike⟩
  | _, _ => none

def templatePillar (req : TemplateRequest) (lt : TemplateLeg) : Option DeltaPillar :=
  match req.deltaPillar with
  | some override =>
    if lt.overridable ∧ lt.contractType ≠ .future then mirrorPillar override lt.deltaPillar lt.contractType
    else some lt.deltaPillar
  | none => some lt.deltaPillar

def templateQuote (req : TemplateRequest) (single : Bool) (lt : TemplateLeg) : Option Quote :=
  match if lt.far then req.farTenor.getD req.nearTenor else req.nearTenor with
  | .known tenor =>
    if lt.contractType = .future then none
    else some ⟨tenor, templatePillar req lt, if single then req.strikeOverride else none⟩
  | .other => none

def quoteAt (s : Surface) (body : PreviewBody) (i : ℕ) : Option Quote :=
  match body with
  | .legs specs => specs[i]?.bind (specQuote s)
  | .template req =>
    let legs := req.structureType.template.legs
    legs[i]?.bind (templateQuote req (legs.length == 1))
  | .neither => none

namespace Desk

variable (desk : Desk)

def listedQuote (body : PreviewBody) (i : ℕ) : Option Quote :=
  (quoteAt desk.surface body i).filter (·.tenor ∈ listedTenors desk.surface)

def smile (tenor : Tenor) (c : Chain) : Row :=
  smileRow desk.scan.numerics (pillarLabel tenor) (desk.scan.ib.triples c)

def chainIv (quote : Quote) (c : Chain) : Option ℚ := quote.pillar.bind (desk.smile quote.tenor c).iv

def chainStrike (quote : Quote) (c : Chain) : Option ℚ :=
  quote.strike.or ((quote.pillar.bind (desk.smile quote.tenor c)).bind (·.strike))

/-- An order row that holds a leg -/
structure Persists (leg : Leg) (o : StructureOrder) : Prop where
  contractType : o.contractType = leg.contractType
  expiry : o.contractExpiry = some (legExpiry desk.now leg.dte)
  strike : o.contractStrike = leg.strike

/-- The contract that is sent for a leg has the month of the chain that its quotes are from. -/
def TradesPriced (body : PreviewBody) (i : ℕ) (leg : Leg) : Prop :=
  ∀ quote, desk.listedQuote body i = some quote → ∃ s, desk.scan.supplier (pillarLabel quote.tenor) = some s ∧
    leg.entryIvPct = (desk.chainIv quote s.chain).map (· * 100) ∧ leg.strike = desk.chainStrike quote s.chain ∧
      ∀ o kwargs, desk.Persists leg o → buildContractKwargs o = some kwargs →
        kwargs.lastTradeDateOrContractMonth = optionYyyymm (expiryDate s.chain)

/-- The days of the tenor lead to the month in which the chain expires. -/
def ReachesMonth (body : PreviewBody) (i : ℕ) : Prop :=
  ∀ quote s, desk.listedQuote body i = some quote → desk.scan.supplier (pillarLabel quote.tenor) = some s →
    (desk.chainStrike quote s.chain).isSome →
      1 - ((expiryDate s.chain).day : ℤ) ≤ dateOrdinal desk.now + quote.tenor.dte - expiryOrdinal s.chain ∧
        dateOrdinal desk.now + quote.tenor.dte - expiryOrdinal s.chain ≤
          daysInMonth (expiryDate s.chain) - (expiryDate s.chain).day

end Desk

section Quotes
variable {desk : Desk} {body : PreviewBody} {structure' : Structure} {i : ℕ} {leg : Leg} {quote : Quote}

/-- The cells of the display are listed or interpolated. -/
theorem display_source {q : Scan} {pillar : Tenor} {row : Row} {d : DeltaPillar} {cell : ListedTenors.Cell}
    (hrow : q.display pillar = some row) (hcell : row d = some cell) (hsource : cell.source ≠ .interp) :
    cell.source = .listed := by
  have hpillars : ∀ ivs source, interpolatePillar q.numerics (ListedTenors.anchors (computeSurface q.numerics q.ib
      q.selected)) pillar.dte = some (ivs, source) → source = .interp ∨ source = .listed := by
    intro ivs source h
    unfold interpolatePillar at h
    dsimp only at h
    split at h
    · cases h
    · split_ifs at h with hnear
      · cases h
        exact .inr rfl
      · split at h
        · split_ifs at h
          cases h
          exact .inl rfl
        · split_ifs at h
          cases h
          exact .inl rfl
        · cases h
  have hinterp : ∀ found : DeltaPillar → Option ℚ, (interpolatePillar q.numerics (ListedTenors.anchors (computeSurface q.numerics q.ib
      q.selected)) pillar.dte).map (fun p => fun d => (p.1 d).map fun iv => (⟨some iv, found d, p.2⟩ : ListedTenors.Cell)) =
        some row → cell.source = .listed := by
    intro found h
    obtain ⟨⟨ivs, source⟩, hpillar, rfl⟩ := Option.map_eq_some_iff.mp h
    obtain ⟨iv, -, rfl⟩ := Option.map_eq_some_iff.mp hcell
    exact (hpillars ivs source hpillar).resolve_left hsource
  rw [Scan.display, toDisplaySurface] at hrow
  dsimp only at hrow
  split at hrow
  · split_ifs at hrow with hnear
    · cases hrow
      obtain ⟨raw, -, rfl⟩ := Option.map_eq_some_iff.mp hcell
      rw [Cell.listed] at hsource ⊢
      split_ifs at hsource ⊢ with hraw
      · exact absurd hraw hsource
      · rfl
    · exact hinterp _ hrow
  · exact hinterp _ hrow

/-- What a leg has of its quote -/
structure Quoted (s : Surface) (quote : Quote) (leg : Leg) : Prop where
  option : leg.contractType ≠ .future
  dte : leg.dte = quote.tenor.dte
  iv : leg.entryIvPct = (quote.pillar.bind (s.iv quote.tenor)).map (· * 100)
  strike : leg.strike = quote.strike.or (quote.pillar.bind (s.strike quote.tenor))

theorem spec_quoted {s : Surface} {spec : TradePreviews.LegSpec} (hbuild : spec.build s i = .ok leg)
    (hquote : specQuote s spec = some quote) : Quoted s quote leg := by
  unfold specQuote at hquote
  unfold LegSpec.build at hbuild
  split at hquote
  · next tenor pillar htenor hpillar =>
    rw [htenor, hpillar] at hbuild
    dsimp only at hbuild
    split_ifs at hquote hbuild with hfuture hqty
    cases hquote
    cases hbuild
    exact ⟨hfuture, rfl, rfl, rfl⟩
  · cases hquote

/-- The node of a leg of a template is the cell of its pillar. -/
theorem template_build (s : Surface) {req : TemplateRequest} (single : Bool) {lt : TemplateLeg} {tenor : Tenor}
    (htenor : (if lt.far then req.farTenor.getD req.nearTenor else req.nearTenor) = .known tenor)
    (hoption : lt.contractType ≠ .future) :
    lt.build req single s i =
      { legIdx := i
        contractType := lt.contractType
        dte := tenor.dte
        strike := if single ∧ req.strikeOverride.isSome then req.strikeOverride
          else (templatePillar req lt).bind (s.strike tenor)
        qtyFactor := lt.qtyFactor
        side := lt.side
        entryIvPct := ((templatePillar req lt).bind (s.iv tenor)).map (· * 100) } := by
  simp only [TemplateLeg.build, templatePillar, htenor, hoption, if_false]
  cases req.deltaPillar with
  | none => rfl
  | some override =>
    dsimp only
    generalize (if lt.overridable = true ∧ lt.contractType ≠ .future then
      mirrorPillar override lt.deltaPillar lt.contractType else some lt.deltaPillar) = pillar
    cases pillar <;> rfl

theorem template_quoted {s : Surface} {req : TemplateRequest} {single : Bool} {lt : TemplateLeg}
    (hquote : templateQuote req single lt = some quote) : Quoted s quote (lt.build req single s i) := by
  unfold templateQuote at hquote
  split at hquote
  · next tenor htenor =>
    by_cases hoption : lt.contractType = .future
    · rw [if_pos hoption] at hquote
      cases hquote
    · rw [if_neg hoption] at hquote
      cases hquote
      rw [template_build s single htenor hoption]
      refine ⟨hoption, rfl, rfl, ?_⟩
      dsimp only
      cases single <;> cases req.strikeOverride <;> rfl
  · cases hquote

/-- A leg has its quote from the surface. -/
theorem leg_quoted (h : buildRequested body desk.surface = .ok structure') (hleg : structure'.legs[i]? = some leg)
    (hquote : quoteAt desk.surface body i = some quote) :
    Quoted desk.surface quote leg := by
  cases body with
  | neither => cases h
  | legs specs =>
    obtain ⟨spec, hspec, hquote⟩ := Option.bind_eq_some_iff.mp hquote
    obtain ⟨leg', hleg', hbuild⟩ := buildLegs_getElem? (buildFromLegs_ok h).1 hspec
    rw [hleg] at hleg'
    cases hleg'
    exact spec_quoted hbuild hquote
  | template req =>
    obtain ⟨lt, hlt, hquote⟩ := Option.bind_eq_some_iff.mp hquote
    cases h
    rw [buildStructure, List.getElem?_mapIdx, hlt] at hleg
    cases hleg
    exact template_quoted hquote

theorem listed_iv (cell : ListedTenors.Cell) : cell.listed.iv = cell.iv := by
  rw [Cell.listed]
  split_ifs <;> rfl

theorem listed_strike (cell : ListedTenors.Cell) : cell.listed.strike = cell.strike := by
  rw [Cell.listed]
  split_ifs <;> rfl

/-- The cells of a listed tenor are those of the chain behind its label. -/
theorem listed_supplier {tenor : Tenor} (h : tenor ∈ listedTenors desk.surface) :
    ∃ s, desk.scan.supplier (pillarLabel tenor) = some s ∧ desk.surface.iv tenor = (desk.smile tenor s.chain).iv ∧
      ∀ d, desk.surface.strike tenor d = (desk.smile tenor s.chain d).bind (·.strike) := by
  obtain ⟨-, hlisted⟩ := List.mem_filter.mp h
  rw [decide_eq_true_eq, List.any_eq_true, List.any_eq_true] at hlisted
  obtain ⟨⟨d, hd, hiv⟩, hinterp⟩ := hlisted
  obtain ⟨iv, hiv⟩ := Option.isSome_iff_exists.mp hiv
  obtain ⟨c, hc, -⟩ := Option.bind_eq_some_iff.mp hiv
  obtain ⟨cell, hcell, rfl⟩ := Option.map_eq_some_iff.mp hc
  obtain ⟨row, hrow, hcell⟩ := Option.bind_eq_some_iff.mp hcell
  have hsource : cell.source ≠ .interp := by
    intro hsource
    refine hinterp ⟨d, hd, ?_⟩
    rw [hc, Option.any_some]
    exact decide_eq_true hsource
  obtain ⟨s, hs, hhasIv, -⟩ := Scan.supplier_of_display hrow hcell (display_source hrow hcell hsource)
  have hsurface : ∀ d, desk.surface.cell tenor d = (desk.smile tenor s.chain d).map fun c =>
      ⟨c.listed.iv, c.listed.strike, c.listed.source = .interp⟩ := by
    intro d
    change ((desk.scan.display tenor).bind fun row => row d).map _ = _
    rw [Scan.display_of_supplier hs hhasIv, Option.bind_some, Option.map_map]
    rfl
  refine ⟨s, hs, ?_, ?_⟩
  · funext d
    rw [Surface.iv, hsurface, Row.iv]
    cases desk.smile tenor s.chain d with
    | none => rfl
    | some cell => exact listed_iv cell
  · intro d
    rw [Surface.strike, hsurface]
    cases desk.smile tenor s.chain d with
    | none => rfl
    | some cell => exact listed_strike cell

theorem supplier_mem {q : Scan} {label : ℤ} {s : Selected} (h : q.supplier label = some s) : s.chain ∈ q.chains := by
  have hselected := (List.mem_filter.mp (List.mem_of_getLast? h)).1
  have htaken : s.chain ∈ q.taken q.targets := List.mem_map.mpr ⟨s, hselected, rfl⟩
  exact Scan.taken_mem htaken

/-- The month of an option is the year and the month of the leg's date. -/
theorem kwargs_month {o : StructureOrder} {kwargs : ContractKwargs} (hoption : leg.contractType ≠ .future)
    (ho : desk.Persists leg o) (h : buildContractKwargs o = some kwargs) :
    kwargs.lastTradeDateOrContractMonth = optionYyyymm (legExpiry desk.now leg.dte) := by
  unfold buildContractKwargs buildContractKwargsIn at h
  rw [ho.expiry, ho.contractType] at h
  dsimp only at h
  rw [if_neg hoption] at h
  split at h
  · cases h
  · cases h
    rfl

/-- An option with a strike has a contract. -/
theorem kwargs_some (desk : Desk) (hoption : leg.contractType ≠ .future) (hstrike : leg.strike.isSome) :
    ∃ o kwargs, desk.Persists leg o ∧ buildContractKwargs o = some kwargs := by
  obtain ⟨strike, hstrike⟩ := Option.isSome_iff_exists.mp hstrike
  refine ⟨{ StructureOrder.new 0 0 .entry leg.side 0 desk.now with
    contractType := leg.contractType
    contractExpiry := some (legExpiry desk.now leg.dte)
    contractStrike := leg.strike }, ?_⟩
  rw [buildContractKwargs, buildContractKwargsIn]
  dsimp only
  rw [if_neg hoption, hstrike]
  exact ⟨_, ⟨rfl, rfl, hstrike.symm⟩, rfl⟩

/-- The rows of a live submit hold the legs. -/
theorem liveRows_persist (N : Greeks.Numerics) (req : PreviewRequest) (inputs : PreviewInputs)
    (h : buildRequested body desk.surface = .ok structure') (hleg : structure'.legs[i]? = some leg)
    (structureId : ℕ) (submitted : Instant) :
    ∃ o, (liveRows N structure' req inputs (legExpiry desk.now) structureId submitted)[i]? = some o ∧
      desk.Persists leg o := by
  have hnumbered := PreviewPricing.numbered_buildRequested h
  rw [liveRows_getElem? hnumbered, hleg, Option.map_some]
  exact ⟨_, rfl, rfl, rfl, rfl⟩

theorem month_iff {quote : Quote} {s : Selected} (hs : desk.scan.supplier (pillarLabel quote.tenor) = some s) :
    optionYyyymm (legExpiry desk.now quote.tenor.dte) = optionYyyymm (expiryDate s.chain) ↔
      1 - ((expiryDate s.chain).day : ℤ) ≤ dateOrdinal desk.now + quote.tenor.dte - expiryOrdinal s.chain ∧
        dateOrdinal desk.now + quote.tenor.dte - expiryOrdinal s.chain ≤
          daysInMonth (expiryDate s.chain) - (expiryDate s.chain).day := by
  have hpos : 1 ≤ dateOrdinal desk.now + quote.tenor.dte := by
    have := desk.now_pos
    omega
  obtain ⟨hvalid, hordinal⟩ := ofOrdinal_spec hpos
  obtain ⟨hvalid', hordinal'⟩ := ofOrdinal_spec (desk.expiries_pos s.chain (supplier_mem hs))
  rw [legExpiry, expiryDate, optionYyyymm_iff hvalid hvalid', sameMonth_iff hvalid hvalid', hordinal, hordinal']

/-- The contract of a leg is that of its quotes just where the days of its tenor reach the month of the chain. -/
theorem tradesPriced_iff (desk : Desk) {body : PreviewBody} {structure' : Structure} {i : ℕ} {leg : Leg}
    (h : buildRequested body desk.surface = .ok structure') (hleg : structure'.legs[i]? = some leg) :
    desk.TradesPriced body i leg ↔ desk.ReachesMonth body i := by
  constructor
  · intro htrades quote s hquote hs hstrike
    obtain ⟨s', hs', -, hleg', hmonth⟩ := htrades quote hquote
    rw [hs] at hs'
    cases hs'
    have hquoted := leg_quoted h hleg (Option.mem_filter_iff.mp hquote).1
    obtain ⟨o, kwargs, ho, hkwargs⟩ := kwargs_some desk hquoted.option (hleg' ▸ hstrike)
    rw [← month_iff hs, ← hquoted.dte, ← kwargs_month hquoted.option ho hkwargs]
    exact hmonth o kwargs ho hkwargs
  · intro hreaches quote hquote
    obtain ⟨hat, hlisted⟩ := Option.mem_filter_iff.mp hquote
    have hquoted := leg_quoted h hleg hat
    obtain ⟨s, hs, hiv, hstrikes⟩ := listed_supplier (decide_eq_true_eq.mp hlisted)
    have hstrike : leg.strike = desk.chainStrike quote s.chain := by
      rw [hquoted.strike, Desk.chainStrike]
      cases quote.pillar with
      | none => rfl
      | some d => rw [Option.bind_some, Option.bind_some, hstrikes]
    refine ⟨s, hs, ?_, hstrike, fun o kwargs ho hkwargs => ?_⟩
    · rw [hquoted.iv, hiv]
      rfl
    · have hsome : leg.strike.isSome := by
        by_contra hnone
        rw [Option.not_isSome_iff_eq_none] at hnone
        unfold buildContractKwargs buildContractKwargsIn at hkwargs
        rw [ho.expiry, ho.contractType, ho.strike, hnone] at hkwargs
        dsimp only at hkwargs
        rw [if_neg hquoted.option] at hkwargs
        cases hkwargs
      rw [kwargs_month hquoted.option ho hkwargs, hquoted.dte, month_iff hs]
      exact hreaches quote s hquote hs (hstrike ▸ hsome)

end Quotes

/-- One expiry, on 6 February 2026 -/
def februaryIb : Ib where
  futures := [(20530, 1)]
  optionParams _ := [⟨"EUU", "CME", "125000", [20490], [11 / 10]⟩]
  triples _ := [(1 / 2, 7 / 100, 11 / 10)]

/-- 1 January 2026 -/
def newYear : Instant := 20454 * dayMicroseconds

def februaryScan : Scan where
  ib := februaryIb
  now := newYear
  tradingClass := "EUU"
  targets := [30]
  numerics := flatSmile

def newYearDesk : Desk where
  scan := februaryScan
  svi := none
  now := newYear
  now_pos := by decide
  expiries_pos := by decide +kernel

def atmCall : TradePreviews.LegSpec :=
  ⟨.call, .buy, .known .m1, none, none, 1, none⟩

/-- What the call is bought as: a leg that is dated 31 January -/
def boughtCall : Leg := ⟨0, .call, 30, some (11 / 10), 1, .buy, some 7⟩

def callRow : StructureOrder :=
  { StructureOrder.new 0 0 .entry .buy 1 newYear with
    contractType := .call
    contractExpiry := some (legExpiry newYear 30)
    contractStrike := some (11 / 10) }

theorem built_atmCall :
    buildRequested (.legs [atmCall]) newYearDesk.surface = .ok ⟨[boughtCall], true, .positive, none⟩ := by
  decide +kernel

theorem tradesPriced_iff_newYear :
    newYearDesk.TradesPriced (.legs [atmCall]) 0 boughtCall ↔ newYearDesk.ReachesMonth (.legs [atmCall]) 0 :=
  tradesPriced_iff newYearDesk built_atmCall rfl

/-- The call is sent for January; its volatility and its strike are of the chain that expires in February. -/
theorem not_tradesPriced : ¬ ∀ (desk : Desk) body structure' i leg, buildRequested body desk.surface = .ok structure' →
    structure'.legs[i]? = some leg → desk.TradesPriced body i leg := by
  intro hall
  obtain ⟨s, hs, -, -, hmonth⟩ :=
    hall newYearDesk _ _ 0 boughtCall built_atmCall rfl ⟨.m1, some .atm, none⟩ (by decide +kernel)
  have hexpiry : (newYearDesk.scan.supplier 1).map (fun s => optionYyyymm (expiryDate s.chain)) = some "202602" := by
    decide +kernel
  change newYearDesk.scan.supplier 1 = some s at hs
  rw [hs, Option.map_some, Option.some_inj] at hexpiry
  have hsent : optionYyyymm (legExpiry newYear 30) = optionYyyymm (expiryDate s.chain) :=
    hmonth callRow _ ⟨rfl, rfl, rfl⟩ rfl
  rw [hexpiry] at hsent
  revert hsent
  decide +kernel

end FxVol.ContractMonths
