import FxVol.ContractMonths

/-!
# Two names of one contract

`build_ib_local_symbol` writes the local symbol of a leg from its fields, for the blotter and as a fallback key, and
`build_contract_kwargs` asks IB for the contract.  They agree on the right and on the month of an option.  The symbol
cuts the strike to a thousandth where the arguments have the nearest one of the grid.  Strikes are exact decimals here: the
rounding that the strike arithmetic takes as a parameter is the identity.
-/
namespace FxVol.SymbolBuilders

open ContractMonths

/-- The month letter and the year digit of a local symbol -/
def symbolCode (localSymbol : String) : Option (Char × Char) :=
  match localSymbol.toList with
  | 'E' :: 'U' :: 'U' :: m :: y :: _ => some (m, y)
  | ['M', '6', 'E', m, y] => some (m, y)
  | ['6', 'E', m, y] => some (m, y)
  | _ => none

/-- The month letter and the year digit of a contract month `YYYYMM` -/
def monthCode (yyyymm : String) : Option (Char × Char) :=
  match yyyymm.toList.reverse with
  | m₂ :: m₁ :: y :: _ => futMonthLetters[10 * digitVal m₁ + digitVal m₂ - 1]?.map fun letter => (letter, y)
  | _ => none

/-- `right` of an option's arguments -/
def rightOf : ContractType → Option String
  | .call => some "C"
  | .put => some "P"
  | .future => none

/-- A strike of the 0.005 grid, or less than a thousandth above one -/
def NearGrid (K : ℚ) : Prop := ∃ k : ℕ, (k : ℚ) / 200 ≤ K ∧ K < k / 200 + 1 / 1000

/-- The symbol and the arguments are of one contract. -/
structure SameContract (o : StructureOrder) (localSymbol : String) (spec : ContractSpec) (kwargs : ContractKwargs) : Prop where
  code : symbolCode localSymbol = monthCode kwargs.lastTradeDateOrContractMonth
  symbol : o.contractType = .future → spec.symbol = o.contractSymbol
  right : o.contractType ≠ .future → spec.optionType.bind rightOf = kwargs.right
  strike : o.contractType ≠ .future → spec.strike = kwargs.strike

/-- What the builders agree on by design -/
structure Agree (o : StructureOrder) (expiry : Date) (K : ℚ) (localSymbol : String) (spec : ContractSpec)
    (kwargs : ContractKwargs) : Prop where
  code : o.contractType ≠ .future ∨ expiry.month % 3 = 0 →
    symbolCode localSymbol = monthCode kwargs.lastTradeDateOrContractMonth
  symbol : o.contractType = .future → spec.symbol = o.contractSymbol
  right : o.contractType ≠ .future → spec.optionType.bind rightOf = kwargs.right
  strike : o.contractType ≠ .future → (spec.strike = kwargs.strike ↔ NearGrid K)
  near : o.contractType ≠ .future → ∃ p ∈ spec.strike, ∃ q ∈ kwargs.strike, |q - p| ≤ 3 / 1000

theorem digitVal_digitChar : ∀ k < 10, digitVal k.digitChar = k := by decide

theorem isDigit_digitChar : ∀ k < 10, k.digitChar.isDigit = true := by decide

theorem zeroPadded_one {k : ℕ} (hk : k < 10) : (zeroPadded 1 k).toList = [k.digitChar] := by
  rw [zeroPadded_toList, Nat.toDigits_of_lt_base hk]
  rfl

/-- The last digit of a padded number comes after the number without it. -/
theorem zeroPadded_snoc (width n : ℕ) : (zeroPadded (width + 2) n).toList =
    (zeroPadded (width + 1) (n / 10)).toList ++ [(n % 10).digitChar] := by
  rw [zeroPadded_toList, zeroPadded_toList]
  rcases Nat.lt_or_ge n 10 with hn | hn
  · rw [Nat.div_eq_of_lt hn, Nat.mod_eq_of_lt hn, Nat.toDigits_of_lt_base hn, Nat.toDigits_zero]
    change List.replicate (width + 1) '0' ++ [n.digitChar] = List.replicate width '0' ++ ['0'] ++ [n.digitChar]
    rw [List.replicate_succ']
  · have hlength : width + 2 - ((Nat.toDigits 10 (n / 10)).length + 1) = width + 1 - (Nat.toDigits 10 (n / 10)).length := by
      omega
    rw [Nat.toDigits_of_base_le (by decide) hn, List.length_append, List.length_singleton, hlength, List.append_assoc]

/-- Four digits of a strike in thousandths -/
theorem zeroPadded_four {n : ℕ} (hn : n < 10000) : (zeroPadded 4 n).toList =
    [(n / 1000).digitChar, (n / 100 % 10).digitChar, (n / 10 % 10).digitChar, (n % 10).digitChar] := by
  have hhundreds : n / 10 / 10 = n / 100 := by omega
  have hthousands : n / 100 / 10 = n / 1000 := by omega
  rw [zeroPadded_snoc, zeroPadded_snoc, zeroPadded_snoc, hhundreds, hthousands, zeroPadded_one (by omega)]
  rfl

theorem toString_digit {k : ℕ} (hk : k < 10) : (toString k).toList = [k.digitChar] := by
  change k.repr.toList = _
  rw [Nat.toList_repr, Nat.toDigits_of_lt_base hk]

/-- The code of a contract month that is written with four digits and two -/
theorem monthCode_yyyymm (year : ℕ) {month : ℕ} (hmonth : month ≤ 12) :
    monthCode (zeroPadded 4 year ++ zeroPadded 2 month) =
      futMonthLetters[month - 1]?.map fun letter => (letter, (year % 10).digitChar) := by
  have hlist : (zeroPadded 4 year ++ zeroPadded 2 month).toList.reverse = (month % 10).digitChar ::
      (month / 10).digitChar :: (year % 10).digitChar :: (zeroPadded 3 (year / 10)).toList.reverse := by
    rw [String.toList_append, zeroPadded_snoc 2 year, zeroPadded_snoc 0 month, zeroPadded_one (by omega)]
    simp
  rw [monthCode, hlist]
  dsimp only
  rw [digitVal_digitChar _ (by omega), digitVal_digitChar _ (by omega), Nat.div_add_mod]

section Strike
variable {K : ℚ}

theorem snap_strike (K : ℚ) : pyRound (snapFopStrike id K) 4 = roundHalfEven (K * 200) / 200 := by
  have hscale : K / fopStrikeIncrement = K * 200 := by
    rw [fopStrikeIncrement]
    ring
  have hgrid : snapFopStrike id K = ((50 * roundHalfEven (K * 200) : ℤ) : ℚ) / 10 ^ 4 := by
    simp only [snapFopStrike, id]
    rw [hscale, fopStrikeIncrement]
    push_cast
    ring
  rw [hgrid, pyRound_grid]
  push_cast
  ring

theorem thousandths_lt (hK : 0 < K) (hten : K < 10) : ⌊K * 1000⌋₊ < 10000 := by
  rw [Nat.floor_lt (by linarith)]
  push_cast
  linarith

/-- The cut strike is the nearest one of the grid just above a strike of the grid. -/
theorem cut_eq_snap_iff (hK : 0 < K) : ((⌊K * 1000⌋₊ : ℕ) : ℚ) / 1000 = pyRound (snapFopStrike id K) 4 ↔ NearGrid K := by
  rw [snap_strike]
  have hle := Nat.floor_le (mul_nonneg hK.le (by norm_num : (0 : ℚ) ≤ 1000))
  have hlt := Nat.lt_floor_add_one (K * 1000)
  have hnear := abs_le.mp (roundHalfEven_near (K * 200))
  constructor
  · intro h
    have hfive : ((⌊K * 1000⌋₊ : ℕ) : ℚ) = 5 * roundHalfEven (K * 200) := by linarith
    have hint : (⌊K * 1000⌋₊ : ℤ) = 5 * roundHalfEven (K * 200) := by exact_mod_cast hfive
    obtain ⟨k, hk⟩ : ∃ k : ℕ, roundHalfEven (K * 200) = k := ⟨(roundHalfEven (K * 200)).toNat, by omega⟩
    rw [hk, Int.cast_natCast] at hfive
    exact ⟨k, by linarith, by linarith⟩
  · rintro ⟨k, hlow, hhigh⟩
    have hfloor : ⌊K * 1000⌋₊ = 5 * k := by
      rw [Nat.floor_eq_iff (by linarith)]
      push_cast
      exact ⟨by linarith, by linarith⟩
    have hround : roundHalfEven (K * 200) = k := by
      have hup : (roundHalfEven (K * 200) : ℚ) < k + 1 := by linarith [hnear.2]
      have hdown : (k : ℚ) < roundHalfEven (K * 200) + 1 := by linarith [hnear.1]
      have hup' : roundHalfEven (K * 200) < k + 1 := by exact_mod_cast hup
      have hdown' : (k : ℤ) < roundHalfEven (K * 200) + 1 := by exact_mod_cast hdown
      omega
    rw [hfloor, hround]
    push_cast
    ring

theorem cut_near_snap (hK : 0 < K) : |pyRound (snapFopStrike id K) 4 - ((⌊K * 1000⌋₊ : ℕ) : ℚ) / 1000| ≤ 3 / 1000 := by
  rw [snap_strike]
  have hle := Nat.floor_le (mul_nonneg hK.le (by norm_num : (0 : ℚ) ≤ 1000))
  have hlt := Nat.lt_floor_add_one (K * 1000)
  have hnear := abs_le.mp (roundHalfEven_near (K * 200))
  -- both are whole thousandths
  have hup : ((5 * roundHalfEven (K * 200) : ℤ) : ℚ) < ((⌊K * 1000⌋₊ + 4 : ℤ) : ℚ) := by
    push_cast
    linarith [hnear.2]
  have hdown : ((⌊K * 1000⌋₊ : ℤ) : ℚ) < ((5 * roundHalfEven (K * 200) + 3 : ℤ) : ℚ) := by
    push_cast
    linarith [hnear.1]
  have hup' : 5 * roundHalfEven (K * 200) ≤ ⌊K * 1000⌋₊ + 3 := Int.lt_add_one_iff.mp (by exact_mod_cast hup)
  have hdown' : (⌊K * 1000⌋₊ : ℤ) ≤ 5 * roundHalfEven (K * 200) + 3 := (Int.cast_lt.mp hdown).le
  have hcast : (5 * roundHalfEven (K * 200) : ℚ) ≤ ⌊K * 1000⌋₊ + 3 := by exact_mod_cast hup'
  have hcast' : ((⌊K * 1000⌋₊ : ℕ) : ℚ) ≤ 5 * roundHalfEven (K * 200) + 3 := by exact_mod_cast hdown'
  rw [abs_le]
  constructor <;> linarith

end Strike

section Symbols
variable {d : Date} {letter : Char}

theorem letter_some (hd : Valid d) : ∃ letter, futMonthLetters[d.month - 1]? = some letter ∧ letter ∈ futMonthLetters := by
  have hlt : d.month - 1 < futMonthLetters.length := by
    have hlength : futMonthLetters.length = 12 := by decide
    have hmonth := hd.month
    omega
  exact ⟨_, List.getElem?_eq_getElem hlt, List.getElem_mem hlt⟩

theorem build_option {right : ContractType} (hright : right ≠ .future) {K : ℚ} (hK : 0 < K) (hten : K < 10)
    (hletter : futMonthLetters[d.month - 1]? = some letter) (symbol : String) :
    ∃ localSymbol, buildIbLocalSymbol id right (some d) (some K) symbol = some localSymbol ∧
      localSymbol.toList = ['E', 'U', 'U', letter, (d.year % 10).digitChar, ' ', if right = .call then 'C' else 'P',
        (⌊K * 1000⌋₊ / 1000).digitChar, (⌊K * 1000⌋₊ / 100 % 10).digitChar, (⌊K * 1000⌋₊ / 10 % 10).digitChar,
        (⌊K * 1000⌋₊ % 10).digitChar] := by
  have hlt := thousandths_lt hK hten
  refine ⟨"EUU" ++ (letter.toString ++ toString (d.year % 10)) ++ " " ++ (if right = .call then "C" else "P") ++
    zeroPadded 4 ⌊K * 1000⌋₊, ?_, ?_⟩
  · cases right with
    | future => exact absurd rfl hright
    | call | put =>
      unfold buildIbLocalSymbol
      dsimp only
      rw [hletter]
      dsimp only
      rw [if_neg hK.ne', id, id]
  · simp only [String.toList_append, zeroPadded_four hlt, toString_digit (Nat.mod_lt _ (by decide : 10 > 0)),
      Char.toString_eq_singleton, String.toList_singleton]
    cases right with
    | future => exact absurd rfl hright
    | call | put => rfl

theorem build_future (strike : Option ℚ) (hletter : futMonthLetters[d.month - 1]? = some letter) (symbol : String) :
    ∃ localSymbol, buildIbLocalSymbol id .future (some d) strike symbol = some localSymbol ∧
      localSymbol.toList = (if symbol = "M6E" then ['M', '6', 'E'] else ['6', 'E']) ++
        [letter, (d.year % 10).digitChar] := by
  refine ⟨(if symbol = "M6E" then "M6E" else "6E") ++ (letter.toString ++ toString (d.year % 10)), ?_, ?_⟩
  · unfold buildIbLocalSymbol
    dsimp only
    rw [hletter]
  · simp only [String.toList_append, toString_digit (Nat.mod_lt _ (by decide : 10 > 0)), Char.toString_eq_singleton,
      String.toList_singleton]
    split_ifs <;> rfl

/-- An option's symbol is read back, with its four digits in thousandths. -/
theorem parse_option {localSymbol : String} {right : Char} {year n : ℕ} (hletter : letter ∈ futMonthLetters)
    (hright : right ∈ ['C', 'P']) (hyear : year < 10) (hn : n < 10000) (hlist : localSymbol.toList =
      ['E', 'U', 'U', letter, year.digitChar, ' ', right, (n / 1000).digitChar, (n / 100 % 10).digitChar,
        (n / 10 % 10).digitChar, (n % 10).digitChar]) :
    parseLocalSymbol localSymbol =
      some ⟨"EUR", .option, multiplierFor "EUR", some ((n : ℚ) / 1000), some (if right = 'C' then .call else .put)⟩ := by
  have hthousands : n / 1000 < 10 := by omega
  have hhundreds : n / 100 % 10 < 10 := Nat.mod_lt _ (by decide)
  have htens : n / 10 % 10 < 10 := Nat.mod_lt _ (by decide)
  have hunits : n % 10 < 10 := Nat.mod_lt _ (by decide)
  have hdigits : [(n / 1000).digitChar, (n / 100 % 10).digitChar, (n / 10 % 10).digitChar,
      (n % 10).digitChar].all Char.isDigit = true := by
    simp only [List.all_cons, List.all_nil, isDigit_digitChar _ hthousands, isDigit_digitChar _ hhundreds,
      isDigit_digitChar _ htens, isDigit_digitChar _ hunits, Bool.and_true]
  have hvalue : 1000 * (n / 1000) + 100 * (n / 100 % 10) + 10 * (n / 10 % 10) + n % 10 = n := by omega
  unfold parseLocalSymbol
  rw [hlist]
  refine (if_pos ⟨hletter, isDigit_digitChar _ hyear, hright, hdigits⟩).trans ?_
  rw [digitVal_digitChar _ hthousands, digitVal_digitChar _ hhundreds, digitVal_digitChar _ htens,
    digitVal_digitChar _ hunits, hvalue]

theorem parse_futureSymbol {localSymbol symbol : String} {year : ℕ} (hletter : letter ∈ futMonthLetters)
    (hsymbol : symbol = "EUR" ∨ symbol = "M6E") (hyear : year < 10) (hlist : localSymbol.toList =
      (if symbol = "M6E" then ['M', '6', 'E'] else ['6', 'E']) ++ [letter, year.digitChar]) :
    parseLocalSymbol localSymbol = some ⟨symbol, .future, multiplierFor symbol, none, none⟩ ∧
      symbolCode localSymbol = some (letter, year.digitChar) := by
  unfold parseLocalSymbol symbolCode
  rw [hlist]
  rcases hsymbol with rfl | rfl
  · exact ⟨if_pos ⟨hletter, isDigit_digitChar _ hyear⟩, rfl⟩
  · exact ⟨if_pos ⟨hletter, isDigit_digitChar _ hyear⟩, rfl⟩

end Symbols

section Legs
variable {o : StructureOrder} {d : Date}

/-- In a quarterly month the next quarterly is the month itself. -/
theorem nextQuarterly_quarterly (hd : Valid d) (hquarter : d.month % 3 = 0) :
    nextQuarterlyYyyymm d = zeroPadded 4 d.year ++ zeroPadded 2 d.month := by
  have hfind : ∀ m ≤ 12, 1 ≤ m → m % 3 = 0 → [3, 6, 9, 12].find? (fun qm => decide (m ≤ qm)) = some m := by decide
  rw [nextQuarterlyYyyymm, hfind d.month hd.month.2 hd.month.1 hquarter]

theorem option_agrees (hexpiry : o.contractExpiry = some d) (hd : Valid d) (hoption : o.contractType ≠ .future) {K : ℚ}
    (hstrike : o.contractStrike = some K) (hK : 0 < K) (hten : K < 10) :
    ∃ localSymbol spec kwargs, o.ibKeyIn id = some localSymbol ∧ parseLocalSymbol localSymbol = some spec ∧
      buildContractKwargsIn id o = some kwargs ∧ Agree o d K localSymbol spec kwargs := by
  obtain ⟨letter, hletter, hmem⟩ := letter_some hd
  obtain ⟨localSymbol, hbuild, hlist⟩ := build_option hoption hK hten hletter o.contractSymbol
  have hlt := thousandths_lt hK hten
  have hright : (if o.contractType = .call then 'C' else 'P') ∈ ['C', 'P'] := by split_ifs <;> decide
  have hparse := parse_option hmem hright (Nat.mod_lt _ (by decide)) hlt hlist
  have hcode : symbolCode localSymbol = some (letter, (d.year % 10).digitChar) := by
    rw [symbolCode, hlist]
    rfl
  have hkwargs : buildContractKwargsIn id o = some ⟨o.contractSymbol, "FOP", o.contractExchange, o.contractCurrency,
      optionYyyymm d, some (pyRound (snapFopStrike id K) 4), some (if o.contractType = .call then "C" else "P"),
      if o.contractSymbol = "EUR" then "EUU" else ""⟩ := by
    rw [buildContractKwargsIn, hexpiry]
    dsimp only
    rw [if_neg hoption, hstrike]
  refine ⟨localSymbol, _, _, ?_, hparse, hkwargs, ?_⟩
  · rw [StructureOrder.ibKeyIn, hexpiry, hstrike]
    exact hbuild
  constructor
  · intro _
    dsimp only
    rw [hcode, optionYyyymm, monthCode_yyyymm _ hd.month.2, hletter]
    rfl
  · exact fun hfuture => absurd hfuture hoption
  · intro _
    cases htype : o.contractType with
    | future => exact absurd htype hoption
    | call | put => rfl
  · intro _
    rw [Option.some_inj]
    exact cut_eq_snap_iff hK
  · exact fun _ => ⟨_, rfl, _, rfl, cut_near_snap hK⟩

theorem future_agrees (hexpiry : o.contractExpiry = some d) (hd : Valid d) (hfuture : o.contractType = .future)
    (hsymbol : o.contractSymbol = "EUR" ∨ o.contractSymbol = "M6E") (K : ℚ) :
    ∃ localSymbol spec kwargs, o.ibKeyIn id = some localSymbol ∧ parseLocalSymbol localSymbol = some spec ∧
      buildContractKwargsIn id o = some kwargs ∧ Agree o d K localSymbol spec kwargs := by
  obtain ⟨letter, hletter, hmem⟩ := letter_some hd
  obtain ⟨localSymbol, hbuild, hlist⟩ := build_future o.contractStrike hletter o.contractSymbol
  obtain ⟨hparse, hcode⟩ := parse_futureSymbol hmem hsymbol (Nat.mod_lt _ (by decide)) hlist
  have hkwargs : buildContractKwargsIn id o = some ⟨o.contractSymbol, "FUT", o.contractExchange, o.contractCurrency,
      nextQuarterlyYyyymm d, none, none, ""⟩ := by
    rw [buildContractKwargsIn, hexpiry]
    dsimp only
    rw [if_pos hfuture]
  refine ⟨localSymbol, _, _, ?_, hparse, hkwargs, ?_⟩
  · rw [StructureOrder.ibKeyIn, hexpiry, hfuture]
    exact hbuild
  constructor
  · rintro (hoption | hquarter)
    · exact absurd hfuture hoption
    · dsimp only
      rw [hcode, nextQuarterly_quarterly hd hquarter, monthCode_yyyymm _ hd.month.2, hletter]
      rfl
  · exact fun _ => rfl
  all_goals exact fun hoption => absurd hfuture hoption

/-- The symbol and the arguments of a leg agree but for the strike of an option off the grid and for the month of a
future off the quarterly cycle. -/
theorem builders_agree (hexpiry : o.contractExpiry = some d) (hd : Valid d)
    (hsymbol : o.contractSymbol = "EUR" ∨ o.contractSymbol = "M6E") {K : ℚ} (hK : 0 < K) (hten : K < 10)
    (hstrike : o.contractType ≠ .future → o.contractStrike = some K) :
    ∃ localSymbol spec kwargs, o.ibKeyIn id = some localSymbol ∧ parseLocalSymbol localSymbol = some spec ∧
      buildContractKwargsIn id o = some kwargs ∧ Agree o d K localSymbol spec kwargs := by
  by_cases hfuture : o.contractType = .future
  · exact future_agrees hexpiry hd hfuture hsymbol K
  · exact option_agrees hexpiry hd hfuture (hstrike hfuture) hK hten

end Legs

def callRow (strike : ℚ) : StructureOrder :=
  { StructureOrder.new 0 0 .entry .buy 1 0 with
    contractType := .call, contractExpiry := some ⟨2026, 9, 4⟩, contractStrike := some strike }

theorem builders_agree_call : ∃ localSymbol spec kwargs, (callRow (118 / 100)).ibKeyIn id = some localSymbol ∧
    parseLocalSymbol localSymbol = some spec ∧ buildContractKwargsIn id (callRow (118 / 100)) = some kwargs ∧
      Agree (callRow (118 / 100)) ⟨2026, 9, 4⟩ (118 / 100) localSymbol spec kwargs :=
  builders_agree rfl ⟨by decide, by decide, by decide⟩ (.inl rfl) (by norm_num) (by norm_num) fun _ => rfl

/-- A strike of 1.1797 is written as 1.179 and asked for as 1.18. -/
theorem not_builders_agree : ¬ ∀ o d K, o.contractExpiry = some d → Valid d →
    o.contractSymbol = "EUR" ∨ o.contractSymbol = "M6E" → 0 < K → K < 10 → o.contractStrike = some K →
      ∃ localSymbol spec kwargs, o.ibKeyIn id = some localSymbol ∧ parseLocalSymbol localSymbol = some spec ∧
        buildContractKwargsIn id o = some kwargs ∧ SameContract o localSymbol spec kwargs := by
  intro h
  obtain ⟨localSymbol, spec, kwargs, hkey, hspec, hkwargs, hsame⟩ := h (callRow (11797 / 10000)) ⟨2026, 9, 4⟩
    (11797 / 10000) rfl ⟨by decide, by decide, by decide⟩ (.inl rfl) (by norm_num) (by norm_num) rfl
  have hkey' : (callRow (11797 / 10000)).ibKeyIn id = some "EUUU6 C1179" := by decide +kernel
  obtain rfl := Option.some.inj (hkey'.symm.trans hkey)
  have hcut : (parseLocalSymbol "EUUU6 C1179").bind (·.strike) = some (1179 / 1000) := by decide +kernel
  have hasked : (buildContractKwargsIn id (callRow (11797 / 10000))).bind (·.strike) = some (118 / 100) := by decide +kernel
  have hstrike := hsame.strike (by decide)
  rw [hspec, Option.bind_some, hstrike] at hcut
  rw [hkwargs, Option.bind_some, hcut] at hasked
  exact absurd hasked (by norm_num)

end FxVol.SymbolBuilders
