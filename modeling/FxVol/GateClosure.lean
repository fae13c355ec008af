import FxVol.GateUnits

/-!
# What the gate lets through

The gate refuses what its checks look at.  It passes beside them: a surface that reports a butterfly
violation, one that was not published or is not dated, legs that cannot be priced, limits that
cannot be read, and the symbols of all legs but the future.
-/
namespace FxVol.GateClosure

open Greeks TradePreviews PretradeGate GateUnits

section Closure
variable (N : Numerics) (structure' : Structure) (req : PreviewRequest) (inputs : PreviewInputs)
  (r : GateReads)

/-- Every input is known, and is as a live submit needs it. -/
structure AllChecked : Prop where
  halted : r.halt.map (·.halted) = some false
  limits : r.limits.isSome = true
  symbols : ∀ size ∈ futureSizes req.body, contractSymbol size ∈ r.allowedSymbols
  account : r.accountType.bind id = some r.requiredAccountType
  heartbeat : ∃ age ∈ r.riskHeartbeatAgeS, age ≤ r.maxRiskHeartbeatAgeS
  surface : ∃ s age, inputs.surface = some (s, some age) ∧ age ≤ r.maxSurfaceAgeS ∧
    s.butterflyViolation = some false
  trade : ∀ leg ∈ structure'.legs, LegPriceable leg
  caps : ∃ caps ∈ r.liveCaps, ∃ rows ∈ r.book, ∃ trade ∈ tradeGreeksFromPreview
      (previewPayload N structure' req inputs) (r.spot (previewPayload N structure' req inputs)),
    (∀ row ∈ rows, row.isSome = true) ∧
      WithinCaps ⟨caps.deltaUsd, caps.vegaUsd, caps.gammaPip, r.maxNotionalEur⟩ (bookGreeks rows)
        trade

/-- What no check of the gate looks at. -/
structure Unchecked : Prop where
  limits : r.limits.isSome = true
  symbols : ∀ size ∈ futureSizes req.body, contractSymbol size ∈ r.allowedSymbols
  surface : ∃ s age, inputs.surface = some (s, some age) ∧ s.butterflyViolation = some false
  trade : ∀ leg ∈ structure'.legs, LegPriceable leg

variable {N structure' req inputs r}

/-- The endpoint writes no report of the surface, so the arbitrage check has nothing to refuse. -/
theorem checkArbitrage_previewPayload (live : Bool) :
    (r.inputs (previewPayload N structure' req inputs) live).checkArbitrage.passed = true := by
  rw [passed_checkArbitrage]
  nofun

theorem rows_priced {rows : List (Option RowGreeks)}
    (h : (bookGreeks rows).nPositions ≤ (bookGreeks rows).nPriced) :
    ∀ row ∈ rows, row.isSome = true := by
  have hcount : rows.countP (·.isSome) = rows.length := le_antisymm List.countP_le_length h
  exact List.countP_eq_length.mp hcount

theorem account_eq : (r.accountType.bind id).filter (· ≠ "") = some r.requiredAccountType ↔
    r.accountType.bind id = some r.requiredAccountType := by
  have hrequired : r.requiredAccountType ≠ "" := by
    rw [GateReads.requiredAccountType]
    split_ifs <;> decide
  rw [Option.filter_eq_some_iff]
  simp [hrequired]

variable (N inputs) in
/-- The one symbol the gate looks at is that of a leg. -/
theorem legSymbols_eq (h : Built structure' (futureSizes req.body)) :
    ∃ size ∈ futureSizes req.body,
      legSymbols (previewPayload N structure' req inputs) = [contractSymbol size] := by
  have hlegs : legSymbols (previewPayload N structure' req inputs) =
      [contractSymbol structure'.futureContractSize] := by
    change (if structure'.futureContractSize = some .micro then ["M6E"] else ["EUR"]) = _
    rcases structure'.futureContractSize with _ | _ | _ <;> rfl
  rw [hlegs]
  cases hfcs : structure'.futureContractSize with
  | some first =>
    have hfirst := hfcs
    rw [h.size] at hfirst
    obtain ⟨size, hsize, hid⟩ := List.mem_filterMap.mp (List.mem_of_mem_head? hfirst)
    exact ⟨size, hsize, by rw [show size = some first from hid]⟩
  | none =>
    rw [h.size, List.head?_eq_none_iff, List.filterMap_eq_nil_iff] at hfcs
    have hlength := h.sized.length_eq
    cases hsizes : futureSizes req.body with
    | nil =>
      rw [hsizes, List.length_nil, List.length_eq_zero_iff] at hlength
      exact absurd hlength h.nonempty
    | cons size sizes =>
      refine ⟨size, List.mem_cons_self, ?_⟩
      rw [show size = none from hfcs size (by rw [hsizes]; exact List.mem_cons_self)]

theorem surfaceAge_eq {s : Surface} {age : ℚ} (h : inputs.surface = some (s, some age)) :
    (previewPayload N structure' req inputs).surfaceAgeSeconds = age := by
  change inputs.priced.2 = age
  rw [PreviewInputs.priced, h]
  rfl

/-- All is as it should be just where the checks pass and what they leave out is right too. -/
theorem allChecked_iff (h : Built structure' (futureSizes req.body)) :
    AllChecked N structure' req inputs r ↔
      (r.inputs (previewPayload N structure' req inputs) true).Clear ∧
        Unchecked structure' req inputs r := by
  obtain ⟨size, hsize, hlegSymbols⟩ := legSymbols_eq N inputs h
  constructor
  · intro hall
    obtain ⟨s, age, hsurface, hage, harb⟩ := hall.surface
    obtain ⟨caps, hcaps, rows, hrows, trade, htrade, -, hwithin⟩ := hall.caps
    have hclear : (r.inputs (previewPayload N structure' req inputs) true).Clear :=
      { halted := hall.halted
        symbols := by
          change legSymbols (previewPayload N structure' req inputs) ≠ [] ∧
            ∀ symbol ∈ legSymbols (previewPayload N structure' req inputs),
              symbol ∈ r.allowedSymbols
          rw [hlegSymbols]
          exact ⟨nofun, fun symbol hsymbol => List.mem_singleton.mp hsymbol ▸ hall.symbols size hsize⟩
        account := fun _ => account_eq.mpr hall.account
        heartbeat := fun _ => hall.heartbeat
        surfaceAge := fun _ => ⟨_, rfl, (surfaceAge_eq hsurface).symm ▸ hage⟩
        arbitrage := nofun
        caps := by
          refine ⟨_, ?_, bookGreeks rows, ?_, trade, htrade, hwithin⟩
          · exact Option.mem_map.mpr ⟨caps, hcaps, rfl⟩
          · exact Option.mem_map.mpr ⟨rows, hrows, rfl⟩ }
    exact ⟨hclear, hall.limits, hall.symbols, ⟨s, age, hsurface, harb⟩, hall.trade⟩
  · rintro ⟨hclear, hrest⟩
    obtain ⟨s, age, hsurface, harb⟩ := hrest.surface
    obtain ⟨caps, hcaps, book, hbook, trade, htrade, hwithin⟩ := hclear.caps
    obtain ⟨live, hlive, rfl⟩ := Option.mem_map.mp hcaps
    obtain ⟨rows, hrows, rfl⟩ := Option.mem_map.mp hbook
    obtain ⟨age', hage', hle⟩ := hclear.surfaceAge rfl
    rw [← Option.some.inj hage', surfaceAge_eq hsurface] at hle
    exact
      { halted := hclear.halted
        limits := hrest.limits
        symbols := hrest.symbols
        account := account_eq.mp (hclear.account rfl)
        heartbeat := hclear.heartbeat rfl
        surface := ⟨s, age, hsurface, hle, harb⟩
        trade := hrest.trade
        caps := ⟨live, hlive, rows, hrows, trade, htrade, rows_priced hwithin.priced, hwithin⟩ }

end Closure

/-- A live submit passes the gate on a stored preview only with every input known and right, just
where nothing that the gate does not look at is unknown or wrong when its checks pass. -/
theorem gate_fails_closed_iff (N : Numerics) (req : PreviewRequest) (inputs : PreviewInputs)
    (structure' : Structure) (r : GateReads)
    (h : buildRequested req.body inputs.priced.1 = .ok structure') :
    createPreview N req inputs = .ok (previewPayload N structure' req inputs) ∧
    (((runPretradeGate r (previewPayload N structure' req inputs) true).passed = true →
        AllChecked N structure' req inputs r) ↔
      ((r.inputs (previewPayload N structure' req inputs) true).Clear →
        Unchecked structure' req inputs r)) := by
  refine ⟨by rw [createPreview, h], ?_⟩
  rw [runPretradeGate, evaluatePretrade_passed, allChecked_iff (built_buildRequested h)]
  constructor
  · intro hall hclear
    exact (hall hclear).2
  · intro hrest hclear
    exact ⟨hclear, hrest hclear⟩

/-- A round trip in a future, its reads all in order but the surface. -/
def allInOrder : GateReads where
  halt := some ⟨false, none⟩
  limits := some ⟨none, none, none, none, none⟩
  accountType := some (some "paper")
  book := some []
  liveCaps := some ⟨243600, 5075, 3007⟩
  latestSpot := some (1085 / 1000)
  riskHeartbeat := some 0
  now := 3000000
  paperMode := true
  allowedSymbols := ["EUR", "M6E"]

/-- The synthetic cells as a published surface, twenty seconds old, with one SVI node. -/
def published (butterflyGMin : ℚ) : PreviewInputs where
  limits := ⟨none, none, none, none, none⟩
  regime := none
  surface := some ({ syntheticSurface with svi := some [some butterflyGMin] }, some 20)

theorem gate_fails_closed_iff_inOrder :
    AllChecked firstTerms roundTripStructure roundTrip (published (1 / 100)) allInOrder := by
  have hpassed : (runPretradeGate allInOrder
      (previewPayload firstTerms roundTripStructure roundTrip (published (1 / 100))) true).passed =
        true := by
    decide +kernel
  refine (gate_fails_closed_iff firstTerms roundTrip (published (1 / 100)) roundTripStructure
    allInOrder rfl).2.mpr (fun _ => ?_) hpassed
  refine ⟨rfl, by decide +kernel, ⟨_, 20, rfl, by decide +kernel⟩, ?_⟩
  intro leg hleg
  simp only [roundTripStructure, List.mem_cons, List.not_mem_nil, or_false] at hleg
  rcases hleg with rfl | rfl <;> exact .inl rfl

/-- The gate passes a preview priced on a surface that reports a butterfly violation, and one priced
on no published surface at all. -/
theorem gate_passes_violation :
    ((runPretradeGate allInOrder
        (previewPayload firstTerms roundTripStructure roundTrip (published (-1 / 100))) true).passed =
          true ∧
      ¬ AllChecked firstTerms roundTripStructure roundTrip (published (-1 / 100)) allInOrder) ∧
    (runPretradeGate allInOrder
        (previewPayload firstTerms roundTripStructure roundTrip noSurface) true).passed = true ∧
      ¬ AllChecked firstTerms roundTripStructure roundTrip noSurface allInOrder := by
  refine ⟨⟨by decide +kernel, ?_⟩, by decide +kernel, ?_⟩
  · intro hall
    obtain ⟨s, age, hsurface, -, hreport⟩ := hall.surface
    cases hsurface
    revert hreport
    decide +kernel
  · intro hall
    obtain ⟨s, age, hsurface, -⟩ := hall.surface
    cases hsurface

end FxVol.GateClosure
