import FxVol.TradePreviews

/-!
# The pre-trade gate

`run_pretrade_gate` reads the world and `evaluate_pretrade` decides.  A read that raises is `none`.
-/
namespace FxVol.PretradeGate

open Greeks TradePreviews

structure BookGreeks where
  deltaUsd : ℚ
  vegaUsdPerVolpt : ℚ
  gammaUsdPerPip : ℚ
  nPositions : ℕ
  nPriced : ℕ
  deriving DecidableEq

structure TradeGreeks where
  deltaUsd : ℚ
  vegaUsdPerVolpt : ℚ
  gammaUsdPerPip : ℚ
  notionalEur : ℚ
  deriving DecidableEq

structure Caps where
  deltaUsd : ℚ
  vegaUsdPerVolpt : ℚ
  gammaUsdPerPip : ℚ
  maxNotionalEur : ℚ
  deriving DecidableEq

structure GateInputs where
  halted : Option Bool
  haltReason : Option String
  liveMode : Bool
  riskHeartbeatAgeS : Option ℚ
  maxRiskHeartbeatAgeS : ℚ
  ibAccountType : Option String
  requiredAccountType : String
  book : Option BookGreeks
  trade : Option TradeGreeks
  caps : Option Caps
  symbols : List String
  allowedSymbols : List String
  surfaceAgeS : Option ℚ
  maxSurfaceAgeS : ℚ
  arbOk : Option Bool

inductive GateFailure
  | haltFlagUnreadable | tradingHalted | symbolNotAllowed | accountTypeMismatch | riskEngineStale
  | surfaceStale | surfaceArbitrage | capsUnavailable | bookUnavailable | tradeGreeksUnavailable
  | bookPartiallyPriced | capsNotEstablished | capDelta | capVega | capGamma | capNotional
  deriving DecidableEq

inductive GateDetail
  | haltReason (reason : Option String)
  | symbols (symbols allowedSymbols : List String)
  | accountType (ibAccountType : Option String) (requiredAccountType : String)
  | riskHeartbeat (age : Option ℚ) (maxAge : ℚ)
  | surfaceAge (age : Option ℚ) (maxAge : ℚ)
  | bookUnpriced (n : ℕ)
  | postTrade (deltaUsd vegaUsdPerVolpt gammaUsdPerPip notionalEur : ℚ)
  | caps (deltaUsd vegaUsdPerVolpt gammaUsdPerPip maxNotionalEur : ℚ)
  deriving DecidableEq

structure GateResult where
  failures : List GateFailure
  details : List GateDetail
  deriving DecidableEq

def GateResult.passed (r : GateResult) : Bool := r.failures.isEmpty

def GateResult.fails (f : GateFailure) (d : List GateDetail) : GateResult := ⟨[f], d⟩

def GateResult.fine : GateResult := ⟨[], []⟩

def GateResult.andThen (r r' : GateResult) : GateResult :=
  ⟨r.failures ++ r'.failures, r.details ++ r'.details⟩

namespace GateInputs
variable (i : GateInputs)

def checkHalt : GateResult :=
  match i.halted with
  | none => .fails .haltFlagUnreadable []
  | some true => .fails .tradingHalted [.haltReason i.haltReason]
  | some false => .fine

def checkSymbols : GateResult :=
  if i.symbols = [] ∨ ¬ ∀ s ∈ i.symbols, s ∈ i.allowedSymbols then
    .fails .symbolNotAllowed [.symbols i.symbols i.allowedSymbols]
  else .fine

def checkAccount : GateResult :=
  if i.ibAccountType = some i.requiredAccountType then .fine
  else .fails .accountTypeMismatch [.accountType i.ibAccountType i.requiredAccountType]

def checkHeartbeat : GateResult :=
  if ∃ age ∈ i.riskHeartbeatAgeS, age ≤ i.maxRiskHeartbeatAgeS then .fine
  else .fails .riskEngineStale [.riskHeartbeat i.riskHeartbeatAgeS i.maxRiskHeartbeatAgeS]

def checkSurfaceAge : GateResult :=
  if ∃ age ∈ i.surfaceAgeS, age ≤ i.maxSurfaceAgeS then .fine
  else .fails .surfaceStale [.surfaceAge i.surfaceAgeS i.maxSurfaceAgeS]

def checkSession : GateResult :=
  if i.liveMode then (i.checkAccount.andThen i.checkHeartbeat).andThen i.checkSurfaceAge else .fine

/-- An explicit `False` refuses. -/
def checkArbitrage : GateResult :=
  if i.arbOk = some false then .fails .surfaceArbitrage [] else .fine

def checkCap (f : GateFailure) (value cap : ℚ) : GateResult :=
  if cap < value then .fails f [] else .fine

def checkCaps (caps : Caps) (book : BookGreeks) (trade : TradeGreeks) : GateResult :=
  let postDelta := book.deltaUsd + trade.deltaUsd
  let postVega := book.vegaUsdPerVolpt + trade.vegaUsdPerVolpt
  let postGamma := book.gammaUsdPerPip + trade.gammaUsdPerPip
  let priced : GateResult :=
    if book.nPriced < book.nPositions then
      .fails .bookPartiallyPriced [.bookUnpriced (book.nPositions - book.nPriced)]
    else .fine
  let reported : GateResult := ⟨[],
    [.postTrade (pyRound postDelta 2) (pyRound postVega 2) (pyRound postGamma 2)
        (pyRound trade.notionalEur 2),
      .caps (pyRound caps.deltaUsd 2) (pyRound caps.vegaUsdPerVolpt 2)
        (pyRound caps.gammaUsdPerPip 2) caps.maxNotionalEur]⟩
  let axes : GateResult :=
    if caps.deltaUsd ≤ 0 ∨ caps.vegaUsdPerVolpt ≤ 0 ∨ caps.gammaUsdPerPip ≤ 0 then
      .fails .capsNotEstablished []
    else ((checkCap .capDelta |postDelta| caps.deltaUsd).andThen
      (checkCap .capVega |postVega| caps.vegaUsdPerVolpt)).andThen
        (checkCap .capGamma |postGamma| caps.gammaUsdPerPip)
  ((priced.andThen reported).andThen axes).andThen
    (checkCap .capNotional trade.notionalEur caps.maxNotionalEur)

def checkPostTrade : GateResult :=
  match i.caps, i.book, i.trade with
  | none, _, _ => .fails .capsUnavailable []
  | some _, none, _ => .fails .bookUnavailable []
  | some _, some _, none => .fails .tradeGreeksUnavailable []
  | some caps, some book, some trade => checkCaps caps book trade

end GateInputs

def evaluatePretrade (i : GateInputs) : GateResult :=
  (((i.checkHalt.andThen i.checkSymbols).andThen i.checkSession).andThen i.checkArbitrage).andThen
    i.checkPostTrade

@[simp] theorem passed_andThen (r r' : GateResult) :
    (r.andThen r').passed = true ↔ r.passed = true ∧ r'.passed = true := by
  simp [GateResult.passed, GateResult.andThen]

@[simp] theorem passed_fine : GateResult.fine.passed = true := rfl

@[simp] theorem passed_fails (f : GateFailure) (d : List GateDetail) :
    (GateResult.fails f d).passed = false := rfl

/-- The post-trade book is priced and within caps that are established, and the notional within
its own. -/
structure WithinCaps (caps : Caps) (book : BookGreeks) (trade : TradeGreeks) : Prop where
  priced : book.nPositions ≤ book.nPriced
  established : 0 < caps.deltaUsd ∧ 0 < caps.vegaUsdPerVolpt ∧ 0 < caps.gammaUsdPerPip
  delta : |book.deltaUsd + trade.deltaUsd| ≤ caps.deltaUsd
  vega : |book.vegaUsdPerVolpt + trade.vegaUsdPerVolpt| ≤ caps.vegaUsdPerVolpt
  gamma : |book.gammaUsdPerPip + trade.gammaUsdPerPip| ≤ caps.gammaUsdPerPip
  notional : trade.notionalEur ≤ caps.maxNotionalEur

/-- What `evaluate_pretrade` looks at, all as it wants it. -/
structure GateInputs.Clear (i : GateInputs) : Prop where
  halted : i.halted = some false
  symbols : i.symbols ≠ [] ∧ ∀ s ∈ i.symbols, s ∈ i.allowedSymbols
  account : i.liveMode = true → i.ibAccountType = some i.requiredAccountType
  heartbeat : i.liveMode = true → ∃ age ∈ i.riskHeartbeatAgeS, age ≤ i.maxRiskHeartbeatAgeS
  surfaceAge : i.liveMode = true → ∃ age ∈ i.surfaceAgeS, age ≤ i.maxSurfaceAgeS
  arbitrage : i.arbOk ≠ some false
  caps : ∃ caps ∈ i.caps, ∃ book ∈ i.book, ∃ trade ∈ i.trade, WithinCaps caps book trade

section Passing
variable (i : GateInputs)

theorem passed_checkHalt : i.checkHalt.passed = true ↔ i.halted = some false := by
  unfold GateInputs.checkHalt
  split <;> simp_all

theorem passed_checkSymbols :
    i.checkSymbols.passed = true ↔ i.symbols ≠ [] ∧ ∀ s ∈ i.symbols, s ∈ i.allowedSymbols := by
  unfold GateInputs.checkSymbols
  split_ifs with h
  · simp only [passed_fails, Bool.false_eq_true, false_iff]
    tauto
  · simp only [passed_fine, true_iff]
    tauto

theorem passed_ite {p : Prop} [Decidable p] (f : GateFailure) (d : List GateDetail) :
    (if p then GateResult.fine else .fails f d).passed = true ↔ p := by
  split_ifs with h <;> simp [h]

theorem passed_checkSession : i.checkSession.passed = true ↔ (i.liveMode = true →
    i.ibAccountType = some i.requiredAccountType ∧
      (∃ age ∈ i.riskHeartbeatAgeS, age ≤ i.maxRiskHeartbeatAgeS) ∧
        ∃ age ∈ i.surfaceAgeS, age ≤ i.maxSurfaceAgeS) := by
  unfold GateInputs.checkSession
  split_ifs with hlive
  · rw [passed_andThen, passed_andThen, GateInputs.checkAccount, GateInputs.checkHeartbeat,
      GateInputs.checkSurfaceAge, passed_ite, passed_ite, passed_ite, and_assoc]
    simp [hlive]
  · simp [hlive]

theorem passed_checkArbitrage : i.checkArbitrage.passed = true ↔ i.arbOk ≠ some false := by
  unfold GateInputs.checkArbitrage
  split_ifs with h <;> simp [h]

theorem passed_checkCap (f : GateFailure) (value cap : ℚ) :
    (GateInputs.checkCap f value cap).passed = true ↔ value ≤ cap := by
  unfold GateInputs.checkCap
  split_ifs with h
  · simpa using h
  · simpa using not_lt.mp h

theorem passed_checkCaps (caps : Caps) (book : BookGreeks) (trade : TradeGreeks) :
    (GateInputs.checkCaps caps book trade).passed = true ↔ WithinCaps caps book trade := by
  have hpriced : (if book.nPriced < book.nPositions then GateResult.fails .bookPartiallyPriced
      [.bookUnpriced (book.nPositions - book.nPriced)] else .fine).passed = true ↔
        book.nPositions ≤ book.nPriced := by
    split_ifs with h
    · simpa using h
    · simpa using not_lt.mp h
  have haxes : (if caps.deltaUsd ≤ 0 ∨ caps.vegaUsdPerVolpt ≤ 0 ∨ caps.gammaUsdPerPip ≤ 0 then
      GateResult.fails .capsNotEstablished [] else
        ((GateInputs.checkCap .capDelta |book.deltaUsd + trade.deltaUsd| caps.deltaUsd).andThen
          (GateInputs.checkCap .capVega |book.vegaUsdPerVolpt + trade.vegaUsdPerVolpt|
            caps.vegaUsdPerVolpt)).andThen
          (GateInputs.checkCap .capGamma |book.gammaUsdPerPip + trade.gammaUsdPerPip|
            caps.gammaUsdPerPip)).passed = true ↔
      (0 < caps.deltaUsd ∧ 0 < caps.vegaUsdPerVolpt ∧ 0 < caps.gammaUsdPerPip) ∧
        |book.deltaUsd + trade.deltaUsd| ≤ caps.deltaUsd ∧
        |book.vegaUsdPerVolpt + trade.vegaUsdPerVolpt| ≤ caps.vegaUsdPerVolpt ∧
        |book.gammaUsdPerPip + trade.gammaUsdPerPip| ≤ caps.gammaUsdPerPip := by
    split_ifs with h
    · simp only [passed_fails, Bool.false_eq_true, false_iff]
      intro hall
      rcases h with h | h | h <;> linarith [hall.1.1, hall.1.2.1, hall.1.2.2]
    · push Not at h
      simp only [passed_andThen, passed_checkCap, and_assoc]
      exact ⟨fun hcaps => ⟨h.1, h.2.1, h.2.2, hcaps⟩, fun hall => hall.2.2.2⟩
  rw [GateInputs.checkCaps, passed_andThen, passed_andThen, passed_andThen, hpriced, haxes,
    passed_checkCap]
  constructor
  · rintro ⟨⟨⟨hn, -⟩, hestablished, hdelta, hvega, hgamma⟩, hnotional⟩
    exact ⟨hn, hestablished, hdelta, hvega, hgamma, hnotional⟩
  · rintro ⟨hn, hestablished, hdelta, hvega, hgamma, hnotional⟩
    exact ⟨⟨⟨hn, rfl⟩, hestablished, hdelta, hvega, hgamma⟩, hnotional⟩

theorem passed_checkPostTrade : i.checkPostTrade.passed = true ↔
    ∃ caps ∈ i.caps, ∃ book ∈ i.book, ∃ trade ∈ i.trade, WithinCaps caps book trade := by
  unfold GateInputs.checkPostTrade
  cases i.caps <;> cases i.book <;> cases i.trade <;> simp [passed_checkCaps]

theorem evaluatePretrade_passed : (evaluatePretrade i).passed = true ↔ i.Clear := by
  unfold evaluatePretrade
  rw [passed_andThen, passed_andThen, passed_andThen, passed_andThen, passed_checkHalt,
    passed_checkSymbols, passed_checkSession, passed_checkArbitrage, passed_checkPostTrade]
  constructor
  · rintro ⟨⟨⟨⟨hhalt, hsymbols⟩, hsession⟩, harb⟩, hcaps⟩
    exact ⟨hhalt, hsymbols, fun h => (hsession h).1, fun h => (hsession h).2.1,
      fun h => (hsession h).2.2, harb, hcaps⟩
  · rintro ⟨hhalt, hsymbols, haccount, hheartbeat, hage, harb, hcaps⟩
    exact ⟨⟨⟨⟨hhalt, hsymbols⟩, fun h => ⟨haccount h, hheartbeat h, hage h⟩⟩, harb⟩, hcaps⟩

end Passing

/-- The greeks of an `open_position` row; the risk engine writes the columns together. -/
structure RowGreeks where
  deltaUsd : ℚ
  vegaUsd : ℚ
  gammaUsd : ℚ
  deriving DecidableEq

structure HaltState where
  halted : Bool
  reason : Option String
  deriving DecidableEq

/-- The axes of `GreekCaps` that the gate uses. -/
structure GreekCaps where
  deltaUsd : ℚ
  vegaUsd : ℚ
  gammaPip : ℚ
  deriving DecidableEq

/-- What `run_pretrade_gate` reads.  `book` lists the rows of `open_position` with their greeks,
where the risk engine has written them; `accountType` is none inside where the broker has no row or
no type. -/
structure GateReads where
  halt : Option HaltState
  limits : Option RiskLimits
  accountType : Option (Option String)
  book : Option (List (Option RowGreeks))
  liveCaps : Option GreekCaps
  latestSpot : Option ℚ
  riskHeartbeat : Option Instant
  now : Instant
  paperMode : Bool
  allowedSymbols : List String

def GateReads.requiredAccountType (r : GateReads) : String := if r.paperMode then "paper" else "live"

def GateReads.riskHeartbeatAgeS (r : GateReads) : Option ℚ :=
  r.riskHeartbeat.map fun ts => max 0 (((r.now - ts : ℤ) : ℚ) / 1000000)

def GateReads.spot (r : GateReads) (payload : PreviewPayload) : Option ℚ :=
  r.latestSpot.or (if payload.spot = 0 then none else some payload.spot)

def tradeGreeksFromPreview (payload : PreviewPayload) (spot : Option ℚ) : Option TradeGreeks :=
  if payload.legs = [] then none
  else spot.map fun spot =>
    { deltaUsd := payload.greeksNet.deltaUnhedged * eurFopMultiplier * spot
      vegaUsdPerVolpt := payload.greeksNet.vegaUsdPerVolpt
      gammaUsdPerPip := payload.greeksNet.gammaUsdPerPip2 / pipSize
      notionalEur := (payload.legs.map fun leg => |(leg.qty : ℚ)|).sum *
        payload.futureMultiplierEur.getD eurFopMultiplier }

def legSymbols (payload : PreviewPayload) : List String :=
  if payload.futureContractSize = some .micro then ["M6E"] else ["EUR"]

def bookGreeks (rows : List (Option RowGreeks)) : BookGreeks where
  deltaUsd := (rows.map fun row => (row.map (·.deltaUsd)).getD 0).sum
  vegaUsdPerVolpt := (rows.map fun row => (row.map (·.vegaUsd)).getD 0).sum
  gammaUsdPerPip := (rows.map fun row => (row.map (·.gammaUsd)).getD 0).sum
  nPositions := rows.length
  nPriced := rows.countP (·.isSome)

def defaultMaxNotionalEur : ℚ := 5000000

def defaultMaxRiskHeartbeatAgeS : ℚ := 30

def GateReads.maxNotionalEur (r : GateReads) : ℚ :=
  (r.limits.bind (·.maxNotionalEur)).getD defaultMaxNotionalEur

def GateReads.maxRiskHeartbeatAgeS (r : GateReads) : ℚ :=
  (r.limits.bind (·.maxRiskHeartbeatAgeSeconds)).getD defaultMaxRiskHeartbeatAgeS

def GateReads.maxSurfaceAgeS (r : GateReads) : ℚ :=
  (r.limits.bind (·.maxIvDataAgeSeconds)).getD 120

def GateReads.inputs (r : GateReads) (payload : PreviewPayload) (liveMode : Bool) : GateInputs where
  halted := r.halt.map (·.halted)
  haltReason := r.halt.bind (·.reason)
  liveMode := liveMode
  riskHeartbeatAgeS := r.riskHeartbeatAgeS
  maxRiskHeartbeatAgeS := r.maxRiskHeartbeatAgeS
  ibAccountType := (r.accountType.bind id).filter (· ≠ "")
  requiredAccountType := r.requiredAccountType
  book := r.book.map bookGreeks
  trade := tradeGreeksFromPreview payload (r.spot payload)
  caps := r.liveCaps.map fun caps =>
    ⟨caps.deltaUsd, caps.vegaUsd, caps.gammaPip, r.maxNotionalEur⟩
  symbols := legSymbols payload
  allowedSymbols := r.allowedSymbols
  surfaceAgeS := some payload.surfaceAgeSeconds
  maxSurfaceAgeS := r.maxSurfaceAgeS
  arbOk := payload.surfaceMeta.bind (·.butterflyOk)

def runPretradeGate (r : GateReads) (payload : PreviewPayload) (liveMode : Bool) : GateResult :=
  evaluatePretrade (r.inputs payload liveMode)

end FxVol.PretradeGate
