import FxVol.DecimalRounding
import FxVol.TradeTables
import Mathlib.Algebra.Order.Field.Rat

/-!
# IB local symbols

`6E<M><Y>` and `M6E<M><Y>` name futures, `EUU<M><Y> <C|P><strike×1000>` an option on the
euro future.  Symbols are ASCII text without a final newline.  A strike is the decimal that its
double stands for; arithmetic on strikes is that of their doubles.
-/
namespace FxVol

open DecimalRounding

inductive InstrumentType | future | option
  deriving DecidableEq

def multiplierFor (symbol : String) : ℚ := if symbol = "M6E" then 12500 else 125000

structure ContractSpec where
  symbol : String
  instrumentType : InstrumentType
  multiplier : ℚ
  strike : Option ℚ
  optionType : Option ContractType
  deriving DecidableEq

def futMonthLetters : List Char := "FGHJKMNQUVXZ".toList

def digitVal (c : Char) : ℕ := c.toNat - '0'.toNat

def parseLocalSymbol (localSymbol : String) : Option ContractSpec :=
  match localSymbol.toList with
  | ['E', 'U', 'U', m, y, ' ', right, a, b, c, d] =>
    if m ∈ futMonthLetters ∧ y.isDigit ∧ right ∈ ['C', 'P'] ∧ [a, b, c, d].all Char.isDigit then
      some
        { symbol := "EUR"
          instrumentType := .option
          multiplier := multiplierFor "EUR"
          strike := some
            ((1000 * digitVal a + 100 * digitVal b + 10 * digitVal c + digitVal d : ℕ) / 1000)
          optionType := some (if right = 'C' then .call else .put) }
    else none
  | ['M', '6', 'E', m, y] =>
    if m ∈ futMonthLetters ∧ y.isDigit then
      some ⟨"M6E", .future, multiplierFor "M6E", none, none⟩
    else none
  | ['6', 'E', m, y] =>
    if m ∈ futMonthLetters ∧ y.isDigit then
      some ⟨"EUR", .future, multiplierFor "EUR", none, none⟩
    else none
  | _ => none

example : (parseLocalSymbol "EUUV6 C1160").bind (·.strike) = some (116 / 100) := by decide +kernel

/-- A future has neither a strike nor a right. -/
theorem future_spec {symbol : String} {spec : ContractSpec} (h : parseLocalSymbol symbol = some spec)
    (hfuture : spec.instrumentType = .future) : spec.strike = none ∧ spec.optionType = none := by
  unfold parseLocalSymbol at h
  split at h
  · split_ifs at h <;> cases h <;> cases hfuture
  · split_ifs at h
    cases h
    exact ⟨rfl, rfl⟩
  · split_ifs at h
    cases h
    exact ⟨rfl, rfl⟩
  · cases h

def strikeTol : ℚ := 6 / 1000

/-- `_leg_matches_position`: is the live IB position this order leg? -/
def legMatchesPosition (o : StructureOrder) (pos : OpenPosition) : Bool :=
  if o.side ≠ pos.side then false
  else match parseLocalSymbol pos.localSymbol with
    | none => false
    | some spec =>
      if o.contractType = .future then spec.instrumentType = .future
      else if spec.instrumentType ≠ .option then false
      else if spec.optionType ≠ some o.contractType then false
      else match o.contractStrike, spec.strike with
        | some k, some k' => |toDouble (toDouble k - toDouble k')| ≤ toDouble strikeTol
        | _, _ => true

-- 1.156 - 1.15 is above 0.006 in doubles
example : |toDouble (toDouble (1156 / 1000) - toDouble (115 / 100))| > toDouble strikeTol := by decide +kernel

end FxVol
