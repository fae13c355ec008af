import Mathlib.Data.Int.Notation
import Mathlib.Data.Int.Cast.Basic
import Mathlib.Tactic.Common

/-!
# Order references

The key `fxvol:{structure}:{order}` that a placement stamps on `Order.orderRef` and that IB
returns on open orders and executions, with the parser the adoption sweep and the reconnect
replay use.  Reading back a stamped key gives the structure and the order it names.
-/
namespace FxVol

def orderRef (structureId orderId : ℕ) : String :=
  "fxvol:" ++ toString structureId ++ ":" ++ toString orderId

def pyNatural (digits : List Char) : Option ℕ :=
  let groups := digits.splitOn '_'
  if groups.all fun g => !g.isEmpty && g.all Char.isDigit then
    some (Nat.ofDigitChars 10 groups.flatten 0)
  else none

def stripBlanks (text : List Char) : List Char :=
  ((text.dropWhile Char.isWhitespace).reverse.dropWhile Char.isWhitespace).reverse

/-- `int(text)` on ASCII text: surrounding blanks, a sign, then digits. -/
def pyInt (text : List Char) : Option ℤ :=
  match stripBlanks text with
  | '-' :: digits => (pyNatural digits).map fun n => -Int.ofNat n
  | '+' :: digits => (pyNatural digits).map Int.ofNat
  | digits => (pyNatural digits).map Int.ofNat

def parseOrderRef (ref : Option String) : Option (ℤ × ℤ) :=
  match ref with
  | none => none
  | some ref =>
    if "fxvol:".toList.isPrefixOf ref.toList then
      match ref.toList.splitOn ':' with
      | [_, structureId, orderId] =>
        match pyInt structureId, pyInt orderId with
        | some s, some o => some (s, o)
        | _, _ => none
      | _ => none
    else none

def parseSpotOrderRef (ref : Option String) : Option ℤ :=
  match ref with
  | none => none
  | some ref =>
    if "fxvol:spot:".toList.isPrefixOf ref.toList then pyInt (ref.toList.drop 11) else none

section Digits
variable {digits : List Char} (hd : ∀ c ∈ digits, c.isDigit = true)
include hd

theorem stripBlanks_digits : stripBlanks digits = digits := by
  have blank (l : List Char) (hl : ∀ c ∈ l, c.isDigit = true) :
      l.dropWhile Char.isWhitespace = l := by
    cases l with
    | nil => rfl
    | cons c l =>
      have hc := hl c List.mem_cons_self
      have hw : c.isWhitespace = false := by
        by_contra hw
        simp only [Char.isWhitespace, Bool.or_eq_true, decide_eq_true_eq, Bool.not_eq_false] at hw
        rcases hw with ((rfl | rfl) | rfl) | rfl <;> simp at hc
      simp [hw]
  rw [stripBlanks, blank digits hd, blank, List.reverse_reverse]
  intro c hc
  exact hd c (List.mem_reverse.mp hc)

theorem pyNatural_digits (hne : digits ≠ []) :
    pyNatural digits = some (Nat.ofDigitChars 10 digits 0) := by
  have hsplit : digits.splitOn '_' = [digits] := by
    rw [List.splitOn_eq_splitOnP]
    apply List.splitOnP_eq_singleton
    intro c hc
    have := hd c hc
    by_contra h
    obtain rfl : c = '_' := by simpa using h
    simp at this
  simp [pyNatural, hsplit, hne, List.all_eq_true.mpr hd]

theorem pyInt_digits (hne : digits ≠ []) :
    pyInt digits = some (Nat.ofDigitChars 10 digits 0 : ℤ) := by
  rw [pyInt, stripBlanks_digits hd]
  split
  · have := hd '-' List.mem_cons_self
    simp at this
  · have := hd '+' List.mem_cons_self
    simp at this
  · rw [pyNatural_digits hd hne, Option.map_some]
    rfl

end Digits

theorem isDigit_toDigits (n : ℕ) : ∀ c ∈ Nat.toDigits 10 n, c.isDigit = true :=
  fun _ hc => Nat.isDigit_of_mem_toDigits (by decide) (by decide) hc

theorem pyInt_toDigits (n : ℕ) : pyInt (Nat.toDigits 10 n) = some (n : ℤ) := by
  rw [pyInt_digits (isDigit_toDigits n) Nat.toDigits_ne_nil, Nat.ofDigitChars_ten_toDigits]

theorem no_colon_toDigits (n : ℕ) : ∀ c ∈ Nat.toDigits 10 n, (c == ':') = false := by
  intro c hc
  have := isDigit_toDigits n c hc
  by_contra h
  obtain rfl : c = ':' := by simpa using h
  simp at this

/-- A stamped reference reads back as the structure and the order it names. -/
theorem parseOrderRef_orderRef (structureId orderId : ℕ) :
    parseOrderRef (some (orderRef structureId orderId)) =
      some ((structureId : ℤ), (orderId : ℤ)) := by
  have htext : (orderRef structureId orderId).toList =
      "fxvol".toList ++ ':' :: (Nat.toDigits 10 structureId ++ ':' :: Nat.toDigits 10 orderId) := by
    simp [orderRef]
  have hname : ∀ c ∈ "fxvol".toList, (c == ':') = false := by simp
  have hsplit : (orderRef structureId orderId).toList.splitOn ':' =
      ["fxvol".toList, Nat.toDigits 10 structureId, Nat.toDigits 10 orderId] := by
    rw [htext, List.splitOn_eq_splitOnP,
      List.splitOnP_append_cons_of_forall_mem hname ':' (by decide),
      List.splitOnP_append_cons_of_forall_mem (no_colon_toDigits _) ':' (by decide),
      List.splitOnP_eq_singleton (no_colon_toDigits _)]
  have hprefix : "fxvol:".toList.isPrefixOf (orderRef structureId orderId).toList = true := by
    simp [htext, List.isPrefixOf]
  simp only [parseOrderRef, hprefix, if_true, hsplit, pyInt_toDigits]

example : parseOrderRef (some "fxvol:hedge:7") = none := by decide +kernel

/-- References of different orders differ. -/
theorem orderRef_injective {s o s' o' : ℕ} (h : orderRef s o = orderRef s' o') :
    s = s' ∧ o = o' := by
  have hp := parseOrderRef_orderRef s o
  rw [h, parseOrderRef_orderRef s' o', Option.some.injEq, Prod.mk.injEq] at hp
  omega

end FxVol
