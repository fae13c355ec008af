import Mathlib.Data.Nat.Cast.Defs

/-!
# Numerals

A field reads a number such as `252` through the fact that it is at least two.  For the numbers that several models
write these facts are named here, so that the models read one and the same.
-/
namespace FxVol.Numerals

scoped instance two : Nat.AtLeastTwo 2 := ⟨by decide⟩

scoped instance three : Nat.AtLeastTwo 3 := ⟨by decide⟩

scoped instance four : Nat.AtLeastTwo 4 := ⟨by decide⟩

scoped instance five : Nat.AtLeastTwo 5 := ⟨by decide⟩

scoped instance seven : Nat.AtLeastTwo 7 := ⟨by decide⟩

scoped instance eight : Nat.AtLeastTwo 8 := ⟨by decide⟩

scoped instance ten : Nat.AtLeastTwo 10 := ⟨by decide⟩

scoped instance eleven : Nat.AtLeastTwo 11 := ⟨by decide⟩

scoped instance hundred : Nat.AtLeastTwo 100 := ⟨by decide⟩

scoped instance tradingDays : Nat.AtLeastTwo 252 := ⟨by decide⟩

scoped instance yearDays : Nat.AtLeastTwo 365 := ⟨by decide⟩

scoped instance nines : Nat.AtLeastTwo 999 := ⟨by decide⟩

scoped instance thousand : Nat.AtLeastTwo 1000 := ⟨by decide⟩

scoped instance tenThousand : Nat.AtLeastTwo 10000 := ⟨by decide⟩

scoped instance lotSize : Nat.AtLeastTwo 125000 := ⟨by decide⟩

end FxVol.Numerals
