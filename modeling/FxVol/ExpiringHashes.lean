import Mathlib.Data.Int.Order.Basic

/-!
# Hashes that expire as a whole

A hash of a key-value store: its fields are written one by one, and one time to live is set on all of them.  A write
keeps the fields that it does not name, unless the hash has lapsed.
-/
namespace FxVol.ExpiringHashes

structure ExpiringHash (κ ν : Type*) where
  fields : κ → Option ν
  expiresAt : Option ℤ

namespace ExpiringHash

variable {κ ν : Type*} (h : ExpiringHash κ ν) (now : ℤ)

def empty : ExpiringHash κ ν := ⟨fun _ => none, none⟩

def Alive : Prop := ∀ t ∈ h.expiresAt, now < t

instance : Decidable (h.Alive now) := inferInstanceAs (Decidable (∀ t ∈ h.expiresAt, _))

def get (k : κ) : Option ν := if h.Alive now then h.fields k else none

/-- A write of some fields; a hash that has lapsed is made anew, without a time to live. -/
def set (mapping : κ → Option ν) : ExpiringHash κ ν :=
  if h.Alive now then ⟨fun k => (mapping k).or (h.fields k), h.expiresAt⟩ else ⟨mapping, none⟩

def expire (ttl : ℤ) : ExpiringHash κ ν := { h with expiresAt := some (now + ttl) }

variable {h now}

theorem get_alive {k : κ} {v : ν} (hget : h.get now k = some v) : h.Alive now ∧ h.fields k = some v := by
  rw [get] at hget
  split_ifs at hget with halive
  exact ⟨halive, hget⟩

/-- A hash that lives at some time has lived until then. -/
theorem Alive.mono {later : ℤ} (halive : h.Alive later) (hle : now ≤ later) : h.Alive now :=
  fun t ht => lt_of_le_of_lt hle (halive t ht)

theorem get_mono {later : ℤ} {k : κ} {v : ν} (hget : h.get later k = some v) (hle : now ≤ later) :
    h.get now k = some v := by
  obtain ⟨halive, hfield⟩ := get_alive hget
  rw [get, if_pos (halive.mono hle), hfield]

theorem fields_set (mapping : κ → Option ν) (k : κ) : (h.set now mapping).fields k = (mapping k).or (h.get now k) := by
  rw [set, get]
  split_ifs with halive
  · rfl
  · exact Option.or_none.symm

/-- What is read right after a write with a time to live: what was written, or else what was there. -/
theorem get_set_expire {ttl : ℤ} (httl : 0 < ttl) (mapping : κ → Option ν) (k : κ) :
    ((h.set now mapping).expire now ttl).get now k = (mapping k).or (h.get now k) := by
  have halive : ((h.set now mapping).expire now ttl).Alive now := by
    intro t ht
    obtain rfl := Option.some.inj ht
    omega
  rw [get, if_pos halive]
  exact fields_set mapping k

end ExpiringHash

end FxVol.ExpiringHashes
