import TaggedWire.Error

/-!
Sizes and positions as 64-bit words. Sums and products wrap, except where an operation says that it
saturates.
-/
namespace TaggedWire

/-- The most bytes that an object in memory can have. -/
def maxObject : Nat := 9223372036854775807

/-- The sum of two words, or the largest word in place of a sum that wraps. -/
def addSaturating (a b : UInt64) : UInt64 :=
  if a + b < a then 18446744073709551615 else a + b

/-- The difference of two words, or zero in place of one that wraps. -/
def subSaturating (a b : UInt64) : UInt64 :=
  if a < b then 0 else a - b

def wordSum (ws : List UInt64) : UInt64 :=
  ws.foldl (· + ·) 0

theorem toNat_toUInt64 {n : Nat} (h : n < UInt64.size) : n.toUInt64.toNat = n :=
  UInt64.toNat_ofNat_of_lt' h

theorem toNat_addSaturating (a b : UInt64) :
    (addSaturating a b).toNat = saturate (a.toNat + b.toNat) := by
  have ha := a.toNat_lt
  have hb := b.toNat_lt
  have hsum : (a + b).toNat = (a.toNat + b.toNat) % 18446744073709551616 := UInt64.toNat_add a b
  have hmax : (18446744073709551615 : UInt64).toNat = 18446744073709551615 := rfl
  unfold addSaturating saturate
  split
  · rename_i hwrap
    rw [UInt64.lt_iff_toNat_lt] at hwrap
    omega
  · rename_i hexact
    rw [UInt64.lt_iff_toNat_lt] at hexact
    omega

theorem toNat_subSaturating (a b : UInt64) :
    (subSaturating a b).toNat = a.toNat - b.toNat := by
  unfold subSaturating
  split
  · rename_i hlt
    rw [UInt64.lt_iff_toNat_lt] at hlt
    exact (Nat.sub_eq_zero_of_le (Nat.le_of_lt hlt)).symm
  · rename_i hle
    rw [UInt64.not_lt] at hle
    exact UInt64.toNat_sub_of_le a b hle

end TaggedWire
