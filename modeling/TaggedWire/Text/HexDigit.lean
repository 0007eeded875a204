/-!
Numbers and characters written in hexadecimal digits of either case.
-/
namespace TaggedWire

def hexDigit? (c : Char) : Option Nat :=
  if '0' ≤ c ∧ c ≤ '9' then some (c.toNat - '0'.toNat)
  else if 'a' ≤ c ∧ c ≤ 'f' then some (c.toNat - 'a'.toNat + 10)
  else if 'A' ≤ c ∧ c ≤ 'F' then some (c.toNat - 'A'.toNat + 10)
  else none

/-- The number of a string of hexadecimal digits. -/
def hexNumber? (cs : List Char) : Option Nat :=
  cs.foldlM (fun n c => (hexDigit? c).map (fun d => n * 16 + d)) 0

/-- The character with a code point, unless it is a surrogate or too large. -/
def scalar? (n : Nat) : Option Char :=
  if (n < 0xD800 ∨ 0xDFFF < n) ∧ n ≤ 0x10FFFF then some (Char.ofNat n) else none

/-- The character whose code point is written in the first `n` digits of the text. -/
def codePoint? (n : Nat) (cs : List Char) : Option Char :=
  if n ≤ cs.length then (hexNumber? (cs.take n)).bind scalar? else none

end TaggedWire
