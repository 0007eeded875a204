/-!
Big-endian expansions: a number becomes a fixed count of bytes, most significant byte first, and
bytes become a number. Main statements: the two directions undo each other below `256 ^ width`.
-/
namespace TaggedWire.BigEndian

attribute [local instance (high)] instPowNat

/-- The low `width` bytes of `n`, most significant first. Higher bytes are dropped. -/
def encode : Nat → Nat → List UInt8
  | 0, _ => []
  | width + 1, n => UInt8.ofNat (n / 256 ^ width) :: encode width n

/-- The number whose base-256 digits are the given bytes, most significant first. -/
def decode (bytes : List UInt8) : Nat :=
  bytes.foldl (fun n b => n * 256 + b.toNat) 0

@[simp] theorem encode_zero (n : Nat) : encode 0 n = [] := rfl

theorem encode_succ (width n : Nat) :
    encode (width + 1) n = UInt8.ofNat (n / 256 ^ width) :: encode width n := rfl

@[simp] theorem length_encode (width n : Nat) : (encode width n).length = width := by
  induction width with
  | zero => rfl
  | succ width ih => simp only [encode_succ, List.length_cons, ih]

/-- A leading part of the fold only shifts the digits that follow it. -/
theorem foldl_eq (bytes : List UInt8) (start : Nat) :
    bytes.foldl (fun n b => n * 256 + b.toNat) start =
      start * 256 ^ bytes.length + decode bytes := by
  induction bytes generalizing start with
  | nil => simp [decode]
  | cons b bs ih =>
    unfold decode
    simp only [List.foldl_cons, List.length_cons]
    rw [ih, ih (0 * 256 + b.toNat), Nat.pow_succ, Nat.add_mul]
    simp only [Nat.zero_mul, Nat.zero_add]
    rw [Nat.mul_assoc, Nat.mul_comm 256, Nat.add_assoc]

@[simp] theorem decode_nil : decode [] = 0 := rfl

theorem decode_cons (b : UInt8) (bs : List UInt8) :
    decode (b :: bs) = b.toNat * 256 ^ bs.length + decode bs := by
  rw [decode, List.foldl_cons, foldl_eq]
  simp

theorem decode_lt (bytes : List UInt8) : decode bytes < 256 ^ bytes.length := by
  induction bytes with
  | nil => simp
  | cons b bs ih =>
    rw [decode_cons, List.length_cons, Nat.pow_succ]
    have hb : b.toNat < 256 := b.toNat_lt
    have hm : b.toNat * 256 ^ bs.length + 256 ^ bs.length ≤ 256 ^ bs.length * 256 := by
      rw [← Nat.succ_mul, Nat.mul_comm (256 ^ bs.length)]
      exact Nat.mul_le_mul_right _ hb
    omega

/-- Expansion keeps exactly the low `width` digits. -/
theorem decode_encode (width n : Nat) : decode (encode width n) = n % 256 ^ width := by
  induction width with
  | zero => simp [Nat.mod_one]
  | succ width ih =>
    have hp : 256 ^ (width + 1) = 256 ^ width * 256 := Nat.pow_succ 256 width
    rw [encode_succ, decode_cons, ih, length_encode, UInt8.toNat_ofNat', hp, Nat.mod_mul,
      Nat.add_comm, Nat.mul_comm]

theorem decode_encode_of_lt {width n : Nat} (h : n < 256 ^ width) :
    decode (encode width n) = n := by
  rw [decode_encode, Nat.mod_eq_of_lt h]

theorem encode_add_mul (width n k : Nat) : encode width (k * 256 ^ width + n) = encode width n := by
  induction width generalizing k with
  | zero => rfl
  | succ width ih =>
    have hp : 0 < 256 ^ width := Nat.pow_pos (by decide)
    have hdiv : (k * 256 ^ (width + 1) + n) / 256 ^ width = k * 256 + n / 256 ^ width := by
      rw [Nat.pow_succ, Nat.mul_comm (256 ^ width), ← Nat.mul_assoc, Nat.add_comm,
        Nat.add_mul_div_right _ _ hp, Nat.add_comm]
    rw [encode_succ, encode_succ, hdiv]
    congr 1
    · apply UInt8.toNat_inj.mp
      simp only [UInt8.toNat_ofNat']
      omega
    · rw [Nat.pow_succ, Nat.mul_comm (256 ^ width), ← Nat.mul_assoc]
      exact ih (k * 256)

theorem encode_decode (bytes : List UInt8) : encode bytes.length (decode bytes) = bytes := by
  induction bytes with
  | nil => rfl
  | cons b bs ih =>
    have hp : 0 < 256 ^ bs.length := Nat.pow_pos (by decide)
    rw [List.length_cons, encode_succ, decode_cons, encode_add_mul, ih]
    congr 1
    rw [Nat.add_comm, Nat.add_mul_div_right _ _ hp, Nat.div_eq_of_lt (decode_lt bs), Nat.zero_add]
    exact UInt8.ofNat_toNat

end TaggedWire.BigEndian
