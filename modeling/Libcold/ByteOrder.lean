import Mathlib.Algebra.Group.Nat.Defs
import Mathlib.Data.Nat.Init
import Mathlib.Tactic.Common

namespace Libcold.ByteOrder

inductive HostOrder
  | little
  | big
  deriving DecidableEq

/-- The low bytes of a number, the least significant one first. -/
def littleBytes : Nat → Nat → List UInt8
  | 0, _ => []
  | n + 1, v => UInt8.ofNat (v % 256) :: littleBytes n (v / 256)

def littleValue : List UInt8 → Nat
  | [] => 0
  | b :: bs => b.toNat + 256 * littleValue bs

def bigBytes (n v : Nat) : List UInt8 := (littleBytes n v).reverse

def bigValue (bs : List UInt8) : Nat := littleValue bs.reverse

def store : HostOrder → Nat → Nat → List UInt8
  | .little, n, v => littleBytes n v
  | .big, n, v => bigBytes n v

def load : HostOrder → List UInt8 → Nat
  | .little, bs => littleValue bs
  | .big, bs => bigValue bs

def swapBytes (n v : Nat) : Nat := bigValue (littleBytes n v)

/-- The conversion between the order of the host and big-endian order. -/
def toBigEndian : HostOrder → Nat → Nat → Nat
  | .little, n, v => swapBytes n v
  | .big, _, v => v

@[simp] theorem littleBytes_length (n v : Nat) : (littleBytes n v).length = n := by
  induction n generalizing v with
  | zero => rfl
  | succ n ih => simp [littleBytes, ih]

@[simp] theorem bigBytes_length (n v : Nat) : (bigBytes n v).length = n := by
  simp [bigBytes]

theorem littleValue_lt (bs : List UInt8) : littleValue bs < 256 ^ bs.length := by
  induction bs with
  | nil => simp [littleValue]
  | cons b bs ih =>
      have hb := b.toNat_lt
      simp only [littleValue, List.length_cons, Nat.pow_succ]
      omega

theorem littleValue_littleBytes (n v : Nat) (h : v < 256 ^ n) :
    littleValue (littleBytes n v) = v := by
  induction n generalizing v with
  | zero => simp only [Nat.pow_zero] at h; simp only [littleBytes, littleValue]; omega
  | succ n ih =>
      have hdiv : v / 256 < 256 ^ n := by rw [Nat.pow_succ] at h; omega
      simp only [littleBytes, littleValue, ih _ hdiv, UInt8.toNat_ofNat']
      omega

theorem littleBytes_littleValue (bs : List UInt8) : littleBytes bs.length (littleValue bs) = bs := by
  induction bs with
  | nil => rfl
  | cons b bs ih =>
      have hb := b.toNat_lt
      have hmod : (b.toNat + 256 * littleValue bs) % 256 = b.toNat := by omega
      have hdiv : (b.toNat + 256 * littleValue bs) / 256 = littleValue bs := by omega
      simp only [List.length_cons, littleValue, littleBytes, hmod, hdiv, ih, UInt8.ofNat_toNat]

theorem bigValue_lt (bs : List UInt8) : bigValue bs < 256 ^ bs.length := by
  simpa [bigValue] using littleValue_lt bs.reverse

theorem bigValue_bigBytes (n v : Nat) (h : v < 256 ^ n) : bigValue (bigBytes n v) = v := by
  simp [bigValue, bigBytes, littleValue_littleBytes n v h]

theorem littleBytes_swapBytes (n v : Nat) : littleBytes n (swapBytes n v) = bigBytes n v := by
  have h := littleBytes_littleValue (littleBytes n v).reverse
  simpa [swapBytes, bigValue, bigBytes] using h

/-- A big-endian conversion followed by a copy of the memory gives the bytes
in big-endian order, whatever the order of the host. -/
theorem store_toBigEndian (o : HostOrder) (n v : Nat) :
    store o n (toBigEndian o n v) = bigBytes n v := by
  cases o with
  | little => exact littleBytes_swapBytes n v
  | big => rfl

theorem toBigEndian_load (o : HostOrder) (bs : List UInt8) :
    toBigEndian o bs.length (load o bs) = bigValue bs := by
  cases o with
  | little => simp [toBigEndian, load, swapBytes, littleBytes_littleValue]
  | big => rfl

end Libcold.ByteOrder
