import Libcold.ByteOrder

namespace Libcold

open ByteOrder

/-- What the sources leave to the machine and to the build: the byte order of
the host, and whether assertions are compiled out. -/
structure Platform where
  hostOrder : HostOrder
  ndebug : Bool

/-- The ways a call can fail to return: a failed assertion, an exception of the
standard library, a fatal log entry, and an access to an object that is gone. -/
inductive Failure
  | assertion
  | lengthError
  | fatal
  | danglingPointer
  deriving DecidableEq

/-- No object is larger than the greatest pointer difference. -/
def maxSize : Nat := 2 ^ 63 - 1

def wordModulus : Nat := 2 ^ 64

def host16ToNetwork16 (P : Platform) (v : Nat) : Nat := toBigEndian P.hostOrder 2 v

def host64ToNetwork64 (P : Platform) (v : Nat) : Nat := toBigEndian P.hostOrder 8 v

def network64ToHost64 (P : Platform) (v : Nat) : Nat := toBigEndian P.hostOrder 8 v

/-- Copying bytes over an integer and converting it reads it big-endian. -/
theorem host16_load (P : Platform) (bs : List UInt8) (h : bs.length = 2) :
    host16ToNetwork16 P (load P.hostOrder bs) = bigValue bs := by
  simpa [host16ToNetwork16, h] using toBigEndian_load P.hostOrder bs

theorem host64_load (P : Platform) (bs : List UInt8) (h : bs.length = 8) :
    host64ToNetwork64 P (load P.hostOrder bs) = bigValue bs := by
  simpa [host64ToNetwork64, h] using toBigEndian_load P.hostOrder bs

theorem store_host16 (P : Platform) (v : Nat) :
    store P.hostOrder 2 (host16ToNetwork16 P v) = bigBytes 2 v := store_toBigEndian P.hostOrder 2 v

theorem store_host64 (P : Platform) (v : Nat) :
    store P.hostOrder 8 (host64ToNetwork64 P v) = bigBytes 8 v := store_toBigEndian P.hostOrder 8 v

end Libcold
