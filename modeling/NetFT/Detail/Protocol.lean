import Mathlib.Algebra.Order.Field.Rat

/-! The RDT wire protocol of `protocol.cpp` and the severity of a status word (`status.cpp`). A
datagram is the list of its bytes. -/

namespace NetFT.Detail

inductive Command
  | stopStreaming | startRealtime | startBuffered | resetConditionLatch | setSoftwareBias
  deriving DecidableEq, Repr

structure RawRecord where
  rdtSequence : UInt32
  ftSequence : UInt32
  status : UInt32
  fx : Int32
  fy : Int32
  fz : Int32
  tx : Int32
  ty : Int32
  tz : Int32
  deriving DecidableEq, Repr

/-- The byte at an offset; offsets past the end do not occur (see `decodeRecord`). -/
def byteAt (data : List UInt8) (offset : Nat) : UInt8 := data.getD offset 0

def readU32 (data : List UInt8) : UInt32 :=
  ((byteAt data 0).toUInt32 <<< 24) ||| ((byteAt data 1).toUInt32 <<< 16) |||
    ((byteAt data 2).toUInt32 <<< 8) ||| (byteAt data 3).toUInt32

/-- Two's complement by complement and negation, so that no intermediate value leaves the range
of `int32_t`. -/
def readI32 (data : List UInt8) : Int32 :=
  let value := readU32 data
  if value ≤ 0x7fffffff then
    Int32.ofInt value.toNat
  else
    Int32.ofInt (-((~~~value).toNat : Int) - 1)

/-- `none` is the `ProtocolError` of a datagram that is not exactly 36 bytes long. -/
def decodeRecord (data : List UInt8) : Option RawRecord :=
  if data.length ≠ 36 then
    none
  else
    some {
      rdtSequence := readU32 data
      ftSequence := readU32 (data.drop 4)
      status := readU32 (data.drop 8)
      fx := readI32 (data.drop 12)
      fy := readI32 (data.drop 16)
      fz := readI32 (data.drop 20)
      tx := readI32 (data.drop 24)
      ty := readI32 (data.drop 28)
      tz := readI32 (data.drop 32) }

inductive StatusSeverity
  | ok | warn | error
  deriving DecidableEq, Repr

def classifyStatus (status : UInt32) : StatusSeverity :=
  if status = 0 then .ok else if status = 0x80010000 then .warn else .error

end NetFT.Detail
