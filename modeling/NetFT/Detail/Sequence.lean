import Mathlib.Algebra.Order.Field.Rat

/-! The two sequence trackers of `sequence.cpp`. Sequence numbers are 32-bit words and are
compared in the half-range sense: a number is ahead of another one when their difference modulo
`2^32` is below `2^31`. -/

namespace NetFT.Detail

def kRestartLowMax : UInt32 := 0x0000ffff

def kRestartMinBaseline : UInt32 := kRestartLowMax + 1

def halfRange : UInt32 := 0x80000000

inductive SequenceKind
  | first | contiguous | gap | duplicate | outOfOrder
  deriving DecidableEq, Repr

structure SequenceObservation where
  kind : SequenceKind
  gap : UInt32 := 0
  deriving DecidableEq, Repr

structure RdtSequenceTracker where
  hasLast : Bool := false
  previous : UInt32 := 0
  deriving DecidableEq, Repr

namespace RdtSequenceTracker

def observe (t : RdtSequenceTracker) (current : UInt32) :
    RdtSequenceTracker × SequenceObservation :=
  if !t.hasLast then
    ({ hasLast := true, previous := current }, { kind := .first })
  else
    let delta := current - t.previous
    if delta = 0 then
      (t, { kind := .duplicate })
    else if delta < halfRange then
      ({ t with previous := current },
        if delta = 1 then { kind := .contiguous } else { kind := .gap, gap := delta - 1 })
    else
      (t, { kind := .outOfOrder })

def reset (t : RdtSequenceTracker) : RdtSequenceTracker := { t with hasLast := false }

end RdtSequenceTracker

inductive FtSequenceKind
  | first | forward | stall | backward | restart
  deriving DecidableEq, Repr

structure FtSequenceTracker where
  hasLast : Bool := false
  previous : UInt32 := 0
  hasRestartCandidate : Bool := false
  restartCandidate : UInt32 := 0
  deriving DecidableEq, Repr

namespace FtSequenceTracker

def beginSession (t : FtSequenceTracker) : FtSequenceTracker :=
  { t with hasRestartCandidate := false }

/-- The restart test of `observe`: two low values in a row, the second one ahead of the first,
while the baseline is high. -/
def confirmsRestart (t : FtSequenceTracker) (current : UInt32) : Bool :=
  t.previous ≥ kRestartMinBaseline && t.hasRestartCandidate &&
    t.restartCandidate ≤ kRestartLowMax && current ≤ kRestartLowMax &&
    (let candidateDelta := current - t.restartCandidate
     candidateDelta > 0 && candidateDelta < halfRange)

def observe (t : FtSequenceTracker) (current : UInt32) : FtSequenceTracker × FtSequenceKind :=
  if !t.hasLast then
    ({ t with hasLast := true, previous := current }, .first)
  else if current = t.previous then
    ({ t with hasRestartCandidate := false }, .stall)
  else if current - t.previous < halfRange then
    ({ t with previous := current, hasRestartCandidate := false }, .forward)
  else if t.confirmsRestart current then
    ({ t with previous := current, hasRestartCandidate := false }, .restart)
  else
    ({ t with restartCandidate := current, hasRestartCandidate := true }, .backward)

end FtSequenceTracker

end NetFT.Detail
