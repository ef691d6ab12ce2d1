import Mathlib.Data.BitVec

/-!
# dcSCTP: common types

Model of `net/dcsctp/{public/types,common/internal_types,common/math,packet/data}.h`,
`net/dcsctp/public/dcsctp_message.h`, of `packet/chunk/forward_tsn_common.h` and of the fields
of the SACK chunk.
-/

namespace Dcsctp

abbrev StreamID := BitVec 16

abbrev PPID := BitVec 32

abbrev SSN := BitVec 16

abbrev MID := BitVec 32

abbrev FSN := BitVec 32

abbrev TSN := BitVec 32

abbrev OutgoingMessageId := BitVec 32

/-- `LifecycleId`, where zero is "not set". -/
abbrev LifecycleId := BitVec 64

abbrev MaxRetransmits := BitVec 16

/-- `MaxRetransmits::NoLimit()` is the largest value of its type. -/
def MaxRetransmits.noLimit : MaxRetransmits := 0xFFFF

structure Data where
  streamId : StreamID
  ssn : SSN
  mid : MID
  fsn : FSN
  ppid : PPID
  payload : List UInt8
  isBeginning : Bool
  isEnd : Bool
  isUnordered : Bool
deriving DecidableEq, Repr

def Data.size (data : Data) : Nat := data.payload.length

structure DcSctpMessage where
  streamId : StreamID
  ppid : PPID
  payload : List UInt8
deriving DecidableEq, Repr

structure SkippedStream where
  streamId : StreamID
  ssn : SSN
  unordered : Bool
  mid : MID
deriving DecidableEq, Repr

structure GapAckBlock where
  start : BitVec 16
  last : BitVec 16
deriving DecidableEq, Repr

structure SackChunk where
  cumulativeTsnAck : TSN
  aRwnd : Nat
  gapAckBlocks : List GapAckBlock
  duplicateTsns : Finset TSN
deriving DecidableEq

def roundUpTo4 (val : Nat) : Nat := (val + 3) / 4 * 4

def roundDownTo4 (val : Nat) : Nat := val / 4 * 4

end Dcsctp
