import WebRtc.Lib.TreeSearch
import WebRtc.SequenceNumbers
import WebRtc.Units

/-!
# The NACK requester

Model of `modules/video_coding/nack_requester.cc`. The containers are ordered by a comparator that
is an order on half of the sequence numbers only. They are lists in the order in which the tree
visits their elements, and each call is given the way in which it searches them.
-/

namespace Video

open SequenceNumbers Units TreeSearch

def kMaxPacketAge : BitVec 16 := 10000

def kMaxNackPackets : Nat := 1000

def kDefaultRtt : TimeDelta := .millis 100

def kMaxNackRetries : Nat := 100

/-- `DescendingSeqNumComp<uint16_t>`: the first number stands in front of the second. -/
def descendingSeqNumComp (a b : BitVec 16) : Bool := aheadOf b a

variable (search : Search (BitVec 16))

def lowerBound (keys : List (BitVec 16)) (key : BitVec 16) : Nat :=
  search.index (fun k => descendingSeqNumComp k key) keys

def find (keys : List (BitVec 16)) (key : BitVec 16) : Option Nat :=
  let i := lowerBound search keys key
  match keys[i]? with
  | none => none
  | some k => if descendingSeqNumComp key k then none else some i

def insertKey (keys : List (BitVec 16)) (key : BitVec 16) : List (BitVec 16) :=
  let i := search.index (fun k => !descendingSeqNumComp key k) keys
  match (keys.take i).getLast? with
  | none => keys.insertIdx i key
  | some k => if descendingSeqNumComp k key then keys.insertIdx i key else keys

structure NackInfo where
  seqNum : BitVec 16
  sendAtSeqNum : BitVec 16
  createdAtTime : Timestamp
  sentAtTime : Timestamp
  retries : Nat
deriving DecidableEq

def assign (nackList : List NackInfo) (info : NackInfo) : List NackInfo :=
  let i := lowerBound search (nackList.map NackInfo.seqNum) info.seqNum
  match nackList[i]? with
  | none => nackList.insertIdx i info
  | some e =>
    if descendingSeqNumComp info.seqNum e.seqNum then nackList.insertIdx i info
    else nackList.set i info

/-- `checked` records whether the `RTC_DCHECK` of `AddPacketsToNack` has held so far. -/
structure NackRequester where
  nackList : List NackInfo
  recoveredList : List (BitVec 16)
  initialized : Bool
  rtt : TimeDelta
  newestSeqNum : BitVec 16
  sendNackDelay : TimeDelta
  checked : Bool

/-- What a call returns, the batch it sends (none when empty) and whether it requests a key frame. -/
structure Output where
  result : Nat
  batch : List (BitVec 16)
  keyFrameRequested : Bool
deriving DecidableEq

inductive NackFilterOptions where
  | seqNumOnly
  | timeOnly
  | seqNumAndTime
deriving DecidableEq

namespace NackRequester

def initial (sendNackDelay : TimeDelta) : NackRequester where
  nackList := []
  recoveredList := []
  initialized := false
  rtt := kDefaultRtt
  newestSeqNum := 0
  sendNackDelay := sendNackDelay
  checked := true

variable (q : NackRequester)

def keys : List (BitVec 16) := q.nackList.map NackInfo.seqNum

/-- Every packet is taken for a retransmitted one, so the histogram is empty. -/
def waitNumberOfPackets : BitVec 16 := 0

def due (options : NackFilterOptions) (now : Timestamp) (info : NackInfo) : Bool :=
  let considerSeqNum := options != .timeOnly
  let considerTimestamp := options != .seqNumOnly
  let delayTimedOut := decide (q.sendNackDelay ≤ now - info.createdAtTime)
  let nackOnRttPassed := decide (q.rtt ≤ now - info.sentAtTime)
  let nackOnSeqNumPassed := info.sentAtTime.isInfinite && aheadOrAt q.newestSeqNum info.sendAtSeqNum
  delayTimedOut &&
    ((considerSeqNum && nackOnSeqNumPassed) || (considerTimestamp && nackOnRttPassed))

def sent (now : Timestamp) (info : NackInfo) : NackInfo :=
  { info with retries := info.retries + 1, sentAtTime := now }

/-- The loop of `GetNackBatch`: the batch, and what is left of the list. -/
def collect (q : NackRequester) (options : NackFilterOptions) (now : Timestamp) :
    List NackInfo → List (BitVec 16) × List NackInfo
  | [] => ([], [])
  | info :: rest =>
    let (batch, left) := collect q options now rest
    if q.due options now info then
      let info := sent now info
      if info.retries ≥ kMaxNackRetries then (info.seqNum :: batch, left)
      else (info.seqNum :: batch, info :: left)
    else (batch, info :: left)

def getNackBatch (options : NackFilterOptions) (now : Timestamp) :
    List (BitVec 16) × NackRequester :=
  let (batch, left) := q.collect options now q.nackList
  (batch, { q with nackList := left })

def addPacketToNack (now : Timestamp) (q : NackRequester) (seqNum : BitVec 16) : NackRequester :=
  if (find search q.recoveredList seqNum).isSome then q
  else
    let info : NackInfo := ⟨seqNum, seqNum + waitNumberOfPackets, now, .minusInfinity, 0⟩
    { q with
      nackList := assign search q.nackList info
      checked := q.checked && (find search q.keys seqNum).isNone }

/-- The loop of `AddPacketsToNack`, with the number of rounds left. -/
def addNewPackets (search : Search (BitVec 16)) (now : Timestamp) :
    Nat → BitVec 16 → NackRequester → NackRequester
  | 0, _, q => q
  | n + 1, seqNum, q => addNewPackets search now n (seqNum + 1) (addPacketToNack search now q seqNum)

/-- The erasure of the numbers up to `lower_bound(key)` in `nack_list_`. -/
def eraseBelow (key : BitVec 16) : NackRequester :=
  { q with nackList := q.nackList.drop (lowerBound search q.keys key) }

/-- `AddPacketsToNack`: the requester, and whether a key frame is requested. -/
def addPacketsToNack (now : Timestamp) (q : NackRequester)
    (seqNumStart seqNumEnd : BitVec 16) : NackRequester × Bool :=
  let q := q.eraseBelow search (seqNumEnd - kMaxPacketAge)
  let numNewNacks := (forwardDiff seqNumStart seqNumEnd).toNat
  if q.nackList.length + numNewNacks > kMaxNackPackets then ({ q with nackList := [] }, true)
  else (addNewPackets search now numNewNacks seqNumStart q, false)

/-- `OnReceivedPacket`, for a packet behind the newest one. -/
def receiveOutOfOrder (seqNum : BitVec 16) : NackRequester × Output :=
  match find search q.keys seqNum with
  | none => (q, ⟨0, [], false⟩)
  | some i =>
    let nacksSentForPacket := ((q.nackList[i]?).map NackInfo.retries).getD 0
    ({ q with nackList := q.nackList.eraseIdx i }, ⟨nacksSentForPacket, [], false⟩)

/-- `OnReceivedPacket`, for a recovered packet ahead of the newest one. -/
def receiveRecovered (seqNum : BitVec 16) : NackRequester × Output :=
  let recoveredList := insertKey search q.recoveredList seqNum
  let recoveredList := recoveredList.drop (lowerBound search recoveredList (seqNum - kMaxPacketAge))
  ({ q with recoveredList := recoveredList }, ⟨0, [], false⟩)

/-- `OnReceivedPacket`, for a packet ahead of the newest one that was not recovered. -/
def receiveNewer (now : Timestamp) (q : NackRequester)
    (seqNum : BitVec 16) : NackRequester × Output :=
  let (q, keyFrameRequested) := q.addPacketsToNack search now (q.newestSeqNum + 1) seqNum
  let q := { q with newestSeqNum := seqNum }
  let (batch, q) := q.getNackBatch .seqNumOnly now
  (q, ⟨0, batch, keyFrameRequested⟩)

def onReceivedPacket (now : Timestamp) (q : NackRequester)
    (seqNum : BitVec 16) (isRecovered : Bool) : NackRequester × Output :=
  if !q.initialized then ({ q with newestSeqNum := seqNum, initialized := true }, ⟨0, [], false⟩)
  else if seqNum = q.newestSeqNum then (q, ⟨0, [], false⟩)
  else if aheadOf q.newestSeqNum seqNum then q.receiveOutOfOrder search seqNum
  else if isRecovered then q.receiveRecovered search seqNum
  else q.receiveNewer search now seqNum

def clearUpTo (seqNum : BitVec 16) : NackRequester :=
  { q.eraseBelow search seqNum with
    recoveredList := q.recoveredList.drop (lowerBound search q.recoveredList seqNum) }

def updateRtt (rttMs : Int) : NackRequester := { q with rtt := .millis rttMs }

def processNacks (now : Timestamp) : NackRequester × Output :=
  let (batch, q) := q.getNackBatch .timeOnly now
  (q, ⟨0, batch, false⟩)

inductive Op where
  | onReceivedPacket (seqNum : BitVec 16) (isRecovered : Bool)
  | clearUpTo (seqNum : BitVec 16)
  | updateRtt (rttMs : Int)
  | processNacks

structure Call where
  search : Search (BitVec 16)
  now : Int
  op : Op

def perform (c : Call) : NackRequester × Output :=
  match c.op with
  | .onReceivedPacket seqNum isRecovered =>
    q.onReceivedPacket c.search (.finite c.now) seqNum isRecovered
  | .clearUpTo seqNum => (q.clearUpTo c.search seqNum, ⟨0, [], false⟩)
  | .updateRtt rttMs => (q.updateRtt rttMs, ⟨0, [], false⟩)
  | .processNacks => q.processNacks (.finite c.now)

def after (calls : List Call) : NackRequester :=
  calls.foldl (fun q c => (q.perform c).1) q

def batches (q : NackRequester) : List Call → List (List (BitVec 16))
  | [] => []
  | c :: calls => (q.perform c).2.batch :: batches (q.perform c).1 calls

end NackRequester

end Video
