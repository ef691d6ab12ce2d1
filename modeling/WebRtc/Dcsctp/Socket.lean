import WebRtc.Dcsctp.ChunkValidators
import WebRtc.Dcsctp.OutstandingDataConsistency
import WebRtc.Dcsctp.RRSendQueue

/-!
# The socket's states

Model of how `DcSctpSocket` (`net/dcsctp/socket/dcsctp_socket.cc`) and `TransmissionControlBlock`
drive the retransmission queue: connecting, sending, SACKs, the T3 timer and shutting down. A COOKIE
ECHO comes with what the comparison of tags found, and a burst of packets with the room in them. The
receiving side is left out.
-/

namespace Dcsctp

open Units

inductive SocketState where
  | closed
  | cookieWait
  | cookieEchoed
  | established
  | shutdownPending
  | shutdownSent
  | shutdownReceived
  | shutdownAckSent
deriving DecidableEq, Repr

/-- The fields of `DcSctpOptions` that the modelled functions read. -/
structure DcSctpOptions where
  congestion : CongestionOptions := {}
  maxMessageSize : Nat := 262144
  maxSendBufferSize : Nat := 2000000
  perStreamSendQueueLimit : Nat := 2000000
deriving DecidableEq, Repr

structure TransmissionControlBlock where
  retransmissionQueue : RetransmissionQueue
  cookieEchoChunk : Bool := false

/-- `closings` records the outstanding data whenever `MaybeSendShutdownOrAck` has sent something. -/
structure DcSctpSocket where
  options : DcSctpOptions
  state : SocketState := .closed
  tcb : Option TransmissionControlBlock := none
  sendQueue : RRSendQueue
  closings : List (Window Item) := []

/-- A call of `SendBufferedPackets`: the time, whether a FORWARD TSN may be sent, the room in each
packet. -/
structure Burst where
  now : Timestamp
  forwardTsn : Bool
  bytesRemaining : List Nat

structure Handshake where
  partialReliability : Bool
  myInitialTsn : TSN
  aRwnd : Nat

inductive CookieEchoKind where
  | restart
  | simultaneous
  | late
  | duplicate
deriving DecidableEq, Repr

inductive SendStatus where
  | success
  | errorMessageEmpty
  | errorMessageTooLarge
  | errorResourceExhaustion
  | errorShuttingDown
deriving DecidableEq, Repr

namespace DcSctpSocket

def initial (options : DcSctpOptions) (defaultPriority : StreamPriority) : DcSctpSocket where
  options := options
  sendQueue := RRSendQueue.initial options.congestion.mtu defaultPriority

variable (s : DcSctpSocket)

/-- Lets the retransmission queue and the send queue do something, if there is a transmission
control block. -/
def withTcb
    (f : RetransmissionQueue × RRSendQueue → RetransmissionQueue × RRSendQueue) : DcSctpSocket :=
  match s.tcb with
  | none => s
  | some tcb =>
    { s with
      tcb := some { tcb with retransmissionQueue := (f (tcb.retransmissionQueue, s.sendQueue)).1 }
      sendQueue := (f (tcb.retransmissionQueue, s.sendQueue)).2 }

def maybeSendForwardTsn (burst : Burst) (q : RetransmissionQueue × RRSendQueue) :
    RetransmissionQueue × RRSendQueue :=
  if burst.forwardTsn then
    (RetransmissionQueue.shouldSendForwardTsn RRSendQueue.sendQueue burst.now q).2
  else q

/-- The packets of `TransmissionControlBlock::SendBufferedPackets`. -/
def sendPackets (now : Timestamp) :
    List Nat → RetransmissionQueue × RRSendQueue → RetransmissionQueue × RRSendQueue
  | [], q => q
  | bytesRemaining :: rest, q =>
    sendPackets now rest
      (RetransmissionQueue.getChunksToSend RRSendQueue.sendQueue now bytesRemaining q).2

def sendBufferedPackets (burst : Burst) : DcSctpSocket :=
  s.withTcb fun q => sendPackets burst.now burst.bytesRemaining (maybeSendForwardTsn burst q)

/-- `TransmissionControlBlock::MaybeSendFastRetransmit`, in a packet of its own. -/
def maybeSendFastRetransmit : DcSctpSocket :=
  s.withTcb fun q =>
    if q.1.outstandingData.hasDataToBeFastRetransmitted then
      ((q.1.getChunksForFastRetransmit (roundDownTo4 s.options.congestion.mtu - 12)).2, q.2)
    else q

def maybeSendShutdownOrAck : DcSctpSocket :=
  match s.tcb with
  | none => s
  | some tcb =>
    if tcb.retransmissionQueue.outstandingData.unackedItems ≠ 0 then s
    else
      let outstanding := tcb.retransmissionQueue.outstandingData.outstandingData
      match s.state with
      | .shutdownPending => { s with state := .shutdownSent, closings := outstanding :: s.closings }
      | .shutdownReceived =>
        { s with state := .shutdownAckSent, closings := outstanding :: s.closings }
      | _ => s

def internalClose : DcSctpSocket :=
  if s.state = .closed then s else { s with state := .closed, tcb := none }

def connect : DcSctpSocket :=
  if s.state = .closed then { s with state := .cookieWait } else s

/-- `send_queue_.Reset()` and `CreateTransmissionControlBlock`. -/
def createTransmissionControlBlock (handshake : Handshake)
    (cookieEchoChunk : Bool) : DcSctpSocket :=
  { s with
    sendQueue := s.sendQueue.reset
    tcb := some {
      retransmissionQueue := RetransmissionQueue.initial s.options.congestion
        handshake.partialReliability handshake.myInitialTsn handshake.aRwnd
      cookieEchoChunk := cookieEchoChunk } }

/-- `HandleInitAck`, for an INIT ACK with a cookie. -/
def handleInitAck (handshake : Handshake) (burst : Burst) : DcSctpSocket :=
  if s.state ≠ .cookieWait then s
  else
    { s.createTransmissionControlBlock handshake true with
      state := .cookieEchoed }.sendBufferedPackets burst

/-- `HandleCookieEchoWithTCB`; nothing if the COOKIE ECHO is to be ignored. -/
def handleCookieEchoWithTcb (kind : CookieEchoKind) : Option DcSctpSocket :=
  match kind with
  | .restart => if s.state = .shutdownAckSent then none else some { s with tcb := none }
  | .simultaneous => some { s with tcb := none }
  | .late => none
  | .duplicate => some s

def establish : DcSctpSocket :=
  if s.state = .established then s
  else
    { s with
      state := .established
      tcb := s.tcb.map fun tcb => { tcb with cookieEchoChunk := false } }

/-- `HandleCookieEcho`, for a valid cookie. -/
def handleCookieEcho (kind : CookieEchoKind) (handshake : Handshake)
    (burst : Burst) : DcSctpSocket :=
  match if s.tcb.isSome then s.handleCookieEchoWithTcb kind else some s with
  | none => s
  | some accepted =>
    (if accepted.tcb.isSome then accepted.establish
      else accepted.establish.createTransmissionControlBlock handshake false).sendBufferedPackets
      burst

def handleCookieAck (burst : Burst) : DcSctpSocket :=
  if s.state ≠ .cookieEchoed then s else s.establish.sendBufferedPackets burst

def isShuttingDown : Bool :=
  s.state = .shutdownPending || s.state = .shutdownSent || s.state = .shutdownReceived ||
    s.state = .shutdownAckSent

def internalSend (message : DcSctpMessage) : SendStatus :=
  if message.payload = [] then .errorMessageEmpty
  else if s.options.maxMessageSize < message.payload.length then .errorMessageTooLarge
  else if s.isShuttingDown then .errorShuttingDown
  else if s.options.maxSendBufferSize ≤ s.sendQueue.totalBufferedAmount ∨
      s.options.perStreamSendQueueLimit ≤ s.sendQueue.bufferedAmount message.streamId then
    .errorResourceExhaustion
  else .success

def send (message : DcSctpMessage) (options : SendOptions) (burst : Burst) :
    SendStatus × DcSctpSocket :=
  match s.internalSend message with
  | .success =>
    (.success,
      { s with sendQueue := s.sendQueue.add burst.now message options }.sendBufferedPackets burst)
  | error => (error, s)

def handleSack (s : DcSctpSocket) (chunk : SackChunk) (burst : Burst) : DcSctpSocket :=
  match s.tcb with
  | none => s
  | some tcb =>
    let handled := RetransmissionQueue.handleSack RRSendQueue.sendQueue
      (ChunkValidators.clean chunk) (tcb.retransmissionQueue, s.sendQueue)
    if handled.1 then
      (s.withTcb fun _ => handled.2).maybeSendShutdownOrAck.maybeSendFastRetransmit.sendBufferedPackets
        burst
    else s

/-- `OnRtxTimerExpiry`, unless there were too many errors, when the socket is closed. -/
def onRtxTimerExpiry (burst : Burst) : DcSctpSocket :=
  match s.tcb with
  | none => s
  | some tcb =>
    if tcb.cookieEchoChunk then s
    else
      (s.withTcb (RetransmissionQueue.handleT3RtxTimerExpiry RRSendQueue.sendQueue)
        ).sendBufferedPackets burst

def shutdown : DcSctpSocket :=
  if s.tcb.isSome then
    if s.state ≠ .shutdownSent ∧ s.state ≠ .shutdownAckSent then
      { s with state := .shutdownPending }.maybeSendShutdownOrAck
    else s
  else s.internalClose

def handleShutdown : DcSctpSocket :=
  match s.state with
  | .closed | .cookieWait | .cookieEchoed => s
  | .shutdownSent => { s with state := .shutdownAckSent }
  | .shutdownAckSent | .shutdownReceived => s
  | .established | .shutdownPending =>
    { s with state := .shutdownReceived }.maybeSendShutdownOrAck

def handleShutdownAck : DcSctpSocket :=
  if s.state = .shutdownSent ∨ s.state = .shutdownAckSent then s.internalClose else s

def handleShutdownComplete : DcSctpSocket :=
  if s.state = .shutdownAckSent then s.internalClose else s

def beginResetStreams (s : DcSctpSocket) : DcSctpSocket :=
  s.withTcb fun q =>
    ({ q.1 with outstandingData := q.1.outstandingData.beginResetStreams },
      q.2.getStreamsReadyToBeReset.2)

end DcSctpSocket

end Dcsctp
