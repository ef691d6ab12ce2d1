import WebRtc.Rtcp.CommonHeader
import WebRtc.Units
import Mathlib.Data.BitVec
import Mathlib.Data.List.TakeWhile

/-!
# RFC 8888 congestion control feedback

Model of `modules/rtp_rtcp/source/rtcp_packet/congestion_control_feedback.cc`.
`Create` cuts the packet list into runs of one SSRC, `BlockLength` predicts the
size from sequence number differences, and `Parse` reads the blocks back.
-/

namespace Rtcp

open ByteCodec Units List

inductive EcnMarking where
  | notEct
  | ect1
  | ect0
  | ce
deriving DecidableEq, Repr

structure PacketInfo where
  ssrc : BitVec 32
  sequenceNumber : BitVec 16
  arrivalTimeOffset : TimeDelta
  ecn : EcnMarking
deriving DecidableEq, Repr

structure CongestionControlFeedback where
  senderSsrc : BitVec 32 := 0
  packets : List PacketInfo := []
  reportTimestampCompactNtp : BitVec 32 := 0
deriving DecidableEq, Repr

namespace CongestionControlFeedback

variable (feedback : CongestionControlFeedback)

def kFeedbackMessageType : Nat := 11

def kPacketType : UInt8 := 205

def kSenderSsrcLength : Nat := 4

def kHeaderPerMediaSssrcLength : Nat := 8

def kTimestampLength : Nat := 4

/-- `To13bitAto`, with the multiplication by 1024 taken as exact. -/
def to13bitAto (arrivalTimeOffset : TimeDelta) : Nat :=
  if arrivalTimeOffset < UnitBase.zero then 0x1FFF
  else
    match arrivalTimeOffset with
    | .finite us => min (1024 * us / 1000000).toNat 0x1FFE
    -- Never reached: `Create` encodes finite offsets only.
    | _ => 0x1FFE

def atoToTimeDelta (receiveInfo : Nat) : TimeDelta :=
  let ato := receiveInfo &&& 0x1FFF
  if ato = 0x1FFE then .plusInfinity
  else if ato = 0x1FFF then .minusInfinity
  else .finite ((ato * 1000000 / 1024 : Nat) : Int)

def to2BitEcn : EcnMarking → Nat
  | .notEct => 0
  | .ect1 => 1 <<< 13
  | .ect0 => 2 <<< 13
  | .ce => 3 <<< 13

def toEcnMarking (receiveInfo : Nat) : EcnMarking :=
  let ecn := (receiveInfo >>> 13) &&& 3
  if ecn = 1 then .ect1
  else if ecn = 2 then .ect0
  else if ecn = 3 then .ce
  else .notEct

/-- The metric block of one packet: received bit, ECN marking and arrival offset. -/
def packetInfoBits (packet : PacketInfo) : Nat :=
  if packet.arrivalTimeOffset.isFinite then
    0x8000 ||| to2BitEcn packet.ecn ||| to13bitAto packet.arrivalTimeOffset
  else 0

/-- The lambda `write_report_for_ssrc` of `Create`. -/
def writeReportForSsrc : List PacketInfo → List UInt8
  | [] => []
  | first :: rest =>
    let packets := first :: rest
    let numReports := packets.length % 2 ^ 16
    bytesBE 4 first.ssrc.toNat ++ bytesBE 2 first.sequenceNumber.toNat ++
      if numReports > 16384 then []
      else
        bytesBE 2 numReports ++ packets.flatMap (fun packet => bytesBE 2 (packetInfoBits packet)) ++
          if numReports % 2 ≠ 0 then bytesBE 2 0 else []

/-- The loop of `Create` over runs of packets with one SSRC. -/
def writeReports (remaining : List PacketInfo) : List UInt8 :=
  match remaining with
  | [] => []
  | first :: rest =>
    writeReportForSsrc (first :: rest.takeWhile (fun packet => packet.ssrc = first.ssrc)) ++
      writeReports (rest.dropWhile (fun packet => packet.ssrc = first.ssrc))
termination_by remaining.length
decreasing_by
  exact Nat.lt_succ_of_le ((List.dropWhile_suffix _).length_le)

/-- The lambda `increase_size_per_ssrc` of `BlockLength`. -/
def increaseSizePerSsrc (numberOfPacketsForSsrc : Nat) : Nat :=
  kHeaderPerMediaSssrcLength + numberOfPacketsForSsrc * 2 +
    if numberOfPacketsForSsrc % 2 ≠ 0 then 2 else 0

/-- `previous` is the last sequence number seen and `first` the first one of the SSRC. -/
def blockLengthLoop (ssrc : BitVec 32) (first previous : BitVec 16) (totalSize : Nat) :
    List PacketInfo → Nat
  | [] => totalSize + increaseSizePerSsrc (previous - first + 1).toNat
  | packet :: rest =>
    if packet.ssrc ≠ ssrc then
      blockLengthLoop packet.ssrc packet.sequenceNumber packet.sequenceNumber
        (totalSize + increaseSizePerSsrc (previous - first + 1).toNat) rest
    else blockLengthLoop ssrc first packet.sequenceNumber totalSize rest

def blockLength (feedback : CongestionControlFeedback) : Nat :=
  let totalSize := kSenderSsrcLength + kHeaderLength + kTimestampLength
  match feedback.packets with
  | [] => totalSize
  | front :: rest =>
    blockLengthLoop front.ssrc front.sequenceNumber front.sequenceNumber totalSize rest

/-- The bytes `Create` writes once there is room. -/
def packetBytes (feedback : CongestionControlFeedback) : List UInt8 :=
  createHeader kFeedbackMessageType kPacketType (headerLength feedback.blockLength) false ++
    (bytesBE 4 feedback.senderSsrc.toNat ++
      (writeReports feedback.packets ++ bytesBE 4 feedback.reportTimestampCompactNtp.toNat))

def create (feedback : CongestionControlFeedback) (maxLength : Nat) (buffer : Buffer) :
    Option Buffer :=
  (ensureRoom feedback.blockLength maxLength buffer).map fun room =>
    { room with written := room.written ++ feedback.packetBytes }

/-- The inner loop of `Parse` over the metric blocks of one SSRC. -/
def readPackets (ssrc : BitVec 32) (seqNo : BitVec 16) : Nat → List UInt8 → List PacketInfo
  | 0, _ => []
  | n + 1, payload =>
    let packetInfo := natBE (payload.take 2)
    let received := packetInfo &&& 0x8000 ≠ 0
    { ssrc := ssrc
      sequenceNumber := seqNo
      arrivalTimeOffset := if received then atoToTimeDelta packetInfo else .minusInfinity
      ecn := toEcnMarking packetInfo } :: readPackets ssrc (seqNo + 1) n (payload.drop 2)

/-- The outer loop of `Parse`: the packets read, and what is left before `payload_end`. -/
def parseReports (payload : List UInt8) : Option (List PacketInfo × List UInt8) :=
  if kHeaderPerMediaSssrcLength < payload.length then
    let ssrc := BitVec.ofNat 32 (natBE (payload.take 4))
    let baseSeqno := BitVec.ofNat 16 (natBE ((payload.drop 4).take 2))
    let numReports := natBE ((payload.drop 6).take 2)
    let infos := payload.drop 8
    if 2 * numReports > infos.length then none
    else
      let next := infos.drop (2 * numReports + if numReports % 2 ≠ 0 then 2 else 0)
      (parseReports next).map fun (packets, tail) =>
        (readPackets ssrc baseSeqno numReports infos ++ packets, tail)
  else some ([], payload)
termination_by payload.length
decreasing_by
  simp only [kHeaderPerMediaSssrcLength, List.length_drop] at *
  omega

def parse (self : CongestionControlFeedback) (packet : CommonHeader) :
    Option CongestionControlFeedback :=
  let size := packet.payload.length
  if size % 4 ≠ 0 ∨ size < kSenderSsrcLength + kTimestampLength then none
  else
    let payload := (packet.payload.drop 4).take (size - 8)
    match parseReports payload with
    | some (packets, []) => some
        { senderSsrc := BitVec.ofNat 32 (natBE (packet.payload.take 4))
          packets := self.packets ++ packets
          reportTimestampCompactNtp := BitVec.ofNat 32 (natBE (packet.payload.drop (size - 4))) }
    | _ => none

theorem to13bitAto_lt (offset : TimeDelta) : to13bitAto offset < 2 ^ 13 := by
  unfold to13bitAto
  split
  · decide
  · split <;> omega

theorem or_lowBits_and (high low : Nat) (hhigh : high &&& 0x1FFF = 0) (hlow : low < 2 ^ 13) :
    (high ||| low) &&& 0x1FFF = low := by
  have hmask : low &&& (2 ^ 13 - 1) = low := by
    rw [Nat.and_two_pow_sub_one_eq_mod, Nat.mod_eq_of_lt hlow]
  rw [Nat.and_or_distrib_right, hhigh, Nat.zero_or]
  exact hmask

theorem packetInfoBits_lt (packet : PacketInfo) : packetInfoBits packet < 256 ^ 2 := by
  unfold packetInfoBits
  split
  · have hecn : 0x8000 ||| to2BitEcn packet.ecn < 2 ^ 16 := by
      cases packet.ecn <;> decide
    have hato := to13bitAto_lt packet.arrivalTimeOffset
    exact Nat.or_lt_two_pow hecn (by omega)
  · decide

section

variable (ecn : EcnMarking) (ato : Nat) (hato : ato < 2 ^ 13)
include hato

theorem received_bit : (0x8000 ||| to2BitEcn ecn ||| ato) &&& 0x8000 ≠ 0 := by
  have hlow : ato &&& 0x8000 = 0 := by
    refine Nat.eq_of_testBit_eq fun i => ?_
    rw [Nat.testBit_and, Nat.zero_testBit]
    by_cases hi : i < 13
    · have hmask : Nat.testBit 0x8000 i = false := by
        have hall : ∀ j : Fin 13, Nat.testBit 0x8000 j.val = false := by decide
        exact hall ⟨i, hi⟩
      rw [hmask, Bool.and_false]
    · have hle : (2 : Nat) ^ 13 ≤ 2 ^ i := Nat.pow_le_pow_right (by decide) (by omega)
      rw [Nat.testBit_lt_two_pow (by omega), Bool.false_and]
  rw [Nat.and_or_distrib_right, hlow]
  cases ecn <;> decide

theorem toEcnMarking_bits : toEcnMarking (0x8000 ||| to2BitEcn ecn ||| ato) = ecn := by
  unfold toEcnMarking
  rw [Nat.shiftRight_or_distrib, Nat.shiftRight_eq_div_pow ato, Nat.div_eq_of_lt hato, Nat.or_zero]
  cases ecn <;> decide

theorem atoToTimeDelta_bits :
    atoToTimeDelta (0x8000 ||| to2BitEcn ecn ||| ato) = atoToTimeDelta ato := by
  have hhigh : (0x8000 ||| to2BitEcn ecn) &&& 0x1FFF = 0 := by
    cases ecn <;> decide
  have hself : ato &&& 0x1FFF = ato := by
    simpa using or_lowBits_and 0 ato rfl hato
  unfold atoToTimeDelta
  rw [or_lowBits_and _ _ hhigh hato, hself]

end

/-- What a packet becomes on its way through the metric block. -/
def requantise (packet : PacketInfo) : PacketInfo :=
  { packet with
    arrivalTimeOffset :=
      if packet.arrivalTimeOffset.isFinite then
        atoToTimeDelta (to13bitAto packet.arrivalTimeOffset)
      else .minusInfinity }

/-- The class comment on unreceived packets: minus infinity and no ECN marking. -/
def ValidInfo (offset : TimeDelta) (ecn : EcnMarking) : Prop :=
  offset.isFinite = true ∨ offset = .minusInfinity ∧ ecn = .notEct

theorem requantise_offset (us : Int) (nonneg : 0 ≤ us) (inRange : us * 1024 < 8190 * 1000000) :
    ∃ us' : Int, atoToTimeDelta (to13bitAto (.finite us)) = .finite us' ∧
      0 ≤ us - us' ∧ (us - us') * 1024 < 1000000 + 1024 := by
  obtain ⟨n, rfl⟩ := Int.eq_ofNat_of_zero_le nonneg
  have hato : to13bitAto (.finite (n : Int)) = 1024 * n / 1000000 := by
    have hnot : ¬ UnitBase.finite (n : Int) < UnitBase.zero := by
      rw [UnitBase.zero, UnitBase.finite_lt_finite]
      omega
    rw [to13bitAto, if_neg hnot]
    omega
  have hself : 1024 * n / 1000000 &&& 0x1FFF = 1024 * n / 1000000 := by
    simpa using or_lowBits_and 0 (1024 * n / 1000000) rfl (by omega)
  refine ⟨((1024 * n / 1000000 * 1000000 / 1024 : Nat) : Int), ?_, by omega, by omega⟩
  rw [hato, atoToTimeDelta, hself, if_neg (by omega), if_neg (by omega)]

/-- An offset survives the 13 bits exactly below `8190/1024` s; from there on it is
written as over-range. -/
theorem requantise_isFinite (us : Int) (nonneg : 0 ≤ us) :
    (atoToTimeDelta (to13bitAto (.finite us))).isFinite = true ↔ us ≤ 7998046 := by
  constructor
  · intro hfinite
    by_contra hlarge
    have hato : to13bitAto (.finite us) = 0x1FFE := by
      have hnot : ¬ UnitBase.finite us < UnitBase.zero := by
        rw [UnitBase.zero, UnitBase.finite_lt_finite]
        omega
      rw [to13bitAto, if_neg hnot]
      omega
    rw [hato] at hfinite
    cases hfinite
  · intro hsmall
    obtain ⟨us', heq, -, -⟩ := requantise_offset us nonneg (by omega)
    rw [heq]
    rfl

/-- Consecutive packets of one SSRC, no more of them than a report block may hold. -/
structure ReportBlock where
  ssrc : BitVec 32
  beginSeq : BitVec 16
  infos : List (TimeDelta × EcnMarking)
  nonempty : infos ≠ []
  atMost : infos.length ≤ 16384
  valid : ∀ info ∈ infos, ValidInfo info.1 info.2

/-- Packets with consecutive sequence numbers modulo `2^16`. -/
def packetsFrom (ssrc : BitVec 32) (seq : BitVec 16) :
    List (TimeDelta × EcnMarking) → List PacketInfo
  | [] => []
  | info :: rest => ⟨ssrc, seq, info.1, info.2⟩ :: packetsFrom ssrc (seq + 1) rest

def ReportBlock.packets (block : ReportBlock) : List PacketInfo :=
  packetsFrom block.ssrc block.beginSeq block.infos

/-- The list is cut into report blocks, neighbouring ones having different SSRCs. -/
def Grouped (packets : List PacketInfo) : Prop :=
  ∃ blocks : List ReportBlock, blocks.IsChain (fun a b => a.ssrc ≠ b.ssrc) ∧
      packets = blocks.flatMap ReportBlock.packets

@[simp] theorem length_packetsFrom (ssrc : BitVec 32) (seq : BitVec 16)
    (infos : List (TimeDelta × EcnMarking)) :
    (packetsFrom ssrc seq infos).length = infos.length := by
  induction infos generalizing seq with
  | nil => rfl
  | cons info rest ih => rw [packetsFrom, length_cons, ih, length_cons]

theorem ssrc_of_mem_packetsFrom {ssrc : BitVec 32} {seq : BitVec 16}
    {infos : List (TimeDelta × EcnMarking)} {packet : PacketInfo}
    (h : packet ∈ packetsFrom ssrc seq infos) : packet.ssrc = ssrc := by
  induction infos generalizing seq with
  | nil => cases h
  | cons info rest ih =>
    rcases mem_cons.mp h with rfl | hrest
    · rfl
    · exact ih hrest

variable (block : ReportBlock)

theorem packets_eq_cons : ∃ info rest, block.infos = info :: rest ∧
      block.packets = ⟨block.ssrc, block.beginSeq, info.1, info.2⟩ ::
        packetsFrom block.ssrc (block.beginSeq + 1) rest := by
  obtain ⟨info, rest, hcons⟩ := exists_cons_of_ne_nil block.nonempty
  refine ⟨info, rest, hcons, ?_⟩
  rw [ReportBlock.packets, hcons, packetsFrom]

theorem head_ssrc_ne {block : ReportBlock} {blocks : List ReportBlock}
    (chain : (block :: blocks).IsChain (fun a b => a.ssrc ≠ b.ssrc)) :
    ∀ packet ∈ (blocks.flatMap ReportBlock.packets).head?, packet.ssrc ≠ block.ssrc := by
  intro packet hmem
  cases blocks with
  | nil => cases hmem
  | cons next blocks =>
    obtain ⟨info, rest, -, hpackets⟩ := packets_eq_cons next
    rw [flatMap_cons, hpackets] at hmem
    cases hmem
    exact fun heq => (isChain_cons_cons.mp chain).1 heq.symm

variable (blocks : List ReportBlock)

theorem writeReports_block (chain : (block :: blocks).IsChain (fun a b => a.ssrc ≠ b.ssrc)) :
    writeReports ((block :: blocks).flatMap ReportBlock.packets) =
      writeReportForSsrc block.packets ++ writeReports (blocks.flatMap ReportBlock.packets) := by
  obtain ⟨info, rest, -, hpackets⟩ := packets_eq_cons block
  have hsame : ∀ packet ∈ packetsFrom block.ssrc (block.beginSeq + 1) rest,
      decide (packet.ssrc = block.ssrc) = true := fun packet hmem =>
    decide_eq_true (ssrc_of_mem_packetsFrom hmem)
  have hstop : ∀ hpos : 0 < (blocks.flatMap ReportBlock.packets).length,
      ¬ decide ((blocks.flatMap ReportBlock.packets)[0].ssrc = block.ssrc) = true := fun hpos => by
    simpa using head_ssrc_ne chain _ (head?_eq_getElem? .. ▸ getElem?_eq_getElem hpos)
  rw [flatMap_cons, hpackets, cons_append, writeReports,
    takeWhile_append_of_pos hsame, dropWhile_append_of_pos hsame,
    takeWhile_eq_nil_iff.mpr hstop, dropWhile_eq_self_iff.mpr hstop, append_nil]

/-- The bytes that align a block of `n` reports to 32 bits. -/
def alignment (n : Nat) : List UInt8 := if n % 2 ≠ 0 then bytesBE 2 0 else []

def metricBytes (packets : List PacketInfo) : List UInt8 :=
  packets.flatMap fun packet => bytesBE 2 (packetInfoBits packet)

theorem writeReportForSsrc_packets : writeReportForSsrc block.packets =
      bytesBE 4 block.ssrc.toNat ++ (bytesBE 2 block.beginSeq.toNat ++
        (bytesBE 2 block.infos.length ++
          (metricBytes block.packets ++ alignment block.infos.length))) := by
  obtain ⟨info, rest, hinfos, hpackets⟩ := packets_eq_cons block
  have hlength : block.packets.length = block.infos.length :=
    length_packetsFrom _ _ _
  have hmod : block.infos.length % 2 ^ 16 = block.infos.length :=
    Nat.mod_eq_of_lt (Nat.lt_of_le_of_lt block.atMost (by decide))
  rw [hpackets] at hlength ⊢
  rw [writeReportForSsrc, hlength, hmod]
  rw [if_neg (Nat.not_lt.mpr block.atMost), metricBytes, alignment]
  simp

theorem length_metricBytes (packets : List PacketInfo) :
    (metricBytes packets).length = 2 * packets.length := by
  induction packets with
  | nil => rfl
  | cons packet rest ih =>
    have hcons : metricBytes (packet :: rest) =
        bytesBE 2 (packetInfoBits packet) ++ metricBytes rest := flatMap_cons
    rw [hcons, length_append, length_bytesBE, length_cons]
    omega

theorem length_alignment (n : Nat) : (alignment n).length = if n % 2 ≠ 0 then 2 else 0 := by
  unfold alignment
  split <;> rfl

theorem length_writeReportForSsrc :
    (writeReportForSsrc block.packets).length = increaseSizePerSsrc block.infos.length := by
  have hlength : block.packets.length = block.infos.length := length_packetsFrom _ _ _
  rw [writeReportForSsrc_packets]
  simp only [length_append, length_bytesBE, length_metricBytes, length_alignment,
    increaseSizePerSsrc, kHeaderPerMediaSssrcLength]
  omega

def blocksSize : Nat :=
  (blocks.map fun block => increaseSizePerSsrc block.infos.length).sum

@[simp] theorem blocksSize_cons :
    blocksSize (block :: blocks) = increaseSizePerSsrc block.infos.length + blocksSize blocks :=
  sum_cons

theorem length_writeReports (chain : blocks.IsChain (fun a b => a.ssrc ≠ b.ssrc)) :
    (writeReports (blocks.flatMap ReportBlock.packets)).length = blocksSize blocks := by
  induction blocks with
  | nil => simp [writeReports, blocksSize]
  | cons block blocks ih =>
    rw [writeReports_block block blocks chain, length_append, length_writeReportForSsrc,
      ih chain.of_cons, blocksSize_cons]

/-- Within a run the loop of `BlockLength` only moves `previous`. -/
theorem blockLengthLoop_run (ssrc : BitVec 32) (first previous : BitVec 16) (totalSize : Nat)
    (infos : List (TimeDelta × EcnMarking)) (more : List PacketInfo) :
    blockLengthLoop ssrc first previous totalSize (packetsFrom ssrc (previous + 1) infos ++ more) =
      blockLengthLoop ssrc first (previous + BitVec.ofNat 16 infos.length) totalSize more := by
  induction infos generalizing previous with
  | nil => simp [packetsFrom]
  | cons info rest ih =>
    have hnext : previous + 1 + BitVec.ofNat 16 rest.length =
        previous + BitVec.ofNat 16 (rest.length + 1) := by
      rw [BitVec.ofNat_add, add_assoc, add_comm (1 : BitVec 16)]
      rfl
    rw [packetsFrom, cons_append, blockLengthLoop, if_neg (not_not.mpr rfl)]
    rw [ih, hnext, length_cons]

theorem run_length (first : BitVec 16) (n : Nat) (small : n < 2 ^ 16 - 1) :
    (first + BitVec.ofNat 16 n - first + 1).toNat = n + 1 := by
  rw [add_sub_cancel_left]
  have hn : (BitVec.ofNat 16 n).toNat = n := Nat.mod_eq_of_lt (by omega)
  rw [BitVec.toNat_add, hn]
  exact Nat.mod_eq_of_lt (by simpa using (by omega : n + 1 < 2 ^ 16))

theorem blockLengthLoop_blocks
    (chain : (block :: blocks).IsChain (fun a b => a.ssrc ≠ b.ssrc)) (totalSize : Nat)
    (info : TimeDelta × EcnMarking) (rest : List (TimeDelta × EcnMarking))
    (hinfos : block.infos = info :: rest) :
    blockLengthLoop block.ssrc block.beginSeq block.beginSeq totalSize
        (packetsFrom block.ssrc (block.beginSeq + 1) rest ++ blocks.flatMap ReportBlock.packets) =
      totalSize + blocksSize (block :: blocks) := by
  induction blocks generalizing block totalSize info rest with
  | nil =>
    have hmost := block.atMost
    rw [hinfos, length_cons] at hmost
    rw [blockLengthLoop_run, flatMap_nil, blockLengthLoop, run_length _ _ (by omega),
      blocksSize_cons, hinfos]
    rfl
  | cons next blocks ih =>
    have hmost := block.atMost
    rw [hinfos, length_cons] at hmost
    obtain ⟨info', rest', hinfos', hpackets⟩ := packets_eq_cons next
    have hne := (isChain_cons_cons.mp chain).1
    rw [blockLengthLoop_run, flatMap_cons, hpackets, cons_append, blockLengthLoop,
      if_pos (fun heq => hne heq.symm)]
    rw [ih next chain.of_cons _ info' rest' hinfos', run_length _ _ (by omega)]
    rw [blocksSize_cons block, hinfos, length_cons]
    omega

theorem blockLength_blocks (chain : blocks.IsChain (fun a b => a.ssrc ≠ b.ssrc))
    (hpackets : feedback.packets = blocks.flatMap ReportBlock.packets) :
    feedback.blockLength = 12 + blocksSize blocks := by
  cases blocks with
  | nil =>
    rw [blockLength, hpackets]
    rfl
  | cons block blocks =>
    obtain ⟨info, rest, hinfos, hcons⟩ := packets_eq_cons block
    rw [flatMap_cons, hcons] at hpackets
    rw [blockLength, hpackets]
    exact blockLengthLoop_blocks block blocks chain _ info rest hinfos

theorem length_packetBytes (grouped : Grouped feedback.packets) :
    feedback.packetBytes.length = feedback.blockLength := by
  obtain ⟨blocks, chain, hpackets⟩ := grouped
  rw [blockLength_blocks feedback blocks chain hpackets, packetBytes, hpackets]
  simp only [length_append, length_createHeader, length_bytesBE, kHeaderLength,
    length_writeReports blocks chain]
  omega

theorem natBE_toNat {w n : Nat} (v : BitVec w) (hw : w = 8 * n) (rest : List UInt8) :
    BitVec.ofNat w (natBE ((bytesBE n v.toNat ++ rest).take n)) = v := by
  have hfits : v.toNat < 256 ^ n := by
    have hpow : (2 : Nat) ^ w = 256 ^ n := by rw [hw, Nat.pow_mul]
    exact hpow ▸ v.isLt
  rw [natBE_take_append hfits, BitVec.ofNat_toNat, BitVec.setWidth_eq]

theorem readPacket_bits (packet : PacketInfo)
    (valid : ValidInfo packet.arrivalTimeOffset packet.ecn) :
    (if packetInfoBits packet &&& 0x8000 ≠ 0 then atoToTimeDelta (packetInfoBits packet)
      else .minusInfinity) = (requantise packet).arrivalTimeOffset ∧
    toEcnMarking (packetInfoBits packet) = packet.ecn := by
  have hato := to13bitAto_lt packet.arrivalTimeOffset
  rcases valid with hfinite | ⟨hoffset, hecn⟩
  · rw [packetInfoBits, if_pos hfinite, if_pos (received_bit _ _ hato), atoToTimeDelta_bits _ _
      hato, toEcnMarking_bits _ _ hato]
    exact ⟨(if_pos hfinite).symm, rfl⟩
  · have hbits : packetInfoBits packet = 0 := by
      rw [packetInfoBits, hoffset]
      rfl
    rw [hbits, requantise, hoffset, hecn]
    exact ⟨rfl, rfl⟩

theorem readPackets_packetsFrom (ssrc : BitVec 32) (seq : BitVec 16)
    (infos : List (TimeDelta × EcnMarking)) (valid : ∀ info ∈ infos, ValidInfo info.1 info.2)
    (more : List UInt8) :
    readPackets ssrc seq infos.length (metricBytes (packetsFrom ssrc seq infos) ++ more) =
      (packetsFrom ssrc seq infos).map requantise := by
  induction infos generalizing seq with
  | nil => rfl
  | cons info rest ih =>
    let packet : PacketInfo := ⟨ssrc, seq, info.1, info.2⟩
    have hcons : metricBytes (packet :: packetsFrom ssrc (seq + 1) rest) =
        bytesBE 2 (packetInfoBits packet) ++ metricBytes (packetsFrom ssrc (seq + 1) rest) :=
      flatMap_cons
    obtain ⟨hoffset, hecn⟩ :=
      readPacket_bits packet (valid info mem_cons_self)
    have hrest := ih (seq + 1) (forall_mem_cons.mp valid).2
    rw [packetsFrom, hcons, length_cons, readPackets, append_assoc, natBE_take_append
      (packetInfoBits_lt packet), drop_bytesBE_append, hrest]
    rw [hoffset, hecn]
    rfl

theorem parseReports_block (more : List UInt8) :
    parseReports (writeReportForSsrc block.packets ++ more) =
      (parseReports more).map fun (packets, tail) =>
        (block.packets.map requantise ++ packets, tail) := by
  have hlength := length_writeReportForSsrc block
  have hpositive := length_pos_of_ne_nil block.nonempty
  have hmetric : (metricBytes block.packets).length = 2 * block.infos.length := by
    rw [length_metricBytes, ReportBlock.packets, length_packetsFrom]
  have hcount : block.infos.length < 256 ^ 2 := Nat.lt_of_le_of_lt block.atMost (by decide)
  have hlong : kHeaderPerMediaSssrcLength < (writeReportForSsrc block.packets ++ more).length := by
    rw [length_append, hlength, increaseSizePerSsrc]
    omega
  have hread := readPackets_packetsFrom block.ssrc block.beginSeq block.infos block.valid
    (alignment block.infos.length ++ more)
  rw [← ReportBlock.packets] at hread
  rw [parseReports, if_pos hlong, writeReportForSsrc_packets]
  simp only [append_assoc]
  -- The three header fields and the position after them.
  have hdrop6 : ∀ rest, (bytesBE 4 block.ssrc.toNat ++
      (bytesBE 2 block.beginSeq.toNat ++ rest)).drop 6 = rest := by
    intro rest
    rw [show 6 = 4 + 2 from rfl, ← drop_drop, drop_bytesBE_append, drop_bytesBE_append]
  have hdrop8 : ∀ rest, (bytesBE 4 block.ssrc.toNat ++ (bytesBE 2 block.beginSeq.toNat ++
      (bytesBE 2 block.infos.length ++ rest))).drop 8 = rest := by
    intro rest
    rw [show 8 = 6 + 2 from rfl, ← drop_drop, hdrop6, drop_bytesBE_append]
  have hskip : (metricBytes block.packets ++ (alignment block.infos.length ++ more)).drop
      (2 * block.infos.length + if block.infos.length % 2 ≠ 0 then 2 else 0) = more := by
    rw [← length_alignment, ← hmetric, ← append_assoc, ← length_append, drop_left]
  rw [natBE_toNat block.ssrc rfl, drop_bytesBE_append, natBE_toNat block.beginSeq rfl, hdrop6,
    natBE_take_append hcount, hdrop8, hskip, hread, if_neg]
  rw [length_append]
  omega

theorem parseReports_writeReports (chain : blocks.IsChain (fun a b => a.ssrc ≠ b.ssrc)) :
    parseReports (writeReports (blocks.flatMap ReportBlock.packets)) =
      some ((blocks.flatMap ReportBlock.packets).map requantise, []) := by
  induction blocks with
  | nil =>
    rw [flatMap_nil, writeReports, parseReports, if_neg (by decide)]
    rfl
  | cons block blocks ih =>
    rw [writeReports_block block blocks chain, parseReports_block, ih chain.of_cons,
      flatMap_cons, map_append]
    rfl

theorem blocksSize_mod_four : blocksSize blocks % 4 = 0 := by
  induction blocks with
  | nil => rfl
  | cons block blocks ih =>
    have hblock : increaseSizePerSsrc block.infos.length % 4 = 0 := by
      unfold increaseSizePerSsrc kHeaderPerMediaSssrcLength
      split <;> omega
    rw [blocksSize_cons]
    omega

theorem parse_payload (grouped : Grouped feedback.packets) (header : CommonHeader)
    (hpayload : header.payload = bytesBE 4 feedback.senderSsrc.toNat ++
        (writeReports feedback.packets ++ bytesBE 4 feedback.reportTimestampCompactNtp.toNat)) :
    parse {} header = some
      ⟨feedback.senderSsrc, feedback.packets.map requantise,
        feedback.reportTimestampCompactNtp⟩ := by
  obtain ⟨blocks, chain, hpackets⟩ := grouped
  have hlength := length_writeReports blocks chain
  have hmod := blocksSize_mod_four blocks
  rw [← hpackets] at hlength
  have hsize : header.payload.length = 8 + blocksSize blocks := by
    rw [hpayload]
    simp only [length_append, length_bytesBE]
    omega
  have hbody : (header.payload.drop 4).take (header.payload.length - 8) =
      writeReports feedback.packets := by
    rw [hsize, hpayload, drop_bytesBE_append, Nat.add_sub_cancel_left, ← hlength, take_left]
  have hstamp : header.payload.drop (header.payload.length - 4) =
      bytesBE 4 feedback.reportTimestampCompactNtp.toNat := by
    have hsplit : header.payload.length - 4 = 4 + (writeReports feedback.packets).length := by
      omega
    rw [hsplit, hpayload, ← drop_drop, drop_bytesBE_append, drop_left]
  have hssrc : BitVec.ofNat 32 (natBE (header.payload.take 4)) = feedback.senderSsrc := by
    rw [hpayload]
    exact natBE_toNat feedback.senderSsrc rfl _
  have htime : BitVec.ofNat 32 (natBE (bytesBE 4 feedback.reportTimestampCompactNtp.toNat)) =
      feedback.reportTimestampCompactNtp := by
    have := natBE_toNat (n := 4) feedback.reportTimestampCompactNtp rfl []
    rwa [append_nil, take_of_length_le (by rw [length_bytesBE])] at this
  rw [parse, if_neg (by rw [hsize, kSenderSsrcLength, kTimestampLength]; omega), hbody, hstamp,
    hssrc, htime, hpackets]
  dsimp only
  rw [parseReports_writeReports blocks chain]
  rfl

structure Reported (packet parsed : PacketInfo) : Prop where
  ssrc : parsed.ssrc = packet.ssrc
  sequenceNumber : parsed.sequenceNumber = packet.sequenceNumber
  ecn : parsed.ecn = packet.ecn
  unreceived : packet.arrivalTimeOffset = .minusInfinity → parsed.arrivalTimeOffset = .minusInfinity
  offset : ∀ d : Int, packet.arrivalTimeOffset = .finite d → 0 ≤ d → d * 1024 < 8190 * 1000000 →
    ∃ d' : Int, parsed.arrivalTimeOffset = .finite d' ∧
      0 ≤ d - d' ∧ (d - d') * 1024 < 1000000 + 1024

theorem reported_requantise (packet : PacketInfo) : Reported packet (requantise packet) where
  ssrc := rfl
  sequenceNumber := rfl
  ecn := rfl
  unreceived := by
    intro h
    rw [requantise, h]
    rfl
  offset := by
    intro d h nonneg inRange
    rw [requantise, h]
    exact requantise_offset d nonneg inRange

theorem create_eq_some {feedback : CongestionControlFeedback} {maxLength : Nat}
    {buffer next : Buffer} (h : feedback.create maxLength buffer = some next) :
    ∃ room, ensureRoom feedback.blockLength maxLength buffer = some room ∧
      next = ⟨room.written ++ feedback.packetBytes, room.flushed⟩ := by
  obtain ⟨room, hroom, hnext⟩ := Option.map_eq_some_iff.mp h
  exact ⟨room, hroom, hnext.symm⟩

theorem parse_packetBytes (grouped : Grouped feedback.packets)
    (short : feedback.blockLength ≤ 2 ^ 18) :
    ∃ header, CommonHeader.parse feedback.packetBytes = some header ∧
      header.packetType = kPacketType ∧ header.countOrFormat = UInt8.ofNat kFeedbackMessageType ∧
      parse {} header = some { feedback with packets := feedback.packets.map requantise } := by
  have hlength := length_packetBytes feedback grouped
  obtain ⟨blocks, chain, hpackets⟩ := grouped
  have hblock := blockLength_blocks feedback blocks chain hpackets
  have hmod := blocksSize_mod_four blocks
  let body := bytesBE 4 feedback.senderSsrc.toNat ++
    (writeReports feedback.packets ++ bytesBE 4 feedback.reportTimestampCompactNtp.toNat)
  have hbytes : feedback.packetBytes =
      createHeader kFeedbackMessageType kPacketType (headerLength feedback.blockLength) false ++
        body := rfl
  have hbody : body.length = feedback.blockLength - 4 := by
    rw [hbytes, length_append, length_createHeader, kHeaderLength] at hlength
    omega
  have hfield : headerLength feedback.blockLength % 2 ^ 16 * 4 = body.length := by
    rw [headerLength, kHeaderLength]
    omega
  have hheader := CommonHeader.parse_createHeader kFeedbackMessageType (by decide) kPacketType
    (headerLength feedback.blockLength) body (Nat.le_of_eq hfield)
  rw [hfield, take_length] at hheader
  exact ⟨_, hheader, rfl, rfl, parse_payload feedback ⟨blocks, chain, hpackets⟩ _ rfl⟩

/-- The round trip of the feedback message, if its length fits the RTCP header. -/
theorem create_parse (feedback : CongestionControlFeedback) (grouped : Grouped feedback.packets)
    (short : feedback.blockLength ≤ 2 ^ 18) (maxLength : Nat) (buffer next : Buffer)
    (created : feedback.create maxLength buffer = some next) :
    ∃ room packet, ensureRoom feedback.blockLength maxLength buffer = some room ∧
      next = ⟨room.written ++ packet, room.flushed⟩ ∧ packet.length = feedback.blockLength ∧
      ∃ header parsed, CommonHeader.parse packet = some header ∧ header.packetType = kPacketType ∧
        header.countOrFormat = UInt8.ofNat kFeedbackMessageType ∧ parse {} header = some parsed ∧
        parsed.senderSsrc = feedback.senderSsrc ∧
        parsed.reportTimestampCompactNtp = feedback.reportTimestampCompactNtp ∧
        List.Forall₂ Reported feedback.packets parsed.packets := by
  obtain ⟨room, hroom, hnext⟩ := create_eq_some created
  obtain ⟨header, hheader, htype, hformat, hparsed⟩ := parse_packetBytes feedback grouped short
  exact ⟨room, feedback.packetBytes, hroom, hnext, length_packetBytes feedback grouped, header, _,
    hheader, htype, hformat, hparsed, rfl, rfl,
    forall₂_map_right_iff.mpr (forall₂_same.mpr fun packet _ => reported_requantise packet)⟩

def singleReport (ssrc : BitVec 32) : ReportBlock where
  ssrc := ssrc
  beginSeq := 0
  infos := [(.finite 0, .ect1)]
  nonempty := by decide
  atMost := by decide
  valid := by
    exact List.forall_mem_singleton.mpr (Or.inl rfl)

/-- Three packets around the wrap of the sequence numbers, the second of which is lost. -/
def wrappingReport : ReportBlock where
  ssrc := 9
  beginSeq := 65535
  infos := [(.finite 5000, .ect1), (.minusInfinity, .notEct), (.finite 0, .ce)]
  nonempty := by decide
  atMost := by decide
  valid := by simp [ValidInfo, UnitBase.isFinite]

/-- A feedback on the packets of two sources is created, parsed and read back. -/
theorem create_parse_twoSources :
    let packets := [wrappingReport, singleReport 4].flatMap ReportBlock.packets
    ∃ header parsed, CommonHeader.parse (packetBytes ⟨7, packets, 5⟩) = some header ∧
      parse {} header = some parsed ∧ parsed.senderSsrc = 7 ∧
      List.Forall₂ Reported packets parsed.packets := by
  intro packets
  let feedback : CongestionControlFeedback := ⟨7, packets, 5⟩
  have hgrouped : Grouped feedback.packets :=
    ⟨_, isChain_cons_cons.mpr ⟨by decide, List.IsChain.singleton _⟩, rfl⟩
  have hroom : ensureRoom feedback.blockLength 100 ⟨[], []⟩ = some ⟨[], []⟩ := by
    rw [ensureRoom, if_neg (by decide)]
  have hcreated : feedback.create 100 ⟨[], []⟩ = some ⟨feedback.packetBytes, []⟩ := by
    rw [create, hroom]
    rfl
  obtain ⟨room, packet, hroom', hnext, -, header, parsed, hheader, -, -, hparsed, hssrc, -,
    hreported⟩ := create_parse feedback hgrouped (by decide) 100 ⟨[], []⟩ _ hcreated
  rw [hroom] at hroom'
  cases hroom'
  cases hnext
  exact ⟨header, parsed, hheader, hparsed, hssrc, hreported⟩

def singleReports : Nat → List ReportBlock
  | 0 => []
  | n + 1 => singleReport (BitVec.ofNat 32 n) :: singleReports n

theorem singleReports_isChain (n : Nat) :
    (singleReports n).IsChain (fun a b => a.ssrc ≠ b.ssrc) := by
  induction n with
  | zero => exact List.IsChain.nil
  | succ n ih =>
    cases n with
    | zero => exact List.IsChain.singleton _
    | succ n =>
      refine isChain_cons_cons.mpr ⟨?_, ih⟩
      intro h
      have hnat := congrArg BitVec.toNat h
      simp only [singleReport, BitVec.toNat_ofNat] at hnat
      omega

theorem blocksSize_singleReports (n : Nat) : blocksSize (singleReports n) = 12 * n := by
  induction n with
  | zero => rfl
  | succ n ih =>
    rw [singleReports, blocksSize_cons]
    have hsize : increaseSizePerSsrc (singleReport (BitVec.ofNat 32 n)).infos.length = 12 := rfl
    omega

theorem parse_packetBytes_wrapped (grouped : Grouped feedback.packets)
    (hblock : feedback.blockLength = 2 ^ 18 + 8) :
    ∃ header, CommonHeader.parse feedback.packetBytes = some header ∧ parse {} header = none := by
  have hlength := length_packetBytes feedback grouped
  have hfield : headerLength feedback.blockLength % 2 ^ 16 * 4 = 4 := by
    rw [hblock]
    rfl
  have henough : headerLength feedback.blockLength % 2 ^ 16 * 4 ≤
      (feedback.packetBytes.drop 4).length := by
    rw [length_drop, hlength, hblock]
    decide
  have hheader := CommonHeader.parse_createHeader kFeedbackMessageType (by decide) kPacketType
    (headerLength feedback.blockLength) (feedback.packetBytes.drop 4) henough
  rw [hfield] at hheader
  refine ⟨_, hheader, ?_⟩
  have hsize : ((feedback.packetBytes.drop 4).take 4).length = 4 := by
    rw [length_take, length_drop, hlength, hblock]
    decide
  rw [parse, hsize]
  rfl

/-- Single packets from 21845 sources: the length field wraps to one word, and the message is
refused. -/
theorem create_parse_overlong : ∃ feedback : CongestionControlFeedback, Grouped feedback.packets ∧
      feedback.create (2 ^ 18 + 8) ⟨[], []⟩ = some ⟨feedback.packetBytes, []⟩ ∧
      ∃ header, CommonHeader.parse feedback.packetBytes = some header ∧ parse {} header = none := by
  obtain ⟨feedback, grouped, hblock⟩ : ∃ feedback : CongestionControlFeedback,
      Grouped feedback.packets ∧ feedback.blockLength = 2 ^ 18 + 8 := by
    refine ⟨⟨1, (singleReports 21845).flatMap ReportBlock.packets, 0⟩,
      ⟨_, singleReports_isChain 21845, rfl⟩, ?_⟩
    rw [blockLength_blocks _ _ (singleReports_isChain 21845) rfl, blocksSize_singleReports]
    rfl
  have hroom : ensureRoom feedback.blockLength (2 ^ 18 + 8) ⟨[], []⟩ = some ⟨[], []⟩ := by
    rw [ensureRoom, hblock, if_neg (by decide)]
  refine ⟨feedback, grouped, ?_, parse_packetBytes_wrapped feedback grouped hblock⟩
  rw [create, hroom]
  rfl

end CongestionControlFeedback

end Rtcp
