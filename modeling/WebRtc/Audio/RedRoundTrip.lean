import WebRtc.Audio.Red
import Mathlib.Data.Nat.Bitwise

/-!
# The round trip of redundant audio

A RED payload is the headers of its blocks, oldest first, the header of the primary encoding, the
redundant encodings in the same order and the primary encoding. `EncodeImpl` writes that, `SplitRed`
reads it, and the history of the encoder holds the encodings that came last.
-/

namespace Audio

open ByteCodec AudioEncoderCopyRed RedPayloadSplitter List

def Sized (e : Encoding) : Prop := e.1.encodedBytes = e.2.length

/-- An encoding that fits into a redundant block of a packet with a timestamp. -/
structure Packable (encodedTimestamp : BitVec 32) (e : Encoding) : Prop where
  sized : Sized e
  payloadType : e.1.payloadType < 128
  nonempty : 0 < e.1.encodedBytes
  short : e.1.encodedBytes < kRedMaxPacketSize
  recent : (encodedTimestamp - e.1.encodedTimestamp).toNat < kRedMaxTimestampDelta

def blockHeader (e : Encoding) : RedHeader where
  payloadType := UInt8.ofNat e.1.payloadType
  timestamp := e.1.encodedTimestamp
  payloadLength := e.1.encodedBytes

def headers (encodedTimestamp : BitVec 32) (es : List Encoding) : List UInt8 :=
  es.flatMap (redHeader encodedTimestamp)

def payloads (es : List Encoding) : List UInt8 := es.flatMap Prod.snd

section Reading

theorem headerByte : ∀ payloadType : Fin 128, UInt8.ofNat payloadType &&& 0x80 = 0 ∧
    UInt8.ofNat payloadType &&& 0x7F = UInt8.ofNat payloadType ∧
    UInt8.ofNat (payloadType ||| 0x80) &&& 0x80 ≠ 0 ∧
    UInt8.ofNat (payloadType ||| 0x80) &&& 0x7F = UInt8.ofNat payloadType := by
  decide

theorem packedFields {delta length : Nat} (hdelta : delta < 16384) (hlength : length < 1024) :
    let field := delta * 4 ||| length >>> 8
    (field / 256 % 256) <<< 6 + ((field % 256 &&& 0xFC) >>> 2) = delta ∧
    ((field % 256 &&& 0x03) <<< 8) + (length &&& 0xff) % 256 = length := by
  have hor : delta * 4 ||| length >>> 8 = delta * 4 + length / 256 := by
    have hlow : length / 256 < 2 ^ 2 := by omega
    have hshift := Nat.shiftLeft_add_eq_or_of_lt hlow delta
    rw [Nat.shiftRight_eq_div_pow]
    simpa [Nat.shiftLeft_eq] using hshift.symm
  have hhigh : ∀ x : Fin 256, (x.val &&& 0xFC) >>> 2 = x.val / 4 := by decide +kernel
  have hlow : ∀ x : Nat, x &&& 0x03 = x % 4 := fun x => Nat.and_two_pow_sub_one_eq_mod x 2
  have hbyte : length &&& 0xff = length % 256 := Nat.and_two_pow_sub_one_eq_mod length 8
  dsimp only
  rw [hor, hlow]
  generalize hfield : delta * 4 + length / 256 = field
  have hfc := hhigh ⟨field % 256, by omega⟩
  rw [hfc]
  simp only [Nat.shiftLeft_eq]
  omega

variable {encodedTimestamp : BitVec 32}

theorem readHeaders_redHeader {e : Encoding}
    (h : Packable encodedTimestamp e) (size sumLength : Nat) (rest : List UInt8) :
    readHeaders encodedTimestamp size (redHeader encodedTimestamp e ++ rest) sumLength =
      (readHeaders encodedTimestamp size rest
        (sumLength + e.1.encodedBytes + kRedHeaderLength)).map
          fun read => (blockHeader e :: read.1, read.2) := by
  obtain ⟨-, -, hflag, htype⟩ := headerByte ⟨e.1.payloadType, h.payloadType⟩
  have hrecent : (encodedTimestamp - e.1.encodedTimestamp).toNat < 16384 := h.recent
  have hshort := h.short
  have hshift : ((encodedTimestamp - e.1.encodedTimestamp) <<< 2).toNat =
      (encodedTimestamp - e.1.encodedTimestamp).toNat * 4 := by
    rw [BitVec.toNat_shiftLeft, Nat.shiftLeft_eq]
    exact Nat.mod_eq_of_lt (by omega)
  obtain ⟨hoffset, hlength⟩ := packedFields hrecent hshort
  have hback : encodedTimestamp -
      BitVec.ofNat 32 (encodedTimestamp - e.1.encodedTimestamp).toNat = e.1.encodedTimestamp := by
    bv_omega
  simp only [redHeader, bytesBE, hshift, cons_append, nil_append, readHeaders, hflag,
    htype, UInt8.toNat_ofNat', pow_zero, Nat.div_one, Nat.reducePow, hoffset, hlength, hback,
    h.nonempty, if_true]
  rfl

theorem length_redHeader (encodedTimestamp : BitVec 32) (e : Encoding) :
    (redHeader encodedTimestamp e).length = kRedHeaderLength := by
  simp [redHeader, kRedHeaderLength]

theorem readHeaders_headers {payloadType : Nat}
    (htype : payloadType < 128) (size : Nat) (rest : List UInt8) :
    ∀ (es : List Encoding) (sumLength primaryLength : Nat),
      (∀ e ∈ es, Packable encodedTimestamp e) → 0 < primaryLength → primaryLength < kSizeT →
      size = sumLength + (headers encodedTimestamp es).length + (payloads es).length + 1 +
        primaryLength → readHeaders encodedTimestamp size
          (headers encodedTimestamp es ++ UInt8.ofNat payloadType :: rest) sumLength =
        some (es.map blockHeader ++ [⟨UInt8.ofNat payloadType, encodedTimestamp, primaryLength⟩],
          rest) := by
  intro es
  induction es with
  | nil =>
    intro sumLength primaryLength _ hpos hlt hsize
    obtain ⟨hflag, hbyte, -⟩ := headerByte ⟨payloadType, htype⟩
    have hlength : (size + kSizeT - (sumLength + kRedLastHeaderLength)) % kSizeT =
        primaryLength := by
      have hsum : size + kSizeT - (sumLength + kRedLastHeaderLength) = primaryLength + kSizeT := by
        simp only [headers, payloads, flatMap_nil, length_nil] at hsize
        unfold kRedLastHeaderLength
        omega
      rw [hsum, Nat.add_mod_right, Nat.mod_eq_of_lt hlt]
    rw [headers, flatMap_nil, readHeaders.eq_def]
    simp [hflag, hbyte, hlength, hpos]
  | cons e es ih =>
    intro sumLength primaryLength hpackable hpos hlt hsize
    have he := hpackable e mem_cons_self
    have hsized : e.1.encodedBytes = e.2.length := he.sized
    have hheader := length_redHeader encodedTimestamp e
    have hcons : headers encodedTimestamp (e :: es) =
        redHeader encodedTimestamp e ++ headers encodedTimestamp es := flatMap_cons
    have hpayload : payloads (e :: es) = e.2 ++ payloads es := flatMap_cons
    rw [hcons, hpayload, length_append, length_append] at hsize
    rw [hcons, append_assoc, readHeaders_redHeader he,
      ih _ primaryLength (fun e' hmem => hpackable e' (mem_cons_of_mem e hmem)) hpos hlt
        (by omega)]
    rfl

def splitPacket (sequenceNumber : BitVec 16) (e : Encoding) (redLevel : Nat) : Packet where
  timestamp := e.1.encodedTimestamp
  sequenceNumber := sequenceNumber
  payloadType := UInt8.ofNat e.1.payloadType
  payload := e.2
  redLevel := redLevel

/-- The blocks are cut off the payload one after the other. -/
theorem newPackets_payloads (redPacket : Packet) (count : Nat) :
    ∀ (es : List Encoding) (i : Nat) (packets : List Packet), (∀ e ∈ es, Sized e) →
      newPackets redPacket count (es.map blockHeader) i (payloads es) packets =
        (true, ((es.zipIdx i).map fun e =>
          splitPacket redPacket.sequenceNumber e.1 (count - 1 - e.2)).reverse ++ packets) := by
  intro es
  induction es with
  | nil => exact fun _ _ _ => rfl
  | cons e es ih =>
    intro i packets hsized
    have he : (blockHeader e).payloadLength = e.2.length := hsized e mem_cons_self
    have hpayload : payloads (e :: es) = e.2 ++ payloads es := flatMap_cons
    rw [map_cons, newPackets, hpayload, he, drop_left, ih _ _ fun e' hmem => hsized e'
      (mem_cons_of_mem e hmem)]
    simp [splitPacket, blockHeader]

end Reading

section Writing

variable (encodedTimestamp : BitVec 32)

theorem writeAt_room (done bytes room rest : List UInt8) (h : bytes.length = room.length) :
    writeAt (done ++ room ++ rest) done.length bytes = done ++ bytes ++ rest := by
  have hdrop : (done ++ room ++ rest).drop (done.length + bytes.length) = rest := by
    rw [h, ← length_append, drop_left]
  rw [writeAt, hdrop, append_assoc done room, take_left]

theorem appendRedundant_eq : ∀ (es : List Encoding) (done room last data : List UInt8),
      room.length = kRedHeaderLength * es.length →
      appendRedundant encodedTimestamp es (done.length, done ++ room ++ last ++ data) =
        (done.length + kRedHeaderLength * es.length,
          done ++ headers encodedTimestamp es ++ last ++ data ++ payloads es) := by
  intro es
  induction es with
  | nil =>
    intro done room last data hroom
    obtain rfl : room = [] := length_eq_zero_iff.mp (by simpa using hroom)
    simp [appendRedundant, headers, payloads]
  | cons e es ih =>
    intro done room last data hroom
    have hheader := length_redHeader encodedTimestamp e
    have hsplit : room = room.take kRedHeaderLength ++ room.drop kRedHeaderLength :=
      (take_append_drop _ _).symm
    have hfirst : (room.take kRedHeaderLength).length = kRedHeaderLength := by
      simp only [length_take, length_cons] at hroom ⊢
      unfold kRedHeaderLength at hroom ⊢
      omega
    have hwritten : writeAt (done ++ room ++ last ++ data ++ e.2) done.length
        (redHeader encodedTimestamp e) =
          (done ++ redHeader encodedTimestamp e) ++ room.drop kRedHeaderLength ++ last ++
            (data ++ e.2) := by
      have h := writeAt_room done (redHeader encodedTimestamp e) (room.take kRedHeaderLength)
        (room.drop kRedHeaderLength ++ last ++ data ++ e.2) (hheader.trans hfirst.symm)
      rw [show done ++ room ++ last ++ data ++ e.2 = done ++ room.take kRedHeaderLength ++
        (room.drop kRedHeaderLength ++ last ++ data ++ e.2) by
          nth_rewrite 1 [hsplit]
          simp only [append_assoc]]
      rw [h]
      simp
    have hrest : (room.drop kRedHeaderLength).length = kRedHeaderLength * es.length := by
      simp only [length_drop, length_cons] at hroom ⊢
      rw [hroom]
      unfold kRedHeaderLength
      omega
    have hoffset : done.length + kRedHeaderLength =
        (done ++ redHeader encodedTimestamp e).length := by
      rw [length_append, hheader]
    rw [appendRedundant, hwritten, hoffset, ih _ _ _ _ hrest]
    simp only [headers, payloads, flatMap_cons, append_assoc, length_append, hheader, length_cons]
    refine Prod.ext ?_ rfl
    ring

/-- A stored encoding that the loop does not stop at if it has room. -/
def Repeatable (rtpTimestamp : BitVec 32) (e : Encoding) : Prop :=
  0 < e.1.encodedBytes ∧ (rtpTimestamp - e.1.encodedTimestamp).toNat < kRedMaxTimestampDelta

theorem fitting_spec (rtpTimestamp : BitVec 32) : ∀ (es : List Encoding) (bytesAvailable : Nat),
      fitting rtpTimestamp es bytesAvailable ≤ es.length ∧
      ∀ e ∈ es.take (fitting rtpTimestamp es bytesAvailable), Repeatable rtpTimestamp e := by
  intro es
  induction es with
  | nil => exact fun _ => ⟨le_rfl, fun e hmem => absurd hmem not_mem_nil⟩
  | cons e es ih =>
    intro bytesAvailable
    rw [fitting]
    split_ifs with hroom hempty hold
    · exact ⟨Nat.zero_le _, fun e hmem => absurd hmem not_mem_nil⟩
    · exact ⟨Nat.zero_le _, fun e hmem => absurd hmem not_mem_nil⟩
    · exact ⟨Nat.zero_le _, fun e hmem => absurd hmem not_mem_nil⟩
    · obtain ⟨hle, hall⟩ := ih (bytesAvailable - (kRedHeaderLength + e.1.encodedBytes))
      refine ⟨Nat.succ_le_succ hle, fun e' hmem => ?_⟩
      rcases mem_cons.mp hmem with rfl | hmem
      · exact ⟨Nat.pos_of_ne_zero hempty, not_le.mp hold⟩
      · exact hall e' hmem

theorem length_headers (es : List Encoding) :
    (headers encodedTimestamp es).length = kRedHeaderLength * es.length := by
  induction es with
  | nil => rfl
  | cons e es ih =>
    rw [headers, flatMap_cons, length_append, length_redHeader, ← headers, ih, length_cons]
    ring

/-- The payload that `EncodeImpl` writes into an empty buffer. -/
theorem encodeRed_bytes (s : AudioEncoderCopyRed) (rtpTimestamp : BitVec 32) (primary : Encoding) :
    (s.encodeRed rtpTimestamp primary []).2.1 =
      headers primary.1.encodedTimestamp (redundantOf s rtpTimestamp primary) ++
        UInt8.ofNat primary.1.payloadType ::
          (payloads (redundantOf s rtpTimestamp primary) ++ primary.2) := by
  set redundant := redundantOf s rtpTimestamp primary with hredundant
  have hlength : redundant.length = fitCount s rtpTimestamp primary := by
    rw [hredundant, redundantOf, length_reverse, length_take]
    exact min_eq_left (fitting_spec rtpTimestamp s.redundantEncodings _).1
  have hroom : setSize [] (kRedLastHeaderLength + kRedHeaderLength * fitCount s rtpTimestamp primary) =
      [] ++ replicate (kRedHeaderLength * fitCount s rtpTimestamp primary) 0 ++ [0] ++ [] := by
    rw [setSize, Nat.add_comm, kRedLastHeaderLength]
    simp [replicate_add]
  have hloop := appendRedundant_eq primary.1.encodedTimestamp redundant []
    (replicate (kRedHeaderLength * fitCount s rtpTimestamp primary) 0) [0] []
    (by rw [length_replicate, hlength])
  rw [← hroom] at hloop
  have hoffset := length_headers primary.1.encodedTimestamp redundant
  have hwritten := writeAt_room
    (headers primary.1.encodedTimestamp redundant)
    [UInt8.ofNat primary.1.payloadType] [0]
    (payloads redundant ++ primary.2) rfl
  simp only [length_nil, Nat.zero_add, ← hoffset] at hloop
  generalize hstart : (0, setSize [] (kRedLastHeaderLength +
    kRedHeaderLength * fitCount s rtpTimestamp primary)) = start at hloop
  have hencode : (s.encodeRed rtpTimestamp primary []).2.1 =
      writeAt ((appendRedundant primary.1.encodedTimestamp redundant
        start).2 ++ primary.2)
        (appendRedundant primary.1.encodedTimestamp redundant start).1
        [UInt8.ofNat primary.1.payloadType] := by
    rw [← hstart]
    rfl
  rw [hencode, hloop]
  simpa only [append_assoc, cons_append, nil_append] using hwritten

end Writing

section RoundTrip

theorem reverse_zipIdx_reverse {α β : Type} (f : α → Nat → β) (l : List α) :
    (l.reverse.zipIdx.map fun e => f e.1 (l.length - 1 - e.2)).reverse =
      l.zipIdx.map fun e => f e.1 e.2 := by
  apply ext_getElem
  · simp
  · intro i hi hi'
    have hlt : i < l.length := by simpa using hi'
    simp only [getElem_reverse, getElem_map, getElem_zipIdx, length_map,
      length_zipIdx, length_reverse]
    congr 1
    · congr 1
      omega
    · omega

theorem splitRed_encodings {primary : Encoding} {es : List Encoding} (hprimary : Sized primary)
    (htype : primary.1.payloadType < 128) (nonempty : 0 < primary.1.encodedBytes)
    (short : primary.1.encodedBytes < kRedMaxPacketSize)
    (packable : ∀ e ∈ es, Packable primary.1.encodedTimestamp e) (few : es.length < kMaxRedBlocks)
    (sequenceNumber : BitVec 16) (payloadType : UInt8) :
    splitRed [{ timestamp := primary.1.encodedTimestamp
                sequenceNumber := sequenceNumber
                payloadType := payloadType
                payload := headers primary.1.encodedTimestamp es.reverse ++
                  UInt8.ofNat primary.1.payloadType :: (payloads es.reverse ++ primary.2) }] =
      (true, (primary :: es).zipIdx.map fun e => splitPacket sequenceNumber e.1 e.2) := by
  have hsized : ∀ e ∈ (primary :: es).reverse, Sized e := by
    intro e hmem
    rcases mem_cons.mp (mem_reverse.mp hmem) with rfl | hmem
    · exact hprimary
    · exact (packable e hmem).sized
  have hpayloads : payloads es.reverse ++ primary.2 = payloads (primary :: es).reverse := by
    simp [payloads]
  have hbound : primary.1.encodedBytes < kSizeT :=
    short.trans (by unfold kRedMaxPacketSize kSizeT; omega)
  have hread := readHeaders_headers htype
    (headers primary.1.encodedTimestamp es.reverse ++
      UInt8.ofNat primary.1.payloadType :: (payloads es.reverse ++ primary.2)).length
    (payloads es.reverse ++ primary.2) es.reverse 0 primary.1.encodedBytes
    (fun e hmem => packable e (mem_reverse.mp hmem)) nonempty hbound (by
      have hlength : primary.1.encodedBytes = primary.2.length := hprimary
      simp only [length_append, length_cons]
      omega)
  have hheaders : es.reverse.map blockHeader ++ [⟨UInt8.ofNat primary.1.payloadType,
      primary.1.encodedTimestamp, primary.1.encodedBytes⟩] =
        (primary :: es).reverse.map blockHeader := by
    simp [blockHeader]
  rw [hheaders] at hread
  have hcount : ((primary :: es).reverse.map blockHeader).length = (primary :: es).length := by
    simp
  rw [splitRed, splitLoop, hread]
  dsimp only
  rw [if_pos (by rw [hcount]; exact few), hpayloads, newPackets_payloads _ _ _ _ _ hsized, hcount]
  simp only [splitLoop, nil_append, append_nil, Bool.and_self]
  rw [reverse_zipIdx_reverse (splitPacket sequenceNumber)]

end RoundTrip

section History

variable {recent : List Encoding} {s : AudioEncoderCopyRed}

inductive Call where
  | encode (rtpTimestamp : BitVec 32) (primary : Encoding) (encoded : Buffer)
  | reset
  | onReceivedOverhead (overheadBytesPerPacket : Nat)

def perform (s : AudioEncoderCopyRed) : Call → AudioEncoderCopyRed
  | .encode rtpTimestamp primary encoded => (s.encodeImpl rtpTimestamp primary encoded).2.2
  | .reset => s.reset
  | .onReceivedOverhead overheadBytesPerPacket => s.onReceivedOverhead overheadBytesPerPacket

def run (s : AudioEncoderCopyRed) (calls : List Call) : AudioEncoderCopyRed :=
  calls.foldl perform s

/-- RED can hold an encoding as a copy: it is neither empty nor of 1024 bytes or more. -/
def Copyable (e : Encoding) : Prop := 0 < e.1.encodedBytes ∧ e.1.encodedBytes < kRedMaxPacketSize

instance (e : Encoding) : Decidable (Copyable e) := inferInstanceAs (Decidable (_ ∧ _))

/-- The copyable outputs of the speech encoder, the latest first. A reset forgets them. -/
def noteOutput (recent : List Encoding) : Call → List Encoding
  | .encode _ primary _ => if Copyable primary then primary :: recent else recent
  | .reset => []
  | .onReceivedOverhead _ => recent

def recentOutputs (calls : List Call) : List Encoding := calls.foldl noteOutput []

/-- What the speech encoder guarantees for its outputs. -/
def Call.Valid : Call → Prop
  | .encode _ primary _ => Sized primary ∧ primary.1.payloadType < 128
  | _ => True

def copyOf (e : Encoding) : EncodedInfoLeaf × Buffer := (e.1.toEncodedInfoLeaf, e.2)

def emptyCopy : EncodedInfoLeaf × Buffer := ({}, [])

/-- The history holds copies of the latest outputs; places that were not used yet are empty. -/
structure Remembers (n : Nat) (recent : List Encoding) (s : AudioEncoderCopyRed) : Prop where
  length : s.redundantEncodings.length = n
  copies : s.redundantEncodings.map copyOf =
    (recent.map copyOf ++ List.replicate n emptyCopy).take n
  valid : ∀ e ∈ recent, Copyable e ∧ Sized e ∧ e.1.payloadType < 128

theorem remembers_initial (redPayloadType n : Nat) : Remembers n [] (initial redPayloadType n) where
  length := length_replicate
  copies := by simp [initial, copyOf, emptyCopy]
  valid _ hmem := absurd hmem not_mem_nil

variable {n : Nat} {es' es : List Encoding}

theorem Remembers.shift (h : Remembers n recent s) {new stored : Encoding}
    {s' : AudioEncoderCopyRed} (hs' : s'.redundantEncodings = shift stored s.redundantEncodings)
    (hcopy : copyOf stored = copyOf new)
    (hvalid : Copyable new ∧ Sized new ∧ new.1.payloadType < 128) :
    Remembers n (new :: recent) s' where
  length := by
    rw [hs', ← h.length]
    cases s.redundantEncodings <;> simp [AudioEncoderCopyRed.shift]
  copies := by
    have hlength := h.length
    have hcopies := h.copies
    rw [hs']
    cases hes : s.redundantEncodings with
    | nil =>
      obtain rfl : n = 0 := by simpa [hes] using hlength.symm
      rfl
    | cons e es =>
      obtain ⟨m, rfl⟩ : ∃ m, n = m + 1 := ⟨es.length, by simpa [hes] using hlength.symm⟩
      have hdrop : (e :: es).dropLast.map copyOf =
          (recent.map copyOf ++ replicate (m + 1) emptyCopy).take m := by
        have hcount : es.length = m := by simpa [hes] using hlength
        rw [dropLast_eq_take, map_take, ← hes, hcopies, hes, take_take]
        simp [hcount]
      rw [AudioEncoderCopyRed.shift, map_cons, hcopy, hdrop]
      rfl
  valid := by
    exact forall_mem_cons.mpr ⟨hvalid, h.valid⟩

theorem Remembers.perform (h : Remembers n recent s) {c : Call} (valid : c.Valid) :
    Remembers n (noteOutput recent c) (perform s c) := by
  cases c with
  | encode rtpTimestamp primary encoded =>
    by_cases hcopyable : Copyable primary
    · have hencode : s.encodeImpl rtpTimestamp primary encoded =
          s.encodeRed rtpTimestamp primary encoded := by
        rw [encodeImpl, if_neg hcopyable.1.ne', if_neg (not_le.mpr hcopyable.2)]
      rw [noteOutput, if_pos hcopyable, Audio.perform, hencode]
      exact h.shift rfl rfl ⟨hcopyable, valid⟩
    · rw [noteOutput, Audio.perform, encodeImpl]
      split_ifs with hempty hlong
      · exact h
      · exact h
      · exact absurd ⟨Nat.pos_of_ne_zero hempty, not_le.mp hlong⟩ hcopyable
  | reset =>
    refine ⟨?_, ?_, fun _ hmem => absurd hmem not_mem_nil⟩
    · simp [Audio.perform, reset, h.length]
    · simp [Audio.perform, reset, h.length, noteOutput, copyOf, emptyCopy]
  | onReceivedOverhead overhead => exact { h with }

theorem remembers_run (redPayloadType n : Nat) {calls : List Call} (valid : ∀ c ∈ calls, c.Valid) :
    Remembers n (recentOutputs calls) (run (initial redPayloadType n) calls) := by
  induction calls using reverseRecOn with
  | nil => exact remembers_initial redPayloadType n
  | append_singleton calls c ih =>
    have hcalls := ih fun c' hmem => valid c' (mem_append_left _ hmem)
    have hc := valid c (mem_append_right _ (mem_singleton_self c))
    rw [recentOutputs, run, foldl_append, foldl_append]
    exact hcalls.perform hc

theorem Remembers.take (h : Remembers n recent s) {count : Nat} (hle : count ≤ n)
    (nonempty : ∀ e ∈ s.redundantEncodings.take count, 0 < e.1.encodedBytes) :
    count ≤ recent.length ∧
    (s.redundantEncodings.take count).map copyOf = (recent.take count).map copyOf := by
  have htake : (s.redundantEncodings.take count).map copyOf =
      (recent.map copyOf ++ replicate n emptyCopy).take count := by
    rw [map_take, h.copies, take_take, min_eq_left hle]
  have hcount : count ≤ recent.length := by
    by_contra hlong
    -- the place after the last output would be empty
    have hplace : emptyCopy ∈ (s.redundantEncodings.take count).map copyOf := by
      rw [htake, take_append]
      refine mem_append_right _ ?_
      rw [take_replicate, length_map, mem_replicate]
      exact ⟨by omega, rfl⟩
    obtain ⟨e, hmem, hcopy⟩ := mem_map.mp hplace
    have hbytes := congrArg (fun c : EncodedInfoLeaf × Buffer => c.1.encodedBytes) hcopy
    have hpos := nonempty e hmem
    have hzero : e.1.encodedBytes = 0 := hbytes
    omega
  refine ⟨hcount, ?_⟩
  rw [htake, take_append_of_le_length (by rw [length_map]; exact hcount), map_take]

theorem headers_congr (encodedTimestamp : BitVec 32) (h : es.map copyOf = es'.map copyOf) :
    headers encodedTimestamp es = headers encodedTimestamp es' := by
  have hcopies : ∀ es : List Encoding, headers encodedTimestamp es =
      (es.map copyOf).flatMap fun c =>
        redHeader encodedTimestamp ({ toEncodedInfoLeaf := c.1 }, c.2) := by
    intro es
    rw [flatMap_map]
    rfl
  rw [hcopies, hcopies, h]

theorem payloads_congr (h : es.map copyOf = es'.map copyOf) : payloads es = payloads es' := by
  have hcopies : ∀ es : List Encoding, payloads es = (es.map copyOf).flatMap Prod.snd := by
    intro es
    rw [flatMap_map]
    rfl
  rw [hcopies, hcopies, h]

/-- A copyable output is split into itself and the latest copyable outputs before it, as many as
fit. -/
theorem red_round_trip {n : Nat} (hn : n ≤ 9) (redPayloadType : Nat) {calls : List Call}
    (valid : ∀ c ∈ calls, c.Valid) {rtpTimestamp : BitVec 32} {primary : Encoding}
    (sized : Sized primary) (payloadType : primary.1.payloadType < 128)
    (copyable : Copyable primary)
    (ordered : ∀ e ∈ (run (initial redPayloadType n) calls).redundantEncodings,
      0 < e.1.encodedBytes → (primary.1.encodedTimestamp - e.1.encodedTimestamp).toNat ≤
        (rtpTimestamp - e.1.encodedTimestamp).toNat) (sequenceNumber : BitVec 16) :
    let s := run (initial redPayloadType n) calls
    let result := s.encodeImpl rtpTimestamp primary []
    let redundant := (recentOutputs calls).take (fitCount s rtpTimestamp primary)
    redundant.length = fitCount s rtpTimestamp primary ∧ redundant.length ≤ n ∧
    result.1.payloadType = s.redPayloadType ∧ result.1.encodedBytes = result.2.1.length ∧
    splitRed [{ timestamp := result.1.encodedTimestamp
                sequenceNumber := sequenceNumber
                payloadType := UInt8.ofNat result.1.payloadType
                payload := result.2.1 }] =
      (true, (primary :: redundant).zipIdx.map fun e => splitPacket sequenceNumber e.1 e.2) := by
  intro s result redundant
  have hremembers := remembers_run redPayloadType n valid
  obtain ⟨hcount, hfits⟩ := fitting_spec rtpTimestamp s.redundantEncodings
    ((s.maxPacketLength + kSizeT - primary.1.encodedBytes) % kSizeT)
  have hle : fitCount s rtpTimestamp primary ≤ n := hcount.trans hremembers.length.le
  obtain ⟨henough, hcopies⟩ := hremembers.take hle fun e hmem => (hfits e hmem).1
  have hlength : redundant.length = fitCount s rtpTimestamp primary := by
    rw [length_take]
    exact min_eq_left henough
  have hencode : result = s.encodeRed rtpTimestamp primary [] := by
    rw [show result = s.encodeImpl rtpTimestamp primary [] from rfl, encodeImpl,
      if_neg copyable.1.ne', if_neg (not_le.mpr copyable.2)]
  have hpackable : ∀ e ∈ redundant, Packable primary.1.encodedTimestamp e := by
    intro e hmem
    obtain ⟨hcopy, hsized, htype⟩ := hremembers.valid e (mem_of_mem_take hmem)
    obtain ⟨stored, hstored, hsame⟩ : ∃ stored ∈ s.redundantEncodings.take
        (fitCount s rtpTimestamp primary), copyOf stored = copyOf e :=
      mem_map.mp (hcopies ▸ mem_map_of_mem hmem)
    have hleaf : stored.1.toEncodedInfoLeaf = e.1.toEncodedInfoLeaf := congrArg Prod.fst hsame
    obtain ⟨hpos, hrecent⟩ := hfits stored hstored
    have horder := ordered stored (mem_of_mem_take hstored) hpos
    rw [hleaf] at hrecent horder
    exact ⟨hsized, htype, hcopy.1, hcopy.2, horder.trans_lt hrecent⟩
  have hwritten : (redundantOf s rtpTimestamp primary).map copyOf = redundant.reverse.map copyOf := by
    rw [redundantOf, map_reverse, hcopies, map_reverse]
  have hbytes : result.2.1 = headers primary.1.encodedTimestamp redundant.reverse ++
      UInt8.ofNat primary.1.payloadType :: (payloads redundant.reverse ++ primary.2) := by
    rw [hencode, encodeRed_bytes, headers_congr _ hwritten, payloads_congr hwritten]
  have hfew : redundant.length < kMaxRedBlocks := by
    unfold kMaxRedBlocks
    omega
  refine ⟨hlength, hlength.trans_le hle, by rw [hencode]; rfl, by rw [hencode]; rfl, ?_⟩
  have htimestamp : result.1.encodedTimestamp = primary.1.encodedTimestamp := by
    rw [hencode]
    rfl
  rw [hbytes, htimestamp]
  exact splitRed_encodings sized payloadType copyable.1 copyable.2 hpackable hfew sequenceNumber _

def output (timestamp : BitVec 32) (bytes : List UInt8) : Encoding :=
  ({ encodedBytes := bytes.length, encodedTimestamp := timestamp, payloadType := 111 }, bytes)

/-- Two packets, an empty output and a third packet with copies of both. -/
theorem red_round_trip_twoCopies : let s := run (initial 63 2) [.encode 960 (output 960 [1, 2]) [],
      .encode 1920 (output 1920 [3]) [], .encode 2880 (output 2880 []) []]
    let result := s.encodeImpl 3840 (output 3840 [4, 5, 6]) []
    result.2.1 = [239, 45, 0, 2, 239, 30, 0, 1, 111, 1, 2, 3, 4, 5, 6] ∧
    splitRed [{ timestamp := result.1.encodedTimestamp
                sequenceNumber := 7
                payloadType := UInt8.ofNat result.1.payloadType
                payload := result.2.1 }] =
      (true, [splitPacket 7 (output 3840 [4, 5, 6]) 0, splitPacket 7 (output 1920 [3]) 1,
        splitPacket 7 (output 960 [1, 2]) 2]) := by
  have h := @red_round_trip 2 (by decide) 63 [.encode 960 (output 960 [1, 2]) [],
    .encode 1920 (output 1920 [3]) [], .encode 2880 (output 2880 []) []] ?_ 3840
    (output 3840 [4, 5, 6]) rfl (by decide) (by decide) ?_ 7
  · exact ⟨by decide +kernel, h.2.2.2.2⟩
  · intro c hmem
    simp only [mem_cons, not_mem_nil, or_false] at hmem
    rcases hmem with rfl | rfl | rfl
    all_goals exact ⟨rfl, by decide⟩
  · exact forall_mem_cons.mpr ⟨by decide, forall_mem_cons.mpr ⟨by decide, by simp⟩⟩

end History

end Audio
