import WebRtc.Audio.RedRoundTrip

/-!
# Bounds of RED payloads

The payload that is written has at most one byte more than the packet may have, and what a payload
is split into are slices of it.
-/

namespace Audio

open AudioEncoderCopyRed RedPayloadSplitter List

section Writing

variable {s : AudioEncoderCopyRed} {rtpTimestamp : BitVec 32} {primary : Encoding}

def blockBytes (es : List Encoding) : Nat :=
  (es.map fun e => kRedHeaderLength + e.1.encodedBytes).sum

theorem blockBytes_fitting (es : List Encoding) (bytesAvailable : Nat) :
    blockBytes (es.take (fitting rtpTimestamp es bytesAvailable)) ≤ bytesAvailable := by
  fun_induction fitting rtpTimestamp es bytesAvailable with
  | case5 e rest bytesAvailable hroom hempty hold ih =>
    rw [blockBytes] at ih ⊢
    rw [take_succ_cons, map_cons, sum_cons]
    omega
  | case1 | case2 | case3 | case4 => exact Nat.zero_le _

/-- Stored encodings that fill the available bytes exactly are all taken, and no more. -/
theorem fitting_blockBytes {es front : List Encoding} (hfront : front <+: es)
    (h : ∀ e ∈ front, Repeatable rtpTimestamp e) :
    fitting rtpTimestamp es (blockBytes front) = front.length := by
  induction front generalizing es with
  | nil => cases es <;> simp [fitting, blockBytes, kRedHeaderLength]
  | cons e front ih =>
    obtain ⟨rest, rfl⟩ := hfront
    obtain ⟨⟨hpos, hrecent⟩, hothers⟩ := forall_mem_cons.mp h
    have hbytes : blockBytes (e :: front) = kRedHeaderLength + e.1.encodedBytes + blockBytes front :=
      sum_cons
    rw [cons_append, hbytes, fitting, if_neg (by omega), if_neg hpos.ne', if_neg hrecent.not_ge,
      Nat.add_sub_cancel_left, ih (prefix_append _ _) hothers, length_cons]

theorem length_blocks (encodedTimestamp : BitVec 32) {es : List Encoding}
    (sized : ∀ e ∈ es, Sized e) :
    (headers encodedTimestamp es).length + (payloads es).length = blockBytes es := by
  induction es with
  | nil => rfl
  | cons e es ih =>
    obtain ⟨hsized, hrest⟩ := forall_mem_cons.mp sized
    have hsum := ih hrest
    rw [length_headers] at hsum ⊢
    rw [payloads, flatMap_cons, length_append, ← payloads, blockBytes, map_cons, sum_cons,
      ← blockBytes, hsized, length_cons, Nat.mul_succ]
    omega

theorem mem_shift {new e : Encoding} {es : List Encoding} (h : e ∈ shift new es) :
    e = new ∨ e ∈ es := by
  cases es with
  | nil => cases h
  | cons first rest => exact (mem_cons.mp h).imp_right mem_of_mem_dropLast

structure Stored (s : AudioEncoderCopyRed) : Prop where
  sized : ∀ e ∈ s.redundantEncodings, Sized e
  maxPacketLength : s.maxPacketLength < kSizeT

theorem Stored.perform (h : Stored s) {c : Call}
    (valid : ∀ t primary encoded, c = .encode t primary encoded → Sized primary) :
    Stored (perform s c) := by
  cases c with
  | reset => exact ⟨fun e hmem => eq_of_mem_replicate hmem ▸ rfl, h.maxPacketLength⟩
  | onReceivedOverhead => exact ⟨h.sized, Nat.mod_lt _ (by decide)⟩
  | encode rtpTimestamp primary encoded =>
    rw [Audio.perform, encodeImpl]
    split_ifs
    · exact h
    · exact h
    · obtain ⟨info, hshift, hbytes⟩ : ∃ info : EncodedInfo,
          (s.encodeRed rtpTimestamp primary encoded).2.2.redundantEncodings =
            shift (info, primary.2) s.redundantEncodings ∧
          info.encodedBytes = primary.1.encodedBytes := ⟨_, rfl, rfl⟩
      refine ⟨fun e hmem => ?_, h.maxPacketLength⟩
      rw [hshift] at hmem
      rcases mem_shift hmem with rfl | hmem
      · exact hbytes.trans (valid _ _ _ rfl)
      · exact h.sized e hmem

theorem stored_run (redPayloadType n : Nat) {calls : List Call}
    (valid : ∀ t primary encoded, Call.encode t primary encoded ∈ calls → Sized primary) :
    Stored (run (initial redPayloadType n) calls) := by
  induction calls using reverseRecOn with
  | nil =>
    exact ⟨fun e hmem => eq_of_mem_replicate hmem ▸ rfl, show kAudioMaxRtpPacketLen < _ by decide⟩
  | append_singleton calls c ih =>
    rw [run, foldl_append]
    refine (ih fun t p b hmem => valid t p b (mem_append_left _ hmem)).perform ?_
    rintro t p b rfl
    exact valid t p b (by simp)

theorem Stored.length_encodeRed (h : Stored s) (rtpTimestamp : BitVec 32) (sized : Sized primary)
    (hroom : primary.1.encodedBytes < s.maxPacketLength) :
    ∃ taken, taken <+: s.redundantEncodings ∧ (∀ e ∈ taken, Repeatable rtpTimestamp e) ∧
      blockBytes taken + primary.1.encodedBytes ≤ s.maxPacketLength ∧
      (s.encodeRed rtpTimestamp primary []).2.1.length =
        blockBytes taken + primary.1.encodedBytes + 1 ∧
      ∀ front, front <+: s.redundantEncodings → (∀ e ∈ front, Repeatable rtpTimestamp e) →
        blockBytes front + primary.1.encodedBytes = s.maxPacketLength → front = taken := by
  have havailable : (s.maxPacketLength + kSizeT - primary.1.encodedBytes) % kSizeT =
      s.maxPacketLength - primary.1.encodedBytes := by
    rw [Nat.sub_add_comm hroom.le, Nat.add_mod_right]
    exact Nat.mod_eq_of_lt ((Nat.sub_le _ _).trans_lt h.maxPacketLength)
  have hbound := @blockBytes_fitting rtpTimestamp s.redundantEncodings
    (s.maxPacketLength - primary.1.encodedBytes)
  refine ⟨s.redundantEncodings.take (s.fitCount rtpTimestamp primary), take_prefix _ _,
    (fitting_spec rtpTimestamp _ _).2, ?_, ?_, fun front hfront hall hexact => ?_⟩
  · rw [fitCount, havailable]
    omega
  · have hsized : ∀ e ∈ s.redundantOf rtpTimestamp primary, Sized e := fun e hmem =>
      h.sized e (mem_of_mem_take (mem_reverse.mp hmem))
    have hblocks := length_blocks primary.1.encodedTimestamp hsized
    rw [encodeRed_bytes, length_append, length_cons, length_append, ← sized]
    rw [blockBytes, redundantOf, map_reverse, sum_reverse, ← blockBytes, ← redundantOf] at hblocks
    omega
  · rw [fitCount, havailable, ← hexact, Nat.add_sub_cancel, fitting_blockBytes hfront hall]
    exact prefix_iff_eq_take.mp hfront

/-- The payload fits unless a new encoding is written and some of the latest stored ones, all to be
repeated, fill the packet exactly together with it. -/
theorem encodeImpl_fits (redPayloadType n : Nat) {calls : List Call}
    (valid : ∀ t primary encoded, Call.encode t primary encoded ∈ calls → Sized primary)
    (rtpTimestamp : BitVec 32) {primary : Encoding} (sized : Sized primary)
    (short : primary.1.encodedBytes < kRedMaxPacketSize) :
    let s := run (initial redPayloadType n) calls
    primary.1.encodedBytes < s.maxPacketLength →
    ((s.encodeImpl rtpTimestamp primary []).2.1.length ≤ s.maxPacketLength ↔
      primary.1.encodedBytes = 0 ∨ ∀ front, front <+: s.redundantEncodings →
        (∀ e ∈ front, Repeatable rtpTimestamp e) →
          blockBytes front + primary.1.encodedBytes ≠ s.maxPacketLength) := by
  intro s hroom
  rw [encodeImpl]
  split_ifs with hempty
  · exact iff_of_true (Nat.zero_le _) (.inl hempty)
  · omega
  · obtain ⟨taken, htaken, hall, hle, hlength, hunique⟩ :=
      (stored_run redPayloadType n valid).length_encodeRed rtpTimestamp sized hroom
    rw [hlength, or_iff_right hempty, Nat.add_one_le_iff]
    constructor
    · rintro hlt front hfront hrepeat hexact
      rw [hunique front hfront hrepeat hexact] at hexact
      exact hlt.ne hexact
    · exact fun hnone => hle.lt_of_ne (hnone taken htaken hall)

/-- One byte is left over. -/
theorem encodeImpl_fits_withRoom :
    let s := run (initial 63 1) [.onReceivedOverhead 1189, .encode 960 (output 960 [1, 2, 3]) []]
    s.maxPacketLength = 11 ∧
      (s.encodeImpl 1920 (output 1920 [4, 5, 6]) []).2.1.length ≤ s.maxPacketLength := by
  refine ⟨by decide +kernel, (@encodeImpl_fits 63 1 _ ?_ 1920 (output 1920 [4, 5, 6]) rfl
    (by decide) (by decide +kernel)).mpr (.inr fun front hfront _ hexact => ?_)⟩
  · intro t primary encoded hmem
    simp only [mem_cons, reduceCtorEq, Call.encode.injEq, not_mem_nil, false_or, or_false] at hmem
    rw [hmem.2.1]
    rfl
  · revert hexact
    rw [prefix_iff_eq_take.mp hfront]
    have hone := hfront.length_le
    revert hone
    generalize front.length = k
    intro hone
    have hk : k = 0 ∨ k = 1 := Nat.le_one_iff_eq_zero_or_eq_one.mp hone
    rcases hk with rfl | rfl <;> decide +kernel

/-- The byte of the last header has no room if the blocks fill the packet exactly. -/
theorem encodeImpl_tooLong :
    let s := run (initial 63 1) [.onReceivedOverhead 1190, .encode 960 (output 960 [1, 2, 3]) []]
    s.maxPacketLength = 10 ∧ (s.encodeImpl 1920 (output 1920 [4, 5, 6]) []).2.1.length = 11 := by
  decide +kernel

end Writing

section Splitting

inductive Headers : List UInt8 → Prop
  | last {b : UInt8} : b &&& 0x80 = 0 → Headers [b]
  | more {b b1 b2 b3 : UInt8} {rest : List UInt8} :
    b &&& 0x80 ≠ 0 → Headers rest → Headers (b :: b1 :: b2 :: b3 :: rest)

/-- From a position on, every length was read from a header or ends inside of the payload. -/
def Inside (size : Nat) : Nat → List RedHeader → Prop
  | _, [] => True
  | position, header :: rest =>
    (position ≤ size → header.payloadLength < 1024 ∨ position + header.payloadLength ≤ size) ∧
      Inside size (position + header.payloadLength) rest

/-- The packets `made` are slices of the data behind the headers, one after the other. -/
def Sliced (redPacket : Packet) (made : List Packet) : Prop :=
  ∃ header data newHeaders, redPacket.payload = header ++ data ∧ Headers header ∧
    readHeaders redPacket.timestamp redPacket.payload.length redPacket.payload 0 =
      some (newHeaders, data) ∧ Inside redPacket.payload.length header.length newHeaders ∧
    made.reverse.flatMap Packet.payload <+: data ∧
    (made.reverse.map fun p => p.payload.length) <+: newHeaders.map RedHeader.payloadLength

theorem readHeaders_inside {timestamp : BitVec 32} {size sumLength : Nat} {payload data : List UInt8}
    {newHeaders : List RedHeader}
    (h : readHeaders timestamp size payload sumLength = some (newHeaders, data)) :
    ∃ header, payload = header ++ data ∧ Headers header ∧
      Inside size (sumLength + header.length) newHeaders := by
  fun_induction readHeaders timestamp size payload sumLength generalizing newHeaders with
  | case1 | case4 => cases h
  | case2 b rest sumLength hlast sumLength' =>
    rename_i payloadLength
    cases h
    refine ⟨[b], rfl, .last hlast, ?_⟩
    split_ifs
    · refine ⟨fun hle => .inr ?_, trivial⟩
      have hsub : size + kSizeT - sumLength' = size - sumLength' + kSizeT :=
        Nat.sub_add_comm hle
      have hlength : payloadLength ≤ size - sumLength' := by
        rw [show payloadLength = (size + kSizeT - sumLength') % kSizeT from rfl, hsub,
          Nat.add_mod_right]
        exact Nat.mod_le _ _
      exact Nat.add_le_of_le_sub' hle hlength
    · trivial
  | case3 b sumLength hmore b1 b2 b3 rest offset payloadLength =>
    rename_i ih
    obtain ⟨read, hread, heq⟩ := Option.map_eq_some_iff.mp h
    cases heq
    obtain ⟨header, rfl, hheaders, hinside⟩ := ih hread
    refine ⟨b :: b1 :: b2 :: b3 :: header, rfl, .more hmore hheaders, ?_⟩
    have hposition : sumLength + (b :: b1 :: b2 :: b3 :: header).length + payloadLength =
        sumLength + payloadLength + kRedHeaderLength + header.length := by
      simp only [length_cons, kRedHeaderLength]
      omega
    rw [← hposition] at hinside
    split_ifs with hpos
    · refine ⟨fun _ => .inl ?_, hinside⟩
      have hhigh : b2.toNat &&& 3 ≤ 3 := Nat.and_le_right
      have hlow := b3.toNat_lt
      change ((b2.toNat &&& 3) <<< 8) + b3.toNat < 1024
      rw [Nat.shiftLeft_eq]
      omega
    · rwa [Nat.eq_zero_of_not_pos hpos] at hinside

theorem newPackets_slices (redPacket : Packet) (count : Nat) (newHeaders : List RedHeader) (i : Nat)
    (data : List UInt8) (packets : List Packet) :
    ∃ made : List Packet,
      (newPackets redPacket count newHeaders i data packets).2 = made.reverse ++ packets ∧
      made.flatMap Packet.payload <+: data ∧
      (made.map fun p => p.payload.length) <+: newHeaders.map RedHeader.payloadLength := by
  fun_induction newPackets redPacket count newHeaders i data packets with
  | case1 | case2 => exact ⟨[], rfl, nil_prefix, nil_prefix⟩
  | case3 header rest i data packets hroom ih =>
    obtain ⟨made, heq, hdata, hlengths⟩ := ih
    refine ⟨_ :: made, by rw [heq, reverse_cons, append_assoc]; rfl, ?_, ?_⟩
    · have hslices := (prefix_append_right_inj (data.take header.payloadLength)).mpr hdata
      rwa [take_append_drop] at hslices
    · rw [map_cons, map_cons, cons_prefix_cons]
      exact ⟨length_take_of_le (not_lt.mp hroom), hlengths⟩

theorem splitLoop_slices (packetList done : List Packet) (ret : Bool) :
    ∃ split parts rest, packetList = split ++ rest ∧ Forall₂ Sliced split parts ∧
      (splitLoop packetList done ret).2 = done ++ parts.flatten ++ rest ∧
      (rest ≠ [] → (splitLoop packetList done ret).1 = false) := by
  fun_induction splitLoop packetList done ret with
  | case1 done ret => exact ⟨[], [], [], rfl, .nil, by simp, by simp⟩
  | case2 redPacket rest done ret => exact ⟨[], [], redPacket :: rest, rfl, .nil, by simp, by simp⟩
  | case3 redPacket rest done ret newHeaders data hread hfew made ih =>
    obtain ⟨split, parts, rest, rfl, hslices, heq, hfailed⟩ := ih
    obtain ⟨header, hpayload, hheaders, hinside⟩ := readHeaders_inside hread
    obtain ⟨slices, hmade, hdata, hlengths⟩ :=
      newPackets_slices redPacket newHeaders.length newHeaders 0 data []
    rw [append_nil] at hmade
    refine ⟨redPacket :: split, made.2 :: parts, rest, rfl, .cons ?_ hslices, ?_, hfailed⟩
    · rw [Nat.zero_add] at hinside
      refine ⟨header, data, newHeaders, hpayload, hheaders, hread, hinside, ?_⟩
      rw [hmade, reverse_reverse]
      exact ⟨hdata, hlengths⟩
    · rw [heq, flatten_cons, append_assoc done]
  | case4 redPacket rest done ret newHeaders data hread hmany ih =>
    obtain ⟨split, parts, rest, rfl, hslices, heq, hfailed⟩ := ih
    obtain ⟨header, hpayload, hheaders, hinside⟩ := readHeaders_inside hread
    rw [Nat.zero_add] at hinside
    exact ⟨redPacket :: split, [] :: parts, rest, rfl, .cons ⟨header, data, newHeaders, hpayload,
      hheaders, hread, hinside, nil_prefix, nil_prefix⟩ hslices, heq, hfailed⟩

/-- Every packet that is made is a slice of the payload of one of the packets, behind its
headers. -/
theorem splitRed_slices (packetList : List Packet) :
    ∃ split parts rest, packetList = split ++ rest ∧ Forall₂ Sliced split parts ∧
      (splitRed packetList).2 = parts.flatten ++ rest ∧
      (rest ≠ [] → (splitRed packetList).1 = false) :=
  splitLoop_slices packetList [] true

end Splitting

end Audio
