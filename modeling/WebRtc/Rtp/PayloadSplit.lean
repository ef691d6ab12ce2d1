import Mathlib.Data.Rat.Floor

/-!
# Splitting a payload over packets

Model of `RtpPacketizer::SplitAboutEqually` (`modules/rtp_rtcp/source/rtp_format.cc`). The sizes
it returns are positive, add up to the payload, and each leaves the room that is reserved in a
packet of its position.
-/

namespace Rtp

structure PayloadSizeLimits where
  maxPayloadLen : Int := 1200
  firstPacketReductionLen : Int := 0
  lastPacketReductionLen : Int := 0
  singlePacketReductionLen : Int := 0
deriving DecidableEq, Repr

namespace PayloadSizeLimits

/-- The bytes reserved in the packet at `position` of `count` packets. -/
def reductionLen (limits : PayloadSizeLimits) (count position : Nat) : Int :=
  if count = 1 then limits.singlePacketReductionLen
  else if position = 0 then limits.firstPacketReductionLen
  else if position + 1 = count then limits.lastPacketReductionLen
  else 0

end PayloadSizeLimits

/-- A result in an `int`; in practice it wraps around where the source leaves it undefined. -/
def int32 (x : Int) : Int := x.bmod 4294967296

section

variable (int : Int → Int)

/-- The body of the loop: `current_packet_bytes`. -/
def currentPacketBytes (limits : PayloadSizeLimits)
    (remainingData numPacketsLeft bytesPerPacket : Int) (firstPacket : Bool) : Int :=
  let current :=
    if firstPacket then
      if bytesPerPacket > int (limits.firstPacketReductionLen + 1) then
        int (bytesPerPacket - limits.firstPacketReductionLen)
      else 1
    else bytesPerPacket
  let current := if current > remainingData then remainingData else current
  -- at least one byte is left for the last packet
  if numPacketsLeft = 2 ∧ current = remainingData then int (current - 1) else current

/-- The loop while `remaining_data` is positive. -/
def splitLoop (limits : PayloadSizeLimits) (numLargerPackets : Int) :
    Nat → Int → Int → Int → Bool → List Int
  | 0, _, _, _, _ => []
  | fuel + 1, remainingData, numPacketsLeft, bytesPerPacket, firstPacket =>
    if remainingData > 0 then
      let bytesPerPacket :=
        if numPacketsLeft = numLargerPackets then int (bytesPerPacket + 1) else bytesPerPacket
      let current :=
        currentPacketBytes int limits remainingData numPacketsLeft bytesPerPacket firstPacket
      current :: splitLoop limits numLargerPackets fuel (int (remainingData - current))
        (int (numPacketsLeft - 1)) bytesPerPacket false
    else []

/-- `num_packets_left` before the loop; a single packet has been handled by then. -/
def packetCount (limits : PayloadSizeLimits) (totalBytes : Int) : Int :=
  let numPacketsLeft :=
    (int (int (totalBytes + limits.maxPayloadLen) - 1)).tdiv limits.maxPayloadLen
  if numPacketsLeft = 1 then 2 else numPacketsLeft

/-- `SplitAboutEqually`, with `int` applied to each sum; `none` where an `RTC_DCHECK` at its head
fails. Only one round may take no byte. -/
def splitWith (payloadLen : Int) (limits : PayloadSizeLimits) : Option (List Int) :=
  if payloadLen ≤ 0 ∨ limits.firstPacketReductionLen < 0 ∨ limits.lastPacketReductionLen < 0 then none
  else if limits.maxPayloadLen ≥ int (limits.singlePacketReductionLen + payloadLen) then
    some [payloadLen]
  else if int (limits.maxPayloadLen - limits.firstPacketReductionLen) < 1 ∨
      int (limits.maxPayloadLen - limits.lastPacketReductionLen) < 1 then some []
  else
    let totalBytes :=
      int (int (payloadLen + limits.firstPacketReductionLen) + limits.lastPacketReductionLen)
    let numPacketsLeft := packetCount int limits totalBytes
    if payloadLen < numPacketsLeft then some []
    else
      let bytesPerPacket := totalBytes.tdiv numPacketsLeft
      let numLargerPackets := totalBytes.tmod numPacketsLeft
      some (splitLoop int limits numLargerPackets (payloadLen.toNat + 1) payloadLen numPacketsLeft
        bytesPerPacket true)

end

def splitAboutEqually (payloadLen : Int) (limits : PayloadSizeLimits) : Option (List Int) :=
  splitWith int32 payloadLen limits

/-- What a split of `payloadLen` bytes has to be. -/
structure Splits (limits : PayloadSizeLimits) (payloadLen : Int) (sizes : List Int) : Prop where
  positive : ∀ size ∈ sizes, 0 < size
  total : sizes.sum = payloadLen
  fits : ∀ (position : Nat) (h : position < sizes.length),
    sizes[position] ≤ limits.maxPayloadLen - limits.reductionLen sizes.length position

/-- The sizes behind the first one: positive, within the maximum, and the last one with the
reserved room. -/
def TailFits (limits : PayloadSizeLimits) : List Int → Prop
  | [] => False
  | [size] => 0 < size ∧ size ≤ limits.maxPayloadLen - limits.lastPacketReductionLen
  | size :: next :: rest =>
    (0 < size ∧ size ≤ limits.maxPayloadLen) ∧ TailFits limits (next :: rest)

variable {limits : PayloadSizeLimits} {sizes : List Int}

theorem TailFits.positive (h : TailFits limits sizes) : ∀ size ∈ sizes, 0 < size := by
  induction sizes with
  | nil => exact h.elim
  | cons size rest ih =>
    cases rest with
    | nil => simpa using h.1
    | cons next rest =>
      rintro other (_ | ⟨_, hmem⟩)
      · exact h.1.1
      · exact ih h.2 other hmem

theorem TailFits.fits (h : TailFits limits sizes) (position : Nat)
    (hposition : position < sizes.length) :
    sizes[position] ≤ limits.maxPayloadLen -
      if position + 1 = sizes.length then limits.lastPacketReductionLen else 0 := by
  induction sizes generalizing position with
  | nil => exact h.elim
  | cons size rest ih =>
    cases rest with
    | nil =>
      obtain rfl : position = 0 := by simpa using hposition
      simpa using h.2
    | cons next rest =>
      cases position with
      | zero => simpa using h.1.2
      | succ position => simpa using ih h.2 position (by simpa using hposition)

theorem TailFits.splits {first : Int} (h : TailFits limits sizes) (hpos : 0 < first)
    (hfirst : first ≤ limits.maxPayloadLen - limits.firstPacketReductionLen) :
    Splits limits (first + sizes.sum) (first :: sizes) := by
  have hne : 0 < sizes.length := by
    cases sizes with
    | nil => exact h.elim
    | cons => simp
  refine ⟨?_, by simp, ?_⟩
  · rintro size (_ | ⟨_, hmem⟩)
    · exact hpos
    · exact h.positive size hmem
  · rintro (_ | position) hposition
    · simpa [PayloadSizeLimits.reductionLen, show ¬ sizes.length = 0 by omega] using hfirst
    · have := h.fits position (by simpa using hposition)
      simpa [PayloadSizeLimits.reductionLen, show ¬ sizes.length = 0 by omega] using this

section Loop

variable (limits : PayloadSizeLimits) {bytes larger remaining payloadLen : Int}

/-- The bytes of the packet with `left` packets left: the last `larger` ones are one byte wider. -/
def share (bytes larger : Int) (left : Nat) : Int := bytes + if (left : Int) ≤ larger then 1 else 0

def shares (bytes larger : Int) : Nat → Int
  | 0 => 0
  | left + 1 => share bytes larger (left + 1) + shares bytes larger left

theorem shares_eq (bytes : Int) (h : 0 ≤ larger) (left : Nat) :
    shares bytes larger left = left * bytes + min (left : Int) larger := by
  induction left with
  | zero => simp [shares, h]
  | succ left ih =>
    rw [shares, ih, share]
    push_cast
    split
    · rw [min_eq_left (by omega), min_eq_left (by omega)]
      ring
    · rw [min_eq_right (by omega), min_eq_right (by omega)]
      ring

theorem splitLoop_step (bytes larger : Int) (left fuel : Nat) (first : Bool)
    (hremaining : 0 < remaining) :
    splitLoop id limits larger (fuel + 1) remaining left (share bytes larger (left + 1)) first =
      currentPacketBytes id limits remaining left (share bytes larger left) first ::
        splitLoop id limits larger fuel
          (remaining - currentPacketBytes id limits remaining left (share bytes larger left) first)
          ((left : Int) - 1) (share bytes larger left) false := by
  have hshare : (if (left : Int) = larger then share bytes larger (left + 1) + 1
      else share bytes larger (left + 1)) = share bytes larger left := by
    simp only [share]
    split_ifs <;> omega
  rw [splitLoop, if_pos hremaining]
  simp only [id_eq, hshare]

theorem splitLoop_last (hremaining : 0 < remaining) (hshare : remaining ≤ share bytes larger 1)
    (fuel : Nat) :
    splitLoop id limits larger (fuel + 1) remaining 1 (share bytes larger 2) false = [remaining] := by
  have hcurrent : currentPacketBytes id limits remaining (1 : Nat) (share bytes larger 1) false =
      remaining := by
    simp only [currentPacketBytes, id_eq]
    split_ifs <;> simp_all
    omega
  have hstep := splitLoop_step limits bytes larger 1 fuel false hremaining
  refine hstep.trans ?_
  rw [hcurrent, sub_self]
  cases fuel with
  | zero => rfl
  | succ fuel => simp [splitLoop]

def wanted (bytesPerPacket : Int) (firstPacket : Bool) : Int :=
  if firstPacket then max (bytesPerPacket - limits.firstPacketReductionLen) 1 else bytesPerPacket

@[simp] theorem wanted_false (bytes : Int) : wanted limits bytes false = bytes := rfl

theorem currentPacketBytes_eq (remaining left bytes : Int) (first : Bool) :
    currentPacketBytes id limits remaining left bytes first =
      if left = 2 ∧ remaining ≤ wanted limits bytes first then remaining - 1
      else min (wanted limits bytes first) remaining := by
  simp only [currentPacketBytes, wanted, id_eq]
  cases first <;> simp only [Bool.false_eq_true, if_true, if_false] <;> split_ifs <;> omega

theorem splitLoop_two {want : Int} (first : Bool) (hremaining : 2 ≤ remaining)
    (hwant : wanted limits (share bytes larger 2) first = want) (hpos : 1 ≤ want)
    (hleft : remaining - want ≤ share bytes larger 1) (hshare : 1 ≤ share bytes larger 1)
    (fuel : Nat) :
    ∃ current, splitLoop id limits larger (fuel + 2) remaining 2 (share bytes larger 3) first =
        [current, remaining - current] ∧ 0 < current ∧ current ≤ want ∧ current < remaining ∧
      (remaining - current = 1 ∨ current = want) := by
  obtain ⟨current, hcurrent⟩ : ∃ current, current =
      currentPacketBytes id limits remaining (2 : Nat) (share bytes larger 2) first := ⟨_, rfl⟩
  have hstep := splitLoop_step limits bytes larger 2 (fuel + 1) first (show 0 < remaining by omega)
  rw [← hcurrent] at hstep
  rw [currentPacketBytes_eq, hwant] at hcurrent
  have hbounds : 0 < current ∧ current ≤ want ∧ current < remaining ∧
      (remaining - current = 1 ∨ current = want) := by
    split_ifs at hcurrent <;> omega
  refine ⟨current, hstep.trans ?_, hbounds⟩
  have hlast := splitLoop_last limits (show 0 < remaining - current by omega)
    (show remaining - current ≤ share bytes larger 1 by omega) fuel
  exact congrArg (current :: ·) hlast

theorem share_le (bytes larger : Int) (left : Nat) :
    share bytes larger (left + 1) ≤ share bytes larger 1 := by
  simp only [share]
  split_ifs <;> omega

theorem le_share (bytes larger : Int) (left : Nat) : bytes ≤ share bytes larger left := by
  simp only [share]
  split_ifs <;> omega

theorem shares_mono (hbytes : 0 ≤ bytes) (larger : Int) (left : Nat) :
    shares bytes larger 2 ≤ shares bytes larger (left + 2) := by
  induction left with
  | zero => exact le_refl _
  | succ left ih =>
    have hmore := le_share bytes larger (left + 2 + 1)
    have hsum : shares bytes larger (left + 1 + 2) =
      share bytes larger (left + 2 + 1) + shares bytes larger (left + 2) := rfl
    omega

/-- Every packet behind the first takes its share, where the bytes fall short of the shares by an
`excess` that the last two can do without. -/
theorem splitLoop_tail {excess : Int} (hbytes : 1 ≤ bytes)
    (hreduction : 0 ≤ limits.lastPacketReductionLen)
    (hroom : 1 ≤ limits.maxPayloadLen - limits.lastPacketReductionLen)
    (hmax : share bytes larger 1 ≤ limits.maxPayloadLen)
    (hlast : limits.lastPacketReductionLen ≤ excess) (hexcess : 2 ≤ shares bytes larger 2 - excess)
    (left fuel : Nat) (enough : left + 2 ≤ fuel) :
    ∃ sizes, splitLoop id limits larger fuel (shares bytes larger (left + 2) - excess)
        ((left + 2 : Nat) : Int) (share bytes larger (left + 3)) false = sizes ∧
      TailFits limits sizes ∧ sizes.sum = shares bytes larger (left + 2) - excess ∧
      sizes.length = left + 2 := by
  induction left generalizing fuel with
  | zero =>
    obtain ⟨fuel, rfl⟩ := Nat.exists_eq_add_of_le' enough
    have htwo : shares bytes larger 2 = share bytes larger 2 + share bytes larger 1 := by
      simp [shares]
    have hshare : share bytes larger 2 ≤ share bytes larger 1 := share_le bytes larger 1
    have hwanted := le_share bytes larger 2
    obtain ⟨current, hloop, hpos, hle, hlt, hleft⟩ := splitLoop_two limits false hexcess rfl
      (show 1 ≤ share bytes larger 2 by omega) (by rw [wanted_false]; omega) (by omega) fuel
    rw [wanted_false] at hle hleft
    refine ⟨_, hloop, ⟨⟨hpos, by omega⟩, by omega, ?_⟩, by simp, rfl⟩
    rcases hleft with hleft | hleft <;> omega
  | succ left ih =>
    obtain ⟨fuel, rfl⟩ := Nat.exists_eq_add_of_le' (show 1 ≤ fuel by omega)
    have hshare : share bytes larger (left + 3) ≤ share bytes larger 1 := share_le bytes larger _
    have hpos := le_share bytes larger (left + 3)
    have hrest := shares_mono (show 0 ≤ bytes by omega) larger left
    have hsum : shares bytes larger (left + 3) =
        share bytes larger (left + 3) + shares bytes larger (left + 2) := rfl
    obtain ⟨sizes, hloop, hfits, htotal, hlength⟩ := ih fuel (by omega)
    have hcurrent : currentPacketBytes id limits (shares bytes larger (left + 3) - excess)
        ((left + 3 : Nat) : Int) (share bytes larger (left + 3)) false =
          share bytes larger (left + 3) := by
      rw [currentPacketBytes_eq, wanted_false]
      exact min_eq_left (by omega)
    have hstep := splitLoop_step limits bytes larger (left + 3) fuel false
      (show 0 < shares bytes larger (left + 3) - excess by omega)
    rw [hcurrent, hsum, show share bytes larger (left + 3) + shares bytes larger (left + 2) - excess -
      share bytes larger (left + 3) = shares bytes larger (left + 2) - excess by omega,
      show ((left + 3 : Nat) : Int) - 1 = ((left + 2 : Nat) : Int) by push_cast; omega, hloop] at hstep
    refine ⟨_, hstep, ?_, ?_, congrArg (· + 1) hlength⟩
    · cases sizes with
      | nil => exact hfits.elim
      | cons next rest => exact ⟨⟨by omega, by omega⟩, hfits⟩
    · rw [List.sum_cons, htotal]
      exact (add_sub_assoc _ _ _).symm

theorem reductions_le {max count : Int} (hlarger : 0 ≤ larger) (hlt : larger < count)
    (hbytes : 1 ≤ bytes) (hcount : 3 ≤ count) (hmax : (count - 1) * max < count * bytes + larger) :
    max ≤ 2 * bytes + min 2 larger - 1 ∧ 2 * max ≤ 3 * bytes + min 2 larger - 1 := by
  have hmin : 2 * larger ≤ (count - 1) * min 2 larger := by
    rcases le_total larger 2 with h | h
    · rw [min_eq_right h]
      exact mul_le_mul_of_nonneg_right (by omega) hlarger
    · rw [min_eq_left h]
      omega
  constructor
  · by_contra hgt
    nlinarith [mul_le_mul_of_nonneg_left (show 2 * bytes + min 2 larger ≤ max by omega)
      (show 0 ≤ count - 1 by omega)]
  · by_contra hgt
    nlinarith [mul_le_mul_of_nonneg_left (show 3 * bytes + min 2 larger ≤ 2 * max by omega)
      (show 0 ≤ count - 1 by omega)]

theorem le_wanted (bytes : Int) : bytes - limits.firstPacketReductionLen ≤ wanted limits bytes true :=
  le_max_left _ _

theorem one_le_wanted (bytes : Int) : 1 ≤ wanted limits bytes true := le_max_right _ _

theorem wanted_le (hbytes : bytes ≤ limits.maxPayloadLen)
    (hroom : 1 ≤ limits.maxPayloadLen - limits.firstPacketReductionLen) :
    wanted limits bytes true ≤ limits.maxPayloadLen - limits.firstPacketReductionLen :=
  max_le (by omega) hroom

/-- The bytes with the reductions are `count` shares, rounded, and fewer packets would not do. -/
structure Shared (payloadLen bytes larger : Int) (count : Nat) : Prop where
  first_nonneg : 0 ≤ limits.firstPacketReductionLen
  last_nonneg : 0 ≤ limits.lastPacketReductionLen
  firstRoom : 1 ≤ limits.maxPayloadLen - limits.firstPacketReductionLen
  lastRoom : 1 ≤ limits.maxPayloadLen - limits.lastPacketReductionLen
  one_le_bytes : 1 ≤ bytes
  larger_nonneg : 0 ≤ larger
  larger_lt : larger < count
  total : payloadLen + limits.firstPacketReductionLen + limits.lastPacketReductionLen =
    count * bytes + larger
  share_le : share bytes larger 1 ≤ limits.maxPayloadLen
  needed : 3 ≤ count → ((count : Int) - 1) * limits.maxPayloadLen < count * bytes + larger
  enough : count ≤ payloadLen

variable {limits}

def SplitsInto (limits : PayloadSizeLimits) (payloadLen : Int) (count : Nat) (sizes : List Int) :
    Prop :=
  Splits limits payloadLen sizes ∧ sizes.length = count

theorem Shared.share_count {count : Nat} (h : Shared limits payloadLen bytes larger count) :
    share bytes larger count = bytes := by
  have := h.larger_lt
  rw [share, if_neg (by omega), add_zero]

theorem Shared.splits_two (h : Shared limits payloadLen bytes larger 2) (fuel : Nat) :
    SplitsInto limits payloadLen 2
      (splitLoop id limits larger (fuel + 2) payloadLen 2 (share bytes larger 3) true) := by
  have htotal := h.total
  have hlarger : larger < 2 := h.larger_lt
  have hnonneg := h.larger_nonneg
  have hone : share bytes larger 1 = bytes + larger := by
    simp only [share]
    split_ifs <;> omega
  have htwo := h.share_count
  have henough : 2 ≤ payloadLen := h.enough
  have hmax := h.share_le
  have hbytes := h.one_le_bytes
  have hlast := h.last_nonneg
  have hwanted := le_wanted limits bytes
  have hwanted' := wanted_le limits (show bytes ≤ limits.maxPayloadLen by omega) h.firstRoom
  have hroom := h.lastRoom
  obtain ⟨current, hloop, hpos, hle, hlt, hleft⟩ := splitLoop_two limits true henough
    (by rw [htwo]) (one_le_wanted limits bytes) (by omega) (by omega) fuel
  rw [hloop]
  have htail : TailFits limits [payloadLen - current] := by
    refine ⟨by omega, ?_⟩
    rcases hleft with hleft | hleft <;> omega
  have hsplits := htail.splits hpos (by omega)
  rw [List.sum_singleton, add_sub_cancel] at hsplits
  exact ⟨hsplits, rfl⟩

theorem Shared.splits_more {left : Nat} (h : Shared limits payloadLen bytes larger (left + 3))
    {fuel : Nat} (enough : left + 3 ≤ fuel) :
    SplitsInto limits payloadLen (left + 3)
      (splitLoop id limits larger fuel payloadLen ((left + 3 : Nat) : Int)
        (share bytes larger (left + 4)) true) := by
  obtain ⟨fuel, rfl⟩ := Nat.exists_eq_add_of_le' (show 1 ≤ fuel by omega)
  have hlarger := h.larger_nonneg
  have hbytes := h.one_le_bytes
  have hmax := h.share_le
  have hone := le_share bytes larger 1
  have hwanted := one_le_wanted limits bytes
  have hwanted' := wanted_le limits (show bytes ≤ limits.maxPayloadLen by omega) h.firstRoom
  have hge := le_wanted limits bytes
  have hmono := shares_mono (show 0 ≤ bytes by omega) larger left
  have htotal : payloadLen + limits.firstPacketReductionLen + limits.lastPacketReductionLen =
      bytes + shares bytes larger (left + 2) := by
    have hall := shares_eq bytes hlarger (left + 3)
    rw [min_eq_right h.larger_lt.le, ← h.total, shares, h.share_count] at hall
    exact hall.symm
  -- the first packet takes more than its share where that is less than the reduction
  obtain ⟨excess, hdef⟩ : ∃ excess, excess = limits.lastPacketReductionLen +
    (wanted limits bytes true - (bytes - limits.firstPacketReductionLen)) := ⟨_, rfl⟩
  have hexcess : 2 ≤ shares bytes larger 2 - excess := by
    obtain ⟨hone, htwo⟩ := reductions_le hlarger h.larger_lt hbytes (by push_cast; omega)
      (h.needed (by omega))
    have hlast := h.lastRoom
    rw [shares_eq bytes hlarger]
    omega
  obtain ⟨sizes, hloop, hfits, hsum, hlength⟩ := splitLoop_tail limits hbytes h.last_nonneg
    h.lastRoom hmax (by omega) hexcess left fuel (by omega)
  have hremaining : payloadLen - wanted limits bytes true =
      shares bytes larger (left + 2) - excess := by omega
  have hcurrent : currentPacketBytes id limits payloadLen ((left + 3 : Nat) : Int)
      (share bytes larger (left + 3)) true = wanted limits bytes true := by
    rw [currentPacketBytes_eq, h.share_count]
    exact min_eq_left (by omega)
  have hstep := splitLoop_step limits bytes larger (left + 3) fuel true
    (show 0 < payloadLen by omega)
  rw [hcurrent, hremaining, show ((left + 3 : Nat) : Int) - 1 = ((left + 2 : Nat) : Int) by
    push_cast; omega, hloop] at hstep
  have hsplits := hfits.splits (show 0 < wanted limits bytes true by omega) hwanted'
  rw [hsum, ← hremaining, add_sub_cancel] at hsplits
  rw [hstep]
  exact ⟨hsplits, congrArg (· + 1) hlength⟩

theorem Shared.splits {count : Nat} (hcount : 2 ≤ count)
    (h : Shared limits payloadLen bytes larger count) {fuel : Nat} (enough : count ≤ fuel) :
    SplitsInto limits payloadLen count
      (splitLoop id limits larger fuel payloadLen count bytes true) := by
  have hlarger := h.larger_lt
  have hbytes : share bytes larger (count + 1) = bytes := by
    rw [share, if_neg (by push_cast; omega), add_zero]
  match count, hcount with
  | 2, _ =>
    obtain ⟨fuel, rfl⟩ := Nat.exists_eq_add_of_le' enough
    have hsplits := h.splits_two fuel
    rwa [hbytes] at hsplits
  | left + 3, _ =>
    have hsplits := h.splits_more enough
    rwa [hbytes] at hsplits

end Loop

section Count

variable {totalBytes : Int}

theorem packetCount_eq (hmax : 1 ≤ limits.maxPayloadLen) (htotal : 1 ≤ totalBytes) :
    packetCount id limits totalBytes = max 2 ⌈(totalBytes / limits.maxPayloadLen : ℚ)⌉ := by
  have hpos : (0 : ℚ) < limits.maxPayloadLen := by exact_mod_cast hmax
  have hceil : ⌈(totalBytes / limits.maxPayloadLen : ℚ)⌉ =
      (totalBytes + limits.maxPayloadLen - 1) / limits.maxPayloadLen := by
    have hle := Int.ediv_mul_le (totalBytes + limits.maxPayloadLen - 1)
      (show limits.maxPayloadLen ≠ 0 by omega)
    have hlt := Int.lt_ediv_add_one_mul_self (totalBytes + limits.maxPayloadLen - 1)
      (show 0 < limits.maxPayloadLen by omega)
    rw [Int.ceil_eq_iff, lt_div_iff₀ hpos, div_le_iff₀ hpos]
    norm_cast
    constructor <;> linarith
  have hone : 1 ≤ ⌈(totalBytes / limits.maxPayloadLen : ℚ)⌉ :=
    Int.ceil_pos.mpr (div_pos (by exact_mod_cast htotal) hpos)
  rw [packetCount, id_eq, id_eq, Int.tdiv_eq_ediv_of_nonneg (by omega)]
  split_ifs <;> omega

theorem packetCount_spec (hmax : 1 ≤ limits.maxPayloadLen) (htotal : 1 ≤ totalBytes) :
    2 ≤ packetCount id limits totalBytes ∧
      totalBytes ≤ packetCount id limits totalBytes * limits.maxPayloadLen ∧
      (3 ≤ packetCount id limits totalBytes →
        (packetCount id limits totalBytes - 1) * limits.maxPayloadLen < totalBytes) := by
  have hpos : (0 : ℚ) < limits.maxPayloadLen := by exact_mod_cast hmax
  rw [packetCount_eq hmax htotal]
  refine ⟨le_max_left _ _, ?_, fun hthree => ?_⟩
  · have hle := Int.le_ceil (totalBytes / limits.maxPayloadLen : ℚ)
    rw [div_le_iff₀ hpos] at hle
    exact (Int.cast_le.mp (by exact_mod_cast hle)).trans
      (mul_le_mul_of_nonneg_right (le_max_right _ _) (by omega))
  · have hlt := Int.ceil_lt_add_one (totalBytes / limits.maxPayloadLen : ℚ)
    rw [← sub_lt_iff_lt_add, lt_div_iff₀ hpos] at hlt
    rw [max_eq_right (by omega)]
    exact_mod_cast hlt

end Count

theorem splitWith_splits {payloadLen : Int}
    (h : splitWith id payloadLen limits = some sizes) (hne : sizes ≠ []) :
    ∃ count : Nat, SplitsInto limits payloadLen count sizes ∧
      (count = 1 ∨ count = max 2 ⌈((payloadLen + limits.firstPacketReductionLen +
        limits.lastPacketReductionLen : Int) / limits.maxPayloadLen : ℚ)⌉) := by
  simp only [splitWith, id_eq] at h
  split_ifs at h with hchecks hsingle hroom hfew
  · obtain rfl := Option.some.inj h
    refine ⟨1, ⟨⟨by simpa using by omega, by simp, ?_⟩, rfl⟩, .inl rfl⟩
    intro position hposition
    obtain rfl : position = 0 := by simpa using hposition
    simp only [List.getElem_cons_zero, PayloadSizeLimits.reductionLen, List.length_singleton, if_true]
    omega
  · exact absurd (Option.some.inj h).symm hne
  · exact absurd (Option.some.inj h).symm hne
  · obtain rfl := Option.some.inj h
    push Not at hchecks hroom
    obtain ⟨hpayload, hfirst, hlast⟩ := hchecks
    set total := payloadLen + limits.firstPacketReductionLen + limits.lastPacketReductionLen
      with htotal
    obtain ⟨htwo, hle, hneeded⟩ := @packetCount_spec limits total (by omega) (by omega)
    obtain ⟨count, hcount⟩ := Int.eq_ofNat_of_zero_le (show 0 ≤ packetCount id limits total by omega)
    rw [hcount] at htwo hle hneeded hfew ⊢
    rw [Int.tdiv_eq_ediv_of_nonneg (by omega), Int.tmod_eq_emod_of_nonneg (by omega)]
    have hdiv := Int.mul_ediv_add_emod total count
    have hmod := Int.emod_nonneg total (show (count : Int) ≠ 0 by omega)
    have hlt := Int.emod_lt_of_pos total (show (0 : Int) < count by omega)
    refine ⟨count, Shared.splits (by omega)
      ⟨hfirst, hlast, by omega, by omega, ?_, hmod, hlt, ?_, ?_, ?_, ?_⟩ ?_,
      .inr (hcount.symm.trans (packetCount_eq (by omega) (by omega)))⟩
    · exact Int.le_ediv_of_mul_le (by omega) (by omega)
    · omega
    · have hcap : count * (total / count) + total % count ≤ count * limits.maxPayloadLen := by
        rw [hdiv]
        exact hle
      simp only [share]
      split_ifs with hwider
      · exact Int.lt_of_mul_lt_mul_left (by omega) (Int.natCast_nonneg count)
      · rw [add_zero]
        exact Int.le_of_mul_le_mul_left (by omega) (show (0 : Int) < count by omega)
    · intro hthree
      rw [hdiv]
      exact hneeded (by exact_mod_cast hthree)
    · omega
    · omega

section Overflow

theorem int32_eq {x : Int} (h : -2 ^ 31 ≤ x) (h' : x < 2 ^ 31) : int32 x = x :=
  Int.bmod_eq_of_le (by omega) (by omega)

theorem currentPacketBytes_int32 {remaining left bytes : Int} (first : Bool)
    (hreduction : 0 ≤ limits.firstPacketReductionLen)
    (hreduction' : limits.firstPacketReductionLen < 2 ^ 31 - 1) (hbytes : 0 ≤ bytes)
    (hbytes' : bytes < 2 ^ 31) (hremaining : 0 < remaining) (hremaining' : remaining < 2 ^ 31) :
    currentPacketBytes int32 limits remaining left bytes first =
        currentPacketBytes id limits remaining left bytes first ∧
      0 ≤ currentPacketBytes id limits remaining left bytes first ∧
      currentPacketBytes id limits remaining left bytes first ≤ remaining := by
  have hone := @int32_eq (limits.firstPacketReductionLen + 1) (by omega) (by omega)
  have hless := @int32_eq (bytes - limits.firstPacketReductionLen) (by omega) (by omega)
  simp only [currentPacketBytes, hone, hless, id_eq]
  cases first <;> simp only [Bool.false_eq_true, if_true, if_false] <;> split_ifs <;>
    refine ⟨?_, by omega, by omega⟩
  all_goals first | rfl | exact int32_eq (by omega) (by omega)

/-- The loop does not overflow if it starts far enough from the limits. -/
theorem splitLoop_int32 (larger : Int) (hreduction : 0 ≤ limits.firstPacketReductionLen)
    (hreduction' : limits.firstPacketReductionLen < 2 ^ 31 - 1) :
    ∀ (fuel : Nat) (remaining left bytes : Int) (first : Bool), remaining < 2 ^ 31 →
      -2 ^ 31 < left - fuel → left < 2 ^ 31 → 0 ≤ bytes →
      (bytes + if larger ≤ left then 1 else 0) < 2 ^ 31 →
      splitLoop int32 limits larger fuel remaining left bytes first =
        splitLoop id limits larger fuel remaining left bytes first := by
  intro fuel
  induction fuel with
  | zero => exact fun _ _ _ _ _ _ _ _ _ => rfl
  | succ fuel ih =>
    intro remaining left bytes first hremaining hleft hleft' hbytes hbytes'
    -- the larger packets start at most once
    have hwider : (if left = larger then int32 (bytes + 1) else bytes) =
        if left = larger then bytes + 1 else bytes := by
      split_ifs at hbytes' ⊢
      all_goals first | rfl | exact int32_eq (by omega) (by omega)
    obtain ⟨wider, hdef⟩ : ∃ wider, wider = if left = larger then bytes + 1 else bytes := ⟨_, rfl⟩
    have hnonneg : 0 ≤ wider := by
      rw [hdef]
      split_ifs <;> omega
    have hbound : (wider + if larger ≤ left - 1 then 1 else 0) < 2 ^ 31 := by
      rw [hdef]
      split_ifs at hbytes' ⊢ <;> omega
    have hfits : wider < 2 ^ 31 := by
      split_ifs at hbound <;> omega
    rw [splitLoop, splitLoop]
    by_cases hpos : remaining > 0
    · simp only [if_pos hpos, hwider, id_eq, ← hdef]
      obtain ⟨hcurrent, hge, hle⟩ := @currentPacketBytes_int32 limits remaining left wider first
        hreduction hreduction' hnonneg hfits hpos hremaining
      rw [hcurrent, int32_eq (by omega) (by omega), @int32_eq (left - 1) (by omega) (by omega),
        ih _ _ _ _ (by omega) (by omega) (by omega) hnonneg hbound]
    · rw [if_neg hpos, if_neg hpos]

theorem splitAboutEqually_eq {payloadLen : Int} (hmax : 0 ≤ limits.maxPayloadLen)
    (hsingle : 0 ≤ limits.singlePacketReductionLen)
    (hone : limits.singlePacketReductionLen + payloadLen < 2 ^ 31)
    (hall : payloadLen + limits.firstPacketReductionLen + limits.lastPacketReductionLen +
      limits.maxPayloadLen < 2 ^ 31) :
    splitAboutEqually payloadLen limits = splitWith id payloadLen limits := by
  rw [splitAboutEqually]
  by_cases hchecks : payloadLen ≤ 0 ∨ limits.firstPacketReductionLen < 0 ∨
      limits.lastPacketReductionLen < 0
  · rw [splitWith, splitWith, if_pos hchecks, if_pos hchecks]
  push Not at hchecks
  obtain ⟨hpayload, hfirst, hlast⟩ := hchecks
  set total := payloadLen + limits.firstPacketReductionLen + limits.lastPacketReductionLen
    with htotal
  have hcount : packetCount int32 limits total = packetCount id limits total := by
    rw [packetCount, @int32_eq (total + _) (by omega) (by omega), int32_eq (by omega) (by omega)]
    rfl
  simp only [splitWith, id_eq, int32_eq (show -2 ^ 31 ≤ limits.singlePacketReductionLen + payloadLen
    by omega) hone, @int32_eq (limits.maxPayloadLen - limits.firstPacketReductionLen) (by omega)
    (by omega), @int32_eq (limits.maxPayloadLen - limits.lastPacketReductionLen) (by omega)
    (by omega), @int32_eq (payloadLen + limits.firstPacketReductionLen) (by omega) (by omega),
    ← htotal, @int32_eq total (by omega) (by omega), hcount]
  split_ifs with hbad hfits hroom hfew
  all_goals try rfl
  obtain ⟨htwo, -⟩ := @packetCount_spec limits total (by omega) (by omega)
  have hnonneg : 0 ≤ total.tdiv (packetCount id limits total) :=
    Int.tdiv_nonneg (by omega) (by omega)
  have hle : total.tdiv (packetCount id limits total) ≤ total := by
    rw [Int.tdiv_eq_ediv_of_nonneg (by omega)]
    exact Int.ediv_le_self _ (by omega)
  refine congrArg some (splitLoop_int32 _ hfirst (by omega) _ _ _ _ _ (by omega) ?_ (by omega)
    hnonneg ?_)
  · omega
  · split_ifs <;> omega

end Overflow

/-- If nothing overflows, the sizes are positive, add up to the payload and leave the reserved room,
and no more packets are used than needed. -/
theorem splitAboutEqually_fits {payloadLen : Int} (hmax : 0 ≤ limits.maxPayloadLen)
    (hsingle : 0 ≤ limits.singlePacketReductionLen)
    (hone : limits.singlePacketReductionLen + payloadLen < 2 ^ 31)
    (hall : payloadLen + limits.firstPacketReductionLen + limits.lastPacketReductionLen +
      limits.maxPayloadLen < 2 ^ 31)
    (h : splitAboutEqually payloadLen limits = some sizes) (hne : sizes ≠ []) :
    Splits limits payloadLen sizes ∧
      (sizes.length ≠ 1 → (sizes.length : Int) = max 2 ⌈((payloadLen +
        limits.firstPacketReductionLen + limits.lastPacketReductionLen : Int) /
          limits.maxPayloadLen : ℚ)⌉) := by
  rw [splitAboutEqually_eq hmax hsingle hone hall] at h
  obtain ⟨count, ⟨hsplits, rfl⟩, hcount⟩ := splitWith_splits h hne
  exact ⟨hsplits, hcount.resolve_left⟩

theorem splitAboutEqually_fits_threePackets : Splits ⟨10, 1, 2, 3⟩ 20 [6, 8, 6] ∧
      (3 ≠ 1 → (3 : Int) = max 2 ⌈((20 + 1 + 2 : Int) / (10 : Int) : ℚ)⌉) :=
  splitAboutEqually_fits (by decide) (by decide) (by decide) (by decide) (by decide) (by decide)

/-- The sum for a single packet overflows, and a packet that does not fit is the result. -/
theorem splitAboutEqually_overflows :
    splitAboutEqually (2 ^ 31 - 1) ⟨2 ^ 30, 0, 0, 1⟩ = some [2 ^ 31 - 1] ∧
      ¬ Splits ⟨2 ^ 30, 0, 0, 1⟩ (2 ^ 31 - 1) [2 ^ 31 - 1] :=
  ⟨by decide, fun h => absurd (h.fits 0 (by decide)) (by decide)⟩

end Rtp
