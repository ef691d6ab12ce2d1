import WebRtc.EventLog.BitBuffer

/-!
# Code that writes and reads bit fields

The writers of `modules/rtp_rtcp/source` put fields into a `BitBufferWriter` and give up at the
first write that fails; the readers take fields off a `BitstreamReader` and ask it at the end
whether all went well. `Writes` and `Reads` say which bits such code puts or takes, and compose
along the code.
-/

namespace EventLog

open BitLists List

/-- Code that writes and returns false at the first write that fails. -/
abbrev Writing := StateT BitBufferWriter Option

/-- Code that reads; a failure stays in the reader. -/
abbrev Reading := StateM BitstreamReader

namespace Writing

/-- `RETURN_FALSE_ON_ERROR(writer.WriteBits(val, bit_count))`. -/
def writeBits (val : BitVec 64) (bitCount : Nat) : Writing Unit := fun w =>
  let (success, w) := w.writeBits val bitCount
  if success then some ((), w) else none

def writeBit (bit : Bool) : Writing Unit := writeBits (if bit then 1 else 0) 1

def writeIf (condition : Bool) (code : Writing Unit) : Writing Unit :=
  if condition then code else pure ()

def check (condition : Bool) : Writing Unit := if condition then pure () else failure

end Writing

namespace Reading

def readBits (bits : Nat) : Reading (BitVec 64) := fun r => r.readBits bits

def readBit : Reading Bool := fun r => r.readBit

def readByte : Reading (BitVec 8) := fun r => r.readByte

def readUInt16 : Reading (BitVec 16) := do
  let value ← readBits 16
  return value.setWidth 16

def consumeBits (bits : Nat) : Reading Unit := fun r =>
  if r.remainingBits < bits then ((), r.invalidate)
  else
    let remainingBytes := (r.remainingBits + 7) / 8
    let newRemainingBytes := (r.remainingBits - bits + 7) / 8
    ((), ⟨r.bytes.drop (remainingBytes - newRemainingBytes).toNat, r.remainingBits - bits⟩)

def invalidate : Reading Unit := fun r => ((), r.invalidate)

def readIf {α : Type} (condition : Bool) (code : Reading α) (otherwise : α) : Reading α :=
  if condition then code else pure otherwise

end Reading

/-- The code puts these bits behind what is written wherever there is room for them. -/
def Writes (code : Writing Unit) (added : List Bool) : Prop :=
  ∀ (w : BitBufferWriter) (written : List Bool), w.Wrote written →
    written.length + added.length ≤ 8 * w.writableBytes.length →
      ∃ w', code w = some ((), w') ∧ w'.Wrote (written ++ added) ∧
        w'.writableBytes.length = w.writableBytes.length

/-- The code takes these bits off the front of what is left to read, and returns `result`. -/
def Reads {α : Type} (code : Reading α) (taken : List Bool) (result : α) : Prop :=
  ∀ (r : BitstreamReader) (rest : List Bool), r.Unread (taken ++ rest) →
    (code r).1 = result ∧ (code r).2.Unread rest

namespace Writes

theorem nothing : Writes (pure ()) [] := by
  intro w written hw _
  exact ⟨w, rfl, by simpa using hw, rfl⟩

theorem andThen {first second : Writing Unit} {front back : List Bool} (hfirst : Writes first front)
    (hsecond : Writes second back) : Writes (first >>= fun _ => second) (front ++ back) := by
  intro w written hw hroom
  rw [length_append] at hroom
  obtain ⟨middle, hmiddle, hwrote, hlength⟩ := hfirst w written hw (by omega)
  obtain ⟨w', hw', hwrote', hlength'⟩ := hsecond middle (written ++ front) hwrote (by
    rw [length_append]
    omega)
  refine ⟨w', ?_, by rwa [← append_assoc], hlength'.trans hlength⟩
  change (first w).bind (fun result => second result.2) = some ((), w')
  rw [hmiddle]
  exact hw'

theorem bits (val : BitVec 64) {bitCount : Nat} (hpos : 0 < bitCount := by decide)
    (hcount : bitCount ≤ 64 := by decide) :
    Writes (Writing.writeBits val bitCount) (bits bitCount val.toNat) := by
  intro w written hw hroom
  rw [length_bits] at hroom
  obtain ⟨hsuccess, hwrote, hlength⟩ := BitBufferWriter.writeBits_spec hw val hpos hcount hroom
  refine ⟨(w.writeBits val bitCount).2, ?_, hwrote, hlength⟩
  simp [Writing.writeBits, hsuccess]

theorem bit (b : Bool) : Writes (Writing.writeBit b) [b] := by
  have hbit : BitLists.bits 1 (if b then 1 else 0 : BitVec 64).toNat = [b] := by
    cases b <;> decide
  rw [← hbit]
  exact bits _

theorem field {n : Nat} (val : BitVec n) {bitCount : Nat} (hn : n ≤ 64 := by decide)
    (hpos : 0 < bitCount := by decide) (hcount : bitCount ≤ 64 := by decide) :
    Writes (Writing.writeBits (val.setWidth 64) bitCount) (BitLists.bits bitCount val.toNat) := by
  have hval : (val.setWidth 64).toNat = val.toNat := by
    rw [BitVec.toNat_setWidth, Nat.mod_eq_of_lt]
    exact Nat.lt_of_lt_of_le val.isLt (Nat.pow_le_pow_right (by decide) hn)
  rw [← hval]
  exact bits _ hpos hcount

theorem loop {items : List Nat} {body : Nat → Writing Unit} {added : Nat → List Bool}
    (hbody : ∀ item ∈ items, Writes (body item) (added item)) :
    Writes (items.forM body) (items.flatMap added) := by
  induction items with
  | nil => exact nothing
  | cons item items ih =>
    exact (hbody item mem_cons_self).andThen
      (ih (forall_mem_cons.mp hbody).2)

variable {code : Writing Unit} {added : List Bool} {condition : Bool}

theorem optional (hcode : condition = true → Writes code added) :
    Writes (Writing.writeIf condition code) (if condition then added else []) := by
  cases condition with
  | false => exact nothing
  | true => exact hcode rfl

theorem afterCheck (h : condition = true) (hcode : Writes code added) :
    Writes (Writing.check condition >>= fun _ => code) added := by
  subst h
  exact nothing.andThen hcode

end Writes

namespace Reads

variable {α β : Type}

theorem nothing (result : α) : Reads (pure result) [] result := by
  intro r rest hr
  exact ⟨rfl, hr⟩

variable {first code : Reading α}

theorem andThen {second : α → Reading β} {front back : List Bool} {a : α} {b : β}
    (hfirst : Reads first front a) (hsecond : Reads (second a) back b) :
    Reads (first >>= second) (front ++ back) b := by
  intro r rest hr
  rw [append_assoc] at hr
  obtain ⟨hresult, hunread⟩ := hfirst r (back ++ rest) hr
  have hnext := hsecond (first r).2 rest hunread
  rw [← hresult] at hnext
  exact hnext

theorem andDone {second : α → Reading β} {taken : List Bool} {a : α} {b : β}
    (hfirst : Reads first taken a) (hsecond : Reads (second a) [] b) :
    Reads (first >>= second) taken b := by
  have hboth := hfirst.andThen hsecond
  rwa [append_nil] at hboth

theorem map {taken : List Bool} {a : α} (hcode : Reads code taken a)
    (f : α → β) : Reads (code >>= fun result => pure (f result)) taken (f a) :=
  @andDone α β code (fun result => pure (f result)) taken a (f a) hcode (nothing (f a))

theorem bits {n : Nat} (hn : n ≤ 64) {v : Nat} (hv : v < 2 ^ n) :
    Reads (Reading.readBits n) (bits n v) (BitVec.ofNat 64 v) := by
  have hsmall : v < 2 ^ 64 := Nat.lt_of_lt_of_le hv (Nat.pow_le_pow_right (by decide) hn)
  have hval : (BitVec.ofNat 64 v).toNat = v := by
    rw [BitVec.toNat_ofNat, Nat.mod_eq_of_lt hsmall]
  intro r rest hr
  exact BitstreamReader.readWord_spec hn (by rwa [hval]) (by rwa [hval])

theorem bit (b : Bool) : Reads Reading.readBit [b] b := fun _ _ hr =>
  BitstreamReader.readBit_spec hr

theorem byte (b : BitVec 8) : Reads Reading.readByte (BitLists.bits 8 b.toNat) b := fun _ _ hr =>
  BitstreamReader.readByte_spec hr

theorem uint16 (v : BitVec 16) : Reads Reading.readUInt16 (BitLists.bits 16 v.toNat) v := by
  have hread := (bits (show 16 ≤ 64 by decide) v.isLt).map fun value => value.setWidth 16
  have hvalue : (BitVec.ofNat 64 v.toNat).setWidth 16 = v := by simp
  rwa [hvalue] at hread

theorem consume (skipped : List Bool) : Reads (Reading.consumeBits skipped.length) skipped () := by
  intro r rest hr
  obtain ⟨before, hbefore, hbytes⟩ := hr.behind
  have hcount := hr.count
  have hlength := congrArg length hbytes
  rw [length_ofBytes] at hlength
  simp only [length_append] at hcount hlength
  have hstep : Reading.consumeBits skipped.length r = ((), ⟨r.bytes.drop
      ((r.remainingBits + 7) / 8 - (r.remainingBits - skipped.length + 7) / 8).toNat,
      r.remainingBits - skipped.length⟩) := if_neg (by omega)
  rw [hstep]
  refine ⟨rfl, show r.remainingBits - skipped.length = rest.length by omega, ?_⟩
  generalize hdrop : ((r.remainingBits + 7) / 8 - (r.remainingBits - skipped.length + 7) / 8).toNat =
    dropped
  refine ⟨(before ++ skipped).drop (8 * dropped), ?_, ?_⟩
  · rw [length_drop, length_append]
    omega
  · rw [ofBytes_drop, hbytes, ← append_assoc, drop_append_of_le_length]
    rw [length_append]
    omega

theorem loop {count : Nat} {body : α → Nat → Reading α} {taken : Nat → List Bool}
    (state : Nat → α) (hbody : ∀ i < count, Reads (body (state i) i) (taken i) (state (i + 1))) :
    Reads ((range count).foldlM body (state 0)) ((range count).flatMap taken)
      (state count) := by
  induction count with
  | zero => exact nothing (state 0)
  | succ count ih =>
    have hlast := hbody count (Nat.lt_succ_self count)
    rw [range_succ, foldlM_append, flatMap_append, flatMap_singleton]
    refine (ih fun i hi => hbody i (Nat.lt_succ_of_lt hi)).andThen ?_
    exact hlast.andDone (nothing _)

theorem optional {condition : Bool} {taken : List Bool} {result otherwise : α}
    (hcode : condition = true → Reads code taken result)
    (hotherwise : condition = false → otherwise = result) :
    Reads (Reading.readIf condition code otherwise) (if condition then taken else []) result := by
  cases condition with
  | false =>
    rw [← hotherwise rfl]
    exact nothing otherwise
  | true => exact hcode rfl

end Reads

end EventLog
