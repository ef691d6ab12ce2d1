import WebRtc.Lib.ByteCodec

/-!
# Attributes of STUN messages

Model of `StunMessage::Read` and of the walk of `ValidateMessageIntegrityOfType`
(`api/transport/stun.cc`). A position is the list of bytes from there on, with the number of bytes
that are still skipped. Values, the transaction id and the HMAC are left out.
-/

namespace StunMessage

open ByteCodec

inductive StunAttributeValueType where
  | unknown | address | xorAddress | uint32 | uint64 | byteString | errorCode | uint16List
deriving DecidableEq

/-- The types of `StunMessage`; TURN and ICE messages have more of them. -/
def getAttributeValueType (type : Nat) : StunAttributeValueType :=
  if type ∈ [0x0001, 0x8023] then .address
  else if type ∈ [0x0006, 0x0008, 0x0014, 0x0015, 0x8022, 0xC058, 0xC05C] then .byteString
  else if type = 0x0009 then .errorCode
  else if type ∈ [0x000a, 0xC059] then .uint16List
  else if type = 0x0020 then .xorAddress
  else if type ∈ [0x8028, 0xFF00] then .uint32
  else if type = 0xC05D then .uint64
  else .unknown

def designatedExpertRange (type : Nat) : Prop :=
  0x4000 ≤ type ∧ type ≤ 0x7FFF ∨ 0xC000 ≤ type ∧ type ≤ 0xFFFF
deriving Decidable

/-- What the header of an attribute says, and its position: the bytes from the header on. -/
structure Attribute where
  type : Nat
  length : Nat
  left : Nat
deriving DecidableEq

def header (b0 b1 b2 b3 : UInt8) (buf : List UInt8) : Attribute :=
  ⟨natBE [b0, b1], natBE [b2, b3], buf.length + 4⟩

def padded (length : Nat) : Nat :=
  if length % 4 = 0 then length else length + (4 - length % 4)

def consume (size : Nat) (buf : List UInt8) : Option Nat :=
  if size ≤ buf.length then some size else none

/-- A value that `ConsumePadding` follows, which does nothing where the padding is missing. -/
def readPadded (length : Nat) (buf : List UInt8) : Option Nat :=
  (consume length buf).map fun _ => if padded length ≤ buf.length then padded length else length

section

variable (valueType : Nat → StunAttributeValueType)

def createAttribute (type : Nat) : StunAttributeValueType :=
  if valueType type = .unknown ∧ designatedExpertRange type then .byteString else valueType type

/-- How many bytes are taken for an attribute. One of a fixed size is created without its declared
length, and an unknown one is skipped with 16-bit arithmetic. -/
def readValue (a : Attribute) (buf : List UInt8) : Option Nat :=
  match createAttribute valueType a.type with
  | .unknown => consume (padded a.length % 2 ^ 16) buf
  | .uint32 => consume 4 buf
  | .uint64 => consume 8 buf
  | .byteString => readPadded a.length buf
  | .errorCode => if a.length < 4 then none else readPadded a.length buf
  | .uint16List => if a.length % 2 = 1 then none else readPadded a.length buf
  | _ =>
    if a.length = 8 ∧ buf[1]? = some 1 ∨ a.length = 20 ∧ buf[1]? = some 2 then
      consume a.length buf
    else none

/-- The loop of `Read`: the attributes that it meets. -/
def readLoop : Nat → List UInt8 → Option (List Attribute)
  | 0, [] => some []
  | skip + 1, _ :: buf => readLoop skip buf
  | 0, b0 :: b1 :: b2 :: b3 :: buf =>
    match readValue valueType (header b0 b1 b2 b3 buf) buf with
    | none => none
    | some n => (readLoop n buf).map (header b0 b1 b2 b3 buf :: ·)
  | _, _ => none

def read (data : List UInt8) : Option (List Attribute) :=
  if data.length < 20 ∨ 0x8000 ≤ natBE (data.take 2) ∨
      natBE ((data.drop 2).take 2) ≠ data.length - 20 then none
  else readLoop valueType 0 (data.drop 20)

end

/-- The attributes at which `ValidateMessageIntegrityOfType` looks. -/
def validateLoop (miAttrType : Nat) : Nat → List UInt8 → List Attribute
  | skip + 1, _ :: buf => validateLoop miAttrType skip buf
  | 0, b0 :: b1 :: b2 :: b3 :: buf =>
    let a := header b0 b1 b2 b3 buf
    if a.type = miAttrType then [a] else a :: validateLoop miAttrType (padded a.length) buf
  | _, _ => []

def upTo (type : Nat) : List Attribute → List Attribute
  | [] => []
  | a :: rest => if a.type = type then [a] else a :: upTo type rest

/-- The bytes are the attributes, one after the other. -/
def Tiles : List Attribute → List UInt8 → Prop
  | [], buf => buf = []
  | a :: rest, buf => ∃ b0 b1 b2 b3 value tail, buf = b0 :: b1 :: b2 :: b3 :: (value ++ tail) ∧
      a = header b0 b1 b2 b3 (value ++ tail) ∧ value.length = padded a.length ∧ Tiles rest tail

section

variable {valueType : Nat → StunAttributeValueType} {a : Attribute} {buf : List UInt8}

/-- The declared length of the attribute, rounded up, is the one that `Read` goes by. -/
def Regular (valueType : Nat → StunAttributeValueType) (a : Attribute) : Prop :=
  match createAttribute valueType a.type with
  | .unknown => a.length ≤ 65532
  | .uint32 => padded a.length = 4
  | .uint64 => padded a.length = 8
  | _ => True

theorem padded_eq (length : Nat) : padded length = (length + 3) / 4 * 4 := by
  unfold padded
  split_ifs <;> omega

theorem readValue_eq_some {n : Nat} (h : readValue valueType a buf = some n)
    (aligned : 4 ∣ buf.length) :
    (Regular valueType a ↔ n = padded a.length) ∧ n ≤ buf.length := by
  unfold readValue at h
  unfold Regular
  cases hcreate : createAttribute valueType a.type
  all_goals
    simp only [hcreate, readPadded, consume, padded_eq, Option.map_if, Option.ite_none_left_eq_some,
      Option.ite_none_right_eq_some, Option.some.injEq, true_iff] at h ⊢
    try split_ifs at h
    all_goals omega

def nextLeft : List Attribute → Nat
  | [] => 0
  | a :: _ => a.left

theorem Tiles.nextLeft_eq {attributes : List Attribute} (h : Tiles attributes buf) :
    nextLeft attributes = buf.length ∧ 4 ∣ buf.length := by
  induction attributes generalizing buf with
  | nil =>
    rw [show buf = [] from h]
    exact ⟨rfl, Nat.dvd_zero 4⟩
  | cons a rest ih =>
    obtain ⟨b0, b1, b2, b3, value, tail, rfl, rfl, hvalue, htail⟩ := h
    rw [padded_eq] at hvalue
    have haligned := (ih htail).2
    simp only [nextLeft, header, List.length_cons, List.length_append, true_and]
    omega

theorem readLoop_nextLeft {skip : Nat} {attributes : List Attribute}
    (h : readLoop valueType skip buf = some attributes) :
    skip + nextLeft attributes = buf.length := by
  fun_induction readLoop valueType skip buf generalizing attributes with
  | case1 =>
    cases h
    rfl
  | case2 skip b buf ih =>
    rw [List.length_cons, ← ih h]
    omega
  | case3 | case5 => cases h
  | case4 b0 b1 b2 b3 buf n hvalue ih =>
    obtain ⟨rest, -, rfl⟩ := Option.map_eq_some_iff.mp h
    exact Nat.zero_add _

theorem readLoop_tiles (miAttrType : Nat) {skip : Nat} {attributes : List Attribute}
    (h : readLoop valueType skip buf = some attributes) (le : skip ≤ buf.length)
    (aligned : 4 ∣ buf.length - skip) :
    ((∀ a ∈ attributes, Regular valueType a) → validateLoop miAttrType skip buf =
      upTo miAttrType attributes ∧ Tiles attributes (buf.drop skip)) ∧
    (Tiles attributes (buf.drop skip) → ∀ a ∈ attributes, Regular valueType a) := by
  fun_induction readLoop valueType skip buf generalizing attributes with
  | case1 =>
    cases h
    exact ⟨fun _ => ⟨rfl, rfl⟩, fun _ a ha => absurd ha List.not_mem_nil⟩
  | case2 skip b buf ih =>
    rw [List.length_cons, Nat.add_sub_add_right] at aligned
    exact ih h (Nat.le_of_succ_le_succ le) aligned
  | case3 | case5 => cases h
  | case4 b0 b1 b2 b3 buf n hvalue ih =>
    obtain ⟨rest, hrest, rfl⟩ := Option.map_eq_some_iff.mp h
    simp only [List.length_cons] at aligned
    obtain ⟨hregular, hle⟩ := readValue_eq_some hvalue (by omega)
    have haligned : n = padded (header b0 b1 b2 b3 buf).length → 4 ∣ buf.length - n := by
      rw [padded_eq]
      omega
    constructor
    · intro regular
      obtain ⟨hfirst, hothers⟩ := List.forall_mem_cons.mp regular
      have hn := hregular.mp hfirst
      obtain ⟨hwalk, htiles⟩ := (ih hrest hle (haligned hn)).1 hothers
      rw [validateLoop, upTo, ← hn, hwalk]
      refine ⟨rfl, b0, b1, b2, b3, buf.take n, buf.drop n, ?_, ?_, ?_, htiles⟩
      · rw [List.take_append_drop, List.drop_zero]
      · rw [List.take_append_drop]
      · rw [List.length_take, Nat.min_eq_left hle, hn]
    · rintro ⟨_, _, _, _, value, tail, heq, -, hlength, htail⟩
      -- the next attribute is at the same position for `Read` and in the tiling
      rw [List.drop_zero, List.cons.injEq, List.cons.injEq, List.cons.injEq, List.cons.injEq] at heq
      obtain ⟨-, -, -, -, rfl⟩ := heq
      have hn : n = padded (header b0 b1 b2 b3 (value ++ tail)).length := by
        have := readLoop_nextLeft hrest
        rw [htail.nextLeft_eq.1, List.length_append, hlength] at this
        exact Nat.add_right_cancel this
      have hdrop : (value ++ tail).drop n = tail := by
        rw [hn, ← hlength, List.drop_left]
      refine List.forall_mem_cons.mpr ⟨hregular.mpr hn, ?_⟩
      exact (ih hrest hle (haligned hn)).2 (by rwa [hdrop])

/-- A message is a sequence of attributes where `Read` met them, and its integrity check walks over
the same ones, exactly if its length is divisible by four and `Read` goes by each declared
length. -/
theorem read_tiles (valueType : Nat → StunAttributeValueType) (miAttrType : Nat) {data : List UInt8}
    {attributes : List Attribute} (h : read valueType data = some attributes) :
    4 ∣ data.length ∧ (∀ a ∈ attributes, Regular valueType a) ↔ Tiles attributes (data.drop 20) ∧
      validateLoop miAttrType 0 (data.drop 20) = upTo miAttrType attributes := by
  obtain ⟨hheader, hloop⟩ := Option.ite_none_left_eq_some.mp h
  have hlength : (data.drop 20).length = data.length - 20 := List.length_drop
  have htiles := readLoop_tiles miAttrType hloop (Nat.zero_le _)
  constructor
  · rintro ⟨haligned, hregular⟩
    exact ((htiles (by omega)).1 hregular).symm
  · rintro ⟨hall, -⟩
    have haligned := hall.nextLeft_eq.2
    exact ⟨by omega, (htiles haligned).2 hall⟩

end

def message (attributes : List UInt8) : List UInt8 :=
  bytesBE 2 0 ++ bytesBE 2 attributes.length ++ List.replicate 16 0 ++ attributes

/-- A name of three bytes and a fingerprint of declared length three. -/
theorem read_tiles_twoAttributes :
    let data := message [0, 6, 0, 3, 1, 2, 3, 0, 0x80, 0x28, 0, 3, 5, 6, 7, 8]
    read getAttributeValueType data = some [⟨6, 3, 16⟩, ⟨0x8028, 3, 8⟩] ∧
      validateLoop 8 0 (data.drop 20) = [⟨6, 3, 16⟩, ⟨0x8028, 3, 8⟩] := by
  intro data
  have hread : read getAttributeValueType data = some [⟨6, 3, 16⟩, ⟨0x8028, 3, 8⟩] := by decide
  refine ⟨hread, ((read_tiles _ 8 hread).mp ⟨by decide, ?_⟩).2⟩
  simp [Regular, createAttribute, getAttributeValueType, padded]

/-- A fingerprint of declared length zero, an unknown attribute of length 65533, and a name without
padding are read. -/
theorem read_not_tiled :
    [[0x80, 0x28, 0, 0, 5, 6, 7, 8], [0, 2, 0xFF, 0xFD], [0, 6, 0, 1, 9]].map (fun attributes =>
      ((read getAttributeValueType (message attributes)).map fun met =>
        (met.map fun a => 4 + padded a.length).sum, attributes.length)) =
      [(some 4, 8), (some 65540, 4), (some 8, 5)] := by
  decide

end StunMessage
