import WebRtc.Units
import Mathlib.Data.BitVec
import Mathlib.Algebra.BigOperators.Group.List.Basic

/-!
# Bytes in flight per network route

Model of `NetworkRoute` (`rtc_base/network_route.h`) and of `InFlightBytesTracker`
(`modules/congestion_controller/rtp/transport_feedback_adapter.cc`). The comparator of its map
ignores part of a route, so that the keys are classes of routes. A failed `RTC_DCHECK` is `none`.
-/

namespace Congestion

open Units

inductive AdapterType where
  | unknown
  | ethernet
  | wifi
  | cellular
  | vpn
  | loopback
  | any
  | cellular2G
  | cellular3G
  | cellular4G
  | cellular5G
deriving DecidableEq, Repr

structure RouteEndpoint where
  adapterType : AdapterType := .unknown
  adapterId : BitVec 16 := 0
  networkId : BitVec 16 := 0
  usesTurn : Bool := false
deriving DecidableEq, Repr

structure NetworkRoute where
  connected : Bool := false
  localEndpoint : RouteEndpoint := {}
  remoteEndpoint : RouteEndpoint := {}
  lastSentPacketId : Int := -1
  packetOverhead : Int := 0
deriving DecidableEq, Repr

/-- `SentPacket` (`api/transport/network_types.h`), without the pacing information that is
only passed on. -/
structure SentPacket where
  sendTime : Timestamp := .plusInfinity
  size : Nat := 0
  priorUnackedData : Nat := 0
  audio : Bool := false
  sequenceNumber : Int
  dataInFlight : Nat := 0
deriving DecidableEq, Repr

structure PacketFeedback where
  creationTime : Timestamp := .minusInfinity
  sent : SentPacket
  receiveTime : Timestamp := .plusInfinity
  networkRoute : NetworkRoute
  ssrc : BitVec 32 := 0
  rtpSequenceNumber : BitVec 16 := 0
deriving DecidableEq, Repr

def networkRouteComparator (a b : NetworkRoute) : Bool :=
  if a.localEndpoint.networkId ≠ b.localEndpoint.networkId then
    decide (a.localEndpoint.networkId < b.localEndpoint.networkId)
  else if a.remoteEndpoint.networkId ≠ b.remoteEndpoint.networkId then
    decide (a.remoteEndpoint.networkId < b.remoteEndpoint.networkId)
  else if a.localEndpoint.adapterId ≠ b.localEndpoint.adapterId then
    decide (a.localEndpoint.adapterId < b.localEndpoint.adapterId)
  else if a.remoteEndpoint.adapterId ≠ b.remoteEndpoint.adapterId then
    decide (a.remoteEndpoint.adapterId < b.remoteEndpoint.adapterId)
  else if a.localEndpoint.usesTurn ≠ b.localEndpoint.usesTurn then
    !a.localEndpoint.usesTurn && b.localEndpoint.usesTurn
  else if a.remoteEndpoint.usesTurn ≠ b.remoteEndpoint.usesTurn then
    !a.remoteEndpoint.usesTurn && b.remoteEndpoint.usesTurn
  else !a.connected && b.connected

/-- Two routes that are the same key of the map: neither is before the other. -/
def equivalentRoute (a b : NetworkRoute) : Bool :=
  !networkRouteComparator a b && !networkRouteComparator b a

/-- The fields of a route that the comparator looks at. -/
structure RouteClass where
  localNetworkId : BitVec 16
  remoteNetworkId : BitVec 16
  localAdapterId : BitVec 16
  remoteAdapterId : BitVec 16
  localUsesTurn : Bool
  remoteUsesTurn : Bool
  connected : Bool
deriving DecidableEq, Repr

def routeClass (route : NetworkRoute) : RouteClass where
  localNetworkId := route.localEndpoint.networkId
  remoteNetworkId := route.remoteEndpoint.networkId
  localAdapterId := route.localEndpoint.adapterId
  remoteAdapterId := route.remoteEndpoint.adapterId
  localUsesTurn := route.localEndpoint.usesTurn
  remoteUsesTurn := route.remoteEndpoint.usesTurn
  connected := route.connected

theorem not_lt_both {a b : BitVec 16} (hne : a ≠ b) :
    (!decide (a < b) && !decide (b < a)) = false := by
  have hnat : a.toNat ≠ b.toNat := fun h => hne (BitVec.eq_of_toNat_eq h)
  by_cases hlt : a.toNat < b.toNat
  · simp [BitVec.lt_def, hlt]
  · simp [BitVec.lt_def, show b.toNat < a.toNat by omega]

theorem equivalentRoute_eq (a b : NetworkRoute) :
    equivalentRoute a b = decide (routeClass a = routeClass b) := by
  unfold equivalentRoute networkRouteComparator
  simp only [routeClass, RouteClass.mk.injEq, ne_eq, eq_comm (a := b.localEndpoint.networkId),
    eq_comm (a := b.remoteEndpoint.networkId), eq_comm (a := b.localEndpoint.adapterId), eq_comm (a
    := b.remoteEndpoint.adapterId)]
  by_cases h1 : a.localEndpoint.networkId = b.localEndpoint.networkId
  swap
  · simp only [h1, not_false_eq_true, if_true, not_lt_both h1, false_and, decide_false]
  by_cases h2 : a.remoteEndpoint.networkId = b.remoteEndpoint.networkId
  swap
  · simp only [h1, h2, not_true_eq_false, if_false, not_false_eq_true, if_true, not_lt_both h2,
      false_and, and_false, decide_false]
  by_cases h3 : a.localEndpoint.adapterId = b.localEndpoint.adapterId
  swap
  · simp only [h1, h2, h3, not_true_eq_false, if_false, not_false_eq_true, if_true,
      not_lt_both h3, false_and, and_false, decide_false]
  by_cases h4 : a.remoteEndpoint.adapterId = b.remoteEndpoint.adapterId
  swap
  · simp only [h1, h2, h3, h4, not_true_eq_false, if_false, not_false_eq_true, if_true,
      not_lt_both h4, false_and, and_false, decide_false]
  simp only [h1, h2, h3, h4, not_true_eq_false, if_false]
  cases a.localEndpoint.usesTurn <;> cases b.localEndpoint.usesTurn <;>
    cases a.remoteEndpoint.usesTurn <;> cases b.remoteEndpoint.usesTurn <;>
      cases a.connected <;> cases b.connected <;> decide

/-- `InFlightBytesTracker`. The order of the map is never used. -/
structure InFlightBytesTracker where
  inFlightData : List (NetworkRoute × Nat) := []
deriving DecidableEq, Repr

namespace InFlightBytesTracker

variable (t : InFlightBytesTracker)

def find? (t : InFlightBytesTracker) (route : NetworkRoute) : Option Nat :=
  (t.inFlightData.find? fun e => equivalentRoute e.1 route).map Prod.snd

def update (t : InFlightBytesTracker) (route : NetworkRoute) (f : Nat → Nat) :
    InFlightBytesTracker :=
  ⟨t.inFlightData.map fun e => if equivalentRoute e.1 route then (e.1, f e.2) else e⟩

def addInFlightPacketBytes (t : InFlightBytesTracker) (packet : PacketFeedback) :
    Option InFlightBytesTracker :=
  if packet.sent.sendTime.isFinite then
    match t.find? packet.networkRoute with
    | some _ => some (t.update packet.networkRoute (· + packet.sent.size))
    | none => some ⟨(packet.networkRoute, packet.sent.size) :: t.inFlightData⟩
  else none

def removeInFlightPacketBytes (t : InFlightBytesTracker) (packet : PacketFeedback) :
    Option InFlightBytesTracker :=
  if packet.sent.sendTime.isInfinite then some t
  else
    match t.find? packet.networkRoute with
    | some bytes =>
      if bytes < packet.sent.size then none
      else if bytes - packet.sent.size = 0 then
        some ⟨t.inFlightData.filter fun e => !equivalentRoute e.1 packet.networkRoute⟩
      else some (t.update packet.networkRoute (· - packet.sent.size))
    | none => some t

def getOutstandingData (t : InFlightBytesTracker) (route : NetworkRoute) : Nat :=
  (t.find? route).getD 0

def contribution (packet : PacketFeedback) (route : NetworkRoute) : Nat :=
  if packet.sent.sendTime.isFinite = true ∧ routeClass packet.networkRoute = routeClass route then
    packet.sent.size
  else 0

theorem find?_eq (route : NetworkRoute) : t.find? route = (t.inFlightData.find? fun e =>
      decide (routeClass e.1 = routeClass route)).map Prod.snd := by
  simp only [find?, equivalentRoute_eq]

theorem find?_congr {a b : NetworkRoute} (h : routeClass a = routeClass b) : t.find? a = t.find? b := by
  rw [find?_eq, find?_eq, h]

theorem find?_update (route other : NetworkRoute) (f : Nat → Nat) :
    (t.update route f).find? other = (t.find? other).map fun bytes =>
        if routeClass route = routeClass other then f bytes else bytes := by
  simp only [find?_eq, update, equivalentRoute_eq]
  induction t.inFlightData with
  | nil => rfl
  | cons e rest ih =>
    by_cases hother : routeClass e.1 = routeClass other
    · by_cases hroute : routeClass e.1 = routeClass route
      · have hsame := hroute.symm.trans hother
        simp [hsame, hother]
      · have hne : routeClass route ≠ routeClass other := fun h => hroute (hother.trans h.symm)
        have hne' := hne.symm
        simp [hother, hne, hne']
    · by_cases hroute : routeClass e.1 = routeClass route
      · have hne : routeClass route ≠ routeClass other := fun h => hother (hroute.trans h)
        simpa [hroute, hne] using ih
      · simpa [hroute, hother] using ih

theorem find?_cons (route other : NetworkRoute) (bytes : Nat) :
    (⟨(route, bytes) :: t.inFlightData⟩ : InFlightBytesTracker).find? other =
      if routeClass route = routeClass other then some bytes else t.find? other := by
  rw [find?_eq, find?_eq]
  by_cases h : routeClass route = routeClass other <;> simp [h]

theorem find?_filter (route other : NetworkRoute) :
    (⟨t.inFlightData.filter fun e => !equivalentRoute e.1 route⟩ : InFlightBytesTracker).find?
        other = if routeClass route = routeClass other then none else t.find? other := by
  simp only [find?_eq, equivalentRoute_eq, List.find?_filter]
  split_ifs with h
  · rw [Option.map_eq_none_iff, List.find?_eq_none]
    intro e _
    simp [h]
  · refine congrArg _ (congrArg (fun p => List.find? p t.inFlightData) ?_)
    funext e
    by_cases hother : routeClass e.1 = routeClass other
    · have hne : routeClass other ≠ routeClass route := fun heq => h heq.symm
      simp [hother, hne]
    · simp [hother]

theorem addInFlightPacketBytes_ok (packet : PacketFeedback)
    (sent : packet.sent.sendTime.isFinite = true) :
    ∃ t', t.addInFlightPacketBytes packet = some t' ∧ ∀ route,
      t'.getOutstandingData route = t.getOutstandingData route + contribution packet route := by
  rw [addInFlightPacketBytes, if_pos sent]
  cases hfind : t.find? packet.networkRoute with
  | some bytes =>
    refine ⟨_, rfl, fun route => ?_⟩
    simp only [getOutstandingData, find?_update, contribution, sent]
    by_cases h : routeClass packet.networkRoute = routeClass route
    · rw [← t.find?_congr h, hfind]
      simp [h]
    · cases t.find? route <;> simp [h]
  | none =>
    refine ⟨_, rfl, fun route => ?_⟩
    simp only [getOutstandingData, find?_cons, contribution, sent]
    by_cases h : routeClass packet.networkRoute = routeClass route
    · rw [← t.find?_congr h, hfind]
      simp [h]
    · simp [h]

/-- Removing a packet that is accounted for runs without a failed check. -/
theorem removeInFlightPacketBytes_ok (packet : PacketFeedback)
    (counted : ∀ route, contribution packet route ≤ t.getOutstandingData route) :
    ∃ t', t.removeInFlightPacketBytes packet = some t' ∧ ∀ route,
      t'.getOutstandingData route + contribution packet route = t.getOutstandingData route := by
  rw [removeInFlightPacketBytes, UnitBase.isInfinite]
  cases hsent : packet.sent.sendTime.isFinite with
  | false => exact ⟨t, rfl, fun route => by simp [contribution, hsent]⟩
  | true =>
    have hsize := counted packet.networkRoute
    simp only [contribution, hsent, true_and, if_true, getOutstandingData] at hsize
    rw [if_neg (by decide)]
    cases hfind : t.find? packet.networkRoute with
    | none =>
      rw [hfind] at hsize
      refine ⟨t, rfl, fun route => ?_⟩
      have hzero := Nat.le_zero.mp hsize
      simp [contribution, hzero]
    | some bytes =>
      rw [hfind, Option.getD_some] at hsize
      dsimp only
      rw [if_neg (Nat.not_lt.mpr hsize)]
      split_ifs with hzero
      · refine ⟨_, rfl, fun route => ?_⟩
        simp only [getOutstandingData, find?_filter, contribution, hsent, true_and]
        by_cases h : routeClass packet.networkRoute = routeClass route
        · rw [if_pos h, if_pos h, ← t.find?_congr h, hfind]
          simp only [Option.getD_none, Option.getD_some]
          omega
        · simp [h]
      · refine ⟨_, rfl, fun route => ?_⟩
        simp only [getOutstandingData, find?_update, contribution, hsent, true_and]
        by_cases h : routeClass packet.networkRoute = routeClass route
        · rw [if_pos h, ← t.find?_congr h, hfind, Option.map_some, if_pos h, Option.getD_some,
            Option.getD_some]
          omega
        · cases t.find? route <;> simp [h]

def removeAll (t : InFlightBytesTracker) : List PacketFeedback → Option InFlightBytesTracker
  | [] => some t
  | packet :: rest => (t.removeInFlightPacketBytes packet).bind fun t => t.removeAll rest

theorem removeAll_ok (packets : List PacketFeedback) (t : InFlightBytesTracker)
    (counted : ∀ route, (packets.map fun packet => contribution packet route).sum ≤
      t.getOutstandingData route) :
    ∃ t', t.removeAll packets = some t' ∧ ∀ route,
      t'.getOutstandingData route + (packets.map fun packet => contribution packet route).sum =
        t.getOutstandingData route := by
  induction packets generalizing t with
  | nil => exact ⟨t, rfl, fun route => rfl⟩
  | cons packet rest ih =>
    simp only [List.map_cons, List.sum_cons] at counted ⊢
    obtain ⟨t₁, hremove, hfirst⟩ := t.removeInFlightPacketBytes_ok packet fun route => by
      have := counted route
      omega
    obtain ⟨t₂, hrest, hall⟩ := ih t₁ fun route => by
      have := counted route
      have := hfirst route
      omega
    refine ⟨t₂, ?_, fun route => ?_⟩
    · rw [removeAll, hremove, Option.bind_some, hrest]
    · have := hfirst route
      have := hall route
      omega

end InFlightBytesTracker

end Congestion
