import Mathlib.Data.List.Basic
import Mathlib.Data.List.Induction
import Mathlib.Data.Prod.Lex

/-!
# The choice of the connection to ping

`BasicIceController` takes the maximum of the pingable connections by a comparison in three stages.
Relayed connections over UDP apart, the choice is the connection with
the least key.
-/

namespace Ice

open List

/-- What `MorePingable` reads of a connection. The address tells connections apart. -/
structure Connection where
  address : Nat
  localIsRelay : Bool
  remoteIsRelay : Bool
  relayProtocol : String
  lastPingSent : Int
deriving DecidableEq

namespace Connection

def isRelayRelay (conn : Connection) : Bool := conn.localIsRelay && conn.remoteIsRelay

def isUdp (conn : Connection) : Bool := conn.relayProtocol == "udp"

abbrev EquallyLikely (a b : Connection) : Prop :=
  a.isRelayRelay = b.isRelayRelay ∧ (a.isRelayRelay = true → a.isUdp = b.isUdp)

end Connection

structure BasicIceController where
  prioritizeMostLikelyCandidatePairs : Bool
  connections : List Connection

def mostLikelyToWork (conn1 conn2 : Connection) : Option Connection :=
  let rr1 := conn1.isRelayRelay
  let rr2 := conn2.isRelayRelay
  if rr1 && !rr2 then some conn1
  else if rr2 && !rr1 then some conn2
  else if rr1 && rr2 then
    let udp1 := conn1.isUdp
    let udp2 := conn2.isUdp
    if udp1 && !udp2 then some conn1
    else if udp2 && udp1 then some conn2
    else none
  else none

def leastRecentlyPinged (conn1 conn2 : Connection) : Option Connection :=
  if conn1.lastPingSent < conn2.lastPingSent then some conn1
  else if conn1.lastPingSent > conn2.lastPingSent then some conn2
  else none

namespace BasicIceController

variable (c : BasicIceController)

/-- There is no result if the search in `connections_` comes to the end. -/
def morePingable (conn1 conn2 : Connection) : Option Connection :=
  let mostLikely :=
    if c.prioritizeMostLikelyCandidatePairs then mostLikelyToWork conn1 conn2 else none
  mostLikely <|> leastRecentlyPinged conn1 conn2 <|>
    c.connections.find? fun conn => conn = conn1 ∨ conn = conn2

/-- The comparison that `FindNextPingableConnection` gives to `max_element`. -/
def lessPingable (conn1 conn2 : Connection) : Bool :=
  if conn1 = conn2 then false else c.morePingable conn1 conn2 = some conn2

/-- `max_element` of the pingable connections, in the order of the set that holds them. -/
def mostPingable : List Connection → Option Connection
  | [] => none
  | first :: rest => some (rest.foldl
      (fun largest conn => if c.lessPingable largest conn then conn else largest) first)

/-- Less recently pinged, or the first in `connections_` of two that were pinged at one time. -/
abbrev Before (a b : Connection) : Prop :=
  a.lastPingSent < b.lastPingSent ∨
    a.lastPingSent = b.lastPingSent ∧ c.connections.idxOf a < c.connections.idxOf b

/-- A relayed connection over UDP comes before all other relayed ones, none of which is over UDP. -/
abbrev Comparable (a b : Connection) : Prop :=
  c.prioritizeMostLikelyCandidatePairs = true → a.isRelayRelay = true → b.isRelayRelay = true →
    a.isUdp = true → b.isUdp = false ∧ c.Before a b

def rank (conn : Connection) : Bool :=
  c.prioritizeMostLikelyCandidatePairs && !conn.isRelayRelay

def key (conn : Connection) : Bool ×ₗ Int ×ₗ Nat :=
  toLex (c.rank conn, toLex (conn.lastPingSent, c.connections.idxOf conn))

variable {c : BasicIceController} {a b : Connection} {pingable : List Connection}

theorem key_lt_iff :
    c.key a < c.key b ↔ c.rank a < c.rank b ∨ c.rank a = c.rank b ∧ c.Before a b := by
  rw [key, key, Prod.Lex.toLex_lt_toLex, Prod.Lex.toLex_lt_toLex]

theorem find?_first {connections : List Connection} (ha : a ∈ connections) :
    connections.find? (fun conn => conn = a ∨ conn = b) =
      some (if connections.idxOf b < connections.idxOf a then b else a) := by
  induction connections with
  | nil => cases ha
  | cons conn connections ih =>
    rw [find?_cons]
    by_cases hconn : conn = a
    · subst hconn
      simp
    · have ha := (mem_cons.mp ha).resolve_left (Ne.symm hconn)
      rw [idxOf_cons_ne _ hconn]
      by_cases hb : conn = b
      · subst hb
        simp
      · rw [idxOf_cons_ne _ hb, ih ha]
        simp [hconn, hb]

theorem least_or_first (ha : a ∈ c.connections) :
    (leastRecentlyPinged a b <|> c.connections.find? fun conn => conn = a ∨ conn = b) =
      some (if c.Before b a then b else a) := by
  rw [find?_first ha, leastRecentlyPinged]
  rcases lt_trichotomy a.lastPingSent b.lastPingSent with hlt | heq | hgt
  · simp [Before, hlt, hlt.not_gt, hlt.ne']
  · simp [Before, heq]
  · simp [Before, hgt, hgt.not_gt]

theorem mostLikelyToWork_eq (h : a.isRelayRelay = true → b.isRelayRelay = true → a.isUdp = false) :
    mostLikelyToWork a b = if a.isRelayRelay = b.isRelayRelay then none
      else some (if b.isRelayRelay then b else a) := by
  unfold mostLikelyToWork
  cases ha : a.isRelayRelay
  · cases b.isRelayRelay <;> rfl
  · cases hb : b.isRelayRelay
    · rfl
    · simp [h ha hb]

theorem morePingable_udp (hprioritize : c.prioritizeMostLikelyCandidatePairs = true)
    (ha : a.isRelayRelay = true) (hb : b.isRelayRelay = true) (hudp : a.isUdp = true) :
    c.morePingable a b = some (if b.isUdp then b else a) := by
  cases hother : b.isUdp <;>
    simp [morePingable, mostLikelyToWork, hprioritize, ha, hb, hudp, hother]

theorem morePingable_eq (ha : a ∈ c.connections) (h : c.Comparable a b) :
    c.morePingable a b = some (if c.key b < c.key a then b else a) := by
  by_cases hudp : c.prioritizeMostLikelyCandidatePairs = true ∧ a.isRelayRelay = true ∧
      b.isRelayRelay = true ∧ a.isUdp = true
  · obtain ⟨hprioritize, hrelayed, hother, hudp⟩ := hudp
    obtain ⟨htcp, hbefore⟩ := h hprioritize hrelayed hother hudp
    have hlt : c.key a < c.key b := key_lt_iff.mpr (.inr ⟨by simp [rank, hrelayed, hother], hbefore⟩)
    rw [morePingable_udp hprioritize hrelayed hother hudp, htcp, if_neg hlt.not_gt]
    rfl
  · rw [morePingable, least_or_first ha]
    simp only [key_lt_iff, rank]
    cases hprioritize : c.prioritizeMostLikelyCandidatePairs
    · simp
    · rw [if_pos rfl, mostLikelyToWork_eq fun hrelayed hother => by simp_all]
      cases a.isRelayRelay <;> cases b.isRelayRelay <;> simp

/-- A pair whose comparison does not depend on the order of the arguments is comparable. -/
theorem comparable_of_symmetric (hb : b ∈ c.connections) (hne : a ≠ b)
    (h : c.morePingable a b = c.morePingable b a) : c.Comparable a b := by
  intro hprioritize hrelayed hother hudp
  rw [morePingable_udp hprioritize hrelayed hother hudp] at h
  cases htcp : b.isUdp with
  | true =>
    rw [morePingable_udp hprioritize hother hrelayed htcp, htcp, hudp] at h
    exact absurd (Option.some_inj.mp h).symm hne
  | false =>
    have hnone : mostLikelyToWork b a = none := by
      rw [mostLikelyToWork_eq fun _ _ => htcp, if_pos (hother.trans hrelayed.symm)]
    have hleast : c.morePingable b a = some (if c.Before a b then a else b) := by
      rw [morePingable, hnone, ite_self]
      exact least_or_first hb
    refine ⟨rfl, by_contra fun hbefore => hne ?_⟩
    rw [htcp, hleast, if_neg hbefore] at h
    exact Option.some_inj.mp h

theorem lessPingable_iff (ha : a ∈ c.connections) (h : a ≠ b → c.Comparable a b) :
    c.lessPingable a b = true ↔ c.key b < c.key a := by
  by_cases hne : a = b
  · subst hne
    simp [lessPingable]
  · rw [lessPingable, if_neg hne, morePingable_eq ha (h hne)]
    simp [hne]

theorem mostPingable_spec (hne : pingable ≠ []) (h : ∀ x ∈ pingable, ∀ y ∈ pingable,
    (c.lessPingable x y = true ↔ c.key y < c.key x)) :
    ∃ x ∈ pingable, c.mostPingable pingable = some x ∧ ∀ y ∈ pingable, c.key x ≤ c.key y := by
  obtain ⟨first, rest, rfl⟩ := exists_cons_of_ne_nil hne
  clear hne
  induction rest using reverseRecOn with
  | nil => exact ⟨first, mem_cons_self, rfl, by simp⟩
  | append_singleton rest y ih =>
    rw [← cons_append] at h ⊢
    obtain ⟨x, hx, heq, hle⟩ := ih fun x hx z hz =>
      h x (mem_append_left _ hx) z (mem_append_left _ hz)
    have hless := h x (mem_append_left _ hx) y (by simp)
    have hstep : c.mostPingable (first :: rest ++ [y]) =
        some (if c.lessPingable x y then y else x) := by
      cases heq
      exact congrArg some foldl_append
    rw [hstep]
    split_ifs with hlt
    · refine ⟨y, by simp, rfl, forall_mem_append.mpr ⟨fun z hz => ?_, by simp⟩⟩
      exact (hless.mp hlt).le.trans (hle z hz)
    · refine ⟨x, mem_append_left _ hx, rfl, forall_mem_append.mpr ⟨hle, ?_⟩⟩
      simpa using not_lt.mp fun hlt' => hlt (hless.mpr hlt')

/-- The choice is consistent exactly if any two pingable connections are comparable. -/
theorem pingSelection_consistent (hsub : ∀ x ∈ pingable, x ∈ c.connections) :
    (∀ x ∈ pingable, ∀ y ∈ pingable, x ≠ y → c.Comparable x y) ↔
    (∀ x ∈ pingable, ∀ y ∈ pingable, x ≠ y → c.morePingable x y = c.morePingable y x) ∧
    IsStrictWeakOrder {x // x ∈ pingable} (fun x y => c.lessPingable x y = true) ∧
    (pingable ≠ [] → ∃ x ∈ pingable, c.mostPingable pingable = some x ∧
      ∀ y ∈ pingable, y ≠ x → x.EquallyLikely y → c.Before x y) := by
  refine ⟨fun h => ?_, fun h x hx y hy hne =>
    comparable_of_symmetric (hsub y hy) hne (h.1 x hx y hy hne)⟩
  have hless : ∀ x ∈ pingable, ∀ y ∈ pingable, (c.lessPingable x y = true ↔ c.key y < c.key x) :=
    fun x hx y hy => lessPingable_iff (hsub x hx) (h x hx y hy)
  have hkey : ∀ x ∈ pingable, ∀ y, x ≠ y → c.key x ≠ c.key y :=
    fun x hx y hne heq => hne
      ((idxOf_inj (hsub x hx)).mp (congrArg (fun k => (ofLex (ofLex k).2).2) heq))
  refine ⟨fun x hx y hy hne => ?_, ?_, fun hnonempty => ?_⟩
  · rw [morePingable_eq (hsub x hx) (h x hx y hy hne),
      morePingable_eq (hsub y hy) (h y hy x hx hne.symm)]
    rcases (hkey x hx y hne).lt_or_gt with hlt | hgt
    · rw [if_pos hlt, if_neg hlt.not_gt]
    · rw [if_pos hgt, if_neg hgt.not_gt]
  · have heq : (fun x y : {x // x ∈ pingable} => c.lessPingable x y = true) =
        Function.onFun (· > ·) fun x : {x // x ∈ pingable} => c.key x :=
      funext fun x => funext fun y => propext (hless x x.2 y y.2)
    have hkeys : IsStrictWeakOrder (Bool ×ₗ Int ×ₗ Nat) (· > ·) :=
      isStrictWeakOrder_of_isOrderConnected
    rw [heq]
    infer_instance
  · obtain ⟨x, hx, heq, hle⟩ := mostPingable_spec hnonempty hless
    refine ⟨x, hx, heq, fun y hy hne hlikely => ?_⟩
    have hlt := (hle y hy).lt_of_ne (hkey x hx y hne.symm)
    rw [key_lt_iff, rank, rank, hlikely.1] at hlt
    exact (hlt.resolve_left (lt_irrefl _)).2

theorem pingSelection_consistent_threeConnections : let a : Connection := ⟨0, true, true, "tcp", 3⟩
    let b : Connection := ⟨1, false, true, "", 1⟩
    let d : Connection := ⟨2, true, true, "tls", 3⟩
    let c : BasicIceController := ⟨true, [d, b, a]⟩
    c.mostPingable [a, b, d] = some d ∧ c.morePingable a d = c.morePingable d a := by
  intro a b d c
  exact ⟨by decide, ((@pingSelection_consistent c [a, b, d] (by decide)).mp (by decide)).1 a
    (by decide) d (by decide) (by decide)⟩

/-- Of two relayed connections over UDP the second argument is chosen, although it was pinged more
recently. -/
theorem morePingable_asymmetric : let a : Connection := ⟨0, true, true, "udp", 10⟩
    let b : Connection := ⟨1, true, true, "udp", 20⟩
    let c : BasicIceController := ⟨true, [a, b]⟩
    a.EquallyLikely b ∧ c.morePingable a b = some b ∧ c.morePingable b a = some a ∧
      c.lessPingable a b = true ∧ c.lessPingable b a = true ∧ c.mostPingable [a, b] = some b ∧
      ¬ c.Before b a := by
  decide

end BasicIceController

end Ice
