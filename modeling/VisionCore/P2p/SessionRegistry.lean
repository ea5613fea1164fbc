import VisionCore.Foundation.OrderedMap
import VisionCore.P2p.PeerManager

/-!
# The session registry

`register` is two atomic steps in the source: the generation is drawn from the
counter before the lock is taken.
-/

namespace VisionCore

open Std Foundation

/-- The live transports of one durable peer address, by generation. -/
structure PeerSessions where
  latestGeneration : UInt64
  active : List UInt64
deriving DecidableEq, Repr

structure PeerSessionRegistry where
  nextGeneration : UInt64
  sessions : ExtTreeMap String PeerSessions

namespace PeerSessionRegistry

def new : PeerSessionRegistry :=
  { nextGeneration := 1, sessions := ∅ }

/-- The `fetch_add` of `register`.  The counter wraps. -/
def drawGeneration (registry : PeerSessionRegistry) : UInt64 × PeerSessionRegistry :=
  (registry.nextGeneration,
    { registry with nextGeneration := registry.nextGeneration + 1 })

/-- The locked part of `register`. -/
def insertSession (registry : PeerSessionRegistry) (peerAddr : String) (generation : UInt64) :
    PeerSessionRegistry :=
  let peerSessions :=
    (registry.sessions[peerAddr]?).getD { latestGeneration := generation, active := [] }
  { registry with
    sessions := registry.sessions.insert peerAddr
      { latestGeneration := generation
        active := peerSessions.active ++ [generation] } }

def register (registry : PeerSessionRegistry) (peerAddr : String) :
    UInt64 × PeerSessionRegistry :=
  let drawn := registry.drawGeneration
  (drawn.1, drawn.2.insertSession peerAddr drawn.1)

def unregister (registry : PeerSessionRegistry) (peerAddr : String) (generation : UInt64) :
    Option UInt64 × PeerSessionRegistry :=
  match registry.sessions[peerAddr]? with
  | none => (none, registry)
  | some peerSessions =>
      let active := peerSessions.active.filter fun session => session != generation
      let kept :=
        { registry with
          sessions := registry.sessions.insert peerAddr { peerSessions with active := active } }
      if active.length = peerSessions.active.length ∨ active ≠ [] then (none, kept)
      else
        (some peerSessions.latestGeneration,
          { registry with sessions := registry.sessions.erase peerAddr })

/-- The generations of the live transports of an address. -/
def activeOf (registry : PeerSessionRegistry) (peerAddr : String) : List UInt64 :=
  match registry.sessions[peerAddr]? with
  | none => []
  | some peerSessions => peerSessions.active

/-!
# What each operation does to one address
-/

variable {registry : PeerSessionRegistry} {peerAddr other : String} {generation : UInt64}

theorem insertSession_get_self :
    (registry.insertSession peerAddr generation).sessions[peerAddr]? =
      some { latestGeneration := generation
             active := registry.activeOf peerAddr ++ [generation] } := by
  unfold insertSession activeOf
  dsimp only
  rw [getElem?_insert_ite, if_pos rfl]
  cases registry.sessions[peerAddr]? with
  | none => rfl
  | some peerSessions => rfl

theorem insertSession_get_of_ne (h : peerAddr ≠ other) :
    (registry.insertSession peerAddr generation).sessions[other]? = registry.sessions[other]? := by
  unfold insertSession
  dsimp only
  rw [getElem?_insert_ite, if_neg h]

theorem unregister_get_of_ne (h : peerAddr ≠ other) :
    (registry.unregister peerAddr generation).2.sessions[other]? =
      registry.sessions[other]? := by
  unfold unregister
  cases registry.sessions[peerAddr]? with
  | none => rfl
  | some peerSessions =>
      dsimp only
      split
      · rw [getElem?_insert_ite, if_neg h]
      · rw [getElem?_erase_ite, if_neg h]

/-- A transport that is not the last one leaves the entry to the others. -/
theorem unregister_kept {peerSessions : PeerSessions}
    (hentry : registry.sessions[peerAddr]? = some peerSessions)
    (hothers : (peerSessions.active.filter fun session => session != generation) ≠ []) :
    (registry.unregister peerAddr generation).1 = none ∧
      (registry.unregister peerAddr generation).2.sessions[peerAddr]? =
        some { peerSessions with
          active := peerSessions.active.filter fun session => session != generation } := by
  unfold unregister
  rw [hentry]
  dsimp only
  rw [if_pos (Or.inr hothers)]
  constructor
  · rfl
  · rw [getElem?_insert_ite, if_pos rfl]

/-- The last transport of an address removes the entry. -/
theorem unregister_last {peerSessions : PeerSessions}
    (hentry : registry.sessions[peerAddr]? = some peerSessions)
    (hmem : generation ∈ peerSessions.active)
    (hlast : (peerSessions.active.filter fun session => session != generation) = []) :
    (registry.unregister peerAddr generation).1 = some peerSessions.latestGeneration ∧
      (registry.unregister peerAddr generation).2.sessions[peerAddr]? = none := by
  have hlength : ¬((peerSessions.active.filter fun session => session != generation).length =
      peerSessions.active.length ∨
      (peerSessions.active.filter fun session => session != generation) ≠ []) := by
    rw [hlast]
    rintro (hzero | hne)
    · rw [List.eq_nil_of_length_eq_zero hzero.symm] at hmem
      cases hmem
    · exact hne rfl
  unfold unregister
  rw [hentry]
  dsimp only
  rw [if_neg hlength]
  constructor
  · rfl
  · rw [getElem?_erase_ite, if_pos rfl]

end PeerSessionRegistry

end VisionCore
