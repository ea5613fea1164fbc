import VisionCore.Chain.Sample
import VisionCore.Node.Importers

/-!
# What stays known

Blocks move between the canonical chain and the side blocks, and the tip may move to
any branch.  What the node has once known about a block it knows from then on: its
ancestors, its work and the accounts after it.
-/

namespace VisionCore

open Std
open Foundation

section Kept

variable {P : Platform} {D : Block -> Prop} {host : Host} {s g g' : ChainState}
  {blk parent : Block} {rest l : List Block} {sourcePeer : Option String} {step : Step}
  {before later : List ImporterStep}

/-- What the records about known blocks rest on. -/
structure Recorded (P : Platform) (D : Block -> Prop) (g : ChainState) : Prop where
  represents : Represents P D g
  exact : ExactWork g
  replays : Replays P g

theorem GenesisApplied.recorded (h : GenesisApplied P g) : Recorded P D g where
  represents := h.represents
  exact := h.exactWork
  replays := h.replays

end Kept

/-!
# A sample reorg
-/

end VisionCore
