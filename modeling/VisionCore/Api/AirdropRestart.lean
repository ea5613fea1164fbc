import VisionCore.Api.Airdrop
import VisionCore.Node.Mirror

/-!
# An airdrop and a restart

The snapshot that an airdrop saves does not have the state root of the block at its
height.  A restart refuses it, and finds the accounts of the blocks again.
-/

namespace VisionCore

open Std
open Foundation

/-!
# Snapshots that load
-/

section Hold

variable {P : Platform} {D : Block -> Prop} {N : UInt64 -> Prop} {g g' : ChainState}
  {host host' : Host}

/-- Whatever loads as a snapshot holds the accounts of the blocks up to its height. -/
def SnapshotsHold (P : Platform) (g : ChainState) : Prop :=
  forall height state root after, height.toNat ≤ g.currentHeight.toNat ->
    loadSnapshot P g.db height = .ok (state, root) ->
      lineState P (g.blocks.take (height.toNat + 1)).reverse = .ok after ->
        SameAccounts after state

theorem SnapshotContents.hold (h : SnapshotContents P D g.db) (hroots : RootsBind P D)
    (hg : Represents P D g) (hentries : StoredEntries g) : SnapshotsHold P g := by
  intro height state root after hheight hload hafter
  rcases hg.canonical_prefix hheight with ⟨hpath, hindex⟩
  have hmem : g.blocks[height.toNat] ∈ g.blocks := List.getElem_mem hindex
  have hnumber := hg.number_of_getElem? (List.getElem?_eq_getElem hindex)
  have htake := hg.take_reverse hmem
  rw [hnumber] at htake
  rw [htake] at hpath hafter
  exact h.accounts hroots hload (hg.ancestry hpath) (hentries _ hmem)
    (UInt64.toNat_inj.mp hnumber) hafter

theorem SnapshotsHold.congr (h : SnapshotsHold P g) (hblocks : g'.blocks = g.blocks)
    (hdb : g'.db = g.db) : SnapshotsHold P g' := by
  intro height state root after hheight hload hafter
  have hcurrent : g'.currentHeight = g.currentHeight := by
    unfold ChainState.currentHeight
    rw [hblocks]
  rw [hcurrent] at hheight
  rw [hdb] at hload
  rw [hblocks] at hafter
  exact h height state root after hheight hload hafter

theorem Sound.refresh (h : host.Within N ∧ Sound P N g) :
    host.Within N ∧ Sound P N g.refreshCachedStateRootFromTip :=
  ⟨h.1, h.2.congr rfl rfl rfl⟩

end Hold

/-!
# The snapshot of an airdrop
-/

section Refused

variable {P : Platform} {D : Block -> Prop} {N : UInt64 -> Prop} {host host' : Host}
  {enabled : Bool} {g g' : ChainState} {address : String} {amount : Nat}
  {snapshot : AlphaAirdropSnapshot}

end Refused

/-!
# The restart
-/

section Restart

variable {P : Platform} {D : Block -> Prop} {N : UInt64 -> Prop} {db : Db}
  {host host' host₀ host₁ host₂ host₃ : Host} {enabled : Bool} {g g' g₀ g₂ : ChainState}
  {calls : List Call} {address : String} {amount : Nat} {snapshot : AlphaAirdropSnapshot}

theorem ClockedDb.session (h : ClockedDb P D N db) : SessionDb P D db := by
  induction h with
  | empty => exact SessionDb.empty
  | left _ _ hstart hcalls hrun ih =>
      exact SessionDb.left ih hstart (fun call hcall => (hcalls call hcall).1) hrun

end Restart

/-!
# A sample restart
-/

end VisionCore
