import VisionCore.Genesis.Genesis
import VisionCore.Pow.VisionXMiner
import VisionCore.Types.Binding

/-!
# The layout of the preimage

The digest of a header is taken over its preimage with a zero nonce, and the nonce
apart.  The miner puts a nonce into the preimage at a fixed offset.
-/

namespace VisionCore

/-!
# The fields that reach the digest
-/

section Commitment

variable {header header' : BlockHeader}

/-- The preimage of a header whose hash fields decode. -/
theorem historicalVpowMessageBytes_of_decode {parentHash txRoot : U256}
    (hparent : decodeHash32 "parent_hash" header.parentHash = .ok parentHash)
    (hroot : decodeHash32 "tx_root" header.txRoot = .ok txRoot) :
    historicalVpowMessageBytes header = .ok (vpowMagic ++ toLeBytes 4 vpowVersion ++
      parentHash.bytes ++ toLeBytes 8 header.number.toNat ++ toLeBytes 8 header.timestamp.toNat ++
      toLeBytes 8 header.difficulty.toNat ++ toBeBytes 8 header.nonce.toNat ++
      txRoot.bytes ++ toLeBytes 4 ((asBytes header.miner).length % 2 ^ 32) ++
      asBytes header.miner) := by
  unfold historicalVpowMessageBytes
  rw [hparent, hroot]
  rfl

end Commitment

def nonceFromHeader (headerWithNonce : Bytes) (nonceOffset : Nat) : Option UInt64 :=
  if nonceOffset + 8 ≥ u64Bound then none
  else if headerWithNonce.length < nonceOffset + 8 then none
  else some (UInt64.ofNat (fromBeBytes ((headerWithNonce.drop nonceOffset).take 8)))

section Splice

variable {front back : Bytes} {header : BlockHeader} {parentHash txRoot : U256} {n old : UInt64}

theorem injectNonce_append (hlength : front.length + 8 < u64Bound) :
    injectNonce (front ++ toBeBytes 8 old.toNat ++ back) front.length n =
      .ok (front ++ toBeBytes 8 n.toNat ++ back) := by
  have hbytes : (front ++ toBeBytes 8 old.toNat).length = front.length + 8 := by
    rw [List.length_append, toBeBytes_length]
  have htake : (front ++ toBeBytes 8 old.toNat ++ back).take front.length = front := by
    rw [List.append_assoc, List.take_left]
  have hdrop : (front ++ toBeBytes 8 old.toNat ++ back).drop (front.length + 8) = back := by
    rw [← hbytes, List.drop_left]
  have hlong : ¬ (front ++ toBeBytes 8 old.toNat ++ back).length < front.length + 8 := by
    rw [List.length_append, hbytes]
    omega
  unfold injectNonce
  rw [if_neg (Nat.not_le.mpr hlength), if_neg hlong, htake, hdrop]

/-- Another nonce changes nothing outside of its eight bytes. -/
theorem getElem?_apart {i : Nat} (hi : i < front.length ∨ front.length + 8 ≤ i) :
    (front ++ toBeBytes 8 n.toNat ++ back)[i]? = (front ++ toBeBytes 8 old.toNat ++ back)[i]? := by
  have hbytes : forall nonce : UInt64,
      (front ++ toBeBytes 8 nonce.toNat).length = front.length + 8 := by
    intro nonce
    rw [List.length_append, toBeBytes_length]
  rcases hi with hleft | hright
  · rw [List.append_assoc, List.append_assoc, List.getElem?_append_left hleft,
      List.getElem?_append_left hleft]
  · rw [List.getElem?_append_right (by rw [hbytes]; exact hright),
      List.getElem?_append_right (by rw [hbytes]; exact hright), hbytes, hbytes]

theorem nonceFromHeader_append (hlength : front.length + 8 < u64Bound) :
    nonceFromHeader (front ++ toBeBytes 8 n.toNat ++ back) front.length = some n := by
  have hbytes : ((front ++ toBeBytes 8 n.toNat ++ back).drop front.length).take 8 =
      toBeBytes 8 n.toNat := by
    rw [List.append_assoc, List.drop_left, List.take_left' (toBeBytes_length 8 n.toNat)]
  have hlong : ¬ (front ++ toBeBytes 8 n.toNat ++ back).length < front.length + 8 := by
    rw [List.length_append, List.length_append, toBeBytes_length]
    omega
  unfold nonceFromHeader
  rw [if_neg (Nat.not_le.mpr hlength), if_neg hlong, hbytes,
    fromBeBytes_toBeBytes n.toNat_lt, UInt64.ofNat_toNat]

/-- What stands before the nonce. -/
def preimageFront (header : BlockHeader) (parentHash : U256) : Bytes :=
  vpowMagic ++ toLeBytes 4 vpowVersion ++ parentHash.bytes ++
    toLeBytes 8 header.number.toNat ++ toLeBytes 8 header.timestamp.toNat ++
    toLeBytes 8 header.difficulty.toNat

/-- What stands behind the nonce. -/
def preimageBack (header : BlockHeader) (txRoot : U256) : Bytes :=
  txRoot.bytes ++ toLeBytes 4 ((asBytes header.miner).length % 2 ^ 32) ++ asBytes header.miner

/-- The bytes before the nonce are as many as the offset says. -/
theorem preimageFront_length (header : BlockHeader) (parentHash : U256) :
    (preimageFront header parentHash).length = historicalVpowNonceOffset := by
  have hmagic : vpowMagic.length = 4 := rfl
  unfold preimageFront historicalVpowNonceOffset
  simp only [List.length_append, toLeBytes_length, parentHash.length_eq, hmagic]

theorem preimage_split (hparent : decodeHash32 "parent_hash" header.parentHash = .ok parentHash)
    (hroot : decodeHash32 "tx_root" header.txRoot = .ok txRoot) (n : UInt64) :
    historicalVpowMessageBytes { header with nonce := n } =
      .ok (preimageFront header parentHash ++ toBeBytes 8 n.toNat ++
        preimageBack header txRoot) := by
  rw [@historicalVpowMessageBytes_of_decode { header with nonce := n } _ _ hparent hroot]
  unfold preimageFront preimageBack
  simp only [List.append_assoc]

/-- The nonce `n` in the preimage `zero` of the header with a zero nonce, as the encoder
writes it. -/
structure Spliced (header : BlockHeader) (n : UInt64) (zero whole : Bytes) : Prop where
  encoded : historicalVpowMessageBytes { header with nonce := n } = .ok whole
  injected : injectNonce zero historicalVpowNonceOffset n = .ok whole
  length : whole.length = zero.length
  apart : forall i, i < 64 ∨ 72 ≤ i -> whole[i]? = zero[i]?
  recovered : nonceFromHeader whole historicalVpowNonceOffset = some n

theorem spliced_of_decode
    (hparent : decodeHash32 "parent_hash" header.parentHash = .ok parentHash)
    (hroot : decodeHash32 "tx_root" header.txRoot = .ok txRoot) (n : UInt64) :
    Spliced header n
      (preimageFront header parentHash ++ toBeBytes 8 0 ++ preimageBack header txRoot)
      (preimageFront header parentHash ++ toBeBytes 8 n.toNat ++ preimageBack header txRoot) := by
  have hfront := preimageFront_length header parentHash
  have hoffset : (preimageFront header parentHash).length + 8 < u64Bound := by
    rw [hfront]
    decide
  constructor
  · exact preimage_split hparent hroot n
  · rw [← hfront]
    exact @injectNonce_append _ _ n 0 hoffset
  · simp
  · intro i hi
    apply @getElem?_apart _ _ n 0
    rw [hfront]
    exact hi
  · rw [← hfront]
    exact nonceFromHeader_append hoffset

end Splice

end VisionCore
