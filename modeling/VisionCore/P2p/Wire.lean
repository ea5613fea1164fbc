import VisionCore.Foundation.Framing
import VisionCore.P2p.Messages
import VisionCore.Types.Bincode
import VisionCore.Types.Identifiers

/-!
# Messages on the wire
-/

namespace VisionCore

open Foundation

namespace Bincode

def chainSummary : Codec UInt8 ChainSummary :=
  (u64.seq ((option text).seq u128)).iso
    (fun v =>
      { height := v.1
        tipHash := v.2.1
        cumulativeWork := v.2.2 })
    (fun summary => (summary.height, summary.tipHash, summary.cumulativeWork))
    (fun _ => rfl) (fun _ => rfl)

def handshake : Codec UInt8 HandshakeMessage :=
  (u32.seq (hash.seq (text.seq (u64.seq (u64.seq (text.seq (text.seq (text.seq (text.seq
    ((option text).seq ((option u16).seq (list text)))))))))))).iso
    (fun v =>
      { protocolVersion := v.1
        chainId := v.2.1
        genesisHash := v.2.2.1
        nodeNonce := v.2.2.2.1
        chainHeight := v.2.2.2.2.1
        networkId := v.2.2.2.2.2.1
        nodeTag := v.2.2.2.2.2.2.1
        econHash := v.2.2.2.2.2.2.2.1
        powParamsHash := v.2.2.2.2.2.2.2.2.1
        advertisedIp := v.2.2.2.2.2.2.2.2.2.1
        advertisedPort := v.2.2.2.2.2.2.2.2.2.2.1
        seedPeers := v.2.2.2.2.2.2.2.2.2.2.2 })
    (fun h => (h.protocolVersion, h.chainId, h.genesisHash, h.nodeNonce, h.chainHeight,
      h.networkId, h.nodeTag, h.econHash, h.powParamsHash, h.advertisedIp, h.advertisedPort,
      h.seedPeers))
    (fun _ => rfl) (fun _ => rfl)

def announceBlock : Codec UInt8 AnnounceBlock :=
  (u64.seq (text.seq text)).iso
    (fun v =>
      { height := v.1
        hash := v.2.1
        prev := v.2.2 })
    (fun announcement => (announcement.height, announcement.hash, announcement.prev))
    (fun _ => rfl) (fun _ => rfl)

/-!
# The kinds of messages
-/

/-- The variants in their order. -/
inductive MessageTag where
  | handshake
  | ping
  | pong
  | getHeight
  | height
  | announceBlock
  | getBlock
  | block
  | disconnect
deriving DecidableEq, Repr

namespace MessageTag

def index : MessageTag -> Nat
  | handshake => 0
  | ping => 1
  | pong => 2
  | getHeight => 3
  | height => 4
  | announceBlock => 5
  | getBlock => 6
  | block => 7
  | disconnect => 8

def ofIndex : Nat -> Option MessageTag
  | 0 => some handshake
  | 1 => some ping
  | 2 => some pong
  | 3 => some getHeight
  | 4 => some height
  | 5 => some announceBlock
  | 6 => some getBlock
  | 7 => some block
  | 8 => some disconnect
  | _ => none

theorem ofIndex_index (tag : MessageTag) : ofIndex tag.index = some tag := by
  cases tag with
  | handshake => rfl
  | ping => rfl
  | pong => rfl
  | getHeight => rfl
  | height => rfl
  | announceBlock => rfl
  | getBlock => rfl
  | block => rfl
  | disconnect => rfl

theorem index_of_ofIndex {n : Nat} {tag : MessageTag} (h : ofIndex n = some tag) :
    tag.index = n := by
  unfold ofIndex at h
  split at h
  all_goals cases h
  all_goals rfl

theorem index_lt (tag : MessageTag) : tag.index < 9 := by
  cases tag with
  | handshake => decide
  | ping => decide
  | pong => decide
  | getHeight => decide
  | height => decide
  | announceBlock => decide
  | getBlock => decide
  | block => decide
  | disconnect => decide

def Body : MessageTag -> Type
  | handshake => HandshakeMessage
  | ping => UInt64
  | pong => UInt64
  | getHeight => Unit
  | height => ChainSummary
  | announceBlock => AnnounceBlock
  | getBlock => String
  | block => Block
  | disconnect => String

def body : forall tag, Codec UInt8 (Body tag)
  | handshake => Bincode.handshake
  | ping => u64
  | pong => u64
  | getHeight => Codec.nothing
  | height => chainSummary
  | announceBlock => Bincode.announceBlock
  | getBlock => text
  | block => Bincode.block
  | disconnect => text

end MessageTag

def messageOf : Sigma MessageTag.Body -> P2PMessage
  | ⟨.handshake, handshake⟩ => .handshake handshake
  | ⟨.ping, timestamp⟩ => .ping timestamp
  | ⟨.pong, timestamp⟩ => .pong timestamp
  | ⟨.getHeight, _⟩ => .getHeight
  | ⟨.height, summary⟩ => .height summary
  | ⟨.announceBlock, announcement⟩ => .announceBlock announcement
  | ⟨.getBlock, hash⟩ => .getBlock hash
  | ⟨.block, blk⟩ => .block blk
  | ⟨.disconnect, reason⟩ => .disconnect reason

def messageParts : P2PMessage -> Sigma MessageTag.Body
  | .handshake handshake => ⟨.handshake, handshake⟩
  | .ping timestamp => ⟨.ping, timestamp⟩
  | .pong timestamp => ⟨.pong, timestamp⟩
  | .getHeight => ⟨.getHeight, ()⟩
  | .height summary => ⟨.height, summary⟩
  | .announceBlock announcement => ⟨.announceBlock, announcement⟩
  | .getBlock hash => ⟨.getBlock, hash⟩
  | .block blk => ⟨.block, blk⟩
  | .disconnect reason => ⟨.disconnect, reason⟩

theorem messageOf_messageParts (message : P2PMessage) :
    messageOf (messageParts message) = message := by
  cases message with
  | handshake handshake => rfl
  | ping timestamp => rfl
  | pong timestamp => rfl
  | getHeight => rfl
  | height summary => rfl
  | announceBlock announcement => rfl
  | getBlock hash => rfl
  | block blk => rfl
  | disconnect reason => rfl

theorem messageParts_messageOf (parts : Sigma MessageTag.Body) :
    messageParts (messageOf parts) = parts := by
  rcases parts with ⟨tag, body⟩
  cases tag with
  | handshake => rfl
  | ping => rfl
  | pong => rfl
  | getHeight => rfl
  | height => rfl
  | announceBlock => rfl
  | getBlock => rfl
  | block => rfl
  | disconnect => rfl

def messageTag : Codec UInt8 MessageTag :=
  (uint 4).via MessageTag.ofIndex MessageTag.index MessageTag.ofIndex_index
    MessageTag.index_of_ofIndex

def message : Codec UInt8 P2PMessage :=
  (Codec.tagged messageTag MessageTag.body).iso messageOf messageParts messageOf_messageParts
    messageParts_messageOf

end Bincode

/-!
# Framing

A frame is a big-endian length of four bytes and the payload.  The length is cast to
32 bits, and bytes behind a decoded message are ignored.
-/

def maxMessageBytes : Nat := 16 * 1024 * 1024

def p2pFraming : Framing UInt8 P2PMessage where
  width := 4
  limit := maxMessageBytes
  span := 2 ^ 32
  header := fun length => toBeBytes 4 (length % 2 ^ 32)
  lengthOf := fromBeBytes
  serialize := Bincode.message.encode
  deserialize := fun payload => (Bincode.message.decode payload).map Prod.fst
  Fits := Bincode.message.Fits
  width_pos := by decide
  header_length := fun length => toBeBytes_length 4 (length % 2 ^ 32)
  lengthOf_header := by
    intro length h
    rw [Nat.mod_eq_of_lt h]
    exact fromBeBytes_toBeBytes h
  deserialize_serialize := by
    intro message h
    have hread : Bincode.message.decode (Bincode.message.encode message ++ []) =
        some (message, []) := Bincode.message.decode_encode h
    rw [List.append_nil] at hread
    rw [hread]
    rfl

/-- The bytes that `send_message` writes. -/
def sendMessage (msg : P2PMessage) : Bytes :=
  p2pFraming.frame msg

/-- What `recv_message` makes of one more byte, behind those it has read. -/
def recvMessage (taken : Bytes) (byte : UInt8) : Reading UInt8 P2PMessage :=
  p2pFraming.advance taken byte

/-- Within a frame that is not too long the reader waits for its last byte. -/
theorem recvMessage_frame {msg : P2PMessage} {taken : Bytes} {byte : UInt8}
    (hframed : p2pFraming.Framed msg) (hlimit : p2pFraming.size msg ≤ maxMessageBytes)
    (hinit : taken ++ [byte] <+: sendMessage msg) :
    recvMessage taken byte =
      if (taken ++ [byte]).length < (sendMessage msg).length then .pending (taken ++ [byte])
      else .received msg :=
  Framing.advance_frame hframed hlimit hinit

end VisionCore
