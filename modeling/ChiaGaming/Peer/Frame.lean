import ChiaGaming.Common.CoinString

namespace ChiaGaming

/-! What one player's page says to the other's over the relay. -/

namespace Peer

open Common (beBytes)

def buildFrame (tag : UInt8) (msgno : ℕ) (data : Bytes) : Bytes := tag :: (beBytes 4 msgno ++ data)

inductive PeerFrame where
  | message (msgno : ℕ) (msg : Bytes)
  | ack (msgno : ℕ)
  | keepalive
  deriving DecidableEq

/-- What is handed on of a payload; a frame of no known form is nothing. -/
def deliverRawPeerMessage : Bytes → Option PeerFrame
  | [] => none
  | tag :: rest =>
    if tag = 1 ∧ 4 ≤ rest.length then some (.message (natOfBytes (rest.take 4)) (rest.drop 4))
    else if tag = 2 ∧ 4 ≤ rest.length then some (.ack (natOfBytes (rest.take 4)))
    else if tag = 3 then some .keepalive
    else none

theorem take_beBytes (n : ℕ) (data : Bytes) : (beBytes 4 n ++ data).take 4 = beBytes 4 n :=
  List.take_left' (Common.beBytes_length 4 n)

theorem drop_beBytes (n : ℕ) (data : Bytes) : (beBytes 4 n ++ data).drop 4 = data :=
  List.drop_left' (Common.beBytes_length 4 n)

theorem le_length_beBytes (n : ℕ) (data : Bytes) : 4 ≤ (beBytes 4 n ++ data).length := by
  rw [List.length_append, Common.beBytes_length]
  omega

theorem natOfBytes_beBytes_four (n : ℕ) : natOfBytes (beBytes 4 n) = n % 2 ^ 32 := by
  have hwidth : (256 : ℕ) ^ 4 = 2 ^ 32 := rfl
  rw [Common.natOfBytes_beBytes, hwidth]

/-- The number is cut down to four bytes. -/
theorem deliver_message (n : ℕ) (data : Bytes) :
    deliverRawPeerMessage (buildFrame 1 n data) = some (.message (n % 2 ^ 32) data) := by
  rw [buildFrame, deliverRawPeerMessage, if_pos ⟨rfl, le_length_beBytes n data⟩, take_beBytes, drop_beBytes,
    natOfBytes_beBytes_four]

theorem deliver_ack (n : ℕ) : deliverRawPeerMessage (buildFrame 2 n []) = some (.ack (n % 2 ^ 32)) := by
  rw [buildFrame, deliverRawPeerMessage, if_neg (fun h => absurd h.1 (by decide)),
    if_pos ⟨rfl, le_length_beBytes n []⟩, take_beBytes, natOfBytes_beBytes_four]

theorem deliver_keepalive : deliverRawPeerMessage [3] = some .keepalive := rfl

end Peer

end ChiaGaming
