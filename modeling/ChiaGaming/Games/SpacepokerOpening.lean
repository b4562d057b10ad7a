import ChiaGaming.Games.Spacepoker
import ChiaGaming.Lib.Sha256
import ChiaGaming.Referee.Turns

namespace ChiaGaming.Spacepoker

/-! The first move of space poker: Alice commits to the tip of her hash chain. -/

/-- `commitA.clsp`; the state is the bet unit. -/
def commitAValidator (commitBHash : Bytes) (a : RefereeArgs) (betUnit _evidence : Clvm) :
    Option Clvm :=
  if a.move.length = 32 ∧ a.moverShare = bytesOfInt (intOfBytes a.amount / 2) then
    some (answer commitBHash (.list [betUnit, .atom a.move]) (bytesOfNat 32) .nil)
  else some .nil

/-- The programs of the opening, as CLVM values. -/
structure Programs where
  valCommitA : Clvm
  valCommitB : Clvm
  aliceCommitA : Clvm
  aliceHandlerCommitB : Clvm
  bobHandlerCommitA : Clvm
  bobCommitB : Clvm

/-- `(a (q . f) (c (q . arg) 1))`. -/
def curry (f arg : Clvm) : Clvm :=
  .list [.nat 2, .pair (.nat 1) f, .list [.nat 4, .pair (.nat 1) arg, .nat 1]]

section Opening

variable (sha256 : Bytes → Bytes) (P : Programs)

/-- The label `spacepoker_alice_commitA`. -/
def aliceCommitALabel : Bytes :=
  [0x73, 0x70, 0x61, 0x63, 0x65, 0x70, 0x6f, 0x6b, 0x65, 0x72, 0x5f, 0x61, 0x6c, 0x69, 0x63, 0x65,
    0x5f, 0x63, 0x6f, 0x6d, 0x6d, 0x69, 0x74, 0x41]

/-- Alice's handler; the arguments are `(local_move amount state mover_share entropy)`. -/
def spacepokerAliceCommitA (args : Clvm) : Option Clvm := do
  let amount ← (← args.nth 1).bytes
  let entropy ← (← args.nth 4).bytes
  let chain := buildImageChain sha256 (← substr entropy 0 16)
  some (.list [.atom aliceCommitALabel, .atom (← chain[5]?), P.valCommitA,
    .atom (shatree sha256 P.valCommitA), P.valCommitB, .atom (shatree sha256 P.valCommitB),
    .nat 32, .int (intOfBytes amount / 2),
    curry P.aliceHandlerCommitB (.list (chain.map .atom))])

/-- Bob's handler has nothing to hold against the move. -/
def spacepokerBobHandlerCommitA : Clvm := .list [.nil, .nil, P.bobCommitB]

/-- Evaluation of the programs of the opening. -/
def Programs.run : Run := fun program env =>
  if program = P.valCommitA then
    interpret (commitAValidator (shatree sha256 P.valCommitB)) program env
  else if program = P.aliceCommitA then spacepokerAliceCommitA sha256 P env
  else if program = P.bobHandlerCommitA then some (spacepokerBobHandlerCommitA P)
  else none

/-- The game as the factory starts it, for the player who goes first or for the other. -/
def gameStart (perPlayerStake betUnit : ℕ) (goesFirst : Bool) : GameStartInfo where
  amount := 2 * perPlayerStake
  gameHandler :=
    if goesFirst then .myTurnHandler P.aliceCommitA else .theirTurnHandler P.bobHandlerCommitA
  myContributionThisGame := perPlayerStake
  theirContributionThisGame := perPlayerStake
  initialValidationProgram := ⟨P.valCommitA, shatree sha256 P.valCommitA⟩
  initialState := .nat betUnit
  initialMove := []
  initialMaxMoveSize := 32
  initialMoverShare := 0
  gameId := 1
  timeout := 15

end Opening

theorem Programs.runs_valCommitA (sha256 : Bytes → Bytes) (P : Programs) :
    Runs (P.run sha256) P.valCommitA (commitAValidator (shatree sha256 P.valCommitB)) := by
  intro modHash a state program' evidence tail
  rw [Programs.run, if_pos rfl]
  exact runs_interpret _ _ modHash a state program' evidence tail

/-! One table: stakes of 100 with a bet unit of 10. -/

/-- Stand-ins for the compiled programs; only that they are different matters. -/
def programs : Programs where
  valCommitA := .list [.nat 1, .nat 1]
  valCommitB := .list [.nat 1, .nat 2]
  aliceCommitA := .list [.nat 1, .nat 3]
  aliceHandlerCommitB := .list [.nat 1, .nat 4]
  bobHandlerCommitA := .list [.nat 1, .nat 5]
  bobCommitB := .list [.nat 1, .nat 6]

def table : Env where
  sha256 := Sha256.sha256
  run := programs.run Sha256.sha256
  keyBytes pk := bytesOfNat pk.sum

def seats (me other : PrivateKey) : RefereeParties where
  refereeCoinPuzzleHash := List.replicate 32 0x42
  myIdentity := ⟨me⟩
  theirPubkey := publicKey other
  theirRewardPuzzleHash := List.replicate 32 0x0b
  theirRewardPayoutSignature := sign other (rewardPayoutMessage (List.replicate 32 0x0b))
  rewardPuzzleHash := List.replicate 32 0x0a
  nonce := 1

end ChiaGaming.Spacepoker
