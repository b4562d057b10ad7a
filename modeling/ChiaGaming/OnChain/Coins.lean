import ChiaGaming.OnChain.Spent

namespace ChiaGaming

/-! The games of a channel state as an unroll finds them. -/

/-- What is tracked of a coin of a game.  A coin that is armed is claimed and not played on. -/
def LiveGame.coinState (g : LiveGame) (puzzleHash : Hash) (stateNumber : ℕ)
    (ourTurn armed finished : Bool) : OnChainGameState where
  gameId := g.gameId
  puzzleHash
  ourTurn
  stateNumber
  pendingSlashAmount := none
  cheatingMoveMoverShare := none
  timeoutClaimArmed := armed
  notificationSent := false
  gameTimeout := g.getGameTimeout
  gameFinished := finished

namespace ChannelState

variable (E : ChannelEnv) (ch : ChannelState)

def sentMove? : CachedRedoActions → Option CachedSendMove
  | .cachedSendMove move => some move
  | _ => none

def acceptedSettlement? : CachedRedoActions → Option CachedAcceptSettlement
  | .cachedAcceptSettlement settlement => some settlement
  | _ => none

def acceptedProposal? : CachedRedoActions → Option GameID
  | .proposalAccepted gameId => some gameId
  | _ => none

def cachedMoves : List CachedSendMove := ch.cachedRedoActions.filterMap sentMove?

def liveGameIds : List GameID := ch.liveGames.map LiveGame.gameId

def allGameIds : List GameID := (ch.liveGames ++ ch.pendingSettlements).map LiveGame.gameId

def pendingProposalAcceptGameIds : List GameID := ch.cachedRedoActions.filterMap acceptedProposal?

def timeoutStateNumber : Option ℕ := ch.latestReceivedUnroll.map fun t => t.coin.stateNumber

/-- The game whose last coin this is. -/
def latestGame (matched : List GameID) (ph : Hash) (amount : ℕ) : Option LiveGame :=
  ch.liveGames.find? fun g =>
    g.gameId ∉ matched ∧ g.lastRefereePuzzleHash = ph ∧ g.getAmount = amount

/-- The game with a move of ours that was made on this coin and has to be made again. -/
def redoGame (matched : List GameID) (ph : Hash) (amount : ℕ) : Option LiveGame :=
  ch.cachedMoves.findSome? fun move =>
    if move.matchPuzzleHash = ph ∧ move.gameId ∉ matched then
      ch.liveGames.find? fun g => g.gameId = move.gameId ∧ g.getAmount = amount
    else none

def settlingGame (ph : Hash) (amount : ℕ) : Option LiveGame :=
  ch.pendingSettlements.find? fun g => g.lastRefereePuzzleHash = ph ∧ g.getAmount = amount

/-- The game that a coin of the unroll belongs to, and whether it is one of those that are live. -/
def gameOfCoin (matched : List GameID) (ph : Hash) (amount : ℕ) :
    Option (OnChainGameState × Bool) :=
  match ch.latestGame matched ph amount with
  | some g => some (g.coinState ph ch.stateNumber g.isMyTurn false g.isGameOver, true)
  | none =>
    match ch.redoGame matched ph amount with
    | some g => some (g.coinState ph ch.stateNumber true false g.isGameOver, true)
    | none =>
      (ch.settlingGame ph amount).map fun g => (g.coinState ph ch.stateNumber true true false, false)

/-- Each live game is matched with one coin at most. -/
def matchCoins (unrollCoinId : Hash) :
    List GameID → Dict CoinString OnChainGameState → List (Hash × ℕ) →
      Dict CoinString OnChainGameState
  | _, res, [] => res
  | matched, res, (ph, amount) :: coins =>
    match ch.gameOfCoin matched ph amount with
    | none => matchCoins unrollCoinId matched res coins
    | some (state, live) =>
      matchCoins unrollCoinId (if live then state.gameId :: matched else matched)
        (res.insert ⟨unrollCoinId, ph, amount⟩ state) coins

def setStateForCoins (unrollCoin : CoinString) (coins : List (Hash × ℕ)) :
    Dict CoinString OnChainGameState :=
  ch.matchCoins (unrollCoin.toCoinId E.sha256) [] ∅ coins

/-- The settlements of ours that no coin has survived of. -/
def drainPreemptResolvedAcceptSettlements (survivingIds : List GameID) :
    Act Error ChannelState (List (GameID × ℕ)) := do
  let ch ← get
  let resolved := (ch.cachedRedoActions.filterMap acceptedSettlement?).filter fun a =>
    a.gameId ∉ survivingIds
  set { ch with
    cachedRedoActions := ch.cachedRedoActions.filter fun entry =>
      (acceptedSettlement? entry).all fun a : CachedAcceptSettlement => a.gameId ∈ survivingIds
    pendingSettlements := ch.pendingSettlements.filter fun g =>
      g.gameId ∉ resolved.map CachedAcceptSettlement.gameId }
  pure (resolved.map fun a => (a.gameId, a.ourShareAmount))

/-- The game that stands for the identifier, live or being settled. -/
def findGame (gameId : GameID) : Option LiveGame :=
  (ch.findLiveGame gameId).orElse fun _ => ch.pendingSettlements.find? fun g => g.gameId = gameId

def getGameOurCurrentShare (gameId : GameID) : Except Error ℕ := do
  (← orError (ch.findGame gameId) (.strErr "get_game_our_current_share: game not found"
    [.nat gameId])).getOurCurrentShare

def cachedMoveForGame (gameId : GameID) : Option CachedSendMove :=
  ch.cachedMoves.find? fun move => move.gameId = gameId

def hasCachedMoveForGame (gameId : GameID) : Bool := (ch.cachedMoveForGame gameId).isSome

/-- Whether the move that would be made again leaves us nothing.  What the coin pays that it would
be made on is not asked for. -/
def isRedoZeroReward (gameId : GameID) : Except Error Bool :=
  match ch.cachedMoves.findSome? fun move =>
      if move.gameId = gameId then move.savedPostMoveReferee else none with
  | none => .ok false
  | some referee => do .ok ((← referee.getOurCurrentShare) = 0)

def takeCachedMoveForGame (gameId : GameID) : Act Error ChannelState (Option CachedSendMove) := do
  let ch ← get
  set { ch with
    cachedRedoActions := ch.cachedRedoActions.eraseP fun entry =>
      (sentMove? entry).any fun move : CachedSendMove => move.gameId = gameId }
  pure (ch.cachedMoveForGame gameId)

end ChannelState

end ChiaGaming
