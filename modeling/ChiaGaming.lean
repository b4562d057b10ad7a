import ChiaGaming.Bencodex.Agreement
import ChiaGaming.Bencodex.De
import ChiaGaming.Bencodex.Encoding
import ChiaGaming.Bencodex.Entry
import ChiaGaming.Bencodex.Grammar
import ChiaGaming.Bencodex.RoundTrip
import ChiaGaming.Bencodex.Safety
import ChiaGaming.Bencodex.Schema
import ChiaGaming.Bencodex.Script
import ChiaGaming.Bencodex.ScriptEncoder
import ChiaGaming.Bencodex.ScriptGrammar
import ChiaGaming.Bencodex.Ser
import ChiaGaming.Channel.Books
import ChiaGaming.Channel.Dispute
import ChiaGaming.Channel.Frame
import ChiaGaming.Channel.Funds
import ChiaGaming.Channel.Games
import ChiaGaming.Channel.History
import ChiaGaming.Channel.Payouts
import ChiaGaming.Channel.Potato
import ChiaGaming.Channel.State
import ChiaGaming.Channel.Types
import ChiaGaming.Channel.Unroll
import ChiaGaming.Common.CoinString
import ChiaGaming.Games.BestHand
import ChiaGaming.Games.Calpoker
import ChiaGaming.Games.CalpokerDeal
import ChiaGaming.Games.CalpokerFinal
import ChiaGaming.Games.CalpokerHands
import ChiaGaming.Games.CalpokerPlay
import ChiaGaming.Games.CalpokerRanking
import ChiaGaming.Games.Cards
import ChiaGaming.Games.Groups
import ChiaGaming.Games.Krunk
import ChiaGaming.Games.KrunkClue
import ChiaGaming.Games.KrunkDictionary
import ChiaGaming.Games.KrunkPlay
import ChiaGaming.Games.KrunkReveal
import ChiaGaming.Games.Play
import ChiaGaming.Games.Ranking
import ChiaGaming.Games.Spacepoker
import ChiaGaming.Games.SpacepokerAgreement
import ChiaGaming.Games.SpacepokerOpening
import ChiaGaming.Games.SpacepokerPlay
import ChiaGaming.Games.SpacepokerRanking
import ChiaGaming.Games.SpacepokerRounds
import ChiaGaming.Games.SpacepokerSelection
import ChiaGaming.Games.SpacepokerShowdown
import ChiaGaming.Games.SpacepokerStreets
import ChiaGaming.Handshake.Completion
import ChiaGaming.Handshake.Concord
import ChiaGaming.Handshake.Funding
import ChiaGaming.Handshake.Initiator
import ChiaGaming.Handshake.InitiatorSafe
import ChiaGaming.Handshake.Receiver
import ChiaGaming.Handshake.ReceiverSafe
import ChiaGaming.Handshake.Stages
import ChiaGaming.Handshake.Types
import ChiaGaming.Lib.Act
import ChiaGaming.Lib.Bencode
import ChiaGaming.Lib.Canonical
import ChiaGaming.Lib.Clvm
import ChiaGaming.Lib.Compare
import ChiaGaming.Lib.Dict
import ChiaGaming.Lib.Gaps
import ChiaGaming.Lib.Hash
import ChiaGaming.Lib.Journal
import ChiaGaming.Lib.Naming
import ChiaGaming.Lib.Numeral
import ChiaGaming.Lib.Pieces
import ChiaGaming.Lib.Readings
import ChiaGaming.Lib.Result
import ChiaGaming.Lib.Select
import ChiaGaming.Lib.Serialize
import ChiaGaming.Lib.Sha256
import ChiaGaming.Lib.Sig
import ChiaGaming.Lib.Sort
import ChiaGaming.Lib.TextDecoder
import ChiaGaming.Lib.Token
import ChiaGaming.Lib.Triple
import ChiaGaming.Lib.Utf8
import ChiaGaming.Manager.Claims
import ChiaGaming.Manager.Delivery
import ChiaGaming.Manager.Diff
import ChiaGaming.Manager.Feed
import ChiaGaming.Manager.Lives
import ChiaGaming.Manager.Reports
import ChiaGaming.Manager.Retry
import ChiaGaming.Manager.Rollback
import ChiaGaming.Manager.Types
import ChiaGaming.OnChain.Abandoned
import ChiaGaming.OnChain.Actions
import ChiaGaming.OnChain.Carried
import ChiaGaming.OnChain.Coins
import ChiaGaming.OnChain.Games
import ChiaGaming.OnChain.Matching
import ChiaGaming.OnChain.Queue
import ChiaGaming.OnChain.Redo
import ChiaGaming.OnChain.Runs
import ChiaGaming.OnChain.Shares
import ChiaGaming.OnChain.Snapshots
import ChiaGaming.OnChain.Spent
import ChiaGaming.OnChain.Steps
import ChiaGaming.OnChain.Takeover
import ChiaGaming.OnChain.Transition
import ChiaGaming.OnChain.Types
import ChiaGaming.Peer.Controller
import ChiaGaming.Peer.Delivery
import ChiaGaming.Peer.Durable
import ChiaGaming.Peer.Frame
import ChiaGaming.Peer.Moves
import ChiaGaming.Peer.Order
import ChiaGaming.Peer.Party
import ChiaGaming.Peer.Transport
import ChiaGaming.Puzzle.Referee
import ChiaGaming.Puzzle.Unroll
import ChiaGaming.Referee.Chain
import ChiaGaming.Referee.Commitments
import ChiaGaming.Referee.Handler
import ChiaGaming.Referee.Runs
import ChiaGaming.Referee.Slash
import ChiaGaming.Referee.Solutions
import ChiaGaming.Referee.Spending
import ChiaGaming.Referee.Timeout
import ChiaGaming.Referee.Tracking
import ChiaGaming.Referee.Turns
import ChiaGaming.Referee.Types
import ChiaGaming.Session.Actions
import ChiaGaming.Session.Discipline
import ChiaGaming.Session.Drain
import ChiaGaming.Session.Exclusion
import ChiaGaming.Session.Frame
import ChiaGaming.Session.Handover
import ChiaGaming.Session.Names
import ChiaGaming.Session.Nonces
import ChiaGaming.Session.OffChain
import ChiaGaming.Session.Payouts
import ChiaGaming.Session.Reach
import ChiaGaming.Session.Receive
import ChiaGaming.Session.Rollback
import ChiaGaming.Session.Runs
import ChiaGaming.Session.Shutdown
import ChiaGaming.Session.Spends
import ChiaGaming.Session.StartInfo
import ChiaGaming.Session.Table
import ChiaGaming.Session.Turns
import ChiaGaming.Session.Types
