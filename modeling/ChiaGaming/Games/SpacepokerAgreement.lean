import ChiaGaming.Games.SpacepokerRounds

namespace ChiaGaming.Spacepoker.Betting

/-! The last move.  Any five of the opponent's cards are worth at most what the handler leaves for
them. -/

theorem fairShare_le {amount halfPot : ℤ} (hpot : 0 ≤ halfPot) {hand best other : List ℕ}
    (h : deepCompare (handToClvm best) (handToClvm other) ≠ -1) :
    fairShare amount halfPot hand best ≤ fairShare amount halfPot hand other := by
  have hle : deepCompare (handToClvm other) (handToClvm best) ≤ 0 := by
    have hswap := deepCompare_swap (handToClvm best) (handToClvm other)
    rcases deepCompare_cases (handToClvm best) (handToClvm other) with h' | h' | h' <;> omega
  have htrans := deepCompare_trans_le (handToClvm other) (handToClvm best) (handToClvm hand) hle
  have hbest := deepCompare_swap (handToClvm hand) (handToClvm best)
  have hother := deepCompare_swap (handToClvm hand) (handToClvm other)
  rcases deepCompare_cases (handToClvm hand) (handToClvm best) with hcmp | hcmp | hcmp
  · have hlow : fairShare amount halfPot hand best = amount / 2 - halfPot := by
      rw [fairShare, hcmp]
      rfl
    rw [hlow, fairShare]
    split_ifs <;> omega
  · have heven : fairShare amount halfPot hand best = amount / 2 := by
      rw [fairShare, hcmp]
      rfl
    have := htrans (by omega)
    rcases deepCompare_cases (handToClvm hand) (handToClvm other) with h' | h' | h'
    · omega
    · rw [heven, fairShare, h', if_pos rfl]
    · rw [heven, fairShare, h', if_neg one_ne_zero, if_pos rfl]
      omega
  · obtain ⟨hlt, hstrict⟩ := htrans (by omega)
    have hwins : deepCompare (handToClvm hand) (handToClvm other) = 1 := by
      rcases deepCompare_cases (handToClvm hand) (handToClvm other) with h' | h' | h'
      · omega
      · have := hstrict (by omega)
        omega
      · exact h'
    rw [fairShare, fairShare, hcmp, hwins]

/-- Five cards that a mask pulls from a hand. -/
structure Selects (cards : List ℕ) (mask : Bytes) : Prop where
  marks : popcount mask = 5
  pulls : (pullFromBitfield cards (natOfBytes mask)).length = 5

/-- A mask that selects a best hand. -/
structure SelectsBest (cards : List ℕ) (boost : ℕ) (mask : Bytes) : Prop extends Selects cards mask where
  best : ∃ hand, IsBest (spaceHandEval · boost) cards hand ∧
    spaceHandEval (pullFromBitfield cards (natOfBytes mask)) boost = some hand

section Showdown

variable {sha256 : Bytes → Bytes} {s : EndState} {bits : ℕ} {hand other : List ℕ}

/-- No five cards of the waiter's are worth more than its best hand, which the share leaves room for. -/
theorem endValidator_accepts {coin : RefereeArgs} {mask : Bytes}
    (hmove : coin.move = s.moverPre ++ bytesOfNat bits) (hone : (bytesOfNat bits).length = 1)
    (hpop : popcount (bytesOfNat bits) = 5)
    (heval : spaceHandEval (pullFromBitfield (s.deal sha256).moverCards bits) (s.deal sha256).moverBoost = some hand)
    (hbest : IsBest (spaceHandEval · (s.deal sha256).waiterBoost) (s.deal sha256).waiterCards other)
    (hamount : coin.amount = bytesOfNat (2 * s.stake)) (hinfo : coin.infohashB = [])
    (hshare : intOfBytes coin.moverShare = fairShare (2 * s.stake) s.halfPot hand other)
    (hmask : Selects (s.deal sha256).waiterCards mask) :
    endValidator sha256 coin (s.toClvm sha256) (.atom mask) = some (.list [.nil]) := by
  obtain ⟨before, m, rfl, hm, hclaim⟩ := Play.exists_afterMove coin
  have hinfo' : m.infohashC = [] := hinfo
  have hdouble : intOfBytes before.amount = 2 * (s.stake : ℤ) := by
    have hsame : before.amount = bytesOfNat (2 * s.stake) := hamount
    rw [hsame, intOfBytes_bytesOfNat]
    exact Nat.cast_mul 2 s.stake
  have hclaimed : intOfBytes m.newMoverShare = fairShare (2 * s.stake) s.halfPot hand other :=
    (congrArg intOfBytes hclaim).trans hshare
  have hpulled := pullFromBitfield_sublist (s.deal sha256).waiterCards (natOfBytes mask)
  obtain ⟨shown, hshown⟩ := Option.isSome_iff_exists.mp (spaceHandEval_isSome (s.deal sha256).waiterBoost
    hmask.pulls fun c hc => EndState.waiterCards_lt c (hpulled.subset hc))
  have hfair : ¬ fairShare (2 * s.stake) s.halfPot hand other > fairShare (2 * s.stake) s.halfPot hand shown :=
    not_lt.mpr (fairShare_le (Int.natCast_nonneg _) (hbest.2 _ shown hpulled hmask.pulls hshown))
  rw [endValidator_reveal (hm.trans hmove) hone, if_neg (not_not.mpr hinfo'), if_neg (not_not.mpr hpop),
    Clvm.bytes_atom, Option.bind_some, if_neg (not_not.mpr hmask.marks), verdict, natOfBytes_bytesOfNat, heval,
    Option.bind_some, hshown, Option.bind_some, hdouble, hclaimed]
  exact if_neg hfair

/-- The other player's handler answers a reveal with a best hand. -/
theorem answered_best {hash : Validator → Bytes} {stake : ℕ} {p : Player} {preState state : Clvm} {share : Bytes}
    (hone : (bytesOfNat bits).length = 1)
    (hbest : IsBest (spaceHandEval · (s.deal sha256).moverBoost) (s.deal sha256).moverCards hand)
    (hbest' : IsBest (spaceHandEval · (s.deal sha256).waiterBoost) (s.deal sha256).waiterCards other) :
    ∃ reply mask, (rules sha256 hash (2 * stake)).theirTurn
        (.revealTheir p (buildImageChain sha256 s.waiterPre)) preState state (s.moverPre ++ bytesOfNat bits) share =
        some reply ∧ reply.evidence = .list [.atom mask] ∧
      SelectsBest (s.deal sha256).waiterCards (s.deal sha256).waiterBoost mask := by
  obtain ⟨mask, hmarks, hpulls, hvalue, htheir⟩ := handlerEndTheir_evidence (bytesOfNat bits) [] hone hbest hbest'
  obtain ⟨answer, hanswer, hevidence⟩ := Option.bind_eq_some_iff.mp htheir
  obtain ⟨readable, hreadable⟩ : ∃ readable, answer.nth 0 = some readable := by
    cases answer with
    | atom x => cases hevidence
    | pair x y => exact ⟨x, rfl⟩
  refine ⟨⟨readable, .list [.nat mask], none, none⟩, bytesOfNat mask, ?_, rfl, ⟨hmarks, ?_⟩, other, hbest', ?_⟩
  · refine Option.bind_eq_some_iff.mpr ⟨answer, hanswer, ?_⟩
    rw [hreadable, hevidence]
    rfl
  · rw [natOfBytes_bytesOfNat]
    exact hpulls
  · rw [natOfBytes_bytesOfNat]
    exact hvalue

end Showdown

section Last

variable (sha256 : Bytes → Bytes) (hash : Validator → Bytes) (stake : ℕ)

/-- The reveal shows a best hand of the mover's cards, the other player answers with a best hand of its own,
and the validator has nothing against the reveal, whichever five cards it is shown.  Here `d` is the deal
with the mover's cards first. -/
structure Concludes (d : Deal) (T : Table) (t : Move) : Prop where
  outgoing : t.outgoingValidator = T.validator
  fits : t.move.length ≤ T.maxMoveSize
  shows : ∃ pre mask, t.move = pre ++ mask ∧ pre.length = 16 ∧ SelectsBest d.moverCards d.moverBoost mask
  answered : ∀ state, ∃ reply mask, (rules sha256 hash (2 * stake)).theirTurn T.waiter T.state state t.move
    t.moverShare = some reply ∧ reply.evidence = .list [.atom mask] ∧
      SelectsBest d.waiterCards d.waiterBoost mask
  accepted : ∀ coin mask, Play.CoinOf (rules sha256 hash (2 * stake)) t coin → Selects d.waiterCards mask →
    ∃ result, (rules sha256 hash (2 * stake)).validate T.validator coin T.state (.atom mask) = some result ∧
      Play.Aligned t result

variable {sha256 stake} {a b localMove entropy : Bytes} {p : Player} {halfPot : ℕ}

def revealMove (p : Player) (own mask share : Bytes) : Move where
  label := "spacepoker_" ++ p.name ++ "_end"
  move := own ++ mask
  outgoingValidator := .reveal
  outgoingValidatorHash := hash .reveal
  incomingValidator := none
  incomingValidatorHash := []
  maxMoveSize := 0
  moverShare := share
  theirTurnHandler := none
  messageParser := none

variable {hash}

theorem reveal_concludes (ha : a.length = 16) (hb : b.length = 16) (hstake : 0 < stake) (hpot : halfPot ≤ stake) :
    ∃ t, (rules sha256 hash (2 * stake)).myTurn (revealTable sha256 a b p halfPot).mover localMove
        (revealTable sha256 a b p halfPot).state entropy = some t ∧
      0 ≤ intOfBytes t.moverShare ∧
      Concludes sha256 hash stake (makeAllCards sha256 (seat a b p) (seat a b p.other))
        (revealTable sha256 a b p halfPot) t := by
  let s : EndState := ⟨seat a b p, seat a b p.other, stake, halfPot, seat_length ha hb, seat_length ha hb,
    hstake, hpot⟩
  obtain ⟨⟨h7, hlt⟩, h7', hlt'⟩ := makeAllCards_hands sha256 (seat a b p) (seat a b p.other)
  obtain ⟨hand, -, -, hbest, -⟩ := spaceHandCalc_spec (s.deal sha256).moverBoost (by rw [h7]; decide) hlt
  obtain ⟨other, -, -, hbest', -⟩ := spaceHandCalc_spec (s.deal sha256).waiterBoost (by rw [h7']; decide) hlt'
  obtain ⟨bits, hone, hpop, hfive, heval, hmove⟩ := handlerEnd_move .nil (hash .reveal) hbest hbest'
  have hshare : intOfBytes (bytesOfInt (fairShare (2 * s.stake) s.halfPot hand other)) =
      fairShare (2 * s.stake) s.halfPot hand other := intOfBytes_bytesOfInt _
  have hmade : (rules sha256 hash (2 * stake)).myTurn (revealTable sha256 a b p halfPot).mover localMove
      (revealTable sha256 a b p halfPot).state entropy = some (revealMove hash p (seat a b p) (bytesOfNat bits)
        (bytesOfInt (fairShare (2 * s.stake) s.halfPot hand other))) := by
    have hdouble : 2 * (s.stake : ℤ) = (2 * stake : ℕ) := (Nat.cast_mul 2 stake).symm
    have hanswer := hmove ("spacepoker_" ++ p.name ++ "_end").toUTF8.toList
    rw [hdouble] at hanswer ⊢
    obtain ⟨answer, hanswer, hmoves⟩ := Option.bind_eq_some_iff.mp hanswer
    have hend : endMove hash p answer = some (revealMove hash p (seat a b p) (bytesOfNat bits)
        (bytesOfInt (fairShare (2 * stake : ℕ) s.halfPot hand other))) := by
      rw [endMove, hmoves]
      rfl
    cases p with
    | alice => exact Option.bind_eq_some_iff.mpr ⟨answer, hanswer, hend⟩
    | bob => exact Option.bind_eq_some_iff.mpr ⟨answer, hanswer, hend⟩
  refine ⟨_, hmade, ?_, rfl, ?_, ⟨_, _, rfl, seat_length ha hb, ⟨hpop, ?_⟩, hand, hbest, ?_⟩, fun state => ?_,
    fun coin mask hcoin hmask => ?_⟩
  · have hle : s.halfPot ≤ s.stake := hpot
    rw [revealMove, hshare, fairShare_eq]
    split_ifs <;> omega
  · change (seat a b p ++ bytesOfNat bits).length ≤ 17
    rw [List.length_append, seat_length ha hb, hone]
  · rw [natOfBytes_bytesOfNat]
    exact hfive
  · rw [natOfBytes_bytesOfNat]
    exact heval
  · exact answered_best hone hbest hbest'
  · have hamount : coin.amount = bytesOfNat (2 * s.stake) := hcoin.amount
    have hclaimed := (congrArg intOfBytes hcoin.share).trans hshare
    exact ⟨_, endValidator_accepts hcoin.move hone hpop heval hbest' hamount (hcoin.ends rfl) hclaimed hmask, rfl,
      .inr ⟨rfl, rfl⟩⟩

end Last

/-! The whole play. -/

/-- The half of the pot that each player has staked, and what the last raise adds to it. -/
def halfPotOf (T : Table) : Option ℤ :=
  match T.validator with
  | .commitA | .commitB => some 0
  | .beginRound | .midRound => (T.state.nth 1).bind fun x => x.bytes.map intOfBytes
  | .reveal => (T.state.nth 0).bind fun x => x.bytes.map intOfBytes

def lastRaiseOf (T : Table) : Option ℤ :=
  match T.validator with
  | .midRound => (T.state.nth 2).bind fun x => x.bytes.map intOfBytes
  | .commitA | .commitB | .beginRound | .reveal => some 0

def Staked (stake : ℕ) (T : Table) : Prop :=
  ∃ halfPot lastRaise, halfPotOf T = some halfPot ∧ lastRaiseOf T = some lastRaise ∧
    0 ≤ halfPot ∧ 0 ≤ lastRaise ∧ halfPot + lastRaise ≤ stake

/-- What follows an image in a move is the raise.  It is not negative, keeps to the stakes and fits into the
size that is declared for a move of a round. -/
structure WithinLimits (stake : ℕ) (T : Table) (t : Move) : Prop where
  size : (t.move.drop 32).length ≤ 10
  raise : 0 ≤ intOfBytes (t.move.drop 32)
  pot : ∀ halfPot lastRaise, halfPotOf T = some halfPot → lastRaiseOf T = some lastRaise →
    halfPot + lastRaise + intOfBytes (t.move.drop 32) ≤ stake

/-- The deal as a player sees it, the player's own cards first. -/
def view (d : Deal) : Player → Deal
  | .alice => d
  | .bob => swap d

theorem makeAllCards_view (sha256 : Bytes → Bytes) (a b : Bytes) (p : Player) :
    makeAllCards sha256 (seat a b p) (seat a b p.other) = view (makeAllCards sha256 a b) p := by
  cases p with
  | alice => rfl
  | bob => exact makeAllCards_swap sha256 b a

/-- The readable of the hole cards, the boost and the toss. -/
def dealt (d : Deal) (opens : Bool) : Clvm :=
  .list (text "deal" :: (d.moverCards.take 2).map Clvm.nat ++ [.nat d.moverBoost, .nat opens.toNat])

section Play

variable (sha256 : Bytes → Bytes) (hash : Validator → Bytes) (stake betUnit : ℕ) (a b : Bytes)

/-- The opening: both commitments are answered as declared, and the toss that one player reads is not the
other's. -/
structure Opening (aliceEntropy bobEntropy : Bytes) : Prop where
  commitA : ∃ t, (∀ localMove, Play.Turns (rules sha256 hash (2 * stake)) (start betUnit)
      (committed sha256 betUnit a) localMove aliceEntropy t) ∧
    Play.Agrees (rules sha256 hash (2 * stake)) (start betUnit) t ∧ 0 ≤ intOfBytes t.moverShare
  commitB : ∃ t reply message parser aliceOpens,
    (∀ localMove, Play.Turns (rules sha256 hash (2 * stake)) (committed sha256 betUnit a)
      (beginTable sha256 hash betUnit a b .alice 4 betUnit) localMove bobEntropy t) ∧
    Play.Agrees (rules sha256 hash (2 * stake)) (committed sha256 betUnit a) t ∧ 0 ≤ intOfBytes t.moverShare ∧
    (rules sha256 hash (2 * stake)).theirTurn (committed sha256 betUnit a).waiter (committed sha256 betUnit a).state
      (beginTable sha256 hash betUnit a b .alice 4 betUnit).state t.move t.moverShare = some reply ∧
    reply.readable = dealt (makeAllCards sha256 a b) aliceOpens ∧
    reply.message = some message ∧ t.messageParser = some parser ∧
    parser.parse sha256 message (beginTable sha256 hash betUnit a b .alice 4 betUnit).state =
      some (dealt (swap (makeAllCards sha256 a b)) !aliceOpens) ∧
    ∀ localMove entropy t', (rules sha256 hash (2 * stake)).myTurn
      (beginTable sha256 hash betUnit a b .alice 4 betUnit).mover localMove
      (beginTable sha256 hash betUnit a b .alice 4 betUnit).state entropy = some t' →
        (IsPong t' ↔ aliceOpens = false)

/-- What the players see of a turn are the cards of the deal. -/
structure Shows (d : Deal) (T T' : Table) (t : Move) : Prop where
  opened : ∀ n, T.validator = .beginRound → t.incomingValidator = some .midRound →
    T.state.nth 4 = some (.nat n) → n ≠ 4 → ∃ reply raise pot,
      (rules sha256 hash (2 * stake)).theirTurn T.waiter T.state T'.state t.move t.moverShare = some reply ∧
      reply.readable = .pair (text "open") (.pair raise (.pair pot (handToClvm (street d n))))
  called : ∀ n, T.validator = .midRound → t.incomingValidator = some .beginRound →
    T.state.nth 5 = some (.nat n) → ∃ reply pot message parser,
      (rules sha256 hash (2 * stake)).theirTurn T.waiter T.state T'.state t.move t.moverShare = some reply ∧
      reply.readable = .pair (text "call") (.pair pot (.pair (.nat n) (handToClvm (street d (n - 1))))) ∧
      reply.message = some message ∧ t.messageParser = some parser ∧
      parser.parse sha256 message T'.state = some (.pair (text "cards") (handToClvm (street d (n - 1))))
  shown : ∀ p chain betUnit, T.waiter = .midRoundTheir p chain betUnit → t.incomingValidator = some .reveal →
    ∃ reply, (rules sha256 hash (2 * stake)).theirTurn T.waiter T.state T'.state t.move t.moverShare = some reply ∧
      reply.readable.nth 3 = some (handToClvm (view d p).moverCards) ∧
      reply.readable.nth 4 = some (.nat (view d p).moverBoost) ∧
      reply.readable.nth 5 = some (handToClvm (view d p).waiterCards) ∧
      reply.readable.nth 6 = some (.nat (view d p).waiterBoost)

/-- A move of the play; `d` has Alice's cards first. -/
structure Follows (d : Deal) (moves : List Move) (T : Table) (localMove entropy : Bytes) (t : Move) : Prop where
  share : 0 ≤ intOfBytes t.moverShare
  pongs : pongs (t :: moves) ≤ 1
  goesOn : T.validator ≠ .reveal → WithinLimits stake T t → Play.Agrees (rules sha256 hash (2 * stake)) T t ∧
    ∃ T', Play.Turns (rules sha256 hash (2 * stake)) T T' localMove entropy t ∧ Shows sha256 hash stake d T T' t
  ends : ∀ p chain, T.mover = .reveal p chain → Concludes sha256 hash stake (view d p) T t

variable {sha256 hash stake betUnit a b} {moves : List Move} {T : Table} {localMove entropy : Bytes} {p : Player}
  {n halfPot pot : ℕ} {lastRaise : Bytes}

theorem opening (hsha : ∀ b, (sha256 b).length = 32) (hbet : betUnit ≤ stake) {aliceEntropy bobEntropy : Bytes}
    (ha : substr aliceEntropy 0 16 = some a) (hb : substr bobEntropy 0 16 = some b) :
    Opening sha256 hash stake betUnit a b aliceEntropy bobEntropy := by
  have hturnA (localMove : Bytes) := @leads_commitA sha256 hash stake betUnit a localMove aliceEntropy hsha ha
  have hturnB (localMove : Bytes) := @leads_commitB sha256 hash stake betUnit a b localMove bobEntropy hsha hb
  have hparse : spacepokerBobParseDealMessage sha256 (buildImageChain sha256 b) (image sha256 4 a)
      (beginTable sha256 hash betUnit a b .alice 4 betUnit).state =
        some (dealt (swap (makeAllCards sha256 a b)) !moverOpens (image sha256 4 a) (image sha256 4 b)) :=
    if_pos rfl
  refine ⟨⟨_, fun localMove => (hturnA localMove).turns, (hturnA []).agrees ?_, ?_⟩,
    _, _, _, _, moverOpens (image sha256 4 a) (image sha256 4 b), fun localMove => (hturnB localMove).turns,
    (hturnB []).agrees ?_, ?_, rfl, rfl, rfl, rfl, hparse, fun localMove entropy t' hmade => ?_⟩
  · exact (image_length sha256 hsha 4 a).le
  · rw [commitAMove, intOfBytes_bytesOfInt]
    omega
  · exact (image_length sha256 hsha 3 b).le
  · rw [commitBMove, intOfBytes_bytesOfInt]
    omega
  · rw [made_beginRound le_rfl] at hmade
    have htoss : opens sha256 4 a b = moverOpens (image sha256 4 a) (image sha256 4 b) := if_pos rfl
    cases hopens : opens sha256 4 a b with
    | false =>
      replace hmade := hmade.symm.trans (congrArg some (if_neg (ne_true_of_eq_false hopens)))
      cases hmade
      exact iff_of_true ⟨rfl, rfl⟩ (htoss.symm.trans hopens)
    | true =>
      replace hmade := hmade.symm.trans (congrArg some (if_pos hopens))
      cases hmade
      refine iff_of_false (fun h => by cases h.2) fun hfalse => ?_
      rw [← htoss, hopens] at hfalse
      cases hfalse

theorem staked_of_standing (h : Standing sha256 hash stake betUnit a b moves T) : Staked stake T := by
  cases h with
  | @beginRound p n halfPot hlow hn hpot =>
    refine ⟨halfPot, 0, congrArg some (intOfBytes_bytesOfNat halfPot), rfl, ?_⟩
    omega
  | @midRound p n halfPot pot lastRaise hlow hn hraise hpot hle =>
    refine ⟨halfPot, intOfBytes lastRaise, congrArg some (intOfBytes_bytesOfNat halfPot), rfl, ?_⟩
    omega
  | @reveal p halfPot hpot =>
    refine ⟨halfPot, 0, congrArg some (intOfBytes_bytesOfNat halfPot), rfl, ?_⟩
    omega

theorem follows_open (hsha : ∀ b, (sha256 b).length = 32) (hlow : 1 ≤ n) (hn : n ≤ 4) (hpot : halfPot ≤ stake)
    (hpongs : pongs moves ≤ 1) (hopens : opens sha256 n (seat a b p) (seat a b p.other) = true) :
    Follows sha256 hash stake (makeAllCards sha256 a b) moves (beginTable sha256 hash betUnit a b p n halfPot)
      localMove entropy (openMove sha256 hash stake betUnit p (seat a b p) n halfPot localMove) := by
  have hlength : (image sha256 n (seat a b p)).length = 32 := by
    obtain ⟨k, rfl⟩ := Nat.exists_eq_add_of_le' hlow
    exact image_length sha256 hsha k (seat a b p)
  have hdrop : (openMove sha256 hash stake betUnit p (seat a b p) n halfPot localMove).move.drop 32 = localMove :=
    List.drop_left' hlength
  refine ⟨?_, ?_, fun _ hwithin => ?_, fun p' chain h => by cases h⟩
  · rw [openMove, intOfBytes_bytesOfInt]
    omega
  · rwa [pongs_cons fun h => by cases h.2]
  · have hsize := hwithin.size
    have hraise := hwithin.raise
    have hle := hwithin.pot halfPot 0 (congrArg some (intOfBytes_bytesOfNat halfPot)) rfl
    rw [hdrop] at hsize hraise hle
    rw [add_zero] at hle
    have hleads := @leads_open sha256 hash stake betUnit a b localMove entropy p n halfPot hsha hlow hn hopens
      hraise hle
    refine ⟨hleads.agrees ?_, _, hleads.turns, ⟨fun m _ _ hm hne => ?_, ?_, ?_⟩⟩
    · change (image sha256 n (seat a b p) ++ localMove).length ≤ 42
      rw [List.length_append, hlength]
      omega
    · obtain rfl : n = m := bytesOfNat_injective (Clvm.atom.inj (Option.some.inj hm))
      obtain ⟨readable, hreply, hcards⟩ := @received_open sha256 hash stake betUnit a b localMove p n halfPot hsha hlow hn
        hopens (midTable sha256 betUnit a b p.other n halfPot localMove).state (bytesOfInt (stake - halfPot))
      exact ⟨_, _, _, hreply, hcards hne⟩
    · intro m hvalidator
      cases hvalidator
    · intro p' chain betUnit' hwaiter
      cases hwaiter

theorem follows_pong (hsha : ∀ b, (sha256 b).length = 32) (hpot : halfPot ≤ stake) (hpongs : pongs moves = 0)
    (hopens : opens sha256 4 a b = false) :
    Follows sha256 hash stake (makeAllCards sha256 a b) moves (beginTable sha256 hash betUnit a b .alice 4 halfPot)
      localMove entropy (pongMove sha256 hash stake betUnit .alice a 4 halfPot) := by
  have hleads := @leads_pong sha256 hash stake betUnit a b localMove entropy halfPot hsha hopens
  refine ⟨?_, ?_, fun _ _ => ⟨hleads.agrees ?_, _, hleads.turns, ⟨?_, ?_, ?_⟩⟩, fun p' chain h => by cases h⟩
  · rw [pongMove, intOfBytes_bytesOfInt]
    omega
  · rw [pongs_cons_of_pong ⟨rfl, rfl⟩, hpongs]
  · have hlength : (pongMove sha256 hash stake betUnit .alice a 4 halfPot).move.length = 32 :=
      image_length sha256 hsha 3 a
    exact hlength.le.trans (show 32 ≤ 42 by decide)
  · intro m _ hincoming
    cases hincoming
  · intro m hvalidator
    cases hvalidator
  · intro p' chain betUnit' hwaiter
    cases hwaiter

theorem follows_raise (hlow : 1 ≤ n) (hn : n ≤ 4) (hpot : (halfPot : ℤ) + intOfBytes lastRaise = pot)
    (hle : pot ≤ stake) (hpongs : pongs moves ≤ 1) {padding : Bytes} (hpadding : substr entropy 0 32 = some padding)
    (hne : localMove ≠ []) :
    Follows sha256 hash stake (makeAllCards sha256 a b) moves (midTable sha256 betUnit a b p n halfPot lastRaise)
      localMove entropy (raiseMove sha256 hash stake betUnit p (seat a b p) pot padding localMove) := by
  have hlength : padding.length = 32 := length_of_substr hpadding
  have hdrop : (raiseMove sha256 hash stake betUnit p (seat a b p) pot padding localMove).move.drop 32 = localMove :=
    List.drop_left' hlength
  refine ⟨?_, ?_, fun _ hwithin => ?_, fun p' chain h => by cases h⟩
  · rw [raiseMove, intOfBytes_bytesOfInt]
    omega
  · rwa [pongs_cons fun h => by cases h.1]
  · have hsize := hwithin.size
    have hraise := hwithin.raise
    have hlimit := hwithin.pot halfPot (intOfBytes lastRaise) (congrArg some (intOfBytes_bytesOfNat halfPot)) rfl
    rw [hdrop] at hsize hraise hlimit
    have hleads := @leads_raise sha256 hash stake betUnit a b localMove entropy p n halfPot pot lastRaise hlow hn hpot
      padding hpadding hne hraise (by omega)
    refine ⟨hleads.agrees ?_, _, hleads.turns, ⟨?_, ?_, ?_⟩⟩
    · change (padding ++ localMove).length ≤ 42
      rw [List.length_append, hlength]
      omega
    · intro m hvalidator
      cases hvalidator
    · intro m _ hincoming
      cases hincoming
    · intro p' chain betUnit' _ hincoming
      cases hincoming

theorem follows_call (hsha : ∀ b, (sha256 b).length = 32) (hlow : 2 ≤ n) (hn : n ≤ 4)
    (hpot : (halfPot : ℤ) + intOfBytes lastRaise = pot) (hle : pot ≤ stake) (hpongs : pongs moves ≤ 1) :
    Follows sha256 hash stake (makeAllCards sha256 a b) moves (midTable sha256 betUnit a b p n halfPot lastRaise)
      [] entropy (callMove sha256 hash stake betUnit p (seat a b p) n pot) := by
  have hleads := @leads_call sha256 hash stake betUnit a b entropy p n halfPot pot lastRaise hsha hlow hn hpot
  refine ⟨?_, ?_, fun _ _ => ⟨hleads.agrees ?_, _, hleads.turns, ⟨?_, fun m _ _ hm => ?_, ?_⟩⟩,
    fun p' chain h => by cases h⟩
  · rw [callMove, intOfBytes_bytesOfInt]
    omega
  · rwa [pongs_cons fun h => by cases h.1]
  · have hlength : (callMove sha256 hash stake betUnit p (seat a b p) n pot).move.length = 32 := by
      obtain ⟨k, rfl⟩ := Nat.exists_eq_add_of_le' hlow
      exact image_length sha256 hsha k (seat a b p)
    exact hlength.le.trans (show 32 ≤ 42 by decide)
  · intro m hvalidator
    cases hvalidator
  · obtain rfl : n = m := bytesOfNat_injective (Clvm.atom.inj (Option.some.inj hm))
    have hreply := @received_call sha256 hash stake betUnit a b p n halfPot pot lastRaise hsha hlow hn hpot
      (beginTable sha256 hash betUnit a b p.other (n - 1) pot).state (bytesOfInt (stake - pot))
    have hparse := @parseOpenMessage_eq sha256 hash betUnit (seat a b p) (seat a b p.other) (n - 1) pot (by omega)
      (by
        obtain ⟨k, rfl⟩ := Nat.exists_eq_add_of_le' hlow
        exact image_length sha256 hsha k (seat a b p.other))
    refine ⟨_, _, _, _, hreply, rfl, rfl, rfl, ?_⟩
    rw [communityCardsForPos_eq sha256 (by omega) (by omega), street_seat] at hparse
    rw [beginTable, Player.other_other]
    exact hparse
  · intro p' chain betUnit' _ hincoming
    cases hincoming

theorem follows_lastCall (ha : a.length = 16) (hb : b.length = 16)
    (hpot : (halfPot : ℤ) + intOfBytes lastRaise = pot) (hle : pot ≤ stake) (hpongs : pongs moves ≤ 1) :
    Follows sha256 hash stake (makeAllCards sha256 a b) moves (midTable sha256 betUnit a b p 1 halfPot lastRaise)
      [] entropy (lastCallMove sha256 hash stake p (seat a b p) pot) := by
  have hlength : (seat a b p).length = 16 := seat_length ha hb
  have hleads := @leads_lastCall sha256 hash stake betUnit a b entropy p halfPot pot lastRaise hlength hpot
  refine ⟨?_, ?_, fun _ _ => ⟨hleads.agrees ?_, _, hleads.turns, ⟨?_, ?_, fun p' chain betUnit' hp _ => ?_⟩⟩,
    fun p' chain h => by cases h⟩
  · rw [lastCallMove, intOfBytes_bytesOfInt]
    omega
  · rwa [pongs_cons fun h => by cases h.1]
  · change (seat a b p).length ≤ 42
    omega
  · intro m hvalidator
    cases hvalidator
  · intro m _ hincoming
    cases hincoming
  · cases hp
    have hreply := @received_lastCall sha256 hash stake betUnit a b p halfPot pot lastRaise hpot
      (revealTable sha256 a b p.other pot).state (bytesOfInt (stake - pot)) hlength
    obtain ⟨readable, hreply, hcards⟩ := hreply
    have hview := makeAllCards_view sha256 a b p.other
    rw [Player.other_other] at hview
    rw [hview] at hcards
    exact ⟨_, hreply, hcards⟩

theorem standing_of_reached (hsha : ∀ b, (sha256 b).length = 32) (ha : a.length = 16) (hb : b.length = 16)
    (hbet : betUnit ≤ stake)
    (h : Play.Reached (rules sha256 hash (2 * stake)) (· = beginTable sha256 hash betUnit a b .alice 4 betUnit)
      moves T) : Standing sha256 hash stake betUnit a b moves T := by
  apply h.invariant
  · rintro T rfl
    exact .beginRound (by decide) le_rfl hbet (Nat.zero_le 1) fun _ => .inl ⟨rfl, rfl⟩
  · intro moves T T' localMove entropy t hstanding hturn
    exact hstanding.turn hsha ha hb hturn

/-- Wherever the play stands, the player whose turn it is has a move that follows. -/
theorem Standing.follows (hsha : ∀ b, (sha256 b).length = 32) (ha : a.length = 16) (hb : b.length = 16)
    (hstake : 0 < stake) (hentropy : entropy.length = 32)
    (h : Standing sha256 hash stake betUnit a b moves T) :
    ∃ t, (rules sha256 hash (2 * stake)).myTurn T.mover localMove T.state entropy = some t ∧
      Follows sha256 hash stake (makeAllCards sha256 a b) moves T localMove entropy t := by
  cases h with
  | @beginRound p n halfPot hlow hn hpot hpongs htoss =>
    refine ⟨_, made_beginRound hn, ?_⟩
    cases hopens : opens sha256 n (seat a b p) (seat a b p.other) with
    | false =>
      obtain ⟨rfl, rfl, hzero⟩ := pong_cases hopens htoss
      exact follows_pong hsha hpot hzero hopens
    | true => exact follows_open hsha hlow hn hpot hpongs hopens
  | @midRound p n halfPot pot lastRaise hlow hn hraise hpot hle hpongs =>
    rw [made_midRound hlow hn hpot]
    by_cases hne : localMove = []
    · subst hne
      rw [if_neg (not_not.mpr rfl)]
      by_cases hone : n = 1
      · subst hone
        exact ⟨_, if_pos rfl, follows_lastCall ha hb hpot hle hpongs⟩
      · exact ⟨_, if_neg hone, follows_call hsha (by omega) hn hpot hle hpongs⟩
    · have hpadding : substr entropy 0 32 = some ((entropy.take 32).drop 0) :=
        if_pos ⟨Nat.zero_le 32, hentropy.ge⟩
      rw [if_pos hne, hpadding]
      exact ⟨_, rfl, follows_raise hlow hn hpot hle hpongs hpadding hne⟩
  | @reveal p halfPot hpot hpongs =>
    obtain ⟨t, hmade, hshare, hconcludes⟩ := reveal_concludes ha hb hstake hpot
    refine ⟨t, hmade, hshare, ?_, fun hne => absurd rfl hne, fun p' chain hmover => ?_⟩
    · rwa [pongs_cons fun h => ?_]
      have hreveal : t.outgoingValidator = .reveal := hconcludes.outgoing
      rw [h.1] at hreveal
      cases hreveal
    · cases hmover
      rw [← makeAllCards_view]
      exact hconcludes

end Play

/-! A table with stakes of 100 and a bet unit of 10. -/

def hashes : Validator → Bytes
  | .commitA => List.replicate 32 1
  | .commitB => List.replicate 32 2
  | .beginRound => List.replicate 32 3
  | .midRound => List.replicate 32 4
  | .reveal => List.replicate 32 5

def alicePreimage : Bytes := List.replicate 16 0x22
def bobPreimage : Bytes := List.replicate 16 0x44

end ChiaGaming.Spacepoker.Betting
