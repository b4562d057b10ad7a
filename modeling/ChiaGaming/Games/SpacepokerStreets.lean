import ChiaGaming.Games.SpacepokerPlay

namespace ChiaGaming.Spacepoker.Betting

/-! The toss. -/

theorem logxor_comm (a b : Bytes) : logxor a b = logxor b a := by
  rw [logxor, logxor]
  congr 1
  cases intOfBytes a with
  | ofNat m =>
    cases intOfBytes b with
    | ofNat n => exact congrArg Int.ofNat (Nat.xor_comm m n)
    | negSucc n => exact congrArg Int.negSucc (Nat.xor_comm m n)
  | negSucc m =>
    cases intOfBytes b with
    | ofNat n => exact congrArg Int.negSucc (Nat.xor_comm m n)
    | negSucc n => exact congrArg Int.ofNat (Nat.xor_comm m n)

theorem logxor_eq_nil {a b : Bytes} (h : intOfBytes a = intOfBytes b) : logxor a b = [] := by
  rw [logxor, h]
  cases intOfBytes b with
  | ofNat n => exact congrArg (fun k : ℕ => bytesOfInt k) (Nat.xor_self n)
  | negSucc n => exact congrArg (fun k : ℕ => bytesOfInt k) (Nat.xor_self n)

/-- The toss flips when different images trade places. -/
theorem moverOpens_swap {x y : Bytes} (hne : intOfBytes x ≠ intOfBytes y) :
    moverOpens y x = !moverOpens x y := by
  have hflip : decide (intOfBytes y > intOfBytes x) = !decide (intOfBytes x > intOfBytes y) := by
    rw [← decide_not, decide_eq_decide]
    omega
  rw [moverOpens, moverOpens, logxor_comm y x, hflip]
  cases decide (intOfBytes x > intOfBytes y) with
  | false => cases decide (intOfBytes (logxor x y) % 2 = 1) <;> rfl
  | true => cases decide (intOfBytes (logxor x y) % 2 = 1) <;> rfl

/-- After a pong the other player opens. -/
theorem moverOpens_of_pong {x y : Bytes} (h : moverOpens x y = false) : moverOpens y x = true := by
  by_cases hne : intOfBytes x = intOfBytes y
  · rw [moverOpens, logxor_eq_nil hne, hne] at h
    simp [intOfBytes] at h
  · rw [moverOpens_swap hne, h]
    rfl

/-! The images of a chain. -/

section Chain

variable (sha256 : Bytes → Bytes)

def image (n : ℕ) (pre : Bytes) : Bytes := sha256^[n] pre

theorem image_succ (n : ℕ) (pre : Bytes) : image sha256 (n + 1) pre = sha256 (image sha256 n pre) :=
  Function.iterate_succ_apply' sha256 n pre

theorem getElem?_buildImageChain {n : ℕ} (hn : n ≤ 5) (pre : Bytes) :
    (buildImageChain sha256 pre)[n]? = some (image sha256 n pre) := by
  interval_cases n <;> rfl

theorem image_length (hsha : ∀ b, (sha256 b).length = 32) (n : ℕ) (pre : Bytes) :
    (image sha256 (n + 1) pre).length = 32 := by
  rw [image_succ]
  exact hsha _

theorem exists_hole (pre image4 : Bytes) : ∃ c c', makeCardsPair sha256 pre image4 2 = [c, c'] :=
  ⟨_, _, rfl⟩

end Chain

/-! What stands between two moves. -/

section Streets

variable (sha256 : Bytes → Bytes) (hash : Validator → Bytes) (stake betUnit : ℕ)

/-- On the first street the toss decides who opens. -/
def opens (n : ℕ) (own opp : Bytes) : Bool :=
  if n = 4 then moverOpens (image sha256 n own) (image sha256 n opp) else true

def beginState (own opp : Bytes) (n halfPot : ℕ) : Clvm :=
  .list [.nat betUnit, .nat halfPot, .atom (image sha256 (n + 1) own), .atom (image sha256 n opp), .nat n,
    .atom (hash .midRound)]

def midState (own opp : Bytes) (n halfPot : ℕ) (lastRaise : Bytes) : Clvm :=
  .list [.nat betUnit, .nat halfPot, .atom lastRaise, .atom (image sha256 n own), .atom (image sha256 n opp),
    .nat n]

def revealState (own opp : Bytes) (halfPot : ℕ) : Clvm :=
  .list [.nat halfPot, .atom (image sha256 1 own), .atom opp]

/-! The moves of the handlers. -/

def openMove (p : Player) (own : Bytes) (n halfPot : ℕ) (raise : Bytes) : Move where
  label := "spacepoker_" ++ p.name ++ "_begin_round"
  move := image sha256 n own ++ raise
  outgoingValidator := .beginRound
  outgoingValidatorHash := hash .beginRound
  incomingValidator := some .midRound
  incomingValidatorHash := hash .midRound
  maxMoveSize := 42
  moverShare := bytesOfInt (stake - halfPot)
  theirTurnHandler := some (.midRoundTheir p (buildImageChain sha256 own) (bytesOfNat betUnit))
  messageParser := none

def pongMove (p : Player) (own : Bytes) (n halfPot : ℕ) : Move where
  label := "spacepoker_" ++ p.name ++ "_begin_round pong"
  move := image sha256 n own
  outgoingValidator := .beginRound
  outgoingValidatorHash := hash .beginRound
  incomingValidator := some .beginRound
  incomingValidatorHash := hash .beginRound
  maxMoveSize := 42
  moverShare := bytesOfInt (stake - halfPot)
  theirTurnHandler := some (.beginRoundTheir p (buildImageChain sha256 own) (bytesOfNat betUnit))
  messageParser := none

def raiseMove (p : Player) (own : Bytes) (pot : ℕ) (padding raise : Bytes) : Move where
  label := "spacepoker_" ++ p.name ++ "_mid_round raise"
  move := padding ++ raise
  outgoingValidator := .midRound
  outgoingValidatorHash := hash .midRound
  incomingValidator := some .midRound
  incomingValidatorHash := hash .midRound
  maxMoveSize := 42
  moverShare := bytesOfInt (stake - pot)
  theirTurnHandler := some (.midRoundTheir p (buildImageChain sha256 own) (bytesOfNat betUnit))
  messageParser := none

def callMove (p : Player) (own : Bytes) (n pot : ℕ) : Move where
  label := "spacepoker_" ++ p.name ++ "_mid_round call"
  move := image sha256 (n - 1) own
  outgoingValidator := .midRound
  outgoingValidatorHash := hash .midRound
  incomingValidator := some .beginRound
  incomingValidatorHash := hash .beginRound
  maxMoveSize := 42
  moverShare := bytesOfInt (stake - pot)
  theirTurnHandler := some (.beginRoundTheir p (buildImageChain sha256 own) (bytesOfNat betUnit))
  messageParser := some (.parseOpenMessage p (buildImageChain sha256 own))

/-- The call on the last street shows the preimage. -/
def lastCallMove (p : Player) (own : Bytes) (pot : ℕ) : Move where
  label := "spacepoker_" ++ p.name ++ "_mid_round call"
  move := own
  outgoingValidator := .midRound
  outgoingValidatorHash := hash .midRound
  incomingValidator := some .reveal
  incomingValidatorHash := hash .reveal
  maxMoveSize := 17
  moverShare := bytesOfInt (stake - pot)
  theirTurnHandler := some (.revealTheir p (buildImageChain sha256 own))
  messageParser := none

variable {sha256 hash stake betUnit} {own opp localMove entropy : Bytes} {n halfPot pot : ℕ} {p : Player}

theorem half_eq : ((2 * stake : ℕ) : ℤ) / 2 = stake := by omega

theorem bytesOfNat_eq_iff {m k : ℕ} : bytesOfNat m = bytesOfNat k ↔ m = k :=
  bytesOfNat_injective.eq_iff

/-- A player opens, or leaves it to the other. -/
theorem beginRoundMove_eq (hn : n ≤ 5) :
    beginRoundMove hash (2 * stake) p (buildImageChain sha256 own) (bytesOfNat betUnit) localMove
      (beginState sha256 hash betUnit own opp n halfPot) =
    some (if opens sha256 n own opp then openMove sha256 hash stake betUnit p own n halfPot localMove
      else pongMove sha256 hash stake betUnit p own n halfPot) := by
  have h1 : (beginState sha256 hash betUnit own opp n halfPot).nth 1 = some (.nat halfPot) := rfl
  have h3 : (beginState sha256 hash betUnit own opp n halfPot).nth 3 =
      some (.atom (image sha256 n opp)) := rfl
  have h4 : (beginState sha256 hash betUnit own opp n halfPot).nth 4 = some (.nat n) := rfl
  have hopens : (if bytesOfNat n = bytesOfNat 4 then moverOpens (image sha256 n own) (image sha256 n opp)
      else true) = opens sha256 n own opp := by
    rw [opens]
    simp only [bytesOfNat_eq_iff]
  simp only [beginRoundMove, h1, h3, h4, Clvm.nat, Clvm.bytes_atom, Option.bind_eq_bind, Option.bind_some,
    natOfBytes_bytesOfNat, intOfBytes_bytesOfNat, getElem?_buildImageChain sha256 hn, hopens, half_eq]
  split <;> rfl

/-- A player raises, calls or makes the last call. -/
theorem midRoundMove_eq {lastRaise : Bytes} (hlow : 1 ≤ n) (hn : n ≤ 5)
    (hpot : (halfPot : ℤ) + intOfBytes lastRaise = pot) :
    midRoundMove hash (2 * stake) p (buildImageChain sha256 own) (bytesOfNat betUnit) localMove
      (midState sha256 betUnit own opp n halfPot lastRaise) entropy =
    if localMove ≠ [] then (substr entropy 0 32).map fun padding =>
      raiseMove sha256 hash stake betUnit p own pot padding localMove
    else if n = 1 then some (lastCallMove sha256 hash stake p own pot)
    else some (callMove sha256 hash stake betUnit p own n pot) := by
  have h1 : (midState sha256 betUnit own opp n halfPot lastRaise).nth 1 = some (.nat halfPot) := rfl
  have h2 : (midState sha256 betUnit own opp n halfPot lastRaise).nth 2 = some (.atom lastRaise) := rfl
  have h5 : (midState sha256 betUnit own opp n halfPot lastRaise).nth 5 = some (.nat n) := rfl
  have hchain := getElem?_buildImageChain sha256 (show n - 1 ≤ 5 by omega) own
  simp only [midRoundMove, h1, h2, h5, Clvm.nat, Clvm.bytes_atom, Option.bind_eq_bind, Option.bind_some,
    natOfBytes_bytesOfNat, intOfBytes_bytesOfNat, hchain, half_eq, hpot, bytesOfNat_eq_iff]
  by_cases hraise : localMove ≠ []
  · rw [if_pos hraise, if_pos hraise]
    cases substr entropy 0 32 <;> rfl
  · rw [if_neg hraise, if_neg hraise]
    by_cases hone : n = 1
    · subst hone
      rfl
    · rw [if_neg hone, if_neg hone]
      rfl

/-! The answers of the validators to such moves. -/

section Answers

variable {coin : RefereeArgs} {raise lastRaise padding : Bytes}

theorem commitBValidator_eq {alicePre bobPre : Bytes} (hlength : (image sha256 4 bobPre).length = 32)
    (hmove : coin.move = image sha256 4 bobPre) (hamount : coin.amount = bytesOfNat (2 * stake))
    (hshare : coin.moverShare = bytesOfInt (stake - betUnit)) (evidence : Clvm) :
    commitBValidator hash coin (.list [.nat betUnit, .atom (image sha256 5 alicePre)]) evidence =
      some (.list [.atom (hash .beginRound), beginState sha256 hash betUnit alicePre bobPre 4 betUnit,
        .nat 42]) := by
  have h0 : (Clvm.list [.nat betUnit, .atom (image sha256 5 alicePre)]).nth 0 = some (.nat betUnit) := rfl
  have h1 : (Clvm.list [.nat betUnit, .atom (image sha256 5 alicePre)]).nth 1 =
      some (.atom (image sha256 5 alicePre)) := rfl
  rw [commitBValidator, h0, h1]
  simp only [Clvm.nat, Clvm.bytes_atom, Option.bind_eq_bind, Option.bind_some, hmove, hshare, hamount,
    intOfBytes_bytesOfNat, half_eq]
  rw [if_pos ⟨hlength, trivial⟩]
  rfl

theorem beginRoundValidator_eq (hlength : (image sha256 n own).length = 32)
    (hmove : coin.move = image sha256 n own ++ raise) (hamount : coin.amount = bytesOfNat (2 * stake))
    (hshare : coin.moverShare = bytesOfInt (stake - halfPot)) (evidence : Clvm) :
    beginRoundValidator sha256 hash coin (beginState sha256 hash betUnit own opp n halfPot) evidence =
      if opens sha256 n own opp then
        if 0 ≤ intOfBytes raise ∧ halfPot + intOfBytes raise ≤ stake then
          some (.list [.atom (hash .midRound), midState sha256 betUnit opp own n halfPot raise, .nat 42])
        else some .nil
      else if raise = [] then
        some (.list [.atom (hash .beginRound), beginState sha256 hash betUnit opp own n halfPot, .nat 42])
      else some .nil := by
  have h0 : (beginState sha256 hash betUnit own opp n halfPot).nth 0 = some (.nat betUnit) := rfl
  have h1 : (beginState sha256 hash betUnit own opp n halfPot).nth 1 = some (.nat halfPot) := rfl
  have h2 : (beginState sha256 hash betUnit own opp n halfPot).nth 2 =
      some (.atom (image sha256 (n + 1) own)) := rfl
  have h3 : (beginState sha256 hash betUnit own opp n halfPot).nth 3 =
      some (.atom (image sha256 n opp)) := rfl
  have h4 : (beginState sha256 hash betUnit own opp n halfPot).nth 4 = some (.nat n) := rfl
  have h5 : (beginState sha256 hash betUnit own opp n halfPot).nth 5 =
      some (.atom (hash .midRound)) := rfl
  have htotal : (image sha256 n own ++ raise).length = 32 + raise.length := by
    rw [List.length_append, hlength]
  have hlong : ¬ ¬ (image sha256 n own ++ raise).length ≥ 32 := by omega
  have hleft := substr_append_left (b := raise) hlength
  have hright := substr_append_right hlength htotal.symm
  have hopens : (if bytesOfNat n = bytesOfNat 4 then moverOpens (image sha256 n own) (image sha256 n opp)
      else true) = opens sha256 n own opp := by
    rw [opens]
    simp only [bytesOfNat_eq_iff]
  have hbare : (image sha256 n own ++ raise).length = 32 ↔ raise = [] := by
    rw [htotal, ← List.length_eq_zero_iff]
    omega
  simp only [beginRoundValidator, h0, h1, h2, h3, h4, h5, Clvm.nat, Clvm.bytes_atom, Option.bind_eq_bind,
    Option.bind_some, hmove]
  rw [if_neg hlong, hleft, hright]
  simp only [Option.bind_some, hshare, hamount, intOfBytes_bytesOfNat, half_eq, hopens, image_succ,
    and_self, if_true, hbare]
  rw [beginState, image_succ]
  rfl

theorem midRoundValidator_raise (hpot : (halfPot : ℤ) + intOfBytes lastRaise = pot)
    (hpadding : padding.length = 32) (hraise : raise ≠ []) (hmove : coin.move = padding ++ raise)
    (hamount : coin.amount = bytesOfNat (2 * stake)) (hshare : coin.moverShare = bytesOfInt (stake - pot))
    (evidence : Clvm) :
    midRoundValidator sha256 hash coin (midState sha256 betUnit own opp n halfPot lastRaise) evidence =
      if 0 ≤ intOfBytes raise ∧ pot + intOfBytes raise ≤ stake then
        some (.list [.atom (hash .midRound), midState sha256 betUnit opp own n pot raise, .nat 42])
      else some .nil := by
  have h0 : (midState sha256 betUnit own opp n halfPot lastRaise).nth 0 = some (.nat betUnit) := rfl
  have h1 : (midState sha256 betUnit own opp n halfPot lastRaise).nth 1 = some (.nat halfPot) := rfl
  have h2 : (midState sha256 betUnit own opp n halfPot lastRaise).nth 2 = some (.atom lastRaise) := rfl
  have h3 : (midState sha256 betUnit own opp n halfPot lastRaise).nth 3 =
      some (.atom (image sha256 n own)) := rfl
  have h4 : (midState sha256 betUnit own opp n halfPot lastRaise).nth 4 =
      some (.atom (image sha256 n opp)) := rfl
  have h5 : (midState sha256 betUnit own opp n halfPot lastRaise).nth 5 = some (.nat n) := rfl
  have htotal : (padding ++ raise).length = 32 + raise.length := by
    rw [List.length_append, hpadding]
  have hpos := List.length_pos_iff.mpr hraise
  have hlong : (padding ++ raise).length > 32 := by omega
  have hright := substr_append_right hpadding htotal.symm
  rw [midRoundValidator, h0, h1, h2, h3, h4, h5]
  simp only [Clvm.nat, Clvm.bytes_atom, Option.bind_eq_bind, Option.bind_some, hmove,
    intOfBytes_bytesOfNat, hpot]
  rw [if_pos hlong, hright]
  simp only [Option.bind_some, hshare, hamount, intOfBytes_bytesOfNat, half_eq, true_and, ge_iff_le]
  rfl

theorem midRoundValidator_call (hpot : (halfPot : ℤ) + intOfBytes lastRaise = pot) (hlow : 1 ≤ n)
    (hlength : (image sha256 (n - 1) own).length = if n = 1 then 16 else 32)
    (hmove : coin.move = image sha256 (n - 1) own) (hamount : coin.amount = bytesOfNat (2 * stake))
    (hshare : coin.moverShare = bytesOfInt (stake - pot)) (evidence : Clvm) :
    midRoundValidator sha256 hash coin (midState sha256 betUnit own opp n halfPot lastRaise) evidence =
      if n = 1 then some (.list [.atom (hash .reveal), revealState sha256 opp own pot, .nat 17])
      else some (.list [.atom (hash .beginRound), beginState sha256 hash betUnit opp own (n - 1) pot,
        .nat 42]) := by
  have h0 : (midState sha256 betUnit own opp n halfPot lastRaise).nth 0 = some (.nat betUnit) := rfl
  have h1 : (midState sha256 betUnit own opp n halfPot lastRaise).nth 1 = some (.nat halfPot) := rfl
  have h2 : (midState sha256 betUnit own opp n halfPot lastRaise).nth 2 = some (.atom lastRaise) := rfl
  have h3 : (midState sha256 betUnit own opp n halfPot lastRaise).nth 3 =
      some (.atom (image sha256 n own)) := rfl
  have h4 : (midState sha256 betUnit own opp n halfPot lastRaise).nth 4 =
      some (.atom (image sha256 n opp)) := rfl
  have h5 : (midState sha256 betUnit own opp n halfPot lastRaise).nth 5 = some (.nat n) := rfl
  have hsucc : n - 1 + 1 = n := by omega
  have hshort : ¬ (image sha256 (n - 1) own).length > 32 := by
    rw [hlength]
    split_ifs <;> omega
  have hopened : sha256 (image sha256 (n - 1) own) = image sha256 n own := by
    rw [← image_succ sha256, hsucc]
  rw [midRoundValidator, h0, h1, h2, h3, h4, h5]
  simp only [Clvm.nat, Clvm.bytes_atom, Option.bind_eq_bind, Option.bind_some, hmove,
    intOfBytes_bytesOfNat, hpot, bytesOfNat_eq_iff]
  rw [if_neg hshort, if_pos ⟨hlength, hopened, by rw [hshare, hamount, intOfBytes_bytesOfNat, half_eq]⟩]
  by_cases hone : n = 1
  · subst hone
    rfl
  · have hdown : ((n : ℤ) - 1) = (n - 1 : ℕ) := by omega
    rw [if_neg hone, if_neg hone, beginState, hsucc, hdown]
    rfl

end Answers

/-! What the other player's handlers make of the moves. -/

section Replies

variable {raise lastRaise padding : Bytes} {state : Clvm}

theorem commitB_reply {alicePre bobPre : Bytes} {preState : Clvm} {move : Bytes} :
    ∃ readable, (Handler.aliceCommitB (buildImageChain sha256 alicePre)).theirTurn sha256 preState
      (beginState sha256 hash betUnit alicePre bobPre 4 halfPot) move =
        some ⟨readable, .nil, some (.beginRound .alice (buildImageChain sha256 alicePre) (bytesOfNat betUnit)),
          some (image sha256 4 alicePre)⟩ ∧
      readable.nth 4 = some (.nat (moverOpens (image sha256 4 alicePre) (image sha256 4 bobPre)).toNat) :=
  ⟨_, rfl, rfl⟩

/-- An open is answered at once; on a later street it is shown with the cards of the street. -/
theorem open_reply (hn : n ≤ 5) (hlength : (image sha256 n own).length = 32)
    (hopens : opens sha256 n own opp = true) :
    ∃ readable, (Handler.beginRoundTheir p (buildImageChain sha256 opp) (bytesOfNat betUnit)).theirTurn sha256
      (beginState sha256 hash betUnit own opp n halfPot) state (image sha256 n own ++ raise) =
        some ⟨readable, .nil, some (.midRound p (buildImageChain sha256 opp) (bytesOfNat betUnit)), none⟩ ∧
      (n ≠ 4 → readable = .pair (text "open") (.pair (.atom raise) (.pair (.nat halfPot)
        (handToClvm (communityCardsForPos sha256 (image sha256 n opp) (image sha256 n own) n))))) := by
  have h1 : (beginState sha256 hash betUnit own opp n halfPot).nth 1 = some (.nat halfPot) := rfl
  have h3 : (beginState sha256 hash betUnit own opp n halfPot).nth 3 =
      some (.atom (image sha256 n opp)) := rfl
  have h4 : (beginState sha256 hash betUnit own opp n halfPot).nth 4 = some (.nat n) := rfl
  have htotal : (image sha256 n own ++ raise).length = 32 + raise.length := by
    rw [List.length_append, hlength]
  have hleft := substr_append_left (b := raise) hlength
  have hright := substr_append_right hlength htotal.symm
  have htoss : (if bytesOfNat n = bytesOfNat 4 then moverOpens (image sha256 n own) (image sha256 n opp)
      else true) = true := by
    refine Eq.trans ?_ hopens
    rw [opens]
    simp only [bytesOfNat_eq_iff]
  cases p with
  | alice =>
    rw [Handler.theirTurn, spacepokerAliceHandlerBeginRoundTheir, h1, h4]
    simp only [Clvm.nat, Clvm.bytes_atom, Option.bind_eq_bind, Option.bind_some, hleft, hright,
      natOfBytes_bytesOfNat, bytesOfNat_eq_iff, opened, getElem?_buildImageChain sha256 hn]
    by_cases hfour : n = 4
    · rw [if_pos hfour]
      exact ⟨_, rfl, fun hne => absurd hfour hne⟩
    · rw [if_neg hfour]
      exact ⟨_, rfl, fun _ => rfl⟩
  | bob =>
    have h0 : (buildImageChain sha256 opp)[0]? = some opp := rfl
    obtain ⟨c, c', hhole⟩ := exists_hole sha256 opp (image sha256 n own)
    rw [Handler.theirTurn, spacepokerBobHandlerBeginRoundTheir, h0, h1, h3, h4]
    simp only [Clvm.nat, Clvm.bytes_atom, Option.bind_eq_bind, Option.bind_some, hleft, hright, hhole, htoss,
      natOfBytes_bytesOfNat, opened, getElem?_buildImageChain sha256 hn, if_true]
    simp only [bytesOfNat_eq_iff]
    by_cases hfour : n = 4
    · rw [if_pos hfour]
      exact ⟨_, rfl, fun hne => absurd hfour hne⟩
    · rw [if_neg hfour]
      exact ⟨_, rfl, fun _ => rfl⟩

/-- A pong, which only Alice makes, gives Bob the turn. -/
theorem pong_reply (hlength : (image sha256 4 own).length = 32) (hopens : opens sha256 4 own opp = false) :
    ∃ readable, (Handler.beginRoundTheir .bob (buildImageChain sha256 opp) (bytesOfNat betUnit)).theirTurn sha256
      (beginState sha256 hash betUnit own opp 4 halfPot) state (image sha256 4 own) =
        some ⟨readable, .nil, some (.beginRound .bob (buildImageChain sha256 opp) (bytesOfNat betUnit)), none⟩ := by
  have h0 : (buildImageChain sha256 opp)[0]? = some opp := rfl
  have h1 : (beginState sha256 hash betUnit own opp 4 halfPot).nth 1 = some (.nat halfPot) := rfl
  have h3 : (beginState sha256 hash betUnit own opp 4 halfPot).nth 3 =
      some (.atom (image sha256 4 opp)) := rfl
  have h4 : (beginState sha256 hash betUnit own opp 4 halfPot).nth 4 = some (.nat 4) := rfl
  obtain ⟨c, c', hhole⟩ := exists_hole sha256 opp (image sha256 4 own)
  have hleft := substr_append_left (b := []) hlength
  have hright := substr_append_right (b := []) hlength ((Nat.add_zero 32).trans hlength.symm)
  rw [List.append_nil] at hleft hright
  have htoss : moverOpens (image sha256 4 own) (image sha256 4 opp) = false := hopens
  rw [Handler.theirTurn, spacepokerBobHandlerBeginRoundTheir, h0, h1, h3, h4]
  simp only [Clvm.nat, Clvm.bytes_atom, Option.bind_eq_bind, Option.bind_some, hleft, hright, hhole, if_true,
    htoss]
  exact ⟨_, rfl⟩

/-- A raise is shown with the pot. -/
theorem raise_reply (hpot : (halfPot : ℤ) + intOfBytes lastRaise = pot) (hpadding : padding.length = 32)
    (hraise : raise ≠ []) :
    ∃ readable, (Handler.midRoundTheir p (buildImageChain sha256 opp) (bytesOfNat betUnit)).theirTurn sha256
      (midState sha256 betUnit own opp n halfPot lastRaise) state (padding ++ raise) =
        some ⟨readable, .nil, some (.midRound p (buildImageChain sha256 opp) (bytesOfNat betUnit)), none⟩ := by
  have h1 : (midState sha256 betUnit own opp n halfPot lastRaise).nth 1 = some (.nat halfPot) := rfl
  have h2 : (midState sha256 betUnit own opp n halfPot lastRaise).nth 2 = some (.atom lastRaise) := rfl
  have htotal : (padding ++ raise).length = 32 + raise.length := by
    rw [List.length_append, hpadding]
  have hpos := List.length_pos_iff.mpr hraise
  have hlong : ¬ (padding ++ raise).length ≤ 32 := by omega
  have hright := substr_append_right hpadding htotal.symm
  have hreply : midRoundReply sha256 p (buildImageChain sha256 opp) (bytesOfNat betUnit)
      (midState sha256 betUnit own opp n halfPot lastRaise) (padding ++ raise) =
        some ⟨.list [text "raise", .atom raise, .int pot], .nil,
          some (.midRound p (buildImageChain sha256 opp) (bytesOfNat betUnit)), none⟩ := by
    rw [midRoundReply, h1, h2]
    simp only [Clvm.nat, Clvm.bytes_atom, Option.bind_eq_bind, Option.bind_some, intOfBytes_bytesOfNat, hpot]
    rw [if_neg hlong, hright]
    rfl
  cases p with
  | alice => exact ⟨_, hreply⟩
  | bob => exact ⟨_, hreply⟩

/-- A call is shown with the cards of the next street, which the message lets the caller see as well. -/
theorem call_reply (hpot : (halfPot : ℤ) + intOfBytes lastRaise = pot) (hlow : 2 ≤ n) (hn : n ≤ 5)
    (hlength : (image sha256 (n - 1) own).length = 32) :
    (Handler.midRoundTheir p (buildImageChain sha256 opp) (bytesOfNat betUnit)).theirTurn sha256
      (midState sha256 betUnit own opp n halfPot lastRaise) state (image sha256 (n - 1) own) =
        some ⟨.pair (text "call") (.pair (.int pot) (.pair (.nat n) (handToClvm
            (communityCards sha256 p (image sha256 (n - 1) opp) (image sha256 (n - 1) own) (n - 1))))), .nil,
          some (.beginRound p (buildImageChain sha256 opp) (bytesOfNat betUnit)),
          some (image sha256 (n - 1) opp)⟩ := by
  have h1 : (midState sha256 betUnit own opp n halfPot lastRaise).nth 1 = some (.nat halfPot) := rfl
  have h2 : (midState sha256 betUnit own opp n halfPot lastRaise).nth 2 = some (.atom lastRaise) := rfl
  have h5 : (midState sha256 betUnit own opp n halfPot lastRaise).nth 5 = some (.nat n) := rfl
  have hone : n ≠ 1 := by omega
  have hchain := getElem?_buildImageChain sha256 (show n - 1 ≤ 5 by omega) opp
  have hreply : midRoundReply sha256 p (buildImageChain sha256 opp) (bytesOfNat betUnit)
      (midState sha256 betUnit own opp n halfPot lastRaise) (image sha256 (n - 1) own) =
        some ⟨.pair (text "call") (.pair (.int pot) (.pair (.nat n) (handToClvm
            (communityCards sha256 p (image sha256 (n - 1) opp) (image sha256 (n - 1) own) (n - 1))))), .nil,
          some (.beginRound p (buildImageChain sha256 opp) (bytesOfNat betUnit)),
          some (image sha256 (n - 1) opp)⟩ := by
    rw [midRoundReply, h1, h2, h5]
    simp only [Clvm.nat, Clvm.bytes_atom, Option.bind_eq_bind, Option.bind_some, intOfBytes_bytesOfNat, hpot,
      natOfBytes_bytesOfNat, bytesOfNat_eq_iff]
    rw [if_pos hlength.le, if_neg hone, hchain]
    rfl
  cases p with
  | alice => exact hreply
  | bob => exact hreply

/-- The message is parsed into the same cards. -/
theorem parseOpenMessage_eq (hn : n ≤ 5) (hlength : (image sha256 n opp).length = 32) :
    parseOpenMessage sha256 (buildImageChain sha256 own) (image sha256 n opp)
      (beginState sha256 hash betUnit opp own n halfPot) =
        some (.pair (text "cards")
          (handToClvm (communityCardsForPos sha256 (image sha256 n own) (image sha256 n opp) n))) := by
  have h2 : (beginState sha256 hash betUnit opp own n halfPot).nth 2 =
      some (.atom (image sha256 (n + 1) opp)) := rfl
  have h4 : (beginState sha256 hash betUnit opp own n halfPot).nth 4 = some (.nat n) := rfl
  rw [parseOpenMessage, h2, h4]
  simp only [Clvm.nat, Clvm.bytes_atom, Option.bind_eq_bind, Option.bind_some, natOfBytes_bytesOfNat,
    getElem?_buildImageChain sha256 hn]
  rw [if_pos ⟨hlength, (image_succ sha256 n opp).symm⟩]

end Replies

end Streets

end ChiaGaming.Spacepoker.Betting
