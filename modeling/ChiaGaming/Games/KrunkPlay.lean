import ChiaGaming.Games.KrunkDictionary
import ChiaGaming.Games.Play

namespace ChiaGaming.Krunk

/-! The handlers for a player's own turn, beside the validators of the moves they make. -/

inductive Validator where
  | commit
  | guess
  | clue
  deriving DecidableEq

/-- The hashes of the validation programs. -/
structure Hashes where
  commit : Bytes
  guess : Bytes
  clue : Bytes

def Validator.run (sha256 : Bytes → Bytes) (H : Hashes) :
    Validator → RefereeArgs → Clvm → Clvm → Option Clvm
  | .commit => Krunk.commit H.guess H.clue
  | .guess => Krunk.guess
  | .clue => Krunk.clue sha256 H.guess

abbrev MyTurn := Play.Move Validator Handler

/-- A handler asks for another word where the dictionary does not have it. -/
inductive MyTurnAnswer where
  | rejected (tag : String) (word : Bytes)
  | made (t : MyTurn)
  deriving DecidableEq

/-- The share of a reveal, as the helpers compute it; their payouts are those of the validator. -/
def krunkRevealMoverShare (baseUnit bobGuesses : Clvm) (word : Bytes) : Option Bytes := do
  if (← (← bobGuesses.first).bytes) = word then
    krunkPayoutShare (← baseUnit.bytes) (← bobGuesses.len)
  else if (← bobGuesses.len) = 5 then some []
  else none

section Handlers

variable (sha256 : Bytes → Bytes) (H : Hashes)

def krunkAliceHandlerCommit (dictTree : Clvm) (localMove entropy : Bytes) : Option MyTurnAnswer := do
  let word := localMove
  let salt ← substr entropy 0 16
  let lookup ← dictLookup minWord maxWord word dictTree
  if lookup.truthy then some (.rejected "not_in_dictionary" word)
  else some (.made {
    label := "krunk_alice_handler_commit"
    move := sha256 (salt ++ word)
    outgoingValidator := .commit
    outgoingValidatorHash := H.commit
    incomingValidator := some .guess
    incomingValidatorHash := H.guess
    maxMoveSize := 32
    moverShare := []
    theirTurnHandler := some (.aliceGuess salt word dictTree)
    messageParser := none })

def krunkAliceHandlerClue (salt word : Bytes) (clue : ℤ) (dictTree state : Clvm) :
    Option MyTurnAnswer := do
  let bobGuesses ← state.nth 2
  let latestGuess ← (← bobGuesses.first).bytes
  if latestGuess = word ∨ (← bobGuesses.len) = 5 then
    let payout ← krunkRevealMoverShare (← state.nth 1) bobGuesses word
    some (.made {
      label := "krunk_alice_handler_clue reveal"
      move := salt ++ word
      outgoingValidator := .clue
      outgoingValidatorHash := H.clue
      incomingValidator := none
      incomingValidatorHash := []
      maxMoveSize := 0
      moverShare := payout
      theirTurnHandler := none
      messageParser := none })
  else some (.made {
    label := "krunk_alice_handler_clue"
    move := bytesOfInt clue
    outgoingValidator := .clue
    outgoingValidatorHash := H.clue
    incomingValidator := some .guess
    incomingValidatorHash := H.guess
    maxMoveSize := 5
    moverShare := []
    theirTurnHandler := some (.aliceGuess salt word dictTree)
    messageParser := none })

def krunkBobHandlerCommit (dictTree : Clvm) : TheirTurn := ⟨.nil, .nil, some (.bobGuess dictTree)⟩

def krunkBobHandlerGuess (dictTree : Clvm) (localMove : Bytes) : Option MyTurnAnswer := do
  let guess := localMove
  let lookup ← dictLookup minWord maxWord guess dictTree
  if lookup.truthy then some (.rejected "not_in_dictionary" guess)
  else some (.made {
    label := "krunk_bob_handler_guess"
    move := guess
    outgoingValidator := .guess
    outgoingValidatorHash := H.guess
    incomingValidator := some .clue
    incomingValidatorHash := H.clue
    maxMoveSize := 21
    moverShare := []
    theirTurnHandler := some (.bobClue dictTree)
    messageParser := none })

def Handler.myTurn (state : Clvm) (localMove entropy : Bytes) : Handler → Option MyTurnAnswer
  | .aliceCommit dictTree => krunkAliceHandlerCommit sha256 H dictTree localMove entropy
  | .aliceClue salt word clue dictTree => krunkAliceHandlerClue H salt word clue dictTree state
  | .bobGuess dictTree => krunkBobHandlerGuess H dictTree localMove
  | .aliceGuess .. | .bobCommit .. | .bobClue .. => none

def Handler.theirTurn (preState : Clvm) (move : Bytes) : Handler → Option TheirTurn
  | .bobCommit dictTree => some (krunkBobHandlerCommit dictTree)
  | .aliceGuess salt word dictTree => krunkAliceHandlerGuess salt word dictTree move
  | .bobClue dictTree => krunkBobHandlerClue dictTree preState move
  | .aliceCommit .. | .aliceClue .. | .bobGuess .. => none

end Handlers

/-! Honest play. -/

def MyTurnAnswer.move? : MyTurnAnswer → Option MyTurn
  | .rejected .. => none
  | .made t => some t

def rules (sha256 : Bytes → Bytes) (H : Hashes) (amount : ℕ) : Play.Rules Validator Handler Bytes where
  amount := amount
  validate := Validator.run sha256 H
  myTurn handler localMove state entropy :=
    (handler.myTurn sha256 H state localMove entropy).bind MyTurnAnswer.move?
  theirTurn handler preState _ move _ :=
    (handler.theirTurn preState move).map fun t => ⟨t.readable, t.evidence, t.next, none⟩

abbrev Table := Play.Table Validator Handler

def start (dictPubkey : Bytes) (baseUnit : ℕ) (dictTree : Clvm) : Table where
  state := .list [.atom dictPubkey, .nat baseUnit]
  validator := .commit
  maxMoveSize := 32
  mover := .aliceCommit dictTree
  waiter := .bobCommit dictTree

/-- A play begins with any key and base unit, over the tree of a dictionary. -/
def Starts (d : Dictionary) (sigs : List Bytes) (T : Table) : Prop :=
  ∃ dictPubkey baseUnit, T = start dictPubkey baseUnit (buildSignedDictTree d.words sigs)

/-- A word that a lookup finds is one of the dictionary, whatever its length. -/
theorem mem_of_dictLookup_nil (words sigs : List Bytes) {w : Bytes} :
    ∀ left right, dictLookup left right w (buildSignedDictTree words sigs) = some .nil → w ∈ words := by
  refine buildSignedDictTree_induction (motive := fun words _ tree => ∀ left right,
    dictLookup left right w tree = some .nil → w ∈ words) ?_ ?_ words
  · intro gapOffset left right h
    rw [dictLookup] at h
    cases h
  · intro before word after gapOffset leftTree rightTree ihleft ihright left right h
    rw [Clvm.list_cons, Clvm.list_cons, Clvm.list_cons, dictLookup] at h
    split_ifs at h with heq hgt
    · rw [heq]
      exact List.mem_append_right _ List.mem_cons_self
    · exact List.mem_append_right _ (List.mem_cons_of_mem _ (ihright _ _ h))
    · exact List.mem_append_left _ (ihleft _ _ h)

/-! What the validators and the handlers make of a state that has guesses and clues. -/

def stateOf (dictPubkey : Bytes) (baseUnit : ℕ) (commitment clueHash : Bytes)
    (guesses clues : List Bytes) : Clvm :=
  .list [.atom dictPubkey, .nat baseUnit, .list (guesses.map .atom), .list (clues.map .atom),
    .atom commitment, .atom clueHash]

section Answers

variable {dictPubkey commitment clueHash guessHash : Bytes} {baseUnit : ℕ} {guesses clues : List Bytes}
  {a : RefereeArgs} {sha256 : Bytes → Bytes}

theorem commit_eq (evidence : Clvm) :
    commit guessHash clueHash a (.list [.atom dictPubkey, .nat baseUnit]) evidence =
      if a.move.length = 32 ∧ a.moverShare = [] then
        some (.list [.atom guessHash, stateOf dictPubkey baseUnit a.move clueHash [] [], .nat 5])
      else some .nil := rfl

theorem guessAnswer_eq (extra : List Clvm) :
    guessAnswer a (stateOf dictPubkey baseUnit commitment clueHash guesses clues) extra =
      some (.list (.atom clueHash ::
        stateOf dictPubkey baseUnit commitment clueHash (a.move :: guesses) clues :: .nat 21 :: extra)) :=
  rfl

theorem guess_nil :
    guess a (stateOf dictPubkey baseUnit commitment clueHash guesses clues) .nil =
      if a.move.length = 5 ∧ a.moverShare = [] then
        some (.list [.atom clueHash,
          stateOf dictPubkey baseUnit commitment clueHash (a.move :: guesses) clues, .nat 21])
      else some .nil := rfl

/-- With evidence a guess is judged by the bounds alone, and answered as without. -/
theorem guess_aligned {evidence result : Clvm} (hmove : a.move.length = 5) (hshare : a.moverShare = [])
    (h : guess a (stateOf dictPubkey baseUnit commitment clueHash guesses clues) evidence = some result) :
    ∃ newState extra, result = .pair (.atom clueHash) (.pair newState (.pair (.nat 21) extra)) := by
  rw [guess] at h
  by_cases hevidence : evidence.truthy = true
  · rw [if_pos hevidence] at h
    obtain ⟨ev, -, h⟩ := Option.bind_eq_some_iff.mp h
    split_ifs at h
    · obtain ⟨low, -, h⟩ := Option.bind_eq_some_iff.mp h
      obtain ⟨high, -, h⟩ := Option.bind_eq_some_iff.mp h
      split_ifs at h
      obtain ⟨pubkey, -, h⟩ := Option.bind_eq_some_iff.mp h
      rw [guessAnswer_eq, Option.some.injEq] at h
      exact ⟨_, _, h.symm⟩
  · rw [if_neg hevidence, if_pos ⟨hmove, hshare⟩, guessAnswer_eq, Option.some.injEq] at h
    exact ⟨_, _, h.symm⟩

theorem clueStep_eq :
    clueStep guessHash a (stateOf dictPubkey baseUnit commitment clueHash guesses clues) =
      if a.moverShare ≠ [] then some .nil
      else if ¬ clues.length < 4 then some .nil
      else if ¬ intOfBytes [0x72] > intOfBytes a.move then some .nil
      else some (.list [.atom guessHash,
        stateOf dictPubkey baseUnit commitment clueHash guesses (a.move :: clues), .nat 5]) := by
  have hclues : (stateOf dictPubkey baseUnit commitment clueHash guesses clues).nth 3 =
      some (.list (clues.map .atom)) := rfl
  have hcount : (Clvm.list (clues.map .atom)).len = some clues.length := by
    rw [Clvm.len_list, List.length_map]
  rw [clueStep]
  by_cases hshare : a.moverShare ≠ []
  · rw [if_pos hshare, if_pos hshare]
  rw [if_neg hshare, if_neg hshare, hclues]
  simp only [Option.bind_eq_bind, Option.bind_some, hcount]
  rfl

/-- A move without a byte is no clue, and too short for a reveal. -/
theorem clue_empty (hmove : a.move = []) :
    clue sha256 guessHash a (stateOf dictPubkey baseUnit commitment clueHash guesses clues) .nil =
      some .nil := by
  have hlength : a.move.length ≠ 1 := by
    rw [hmove]
    decide
  have hreveal : a.move.length ≠ 21 := by
    rw [hmove]
    decide
  rw [clue, if_neg hlength]
  change reveal sha256 a _ = _
  rw [reveal, if_pos hreveal]

end Answers

theorem bytesOfInt_length_one {z : ℤ} (hlow : -128 ≤ z) (hhigh : z < 128) (hz : z ≠ 0) :
    (bytesOfInt z).length = 1 := by
  cases z with
  | ofNat n =>
    refine bytesOfNat_length_one (Nat.pos_of_ne_zero fun h => hz ?_) ?_
    · rw [h]
      rfl
    · simpa using hhigh
  | negSucc m =>
    rw [bytesOfInt, List.length_map]
    split_ifs with hm
    · rfl
    · refine bytesOfNat_length_one (Nat.pos_of_ne_zero hm) ?_
      rw [Int.negSucc_eq] at hlow
      omega

/-- A clue lies below that of the word itself, unless it is that. -/
theorem clueOf_bounds {word guess : Bytes} (hword : word.length = 5) (hguess : guess.length = 5) :
    -128 ≤ clueOf (Colouring.colours word guess) ∧
      (word ≠ guess → clueOf (Colouring.colours word guess) < 114) := by
  have hlength : word.length = guess.length := hword.trans hguess.symm
  have hcolours := (Colouring.length_colours hlength).trans hword
  have hlt := Nat.ofDigits_lt_base_pow_length (b := 3) (by decide)
    fun d hd => Colouring.colours_lt word guess d (List.mem_reverse.mp hd)
  rw [List.length_reverse, hcolours] at hlt
  change clueNumber (Colouring.colours word guess) < 3 ^ 5 at hlt
  refine ⟨by rw [clueOf]; omega, fun hne => ?_⟩
  have hgreen : clueNumber (Colouring.colours word guess) ≠ 242 := by
    intro heq
    refine hne ((Colouring.colours_eq_replicate hlength).mp ?_)
    rw [hword]
    exact clueNumber_injective (hcolours.trans rfl) (Colouring.colours_lt _ _) (by decide) heq
  rw [clueOf]
  omega

/-! What stands at each table of an honest play. -/

/-- The clues for the guesses of a word. -/
def cluesOf (word : Bytes) (guesses : List Bytes) : List Bytes :=
  guesses.map fun guess => bytesOfInt (clueOf (Colouring.colours word guess))

section Standing

variable (sha256 : Bytes → Bytes) (H : Hashes) (d : Dictionary) (sigs : List Bytes)

/-- The tables that an honest play comes to.  The latest guess is first. -/
inductive Standing : Table → Prop where
  | commit (dictPubkey : Bytes) (baseUnit : ℕ) :
      Standing (start dictPubkey baseUnit (buildSignedDictTree d.words sigs))
  | guess (dictPubkey : Bytes) (baseUnit : ℕ) (salt word : Bytes) (guesses : List Bytes) (maxMoveSize : ℕ)
      (hsalt : salt.length = 16) (hword : word ∈ d.words) (hguesses : ∀ g ∈ guesses, g ∈ d.words)
      (hfew : guesses.length ≤ 4) (hsize : 5 ≤ maxMoveSize) :
      Standing ⟨stateOf dictPubkey baseUnit (sha256 (salt ++ word)) H.clue guesses (cluesOf word guesses),
        .guess, maxMoveSize, .bobGuess (buildSignedDictTree d.words sigs),
        .aliceGuess salt word (buildSignedDictTree d.words sigs)⟩
  | clue (dictPubkey : Bytes) (baseUnit : ℕ) (salt word latest : Bytes) (guesses : List Bytes)
      (hsalt : salt.length = 16) (hword : word ∈ d.words) (hlatest : latest ∈ d.words)
      (hguesses : ∀ g ∈ guesses, g ∈ d.words) (hfew : guesses.length ≤ 4) :
      Standing ⟨stateOf dictPubkey baseUnit (sha256 (salt ++ word)) H.clue (latest :: guesses)
          (cluesOf word guesses),
        .clue, 21, .aliceClue salt word (clueOf (Colouring.colours word latest))
          (buildSignedDictTree d.words sigs), .bobClue (buildSignedDictTree d.words sigs)⟩

variable {sha256 H d sigs} {T T' : Table} {t : MyTurn} {localMove entropy : Bytes}

/-- The words that the handlers let through are those of the dictionary. -/
theorem dictLookup_truthy {w : Bytes} {lookup : Clvm}
    (h : dictLookup minWord maxWord w (buildSignedDictTree d.words sigs) = some lookup)
    (hfound : ¬ lookup.truthy = true) : w ∈ d.words := by
  rw [Bool.not_eq_true, Clvm.truthy_eq_false_iff] at hfound
  exact mem_of_dictLookup_nil d.words sigs _ _ (h.trans (congrArg some hfound))

theorem dictLookup_listed {w : Bytes} (hw : w ∈ d.words) :
    dictLookup minWord maxWord w (buildSignedDictTree d.words sigs) = some .nil :=
  (dictLookup_eq d sigs ⟨w, d.five w hw⟩ _ rfl).1 hw

theorem myTurn_commit {state dictTree : Clvm}
    (h : (Handler.aliceCommit dictTree).myTurn sha256 H state localMove entropy = some (.made t)) :
    ∃ salt lookup, salt.length = 16 ∧ dictLookup minWord maxWord localMove dictTree = some lookup ∧
      ¬ lookup.truthy = true ∧ t = ⟨"krunk_alice_handler_commit", sha256 (salt ++ localMove), .commit,
        H.commit, some .guess, H.guess, 32, [], some (.aliceGuess salt localMove dictTree), none⟩ := by
  obtain ⟨salt, hsalt, h⟩ := Option.bind_eq_some_iff.mp h
  obtain ⟨lookup, hlookup, h⟩ := Option.bind_eq_some_iff.mp h
  split_ifs at h with hfound
  · cases h
  · cases h
    refine ⟨salt, lookup, ?_, hlookup, hfound, rfl⟩
    exact length_of_substr hsalt

theorem myTurn_guess {state dictTree : Clvm}
    (h : (Handler.bobGuess dictTree).myTurn sha256 H state localMove entropy = some (.made t)) :
    ∃ lookup, dictLookup minWord maxWord localMove dictTree = some lookup ∧ ¬ lookup.truthy = true ∧
      t = ⟨"krunk_bob_handler_guess", localMove, .guess, H.guess, some .clue, H.clue, 21, [],
        some (.bobClue dictTree), none⟩ := by
  obtain ⟨lookup, hlookup, h⟩ := Option.bind_eq_some_iff.mp h
  split_ifs at h with hfound
  · cases h
  · cases h
    exact ⟨lookup, hlookup, hfound, rfl⟩

/-- A reveal ends the game, a clue goes on. -/
theorem myTurn_clue {dictPubkey commitment clueHash salt word latest : Bytes} {baseUnit : ℕ}
    {guesses clues : List Bytes} {clue : ℤ} {dictTree : Clvm}
    (h : (Handler.aliceClue salt word clue dictTree).myTurn sha256 H
      (stateOf dictPubkey baseUnit commitment clueHash (latest :: guesses) clues) localMove entropy =
        some (.made t)) :
    ((latest = word ∨ guesses.length + 1 = 5) ∧ ∃ payout,
      krunkRevealMoverShare (.nat baseUnit) (.list ((latest :: guesses).map .atom)) word = some payout ∧
      t = ⟨"krunk_alice_handler_clue reveal", salt ++ word, .clue, H.clue, none, [], 0, payout, none,
        none⟩) ∨
    (¬ (latest = word ∨ guesses.length + 1 = 5) ∧
      t = ⟨"krunk_alice_handler_clue", bytesOfInt clue, .clue, H.clue, some .guess, H.guess, 5, [],
        some (.aliceGuess salt word dictTree), none⟩) := by
  have hguesses : (stateOf dictPubkey baseUnit commitment clueHash (latest :: guesses) clues).nth 2 =
      some (.list ((latest :: guesses).map .atom)) := rfl
  have hcount : (Clvm.list ((latest :: guesses).map .atom)).len = some (guesses.length + 1) := by
    rw [Clvm.len_list, List.length_map, List.length_cons]
  have hfirst : (Clvm.list ((latest :: guesses).map .atom)).first = some (.atom latest) := rfl
  rw [Handler.myTurn, krunkAliceHandlerClue, hguesses] at h
  simp only [Option.bind_eq_bind, Option.bind_some, hfirst, Clvm.bytes_atom, hcount] at h
  split_ifs at h with hreveal
  · obtain ⟨baseUnit', hbase, h⟩ := Option.bind_eq_some_iff.mp h
    cases hbase
    obtain ⟨payout, hpayout, h⟩ := Option.bind_eq_some_iff.mp h
    cases h
    exact .inl ⟨hreveal, payout, hpayout, rfl⟩
  · cases h
    exact .inr ⟨hreveal, rfl⟩

theorem made_of_myTurn {handler : Handler} {state : Clvm} {amount : ℕ}
    (h : (rules sha256 H amount).myTurn handler localMove state entropy = some t) :
    handler.myTurn sha256 H state localMove entropy = some (.made t) := by
  obtain ⟨answer, hanswer, h⟩ := Option.bind_eq_some_iff.mp h
  cases answer with
  | rejected tag word => cases h
  | made t' =>
    cases h
    exact hanswer

theorem received_of_theirTurn {handler next : Handler} {preState state : Clvm} {move share : Bytes}
    {amount : ℕ} (h : ∃ reply, (rules sha256 H amount).theirTurn handler preState state move share =
      some reply ∧ reply.evidence = .nil ∧ reply.myTurnHandler = some next) :
    ∃ readable, handler.theirTurn preState move = some ⟨readable, .nil, some next⟩ := by
  obtain ⟨reply, hreply, hnil, hnext⟩ := h
  obtain ⟨⟨readable, evidence, next'⟩, hanswer, rfl⟩ := Option.map_eq_some_iff.mp hreply
  cases hnil
  cases hnext
  exact ⟨readable, hanswer⟩

/-- A turn that goes on leads from one of the tables to another. -/
theorem Standing.turn {amount : ℕ} (h : Standing sha256 H d sigs T)
    (hturn : Play.Turns (rules sha256 H amount) T T' localMove entropy t) :
    Standing sha256 H d sigs T' := by
  obtain ⟨hmade, ⟨coin, result, hcoin, hvalid, hstate⟩, hreply, hvalidator, hwaiter, hsize⟩ := hturn
  replace hmade := made_of_myTurn hmade
  have hmove := hcoin.move
  obtain ⟨readable, hreceived⟩ := received_of_theirTurn hreply
  clear hreply hcoin
  obtain ⟨state', validator', size', mover', waiter'⟩ := T'
  dsimp only at hstate hreceived hvalidator hwaiter hsize
  cases h with
  | commit dictPubkey baseUnit =>
    replace hvalid : Krunk.commit H.guess H.clue coin (.list [.atom dictPubkey, .nat baseUnit]) .nil =
      some result := hvalid
    rw [commit_eq] at hvalid
    obtain ⟨salt, lookup, hsalt, hlookup, hfound, rfl⟩ := myTurn_commit hmade
    cases hvalidator
    cases hwaiter
    cases hreceived
    subst hsize
    split_ifs at hvalid
    · cases hvalid
      cases hstate
      rw [hmove]
      exact .guess dictPubkey baseUnit salt localMove [] 32 hsalt (dictLookup_truthy hlookup hfound)
        (fun g hg => by cases hg) (Nat.zero_le 4) (by decide)
    · cases hvalid
      cases hstate
  | guess dictPubkey baseUnit salt word guesses size hsalt hword hguesses hfew hlimit =>
    replace hvalid : Krunk.guess coin (stateOf dictPubkey baseUnit (sha256 (salt ++ word)) H.clue
      guesses (cluesOf word guesses)) .nil = some result := hvalid
    rw [guess_nil] at hvalid
    obtain ⟨lookup, hlookup, hfound, rfl⟩ := myTurn_guess hmade
    have hlisted := dictLookup_truthy hlookup hfound
    have hclue := makeClue_eq (d.five word hword) (d.five _ hlisted)
    rw [Handler.theirTurn, krunkAliceHandlerGuess, dictLookup_listed hlisted] at hreceived
    simp only [Option.bind_eq_bind, Option.bind_some, Clvm.truthy, hclue] at hreceived
    cases hvalidator
    cases hwaiter
    cases hreceived
    subst hsize
    split_ifs at hvalid
    · cases hvalid
      cases hstate
      rw [hmove]
      exact .clue dictPubkey baseUnit salt word localMove guesses hsalt hword hlisted hguesses hfew
    · cases hvalid
      cases hstate
  | clue dictPubkey baseUnit salt word latest guesses hsalt hword hlatest hguesses hfew =>
    replace hvalid : Krunk.clue sha256 H.guess coin (stateOf dictPubkey baseUnit
      (sha256 (salt ++ word)) H.clue (latest :: guesses) (cluesOf word guesses)) .nil =
        some result := hvalid
    rcases myTurn_clue hmade with ⟨-, payout, -, rfl⟩ | ⟨hgoes, rfl⟩
    · cases hvalidator
    · obtain ⟨hlow, hhigh⟩ := clueOf_bounds (d.five word hword) (d.five latest hlatest)
      have hne : latest ≠ word := fun heq => hgoes (.inl heq)
      by_cases hzero : clueOf (Colouring.colours word latest) = 0
      · -- the empty move ends the play
        rw [clue_empty (hmove.trans (congrArg bytesOfInt hzero))] at hvalid
        cases hvalid
        cases hstate
      · have hone := bytesOfInt_length_one hlow ((hhigh hne.symm).trans (by decide)) hzero
        rw [Handler.theirTurn, krunkBobHandlerClue, if_pos hone] at hreceived
        rw [Krunk.clue, if_pos ((congrArg List.length hmove).trans hone), clueStep_eq,
          hmove] at hvalid
        cases hvalidator
        cases hwaiter
        cases hreceived
        subst hsize
        split_ifs at hvalid with hshare hfull hgreen
        · cases hvalid
          cases hstate
        · cases hvalid
          cases hstate
          refine .guess dictPubkey baseUnit salt word (latest :: guesses) 5 hsalt hword ?_ ?_ le_rfl
          · intro g hg
            rcases List.mem_cons.mp hg with rfl | hg
            · exact hlatest
            · exact hguesses g hg
          · rw [List.length_cons]
            omega
        · cases hvalid
          cases hstate
        · cases hvalid
          cases hstate

theorem standing_of_reached {amount : ℕ} {moves : List MyTurn}
    (h : Play.Reached (rules sha256 H amount) (Starts d sigs) moves T) : Standing sha256 H d sigs T := by
  apply h.invariant (I := fun _ T => Standing sha256 H d sigs T)
  · rintro T ⟨dictPubkey, baseUnit, rfl⟩
    exact .commit dictPubkey baseUnit
  · intro moves T T' localMove entropy t hstanding hturn
    exact hstanding.turn hturn

/-- The handler declares the size of a hash for the next move, the validator that of a guess. -/
theorem commit_disagrees {dictPubkey : Bytes} {baseUnit amount : ℕ} {dictTree : Clvm} {word : Bytes}
    {t : MyTurn} (hmade : (start dictPubkey baseUnit dictTree).mover.myTurn sha256 H
      (start dictPubkey baseUnit dictTree).state word entropy = some (.made t)) :
    ¬ Play.Agrees (rules sha256 H amount) (start dictPubkey baseUnit dictTree) t := by
  intro h
  obtain ⟨coin, hcoin⟩ := Play.exists_coinOf (rules sha256 H amount) t
  obtain ⟨evidence, result, -, hvalid⟩ := h.accepted coin hcoin
  have haligned := h.aligned coin evidence result hcoin hvalid
  replace hvalid : Krunk.commit H.guess H.clue coin (.list [.atom dictPubkey, .nat baseUnit]) evidence =
    some result := hvalid
  rw [commit_eq] at hvalid
  obtain ⟨salt, lookup, -, -, -, rfl⟩ := myTurn_commit hmade
  split_ifs at hvalid
  · obtain rfl := Option.some.inj hvalid
    rcases haligned.size with hsize | ⟨hlast, -⟩
    · exact absurd (Option.some.inj hsize) (show Clvm.nat 5 ≠ .nat 32 by decide)
    · cases hlast
  · exact haligned.ne_nil (Option.some.inj hvalid).symm

theorem guess_agrees {dictPubkey commitment : Bytes} {baseUnit size amount : ℕ}
    {guesses clues : List Bytes} {waiter : Handler} (hsize : 5 ≤ size)
    (hmade : (Handler.bobGuess (buildSignedDictTree d.words sigs)).myTurn sha256 H
      (stateOf dictPubkey baseUnit commitment H.clue guesses clues) localMove entropy = some (.made t)) :
    Play.Agrees (rules sha256 H amount) ⟨stateOf dictPubkey baseUnit commitment H.clue guesses clues,
      .guess, size, .bobGuess (buildSignedDictTree d.words sigs), waiter⟩ t := by
  obtain ⟨lookup, hlookup, hfound, rfl⟩ := myTurn_guess hmade
  have hfive := d.five _ (dictLookup_truthy hlookup hfound)
  refine ⟨rfl, hfive.le.trans hsize, fun coin hcoin => ?_, fun coin evidence result hcoin h => ?_⟩
  · exact ⟨.nil, _, fun _ => rfl, guess_nil.trans (if_pos ⟨hcoin.move ▸ hfive, hcoin.share⟩)⟩
  · obtain ⟨newState, extra, rfl⟩ := guess_aligned (hcoin.move ▸ hfive) hcoin.share h
    exact Play.aligned_list rfl rfl

/-- A clue of one byte is answered the same whatever the evidence. -/
theorem clue_agrees {dictPubkey commitment clueHash salt word : Bytes} {baseUnit amount : ℕ}
    {guesses clues : List Bytes} {clue : ℤ} {dictTree : Clvm} {mover waiter : Handler}
    (hlow : -128 ≤ clue) (hhigh : clue < 114) (hzero : clue ≠ 0) (hclues : clues.length < 4) :
    Play.Agrees (rules sha256 H amount)
      ⟨stateOf dictPubkey baseUnit commitment clueHash guesses clues, .clue, 21, mover, waiter⟩
      ⟨"krunk_alice_handler_clue", bytesOfInt clue, .clue, H.clue, some .guess, H.guess, 5, [],
        some (.aliceGuess salt word dictTree), none⟩ := by
  have hone := bytesOfInt_length_one hlow (hhigh.trans (by decide)) hzero
  have hrun : ∀ a : RefereeArgs, a.move = bytesOfInt clue → a.moverShare = [] → ∀ evidence,
      Krunk.clue sha256 H.guess a (stateOf dictPubkey baseUnit commitment clueHash guesses clues)
        evidence = some (.list [.atom H.guess,
          stateOf dictPubkey baseUnit commitment clueHash guesses (a.move :: clues), .nat 5]) := by
    intro a hmove hshare evidence
    have hgreen : intOfBytes [0x72] > intOfBytes a.move := by
      rw [hmove, intOfBytes_bytesOfInt]
      exact hhigh
    rw [Krunk.clue, if_pos (by rw [hmove, hone]), clueStep_eq, if_neg (not_not.mpr hshare),
      if_neg (not_not.mpr hclues), if_neg (not_not.mpr hgreen)]
  exact Play.agrees_of_answer rfl (hone.le.trans (show 1 ≤ 21 by decide)) fun coin evidence hcoin =>
    ⟨_, hrun coin hcoin.move hcoin.share evidence⟩

/-- Whatever a reveal is answered with, it ends the game. -/
theorem clue_long_answer {a : RefereeArgs} {state evidence result : Clvm} (hlong : a.move.length ≠ 1)
    (h : Krunk.clue sha256 H.guess a state evidence = some result) :
    result = .nil ∨ ∃ extra, result = .pair .nil (.pair .nil (.pair .nil extra)) := by
  rw [Krunk.clue, if_neg hlong] at h
  obtain ⟨ev, -, h⟩ := Option.bind_eq_some_iff.mp h
  split_ifs at h
  · obtain ⟨word, -, h⟩ := Option.bind_eq_some_iff.mp h
    obtain ⟨low, -, h⟩ := Option.bind_eq_some_iff.mp h
    obtain ⟨high, -, h⟩ := Option.bind_eq_some_iff.mp h
    split_ifs at h
    obtain ⟨pubkey, -, h⟩ := Option.bind_eq_some_iff.mp h
    exact .inr ⟨_, (Option.some.inj h).symm⟩
  · obtain ⟨clues, -, h⟩ := Option.bind_eq_some_iff.mp h
    obtain ⟨n, -, h⟩ := Option.bind_eq_some_iff.mp h
    split_ifs at h
    obtain ⟨word, -, h⟩ := Option.bind_eq_some_iff.mp h
    obtain ⟨guesses, -, h⟩ := Option.bind_eq_some_iff.mp h
    obtain ⟨guessesFrom, -, h⟩ := Option.bind_eq_some_iff.mp h
    obtain ⟨guess, -, h⟩ := Option.bind_eq_some_iff.mp h
    obtain ⟨guessBytes, -, h⟩ := Option.bind_eq_some_iff.mp h
    obtain ⟨cluesFrom, -, h⟩ := Option.bind_eq_some_iff.mp h
    obtain ⟨clue, -, h⟩ := Option.bind_eq_some_iff.mp h
    obtain ⟨clueBytes, -, h⟩ := Option.bind_eq_some_iff.mp h
    obtain ⟨val, -, h⟩ := Option.bind_eq_some_iff.mp h
    split_ifs at h
    exact .inl (Option.some.inj h).symm
  · rw [reveal] at h
    split_ifs at h
    · exact .inl (Option.some.inj h).symm
    · obtain ⟨salt, -, h⟩ := Option.bind_eq_some_iff.mp h
      obtain ⟨word, -, h⟩ := Option.bind_eq_some_iff.mp h
      obtain ⟨commitment, -, h⟩ := Option.bind_eq_some_iff.mp h
      obtain ⟨commitmentBytes, -, h⟩ := Option.bind_eq_some_iff.mp h
      split_ifs at h
      · exact .inl (Option.some.inj h).symm
      · obtain ⟨baseUnit, -, h⟩ := Option.bind_eq_some_iff.mp h
        obtain ⟨guesses, -, h⟩ := Option.bind_eq_some_iff.mp h
        obtain ⟨share, -, h⟩ := Option.bind_eq_some_iff.mp h
        split_ifs at h
        · exact .inl (Option.some.inj h).symm
        · exact .inr ⟨_, (Option.some.inj h).symm⟩

/-- The state in which Alice reveals, with the clues that she gave. -/
def revealState (dictPubkey commitment clueHash word : Bytes) (baseUnit : ℕ) (latest : Bytes)
    (guesses : List Bytes) (hlatest : latest.length = 5) (hguesses : ∀ g ∈ guesses, g.length = 5)
    (hfew : guesses.length ≤ 4) : ClueState where
  dictPubkey := dictPubkey
  baseUnit := baseUnit
  bobGuesses := latest :: guesses
  aliceClues := cluesOf word guesses
  aliceCommit := commitment
  clueHash := clueHash
  guess_length := List.forall_mem_cons.mpr ⟨hlatest, hguesses⟩
  clues_length := by rw [cluesOf, List.length_map, List.length_cons]
  guesses_le := Nat.succ_le_succ hfew

/-- The clues that follow from the word are not wrong for it. -/
theorem not_wrongClue {s : ClueState} {m : MoveSolution} {latest word : Bytes} {guesses : List Bytes}
    (hm : revealedWord m.newMove = word) (hword : word.length = 5)
    (hguesses : s.bobGuesses = latest :: guesses) (hclues : s.aliceClues = cluesOf word guesses) (i : ℕ) :
    ¬ WrongClue s m i := by
  rintro ⟨clue, guess, hclue, hguess, hne⟩
  have hlength := s.guess_length guess (List.mem_of_getElem? hguess)
  rw [hguesses, List.getElem?_cons_succ] at hguess
  rw [hclues, cluesOf, List.getElem?_map, hguess, Option.map_some, Option.some.injEq] at hclue
  rw [hm, makeClue_eq hword hlength, Option.map_some, hclue] at hne
  exact hne rfl

/-- A reveal after the word or the fifth guess with the due share is no fault, whatever coin it makes. -/
theorem reveal_not_fault {s : ClueState} {m : MoveSolution} {salt word latest : Bytes}
    {guesses : List Bytes} (hm : m.newMove = salt ++ word) (hsalt : salt.length = 16)
    (hword : word.length = 5) (hguesses : s.bobGuesses = latest :: guesses)
    (hclues : s.aliceClues = cluesOf word guesses) (hcommit : s.aliceCommit = sha256 (salt ++ word))
    (hends : latest = word ∨ guesses.length + 1 = 5)
    (hpayout : krunkRevealMoverShare (.nat s.baseUnit) (.list (s.bobGuesses.map .atom)) word =
      some m.newMoverShare) : ¬ Fault sha256 s m := by
  have hlength : m.newMove.length = 21 := by rw [hm, List.length_append, hsalt, hword]
  have hrevealed : revealedWord m.newMove = word := by
    rw [revealedWord, List.take_of_length_le hlength.le, hm, ← hsalt, List.drop_left]
  have hripe : ¬ Premature s m := by
    rintro ⟨hne, hlt⟩
    rw [hguesses, hrevealed] at hne
    rw [hguesses, List.length_cons] at hlt
    rcases hends with rfl | hfive
    · exact hne rfl
    · exact hlt.ne hfive
  rintro (h | h | h | h | ⟨i, hi⟩)
  · exact h hlength
  · rw [OpensCommitment, hrevealed, hcommit, hm, ← hsalt, List.take_left] at h
    exact h rfl
  · exact hripe h
  · have hrule := revealShare_eq s m
    rw [if_neg hripe, hrevealed] at hrule
    rw [WrongShare, hrevealed] at h
    exact h (Option.some.inj (hpayout.symm.trans hrule))
  · exact not_wrongClue hrevealed hword hguesses hclues i hi

theorem reveal_agrees {dictPubkey clueHash salt word latest payout : Bytes} {baseUnit amount : ℕ}
    {guesses : List Bytes} {mover waiter : Handler} (hsalt : salt.length = 16) (hword : word.length = 5)
    (hlatest : latest.length = 5) (hguesses : ∀ g ∈ guesses, g.length = 5) (hfew : guesses.length ≤ 4)
    (hends : latest = word ∨ guesses.length + 1 = 5)
    (hpayout : krunkRevealMoverShare (.nat baseUnit) (.list ((latest :: guesses).map .atom)) word =
      some payout) :
    Play.Agrees (rules sha256 H amount)
      ⟨stateOf dictPubkey baseUnit (sha256 (salt ++ word)) clueHash (latest :: guesses)
        (cluesOf word guesses), .clue, 21, mover, waiter⟩
      ⟨"krunk_alice_handler_clue reveal", salt ++ word, .clue, H.clue, none, [], 0, payout, none, none⟩ := by
  have hlength : (salt ++ word).length = 21 := by rw [List.length_append, hsalt, hword]
  let s := revealState dictPubkey (sha256 (salt ++ word)) clueHash word baseUnit latest guesses hlatest
    hguesses hfew
  refine ⟨rfl, hlength.le, fun coin hcoin => ⟨.nil, ?_⟩, fun coin evidence result hcoin h => ?_⟩
  · obtain ⟨before, m, hafter, hmove, hshare⟩ := Play.exists_afterMove coin
    replace hmove := hmove.trans hcoin.move
    replace hshare := hshare.trans hcoin.share
    have hfault : ¬ Fault sha256 s m :=
      reveal_not_fault hmove hsalt hword rfl rfl rfl hends (hpayout.trans (congrArg some hshare.symm))
    simp only [Fault, not_or, not_not] at hfault
    obtain ⟨hlong, hopens, hripe, hdue, -⟩ := hfault
    rw [WrongShare] at hdue
    have hrun : Krunk.clue sha256 H.guess (before.afterMove m) s.toClvm .nil =
        reveal sha256 (before.afterMove m) s.toClvm := if_neg (by
      rw [afterMove_move, hlong]
      decide)
    refine ⟨.list [.nil, .nil, .nil], fun _ => rfl, ?_⟩
    change Krunk.clue sha256 H.guess coin s.toClvm .nil = _
    rw [hafter, hrun, reveal_eq _ hlong, if_neg (not_not.mpr hopens), revealShare_eq, if_neg hripe,
      Option.bind_some, if_neg hdue]
  · obtain ⟨before, m, hafter, hmove, hshare⟩ := Play.exists_afterMove coin
    replace hmove := hmove.trans hcoin.move
    replace hshare := hshare.trans hcoin.share
    have hfault : ¬ Fault sha256 s m :=
      reveal_not_fault hmove hsalt hword rfl rfl rfl hends (hpayout.trans (congrArg some hshare.symm))
    have hlong : 1 < m.newMove.length := by
      rw [hmove, hlength]
      decide
    replace h : Krunk.clue sha256 H.guess coin s.toClvm evidence = some result := h
    rw [hafter] at h
    rcases clue_long_answer hlong.ne' h with rfl | ⟨extra, rfl⟩
    · exact absurd h (clue_ne_nil_of_not_fault hlong hfault evidence)
    · exact Play.aligned_list rfl rfl

/-- Alice goes on with a clue whose value is zero, which is a move without a byte. -/
def GivesEmptyClue (T : Table) : Prop :=
  ∃ salt word dictTree, T.mover = .aliceClue salt word 0 dictTree ∧ (T.state.nth 2).bind Clvm.len ≠ some 5

theorem givesEmptyClue_iff {dictPubkey commitment clueHash salt word latest : Bytes} {baseUnit size : ℕ}
    {guesses clues : List Bytes} {clue : ℤ} {dictTree : Clvm} {waiter : Handler} :
    GivesEmptyClue ⟨stateOf dictPubkey baseUnit commitment clueHash (latest :: guesses) clues, .clue, size,
      .aliceClue salt word clue dictTree, waiter⟩ ↔ clue = 0 ∧ guesses.length + 1 ≠ 5 := by
  have hcount : ((stateOf dictPubkey baseUnit commitment clueHash (latest :: guesses) clues).nth 2).bind
      Clvm.len = some (guesses.length + 1) := by
    change (Clvm.list ((latest :: guesses).map .atom)).len = _
    rw [Clvm.len_list, List.length_map, List.length_cons]
  constructor
  · rintro ⟨salt', word', tree', hmover, hfive⟩
    cases hmover
    exact ⟨rfl, fun hlast => hfive (hcount.trans (congrArg some hlast))⟩
  · rintro ⟨rfl, hfive⟩
    exact ⟨salt, word, dictTree, rfl, fun heq => hfive (Option.some.inj (hcount.symm.trans heq))⟩

/-- In an honest play, handler and validator agree on every move but the commitment and a clue of
zero. -/
theorem guessing_agrees_iff {amount : ℕ} {moves : List MyTurn}
    (h : Play.Reached (rules sha256 H amount) (Starts d sigs) moves T)
    (hmade : (rules sha256 H amount).myTurn T.mover localMove T.state entropy = some t) :
    Play.Agrees (rules sha256 H amount) T t ↔ T.validator ≠ .commit ∧ ¬ GivesEmptyClue T := by
  replace hmade := made_of_myTurn hmade
  cases standing_of_reached h with
  | commit dictPubkey baseUnit =>
    refine iff_of_false (fun hagrees => ?_) fun hand => hand.1 rfl
    exact commit_disagrees hmade hagrees
  | guess dictPubkey baseUnit salt word guesses size hsalt hword hguesses hfew hsize =>
    refine iff_of_true (guess_agrees hsize hmade) ⟨(fun heq => by cases heq), ?_⟩
    rintro ⟨salt', word', tree', hmover, -⟩
    cases hmover
  | clue dictPubkey baseUnit salt word latest guesses hsalt hword hlatest hguesses hfew =>
    obtain ⟨hlow, hhigh⟩ := clueOf_bounds (d.five word hword) (d.five latest hlatest)
    obtain ⟨coin, hcoin⟩ := Play.exists_coinOf (rules sha256 H amount) t
    rw [givesEmptyClue_iff]
    rcases myTurn_clue hmade with ⟨hends, payout, hpayout, rfl⟩ | ⟨hgoes, rfl⟩
    · refine iff_of_true (reveal_agrees hsalt (d.five word hword) (d.five latest hlatest)
        (fun g hg => d.five g (hguesses g hg)) hfew hends hpayout) ⟨(fun heq => by cases heq), ?_⟩
      rintro ⟨hzero, hfive⟩
      -- before the fifth guess only the word itself is revealed to, and its clue is all green
      obtain rfl := hends.resolve_right hfive
      rw [(Colouring.colours_eq_replicate rfl).mpr rfl, d.five latest hword] at hzero
      exact absurd hzero (by decide)
    · have hfour : guesses.length + 1 ≠ 5 := fun heq => hgoes (.inr heq)
      by_cases hzero : clueOf (Colouring.colours word latest) = 0
      · refine iff_of_false (fun hagrees => ?_) fun hand => hand.2 ⟨hzero, hfour⟩
        refine (hagrees.aligned coin .nil .nil hcoin ?_).ne_nil rfl
        exact clue_empty (hcoin.move.trans (congrArg bytesOfInt hzero))
      · refine iff_of_true (clue_agrees hlow (hhigh fun heq => hgoes (.inl heq.symm)) hzero ?_)
          ⟨(fun heq => by cases heq), fun hand => hzero hand.1⟩
        rw [cluesOf, List.length_map]
        omega

end Standing

/-! Alice's word is ABCDE and Bob guesses BACZE, whose clue is zero. -/

namespace ZeroClue

def abcde : Bytes := [65, 66, 67, 68, 69]
def bacze : Bytes := [66, 65, 67, 90, 69]

def dictionary : Dictionary where
  words := [abcde, bacze]
  sorted := by decide
  five := by decide
  leading := by
    intro w hw
    rcases List.mem_pair.mp hw with rfl | rfl
    · exact ⟨65, _, rfl, by decide, by decide⟩
    · exact ⟨66, _, rfl, by decide, by decide⟩

def sigs : List Bytes := [[1], [2], [3]]

def tree : Clvm := buildSignedDictTree dictionary.words sigs

def hashes : Hashes := ⟨List.replicate 32 7, List.replicate 32 8, List.replicate 32 9⟩

def begun : Table := start [1] 10 tree

def commitment : MyTurn where
  label := "krunk_alice_handler_commit"
  move := Sha256.sha256 (salt ++ abcde)
  outgoingValidator := .commit
  outgoingValidatorHash := hashes.commit
  incomingValidator := some .guess
  incomingValidatorHash := hashes.guess
  maxMoveSize := 32
  moverShare := []
  theirTurnHandler := some (.aliceGuess salt abcde tree)
  messageParser := none

def committed : Table where
  state := stateOf [1] 10 commitment.move hashes.clue [] []
  validator := .guess
  maxMoveSize := 32
  mover := .bobGuess tree
  waiter := .aliceGuess salt abcde tree

def guessed : MyTurn where
  label := "krunk_bob_handler_guess"
  move := bacze
  outgoingValidator := .guess
  outgoingValidatorHash := hashes.guess
  incomingValidator := some .clue
  incomingValidatorHash := hashes.clue
  maxMoveSize := 21
  moverShare := []
  theirTurnHandler := some (.bobClue tree)
  messageParser := none

def answering : Table where
  state := stateOf [1] 10 commitment.move hashes.clue [bacze] []
  validator := .clue
  maxMoveSize := 21
  mover := .aliceClue salt abcde 0 tree
  waiter := .bobClue tree

def emptyClue : MyTurn where
  label := "krunk_alice_handler_clue"
  move := []
  outgoingValidator := .clue
  outgoingValidatorHash := hashes.clue
  incomingValidator := some .guess
  incomingValidatorHash := hashes.guess
  maxMoveSize := 5
  moverShare := []
  theirTurnHandler := some (.aliceGuess salt abcde tree)
  messageParser := none

def game : Play.Rules Validator Handler Bytes := rules Sha256.sha256 hashes 2000

theorem made_commitment : game.myTurn begun.mover abcde begun.state salt = some commitment := by
  decide +kernel

theorem made_guess : game.myTurn committed.mover bacze committed.state [] = some guessed := by
  decide +kernel

theorem made_emptyClue : game.myTurn answering.mover [] answering.state [] = some emptyClue := by
  decide +kernel

theorem reached_begun : Play.Reached game (Starts dictionary sigs) [] begun := .start ⟨[1], 10, rfl⟩

theorem reached_committed : Play.Reached game (Starts dictionary sigs) [commitment] committed := by
  obtain ⟨coin, hcoin⟩ := Play.exists_coinOf game commitment
  refine .turn reached_begun ⟨made_commitment, ⟨coin, _, hcoin,
    (commit_eq .nil).trans (if_pos ⟨?_, hcoin.share⟩), ?_⟩, ⟨_, rfl, rfl, rfl⟩, rfl, rfl, rfl⟩
  · rw [hcoin.move]
    rfl
  · rw [hcoin.move]
    exact Sha256.sha256_length _

theorem reached_answering : Play.Reached game (Starts dictionary sigs) [guessed, commitment] answering := by
  obtain ⟨coin, hcoin⟩ := Play.exists_coinOf game guessed
  refine .turn reached_committed ⟨made_guess, ⟨coin, _, hcoin,
    guess_nil.trans (if_pos ⟨?_, hcoin.share⟩), ?_⟩,
    ⟨⟨.list [.atom bacze, expandClue 0], .nil, some answering.mover, none⟩, rfl, rfl, rfl⟩, rfl, rfl, rfl⟩
  · rw [hcoin.move]
    rfl
  · rw [hcoin.move]
    rfl

/-- Bob's guess is agreed upon. -/
theorem guessed_agrees : Play.Agrees game committed guessed :=
  (guessing_agrees_iff reached_committed made_guess).mpr
    ⟨by decide, fun ⟨_, _, _, hmover, _⟩ => by cases hmover⟩

/-- Neither the commitment nor the clue is what the validator expects. -/
theorem play_disagrees :
    (Play.Reached game (Starts dictionary sigs) [] begun ∧
      game.myTurn begun.mover abcde begun.state salt = some commitment ∧
      ¬ Play.Agrees game begun commitment) ∧
    (Play.Reached game (Starts dictionary sigs) [guessed, commitment] answering ∧
      game.myTurn answering.mover [] answering.state [] = some emptyClue ∧
      ∀ coin, Play.CoinOf game emptyClue coin →
        game.validate .clue coin answering.state .nil = some .nil) :=
  ⟨⟨reached_begun, made_commitment, commit_disagrees (made_of_myTurn made_commitment)⟩,
    reached_answering, made_emptyClue, fun _ hcoin => clue_empty hcoin.move⟩

end ZeroClue

end ChiaGaming.Krunk
