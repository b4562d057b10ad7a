import ChiaGaming.Puzzle.Referee

namespace ChiaGaming.Play

/-! A game as its handlers play it, over its validators `V`, its handlers `H` and what a player may
ask for, `L`. -/

variable {V H L : Type}

/-- `(label move outgoing_validator outgoing_validator_hash incoming_validator
incoming_validator_hash max_move_size mover_share their_turn_handler message_parser)`. -/
structure Move (V H : Type) where
  label : String
  move : Bytes
  outgoingValidator : V
  outgoingValidatorHash : Bytes
  incomingValidator : Option V
  incomingValidatorHash : Bytes
  maxMoveSize : ℕ
  moverShare : Bytes
  theirTurnHandler : Option H
  messageParser : Option H
  deriving DecidableEq

/-- `(readable_move evidence my_turn_handler message)`. -/
structure Reply (H : Type) where
  readable : Clvm
  evidence : Clvm
  myTurnHandler : Option H
  message : Option Bytes
  deriving DecidableEq

/-- `theirTurn` is given the state before the move, the state after it, the move and the share. -/
structure Rules (V H L : Type) where
  amount : ℕ
  validate : V → RefereeArgs → Clvm → Clvm → Option Clvm
  myTurn : H → L → Clvm → Bytes → Option (Move V H)
  theirTurn : H → Clvm → Clvm → Bytes → Bytes → Option (Reply H)

/-- What lies between two moves: the state, the validator of the next move and the size that was
declared for it, and the handlers of the two players. -/
structure Table (V H : Type) where
  state : Clvm
  validator : V
  maxMoveSize : ℕ
  mover : H
  waiter : H

section Rules

variable (G : Rules V H L)

/-- A coin that the move makes; after the last move there is nothing to commit to. -/
structure CoinOf (t : Move V H) (coin : RefereeArgs) : Prop where
  move : coin.move = t.move
  share : coin.moverShare = t.moverShare
  amount : coin.amount = bytesOfNat G.amount
  ends : t.incomingValidator = none → coin.infohashB = []

/-- A turn that goes on: the handler makes a move, the validator makes a state of it, and the other
player's handler finds nothing against it. -/
structure Turns (T T' : Table V H) (localMove : L) (entropy : Bytes) (t : Move V H) : Prop where
  made : G.myTurn T.mover localMove T.state entropy = some t
  valid : ∃ coin result, CoinOf G t coin ∧ G.validate T.validator coin T.state .nil = some result ∧
    result.nth 1 = some T'.state
  received : ∃ reply, G.theirTurn T.waiter T.state T'.state t.move t.moverShare = some reply ∧
    reply.evidence = .nil ∧ reply.myTurnHandler = some T'.mover
  validator : t.incomingValidator = some T'.validator
  waiter : t.theirTurnHandler = some T'.waiter
  size : T'.maxMoveSize = t.maxMoveSize

/-- The tables of an honest play, with the moves that led there, the latest first. -/
inductive Reached (start : Table V H → Prop) : List (Move V H) → Table V H → Prop where
  | start {T : Table V H} (h : start T) : Reached start [] T
  | turn {moves : List (Move V H)} {T T' : Table V H} {localMove : L} {entropy : Bytes} {t : Move V H}
      (h : Reached start moves T) (hturn : Turns G T T' localMove entropy t) :
      Reached start (t :: moves) T'

/-- The answer names the next validator and the size of the next move as the mover declared them; to a
last move it need not name a size. -/
structure Aligned (t : Move V H) (result : Clvm) : Prop where
  hash : result.nth 0 = some (.atom t.incomingValidatorHash)
  size : result.nth 2 = some (.nat t.maxMoveSize) ∨
    (t.incomingValidator = none ∧ result.nth 2 = none)

/-- The validator answers the move, whatever the evidence as the mover declared, and the move is no
longer than was declared for it. -/
structure Agrees (T : Table V H) (t : Move V H) : Prop where
  outgoing : t.outgoingValidator = T.validator
  fits : t.move.length ≤ T.maxMoveSize
  accepted : ∀ coin, CoinOf G t coin → ∃ evidence result,
    (t.incomingValidator ≠ none → evidence = .nil) ∧
      G.validate T.validator coin T.state evidence = some result
  aligned : ∀ coin evidence result, CoinOf G t coin →
    G.validate T.validator coin T.state evidence = some result → Aligned t result

/-- A turn that every coin of the move answers as declared, against all evidence. -/
structure Leads (T T' : Table V H) (localMove : L) (entropy : Bytes) (t : Move V H) : Prop where
  made : G.myTurn T.mover localMove T.state entropy = some t
  outgoing : t.outgoingValidator = T.validator
  answered : ∀ coin evidence, CoinOf G t coin → G.validate T.validator coin T.state evidence =
    some (.list [.atom t.incomingValidatorHash, T'.state, .nat t.maxMoveSize])
  received : ∃ reply, G.theirTurn T.waiter T.state T'.state t.move t.moverShare = some reply ∧
    reply.evidence = .nil ∧ reply.myTurnHandler = some T'.mover
  validator : t.incomingValidator = some T'.validator
  waiter : t.theirTurnHandler = some T'.waiter
  size : T'.maxMoveSize = t.maxMoveSize

end Rules

variable {G : Rules V H L} {start : Table V H → Prop} {moves : List (Move V H)} {T : Table V H}
  {t : Move V H}

/-- What holds at the start and through every turn holds of every table. -/
theorem Reached.invariant {I : List (Move V H) → Table V H → Prop} (h : Reached G start moves T)
    (hstart : ∀ T, start T → I [] T)
    (hturn : ∀ moves T T' localMove entropy t, I moves T → Turns G T T' localMove entropy t →
      I (t :: moves) T') : I moves T := by
  induction h with
  | start h => exact hstart _ h
  | turn _ ht ih => exact hturn _ _ _ _ _ _ ih ht

/-- Every coin is made by a move from a coin before it. -/
theorem exists_afterMove (a : RefereeArgs) : ∃ (b : RefereeArgs) (m : MoveSolution),
    a = b.afterMove m ∧ m.newMove = a.move ∧ m.newMoverShare = a.moverShare :=
  ⟨{ a with moverPubkey := a.waiterPubkey, waiterPubkey := a.moverPubkey, infohashB := a.infohashA },
    ⟨a.move, a.infohashB, a.moverShare, a.maxMoveSize⟩, rfl, rfl, rfl⟩

theorem exists_coinOf (G : Rules V H L) (t : Move V H) : ∃ coin, CoinOf G t coin :=
  ⟨⟨[], [], [], bytesOfNat G.amount, [], [], t.move, [], [], t.moverShare, []⟩, rfl, rfl, rfl, fun _ => rfl⟩

theorem Aligned.ne_nil {result : Clvm} (h : Aligned t result) : result ≠ .nil := by
  rintro rfl
  cases h.hash

/-- An answer of the form that most validators give. -/
theorem aligned_list {hash : Bytes} {newState extra : Clvm} {size : ℕ}
    (hhash : hash = t.incomingValidatorHash) (hsize : size = t.maxMoveSize) :
    Aligned t (.pair (.atom hash) (.pair newState (.pair (.nat size) extra))) := by
  subst hhash hsize
  exact ⟨rfl, .inl rfl⟩

/-- A validator that answers as declared whatever the evidence. -/
theorem agrees_of_answer (houtgoing : t.outgoingValidator = T.validator)
    (hfits : t.move.length ≤ T.maxMoveSize)
    (hvalid : ∀ coin evidence, CoinOf G t coin → ∃ newState,
      G.validate T.validator coin T.state evidence =
        some (.list [.atom t.incomingValidatorHash, newState, .nat t.maxMoveSize])) :
    Agrees G T t := by
  refine ⟨houtgoing, hfits, fun coin hcoin => ?_, fun coin evidence result hcoin h => ?_⟩
  · obtain ⟨newState, hanswer⟩ := hvalid coin .nil hcoin
    exact ⟨.nil, _, fun _ => rfl, hanswer⟩
  · obtain ⟨newState, hanswer⟩ := hvalid coin evidence hcoin
    obtain rfl := Option.some.inj (hanswer.symm.trans h)
    exact aligned_list rfl rfl

theorem Leads.turns {T' : Table V H} {localMove : L} {entropy : Bytes} (h : Leads G T T' localMove entropy t) :
    Turns G T T' localMove entropy t := by
  obtain ⟨coin, hcoin⟩ := exists_coinOf G t
  exact ⟨h.made, ⟨coin, _, hcoin, h.answered coin .nil hcoin, rfl⟩, h.received, h.validator, h.waiter, h.size⟩

/-- There is no other turn. -/
theorem Leads.unique {T' T'' : Table V H} {localMove : L} {entropy : Bytes} {t' : Move V H}
    (h : Leads G T T' localMove entropy t) (hturn : Turns G T T'' localMove entropy t') :
    t' = t ∧ T'' = T' := by
  obtain rfl : t = t' := Option.some.inj (h.made.symm.trans hturn.made)
  obtain ⟨coin, result, hcoin, hvalid, hstate⟩ := hturn.valid
  obtain rfl := Option.some.inj ((h.answered coin .nil hcoin).symm.trans hvalid)
  have hsame : T'.state = T''.state := Option.some.inj hstate
  obtain ⟨reply, hreply, -, hmover⟩ := h.received
  obtain ⟨reply', hreply', -, hmover'⟩ := hturn.received
  rw [← hsame] at hreply'
  obtain rfl := Option.some.inj (hreply.symm.trans hreply')
  refine ⟨rfl, ?_⟩
  obtain ⟨state, validator, size, mover, waiter⟩ := T'
  obtain ⟨state', validator', size', mover', waiter'⟩ := T''
  have hvalidator := Option.some.inj (h.validator.symm.trans hturn.validator)
  have hwaiter := Option.some.inj (h.waiter.symm.trans hturn.waiter)
  have hnext := Option.some.inj (hmover.symm.trans hmover')
  have hsize := h.size.trans hturn.size.symm
  simp only at hsame hvalidator hwaiter hnext hsize
  subst hsame hvalidator hwaiter hnext hsize
  rfl

theorem Leads.agrees {T' : Table V H} {localMove : L} {entropy : Bytes} (h : Leads G T T' localMove entropy t)
    (hfits : t.move.length ≤ T.maxMoveSize) : Agrees G T t :=
  agrees_of_answer h.outgoing hfits fun coin evidence hcoin => ⟨_, h.answered coin evidence hcoin⟩

/-- An answer that names a size has all the parts that the referee reads. -/
theorem exists_of_nth_two {result size : Clvm} (h : result.nth 2 = some size) :
    ∃ hash newState extra, result = .pair hash (.pair newState (.pair size extra)) := by
  cases result with
  | atom b => cases h
  | pair hash rest =>
    cases rest with
    | atom b => cases h
    | pair newState rest =>
      cases rest with
      | atom b => cases h
      | pair x extra =>
        cases h
        exact ⟨hash, newState, extra, rfl⟩

/-- Where the answer is as declared, only conditions that the validator itself asks for let the
referee pay a slash. -/
theorem Aligned.slash_extra {sha256 : Bytes → Bytes} {a : RefereeArgs} {result conds : Clvm} {ph : Bytes}
    (h : Aligned t result) (hsize : a.maxMoveSize = bytesOfNat t.maxMoveSize)
    (hinfo : ∀ newState, result.nth 1 = some newState →
      a.infohashB = resultInfohash sha256 t.incomingValidatorHash newState)
    (hpays : slashConditions sha256 a result ph = some conds) :
    ∃ hash newState size extra, result = .pair hash (.pair newState (.pair size extra)) ∧ extra ≠ .nil := by
  rw [slashConditions, if_neg h.ne_nil, h.hash] at hpays
  simp only [Option.bind_eq_bind, Option.bind_some, Clvm.bytes_atom] at hpays
  obtain ⟨newState, hstate, hpays⟩ := Option.bind_eq_some_iff.mp hpays
  obtain ⟨size, hnth, hpays⟩ := Option.bind_eq_some_iff.mp hpays
  have hsame : size = .nat t.maxMoveSize := by
    rcases h.size with heq | ⟨-, hnone⟩
    · exact Option.some.inj (hnth.symm.trans heq)
    · exact absurd (hnth.symm.trans hnone) (by simp)
  obtain ⟨hash, state, extra, rfl⟩ := exists_of_nth_two hnth
  refine ⟨hash, state, size, extra, rfl, ?_⟩
  rintro rfl
  subst hsame
  cases hstate
  simp only [Clvm.nat, Clvm.bytes_atom, Option.bind_some, Clvm.rest_pair] at hpays
  rw [if_pos ⟨(hinfo newState rfl).symm, hsize.symm⟩, if_pos trivial] at hpays
  cases hpays

end ChiaGaming.Play
