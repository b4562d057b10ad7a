import ChiaGaming.Games.Krunk
import ChiaGaming.Lib.Sha256

namespace ChiaGaming.Krunk

/-! Clues of five-letter words never abort. -/

theorem makeGreen_eq_some (word guess : Bytes) (h : word.length ≤ guess.length) :
    ∃ w g green, makeGreen word guess = some (w, g, green) ∧ green.count false = g.length := by
  induction word generalizing guess with
  | nil => exact ⟨[], [], [], rfl, rfl⟩
  | cons x word ih =>
    cases guess with
    | nil => simp at h
    | cons y guess =>
      obtain ⟨w, g, green, he, hc⟩ := ih guess (by simpa using h)
      simp only [makeGreen, he, Option.bind_eq_bind, Option.bind_some]
      split
      · exact ⟨w, g, true :: green, rfl, by simpa using hc⟩
      · exact ⟨x :: w, y :: g, false :: green, rfl, by simpa using hc⟩

theorem elideOne_isSome {word : Bytes} {letter : UInt8} (h : isYellow word letter) :
    (elideOne word letter).isSome := by
  induction word with
  | nil => simp [isYellow] at h
  | cons w word ih =>
    rw [isYellow] at h
    rw [elideOne]
    split at h
    · simp_all
    · simp_all

theorem makeYellow_eq_some (word guess : Bytes) :
    ∃ y, makeYellow word guess = some y ∧ y.length = guess.length := by
  induction guess generalizing word with
  | nil => exact ⟨[], by simp [makeYellow], rfl⟩
  | cons g guess ih =>
    rw [makeYellow]
    split
    · rename_i hy
      obtain ⟨w, hw⟩ := Option.isSome_iff_exists.mp (elideOne_isSome hy)
      obtain ⟨y, he, hl⟩ := ih w
      exact ⟨1 :: y, by simp [hw, he], by simp [hl]⟩
    · obtain ⟨y, he, hl⟩ := ih word
      exact ⟨0 :: y, by simp [he], by simp [hl]⟩

theorem mergeColors_isSome (green : List Bool) (yellow : List ℤ) (val : ℤ)
    (h : green.count false = yellow.length) : (mergeColors green yellow val).isSome := by
  induction green generalizing yellow val with
  | nil => rfl
  | cons c green ih =>
    cases c with
    | true => exact ih yellow _ (by simpa using h)
    | false =>
      cases yellow with
      | nil => simp at h
      | cons y yellow => exact ih yellow _ (by simpa using h)

theorem expandWord_eq {word : Bytes} (h : word.length = 5) : expandWord word = some word := by
  rw [expandWord, if_pos (by omega), List.take_of_length_le (by omega)]

theorem makeClue_isSome {word guess : Bytes} (hw : word.length = 5) (hg : guess.length = 5) :
    (makeClue word guess).isSome := by
  obtain ⟨w, g, green, he, hc⟩ := makeGreen_eq_some word guess (by omega)
  obtain ⟨y, hy, hl⟩ := makeYellow_eq_some w g
  obtain ⟨v, hv⟩ := Option.isSome_iff_exists.mp (mergeColors_isSome green y 0 (hc.trans hl.symm))
  simp [makeClue, expandWord_eq hw, expandWord_eq hg, he, hy, hv]

/-- The counter must reach zero inside the list, and only the empty atom is zero at once. -/
theorem drop_list_eq_some (n : Bytes) (xs : List Clvm) (v : Clvm) :
    drop n (.list xs) = some v ↔
      ∃ k ≤ xs.length, intOfBytes n = k ∧ (k = 0 → n = []) ∧ v = .list (xs.drop k) := by
  induction xs generalizing n with
  | nil =>
    simp only [Clvm.list_nil, drop]
    split
    · rename_i h
      subst h
      simp [intOfBytes, eq_comm]
    · rename_i h
      simp [h]
  | cons x xs ih =>
    simp only [Clvm.list_cons, drop]
    split
    · rename_i h
      subst h
      constructor
      · rintro h
        exact ⟨0, by simp, rfl, fun _ => rfl, by simpa using h.symm⟩
      · rintro ⟨k, -, hk, -, rfl⟩
        obtain rfl : k = 0 := by simpa [intOfBytes, eq_comm] using hk
        rfl
    · rename_i h
      rw [ih]
      constructor
      · rintro ⟨k, hk, hi, -, rfl⟩
        rw [intOfBytes_bytesOfInt] at hi
        exact ⟨k + 1, by simpa using hk, by push_cast; omega, by simp, rfl⟩
      · rintro ⟨k, hk, hi, h0, rfl⟩
        cases k with
        | zero => exact absurd (h0 rfl) h
        | succ k =>
          refine ⟨k, by simpa using hk, ?_, ?_, rfl⟩
          · rw [intOfBytes_bytesOfInt, hi]
            push_cast
            ring
          · rintro rfl
            rw [hi]
            rfl

/-- The element the counter stops at. -/
theorem drop_first_bytes {n : Bytes} {xs : List Bytes} {v x : Clvm} {b : Bytes}
    (hd : drop n (.list (xs.map .atom)) = some v) (hx : v.first = some x)
    (hb : x.bytes = some b) :
    ∃ k : ℕ, intOfBytes n = k ∧ (k = 0 → n = []) ∧ xs[k]? = some b := by
  obtain ⟨k, -, hn, h0, rfl⟩ := (drop_list_eq_some _ _ _).mp hd
  refine ⟨k, hn, h0, ?_⟩
  rw [Clvm.first_list_drop, List.getElem?_map, Option.map_eq_some_iff] at hx
  obtain ⟨y, hy, rfl⟩ := hx
  rwa [← show y = b by simpa using hb]

theorem exists_drop_first_bytes {n : Bytes} {xs : List Bytes} {k : ℕ} {b : Bytes}
    (hn : intOfBytes n = k) (h0 : k = 0 → n = []) (hb : xs[k]? = some b) :
    ∃ v, drop n (.list (xs.map .atom)) = some v ∧ v.first = some (.atom b) := by
  refine ⟨.list ((xs.map .atom).drop k), (drop_list_eq_some _ _ _).mpr ⟨k, ?_, hn, h0, rfl⟩, ?_⟩
  · rw [List.length_map]
    exact (List.getElem?_eq_some_iff.mp hb).1.le
  · rw [Clvm.first_list_drop, List.getElem?_map, hb]
    rfl

/-! Gap evidence.  Next to a word of five letters the bounds of a gap keep five bytes. -/

def IsLetter (b : UInt8) : Prop :=
  (0x41 ≤ b.toNat ∧ b.toNat ≤ 0x5a) ∨ (0x61 ≤ b.toNat ∧ b.toNat ≤ 0x7a)

instance (b : UInt8) : Decidable (IsLetter b) := inferInstanceAs (Decidable ((_ ∧ _) ∨ (_ ∧ _)))

def FiveLetters (w : Bytes) : Prop := w.length = 5 ∧ ∀ b ∈ w, IsLetter b

instance (w : Bytes) : Decidable (FiveLetters w) := inferInstanceAs (Decidable (_ ∧ _))

theorem bytesOfNat_length_five {n : ℕ} (hlow : 256 ^ 4 ≤ n) (hn : n < 128 * 256 ^ 4) :
    (bytesOfNat n).length = 5 := by
  have hlog : 5 ≤ n.log2 + 1 := by
    have : 32 ≤ n.log2 := (Nat.le_log2 (by omega)).mpr (by omega)
    omega
  have hl := digitsOfNat_length 5 (n.log2 + 1) n [] hlog (by omega) (.inr (by omega))
  have hv := digitsOfNat_spec (n.log2 + 1) n [] (lt_pow_log2 n)
  rw [bytesOfNat]
  generalize digitsOfNat (n.log2 + 1) n [] = ds at hl hv
  cases ds with
  | nil => simp at hl
  | cons x xs =>
    have hx : xs.length = 4 := by simpa using hl
    rw [natOfBytes_cons, hx] at hv
    simp only [List.length_nil, pow_zero, mul_one, natOfBytes_nil, add_zero] at hv
    rw [padSign, if_pos (by omega)]
    simpa using hx

theorem FiveLetters.bounds {w : Bytes} (h : FiveLetters w) :
    ∃ n : ℕ, intOfBytes w = n ∧ 256 ^ 4 < n ∧ n + 1 < 128 * 256 ^ 4 := by
  obtain ⟨hl, hw⟩ := h
  cases w with
  | nil => simp at hl
  | cons x xs =>
    have hx : IsLetter x := hw x (by simp)
    have hlen : xs.length = 4 := by simpa using hl
    have hr := natOfBytes_lt xs
    rw [hlen] at hr
    refine ⟨natOfBytes (x :: xs), ?_, ?_⟩
    · rw [intOfBytes, if_pos]
      rcases hx with hx | hx <;> omega
    · rw [natOfBytes_cons, hlen]
      rcases hx with hx | hx <;> omega

theorem FiveLetters.length_succ {w : Bytes} (h : FiveLetters w) :
    (bytesOfInt (intOfBytes w + 1)).length = 5 := by
  obtain ⟨n, hn, hlow, hhigh⟩ := h.bounds
  rw [hn, show (n : ℤ) + 1 = ((n + 1 : ℕ) : ℤ) by push_cast; ring, bytesOfInt_natCast]
  exact bytesOfNat_length_five (by omega) hhigh

theorem FiveLetters.length_pred {w : Bytes} (h : FiveLetters w) :
    (bytesOfInt (intOfBytes w - 1)).length = 5 := by
  obtain ⟨n, hn, hlow, hhigh⟩ := h.bounds
  rw [hn, show (n : ℤ) - 1 = ((n - 1 : ℕ) : ℤ) by omega, bytesOfInt_natCast]
  exact bytesOfNat_length_five (by omega) (by omega)

inductive IsDictTree : Clvm → Prop
  | leaf (sig : Bytes) : IsDictTree (.atom sig)
  | node {left right : Clvm} {word : Bytes} (hl : IsDictTree left) (hr : IsDictTree right)
      (hw : FiveLetters word) : IsDictTree (.list [left, right, .atom word])

theorem buildSignedDictTreeInner_isDictTree (fuel : ℕ) (words sigs : List Bytes) (gapOffset : ℕ)
    (h : ∀ w ∈ words, FiveLetters w) :
    IsDictTree (buildSignedDictTreeInner fuel words sigs gapOffset) := by
  induction fuel generalizing words gapOffset with
  | zero => exact .leaf _
  | succ fuel ih =>
    rw [buildSignedDictTreeInner]
    split
    · exact .leaf _
    · rename_i hne
      have hmid : words.length / 2 < words.length := by
        have := List.length_pos_iff.mpr hne
        omega
      apply IsDictTree.node
      · exact ih _ _ fun w hw => h w (List.mem_of_mem_take hw)
      · exact ih _ _ fun w hw => h w (List.mem_of_mem_drop hw)
      · apply h
        rw [List.getD_eq_getElem?_getD, List.getElem?_eq_getElem hmid]
        exact List.getElem_mem hmid

/-- A lookup finds the word or bounds of five bytes around it. -/
theorem dictLookup_spec {tree : Clvm} (ht : IsDictTree tree) (left right word : Bytes)
    (hl : left.length = 5) (hr : right.length = 5) :
    dictLookup left right word tree = some .nil ∨
      ∃ l r sig, dictLookup left right word tree = some (.list [.atom l, .atom r, sig]) ∧
        l.length = 5 ∧ r.length = 5 := by
  induction ht generalizing left right with
  | leaf sig => exact .inr ⟨left, right, .atom sig, rfl, hl, hr⟩
  | node _ _ hw ihl ihr =>
    simp only [Clvm.list_cons, Clvm.list_nil, dictLookup]
    split
    · exact .inl rfl
    · split
      · exact ihr _ _ hw.length_succ hr
      · exact ihl _ _ hl hw.length_pred

/-- The state from which Alice gives a clue or reveals.  Both lists have the latest first, and
the latest guess has no clue yet. -/
structure ClueState where
  dictPubkey : Bytes
  baseUnit : ℕ
  bobGuesses : List Bytes
  aliceClues : List Bytes
  aliceCommit : Bytes
  clueHash : Bytes
  guess_length : ∀ g ∈ bobGuesses, g.length = 5
  clues_length : aliceClues.length + 1 = bobGuesses.length
  guesses_le : bobGuesses.length ≤ 5

def ClueState.toClvm (s : ClueState) : Clvm :=
  .list [.atom s.dictPubkey, .nat s.baseUnit, .list (s.bobGuesses.map .atom),
    .list (s.aliceClues.map .atom), .atom s.aliceCommit, .atom s.clueHash]

def revealedWord (move : Bytes) : Bytes := (move.take 21).drop 16

/-- The payout table of a finished game. -/
def payout (s : ClueState) (word : Bytes) : ℕ :=
  if s.bobGuesses.head? = some word then
    s.baseUnit * [100, 100, 20, 5, 1].getD (s.bobGuesses.length - 1) 0
  else 0

section Faults

variable (sha256 : Bytes → Bytes) (s : ClueState) (m : MoveSolution)

def OpensCommitment : Prop := s.aliceCommit = sha256 (m.newMove.take 16 ++ revealedWord m.newMove)

def Premature : Prop :=
  s.bobGuesses.head? ≠ some (revealedWord m.newMove) ∧ s.bobGuesses.length < 5

def WrongShare : Prop := m.newMoverShare ≠ bytesOfNat (payout s (revealedWord m.newMove))

def WrongClue (i : ℕ) : Prop :=
  ∃ clue guess, s.aliceClues[i]? = some clue ∧ s.bobGuesses[i + 1]? = some guess ∧
    (makeClue (revealedWord m.newMove) guess).map bytesOfInt ≠ some clue

/-- A reveal that cheats in one of the five ways. -/
def Fault : Prop :=
  m.newMove.length ≠ 21 ∨ ¬ OpensCommitment sha256 s m ∨ Premature s m ∨ WrongShare s m ∨
    ∃ i, WrongClue s m i

def InDictionary (dictTree : Clvm) : Prop :=
  dictLookup minWord maxWord (revealedWord m.newMove) dictTree = some .nil

/-- Nil and the evidence Bob's handler offers against the move. -/
def offeredEvidence (dictTree : Clvm) : List Clvm :=
  .nil :: (((krunkBobHandlerClue dictTree s.toClvm m.newMove).bind
    fun t => t.evidence.properList).getD [])

def Slashable (guessHash : Bytes) (dictTree : Clvm) (coin : RefereeArgs) : Prop :=
  ∃ ev ∈ offeredEvidence s m dictTree,
    clue sha256 guessHash (coin.afterMove m) s.toClvm ev = some .nil

instance : Decidable (OpensCommitment sha256 s m) := inferInstanceAs (Decidable (_ = _))
instance : Decidable (Premature s m) := inferInstanceAs (Decidable (_ ≠ _ ∧ _ < _))
instance : Decidable (WrongShare s m) := inferInstanceAs (Decidable (_ ≠ _))
instance (guessHash : Bytes) (dictTree : Clvm) (coin : RefereeArgs) :
    Decidable (Slashable sha256 s m guessHash dictTree coin) :=
  inferInstanceAs (Decidable (∃ ev ∈ _, _))

end Faults

section Reveal

variable {sha256 : Bytes → Bytes} {guessHash : Bytes} {s : ClueState} {m : MoveSolution}
  {coin : RefereeArgs}

theorem substr_salt (h : m.newMove.length = 21) :
    substr m.newMove 0 16 = some (m.newMove.take 16) := by
  simp [substr, h]

theorem substr_word (h : m.newMove.length = 21) :
    substr m.newMove 16 21 = some (revealedWord m.newMove) := by
  simp [substr, revealedWord, h]

theorem revealedWord_length (h : m.newMove.length = 21) : (revealedWord m.newMove).length = 5 := by
  simp [revealedWord, h]

theorem krunkPayoutShare_eq (base n : ℕ) (h0 : 0 < n) (h5 : n ≤ 5) :
    krunkPayoutShare (bytesOfNat base) n =
      some (bytesOfNat (base * [100, 100, 20, 5, 1].getD (n - 1) 0)) := by
  have hmul : ∀ k : ℕ, bytesOfInt ((base : ℤ) * (k : ℤ)) = bytesOfNat (base * k) := by
    intro k
    rw [← bytesOfInt_natCast]
    push_cast
    rfl
  have hstep : ∀ k : ℕ, bytesOfInt (intOfBytes (bytesOfNat base) * k) = bytesOfNat (base * k) := by
    intro k
    rw [intOfBytes_bytesOfNat, hmul]
  interval_cases n
  · exact congrArg some (hstep 100)
  · exact congrArg some (hstep 100)
  · exact congrArg some (hstep 20)
  · exact congrArg some (hstep 5)
  · exact congrArg some (hstep 1)

theorem ClueState.exists_latest (s : ClueState) :
    ∃ g gs, s.bobGuesses = g :: gs := by
  have := s.clues_length
  cases h : s.bobGuesses with
  | nil => simp [h] at this
  | cons g gs => exact ⟨g, gs, rfl⟩

/-- Before the end of the game the share is a raise, afterwards it is the table's. -/
theorem revealShare_eq (s : ClueState) (m : MoveSolution) :
    revealShare (.nat s.baseUnit) (.list (s.bobGuesses.map .atom)) (revealedWord m.newMove) =
      if Premature s m then none
      else some (bytesOfNat (payout s (revealedWord m.newMove))) := by
  obtain ⟨g, gs, hg⟩ := s.exists_latest
  have h5 := s.guesses_le
  rw [hg] at h5
  have hlen : gs.length + 1 ≤ 5 := by simpa using h5
  simp only [revealShare, payout, Premature, hg, List.map_cons, Clvm.list_cons, Clvm.first_pair,
    Clvm.bytes_atom, Clvm.nat, Clvm.len, Clvm.len_list, List.length_map, List.head?_cons,
    List.length_cons, Option.some.injEq, Option.map_some, Option.bind_eq_bind, Option.bind_some,
    Nat.add_sub_cancel]
  by_cases hw : g = revealedWord m.newMove
  · rw [if_pos hw, if_neg (by simp [hw]), if_pos hw]
    exact krunkPayoutShare_eq s.baseUnit (gs.length + 1) (by omega) hlen
  · rw [if_neg hw]
    by_cases h4 : gs.length + 1 = 5
    · rw [if_pos h4, if_neg (by omega), if_neg hw]
      rfl
    · rw [if_neg h4, if_pos ⟨by simpa using hw, by omega⟩]

/-- A reveal of the right length is judged by its commitment, then by its share. -/
theorem reveal_eq (coin : RefereeArgs) (hlen : m.newMove.length = 21) :
    reveal sha256 (coin.afterMove m) s.toClvm =
      if ¬ OpensCommitment sha256 s m then some .nil
      else (revealShare (.nat s.baseUnit) (.list (s.bobGuesses.map .atom))
        (revealedWord m.newMove)).bind fun share =>
          if m.newMoverShare ≠ share then some .nil else some (.list [.nil, .nil, .nil]) := by
  simp only [reveal, afterMove_move, afterMove_moverShare, hlen, substr_salt hlen, substr_word hlen,
    ClueState.toClvm, Clvm.nth, Clvm.list_cons, Clvm.first_pair, Clvm.rest_pair,
    Clvm.bytes_atom, Option.bind_eq_bind, Option.bind_some, ne_eq, not_true_eq_false,
    if_false]
  rfl

theorem reveal_eq_nil_iff (coin : RefereeArgs) :
    reveal sha256 (coin.afterMove m) s.toClvm = some .nil ↔
      m.newMove.length ≠ 21 ∨ ¬ OpensCommitment sha256 s m ∨ (¬ Premature s m ∧ WrongShare s m) := by
  by_cases hlen : m.newMove.length = 21
  · rw [reveal_eq coin hlen, revealShare_eq]
    by_cases ho : OpensCommitment sha256 s m
    · by_cases hp : Premature s m
      · simp [hlen, ho, hp]
      · by_cases hs : m.newMoverShare = bytesOfNat (payout s (revealedWord m.newMove))
        · simp [hlen, ho, hp, hs, WrongShare]
        · simp [hlen, ho, hp, hs, WrongShare]
    · simp [ho]
  · have h : reveal sha256 (coin.afterMove m) s.toClvm = some .nil := by
      rw [reveal]
      exact if_pos hlen
    simp [h, hlen]

/-- A one-byte index reaches every clue but the latest. -/
theorem revealWrongClue_eq_nil_iff (hlen : m.newMove.length = 21) {ev : Bytes}
    (hev : ev.length = 1) :
    revealWrongClue (coin.afterMove m) s.toClvm ev = some .nil ↔
      ∃ i : ℕ, 1 ≤ i ∧ intOfBytes ev = i ∧ WrongClue s m i := by
  have h : revealWrongClue (coin.afterMove m) s.toClvm ev =
      if intOfBytes ev < s.aliceClues.length then
        (drop (bytesOfInt (intOfBytes ev + 1)) (.list (s.bobGuesses.map .atom))).bind fun gs =>
          gs.first.bind fun g => g.bytes.bind fun guess =>
            (drop ev (.list (s.aliceClues.map .atom))).bind fun cs =>
              cs.first.bind fun c => c.bytes.bind fun clue =>
                (makeClue (revealedWord m.newMove) guess).bind fun z =>
                  if bytesOfInt z ≠ clue then some .nil else none
      else none := by
    simp only [revealWrongClue, afterMove_move, substr_word hlen,
      ClueState.toClvm, Clvm.nth, Clvm.list_cons, Clvm.first_pair, Clvm.rest_pair,
      Option.bind_eq_bind, Option.bind_some, Clvm.len_list, List.length_map]
  rw [h]
  constructor
  · intro he
    split at he
    · simp only [Option.bind_eq_some_iff] at he
      obtain ⟨gs, hgs, g, hg, guess, hguess, cs, hcs, c, hc, clue, hclue, z, hz, hne⟩ := he
      obtain ⟨j, hj, -, hgj⟩ := drop_first_bytes hgs hg hguess
      obtain ⟨i, hi, h0, hci⟩ := drop_first_bytes hcs hc hclue
      rw [intOfBytes_bytesOfInt, hi] at hj
      obtain rfl : j = i + 1 := by omega
      have hpos : 1 ≤ i := by
        by_contra hi0
        have := h0 (by omega)
        simp [this] at hev
      refine ⟨i, hpos, hi, clue, guess, hci, hgj, ?_⟩
      rw [hz, Option.map_some]
      split at hne
      · simpa using ‹bytesOfInt z ≠ clue›
      · simp at hne
    · simp at he
  · rintro ⟨i, hi, hiv, c, g, hc, hg, hne⟩
    have hic : i < s.aliceClues.length := (List.getElem?_eq_some_iff.mp hc).1
    have hgl : g.length = 5 := s.guess_length g (List.mem_of_getElem? hg)
    obtain ⟨z, hz⟩ := Option.isSome_iff_exists.mp (makeClue_isSome (revealedWord_length hlen) hgl)
    have hsucc : intOfBytes (bytesOfInt (intOfBytes ev + 1)) = (i + 1 : ℕ) := by
      rw [intOfBytes_bytesOfInt, hiv]
      rfl
    obtain ⟨gs, hgs, hgf⟩ := exists_drop_first_bytes hsucc (by simp) hg
    obtain ⟨cs, hcs, hcf⟩ := exists_drop_first_bytes hiv (by omega) hc
    rw [hz, Option.map_some] at hne
    rw [if_pos (by omega), hgs, Option.bind_some, hgf, Option.bind_some, Clvm.bytes_atom,
      Option.bind_some, hcs, Option.bind_some, hcf, Option.bind_some, Clvm.bytes_atom,
      Option.bind_some, hz, Option.bind_some, if_pos (by simpa using hne)]

theorem revealGap_ne_nil (a : RefereeArgs) (state : Clvm) (ev : Bytes) :
    revealGap a state ev ≠ some .nil := by
  intro h
  simp only [revealGap, Option.bind_eq_bind, Option.bind_eq_some_iff] at h
  obtain ⟨_, -, _, -, _, -, h⟩ := h
  split at h
  · rw [Option.bind_eq_some_iff] at h
    obtain ⟨_, -, h⟩ := h
    simp at h
  · simp at h

/-- Which evidence convicts: gap evidence never does, an index convicts a wrong clue other than
the latest, and everything else is judged like nil. -/
theorem clue_eq_nil_iff (hlong : 1 < m.newMove.length) (evidence : Clvm) :
    clue sha256 guessHash (coin.afterMove m) s.toClvm evidence = some .nil ↔
      ∃ ev, evidence = .atom ev ∧ ev.length ≠ 10 ∧
        if ev.length = 1 then revealWrongClue (coin.afterMove m) s.toClvm ev = some .nil
        else reveal sha256 (coin.afterMove m) s.toClvm = some .nil := by
  rw [clue, afterMove_move, if_neg (by omega)]
  cases evidence with
  | pair f r => simp
  | atom ev =>
    simp only [Clvm.bytes_atom, Option.bind_eq_bind, Option.bind_some, Clvm.atom.injEq,
      exists_eq_left']
    split
    · rename_i h10
      simp [h10, revealGap_ne_nil]
    · rename_i h10
      simp only [h10, ne_eq, not_false_eq_true, true_and]
      split <;> rfl

theorem gapEvidence_list {l r : Bytes} (sig : Clvm) :
    gapEvidence (.list [.atom l, .atom r, sig]) = some (.list [.atom (l ++ r)]) := rfl

/-- Bob's handler offers the indices for a word of the dictionary, else one signed gap. -/
theorem offeredEvidence_cases {tree : Clvm} (ht : IsDictTree tree)
    (hlen : m.newMove.length = 21) :
    (InDictionary m tree ∧
      offeredEvidence s m tree = [.nil, .nat 0, .nat 1, .nat 2, .nat 3, .nat 4]) ∨
    (¬ InDictionary m tree ∧
      ∃ gap : Bytes, gap.length = 10 ∧ offeredEvidence s m tree = [.nil, .atom gap]) := by
  obtain ⟨g, gs, hg⟩ := s.exists_latest
  have hgl : g.length = 5 := s.guess_length g (by simp [hg])
  obtain ⟨z, hz⟩ := Option.isSome_iff_exists.mp (makeClue_isSome (revealedWord_length hlen) hgl)
  have hguess : (s.toClvm.nth 2).bind (fun v => v.first.bind Clvm.bytes) = some g := by
    simp [ClueState.toClvm, Clvm.nth, hg]
  have hrun : krunkBobHandlerClue tree s.toClvm m.newMove =
      (dictLookup minWord maxWord (revealedWord m.newMove) tree).bind fun lookup =>
        if lookup.truthy then (gapEvidence lookup).bind fun ev =>
          some ⟨.list [.atom (revealedWord m.newMove), expandClue z], ev, none⟩
        else some ⟨.list [.atom (revealedWord m.newMove), expandClue z], krunkEvidenceIndices, none⟩ := by
    rw [krunkBobHandlerClue, if_neg (by omega)]
    simp only [substr_word hlen, Option.bind_eq_bind, Option.bind_some]
    simp only [ClueState.toClvm, Clvm.nth, Clvm.list_cons, Clvm.first_pair, Clvm.rest_pair, hg,
      List.map_cons, Clvm.bytes_atom, Option.bind_some, hz]
  rcases dictLookup_spec ht minWord maxWord (revealedWord m.newMove) rfl rfl with h |
    ⟨l, r, sig, h, hl, hr⟩
  · left
    refine ⟨h, ?_⟩
    rw [offeredEvidence, hrun, h]
    rfl
  · right
    refine ⟨by simp [InDictionary, h], l ++ r, by simp [hl, hr], ?_⟩
    rw [offeredEvidence, hrun, h]
    rfl

theorem slashable_iff {tree : Clvm} (ht : IsDictTree tree) (hlong : 1 < m.newMove.length) :
    Slashable sha256 s m guessHash tree coin ↔
      m.newMove.length ≠ 21 ∨ ¬ OpensCommitment sha256 s m ∨
        (¬ Premature s m ∧ WrongShare s m) ∨
        (InDictionary m tree ∧ ∃ i ≥ 1, WrongClue s m i) := by
  have hnil : clue sha256 guessHash (coin.afterMove m) s.toClvm .nil = some .nil ↔
      m.newMove.length ≠ 21 ∨ ¬ OpensCommitment sha256 s m ∨
        (¬ Premature s m ∧ WrongShare s m) := by
    rw [clue_eq_nil_iff hlong, ← reveal_eq_nil_iff coin]
    simp
  by_cases hlen : m.newMove.length = 21
  · constructor
    · rintro ⟨ev, hev, hclue⟩
      obtain ⟨b, rfl, h10, hb⟩ := (clue_eq_nil_iff hlong ev).mp hclue
      split at hb
      · rename_i h1
        obtain ⟨i, hi, -, hw⟩ := (revealWrongClue_eq_nil_iff hlen h1).mp hb
        rcases offeredEvidence_cases (s := s) ht hlen with ⟨hd, -⟩ | ⟨-, gap, hgap, he⟩
        · exact .inr (.inr (.inr ⟨hd, i, hi, hw⟩))
        · rw [he] at hev
          simp only [List.mem_cons, Clvm.atom.injEq, List.not_mem_nil, or_false] at hev
          rcases hev with rfl | rfl
          · simp at h1
          · omega
      · rcases (reveal_eq_nil_iff coin).mp hb with h | h | h
        · exact .inl h
        · exact .inr (.inl h)
        · exact .inr (.inr (.inl h))
    · rintro (h | h | h | ⟨hd, i, hi, hw⟩)
      · exact absurd hlen h
      · exact ⟨.nil, by simp [offeredEvidence], hnil.mpr (.inr (.inl h))⟩
      · exact ⟨.nil, by simp [offeredEvidence], hnil.mpr (.inr (.inr h))⟩
      · have hi4 : i < 4 := by
          obtain ⟨c, g, hc, -⟩ := hw
          have hic := (List.getElem?_eq_some_iff.mp hc).1
          have := s.clues_length
          have := s.guesses_le
          omega
        have hindex : (bytesOfNat i).length = 1 := by
          interval_cases i <;> rfl
        refine ⟨.nat i, ?_, ?_⟩
        · rcases offeredEvidence_cases (s := s) ht hlen with ⟨-, he⟩ | ⟨hnd, -⟩
          · rw [he]
            interval_cases i <;> simp
          · exact absurd hd hnd
        · rw [clue_eq_nil_iff hlong]
          refine ⟨bytesOfNat i, rfl, by omega, ?_⟩
          rw [if_pos hindex, revealWrongClue_eq_nil_iff hlen hindex]
          exact ⟨i, hi, intOfBytes_bytesOfNat i, hw⟩
  · constructor
    · intro _
      exact .inl hlen
    · intro _
      exact ⟨.nil, by simp [offeredEvidence], hnil.mpr (.inl hlen)⟩

theorem clue_ne_nil_of_not_fault (hlong : 1 < m.newMove.length) (h : ¬ Fault sha256 s m)
    (ev : Clvm) : clue sha256 guessHash (coin.afterMove m) s.toClvm ev ≠ some .nil := by
  simp only [Fault, not_or, not_not] at h
  obtain ⟨hlen, ho, -, hs, hw⟩ := h
  intro hclue
  obtain ⟨b, -, -, hb⟩ := (clue_eq_nil_iff hlong ev).mp hclue
  split at hb
  · obtain ⟨i, -, -, hi⟩ := (revealWrongClue_eq_nil_iff hlen ‹_›).mp hb
    exact hw ⟨i, hi⟩
  · rcases (reveal_eq_nil_iff coin).mp hb with h | h | h
    · exact h hlen
    · exact h ho
    · exact hs h.2

/-- The reveal contract, both sides, holds of a move longer than a byte exactly if the move has
the wrong length or opens another commitment, or the game is over and either the share is wrong
or every clue is right, or the word is in the dictionary and a clue before the latest is wrong. -/
theorem reveal_contract_iff (words sigs : List Bytes) (hwords : ∀ w ∈ words, FiveLetters w)
    (guessHash : Bytes) (coin : RefereeArgs) (s : ClueState) (m : MoveSolution)
    (hlong : 1 < m.newMove.length) :
    ((Fault sha256 s m → Slashable sha256 s m guessHash (buildSignedDictTree words sigs) coin) ∧
      (¬ Fault sha256 s m → ∀ ev,
        clue sha256 guessHash (coin.afterMove m) s.toClvm ev ≠ some .nil)) ↔
    (m.newMove.length ≠ 21 ∨ ¬ OpensCommitment sha256 s m ∨
      (¬ Premature s m ∧ (WrongShare s m ∨ ∀ i, ¬ WrongClue s m i)) ∨
      (InDictionary m (buildSignedDictTree words sigs) ∧ ∃ i ≥ 1, WrongClue s m i)) := by
  have ht : IsDictTree (buildSignedDictTree words sigs) :=
    buildSignedDictTreeInner_isDictTree words.length words sigs 0 hwords
  rw [slashable_iff ht hlong, and_iff_left (clue_ne_nil_of_not_fault hlong)]
  simp only [Fault]
  constructor
  · intro h
    by_cases hf : m.newMove.length ≠ 21 ∨ ¬ OpensCommitment sha256 s m ∨ Premature s m ∨
        WrongShare s m ∨ ∃ i, WrongClue s m i
    · rcases h hf with h | h | h | h
      · exact .inl h
      · exact .inr (.inl h)
      · exact .inr (.inr (.inl ⟨h.1, .inl h.2⟩))
      · exact .inr (.inr (.inr h))
    · simp only [not_or, not_exists] at hf
      exact .inr (.inr (.inl ⟨hf.2.2.1, .inr hf.2.2.2.2⟩))
  · rintro (h | h | ⟨hp, h | h⟩ | h) hf
    · exact .inl h
    · exact .inr (.inl h)
    · exact .inr (.inr (.inl ⟨hp, h⟩))
    · rcases hf with hf | hf | hf | hf | ⟨i, hi⟩
      · exact .inl hf
      · exact .inr (.inl hf)
      · exact absurd hf hp
      · exact .inr (.inr (.inl ⟨hp, hf⟩))
      · exact absurd hi (h i)
    · exact .inr (.inr (.inr h))

end Reveal

/-! A finished game: SLATE then CRANE, the word is CRANE and the clue for SLATE says that no
letter of it is in the word. -/

def crane : Bytes := [67, 82, 65, 78, 69]
def slate : Bytes := [83, 76, 65, 84, 69]
def salt : Bytes := List.replicate 16 0x33

def misledState : ClueState where
  dictPubkey := List.replicate 48 1
  baseUnit := 1
  bobGuesses := [crane, slate]
  aliceClues := [bytesOfInt (-128)]
  aliceCommit := Sha256.sha256 (salt ++ crane)
  clueHash := List.replicate 32 2
  guess_length := by decide
  clues_length := rfl
  guesses_le := by decide

/-- The same word revealed against the guess SLATE alone. -/
def earlyState : ClueState where
  dictPubkey := List.replicate 48 1
  baseUnit := 1
  bobGuesses := [slate]
  aliceClues := []
  aliceCommit := Sha256.sha256 (salt ++ crane)
  clueHash := List.replicate 32 2
  guess_length := by decide
  clues_length := rfl
  guesses_le := by decide

def clueCoin (s : ClueState) : RefereeArgs where
  moverPubkey := List.replicate 48 3
  waiterPubkey := List.replicate 48 4
  timeout := bytesOfNat 15
  amount := bytesOfNat 100
  modHash := List.replicate 32 5
  nonce := bytesOfNat 0
  move := slate
  maxMoveSize := bytesOfNat 21
  infohashB := infohash Sha256.sha256 s.clueHash s.toClvm
  moverShare := []
  infohashA := List.replicate 32 6

def revealMove (share : ℕ) : MoveSolution where
  newMove := salt ++ crane
  infohashC := []
  newMoverShare := bytesOfNat share
  newMaxMoveSize := []

def twoWords : Clvm := buildSignedDictTree [crane, slate] [[1], [2], [3]]

/-- The contract met: the same reveal with the wrong share is slashed. -/
theorem reveal_contract_misled_share :
    (Fault Sha256.sha256 misledState (revealMove 0) →
      Slashable Sha256.sha256 misledState (revealMove 0) [7] twoWords (clueCoin misledState)) ∧
    (¬ Fault Sha256.sha256 misledState (revealMove 0) → ∀ ev,
      clue Sha256.sha256 [7] ((clueCoin misledState).afterMove (revealMove 0))
        misledState.toClvm ev ≠ some .nil) :=
  (reveal_contract_iff [crane, slate] [[1], [2], [3]] (by decide +kernel) [7] (clueCoin misledState)
    misledState (revealMove 0) (by decide)).mpr
    (.inr (.inr (.inl ⟨by decide, .inl (by decide)⟩)))

/-- Alice lied in her latest clue, or reveals before the game is over, and no evidence of Bob's
handler convicts her. -/
theorem reveal_escapes_slash :
    ((clueCoin misledState).AcceptsMove (revealMove 100) ∧
      Fault Sha256.sha256 misledState (revealMove 100) ∧
      ¬ Slashable Sha256.sha256 misledState (revealMove 100) [7] twoWords (clueCoin misledState)) ∧
    ((clueCoin earlyState).AcceptsMove (revealMove 0) ∧
      Fault Sha256.sha256 earlyState (revealMove 0) ∧
      ¬ Slashable Sha256.sha256 earlyState (revealMove 0) [7] twoWords (clueCoin earlyState)) := by
  refine ⟨⟨by decide +kernel, ?_, by decide +kernel⟩, by decide +kernel, ?_, by decide +kernel⟩
  · exact .inr (.inr (.inr (.inr ⟨0, bytesOfInt (-128), slate, rfl, rfl, by decide⟩)))
  · exact .inr (.inr (.inl (by decide)))

end ChiaGaming.Krunk
