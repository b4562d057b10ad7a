import ChiaGaming.Puzzle.Referee

namespace ChiaGaming

def condRem : Clvm := .nat 1

/-- The curried arguments of an unroll coin. -/
structure UnrollArgs where
  sharedPubkey : Bytes
  oldSequenceNumber : Bytes
  defaultConditionsHash : Bytes
  deriving DecidableEq, Repr

section Unroll

variable (sha256 : Bytes → Bytes)

def UnrollArgs.puzzleHash (modHash : Bytes) (a : UnrollArgs) : Bytes :=
  curryHashes sha256 modHash [shatree sha256 (.atom a.sharedPubkey),
    shatree sha256 (.atom a.oldSequenceNumber), shatree sha256 (.atom a.defaultConditionsHash)]

/-- A newer sequence number of the other parity. -/
def Supersedes (new old : ℤ) : Prop := old < new ∧ Int.land 1 (Int.xor new old) ≠ 0

instance (new old : ℤ) : Decidable (Supersedes new old) := inferInstanceAs (Decidable (_ ∧ _))

/-- `state_channel_unrolling`: the conditions the coin commits to, or newer ones that both players
signed. -/
def stateChannelUnrolling (a : UnrollArgs) (conditions : Clvm) : Option Clvm :=
  let conditionsHash := shatree sha256 conditions
  if a.defaultConditionsHash = conditionsHash then some conditions
  else do
    let newSequenceNumber ← (← (← (← conditions.first).rest).first).bytes
    if Supersedes (intOfBytes newSequenceNumber) (intOfBytes a.oldSequenceNumber) then
      some (.pair (.list [condAggSigUnsafe, .atom a.sharedPubkey, .atom conditionsHash]) conditions)
    else none

end Unroll

theorem supersedes_natCast (new old : ℕ) :
    Supersedes new old ↔ old < new ∧ new % 2 ≠ old % 2 := by
  have hbits : Int.land 1 (Int.xor new old) = ((1 &&& (new ^^^ old) : ℕ) : ℤ) := rfl
  have hparity : 1 &&& (new ^^^ old) = (new + old) % 2 := by
    rw [Nat.and_comm, Nat.and_one_is_mod]
    exact Nat.xor_mod_two_eq
  rw [Supersedes, hbits, hparity]
  norm_cast
  omega

variable {sha256 : Bytes → Bytes} {a : UnrollArgs} {conditions : Clvm}

theorem UnrollArgs.puzzleHash_injective (hh : CollisionFree sha256) {modHash : Bytes} :
    Function.Injective (UnrollArgs.puzzleHash sha256 modHash) := by
  intro a b h
  obtain ⟨-, hargs⟩ := curryHashes_injective hh h
  rw [List.cons.injEq, List.cons.injEq, List.cons.injEq] at hargs
  obtain ⟨hkey, hnumber, hhash, -⟩ := hargs
  have hkey := Clvm.atom.inj (hh.shatree_injective hkey)
  have hnumber := Clvm.atom.inj (hh.shatree_injective hnumber)
  have hhash := Clvm.atom.inj (hh.shatree_injective hhash)
  cases a
  cases b
  simp_all

theorem stateChannelUnrolling_timeout (h : a.defaultConditionsHash = shatree sha256 conditions) :
    stateChannelUnrolling sha256 a conditions = some conditions := by
  simp [stateChannelUnrolling, h]

/-- A preemption names the number that it supersedes the coin with. -/
theorem stateChannelUnrolling_preempt {rem : Clvm} {number : Bytes} {rest tail : Clvm}
    (hne : a.defaultConditionsHash ≠
      shatree sha256 (.pair (.pair rem (.pair (.atom number) tail)) rest))
    (h : Supersedes (intOfBytes number) (intOfBytes a.oldSequenceNumber)) :
    stateChannelUnrolling sha256 a (.pair (.pair rem (.pair (.atom number) tail)) rest) =
      some (.pair (.list [condAggSigUnsafe, .atom a.sharedPubkey,
        .atom (shatree sha256 (.pair (.pair rem (.pair (.atom number) tail)) rest))])
        (.pair (.pair rem (.pair (.atom number) tail)) rest)) := by
  simp [stateChannelUnrolling, hne, h]

end ChiaGaming
