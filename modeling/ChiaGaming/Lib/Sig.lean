import ChiaGaming.Lib.Clvm
import Mathlib.Data.Multiset.Basic

namespace ChiaGaming

/-! Aggregate signatures, symbolically.  A public key is the aggregate of the private keys behind
it; a signature is the collection of the shares that were added up.  A share can only be made with
its private key, so a party's shares are those it made or was sent. -/

abbrev PrivateKey := ℕ

abbrev PublicKey := Multiset PrivateKey

def publicKey (sk : PrivateKey) : PublicKey := {sk}

/-- The product of a private key and the hash of a message, which starts with a public key. -/
structure Share where
  sk : PrivateKey
  augment : PublicKey
  message : Bytes
  deriving DecidableEq

abbrev Aggsig := Multiset Share

def sign (sk : PrivateKey) (message : Bytes) : Aggsig := {⟨sk, publicKey sk, message⟩}

/-- One share of a signature under an aggregate key. -/
def partialSign (sk : PrivateKey) (aggregate : PublicKey) (message : Bytes) : Aggsig :=
  {⟨sk, aggregate, message⟩}

/-- The one signature that verifies under a key: a share for each of its private keys. -/
def fullSignature (pk : PublicKey) (message : Bytes) : Aggsig :=
  pk.map fun sk => ⟨sk, pk, message⟩

/-- Nothing verifies under the point at infinity. -/
def verify (pk : PublicKey) (message : Bytes) (sig : Aggsig) : Bool :=
  pk ≠ 0 ∧ sig = fullSignature pk message

theorem verify_iff {pk : PublicKey} {message : Bytes} {sig : Aggsig} :
    verify pk message sig ↔ pk ≠ 0 ∧ sig = fullSignature pk message := by
  simp [verify]

@[simp] theorem verify_sign (sk : PrivateKey) (message : Bytes) :
    verify (publicKey sk) message (sign sk message) := by
  simp [verify_iff, sign, publicKey, fullSignature]

/-- Of two keys, each adds its own share. -/
theorem verify_add_partialSign {sk sk' : PrivateKey} {message : Bytes} {sig : Aggsig} :
    verify (publicKey sk + publicKey sk') message
        (partialSign sk (publicKey sk + publicKey sk') message + sig) ↔
      sig = partialSign sk' (publicKey sk + publicKey sk') message := by
  have hne : publicKey sk + publicKey sk' ≠ 0 := by simp [publicKey]
  have hfull : fullSignature (publicKey sk + publicKey sk') message =
      partialSign sk (publicKey sk + publicKey sk') message +
        partialSign sk' (publicKey sk + publicKey sk') message := by
    simp [fullSignature, publicKey, partialSign]
  rw [verify_iff, hfull, add_right_inj]
  exact and_iff_right hne

end ChiaGaming
