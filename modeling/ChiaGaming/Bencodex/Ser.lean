import ChiaGaming.Lib.Numeral
import ChiaGaming.Lib.Serialize

namespace ChiaGaming

/-! The encoder of messages and saved sessions. -/

namespace Bencodex

/-- What a value asks of a serializer.  `int` is an integer of any width but `u8`. -/
inductive Call where
  | bool (v : Bool)
  | u8 (v : UInt8)
  | int (v : ℤ)
  | float
  | str (v : Bytes)
  | bytes (v : Bytes)
  | none
  | some (value : Call)
  | unit
  | unitVariant (variant : Bytes)
  | newtypeStruct (value : Call)
  | newtypeVariant (variant : Bytes) (value : Call)
  | seq (items : List Call)
  | tuple (items : List Call)
  | tupleVariant (variant : Bytes) (items : List Call)
  | map (entries : List (Call × Call))
  | struct (fields : List (Bytes × Call))
  | structVariant (variant : Bytes) (fields : List (Bytes × Call))

inductive SerError where
  | noFloats
  | boolKey
  | floatKey
  | noneKey
  | unitKey
  | newtypeVariantKey
  | seqKey
  | tupleKey
  | tupleVariantKey
  | mapKey
  | structKey
  | structVariantKey

def writeBytestring (bytes : Bytes) : Bytes := decimal bytes.length ++ 58 :: bytes

def writeUnicode (s : Bytes) : Bytes := 117 :: (decimal s.length ++ 58 :: s)

def writeInt (v : ℤ) : Bytes := 105 :: (decimalInt v ++ [101])

/-! Keys. -/

inductive DictKey where
  | bytes (b : Bytes)
  | unicode (b : Bytes)
  deriving DecidableEq

namespace DictKey

def writeTo : DictKey → Bytes
  | bytes b => writeBytestring b
  | unicode b => writeUnicode b

/-- Byte strings before texts. -/
def le : DictKey → DictKey → Bool
  | bytes a, bytes b => bytesLe a b
  | unicode a, unicode b => bytesLe a b
  | bytes _, unicode _ => true
  | unicode _, bytes _ => false

end DictKey

/-- `KeyCapture` -/
def captureKey : Call → Except SerError DictKey
  | .str v => .ok (.unicode v)
  | .bytes v => .ok (.bytes v)
  | .u8 v => .ok (.bytes [v])
  | .int v => .ok (.unicode (decimalInt v))
  | .some value => captureKey value
  | .newtypeStruct value => captureKey value
  | .unitVariant variant => .ok (.unicode variant)
  | .bool _ => .error .boolKey
  | .float => .error .floatKey
  | .none => .error .noneKey
  | .unit => .error .unitKey
  | .newtypeVariant _ _ => .error .newtypeVariantKey
  | .seq _ => .error .seqKey
  | .tuple _ => .error .tupleKey
  | .tupleVariant _ _ => .error .tupleVariantKey
  | .map _ => .error .mapKey
  | .struct _ => .error .structKey
  | .structVariant _ _ => .error .structVariantKey

def sortEntries (entries : List (DictKey × Bytes)) : List (DictKey × Bytes) :=
  entries.insertionSort fun a b => DictKey.le a.1 b.1 = true

def flush (entries : List (DictKey × Bytes)) : Bytes :=
  100 :: ((sortEntries entries).flatMap (fun e => e.1.writeTo ++ e.2) ++ [101])

/-! Sequences. -/

inductive SeqState where
  | empty
  | bytes (bytes : Bytes)
  | list

/-- The bytes that are played back when a sequence turns out not to be one of bytes. -/
def SeqState.prior : SeqState → Bytes
  | .bytes b => b
  | _ => []

def SeqState.endSeq : SeqState → Bytes
  | .empty => [108, 101]
  | .bytes b => writeBytestring b
  | .list => [101]

/-- `U8Probe` -/
def probeU8 : Call → Option UInt8
  | .u8 v => some v
  | _ => none

def switchToList (state : SeqState) : Bytes := 108 :: state.prior.flatMap fun b => writeInt b.toNat

mutual

/-- What is written for a value. -/
def write : Call → Except SerError Bytes
  | .bool v => .ok [if v then 116 else 102]
  | .u8 v => .ok (writeInt v.toNat)
  | .int v => .ok (writeInt v)
  | .float => .error .noFloats
  | .str v => .ok (writeUnicode v)
  | .bytes v => .ok (writeBytestring v)
  | .none => .ok [110]
  | .some value => write value
  | .unit => .ok [110]
  | .unitVariant variant => .ok (writeUnicode variant)
  | .newtypeStruct value => write value
  | .newtypeVariant variant value => do
    let out ← write value
    pure (100 :: (writeUnicode variant ++ out ++ [101]))
  | .seq items => writeSeq .empty items
  | .tuple items => do
    let out ← writeItems items
    pure (108 :: (out ++ [101]))
  | .tupleVariant variant items => do
    let out ← writeItems items
    pure (100 :: (writeUnicode variant ++ 108 :: (out ++ [101]) ++ [101]))
  | .map entries => do
    let entries ← writeEntries entries
    pure (flush entries)
  | .struct fields => do
    let entries ← writeFields fields
    pure (flush entries)
  | .structVariant variant fields => do
    let entries ← writeFields fields
    pure (100 :: (writeUnicode variant ++ flush entries ++ [101]))

def writeItems : List Call → Except SerError Bytes
  | [] => .ok []
  | item :: items => do
    let out ← write item
    let rest ← writeItems items
    pure (out ++ rest)

/-- `ByteSeqSerializer` -/
def writeSeq : SeqState → List Call → Except SerError Bytes
  | state, [] => .ok state.endSeq
  | .list, item :: items => do
    let out ← write item
    let rest ← writeSeq .list items
    pure (out ++ rest)
  | state, item :: items =>
    match probeU8 item with
    | some byte => writeSeq (.bytes (state.prior ++ [byte])) items
    | none => do
      let out ← write item
      let rest ← writeSeq .list items
      pure (switchToList state ++ out ++ rest)

def writeField : Bytes × Call → Except SerError (DictKey × Bytes)
  | (key, value) => do
    let out ← write value
    pure (.unicode key, out)

def writeFields : List (Bytes × Call) → Except SerError (List (DictKey × Bytes))
  | [] => .ok []
  | field :: fields => do
    let entry ← writeField field
    let entries ← writeFields fields
    pure (entry :: entries)

def writeEntry : Call × Call → Except SerError (DictKey × Bytes)
  | (key, value) => do
    let key ← captureKey key
    let out ← write value
    pure (key, out)

def writeEntries : List (Call × Call) → Except SerError (List (DictKey × Bytes))
  | [] => .ok []
  | entry :: entries => do
    let e ← writeEntry entry
    let es ← writeEntries entries
    pure (e :: es)

end

def toVec (value : Call) : Except SerError Bytes := write value

end Bencodex

end ChiaGaming
