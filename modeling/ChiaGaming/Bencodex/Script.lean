import ChiaGaming.Lib.Act
import ChiaGaming.Lib.Bencode
import ChiaGaming.Lib.TextDecoder

namespace ChiaGaming

/-! The decoder of the front end.  The state is the input from the offset on. -/

namespace Bencodex

namespace Script

open Bencode (Value)

inductive BencodexError where
  | unexpectedEnd
  | missingDelimiter (byte : UInt8)
  | invalidByteStringLength
  | missingColon
  | unexpectedEndOfByteString
  | invalidIntegerEncoding
  | cannotParseInteger (raw : Bytes)
  | dictionaryKey
  | unexpectedByte (tag : UInt8)
  | trailingBytes

/-- How a run of the decoder ends without a value; `unfinished` is the model's own. -/
inductive Failure where
  | error (e : BencodexError)
  | unfinished

abbrev Decoder := Act Failure Bytes

/-! `BigInt` of a string: space around the numeral, a sign or the prefix of another base. -/

/-- White space and line ends. -/
def space : List Bytes :=
  [[0x09], [0x0b], [0x0c], [0x20], [0x0a], [0x0d], [0xc2, 0xa0], [0xe1, 0x9a, 0x80], [0xe2, 0x80, 0x80],
    [0xe2, 0x80, 0x81], [0xe2, 0x80, 0x82], [0xe2, 0x80, 0x83], [0xe2, 0x80, 0x84], [0xe2, 0x80, 0x85],
    [0xe2, 0x80, 0x86], [0xe2, 0x80, 0x87], [0xe2, 0x80, 0x88], [0xe2, 0x80, 0x89], [0xe2, 0x80, 0x8a],
    [0xe2, 0x80, 0xa8], [0xe2, 0x80, 0xa9], [0xe2, 0x80, 0xaf], [0xe2, 0x81, 0x9f], [0xe3, 0x80, 0x80],
    [0xef, 0xbb, 0xbf]]

/-- Space is taken off the front as often as the fuel allows; every time a byte goes at least. -/
def trimStart : ℕ → Bytes → Bytes
  | 0, s => s
  | fuel + 1, s =>
    match space.find? (·.isPrefixOf s) with
    | some sp => trimStart fuel (s.drop sp.length)
    | none => s

def trimEnd : ℕ → Bytes → Bytes
  | 0, s => s
  | fuel + 1, s =>
    match space.find? (·.isSuffixOf s) with
    | some sp => trimEnd fuel (s.take (s.length - sp.length))
    | none => s

def trim (s : Bytes) : Bytes := trimEnd s.length (trimStart s.length s)

def digitIn (base : ℕ) (b : UInt8) : Option ℕ :=
  let d := if isDigit b then b.toNat - 48
    else if 97 ≤ b.toNat ∧ b.toNat ≤ 102 then b.toNat - 87
    else if 65 ≤ b.toNat ∧ b.toNat ≤ 70 then b.toNat - 55
    else base
  if d < base then some d else none

def readIn (base : ℕ) (digits : Bytes) : Option ℕ :=
  if digits = [] then none
  else digits.foldlM (fun n b => (digitIn base b).map (base * n + ·)) 0

def bigInt (raw : Bytes) : Option ℤ :=
  match trim raw with
  | [] => some 0
  | b :: rest =>
    if b.toNat = 43 then (readNat rest).map Int.ofNat
    else if b.toNat = 45 then (readNat rest).map fun n => -(n : ℤ)
    else match b.toNat, rest with
      | 48, x :: digits =>
        if x.toNat = 120 ∨ x.toNat = 88 then (readIn 16 digits).map Int.ofNat
        else if x.toNat = 111 ∨ x.toNat = 79 then (readIn 8 digits).map Int.ofNat
        else if x.toNat = 98 ∨ x.toNat = 66 then (readIn 2 digits).map Int.ofNat
        else (readNat (b :: rest)).map Int.ofNat
      | _, _ => (readNat (b :: rest)).map Int.ofNat

/-- `Number` of some digits; none at all are zero. -/
def number (digits : Bytes) : ℕ := numeralValue digits

/-- A number that rounding has not touched. -/
def isSafeInteger (n : ℕ) : Bool := n < 2 ^ 53

/-! The cursor. -/

def peek : Decoder UInt8 := fun s =>
  match s with
  | [] => .error (.error .unexpectedEnd) s
  | b :: _ => .ok b s

def take : Decoder UInt8 := do
  let b ← peek
  modify List.tail
  pure b

def readUntil (byte : UInt8) : Decoder Bytes := fun s =>
  match s.span (· ≠ byte) with
  | (_, []) => .error (.error (.missingDelimiter byte)) []
  | (out, _ :: rest) => .ok out rest

/-- `taken` is the digit that was taken as a tag. -/
def readLength (taken : Bytes) : Decoder ℕ := fun s =>
  match s.span isDigit with
  | (_, []) => .error (.error .missingColon) []
  | (digits, b :: rest) =>
    if b ≠ 58 then .error (.error .invalidByteStringLength) (b :: rest)
    else if 1 < (taken ++ digits).length ∧ [48].isPrefixOf (taken ++ digits) then
      .error (.error .invalidByteStringLength) (b :: rest)
    else if isSafeInteger (number (taken ++ digits)) then .ok (number (taken ++ digits)) rest
    else .error (.error .invalidByteStringLength) rest

def readBytes (taken : Bytes) : Decoder Bytes := do
  let len ← readLength taken
  let input ← get
  if input.length < len then throw (.error .unexpectedEndOfByteString)
  else do
    set (input.drop len)
    pure (input.take len)

/-- The text of an integer. -/
def integerOf (raw : Bytes) : Except BencodexError ℤ :=
  if raw = [] ∨ raw = [45] ∨ [45, 48].isPrefixOf raw ∨ [48].isPrefixOf raw ∧ 1 < raw.length then
    .error .invalidIntegerEncoding
  else match bigInt raw with
    | none => .error (.cannotParseInteger raw)
    | some z => .ok z

def readInteger : Decoder ℤ := do
  let rawBytes ← readUntil 101
  match integerOf (TextDecoder.decode rawBytes) with
  | .error e => throw (.error e)
  | .ok z => pure z

/-- `Map.set`: a text that is there keeps its place; byte strings are objects of their own. -/
def setEntry : List (Value × Value) → Value → Value → List (Value × Value)
  | [], k, v => [(k, v)]
  | (.text t, u) :: items, .text t', v =>
    if t = t' then (.text t, v) :: items else (.text t, u) :: setEntry items (.text t') v
  | e :: items, k, v => e :: setEntry items k v

def readKey : Decoder Value := do
  let keyTag ← take
  if keyTag = 117 then do
    let bytes ← readBytes []
    pure (.text (TextDecoder.decode bytes))
  else if isDigit keyTag then Value.bytes <$> readBytes [keyTag]
  else throw (.error .dictionaryKey)

section Loops

variable (value : Decoder Value)

def readItems : ℕ → List Value → Decoder (List Value)
  | 0, _ => throw .unfinished
  | n + 1, items => do
    if (← peek) ≠ 101 then do
      let item ← value
      readItems n (items ++ [item])
    else do
      modify List.tail
      pure items

def readEntries : ℕ → List (Value × Value) → Decoder (List (Value × Value))
  | 0, _ => throw .unfinished
  | n + 1, items => do
    if (← peek) ≠ 101 then do
      let key ← readKey
      let item ← value
      readEntries n (setEntry items key item)
    else do
      modify List.tail
      pure items

end Loops

def readValue : ℕ → Decoder Value
  | 0 => throw .unfinished
  | fuel + 1 => do
    let tag ← take
    if tag = 110 then pure .null
    else if tag = 116 then pure (.bool true)
    else if tag = 102 then pure (.bool false)
    else if tag = 105 then Value.int <$> readInteger
    else if tag = 117 then do
      let bytes ← readBytes []
      pure (.text (TextDecoder.decode bytes))
    else if isDigit tag then Value.bytes <$> readBytes [tag]
    else if tag = 108 then Value.list <$> readItems (readValue fuel) fuel []
    else if tag = 100 then Value.map <$> readEntries (readValue fuel) fuel []
    else throw (.error (.unexpectedByte tag))

/-- A level of the value takes a byte at least. -/
def decode (bytes : Bytes) : Except Failure Value :=
  match readValue (bytes.length + 1) bytes with
  | .ok v [] => .ok v
  | .ok _ (_ :: _) => .error (.error .trailingBytes)
  | .error e _ => .error e

end Script

end Bencodex

end ChiaGaming
