import ChiaGaming.Lib.Act
import ChiaGaming.Lib.Bencode
import ChiaGaming.Lib.Utf8

namespace ChiaGaming

/-! The decoder of messages and saved sessions: a cursor over the input that hands what it reads to a
visitor. -/

namespace Bencodex

inductive InvalidData where
  | trailingBytes (count : ℕ)
  | expectedTerminator (got : UInt8)
  | unterminatedInteger
  | nonUtf8Integer
  | integerEncoding
  | cannotParseInteger (digits : Bytes)
  | missingColon
  | nonUtf8Length
  | badLength (len : Bytes)
  | invalidUtf8
  | unexpectedByte (b : UInt8)
  | expectedList
  | expectedDict

/-- Messages of the decoder, and those that visitors make. -/
inductive Message where
  | noFloats
  | expectedUnitVariant
  | expectedNonUnitVariant
  | custom

inductive Error where
  | message (m : Message)
  | eof
  | invalidData (d : InvalidData)

/-- How a run of the decoder ends without a value; `unfinished` is the model's own. -/
inductive Failure where
  | error (e : Error)
  | panic
  | unfinished

abbrev De := Act Failure Bytes

def invalid {α : Type} (d : InvalidData) : De α := throw (.error (.invalidData d))

def orInvalid {α : Type} (d : InvalidData) : Option α → De α
  | none => invalid d
  | some a => pure a

/-! Numbers as the standard library parses them: a plus sign and leading zeros are taken. -/

def parseSigned : Bytes → Option ℤ
  | [] => none
  | b :: ds =>
    if b.toNat = 43 then (readNat ds).map Int.ofNat
    else if b.toNat = 45 then (readNat ds).map fun n => -Int.ofNat n
    else (readNat (b :: ds)).map Int.ofNat

def parseUnsigned : Bytes → Option ℕ
  | [] => none
  | b :: ds => if b.toNat = 43 then readNat ds else readNat (b :: ds)

def parseI128 (s : Bytes) : Option ℤ := (parseSigned s).filter fun z => -2 ^ 127 ≤ z ∧ z < 2 ^ 127

def parseUsize (bits : ℕ) (s : Bytes) : Option ℕ := (parseUnsigned s).filter fun n => n < 2 ^ bits

/-! The cursor. -/

def peek : De UInt8 := fun s =>
  match s with
  | [] => .error (.error .eof) s
  | b :: _ => .ok b s

def advance (n : ℕ) : De Unit := fun s => if s.length < n then .error .panic s else .ok () (s.drop n)

/-- `&self.input[start..stop]` -/
def slice (start stop : ℕ) : De Bytes := fun s =>
  if start ≤ stop ∧ stop ≤ s.length then .ok ((s.take stop).drop start) s else .error .panic s

/-- Where the sum wraps around instead of panicking, it comes out below `a` and the slice that begins at
`a` panics. -/
def checkedAdd (bits a b : ℕ) : De ℕ := if a + b < 2 ^ bits then pure (a + b) else throw .panic

def position (b : UInt8) : De (Option ℕ) := fun s => .ok (s.findIdx? (· = b)) s

def consumeEnd : De Unit := do
  let b ← peek
  if b = 101 then advance 1 else invalid (.expectedTerminator b)

/-- The digits of an integer, up to the terminator. -/
def integerOf (digits : Bytes) : De ℤ := do
  if validUtf8 digits then
    if [45, 48].isPrefixOf digits ∨ [48].isPrefixOf digits ∧ 1 < digits.length then invalid .integerEncoding
    else orInvalid (.cannotParseInteger digits) (parseI128 digits)
  else invalid .nonUtf8Integer

/-- The leading `i` is consumed. -/
def parseIntValue : De ℤ := do
  let terminator ← orInvalid .unterminatedInteger (← position 101)
  let digits ← slice 0 terminator
  let val ← integerOf digits
  advance (terminator + 1)
  pure val

section Sized

variable (bits : ℕ)

def parseBytestring : De Bytes := do
  let colon ← orInvalid .missingColon (← position 58)
  let lenStr ← slice 0 colon
  if validUtf8 lenStr then do
    let len ← orInvalid (.badLength lenStr) (parseUsize bits lenStr)
    let start := colon + 1
    let stop ← checkedAdd bits start len
    let input ← get
    if input.length < stop then throw (.error .eof)
    else do
      let data ← slice start stop
      advance stop
      pure data
  else invalid .nonUtf8Length

/-- The leading `u` is consumed. -/
def parseUnicode : De Bytes := do
  let bytes ← parseBytestring bits
  if validUtf8 bytes then pure bytes else invalid .invalidUtf8

/-- What a type makes of the parts that the decoder finds.  `seq` and `map` go through the elements on
their own, `bytesSeq` is a byte string offered as a sequence. -/
structure Visitor (V : Type) where
  unit : De V
  bool : Bool → De V
  int : ℤ → De V
  str : Bytes → De V
  bytes : Bytes → De V
  seq : De V
  bytesSeq : Bytes → De V
  map : De V

variable {V : Type}

/-- Integers arrive as `u64`, `i64` or `i128`, whichever is the first that has them. -/
def deserializeAny (visitor : Visitor V) : De V := do
  let b ← peek
  if b = 110 then do
    advance 1
    visitor.unit
  else if b = 116 then do
    advance 1
    visitor.bool true
  else if b = 102 then do
    advance 1
    visitor.bool false
  else if b = 105 then do
    advance 1
    let val ← parseIntValue
    visitor.int val
  else if b = 108 then do
    advance 1
    let result ← visitor.seq
    consumeEnd
    pure result
  else if b = 100 then do
    advance 1
    let result ← visitor.map
    consumeEnd
    pure result
  else if b = 117 then do
    advance 1
    let s ← parseUnicode bits
    visitor.str s
  else if isDigit b then do
    let bytes ← parseBytestring bits
    visitor.bytes bytes
  else invalid (.unexpectedByte b)

end Sized

/-! Elements of a list and entries of a dictionary. -/

section Access

variable {α β : Type}

def nextElement (seed : De α) : De (Option α) := do
  if (← peek) = 101 then pure none else some <$> seed

/-- Elements until there is no next one. -/
def elements (seed : De α) : ℕ → De (List α)
  | 0 => throw .unfinished
  | n + 1 => do
    match ← nextElement seed with
    | none => pure []
    | some a => do
      let as ← elements seed n
      pure (a :: as)

def nextEntry (key : De α) (value : De β) : De (Option (α × β)) := do
  match ← nextElement key with
  | none => pure none
  | some k => do
    let v ← value
    pure (some (k, v))

def entries (key : De α) (value : De β) : ℕ → De (List (α × β))
  | 0 => throw .unfinished
  | n + 1 => do
    match ← nextEntry key value with
    | none => pure []
    | some e => do
      let es ← entries key value n
      pure (e :: es)

end Access

/-- The whole input is one value. -/
def fromSlice {V : Type} (value : De V) (input : Bytes) : Except Failure V :=
  match value input with
  | .ok v [] => .ok v
  | .ok _ rest => .error (.error (.invalidData (.trailingBytes rest.length)))
  | .error e _ => .error e

/-! Values of no particular type. -/

open Bencode (Value)

def valueVisitor (value : De Value) (fuel : ℕ) : Visitor Value where
  unit := pure .null
  bool := fun b => pure (.bool b)
  int := fun z => pure (.int z)
  str := fun s => pure (.text s)
  bytes := fun b => pure (.bytes b)
  seq := Value.list <$> elements value fuel
  bytesSeq := fun _ => throw (.error (.message .custom))
  map := Value.map <$> entries value value fuel

/-- `BencodexValue::deserialize` -/
def deserializeValue (bits : ℕ) : ℕ → De Value
  | 0 => throw .unfinished
  | fuel + 1 => deserializeAny bits (valueVisitor (deserializeValue bits fuel) fuel)

/-- A level of the value takes a byte at least. -/
def decodeValue (bits : ℕ) (input : Bytes) : Except Failure Value :=
  fromSlice (deserializeValue bits (input.length + 1)) input

end Bencodex

end ChiaGaming
