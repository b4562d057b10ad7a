import ChiaGaming.Bencodex.De

namespace ChiaGaming

/-! The entry points of the decoder that a type asks for by its shape. -/

namespace Bencodex

section Entry

variable {V : Type}

/-- A visitor's methods, as far as a type does not write its own. -/
def Visitor.refuse : Visitor V where
  unit := throw (.error (.message .custom))
  bool := fun _ => throw (.error (.message .custom))
  int := fun _ => throw (.error (.message .custom))
  str := fun _ => throw (.error (.message .custom))
  bytes := fun _ => throw (.error (.message .custom))
  seq := throw (.error (.message .custom))
  bytesSeq := fun _ => throw (.error (.message .custom))
  map := throw (.error (.message .custom))

def orCustom : Option V → De V
  | none => throw (.error (.message .custom))
  | some v => pure v

variable (bits : ℕ)

def deserializeBool (visitor : Visitor V) : De V := do
  let b ← peek
  if b = 116 then do
    advance 1
    visitor.bool true
  else if b = 102 then do
    advance 1
    visitor.bool false
  else deserializeAny bits visitor

def deserializeBytes (visitor : Visitor V) : De V := do
  let b ← peek
  if isDigit b then do
    let bytes ← parseBytestring bits
    visitor.bytes bytes
  else deserializeAny bits visitor

def deserializeOption (visitNone : V) (visitSome : De V) : De V := do
  let b ← peek
  if b = 110 then do
    advance 1
    pure visitNone
  else visitSome

def deserializeUnit (visitor : Visitor V) : De V := do
  let b ← peek
  if b = 110 then do
    advance 1
    visitor.unit
  else deserializeAny bits visitor

def deserializeSeq (visitor : Visitor V) : De V := do
  let b ← peek
  if b = 108 then do
    advance 1
    let result ← visitor.seq
    consumeEnd
    pure result
  else if isDigit b then do
    let bytes ← parseBytestring bits
    visitor.bytesSeq bytes
  else deserializeAny bits visitor

def deserializeMap (visitor : Visitor V) : De V := do
  let b ← peek
  if b = 100 then do
    advance 1
    let result ← visitor.map
    consumeEnd
    pure result
  else deserializeAny bits visitor

/-- `unitVariant` and `dictVariant` are what the visitor makes of a bare name and of a dictionary with one
key. -/
def deserializeEnum (visitor : Visitor V) (unitVariant dictVariant : De V) : De V := do
  let b ← peek
  if b = 117 then unitVariant
  else if b = 100 then do
    advance 1
    dictVariant
  else deserializeAny bits visitor

def deserializeIdentifier (visitor : Visitor V) : De V := do
  let b ← peek
  if b = 117 then do
    advance 1
    let s ← parseUnicode bits
    visitor.str s
  else if isDigit b then do
    let bytes ← parseBytestring bits
    if validUtf8 bytes then visitor.str bytes else visitor.bytes bytes
  else deserializeAny bits visitor

/-- A value that is read and thrown away. -/
def deserializeIgnoredAny : De Unit := fun input => ((fun _ => ()) <$> deserializeValue bits (input.length + 1)) input

/-! Loops of visitors.  An element takes a byte at least, so that what is left bounds their number. -/

/-- `while let Some(value) = seq.next_element()?` -/
def everyElement {α : Type} (seed : De α) : De (List α) := fun input => elements seed (input.length + 1) input

variable {κ σ : Type}

def accesses (key : De κ) (value : σ → κ → De σ) : ℕ → σ → De σ
  | 0, _ => throw .unfinished
  | n + 1, acc => do
    match ← nextElement key with
    | none => pure acc
    | some k => do
      let acc ← value acc k
      accesses key value n acc

/-- `while let Some(key) = map.next_key()?` -/
def everyKey (key : De κ) (value : σ → κ → De σ) (start : σ) : De σ :=
  fun input => accesses key value (input.length + 1) start input

end Entry

end Bencodex

end ChiaGaming
