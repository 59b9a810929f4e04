import Age.Agtype.Binary.Read

/-!
# Printing

`agtype_out` walks the iterator over a container and appends text.  Entities are
scalars to the iterator; they are printed as the object or the array they are,
followed by a type annotation.
-/

namespace Age.Agtype

open Lib

/-- The byte of an ASCII character. -/
def byte (char : Char) : UInt8 := UInt8.ofNat char.toNat

/-- The bytes of an ASCII text. -/
def ascii (text : List Char) : Bytes := text.map byte

/-- The text conversions of the server. -/
structure TextOps where
  /-- `float8out_internal` -/
  float8Out : Float8 → Bytes
  /-- `float8in_internal`; no value is an error -/
  float8In : Bytes → Option Float8
  /-- `numeric_out` -/
  numericOut : Numeric → Bytes
  /-- `numeric_in` -/
  numericIn : Bytes → Option Numeric
  /-- `pg_strtoint64` -/
  strtoint64 : Bytes → Option Int64

inductive PrintError where
  /-- `unknown agtype scalar type` -/
  | unknownScalarType
  /-- `unknown agtype iterator token type` -/
  | unknownToken
  | read (error : ReadError)
  | outOfFuel
  deriving DecidableEq, Repr

section Scalars

/-- The decimal digits of a number. -/
def decimal (number : Nat) : Bytes :=
  if number = 0 then [byte '0']
  else (Nat.digits 10 number).reverse.map fun digit => UInt8.ofNat (48 + digit)

/-- `pg_lltoa` -/
def pgLltoa (value : Int64) : Bytes :=
  if value.toInt < 0 then byte '-' :: decimal value.toInt.natAbs else decimal value.toInt.natAbs

/-- A hexadecimal digit as `%x` prints it. -/
def hexDigit (digit : Nat) : UInt8 :=
  if digit < 10 then UInt8.ofNat (48 + digit) else UInt8.ofNat (87 + digit)

def backslash : UInt8 := 92

def quote : UInt8 := 34

/-- A character of a string literal. -/
def escapeChar (p : UInt8) : Bytes :=
  if p = 8 then [backslash, byte 'b']
  else if p = 12 then [backslash, byte 'f']
  else if p = 10 then [backslash, byte 'n']
  else if p = 13 then [backslash, byte 'r']
  else if p = 9 then [backslash, byte 't']
  else if p = quote then [backslash, quote]
  else if p = backslash then [backslash, backslash]
  else if p < 32 then
    [backslash, byte 'u', byte '0', byte '0', hexDigit (p.toNat / 16), hexDigit (p.toNat % 16)]
  else [p]

def escapeAgtype (str : Bytes) : Bytes := quote :: (str.flatMap escapeChar ++ [quote])

def isDigit (c : UInt8) : Bool := byte '0' ≤ c && c ≤ byte '9'

/-- `is_decimal_needed_len`: digits only, after a sign. -/
def isDecimalNeeded (numstr : Bytes) : Bool :=
  match numstr with
  | [] => true
  | c :: rest => if c = byte '-' then rest.all isDigit else (c :: rest).all isDigit

/-- A float that prints as an integer is told apart by `.0`. -/
def float8Text (ops : TextOps) (val : Float8) : Bytes :=
  let numstr := ops.float8Out val
  if isDecimalNeeded numstr then numstr ++ ascii ['.', '0'] else numstr

def annotated (extend : Bool) (annotationName : List Char) (text : Bytes) : Bytes :=
  if extend then text ++ ascii (':' :: ':' :: annotationName) else text

/-- `agtype_put_escaped_value`; the printing of an entity's container is given. -/
def agtypePutEscapedValue (ops : TextOps) (extend : Bool)
    (worker : AgtypeValue → Except PrintError Bytes) : AgtypeValue → Except PrintError Bytes
  | .null => .ok (ascii ['n', 'u', 'l', 'l'])
  | .string val => .ok (escapeAgtype val)
  | .numeric val =>
      .ok (annotated extend ['n', 'u', 'm', 'e', 'r', 'i', 'c'] (ops.numericOut val))
  | .integer val => .ok (pgLltoa val)
  | .float val => .ok (float8Text ops val)
  | .bool val =>
      .ok (if val then ascii ['t', 'r', 'u', 'e'] else ascii ['f', 'a', 'l', 's', 'e'])
  | .vertex pairs => do
      return annotated extend ['v', 'e', 'r', 't', 'e', 'x'] (← worker (.object pairs))
  | .edge pairs => do
      return annotated extend ['e', 'd', 'g', 'e'] (← worker (.object pairs))
  | .path elems => do
      return annotated extend ['p', 'a', 't', 'h'] (← worker (.array false elems))
  | .array _ _ => .error .unknownScalarType
  | .object _ => .error .unknownScalarType

end Scalars

section Worker

/-- The variables of the loop of `agtype_to_cstring_worker`. -/
structure PrintState where
  out : Bytes
  first : Bool
  level : Nat
  useIndent : Bool
  rawScalar : Bool
  lastWasKey : Bool

def addIndent (indent : Bool) (level : Nat) : Bytes :=
  if indent then 10 :: (List.replicate (4 * level) 32) else []

/-- The comma before an item that is not the first one; `ispaces` bytes of it. -/
def separator (indent first : Bool) : Bytes :=
  if first then [] else (ascii [',', ' ']).take (if indent then 1 else 2)

/-- What `agtype_put_escaped_value` does with the value of a token. -/
def putFilled (put : AgtypeValue → Except PrintError Bytes) : Filled → Except PrintError Bytes
  | .scalar val => put val
  | .binary _ _ => .error .unknownScalarType

/-- The loop over the tokens.  After a key the next token is fetched at once, and
unless it is a plain value the switch is run again on it. -/
def agtypeToCstringLoop (put : AgtypeValue → Except PrintError Bytes) (indent : Bool) :
    PrintState → List ByteToken → Except PrintError Bytes
  | state, [] => .ok state.out
  | state, .beginArray rawScalar _ :: rest =>
      let out := state.out ++ separator indent state.first
      agtypeToCstringLoop put indent
        { state with
          out := if rawScalar then out
            else out ++ addIndent (state.useIndent && !state.lastWasKey) state.level ++
              [byte '[']
          rawScalar := state.rawScalar || rawScalar
          first := true
          level := state.level + 1
          useIndent := indent
          lastWasKey := false } rest
  | state, .beginObject _ :: rest =>
      agtypeToCstringLoop put indent
        { state with
          out := state.out ++ separator indent state.first ++
            addIndent (state.useIndent && !state.lastWasKey) state.level ++ [byte '{']
          first := true
          level := state.level + 1
          useIndent := indent
          lastWasKey := false } rest
  | _, [.key _] => .error .unknownToken
  | state, .key key :: .value val :: rest => do
      let text ← putFilled put val
      agtypeToCstringLoop put indent
        { state with
          out := state.out ++ separator indent state.first ++
            addIndent state.useIndent state.level ++ escapeAgtype key ++ ascii [':', ' '] ++ text
          first := false
          useIndent := indent
          lastWasKey := false } rest
  | state, .key key :: token :: rest =>
      agtypeToCstringLoop put indent
        { state with
          out := state.out ++ separator indent state.first ++
            addIndent state.useIndent state.level ++ escapeAgtype key ++ ascii [':', ' ']
          first := true
          useIndent := indent
          lastWasKey := true } (token :: rest)
  | state, .elem val :: rest => do
      let text ← putFilled put val
      agtypeToCstringLoop put indent
        { state with
          out := state.out ++ separator indent state.first ++
            addIndent (!state.rawScalar && state.useIndent) state.level ++ text
          first := false
          useIndent := indent
          lastWasKey := false } rest
  | state, .endArray :: rest =>
      agtypeToCstringLoop put indent
        { state with
          out := if state.rawScalar then state.out
            else state.out ++ addIndent state.useIndent (state.level - 1) ++ [byte ']']
          first := false
          level := state.level - 1
          useIndent := indent
          lastWasKey := false } rest
  | state, .endObject :: rest =>
      agtypeToCstringLoop put indent
        { state with
          out := state.out ++ addIndent state.useIndent (state.level - 1) ++ [byte '}']
          first := false
          level := state.level - 1
          useIndent := indent
          lastWasKey := false } rest
  | _, .value _ :: _ => .error .unknownToken

/-- `agtype_to_cstring_worker` over the tokens of its container.  The container of
an entity is serialized and iterated again, which gives its tokens. -/
def agtypeToCstringWorker (ops : TextOps) (extend : Bool) :
    (fuel : Nat) → (indent : Bool) → List ByteToken → Except PrintError Bytes
  | 0, _, _ => .error .outOfFuel
  | fuel + 1, indent, tokens =>
      agtypeToCstringLoop
        (agtypePutEscapedValue ops extend fun container =>
          agtypeToCstringWorker ops extend fuel false (container.tokens.map Token.toByte))
        indent
        { out := [], first := true, level := 0, useIndent := false, rawScalar := false
          lastWasKey := false }
        tokens

end Worker

/-- `agtype_out` of a varlena. -/
def agtypeOut (ops : TextOps) (fuel : Nat) (agt : Bytes) : Except PrintError Bytes := do
  let tokens ← (agtypeTokens fuel (agt.drop 4)).mapError .read
  agtypeToCstringWorker ops true fuel false tokens

end Age.Agtype
