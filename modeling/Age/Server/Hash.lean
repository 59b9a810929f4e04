import Age.Agtype.Hash

/-!
# Server hash functions

The hash functions of the server's `hashfn.c`, byte by byte, and the type-specific
ones that call them.
-/

namespace Age.Server

open Lib Age.Agtype

/-- The internal state of a hash. -/
structure HashState where
  a : UInt32
  b : UInt32
  c : UInt32

def rot (x : UInt32) (k : UInt32) : UInt32 := x <<< k ||| x >>> (32 - k)

namespace HashState

/-- The macro `mix`. -/
def mix (s : HashState) : HashState :=
  let a := (s.a - s.c) ^^^ rot s.c 4
  let c := s.c + s.b
  let b := (s.b - a) ^^^ rot a 6
  let a := a + c
  let c := (c - b) ^^^ rot b 8
  let b := b + a
  let a := (a - c) ^^^ rot c 16
  let c := c + b
  let b := (b - a) ^^^ rot a 19
  let a := a + c
  let c := (c - b) ^^^ rot b 4
  let b := b + a
  ⟨a, b, c⟩

/-- The macro `final`. -/
def final (s : HashState) : HashState :=
  let c := (s.c ^^^ s.b) - rot s.b 14
  let a := (s.a ^^^ c) - rot c 11
  let b := (s.b ^^^ a) - rot a 25
  let c := (c ^^^ b) - rot b 16
  let a := (a ^^^ c) - rot c 4
  let b := (b ^^^ a) - rot a 14
  let c := (c ^^^ b) - rot b 24
  ⟨a, b, c⟩

/-- The state for a key of some length, with the seed mixed in when there is one. -/
def start (keylen : Nat) (seed : UInt64) : HashState :=
  let initial := 0x9e3779b9 + UInt32.ofNat keylen + 3923095
  if seed = 0 then ⟨initial, initial, initial⟩
  else mix ⟨initial + (seed >>> 32).toUInt32, initial + seed.toUInt32, initial⟩

end HashState

/-- A little-endian word of a key. -/
def word (k : Bytes) (offset : Nat) : UInt32 := UInt32.ofNat (readLE 4 (k ++ List.replicate 12 0) offset)

/-- The loop over the key.  The last bytes are added as if zeros followed them, but
the lowest byte of `c` is left to the length. -/
def hashLoop : (turns : Nat) → Bytes → HashState → HashState
  | 0, _, s => s
  | turns + 1, k, s =>
      if 12 ≤ k.length then
        hashLoop turns (k.drop 12)
          (HashState.mix ⟨s.a + word k 0, s.b + word k 4, s.c + word k 8⟩)
      else ⟨s.a + word k 0, s.b + word k 4, s.c + (word k 8 <<< 8)⟩

/-- `hash_bytes` -/
def hashBytes (k : Bytes) : UInt32 :=
  (hashLoop (k.length + 1) k (.start k.length 0)).final.c

/-- `hash_bytes_extended` -/
def hashBytesExtended (k : Bytes) (seed : UInt64) : UInt64 :=
  let s := (hashLoop (k.length + 1) k (.start k.length seed)).final
  s.b.toUInt64 <<< 32 ||| s.c.toUInt64

/-- `hash_bytes_uint32` -/
def hashUint32 (k : UInt32) : UInt32 :=
  let s := HashState.start 4 0
  (HashState.final { s with a := s.a + k }).c

/-- `hash_bytes_uint32_extended` -/
def hashUint32Extended (k : UInt32) (seed : UInt64) : UInt64 :=
  let s := HashState.start 4 seed
  let s := HashState.final { s with a := s.a + k }
  s.b.toUInt64 <<< 32 ||| s.c.toUInt64

/-- `hashfloat8`: both zeros hash alike, and so do all NaNs. -/
def hashFloat8 (f : Float8) : UInt32 :=
  if f.isNaN then hashBytes (encodeLE 8 0x7FF8000000000000)
  else if f.place = 0 then 0
  else hashBytes (encodeLE 8 f.bits.toNat)

/-- The digits of a numeric without zeros at either end, and the weight of the
first; no digits for zero. -/
def numericDigits (n : Numeric) : List Nat × Int :=
  let header := readLE 2 n.image 4
  let short := header &&& 0x8000 ≠ 0
  let digitStart := if short then 6 else 8
  let weight : Int :=
    if short then
      if header &&& 0x40 = 0 then (header &&& 0x3F : Nat) else (header &&& 0x3F : Nat) - 64
    else
      let weight := readLE 2 n.image 6
      if weight < 2 ^ 15 then weight else weight - 2 ^ 16
  let digits := (List.range ((n.image.length - digitStart) / 2)).map fun i =>
    readLE 2 n.image (digitStart + 2 * i)
  let leading := digits.takeWhile (· = 0)
  (((digits.drop leading.length).reverse.dropWhile (· = 0)).reverse, weight - leading.length)

/-- NaN or an infinity -/
def numericIsSpecial (n : Numeric) : Bool := readLE 2 n.image 4 &&& 0xC000 = 0xC000

/-- `hash_numeric` -/
def hashNumeric (n : Numeric) : UInt32 :=
  if numericIsSpecial n then 0
  else
    let (digits, weight) := numericDigits n
    if digits.isEmpty then 0xFFFFFFFF
    else hashBytes (digits.flatMap (encodeLE 2)) ^^^ UInt32.ofInt weight

/-- `hash_numeric_extended` -/
def hashNumericExtended (n : Numeric) (seed : UInt64) : UInt64 :=
  if numericIsSpecial n then seed
  else
    let (digits, weight) := numericDigits n
    if digits.isEmpty then seed - 1
    else hashBytesExtended (digits.flatMap (encodeLE 2)) seed ^^^ UInt64.ofInt weight

def hashOps : HashOps where
  hashAny := hashBytes
  hashNumeric := hashNumeric
  hashInt8 val := hashUint32 (foldInt8 val)
  hashFloat8 := hashFloat8
  hashAnyExtended := hashBytesExtended
  hashNumericExtended := hashNumericExtended
  hashUint32Extended := hashUint32Extended

end Age.Server
