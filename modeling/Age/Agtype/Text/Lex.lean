import Age.Agtype.Text.Print

/-!
# The lexer

`agtype_lex` skips white space and takes one token off the input.  A token is
kept as its type, its text and, for a string, the de-escaped value.
-/

namespace Age.Agtype

open Lib

inductive AgtypeTokenType where
  | string | integer | float | numeric
  | objectStart | objectEnd | arrayStart | arrayEnd
  | comma | colon | annotationMark | identifier
  | true | false | null | endOfInput
  deriving DecidableEq, Repr

inductive LexError where
  /-- `Token "%s" is invalid.`, or the input ends inside a token -/
  | invalidToken
  /-- `Character with value 0x%02x must be escaped.` -/
  | mustBeEscaped (c : UInt8)
  /-- `"\u" must be followed by four hexadecimal digits.` -/
  | fourHexDigits
  /-- `Unicode high surrogate must not follow a high surrogate.` -/
  | highAfterHigh
  /-- `Unicode low surrogate must follow a high surrogate.` -/
  | lowAfterHigh
  /-- `\u0000 cannot be converted to text.` -/
  | nulCharacter
  /-- a code point above 007F while the server encoding is not UTF8 -/
  | untranslatable
  /-- `Escape sequence "\%s" is invalid.` -/
  | invalidEscape (c : UInt8)
  deriving DecidableEq, Repr

/-- The lookahead token and the input after it. -/
structure AgtypeLexContext where
  tokenType : AgtypeTokenType
  token : Bytes
  strval : Bytes
  rest : Bytes
  deriving DecidableEq, Repr

section Characters

def isLetter (c : UInt8) : Bool :=
  (byte 'a' ≤ c && c ≤ byte 'z') || (byte 'A' ≤ c && c ≤ byte 'Z')

/-- `AGTYPE_ALPHANUMERIC_CHAR` -/
def isAlphanumeric (c : UInt8) : Bool := isLetter c || isDigit c || c = byte '_' || 128 ≤ c

def isSpace (c : UInt8) : Bool := c = 32 || c = 9 || c = 10 || c = 13

/-- `pg_tolower` on ASCII -/
def toLower (c : UInt8) : UInt8 := if byte 'A' ≤ c && c ≤ byte 'Z' then c + 32 else c

/-- Equal up to the case of ASCII letters: `pg_strcasecmp` gives zero. -/
def equalsIgnoreCase (a b : Bytes) : Bool := a.map toLower = b.map toLower

end Characters

section Strings

def hexValue (c : UInt8) : Option Nat :=
  if isDigit c then some (c.toNat - 48)
  else if byte 'a' ≤ c && c ≤ byte 'f' then some (c.toNat - 87)
  else if byte 'A' ≤ c && c ≤ byte 'F' then some (c.toNat - 55)
  else none

/-- The digits after `\u`, `count` of them. -/
def lexHexDigits : (count ch : Nat) → Bytes → Except LexError Nat
  | 0, ch, _ => .ok ch
  | _ + 1, _, [] => .error .invalidToken
  | count + 1, ch, c :: rest =>
      match hexValue c with
      | some digit => lexHexDigits count (ch * 16 + digit) rest
      | none => .error .fourHexDigits

/-- `unicode_to_utf8` -/
def unicodeToUtf8 (c : Nat) : Bytes :=
  if c ≤ 0x7F then [UInt8.ofNat c]
  else if c ≤ 0x7FF then [UInt8.ofNat (0xC0 + c / 64), UInt8.ofNat (0x80 + c % 64)]
  else if c ≤ 0xFFFF then
    [UInt8.ofNat (0xE0 + c / 4096), UInt8.ofNat (0x80 + c / 64 % 64),
      UInt8.ofNat (0x80 + c % 64)]
  else
    [UInt8.ofNat (0xF0 + c / 262144), UInt8.ofNat (0x80 + c / 4096 % 64),
      UInt8.ofNat (0x80 + c / 64 % 64), UInt8.ofNat (0x80 + c % 64)]

/-- A `\u` escape, after a high surrogate or not: the new high surrogate and the
bytes to append. -/
def lexUnicode (utf8 : Bool) (hiSurrogate : Option Nat) (ch : Nat) :
    Except LexError (Option Nat × Bytes) :=
  if 0xd800 ≤ ch ∧ ch ≤ 0xdbff then
    match hiSurrogate with
    | some _ => .error .highAfterHigh
    | none => .ok (some (ch % 1024 * 1024), [])
  else do
    let (hiSurrogate, ch) ←
      if 0xdc00 ≤ ch ∧ ch ≤ 0xdfff then
        match hiSurrogate with
        | none => Except.error LexError.lowAfterHigh
        | some high => .ok (none, 0x10000 + high + ch % 1024)
      else .ok (hiSurrogate, ch)
    if hiSurrogate.isSome then .error .lowAfterHigh
    else if ch = 0 then .error .nulCharacter
    else if utf8 then .ok (none, unicodeToUtf8 ch)
    else if ch ≤ 0x7f then .ok (none, [UInt8.ofNat ch])
    else .error .untranslatable

/-- The character that a one-letter escape stands for. -/
def unescape (c : UInt8) : Option UInt8 :=
  if c = quote || c = backslash || c = byte '/' then some c
  else if c = byte 'b' then some 8
  else if c = byte 'f' then some 12
  else if c = byte 'n' then some 10
  else if c = byte 'r' then some 13
  else if c = byte 't' then some 9
  else none

/-- The loop of `agtype_lex_string` from the character after the opening quote:
the de-escaped value and the input after the closing quote. -/
def lexStringLoop (utf8 : Bool) :
    (hiSurrogate : Option Nat) → (strval : Bytes) → Bytes → Except LexError (Bytes × Bytes)
  | _, _, [] => .error .invalidToken
  | hiSurrogate, strval, c :: rest =>
      if c = quote then
        if hiSurrogate.isSome then .error .lowAfterHigh else .ok (strval, rest)
      else if c < 32 then .error (.mustBeEscaped c)
      else if c = backslash then
        match rest with
        | [] => .error .invalidToken
        | e :: rest =>
            if e = byte 'u' then
              match lexHexDigits 4 0 rest, rest with
              | .error error, _ => .error error
              | .ok ch, _ :: _ :: _ :: _ :: rest =>
                  match lexUnicode utf8 hiSurrogate ch with
                  | .error error => .error error
                  | .ok (hiSurrogate, bytes) =>
                      lexStringLoop utf8 hiSurrogate (strval ++ bytes) rest
              | .ok _, _ => .error .invalidToken
            else if hiSurrogate.isSome then .error .lowAfterHigh
            else
              match unescape e with
              | some bytes => lexStringLoop utf8 none (strval ++ [bytes]) rest
              | none => .error (.invalidEscape e)
      else if hiSurrogate.isSome then .error .lowAfterHigh
      else lexStringLoop utf8 none (strval ++ [c]) rest

end Strings

section Numbers

def startsWithDigit : Bytes → Bool
  | [] => false
  | c :: _ => isDigit c

/-- Part (2) of a number: whether it is malformed, and the input after it. -/
def lexMainDigits : Bytes → Bool × Bytes
  | [] => (true, [])
  | c :: rest =>
      if c = byte '0' then (false, rest)
      else if isDigit c then (false, rest.dropWhile isDigit)
      else (true, c :: rest)

/-- Part (3): whether there is one, whether it is malformed, and the input after
it. -/
def lexFraction : Bytes → Bool × Bool × Bytes
  | [] => (false, false, [])
  | c :: rest =>
      if c = byte '.' then (true, !startsWithDigit rest, rest.dropWhile isDigit)
      else (false, false, c :: rest)

def skipSign : Bytes → Bytes
  | [] => []
  | c :: rest => if c = byte '+' || c = byte '-' then rest else c :: rest

/-- Part (4). -/
def lexExponent : Bytes → Bool × Bool × Bytes
  | [] => (false, false, [])
  | c :: rest =>
      if c = byte 'e' || c = byte 'E' then
        (true, !startsWithDigit (skipSign rest), (skipSign rest).dropWhile isDigit)
      else (false, false, c :: rest)

/-- `agtype_lex_number`: the type, whether it is malformed, and the input after
the token, which goes on to the end of the word. -/
def agtypeLexNumber (s : Bytes) : AgtypeTokenType × Bool × Bytes :=
  let (mainError, afterMain) := lexMainDigits s
  let (hasFraction, fractionError, afterFraction) := lexFraction afterMain
  let (hasExponent, exponentError, afterExponent) := lexExponent afterFraction
  let garbage := afterExponent.takeWhile isAlphanumeric
  (if hasFraction || hasExponent then .float else .integer,
    mainError || fractionError || exponentError || !garbage.isEmpty,
    afterExponent.dropWhile isAlphanumeric)

/-- `is_valid_agtype_number` -/
def isValidAgtypeNumber (str : Bytes) : Bool :=
  match str with
  | [] => false
  | c :: rest =>
      let (_, error, after) := agtypeLexNumber (if c = byte '-' then rest else c :: rest)
      !error && after.isEmpty

end Numbers

section Tokens

/-- The part of the input that was taken off. -/
def tokenText (s rest : Bytes) : Bytes := s.take (s.length - rest.length)

/-- The type of an alphanumeric token. -/
def wordType (word : Bytes) : AgtypeTokenType :=
  if word.length = 3 ∧
      (equalsIgnoreCase word (ascii ['N', 'a', 'N']) ∨
        equalsIgnoreCase word (ascii ['i', 'n', 'f'])) then .float
  else if word = ascii ['t', 'r', 'u', 'e'] then .true
  else if word = ascii ['n', 'u', 'l', 'l'] then .null
  else if word = ascii ['f', 'a', 'l', 's', 'e'] then .false
  else if word.length = 8 ∧
      equalsIgnoreCase word (ascii ['I', 'n', 'f', 'i', 'n', 'i', 't', 'y']) then .float
  else .identifier

/-- The letters after a minus sign name an infinity. -/
def isInfinity (word : Bytes) : Bool :=
  (word.length = 3 && equalsIgnoreCase word (ascii ['i', 'n', 'f'])) ||
    (word.length = 8 &&
      equalsIgnoreCase word (ascii ['I', 'n', 'f', 'i', 'n', 'i', 't', 'y']))

def lexNumberToken (s digits : Bytes) : Except LexError AgtypeLexContext :=
  let (tokenType, error, rest) := agtypeLexNumber digits
  if error then .error .invalidToken
  else .ok { tokenType, token := tokenText s rest, strval := [], rest }

/-- The token that starts with this character. -/
def lexToken (utf8 : Bool) (c : UInt8) (s : Bytes) : Except LexError AgtypeLexContext :=
  let punctuation (tokenType : AgtypeTokenType) : Except LexError AgtypeLexContext :=
    .ok { tokenType, token := [c], strval := [], rest := s }
  if c = byte '{' then punctuation .objectStart
  else if c = byte '}' then punctuation .objectEnd
  else if c = byte '[' then punctuation .arrayStart
  else if c = byte ']' then punctuation .arrayEnd
  else if c = byte ',' then punctuation .comma
  else if c = byte ':' then
    if s.head? = some (byte ':') then
      .ok { tokenType := .annotationMark, token := [c, c], strval := [], rest := s.tail }
    else punctuation .colon
  else if c = quote then do
    let (strval, rest) ← lexStringLoop utf8 none [] s
    return { tokenType := .string, token := tokenText (c :: s) rest, strval, rest }
  else if c = byte '-' then
    if s.head? = some (byte 'i') ∨ s.head? = some (byte 'I') then
      let word := s.takeWhile isLetter
      if isInfinity word then
        .ok { tokenType := .float, token := c :: word, strval := []
              rest := s.dropWhile isLetter }
      else .error .invalidToken
    else lexNumberToken (c :: s) s
  else if isDigit c then lexNumberToken (c :: s) (c :: s)
  else
    let word := (c :: s).takeWhile isAlphanumeric
    if word.isEmpty then .error .invalidToken
    else
      .ok { tokenType := wordType word, token := word, strval := []
            rest := (c :: s).dropWhile isAlphanumeric }

/-- `agtype_lex` on the input after the last token. -/
def agtypeLex (utf8 : Bool) (input : Bytes) : Except LexError AgtypeLexContext :=
  match input.dropWhile isSpace with
  | [] => .ok { tokenType := .endOfInput, token := [], strval := [], rest := [] }
  | c :: s => lexToken utf8 c s

end Tokens

end Age.Agtype
