import Age.Agtype.Text.Tokens

/-!
# The grammar of agtype text

What a text of a value is, said without the lexer: the lexemes with what they stand for, and the
lexer against them.
-/

namespace Age.Agtype

open Lib

section Lexemes

def White (text : Bytes) : Prop := ∀ c ∈ text, isSpace c = true

/-- Four hexadecimal digits -/
inductive HexQuad : Bytes → Nat → Prop
  | digits {a b c d : UInt8} {x y z w : Nat} (first : hexValue a = some x)
      (second : hexValue b = some y) (third : hexValue c = some z) (fourth : hexValue d = some w) :
      HexQuad [a, b, c, d] (((x * 16 + y) * 16 + z) * 16 + w)

/-- Half of a surrogate pair, no character by itself -/
def isSurrogate (ch : Nat) : Prop := 0xd800 ≤ ch ∧ ch ≤ 0xdfff

/-- What stands between the quotes of a string, and what it means; `nul` admits `\u0000`. -/
inductive StringBody (nul : Prop) : Bytes → Bytes → Prop
  | nil : StringBody nul [] []
  | plain {c : UInt8} {text value : Bytes} (notQuote : c ≠ quote) (notBackslash : c ≠ backslash)
      (printable : 32 ≤ c) (rest : StringBody nul text value) :
      StringBody nul (c :: text) (c :: value)
  | escape {e c : UInt8} {text value : Bytes} (known : unescape e = some c)
      (rest : StringBody nul text value) :
      StringBody nul (backslash :: e :: text) (c :: value)
  | unicode {quad text value : Bytes} {ch : Nat} (isQuad : HexQuad quad ch)
      (single : ¬isSurrogate ch) (nonzero : ch ≠ 0 ∨ nul) (rest : StringBody nul text value) :
      StringBody nul (backslash :: byte 'u' :: quad ++ text) (unicodeToUtf8 ch ++ value)
  | pair {first second text value : Bytes} {high low : Nat} (isFirst : HexQuad first high)
      (isSecond : HexQuad second low) (isHigh : 0xd800 ≤ high ∧ high ≤ 0xdbff)
      (isLow : 0xdc00 ≤ low ∧ low ≤ 0xdfff) (rest : StringBody nul text value) :
      StringBody nul (backslash :: byte 'u' :: first ++ backslash :: byte 'u' :: second ++ text)
        (unicodeToUtf8 (0x10000 + high % 1024 * 1024 + low % 1024) ++ value)

def Digits (text : Bytes) : Prop := text ≠ [] ∧ ∀ c ∈ text, isDigit c = true

inductive IntegerPart : Bytes → Prop
  | zero : IntegerPart [byte '0']
  | digits {c : UInt8} {rest : Bytes} (digit : isDigit c = true) (nonzero : c ≠ byte '0')
      (more : ∀ d ∈ rest, isDigit d = true) : IntegerPart (c :: rest)

inductive FractionPart : Bytes → Bool → Prop
  | none : FractionPart [] false
  | some {rest : Bytes} (digits : Digits rest) : FractionPart (byte '.' :: rest) true

inductive ExponentPart : Bytes → Bool → Prop
  | none : ExponentPart [] false
  | some {e : UInt8} {sign rest : Bytes} (isMark : e = byte 'e' ∨ e = byte 'E')
      (isSign : sign = [] ∨ sign = [byte '+'] ∨ sign = [byte '-']) (digits : Digits rest) :
      ExponentPart (e :: (sign ++ rest)) true

/-- A number without its sign -/
inductive UnsignedNumber : Bytes → AgtypeTokenType → Prop
  | parts {main fraction exponent : Bytes} {hasFraction hasExponent : Bool}
      (isMain : IntegerPart main) (isFraction : FractionPart fraction hasFraction)
      (isExponent : ExponentPart exponent hasExponent) :
      UnsignedNumber (main ++ (fraction ++ exponent))
        (if hasFraction || hasExponent then .float else .integer)

def IsInfinity (word : Bytes) : Prop :=
  equalsIgnoreCase word (ascii ['i', 'n', 'f']) = true ∨
    equalsIgnoreCase word (ascii ['I', 'n', 'f', 'i', 'n', 'i', 't', 'y']) = true

def IsNaN (word : Bytes) : Prop := equalsIgnoreCase word (ascii ['N', 'a', 'N']) = true

/-- A word is made of letters, digits, `_` and bytes above 127, and starts with no digit. -/
inductive Word : Bytes → Prop
  | letters {c : UInt8} {rest : Bytes} (noDigit : isDigit c = false)
      (all : ∀ d ∈ c :: rest, isAlphanumeric d = true) : Word (c :: rest)

/-- The text of a token, and the lexeme that a callback gets: of a string what it means, of
another token its text -/
inductive Lexeme (nul : Prop) : AgtypeTokenType → Bytes → Bytes → Prop
  | objectStart : Lexeme nul .objectStart [byte '{'] [byte '{']
  | objectEnd : Lexeme nul .objectEnd [byte '}'] [byte '}']
  | arrayStart : Lexeme nul .arrayStart [byte '['] [byte '[']
  | arrayEnd : Lexeme nul .arrayEnd [byte ']'] [byte ']']
  | comma : Lexeme nul .comma [byte ','] [byte ',']
  | colon : Lexeme nul .colon [byte ':'] [byte ':']
  | annotationMark : Lexeme nul .annotationMark [byte ':', byte ':'] [byte ':', byte ':']
  | string {body value : Bytes} (isBody : StringBody nul body value) :
      Lexeme nul .string (quote :: (body ++ [quote])) value
  | number {text : Bytes} {tokenType : AgtypeTokenType} (isNumber : UnsignedNumber text tokenType) :
      Lexeme nul tokenType text text
  | negative {text : Bytes} {tokenType : AgtypeTokenType}
      (isNumber : UnsignedNumber text tokenType) :
      Lexeme nul tokenType (byte '-' :: text) (byte '-' :: text)
  | special {word : Bytes} (isSpecial : IsNaN word ∨ IsInfinity word) : Lexeme nul .float word word
  | minusInfinity {word : Bytes} (isSpecial : IsInfinity word) :
      Lexeme nul .float (byte '-' :: word) (byte '-' :: word)
  | true : Lexeme nul .true (ascii ['t', 'r', 'u', 'e']) (ascii ['t', 'r', 'u', 'e'])
  | false : Lexeme nul .false (ascii ['f', 'a', 'l', 's', 'e']) (ascii ['f', 'a', 'l', 's', 'e'])
  | null : Lexeme nul .null (ascii ['n', 'u', 'l', 'l']) (ascii ['n', 'u', 'l', 'l'])
  | identifier {word : Bytes} (isWord : Word word) (ordinary : ¬(IsNaN word ∨ IsInfinity word))
      (notKeyword : word ≠ ascii ['t', 'r', 'u', 'e'] ∧ word ≠ ascii ['f', 'a', 'l', 's', 'e'] ∧
        word ≠ ascii ['n', 'u', 'l', 'l']) : Lexeme nul .identifier word word

end Lexemes

section Strings

/-- Reading four hexadecimal digits takes exactly these off. -/
theorem lexHexDigits_quad {quad : Bytes} {ch : Nat} (isQuad : HexQuad quad ch) (rest : Bytes) :
    lexHexDigits 4 0 (quad ++ rest) = .ok ch ∧ ∃ a b c d, quad = [a, b, c, d] := by
  cases isQuad with
  | digits first second third fourth =>
      refine ⟨?_, _, _, _, _, rfl⟩
      simp only [List.cons_append, List.nil_append, lexHexDigits, first, second, third, fourth,
        Nat.zero_mul, Nat.zero_add]

theorem quad_of_lexHexDigits {s : Bytes} {ch : Nat} (lexed : lexHexDigits 4 0 s = .ok ch) :
    ∃ quad rest, s = quad ++ rest ∧ HexQuad quad ch := by
  rcases s with _ | ⟨a, _ | ⟨b, _ | ⟨c, _ | ⟨d, rest⟩⟩⟩⟩
  · cases lexed
  · simp only [lexHexDigits] at lexed
    split at lexed <;> cases lexed
  · simp only [lexHexDigits] at lexed
    repeat (split at lexed <;> try cases lexed)
  · simp only [lexHexDigits] at lexed
    repeat (split at lexed <;> try cases lexed)
  · simp only [lexHexDigits] at lexed
    split at lexed
    case h_2 => cases lexed
    rename_i x first
    split at lexed
    case h_2 => cases lexed
    rename_i y second
    split at lexed
    case h_2 => cases lexed
    rename_i z third
    split at lexed
    case h_2 => cases lexed
    rename_i w fourth
    cases lexed
    refine ⟨[a, b, c, d], rest, rfl, ?_⟩
    have := HexQuad.digits first second third fourth
    simpa using this

/-- A `\u` escape is taken off with its four digits. -/
theorem lexStringLoop_quad {hiSurrogate : Option Nat} {strval quad rest : Bytes} {ch : Nat}
    (isQuad : HexQuad quad ch) :
    lexStringLoop true hiSurrogate strval (backslash :: byte 'u' :: quad ++ rest) =
      match lexUnicode true hiSurrogate ch with
      | .error error => .error error
      | .ok (hiSurrogate, bytes) => lexStringLoop true hiSurrogate (strval ++ bytes) rest := by
  obtain ⟨lexed, a, b, c, d, rfl⟩ := lexHexDigits_quad isQuad rest
  conv_lhs => unfold lexStringLoop
  simp only [List.cons_append, List.nil_append] at lexed ⊢
  cases isChar : lexUnicode true hiSurrogate ch <;>
    simp only [show ¬backslash = quote by decide, show ¬backslash < 32 by decide, if_false, if_true,
      lexed, isChar]

theorem lexUnicode_single {ch : Nat} (single : ¬isSurrogate ch) (nonzero : ch ≠ 0) :
    lexUnicode true none ch = .ok (none, unicodeToUtf8 ch) := by
  have high : ¬(0xd800 ≤ ch ∧ ch ≤ 0xdbff) := fun both => single ⟨both.1, by omega⟩
  have low : ¬(0xdc00 ≤ ch ∧ ch ≤ 0xdfff) := fun both => single ⟨by omega, both.2⟩
  simp [lexUnicode, if_neg high, if_neg low, bind, Except.bind, nonzero]

theorem lexUnicode_high {ch : Nat} (high : 0xd800 ≤ ch ∧ ch ≤ 0xdbff) :
    lexUnicode true none ch = .ok (some (ch % 1024 * 1024), []) := by
  rw [lexUnicode, if_pos high]

theorem lexUnicode_low {high ch : Nat} (low : 0xdc00 ≤ ch ∧ ch ≤ 0xdfff) :
    lexUnicode true (some high) ch =
      .ok (none, unicodeToUtf8 (0x10000 + high + ch % 1024)) := by
  have notHigh : ¬(0xd800 ≤ ch ∧ ch ≤ 0xdbff) := by omega
  simp [lexUnicode, if_neg notHigh, if_pos low, bind, Except.bind]

/-- The lexer reads the body of a string up to the closing quote. -/
theorem lexStringLoop_of_body {body value : Bytes} (isBody : StringBody False body value)
    (strval rest : Bytes) :
    lexStringLoop true none strval (body ++ quote :: rest) = .ok (strval ++ value, rest) := by
  induction isBody generalizing strval with
  | nil =>
      rw [List.nil_append, List.append_nil]
      unfold lexStringLoop
      rfl
  | @plain c text value notQuote notBackslash printable isRest inductionHypothesis =>
      have notControl : ¬c < 32 := UInt8.not_lt.2 printable
      rw [List.cons_append]
      conv_lhs => unfold lexStringLoop
      simp only [notQuote, notControl, notBackslash, if_false, Option.isSome_none,
        Bool.false_eq_true]
      rw [inductionHypothesis, List.append_assoc, List.singleton_append]
  | @escape e c text value known isRest inductionHypothesis =>
      have notU : e ≠ byte 'u' := by
        rintro rfl
        rw [show unescape (byte 'u') = none by decide] at known
        cases known
      rw [List.cons_append, List.cons_append, lexStringLoop_letter true known notU,
        inductionHypothesis, List.append_assoc, List.singleton_append]
  | @unicode quad text value ch isQuad single nonzero isRest inductionHypothesis =>
      have shape : backslash :: byte 'u' :: quad ++ text ++ quote :: rest =
          backslash :: byte 'u' :: quad ++ (text ++ quote :: rest) := by simp
      rw [shape, lexStringLoop_quad isQuad,
        lexUnicode_single single (nonzero.resolve_right not_false)]
      dsimp only
      rw [inductionHypothesis, List.append_assoc]
  | @pair first second text value high low isFirst isSecond isHigh isLow isRest
      inductionHypothesis =>
      have shape : backslash :: byte 'u' :: first ++ backslash :: byte 'u' :: second ++ text ++
          quote :: rest = backslash :: byte 'u' :: first ++
            (backslash :: byte 'u' :: second ++ (text ++ quote :: rest)) := by simp
      rw [shape, lexStringLoop_quad isFirst, lexUnicode_high isHigh]
      dsimp only
      rw [lexStringLoop_quad isSecond, lexUnicode_low isLow]
      dsimp only
      rw [inductionHypothesis, List.append_nil, List.append_assoc]

theorem lexStringLoop_unicode {hiSurrogate : Option Nat} {strval s : Bytes} {out : Bytes × Bytes}
    (lexed : lexStringLoop true hiSurrogate strval (backslash :: byte 'u' :: s) = .ok out) :
    ∃ quad rest ch hiSurrogate' bytes, s = quad ++ rest ∧ HexQuad quad ch ∧
      lexUnicode true hiSurrogate ch = .ok (hiSurrogate', bytes) ∧
      lexStringLoop true hiSurrogate' (strval ++ bytes) rest = .ok out := by
  cases digits : lexHexDigits 4 0 s with
  | error error =>
      conv_lhs at lexed => unfold lexStringLoop
      simp only [show ¬backslash = quote by decide, show ¬backslash < 32 by decide, if_false,
        if_true, digits] at lexed
      cases lexed
  | ok ch =>
      obtain ⟨quad, rest, rfl, isQuad⟩ := quad_of_lexHexDigits digits
      rw [← List.cons_append, ← List.cons_append, lexStringLoop_quad isQuad] at lexed
      cases unicode : lexUnicode true hiSurrogate ch with
      | error error =>
          rw [unicode] at lexed
          cases lexed
      | ok result =>
          rw [unicode] at lexed
          exact ⟨quad, rest, ch, result.1, result.2, rfl, isQuad, unicode, lexed⟩

/-- A `\u` escape is a character by itself or starts a pair. -/
theorem lexUnicode_none_ok {ch : Nat} {hiSurrogate : Option Nat} {bytes : Bytes}
    (lexed : lexUnicode true none ch = .ok (hiSurrogate, bytes)) :
    (hiSurrogate = some (ch % 1024 * 1024) ∧ bytes = [] ∧ 0xd800 ≤ ch ∧ ch ≤ 0xdbff) ∨
      (hiSurrogate = none ∧ bytes = unicodeToUtf8 ch ∧ ¬isSurrogate ch ∧ ch ≠ 0) := by
  by_cases high : 0xd800 ≤ ch ∧ ch ≤ 0xdbff
  · rw [lexUnicode_high high] at lexed
    cases lexed
    exact .inl ⟨rfl, rfl, high⟩
  · by_cases low : 0xdc00 ≤ ch ∧ ch ≤ 0xdfff
    · simp [lexUnicode, if_neg high, if_pos low, bind, Except.bind] at lexed
    · have single : ¬isSurrogate ch := by
        rintro ⟨least, greatest⟩
        omega
      by_cases zero : ch = 0
      · subst zero
        cases lexed
      · rw [lexUnicode_single single zero] at lexed
        cases lexed
        exact .inr ⟨rfl, rfl, single, zero⟩

theorem lexUnicode_some_ok {high ch : Nat} {hiSurrogate : Option Nat} {bytes : Bytes}
    (lexed : lexUnicode true (some high) ch = .ok (hiSurrogate, bytes)) :
    hiSurrogate = none ∧ bytes = unicodeToUtf8 (0x10000 + high + ch % 1024) ∧
      0xdc00 ≤ ch ∧ ch ≤ 0xdfff := by
  by_cases isHigh : 0xd800 ≤ ch ∧ ch ≤ 0xdbff
  · rw [lexUnicode, if_pos isHigh] at lexed
    cases lexed
  · by_cases low : 0xdc00 ≤ ch ∧ ch ≤ 0xdfff
    · rw [lexUnicode_low low] at lexed
      cases lexed
      exact ⟨rfl, rfl, low⟩
    · simp [lexUnicode, if_neg isHigh, if_neg low, bind, Except.bind] at lexed

/-- What the lexer takes for a string is the body of one; after a high surrogate, the rest of a
pair comes first. -/
theorem body_of_lexStringLoop {count : Nat} {s strval value rest : Bytes}
    (short : s.length ≤ count) :
    (lexStringLoop true none strval s = .ok (value, rest) →
      ∃ body tail, s = body ++ quote :: rest ∧ value = strval ++ tail ∧
        StringBody False body tail) ∧
    ∀ high, lexStringLoop true (some high) strval s = .ok (value, rest) →
      ∃ second low body tail, s = backslash :: byte 'u' :: second ++ (body ++ quote :: rest) ∧
        HexQuad second low ∧ (0xdc00 ≤ low ∧ low ≤ 0xdfff) ∧
        value = strval ++ (unicodeToUtf8 (0x10000 + high + low % 1024) ++ tail) ∧
        StringBody False body tail := by
  induction count generalizing s strval with
  | zero =>
      rw [List.length_eq_zero_iff.1 (Nat.le_zero.1 short)]
      exact ⟨(fun lexed => nomatch lexed), fun _ lexed => nomatch lexed⟩
  | succ count inductionHypothesis =>
      rcases s with _ | ⟨c, s⟩
      · exact ⟨(fun lexed => nomatch lexed), fun _ lexed => nomatch lexed⟩
      rw [List.length_cons] at short
      constructor
      · intro lexed
        by_cases isQuote : c = quote
        · subst isQuote
          unfold lexStringLoop at lexed
          cases lexed
          exact ⟨[], [], rfl, (List.append_nil _).symm, .nil⟩
        by_cases control : c < 32
        · unfold lexStringLoop at lexed
          rw [if_neg isQuote, if_pos control] at lexed
          cases lexed
        by_cases isBackslash : c = backslash
        · subst isBackslash
          rcases s with _ | ⟨e, s⟩
          · unfold lexStringLoop at lexed
            cases lexed
          rw [List.length_cons] at short
          by_cases isU : e = byte 'u'
          · subst isU
            obtain ⟨quad, left, ch, hiSurrogate, bytes, rfl, isQuad, unicode, lexed⟩ :=
              lexStringLoop_unicode lexed
            have shorter : left.length ≤ count := by
              rw [List.length_append] at short
              omega
            obtain ⟨plain, paired⟩ := @inductionHypothesis left (strval ++ bytes) shorter
            rcases lexUnicode_none_ok unicode with ⟨rfl, rfl, high⟩ | ⟨rfl, rfl, single, nonzero⟩
            · obtain ⟨second, low, body, tail, rfl, isSecond, isLow, rfl, isBody⟩ := paired _ lexed
              refine ⟨_, _, ?_, ?_, .pair isQuad isSecond high isLow isBody⟩
              · simp
              · simp
            · obtain ⟨body, tail, rfl, rfl, isBody⟩ := plain lexed
              refine ⟨_, _, ?_, ?_, .unicode isQuad single (.inl nonzero) isBody⟩
              · simp
              · simp
          · unfold lexStringLoop at lexed
            rw [if_neg isQuote, if_neg control, if_pos rfl] at lexed
            dsimp only at lexed
            rw [if_neg isU, if_neg (by decide)] at lexed
            cases known : unescape e with
            | none =>
                rw [known] at lexed
                cases lexed
            | some bytes =>
                rw [known] at lexed
                obtain ⟨body, tail, rfl, rfl, isBody⟩ :=
                  (@inductionHypothesis s (strval ++ [bytes]) (by omega)).1 lexed
                exact ⟨_, _, rfl, by simp, .escape known isBody⟩
        · unfold lexStringLoop at lexed
          rw [if_neg isQuote, if_neg control, if_neg isBackslash, if_neg (by decide)] at lexed
          obtain ⟨body, tail, rfl, rfl, isBody⟩ :=
            (@inductionHypothesis s (strval ++ [c]) (by omega)).1 lexed
          exact ⟨_, _, rfl, by simp,
            .plain isQuote isBackslash (UInt8.not_lt.1 control) isBody⟩
      · intro high lexed
        by_cases isQuote : c = quote
        · subst isQuote
          unfold lexStringLoop at lexed
          cases lexed
        by_cases control : c < 32
        · unfold lexStringLoop at lexed
          rw [if_neg isQuote, if_pos control] at lexed
          cases lexed
        by_cases isBackslash : c = backslash
        · subst isBackslash
          rcases s with _ | ⟨e, s⟩
          · unfold lexStringLoop at lexed
            cases lexed
          rw [List.length_cons] at short
          by_cases isU : e = byte 'u'
          · subst isU
            obtain ⟨quad, left, ch, hiSurrogate, bytes, rfl, isQuad, unicode, lexed⟩ :=
              lexStringLoop_unicode lexed
            obtain ⟨rfl, rfl, isLow⟩ := lexUnicode_some_ok unicode
            have shorter : left.length ≤ count := by
              rw [List.length_append] at short
              omega
            obtain ⟨body, tail, rfl, rfl, isBody⟩ :=
              (@inductionHypothesis left (strval ++ _) shorter).1 lexed
            exact ⟨quad, ch, body, tail, by simp, isQuad, isLow, by simp, isBody⟩
          · unfold lexStringLoop at lexed
            rw [if_neg isQuote, if_neg control, if_pos rfl] at lexed
            dsimp only at lexed
            rw [if_neg isU, if_pos (by rfl)] at lexed
            cases lexed
        · unfold lexStringLoop at lexed
          rw [if_neg isQuote, if_neg control, if_neg isBackslash, if_pos (by rfl)] at lexed
          cases lexed

end Strings

section Numbers

/-- The input goes on with nothing that a number or a word could take. -/
def Delimited (rest : Bytes) : Prop := ∀ c ∈ rest.head?, isAlphanumeric c = false ∧ c ≠ byte '.'

theorem Delimited.noWord {rest : Bytes} (delimited : Delimited rest) :
    ∀ c ∈ rest.head?, isAlphanumeric c = false := fun c here => (delimited c here).1

theorem isDigit_of_not_alphanumeric {c : UInt8} (other : isAlphanumeric c = false) :
    isDigit c = false := by
  simp only [isAlphanumeric, Bool.or_eq_false_iff] at other
  exact other.1.1.2

theorem isLetter_of_not_alphanumeric {c : UInt8} (other : isAlphanumeric c = false) :
    isLetter c = false := by
  simp only [isAlphanumeric, Bool.or_eq_false_iff] at other
  exact other.1.1.1

theorem lexMainDigits_of_part {main tail : Bytes} (isMain : IntegerPart main)
    (stops : ∀ c ∈ tail.head?, isDigit c = false) :
    lexMainDigits (main ++ tail) = (false, tail) := by
  cases isMain with
  | zero => simp [lexMainDigits]
  | @digits c rest digit nonzero more =>
      rw [List.cons_append, lexMainDigits, if_neg nonzero, if_pos digit,
        (takeWhile_append_of_all more stops).2]

theorem startsWithDigit_of_digits {digits tail : Bytes} (isDigits : Digits digits) :
    startsWithDigit (digits ++ tail) = true := by
  obtain ⟨nonempty, all⟩ := isDigits
  cases digits with
  | nil => exact absurd rfl nonempty
  | cons c digits => exact all c List.mem_cons_self

theorem lexFraction_of_part {fraction tail : Bytes} {hasFraction : Bool}
    (isFraction : FractionPart fraction hasFraction)
    (stops : ∀ c ∈ tail.head?, isDigit c = false ∧ c ≠ byte '.') :
    lexFraction (fraction ++ tail) = (hasFraction, false, tail) := by
  cases isFraction with
  | none =>
      cases tail with
      | nil => rfl
      | cons c tail => rw [List.nil_append, lexFraction, if_neg (stops c rfl).2]
  | @some rest digits =>
      rw [List.cons_append, lexFraction, if_pos rfl, startsWithDigit_of_digits digits,
        (takeWhile_append_of_all digits.2 fun c here => (stops c here).1).2]
      rfl

theorem skipSign_of_part {sign digits tail : Bytes}
    (isSign : sign = [] ∨ sign = [byte '+'] ∨ sign = [byte '-']) (isDigits : Digits digits) :
    skipSign (sign ++ digits ++ tail) = digits ++ tail := by
  rcases isSign with rfl | rfl | rfl
  · obtain ⟨nonempty, all⟩ := isDigits
    cases digits with
    | nil => exact absurd rfl nonempty
    | cons c digits =>
        have digit := all c List.mem_cons_self
        have noSign : ¬(c = byte '+' || c = byte '-') = true := by
          simp [ne_of_class digit (show isDigit (byte '+') = false by decide),
            ne_of_class digit (show isDigit (byte '-') = false by decide)]
        simp only [List.nil_append, List.cons_append, skipSign, if_neg noSign]
  · rfl
  · rfl

theorem lexExponent_of_part {exponent rest : Bytes} {hasExponent : Bool}
    (isExponent : ExponentPart exponent hasExponent) (delimited : Delimited rest) :
    lexExponent (exponent ++ rest) = (hasExponent, false, rest) := by
  cases isExponent with
  | none =>
      cases rest with
      | nil => rfl
      | cons c rest =>
          have noMark : ¬(c = byte 'e' || c = byte 'E') = true := by
            intro mark
            have other := (delimited c rfl).1
            rcases Bool.or_eq_true_iff.1 mark with lower | upper
            · rw [of_decide_eq_true lower] at other
              exact absurd other (by decide)
            · rw [of_decide_eq_true upper] at other
              exact absurd other (by decide)
          rw [List.nil_append, lexExponent, if_neg noMark]
  | @some e sign digits isMark isSign isDigits =>
      have mark : (e = byte 'e' || e = byte 'E') = true := by simpa using isMark
      rw [List.cons_append, lexExponent, if_pos mark, skipSign_of_part isSign isDigits,
        startsWithDigit_of_digits isDigits,
        (takeWhile_append_of_all isDigits.2 fun c here =>
          isDigit_of_not_alphanumeric (delimited c here).1).2]
      rfl

theorem head_exponent {exponent rest : Bytes} {hasExponent : Bool}
    (isExponent : ExponentPart exponent hasExponent) (delimited : Delimited rest) :
    ∀ c ∈ (exponent ++ rest).head?, isDigit c = false ∧ c ≠ byte '.' := by
  cases isExponent with
  | none =>
      exact fun c here => ⟨isDigit_of_not_alphanumeric (delimited c here).1, (delimited c here).2⟩
  | some isMark isSign isDigits =>
      intro c here
      cases here
      rcases isMark with rfl | rfl <;> decide

theorem head_fraction {fraction tail : Bytes} {hasFraction : Bool}
    (isFraction : FractionPart fraction hasFraction)
    (stops : ∀ c ∈ tail.head?, isDigit c = false) :
    ∀ c ∈ (fraction ++ tail).head?, isDigit c = false := by
  cases isFraction with
  | none => exact stops
  | some digits =>
      intro c here
      cases here
      decide

/-- The lexer takes a number off. -/
theorem agtypeLexNumber_of_number {text rest : Bytes} {tokenType : AgtypeTokenType}
    (isNumber : UnsignedNumber text tokenType) (delimited : Delimited rest) :
    agtypeLexNumber (text ++ rest) = (tokenType, false, rest) := by
  cases isNumber with
  | parts isMain isFraction isExponent =>
      have afterFraction := head_exponent isExponent delimited
      have afterMain := head_fraction isFraction fun c here => (afterFraction c here).1
      rw [List.append_assoc, List.append_assoc]
      simp only [agtypeLexNumber, lexMainDigits_of_part isMain afterMain,
        lexFraction_of_part isFraction afterFraction, lexExponent_of_part isExponent delimited,
        takeWhile_of_head delimited.noWord, dropWhile_of_head delimited.noWord]
      rfl

theorem digits_of_dropWhile {s : Bytes} (starts : startsWithDigit s = true) :
    ∃ digits, s = digits ++ s.dropWhile isDigit ∧ Digits digits := by
  refine ⟨s.takeWhile isDigit, List.takeWhile_append_dropWhile.symm, ?_,
    fun c inside => List.mem_takeWhile_imp inside⟩
  cases s with
  | nil => cases starts
  | cons c s =>
      have digit : isDigit c = true := starts
      simp [digit]

theorem part_of_lexMainDigits {s rest : Bytes} (lexed : lexMainDigits s = (false, rest)) :
    ∃ main, s = main ++ rest ∧ IntegerPart main := by
  cases s with
  | nil => cases lexed
  | cons c s =>
      simp only [lexMainDigits] at lexed
      split_ifs at lexed with zero digit
      · cases lexed
        exact ⟨_, by rw [zero]; rfl, .zero⟩
      · cases lexed
        refine ⟨c :: s.takeWhile isDigit, ?_, .digits digit zero fun d inside =>
          List.mem_takeWhile_imp inside⟩
        rw [List.cons_append, List.takeWhile_append_dropWhile]
      · cases lexed

theorem part_of_lexFraction {s rest : Bytes} {hasFraction : Bool}
    (lexed : lexFraction s = (hasFraction, false, rest)) :
    ∃ fraction, s = fraction ++ rest ∧ FractionPart fraction hasFraction := by
  cases s with
  | nil =>
      cases lexed
      exact ⟨[], rfl, .none⟩
  | cons c s =>
      simp only [lexFraction] at lexed
      split_ifs at lexed with point
      · injection lexed with found others
        injection others with good left
        subst found left point
        obtain ⟨digits, split, isDigits⟩ := digits_of_dropWhile (by simpa using good)
        exact ⟨_, by rw [List.cons_append, ← split], .some isDigits⟩
      · cases lexed
        exact ⟨[], rfl, .none⟩

theorem part_of_lexExponent {s rest : Bytes} {hasExponent : Bool}
    (lexed : lexExponent s = (hasExponent, false, rest)) :
    ∃ exponent, s = exponent ++ rest ∧ ExponentPart exponent hasExponent := by
  cases s with
  | nil =>
      cases lexed
      exact ⟨[], rfl, .none⟩
  | cons c s =>
      simp only [lexExponent] at lexed
      split_ifs at lexed with mark
      · injection lexed with found others
        injection others with good left
        subst found left
        obtain ⟨digits, split, isDigits⟩ := @digits_of_dropWhile (skipSign s) (by simpa using good)
        have isMark : c = byte 'e' ∨ c = byte 'E' := by simpa using mark
        obtain ⟨sign, isSign, whole⟩ : ∃ sign,
            (sign = [] ∨ sign = [byte '+'] ∨ sign = [byte '-']) ∧ s = sign ++ skipSign s := by
          cases s with
          | nil => exact ⟨[], .inl rfl, rfl⟩
          | cons d s =>
              simp only [skipSign]
              split_ifs with isSign
              · rcases Bool.or_eq_true_iff.1 isSign with plus | minus
                · exact ⟨[d], .inr (.inl (by rw [of_decide_eq_true plus])), rfl⟩
                · exact ⟨[d], .inr (.inr (by rw [of_decide_eq_true minus])), rfl⟩
              · exact ⟨[], .inl rfl, rfl⟩
        refine ⟨_, ?_, .some isMark isSign isDigits⟩
        rw [List.cons_append, List.append_assoc, ← split, ← whole]
      · cases lexed
        exact ⟨[], rfl, .none⟩

/-- What the lexer takes for a number is one. -/
theorem number_of_agtypeLexNumber {s rest : Bytes} {tokenType : AgtypeTokenType}
    (lexed : agtypeLexNumber s = (tokenType, false, rest)) :
    ∃ text, s = text ++ rest ∧ UnsignedNumber text tokenType := by
  rcases mainLexed : lexMainDigits s with ⟨mainError, afterMain⟩
  rcases fractionLexed : lexFraction afterMain with ⟨hasFraction, fractionError, afterFraction⟩
  rcases exponentLexed : lexExponent afterFraction with
    ⟨hasExponent, exponentError, afterExponent⟩
  simp only [agtypeLexNumber, mainLexed, fractionLexed, exponentLexed] at lexed
  injection lexed with isType others
  injection others with good left
  simp only [Bool.or_eq_false_iff] at good
  obtain ⟨⟨⟨noMain, noFraction⟩, noExponent⟩, noGarbage⟩ := good
  subst noMain noFraction noExponent isType
  obtain ⟨main, rfl, isMain⟩ := part_of_lexMainDigits mainLexed
  obtain ⟨fraction, rfl, isFraction⟩ := part_of_lexFraction fractionLexed
  obtain ⟨exponent, rfl, isExponent⟩ := part_of_lexExponent exponentLexed
  have same : rest = afterExponent := by
    have parts := List.takeWhile_append_dropWhile (p := isAlphanumeric) (l := afterExponent)
    have nothing : afterExponent.takeWhile isAlphanumeric = [] := by
      rwa [Bool.not_eq_false', List.isEmpty_iff] at noGarbage
    rw [left, nothing, List.nil_append] at parts
    exact parts
  exact ⟨_, by rw [same]; simp, .parts isMain isFraction isExponent⟩

end Numbers

section Words

theorem length_of_equalsIgnoreCase {word name : Bytes}
    (equals : equalsIgnoreCase word name = true) : word.length = name.length := by
  have lengths := congrArg List.length (of_decide_eq_true equals)
  simpa using lengths

/-- A word that is a name up to the case of its letters has letters only. -/
theorem isLetter_of_equalsIgnoreCase {word name : Bytes}
    (equals : equalsIgnoreCase word name = true)
    (letters : ∀ c ∈ name, isLetter c = true) : ∀ c ∈ word, isLetter c = true := by
  have lower : ∀ n < 256, isLetter (toLower (UInt8.ofNat n)) = isLetter (UInt8.ofNat n) := by
    decide +kernel
  have same : ∀ c, isLetter (toLower c) = isLetter c := fun c => by
    have := lower c.toNat c.toNat_lt
    rwa [UInt8.ofNat_toNat] at this
  intro c inside
  have image : toLower c ∈ name.map toLower := by
    rw [← of_decide_eq_true equals]
    exact List.mem_map_of_mem inside
  obtain ⟨d, member, isImage⟩ := List.mem_map.1 image
  rw [← same c, ← isImage, same d]
  exact letters d member

theorem IsInfinity.letters {word : Bytes} (isInfinity : IsInfinity word) :
    ∀ c ∈ word, isLetter c = true := by
  rcases isInfinity with short | long
  · exact isLetter_of_equalsIgnoreCase short (by decide +kernel)
  · exact isLetter_of_equalsIgnoreCase long (by decide +kernel)

theorem IsInfinity.head {word : Bytes} (isInfinity : IsInfinity word) :
    word.head? = some (byte 'i') ∨ word.head? = some (byte 'I') := by
  have lower : ∀ n < 256, toLower (UInt8.ofNat n) = byte 'i' →
      UInt8.ofNat n = byte 'i' ∨ UInt8.ofNat n = byte 'I' := by decide +kernel
  have first : (word.map toLower).head? = some (byte 'i') := by
    rcases isInfinity with short | long
    · rw [of_decide_eq_true short]
      rfl
    · rw [of_decide_eq_true long]
      rfl
  cases word with
  | nil => cases first
  | cons c word =>
      have cases' := lower c.toNat c.toNat_lt
      rw [UInt8.ofNat_toNat] at cases'
      rcases cases' (Option.some.inj first) with rfl | rfl
      · exact .inl rfl
      · exact .inr rfl

theorem word_of_letters {word : Bytes} (nonempty : word ≠ [])
    (letters : ∀ c ∈ word, isLetter c = true) : Word word := by
  cases word with
  | nil => exact absurd rfl nonempty
  | cons c rest =>
      refine .letters (false_of_class (letters c List.mem_cons_self) (by decide +kernel)) ?_
      intro d inside
      simp [isAlphanumeric, letters d inside]

theorem special_word {word : Bytes} (isSpecial : IsNaN word ∨ IsInfinity word) : Word word := by
  rcases isSpecial with isNaN | isInfinity
  · refine word_of_letters ?_ (isLetter_of_equalsIgnoreCase isNaN (by decide +kernel))
    rintro rfl
    rw [IsNaN] at isNaN
    exact absurd isNaN (by decide)
  · refine word_of_letters ?_ isInfinity.letters
    rintro rfl
    rcases isInfinity with short | long
    · exact absurd short (by decide)
    · exact absurd long (by decide)

theorem wordType_special {word : Bytes} (isSpecial : IsNaN word ∨ IsInfinity word) :
    wordType word = .float := by
  rcases isSpecial with isNaN | short | long
  · exact if_pos ⟨length_of_equalsIgnoreCase isNaN, .inl isNaN⟩
  · exact if_pos ⟨length_of_equalsIgnoreCase short, .inr short⟩
  · have eight : word.length = 8 := length_of_equalsIgnoreCase long
    unfold wordType
    rw [if_neg fun both => by omega, if_neg fun same => by simp [same, ascii] at eight,
      if_neg fun same => by simp [same, ascii] at eight,
      if_neg fun same => by simp [same, ascii] at eight, if_pos ⟨eight, long⟩]

theorem wordType_identifier {word : Bytes} (ordinary : ¬(IsNaN word ∨ IsInfinity word))
    (notKeyword : word ≠ ascii ['t', 'r', 'u', 'e'] ∧ word ≠ ascii ['f', 'a', 'l', 's', 'e'] ∧
      word ≠ ascii ['n', 'u', 'l', 'l']) : wordType word = .identifier := by
  unfold wordType
  rw [if_neg, if_neg notKeyword.1, if_neg notKeyword.2.2, if_neg notKeyword.2.1, if_neg]
  · exact fun both => ordinary (.inr (.inr both.2))
  · rintro ⟨-, isNaN | short⟩
    · exact ordinary (.inl isNaN)
    · exact ordinary (.inr (.inl short))

/-- A word is the lexeme of its type. -/
theorem lexeme_of_word {nul : Prop} {word : Bytes} (isWord : Word word) :
    Lexeme nul (wordType word) word word := by
  by_cases isSpecial : IsNaN word ∨ IsInfinity word
  · rw [wordType_special isSpecial]
    exact .special isSpecial
  by_cases isTrue : word = ascii ['t', 'r', 'u', 'e']
  · subst isTrue
    exact .true
  by_cases isNull : word = ascii ['n', 'u', 'l', 'l']
  · subst isNull
    exact .null
  by_cases isFalse : word = ascii ['f', 'a', 'l', 's', 'e']
  · subst isFalse
    exact .false
  · rw [wordType_identifier isSpecial ⟨isTrue, isFalse, isNull⟩]
    exact .identifier isWord isSpecial ⟨isTrue, isFalse, isNull⟩

/-- The lexer takes a word off. -/
theorem agtypeLex_of_word {word rest : Bytes} (isWord : Word word) (delimited : Delimited rest) :
    agtypeLex true (word ++ rest) = .ok ⟨wordType word, word, [], rest⟩ := by
  cases isWord with
  | @letters c tail noDigit all =>
      have wide : isAlphanumeric c = true := all c List.mem_cons_self
      have space : isSpace c = false := false_of_class wide (by decide +kernel)
      have parts := takeWhile_append_of_all all delimited.noWord
      rw [agtypeLex, List.cons_append, List.dropWhile_cons_of_neg (by simp [space])]
      simp only [lexToken, ne_of_class wide (show isAlphanumeric (byte '{') = false by decide),
        ne_of_class wide (show isAlphanumeric (byte '}') = false by decide),
        ne_of_class wide (show isAlphanumeric (byte '[') = false by decide),
        ne_of_class wide (show isAlphanumeric (byte ']') = false by decide),
        ne_of_class wide (show isAlphanumeric (byte ',') = false by decide),
        ne_of_class wide (show isAlphanumeric (byte ':') = false by decide),
        ne_of_class wide (show isAlphanumeric quote = false by decide),
        ne_of_class wide (show isAlphanumeric (byte '-') = false by decide), noDigit, if_false,
        Bool.false_eq_true]
      rw [← List.cons_append, parts.1, parts.2]
      rfl

end Words

section Tokens

/-- White space before a token makes no difference. -/
theorem agtypeLex_white {white : Bytes} (isWhite : White white) (s : Bytes) :
    agtypeLex true (white ++ s) = agtypeLex true s := by
  rw [agtypeLex, agtypeLex, List.dropWhile_append_of_pos isWhite]

theorem unsignedNumber_head {text : Bytes} {tokenType : AgtypeTokenType}
    (isNumber : UnsignedNumber text tokenType) :
    ∃ c tail, text = c :: tail ∧ isDigit c = true := by
  cases isNumber with
  | parts isMain isFraction isExponent =>
      cases isMain with
      | zero => exact ⟨_, _, rfl, by decide⟩
      | digits digit nonzero more => exact ⟨_, _, rfl, digit⟩

theorem unsignedNumber_type {text : Bytes} {tokenType : AgtypeTokenType}
    (isNumber : UnsignedNumber text tokenType) : tokenType = .float ∨ tokenType = .integer := by
  cases isNumber with
  | parts isMain isFraction isExponent =>
      split_ifs
      · exact .inl rfl
      · exact .inr rfl

theorem lexeme_number {tokenType : AgtypeTokenType} (token rest : Bytes)
    (isNumber : tokenType = .float ∨ tokenType = .integer) :
    lexeme ⟨tokenType, token, [], rest⟩ = token := by
  rcases isNumber with rfl | rfl <;> rfl

theorem agtypeLex_minus (s : Bytes) :
    agtypeLex true (byte '-' :: s) =
      if s.head? = some (byte 'i') ∨ s.head? = some (byte 'I') then
        if isInfinity (s.takeWhile isLetter) then
          .ok ⟨.float, byte '-' :: s.takeWhile isLetter, [], s.dropWhile isLetter⟩
        else .error .invalidToken
      else lexNumberToken (byte '-' :: s) s :=
  rfl

/-- The lexer takes a lexeme off. -/
theorem agtypeLex_of_lexeme {tokenType : AgtypeTokenType} {text value rest : Bytes}
    (isLexeme : Lexeme False tokenType text value) (delimited : Delimited rest)
    (notColon : tokenType ≠ .colon) :
    ∃ lex, agtypeLex true (text ++ rest) = .ok lex ∧ lex.tokenType = tokenType ∧
      lexeme lex = value ∧ lex.rest = rest := by
  cases isLexeme with
  | objectStart => exact ⟨_, rfl, rfl, rfl, rfl⟩
  | objectEnd => exact ⟨_, rfl, rfl, rfl, rfl⟩
  | arrayStart => exact ⟨_, rfl, rfl, rfl, rfl⟩
  | arrayEnd => exact ⟨_, rfl, rfl, rfl, rfl⟩
  | comma => exact ⟨_, rfl, rfl, rfl, rfl⟩
  | colon => exact absurd rfl notColon
  | annotationMark => exact ⟨_, rfl, rfl, rfl, rfl⟩
  | @string body value isBody =>
      have lexed := lexStringLoop_of_body isBody [] rest
      have input : quote :: (body ++ [quote]) ++ rest = quote :: (body ++ quote :: rest) := by simp
      refine ⟨⟨.string, tokenText (quote :: (body ++ quote :: rest)) rest, value, rest⟩, ?_, rfl,
        rfl, rfl⟩
      rw [input]
      change (lexStringLoop true none [] (body ++ quote :: rest)).bind _ = _
      rw [lexed]
      rfl
  | number isNumber =>
      have lexed := agtypeLexNumber_of_number isNumber delimited
      refine ⟨_, ?_, rfl, lexeme_number text rest (unsignedNumber_type isNumber), rfl⟩
      obtain ⟨c, tail, rfl, digit⟩ := unsignedNumber_head isNumber
      have space : isSpace c = false := false_of_class digit (by decide +kernel)
      rw [agtypeLex, List.cons_append, List.dropWhile_cons_of_neg (by simp [space])]
      simp only [lexToken, ne_of_class digit (show isDigit (byte '{') = false by decide),
        ne_of_class digit (show isDigit (byte '}') = false by decide),
        ne_of_class digit (show isDigit (byte '[') = false by decide),
        ne_of_class digit (show isDigit (byte ']') = false by decide),
        ne_of_class digit (show isDigit (byte ',') = false by decide),
        ne_of_class digit (show isDigit (byte ':') = false by decide),
        ne_of_class digit (show isDigit quote = false by decide),
        ne_of_class digit (show isDigit (byte '-') = false by decide), digit, if_false, if_true]
      rw [← List.cons_append]
      exact lexNumberToken_eq lexed
  | @negative text _ isNumber =>
      have lexed := agtypeLexNumber_of_number isNumber delimited
      refine ⟨_, ?_, rfl, lexeme_number (byte '-' :: text) rest (unsignedNumber_type isNumber), rfl⟩
      obtain ⟨c, tail, rfl, digit⟩ := unsignedNumber_head isNumber
      have notInfinity : ¬((c :: tail ++ rest).head? = some (byte 'i') ∨
          (c :: tail ++ rest).head? = some (byte 'I')) := by
        rintro (lower | upper)
        · exact ne_of_class digit (by decide) (Option.some.inj lower)
        · exact ne_of_class digit (by decide) (Option.some.inj upper)
      rw [List.cons_append, agtypeLex_minus, if_neg notInfinity, ← List.cons_append]
      exact lexNumberToken_eq lexed
  | special isSpecial =>
      refine ⟨_, agtypeLex_of_word (special_word isSpecial) delimited, wordType_special isSpecial,
        ?_, rfl⟩
      rw [wordType_special isSpecial]
      rfl
  | @minusInfinity word isSpecial =>
      have parts := takeWhile_append_of_all isSpecial.letters fun c here =>
        isLetter_of_not_alphanumeric (delimited c here).1
      have head : (word ++ rest).head? = some (byte 'i') ∨
          (word ++ rest).head? = some (byte 'I') := by
        cases word with
        | nil => exact absurd isSpecial.head (by decide)
        | cons c tail => exact isSpecial.head
      have named : isInfinity word = true := by
        rw [isInfinity, Bool.or_eq_true, Bool.and_eq_true, Bool.and_eq_true]
        rcases isSpecial with short | long
        · exact .inl ⟨decide_eq_true (length_of_equalsIgnoreCase short), short⟩
        · exact .inr ⟨decide_eq_true (length_of_equalsIgnoreCase long), long⟩
      refine ⟨⟨.float, byte '-' :: word, [], rest⟩, ?_, rfl, rfl, rfl⟩
      rw [List.cons_append, agtypeLex_minus, if_pos head, parts.1, parts.2, if_pos named]
  | true => exact ⟨_, agtypeLex_of_word (word_of_letters (by decide) (by decide +kernel)) delimited,
      rfl, rfl, rfl⟩
  | false => exact ⟨_, agtypeLex_of_word (word_of_letters (by decide) (by decide +kernel)) delimited,
      rfl, rfl, rfl⟩
  | null => exact ⟨_, agtypeLex_of_word (word_of_letters (by decide) (by decide +kernel)) delimited,
      rfl, rfl, rfl⟩
  | identifier isWord ordinary notKeyword =>
      refine ⟨_, agtypeLex_of_word isWord delimited, wordType_identifier ordinary notKeyword,
        ?_, rfl⟩
      rw [wordType_identifier ordinary notKeyword]
      rfl

theorem lexNumberToken_ok {s digits : Bytes} {lex : AgtypeLexContext}
    (lexed : lexNumberToken s digits = .ok lex) :
    ∃ text, digits = text ++ lex.rest ∧ UnsignedNumber text lex.tokenType ∧
      lexeme lex = tokenText s lex.rest := by
  rcases number : agtypeLexNumber digits with ⟨tokenType, error, rest⟩
  simp only [lexNumberToken, number] at lexed
  cases error with
  | true => cases lexed
  | false =>
      cases lexed
      obtain ⟨text, rfl, isNumber⟩ := number_of_agtypeLexNumber number
      exact ⟨text, rfl, isNumber, lexeme_number _ _ (unsignedNumber_type isNumber)⟩

theorem lexToken_quote (s : Bytes) :
    lexToken true quote s = (lexStringLoop true none [] s).bind fun out =>
      .ok ⟨.string, tokenText (quote :: s) out.2, out.1, out.2⟩ :=
  rfl

/-- What the lexer takes off at a character that is no white space -/
theorem lexeme_of_lexToken {c : UInt8} {s : Bytes} {lex : AgtypeLexContext}
    (lexed : lexToken true c s = .ok lex) :
    ∃ text, c :: s = text ++ lex.rest ∧ Lexeme False lex.tokenType text (lexeme lex) := by
  by_cases objectStart : c = byte '{'
  · subst objectStart
    obtain rfl := Except.ok.inj lexed
    exact ⟨_, rfl, .objectStart⟩
  by_cases objectEnd : c = byte '}'
  · subst objectEnd
    obtain rfl := Except.ok.inj lexed
    exact ⟨_, rfl, .objectEnd⟩
  by_cases arrayStart : c = byte '['
  · subst arrayStart
    obtain rfl := Except.ok.inj lexed
    exact ⟨_, rfl, .arrayStart⟩
  by_cases arrayEnd : c = byte ']'
  · subst arrayEnd
    obtain rfl := Except.ok.inj lexed
    exact ⟨_, rfl, .arrayEnd⟩
  by_cases comma : c = byte ','
  · subst comma
    obtain rfl := Except.ok.inj lexed
    exact ⟨_, rfl, .comma⟩
  by_cases colon : c = byte ':'
  · subst colon
    by_cases mark : s.head? = some (byte ':')
    · obtain ⟨tail, rfl⟩ := List.head?_eq_some_iff.1 mark
      obtain rfl := Except.ok.inj lexed
      exact ⟨_, rfl, .annotationMark⟩
    · have single : lexToken true (byte ':') s = .ok ⟨.colon, [byte ':'], [], s⟩ := if_neg mark
      obtain rfl := Except.ok.inj (single.symm.trans lexed)
      exact ⟨_, rfl, .colon⟩
  by_cases isQuote : c = quote
  · subst isQuote
    rw [lexToken_quote] at lexed
    cases body : lexStringLoop true none [] s with
    | error error =>
        rw [body] at lexed
        cases lexed
    | ok out =>
        rw [body] at lexed
        cases lexed
        obtain ⟨text, value, rfl, isValue, isBody⟩ :=
          (@body_of_lexStringLoop s.length s [] out.1 out.2 (le_refl _)).1 body
        refine ⟨quote :: (text ++ [quote]), by simp, ?_⟩
        rw [List.nil_append] at isValue
        change Lexeme False .string _ out.1
        rw [isValue]
        exact .string isBody
  by_cases minus : c = byte '-'
  · subst minus
    have isLex : agtypeLex true (byte '-' :: s) = .ok lex := lexed
    rw [agtypeLex_minus] at isLex
    split_ifs at isLex with infinite named
    · obtain rfl := Except.ok.inj isLex
      refine ⟨byte '-' :: s.takeWhile isLetter, ?_, .minusInfinity ?_⟩
      · rw [List.cons_append, List.takeWhile_append_dropWhile]
      · rw [isInfinity, Bool.or_eq_true, Bool.and_eq_true, Bool.and_eq_true] at named
        rcases named with ⟨-, short⟩ | ⟨-, long⟩
        · exact .inl short
        · exact .inr long
    · obtain ⟨text, whole, isNumber, token⟩ := lexNumberToken_ok isLex
      refine ⟨byte '-' :: text, by rw [List.cons_append, ← whole], ?_⟩
      have isText : byte '-' :: s = byte '-' :: text ++ lex.rest := by
        rw [List.cons_append, ← whole]
      rw [token, isText, tokenText_append]
      exact .negative isNumber
  simp only [lexToken, objectStart, objectEnd, arrayStart, arrayEnd, comma, colon, isQuote, minus,
    if_false] at lexed
  by_cases digit : isDigit c = true
  · rw [if_pos digit] at lexed
    obtain ⟨text, whole, isNumber, token⟩ := lexNumberToken_ok lexed
    refine ⟨text, whole, ?_⟩
    rw [token, whole, tokenText_append]
    exact .number isNumber
  rw [if_neg digit] at lexed
  by_cases empty : ((c :: s).takeWhile isAlphanumeric).isEmpty = true
  · rw [if_pos empty] at lexed
    cases lexed
  · rw [if_neg empty] at lexed
    obtain rfl := Except.ok.inj lexed
    refine ⟨(c :: s).takeWhile isAlphanumeric, List.takeWhile_append_dropWhile.symm, ?_⟩
    have isWord : Word ((c :: s).takeWhile isAlphanumeric) := by
      have all : ∀ d ∈ (c :: s).takeWhile isAlphanumeric, isAlphanumeric d = true :=
        fun d inside => List.mem_takeWhile_imp inside
      by_cases wide : isAlphanumeric c = true
      · rw [List.takeWhile_cons_of_pos wide] at all ⊢
        exact .letters (by simpa using digit) all
      · rw [List.takeWhile_cons_of_neg wide] at empty
        exact absurd rfl empty
    have isLexeme := @lexeme_of_word False _ isWord
    have same : lexeme ⟨wordType ((c :: s).takeWhile isAlphanumeric),
        (c :: s).takeWhile isAlphanumeric, [], (c :: s).dropWhile isAlphanumeric⟩ =
          (c :: s).takeWhile isAlphanumeric := by
      rw [lexeme, if_neg]
      unfold wordType
      split_ifs
      all_goals
        intro isString
        cases isString
    rw [same]
    exact isLexeme

/-- What the lexer takes off is white space and a lexeme, or the end of the input. -/
theorem lexeme_of_agtypeLex {input : Bytes} {lex : AgtypeLexContext}
    (lexed : agtypeLex true input = .ok lex) :
    ∃ white text, input = white ++ (text ++ lex.rest) ∧ White white ∧
      ((lex.tokenType = .endOfInput ∧ text = [] ∧ lex.rest = []) ∨
        Lexeme False lex.tokenType text (lexeme lex)) := by
  have whole := List.takeWhile_append_dropWhile (p := isSpace) (l := input)
  have isWhite : White (input.takeWhile isSpace) := fun c inside => List.mem_takeWhile_imp inside
  rw [agtypeLex] at lexed
  cases left : input.dropWhile isSpace with
  | nil =>
      rw [left] at lexed whole
      cases lexed
      exact ⟨_, [], whole.symm, isWhite, .inl ⟨rfl, rfl, rfl⟩⟩
  | cons c s =>
      rw [left] at lexed whole
      obtain ⟨text, split, isLexeme⟩ := lexeme_of_lexToken lexed
      exact ⟨_, text, by rw [← split, whole], isWhite, .inr isLexeme⟩

end Tokens

end Age.Agtype
