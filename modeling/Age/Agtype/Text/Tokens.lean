import Age.Agtype.Text.Parse

/-!
# Lexing what was printed

The lexer takes off the texts that the printer appends, as long as the character
after them ends a token.
-/

namespace Age.Agtype

open Lib

section Stops

/-- The input goes on with a character that ends a word or a number, if it goes
on. -/
def Stops (rest : Bytes) : Prop :=
  ∀ c ∈ rest.head?, c = byte ',' ∨ c = byte ']' ∨ c = byte '}' ∨ c = byte ':'

/-- What can follow a value. -/
def Ends (rest : Bytes) : Prop :=
  ∀ c ∈ rest.head?, c = byte ',' ∨ c = byte ']' ∨ c = byte '}'

theorem Ends.stops {rest : Bytes} (ends : Ends rest) : Stops rest := by
  intro c membership
  rcases ends c membership with comma | bracket | brace
  · exact .inl comma
  · exact .inr (.inl bracket)
  · exact .inr (.inr (.inl brace))

theorem ends_nil : Ends [] := by
  intro c membership
  cases membership

theorem Stops.not {rest : Bytes} (stops : Stops rest) {p : UInt8 → Bool}
    (excludes : p (byte ',') = false ∧ p (byte ']') = false ∧ p (byte '}') = false ∧
      p (byte ':') = false) : ∀ c ∈ rest.head?, p c = false := by
  intro c membership
  rcases stops c membership with rfl | rfl | rfl | rfl
  · exact excludes.1
  · exact excludes.2.1
  · exact excludes.2.2.1
  · exact excludes.2.2.2

theorem dropWhile_of_head {p : UInt8 → Bool} {rest : Bytes}
    (stops : ∀ c ∈ rest.head?, p c = false) : rest.dropWhile p = rest := by
  cases rest with
  | nil => rfl
  | cons c rest => simp [stops c rfl]

theorem takeWhile_of_head {p : UInt8 → Bool} {rest : Bytes}
    (stops : ∀ c ∈ rest.head?, p c = false) : rest.takeWhile p = [] := by
  cases rest with
  | nil => rfl
  | cons c rest => simp [stops c rfl]

/-- Characters are skipped up to where the skipping stops, or to the end of the
first part and no further. -/
theorem dropWhile_append_of_head {p : UInt8 → Bool} {s rest : Bytes}
    (stops : ∀ c ∈ rest.head?, p c = false) :
    (s ++ rest).dropWhile p = s.dropWhile p ++ rest := by
  rw [List.dropWhile_append, dropWhile_of_head stops]
  split_ifs with empty
  · rw [List.isEmpty_iff.mp empty, List.nil_append]
  · rfl

theorem takeWhile_append_of_all {p : UInt8 → Bool} {s r : Bytes} (all : ∀ c ∈ s, p c = true)
    (stops : ∀ c ∈ r.head?, p c = false) :
    (s ++ r).takeWhile p = s ∧ (s ++ r).dropWhile p = r := by
  rw [List.takeWhile_append_of_pos all, takeWhile_of_head stops, List.append_nil,
    List.dropWhile_append_of_pos all, dropWhile_of_head stops]
  exact ⟨rfl, rfl⟩

@[simp]
theorem tokenText_append (s rest : Bytes) : tokenText (s ++ rest) rest = s := by
  simp [tokenText]

end Stops

section Strings

theorem hexValue_hexDigit {digit : Nat} (small : digit < 16) :
    hexValue (hexDigit digit) = some digit := by
  have all : ∀ digit < 16, hexValue (hexDigit digit) = some digit := by decide
  exact all digit small

theorem lexUnicode_control (utf8 : Bool) {c : UInt8} (nonzero : c ≠ 0) (control : c < 32) :
    lexUnicode utf8 none c.toNat = .ok (none, [c]) := by
  have small : c.toNat < 32 := control
  have positive : c.toNat ≠ 0 := fun zero => nonzero (UInt8.toNat_inj.mp zero)
  have high : ¬ (0xd800 ≤ c.toNat ∧ c.toNat ≤ 0xdbff) := by omega
  have low : ¬ (0xdc00 ≤ c.toNat ∧ c.toNat ≤ 0xdfff) := by omega
  have ascii : c.toNat ≤ 0x7f := by omega
  simp only [lexUnicode, if_neg high, if_neg low]
  cases utf8 <;> simp [Except.bind, bind, positive, ascii, unicodeToUtf8]

/-- A one-letter escape. -/
theorem lexStringLoop_letter (utf8 : Bool) {e c : UInt8} (unescaped : unescape e = some c)
    (notU : e ≠ byte 'u') (strval rest : Bytes) :
    lexStringLoop utf8 none strval (backslash :: e :: rest) =
      lexStringLoop utf8 none (strval ++ [c]) rest := by
  conv_lhs => unfold lexStringLoop
  simp only [show ¬ backslash = quote by decide, show ¬ backslash < 32 by decide, if_false,
    if_true, notU, unescaped, Option.isSome_none, Bool.false_eq_true]

/-- A `\u` escape of a control character. -/
theorem lexStringLoop_control (utf8 : Bool) {c : UInt8} (nonzero : c ≠ 0) (control : c < 32)
    (strval rest : Bytes) :
    lexStringLoop utf8 none strval (backslash :: byte 'u' :: byte '0' :: byte '0' ::
        hexDigit (c.toNat / 16) :: hexDigit (c.toNat % 16) :: rest) =
      lexStringLoop utf8 none (strval ++ [c]) rest := by
  have small : c.toNat < 32 := control
  have zero : hexValue (byte '0') = some 0 := by decide
  have digits : lexHexDigits 4 0 (byte '0' :: byte '0' :: hexDigit (c.toNat / 16) ::
      hexDigit (c.toNat % 16) :: rest) = .ok c.toNat := by
    simp only [lexHexDigits, zero, hexValue_hexDigit (show c.toNat / 16 < 16 by omega),
      hexValue_hexDigit (show c.toNat % 16 < 16 by omega)]
    congr 1
    omega
  conv_lhs => unfold lexStringLoop
  simp only [show ¬ backslash = quote by decide, show ¬ backslash < 32 by decide, if_false,
    if_true, digits, lexUnicode_control utf8 nonzero control]

/-- The lexer undoes the escaping of a character. -/
theorem lexStringLoop_escapeChar (utf8 : Bool) {c : UInt8} (nonzero : c ≠ 0)
    (strval rest : Bytes) :
    lexStringLoop utf8 none strval (escapeChar c ++ rest) =
      lexStringLoop utf8 none (strval ++ [c]) rest := by
  unfold escapeChar
  split_ifs with isB isF isN isR isT isQuote isBack control
  · exact lexStringLoop_letter utf8 (isB ▸ rfl) (by decide) strval rest
  · exact lexStringLoop_letter utf8 (isF ▸ rfl) (by decide) strval rest
  · exact lexStringLoop_letter utf8 (isN ▸ rfl) (by decide) strval rest
  · exact lexStringLoop_letter utf8 (isR ▸ rfl) (by decide) strval rest
  · exact lexStringLoop_letter utf8 (isT ▸ rfl) (by decide) strval rest
  · subst isQuote
    exact lexStringLoop_letter utf8 rfl (by decide) strval rest
  · subst isBack
    exact lexStringLoop_letter utf8 rfl (by decide) strval rest
  · exact lexStringLoop_control utf8 nonzero control strval rest
  · rw [List.singleton_append]
    conv_lhs => unfold lexStringLoop
    simp only [isQuote, control, isBack, if_false, Option.isSome_none, Bool.false_eq_true]

theorem lexStringLoop_escaped (utf8 : Bool) {str : Bytes} (nonzero : ∀ c ∈ str, c ≠ 0)
    (strval rest : Bytes) :
    lexStringLoop utf8 none strval (str.flatMap escapeChar ++ quote :: rest) =
      .ok (strval ++ str, rest) := by
  induction str generalizing strval with
  | nil =>
      rw [List.flatMap_nil, List.nil_append, List.append_nil]
      unfold lexStringLoop
      rfl
  | cons c str inductionHypothesis =>
      rw [List.flatMap_cons, List.append_assoc, lexStringLoop_escapeChar utf8 (nonzero c (by simp)),
        inductionHypothesis fun c membership => nonzero c (by simp [membership])]
      simp

/-- A string literal is one token, whatever follows. -/
theorem agtypeLex_escapeAgtype (utf8 : Bool) {str : Bytes} (nonzero : ∀ c ∈ str, c ≠ 0)
    (rest : Bytes) :
    ∃ lex, agtypeLex utf8 (escapeAgtype str ++ rest) = .ok lex ∧ lex.tokenType = .string ∧
      lexeme lex = str ∧ lex.rest = rest := by
  refine ⟨⟨.string, tokenText (escapeAgtype str ++ rest) rest, str, rest⟩, ?_, rfl, rfl, rfl⟩
  have body := lexStringLoop_escaped utf8 nonzero [] rest
  have input : escapeAgtype str ++ rest =
      quote :: (str.flatMap escapeChar ++ quote :: rest) := by
    simp [escapeAgtype]
  rw [input]
  change lexToken utf8 quote (str.flatMap escapeChar ++ quote :: rest) = _
  change (lexStringLoop utf8 none [] (str.flatMap escapeChar ++ quote :: rest)).bind _ = _
  rw [body]
  rfl

end Strings

section Numbers

theorem lexMainDigits_append {s r w : Bytes} (lexed : lexMainDigits s = (false, r))
    (stops : ∀ c ∈ w.head?, isDigit c = false) :
    lexMainDigits (s ++ w) = (false, r ++ w) := by
  cases s with
  | nil => cases lexed
  | cons c s =>
      simp only [lexMainDigits, List.cons_append] at lexed ⊢
      split_ifs at lexed ⊢ with zero digit
      · cases lexed
        rfl
      · cases lexed
        rw [dropWhile_append_of_head stops]
      · cases lexed

theorem startsWithDigit_append {s : Bytes} (starts : startsWithDigit s = true) (rest : Bytes) :
    startsWithDigit (s ++ rest) = true := by
  cases s with
  | nil => cases starts
  | cons c s => exact starts

theorem lexFraction_append {s r rest : Bytes} {found : Bool}
    (lexed : lexFraction s = (found, false, r)) (stops : Stops rest) :
    lexFraction (s ++ rest) = (found, false, r ++ rest) := by
  cases s with
  | nil =>
      cases lexed
      cases rest with
      | nil => rfl
      | cons c rest =>
          have other : ¬ c = byte '.' := by
            have excluded := stops.not (p := (· = byte '.')) (by decide) c rfl
            simpa using excluded
          simp [lexFraction, other]
  | cons c s =>
      simp only [lexFraction, List.cons_append] at lexed ⊢
      split_ifs at lexed ⊢ with point
      · injection lexed with isFound others
        injection others with good remaining
        have starts : startsWithDigit s = true := by simpa using good
        subst isFound
        rw [startsWithDigit_append starts, dropWhile_append_of_head (stops.not (by decide)),
          remaining]
        rfl
      · cases lexed
        rfl

theorem skipSign_append {s : Bytes} (starts : startsWithDigit (skipSign s) = true)
    (rest : Bytes) : skipSign (s ++ rest) = skipSign s ++ rest := by
  cases s with
  | nil => cases starts
  | cons c s =>
      simp only [skipSign, List.cons_append]
      split_ifs <;> rfl

theorem lexExponent_append {s r rest : Bytes} {found : Bool}
    (lexed : lexExponent s = (found, false, r)) (stops : Stops rest) :
    lexExponent (s ++ rest) = (found, false, r ++ rest) := by
  cases s with
  | nil =>
      cases lexed
      cases rest with
      | nil => rfl
      | cons c rest =>
          have other : ¬ (c = byte 'e' || c = byte 'E') = true := by
            have excluded := stops.not (p := fun c => c = byte 'e' || c = byte 'E')
              (by decide) c rfl
            simpa using excluded
          simp only [List.nil_append, lexExponent, if_neg other]
  | cons c s =>
      simp only [lexExponent, List.cons_append] at lexed ⊢
      split_ifs at lexed ⊢ with exponent
      · injection lexed with isFound others
        injection others with good remaining
        have starts : startsWithDigit (skipSign s) = true := by simpa using good
        subst isFound
        rw [skipSign_append starts, startsWithDigit_append starts,
          dropWhile_append_of_head (stops.not (by decide)), remaining]
        rfl
      · cases lexed
        rfl

/-- The parts of a number that is a token by itself. -/
theorem agtypeLexNumber_parts {s : Bytes} {tokenType : AgtypeTokenType}
    (lexed : agtypeLexNumber s = (tokenType, false, [])) :
    ∃ hasFraction hasExponent afterMain afterFraction,
      lexMainDigits s = (false, afterMain) ∧
      lexFraction afterMain = (hasFraction, false, afterFraction) ∧
      lexExponent afterFraction = (hasExponent, false, []) ∧
      tokenType = if hasFraction || hasExponent then .float else .integer := by
  rcases mainLexed : lexMainDigits s with ⟨mainError, afterMain⟩
  rcases fractionLexed : lexFraction afterMain with ⟨hasFraction, fractionError, afterFraction⟩
  rcases exponentLexed : lexExponent afterFraction with
    ⟨hasExponent, exponentError, afterExponent⟩
  simp only [agtypeLexNumber, mainLexed, fractionLexed, exponentLexed] at lexed
  injection lexed with isType others
  injection others with good ended
  simp only [Bool.or_eq_false_iff] at good
  obtain ⟨⟨⟨noMain, noFraction⟩, noExponent⟩, noGarbage⟩ := good
  subst noMain noFraction noExponent
  have empty : afterExponent = [] := by
    have parts := List.takeWhile_append_dropWhile (p := isAlphanumeric) (l := afterExponent)
    rw [ended, List.append_nil] at parts
    rw [← parts]
    simpa using noGarbage
  exact ⟨_, _, _, _, rfl, fractionLexed, empty ▸ exponentLexed, isType.symm⟩

/-- A number that is a token by itself is one before a stop, too. -/
theorem agtypeLexNumber_append {s rest : Bytes} {tokenType : AgtypeTokenType}
    (lexed : agtypeLexNumber s = (tokenType, false, [])) (stops : Stops rest) :
    agtypeLexNumber (s ++ rest) = (tokenType, false, rest) := by
  obtain ⟨_, _, _, _, mainLexed, fractionLexed, exponentLexed, rfl⟩ :=
    agtypeLexNumber_parts lexed
  have stopsWord := stops.not (p := isAlphanumeric) (by decide)
  simp only [agtypeLexNumber, lexMainDigits_append mainLexed (stops.not (by decide)),
    lexFraction_append fractionLexed stops, lexExponent_append exponentLexed stops,
    List.nil_append, takeWhile_of_head stopsWord, dropWhile_of_head stopsWord]
  rfl

theorem all_of_dropWhile_nil {p : UInt8 → Bool} {s : Bytes} (dropped : s.dropWhile p = []) :
    s.all p = true := by
  have parts := List.takeWhile_append_dropWhile (p := p) (l := s)
  rw [dropped, List.append_nil] at parts
  rw [← parts]
  exact List.all_takeWhile

/-- A number without a fraction or an exponent is made of digits. -/
theorem all_isDigit_of_integer {s : Bytes}
    (lexed : agtypeLexNumber s = (.integer, false, [])) :
    s.all isDigit = true ∧ lexMainDigits s = (false, []) := by
  obtain ⟨hasFraction, hasExponent, afterMain, afterFraction, mainLexed, fractionLexed,
    exponentLexed, isType⟩ := agtypeLexNumber_parts lexed
  have plain : hasFraction = false ∧ hasExponent = false := by
    cases hasFraction <;> cases hasExponent <;> simp at isType ⊢
  obtain ⟨rfl, rfl⟩ := plain
  have noExponent : afterFraction = [] := by
    cases afterFraction with
    | nil => rfl
    | cons c rest =>
        simp only [lexExponent] at exponentLexed
        split_ifs at exponentLexed <;> cases exponentLexed
  subst noExponent
  have noFraction : afterMain = [] := by
    cases afterMain with
    | nil => rfl
    | cons c rest =>
        simp only [lexFraction] at fractionLexed
        split_ifs at fractionLexed <;> cases fractionLexed
  subst noFraction
  refine ⟨?_, mainLexed⟩
  cases s with
  | nil => rfl
  | cons c s =>
      simp only [lexMainDigits] at mainLexed
      split_ifs at mainLexed with zero digit
      · injection mainLexed with _ ended
        subst zero ended
        rfl
      · injection mainLexed with _ ended
        rw [List.all_cons, digit, all_of_dropWhile_nil ended]
        rfl
      · cases mainLexed

/-- Digits that are a token by themselves are an integer. -/
theorem integer_of_all_isDigit {s : Bytes} {tokenType : AgtypeTokenType}
    (lexed : agtypeLexNumber s = (tokenType, false, [])) (digits : s.all isDigit = true) :
    tokenType = .integer := by
  obtain ⟨hasFraction, hasExponent, afterMain, afterFraction, mainLexed, fractionLexed,
    exponentLexed, isType⟩ := agtypeLexNumber_parts lexed
  have only : ∀ c ∈ s, isDigit c = true := List.all_eq_true.mp digits
  have suffix : ∀ c ∈ afterMain, isDigit c = true := by
    intro c inside
    refine only c ?_
    cases s with
    | nil => cases mainLexed
    | cons d s =>
        simp only [lexMainDigits] at mainLexed
        split_ifs at mainLexed
        · injection mainLexed with _ same
          exact List.mem_cons_of_mem _ (same ▸ inside)
        · injection mainLexed with _ same
          refine List.mem_cons_of_mem _ ((List.dropWhile_suffix isDigit).subset ?_)
          exact same ▸ inside
        · cases mainLexed
  have noFraction : lexFraction afterMain = (false, false, afterMain) := by
    cases afterMain with
    | nil => rfl
    | cons c rest =>
        have other : ¬ c = byte '.' := by
          rintro rfl
          exact absurd (suffix _ List.mem_cons_self) (by decide)
        simp [lexFraction, other]
  obtain ⟨rfl, -, rfl⟩ : hasFraction = false ∧ _ ∧ afterFraction = afterMain := by
    have same := fractionLexed.symm.trans noFraction
    injection same with first others
    injection others with second third
    exact ⟨first, second, third⟩
  have noExponent : lexExponent afterFraction = (false, false, afterFraction) := by
    cases afterFraction with
    | nil => rfl
    | cons c rest =>
        have other : ¬ (c = byte 'e' || c = byte 'E') = true := by
          intro exponent
          have digit := suffix _ List.mem_cons_self
          rcases Bool.or_eq_true_iff.mp exponent with lower | upper
          · rw [of_decide_eq_true lower] at digit
            exact absurd digit (by decide)
          · rw [of_decide_eq_true upper] at digit
            exact absurd digit (by decide)
        simp only [lexExponent, if_neg other]
  have exponentFree : hasExponent = false :=
    congrArg Prod.fst (exponentLexed.symm.trans noExponent)
  rw [isType, exponentFree]
  rfl

/-- `.0` after an integer makes it a float. -/
theorem agtypeLexNumber_point {s : Bytes} (lexed : agtypeLexNumber s = (.integer, false, [])) :
    agtypeLexNumber (s ++ ascii ['.', '0']) = (.float, false, []) := by
  obtain ⟨-, mainLexed⟩ := all_isDigit_of_integer lexed
  have main := lexMainDigits_append (w := ascii ['.', '0']) mainLexed (by
    intro c inside
    cases inside
    rfl)
  simp only [agtypeLexNumber, main]
  rfl

end Numbers

section Words

theorem ne_of_class {p : UInt8 → Bool} {c d : UInt8} (member : p c = true)
    (excluded : p d = false) : c ≠ d := by
  rintro rfl
  rw [member] at excluded
  cases excluded

theorem false_of_class {p q : UInt8 → Bool} {c : UInt8} (member : p c = true)
    (disjoint : ∀ n < 256, p (UInt8.ofNat n) = true → q (UInt8.ofNat n) = false) :
    q c = false := by
  have result := disjoint c.toNat c.toNat_lt
  rw [UInt8.ofNat_toNat] at result
  exact result member

/-- A word before a stop. -/
theorem agtypeLex_word (utf8 : Bool) {c : UInt8} {w rest : Bytes}
    (letters : ∀ d ∈ c :: w, isLetter d = true) (stops : Stops rest) :
    agtypeLex utf8 (c :: w ++ rest) = .ok ⟨wordType (c :: w), c :: w, [], rest⟩ := by
  have letter : isLetter c = true := letters c List.mem_cons_self
  have space : isSpace c = false := false_of_class letter (by decide +kernel)
  have digit : ¬ isDigit c = true := by
    rw [false_of_class letter (q := isDigit) (by decide +kernel)]
    decide
  have wide : ∀ d ∈ c :: w, isAlphanumeric d = true := fun d inside => by
    simp [isAlphanumeric, letters d inside]
  have parts := takeWhile_append_of_all wide (stops.not (p := isAlphanumeric) (by decide))
  rw [agtypeLex, List.cons_append, List.dropWhile_cons_of_neg (by simp [space])]
  simp only [lexToken, ne_of_class letter (show isLetter (byte '{') = false by decide),
    ne_of_class letter (show isLetter (byte '}') = false by decide),
    ne_of_class letter (show isLetter (byte '[') = false by decide),
    ne_of_class letter (show isLetter (byte ']') = false by decide),
    ne_of_class letter (show isLetter (byte ',') = false by decide),
    ne_of_class letter (show isLetter (byte ':') = false by decide),
    ne_of_class letter (show isLetter quote = false by decide),
    ne_of_class letter (show isLetter (byte '-') = false by decide), digit, if_false]
  rw [← List.cons_append, parts.1, parts.2]
  rfl

end Words

section Texts

/-- The number after its sign. -/
def unsigned : Bytes → Bytes
  | [] => []
  | c :: rest => if c = byte '-' then rest else c :: rest

theorem valid_parts {text : Bytes} (valid : isValidAgtypeNumber text = true) :
    ∃ tokenType, agtypeLexNumber (unsigned text) = (tokenType, false, []) ∧
      (tokenType = .integer ∨ tokenType = .float) := by
  cases text with
  | nil => cases valid
  | cons c rest =>
      simp only [isValidAgtypeNumber] at valid
      rcases lexed : agtypeLexNumber (unsigned (c :: rest)) with ⟨tokenType, error, after⟩
      have unsignedEq : (if c = byte '-' then rest else c :: rest) = unsigned (c :: rest) := rfl
      rw [unsignedEq, lexed] at valid
      obtain ⟨good, ended⟩ := Bool.and_eq_true_iff.mp valid
      obtain rfl : error = false := by simpa using good
      obtain rfl : after = [] := List.isEmpty_iff.mp ended
      refine ⟨tokenType, rfl, ?_⟩
      obtain ⟨_, _, _, _, -, -, -, rfl⟩ := agtypeLexNumber_parts lexed
      split_ifs
      · exact .inr rfl
      · exact .inl rfl

theorem lexMainDigits_starts {s r : Bytes} (lexed : lexMainDigits s = (false, r)) :
    ∃ c rest, s = c :: rest ∧ isDigit c = true := by
  cases s with
  | nil => cases lexed
  | cons c rest =>
      refine ⟨c, rest, rfl, ?_⟩
      simp only [lexMainDigits] at lexed
      split_ifs at lexed with zero digit
      · rw [zero]
        decide
      · exact digit
      · cases lexed

theorem lexNumberToken_eq {text rest digits : Bytes} {tokenType : AgtypeTokenType}
    (lexed : agtypeLexNumber digits = (tokenType, false, rest)) :
    lexNumberToken (text ++ rest) digits = .ok ⟨tokenType, text, [], rest⟩ := by
  simp only [lexNumberToken, lexed, tokenText_append]
  rfl

/-- A number before a stop. -/
theorem agtypeLex_number (utf8 : Bool) {text rest : Bytes} {tokenType : AgtypeTokenType}
    (nonempty : text ≠ []) (lexed : agtypeLexNumber (unsigned text) = (tokenType, false, []))
    (stops : Stops rest) :
    agtypeLex utf8 (text ++ rest) = .ok ⟨tokenType, text, [], rest⟩ := by
  have after := agtypeLexNumber_append lexed stops
  obtain ⟨_, _, _, _, mainLexed, -, -, -⟩ := agtypeLexNumber_parts lexed
  obtain ⟨d, digits, starts, digit⟩ := lexMainDigits_starts mainLexed
  cases text with
  | nil => exact absurd rfl nonempty
  | cons c text =>
      by_cases sign : c = byte '-'
      · subst sign
        have isUnsigned : unsigned (byte '-' :: text) = text := rfl
        rw [isUnsigned] at after starts
        have notInfinity : ¬ ((text ++ rest).head? = some (byte 'i') ∨
            (text ++ rest).head? = some (byte 'I')) := by
          rw [starts]
          rintro (lower | upper)
          · exact ne_of_class digit (by decide) (Option.some.inj lower)
          · exact ne_of_class digit (by decide) (Option.some.inj upper)
        change lexToken utf8 (byte '-') (text ++ rest) = _
        change (if _ then _ else lexNumberToken (byte '-' :: (text ++ rest)) (text ++ rest)) = _
        rw [if_neg notInfinity, ← List.cons_append]
        exact lexNumberToken_eq after
      · have isUnsigned : unsigned (c :: text) = c :: text := if_neg sign
        rw [isUnsigned] at after starts
        obtain ⟨rfl, rfl⟩ := List.cons.inj starts
        have space : isSpace c = false := false_of_class digit (by decide +kernel)
        rw [agtypeLex, List.cons_append, List.dropWhile_cons_of_neg (by simp [space])]
        simp only [lexToken, ne_of_class digit (show isDigit (byte '{') = false by decide),
          ne_of_class digit (show isDigit (byte '}') = false by decide),
          ne_of_class digit (show isDigit (byte '[') = false by decide),
          ne_of_class digit (show isDigit (byte ']') = false by decide),
          ne_of_class digit (show isDigit (byte ',') = false by decide),
          ne_of_class digit (show isDigit (byte ':') = false by decide),
          ne_of_class digit (show isDigit quote = false by decide), sign, digit, if_false,
          if_true]
        rw [← List.cons_append]
        exact lexNumberToken_eq after

/-- The text of a float or of a numeric: a number, or the name of a special value. -/
def NumberText (text : Bytes) : Prop :=
  isValidAgtypeNumber text = true ∨ text = ascii ['N', 'a', 'N'] ∨
    text = ascii ['I', 'n', 'f', 'i', 'n', 'i', 't', 'y'] ∨
    text = ascii ['-', 'I', 'n', 'f', 'i', 'n', 'i', 't', 'y']

theorem agtypeLex_minusInfinity (utf8 : Bool) {rest : Bytes} (stops : Stops rest) :
    agtypeLex utf8 (ascii ['-', 'I', 'n', 'f', 'i', 'n', 'i', 't', 'y'] ++ rest) =
      .ok ⟨.float, ascii ['-', 'I', 'n', 'f', 'i', 'n', 'i', 't', 'y'], [], rest⟩ := by
  have parts := takeWhile_append_of_all (p := isLetter)
    (s := ascii ['I', 'n', 'f', 'i', 'n', 'i', 't', 'y']) (by decide +kernel)
    (stops.not (p := isLetter) (by decide))
  change (if isInfinity ((ascii ['I', 'n', 'f', 'i', 'n', 'i', 't', 'y'] ++ rest).takeWhile
    isLetter) then _ else _) = _
  rw [parts.1]
  change Except.ok (AgtypeLexContext.mk AgtypeTokenType.float
    (byte '-' :: (ascii ['I', 'n', 'f', 'i', 'n', 'i', 't', 'y'] ++ rest).takeWhile isLetter) []
    ((ascii ['I', 'n', 'f', 'i', 'n', 'i', 't', 'y'] ++ rest).dropWhile isLetter)) = _
  rw [parts.1, parts.2]
  rfl

/-- The text of a number is one token before a stop. -/
theorem agtypeLex_numberText (utf8 : Bool) {text rest : Bytes} (shape : NumberText text)
    (stops : Stops rest) :
    ∃ tokenType, agtypeLex utf8 (text ++ rest) = .ok ⟨tokenType, text, [], rest⟩ ∧
      (tokenType = .integer ∨ tokenType = .float) := by
  rcases shape with valid | rfl | rfl | rfl
  · obtain ⟨tokenType, lexed, isNumber⟩ := valid_parts valid
    have nonempty : text ≠ [] := by
      rintro rfl
      cases valid
    exact ⟨tokenType, agtypeLex_number utf8 nonempty lexed stops, isNumber⟩
  · exact ⟨.float, agtypeLex_word utf8 (by decide +kernel) stops, .inr rfl⟩
  · exact ⟨.float, agtypeLex_word utf8
      (by decide +kernel) stops, .inr rfl⟩
  · exact ⟨.float, agtypeLex_minusInfinity utf8 stops, .inr rfl⟩

/-- A float is printed as a float token. -/
theorem agtypeLex_float8Text (ops : TextOps) (utf8 : Bool) {val : Float8} {rest : Bytes}
    (shape : NumberText (ops.float8Out val)) (stops : Stops rest) :
    agtypeLex utf8 (float8Text ops val ++ rest) =
      .ok ⟨.float, float8Text ops val, [], rest⟩ := by
  have plain {text : Bytes} (whole : isDecimalNeeded text = false)
      (is : ops.float8Out val = text) : float8Text ops val = text := by
    simp [float8Text, is, whole]
  rcases shape with valid | nan | infinity | minusInfinity
  · obtain ⟨tokenType, lexed, isNumber⟩ := valid_parts valid
    have digits : isDecimalNeeded (ops.float8Out val) =
        (unsigned (ops.float8Out val)).all isDigit := by
      cases ops.float8Out val with
      | nil => rfl
      | cons c rest =>
          simp only [isDecimalNeeded, unsigned]
          split_ifs <;> rfl
    have nonempty : ops.float8Out val ≠ [] := by
      intro empty
      rw [empty] at valid
      cases valid
    simp only [float8Text]
    split_ifs with whole
    · rw [digits] at whole
      obtain rfl := integer_of_all_isDigit lexed whole
      refine agtypeLex_number utf8 (by simp [nonempty]) ?_ stops
      have moved : unsigned (ops.float8Out val ++ ascii ['.', '0']) =
          unsigned (ops.float8Out val) ++ ascii ['.', '0'] := by
        cases out : ops.float8Out val with
        | nil => exact absurd out nonempty
        | cons c rest =>
            simp only [unsigned, List.cons_append]
            split_ifs <;> rfl
      rw [moved]
      exact agtypeLexNumber_point lexed
    · rcases isNumber with rfl | rfl
      · rw [digits] at whole
        exact absurd (all_isDigit_of_integer lexed).1 whole
      · exact agtypeLex_number utf8 nonempty lexed stops
  · rw [plain (by decide) nan]
    exact agtypeLex_word utf8 (by decide +kernel) stops
  · rw [plain (by decide) infinity]
    exact agtypeLex_word utf8
      (by decide +kernel) stops
  · rw [plain (by decide) minusInfinity]
    exact agtypeLex_minusInfinity utf8 stops

theorem lexMainDigits_decimal (number : Nat) : lexMainDigits (decimal number) = (false, []) := by
  unfold decimal
  split_ifs with zero
  · rfl
  · have digits : ∀ d ∈ (Nat.digits 10 number).reverse, d < 10 := fun d inside =>
      Nat.digits_lt_base (by decide) (List.mem_reverse.mp inside)
    have isDigits : ∀ d < 10, isDigit (UInt8.ofNat (48 + d)) = true := by decide
    cases reversed : (Nat.digits 10 number).reverse with
    | nil =>
        rw [List.reverse_eq_nil_iff, Nat.digits_eq_nil_iff_eq_zero] at reversed
        exact absurd reversed zero
    | cons d rest =>
        rw [reversed] at digits
        have all : ∀ c ∈ rest.map fun d => UInt8.ofNat (48 + d), isDigit c = true := by
          intro c inside
          obtain ⟨e, member, rfl⟩ := List.mem_map.mp inside
          exact isDigits e (digits e (by simp [member]))
        have dropped : (rest.map fun d => UInt8.ofNat (48 + d)).dropWhile isDigit = [] := by
          have parts := takeWhile_append_of_all (r := []) all (by simp)
          simpa using parts.2
        have nonzero : UInt8.ofNat (48 + d) ≠ byte '0' := by
          have last : d ≠ 0 := by
            have top := Nat.getLast_digit_ne_zero 10 zero
            have forward : Nat.digits 10 number = rest.reverse ++ [d] := by
              rw [← List.reverse_reverse (Nat.digits 10 number), reversed]
              simp
            simpa [forward] using top
          have small := digits d (by simp)
          have distinct : ∀ d < 10, d ≠ 0 → UInt8.ofNat (48 + d) ≠ byte '0' := by decide
          exact distinct d small last
        simp only [List.map_cons, lexMainDigits, nonzero, if_false,
          isDigits d (digits d (by simp)), if_true, dropped]

/-- An integer is printed as an integer token. -/
theorem agtypeLex_pgLltoa (utf8 : Bool) (val : Int64) {rest : Bytes} (stops : Stops rest) :
    agtypeLex utf8 (pgLltoa val ++ rest) = .ok ⟨.integer, pgLltoa val, [], rest⟩ := by
  have lexed (number : Nat) : agtypeLexNumber (decimal number) = (.integer, false, []) := by
    simp only [agtypeLexNumber, lexMainDigits_decimal]
    rfl
  have nonempty (number : Nat) : decimal number ≠ [] := by
    intro empty
    have main := lexMainDigits_decimal number
    rw [empty] at main
    cases main
  unfold pgLltoa
  split_ifs with negative
  · exact agtypeLex_number utf8 (by simp) (lexed _) stops
  · refine agtypeLex_number utf8 (nonempty _) ?_ stops
    have same : unsigned (decimal val.toInt.natAbs) = decimal val.toInt.natAbs := by
      obtain ⟨c, rest, starts, digit⟩ :=
        lexMainDigits_starts (lexMainDigits_decimal val.toInt.natAbs)
      rw [starts]
      exact if_neg (ne_of_class digit (by decide))
    rw [same]
    exact lexed _

end Texts

end Age.Agtype
