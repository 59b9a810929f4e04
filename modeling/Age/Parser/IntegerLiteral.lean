import Age.Lib.LongDivision
import Age.Server.Text

/-!
# Integer literals of the scanner

A literal that is too large for an `int` becomes a decimal token.  An octal or a hexadecimal one
is written in decimal for that: its digits fill words of 30 or 32 bits, which are divided by 10^9
until they are zero, and the remainders are the groups of decimal digits.
-/

namespace Age.Parser

open Lib Age.Agtype Age.Server Age.LongDivision

section Definitions

/-- The members of `ag_token` that an integer literal becomes -/
inductive AgToken where
  | integer (i : Int)
  | decimal (s : Bytes)
  deriving DecidableEq, Repr

inductive LiteralError where
  /-- `invalid octal integer literal` -/
  | invalidOctal
  /-- a remainder is written after the end of `remainders` -/
  | bufferOverrun
  deriving DecidableEq, Repr

def isOctdigit (c : UInt8) : Bool := byte '0' ≤ c && c ≤ byte '7'

def isHexdigit (c : UInt8) : Bool :=
  isDigit c || (byte 'A' ≤ c && c ≤ byte 'F') || (byte 'a' ≤ c && c ≤ byte 'f')

def hexdigitValue (c : UInt8) : Nat :=
  if byte '0' ≤ c && c ≤ byte '9' then c.toNat - 48
  else if byte 'A' ≤ c && c ≤ byte 'F' then 10 + (c.toNat - 65)
  else 10 + (c.toNat - 97)

def octdigitValue (c : UInt8) : Nat := c.toNat - 48

/-- The bases that `_numstr_to_decimal` knows -/
inductive NumstrBase where
  | hex
  | oct
  deriving DecidableEq, Repr

namespace NumstrBase

def ndigitsPerWord : NumstrBase → Nat
  | hex => 8
  | oct => 10

def nbitsPerDigit : NumstrBase → Nat
  | hex => 4
  | oct => 3

def digitValue : NumstrBase → UInt8 → Nat
  | hex => hexdigitValue
  | oct => octdigitValue

def isBaseDigit : NumstrBase → UInt8 → Bool
  | hex => isHexdigit
  | oct => isOctdigit

end NumstrBase

/-- The divisor of the conversion, 10^9 -/
def divisor : Nat := 1000000000

/-- At most that many divisions eliminate one word. -/
def ndivisions : Nat := 3

/-- A word of 32 bits, filled digit by digit -/
def fillWord (nbitsPerDigit : Nat) : List Nat → Nat
  | [] => 0
  | first :: rest =>
      rest.foldl (fun word digit => (word <<< nbitsPerDigit) % 2 ^ 32 ||| digit) first

/-- The words after the first one -/
def fillWords (ndigitsPerWord nbitsPerDigit : Nat) : (nwords : Nat) → List Nat → List Nat
  | 0, _ => []
  | nwords + 1, digits =>
      fillWord nbitsPerDigit (digits.take ndigitsPerWord) ::
        fillWords ndigitsPerWord nbitsPerDigit nwords (digits.drop ndigitsPerWord)

/-- `words`, of which the first holds the digits that are over -/
def NumstrBase.words (base : NumstrBase) (digits : List Nat) : List Nat :=
  let ndigits := digits.length
  let nwords := (ndigits + (base.ndigitsPerWord - 1)) / base.ndigitsPerWord
  let ndigitsWord0 :=
    if ndigits % base.ndigitsPerWord = 0 then base.ndigitsPerWord
    else ndigits % base.ndigitsPerWord
  fillWord base.nbitsPerDigit (digits.take ndigitsWord0) ::
    fillWords base.ndigitsPerWord base.nbitsPerDigit (nwords - 1) (digits.drop ndigitsWord0)

/-- The bits of a full word -/
def NumstrBase.wordBits (base : NumstrBase) : Nat := base.nbitsPerDigit * base.ndigitsPerWord

/-- One division of the words by the divisor -/
def divideWords (wordBits : Nat) : (r : Nat) → List Nat → List Nat × Nat
  | r, [] => ([], r)
  | r, word :: rest =>
      let d := word ||| (r <<< wordBits) % 2 ^ 64
      let (words, last) := divideWords wordBits (d % divisor) rest
      ((d / divisor) % 2 ^ 32 :: words, last)

/-- One turn of the loop: the words from the first effective one on, and the remainder.  A first
word that has become zero is left behind, one at a turn. -/
def divisionTurn (wordBits : Nat) (words : List Nat) : List Nat × Nat :=
  let (quotient, r) := divideWords wordBits 0 words
  match quotient with
  | 0 :: rest => (rest, r)
  | quotient => (quotient, r)

/-- The remainders, the last digits first; `room` is what is left of their buffer. -/
def collectRemainders (wordBits : Nat) : (room : Nat) → List Nat → Option (List Nat)
  | _, [] => some []
  | 0, _ :: _ => none
  | room + 1, word :: rest =>
      let (words, r) := divisionTurn wordBits (word :: rest)
      (collectRemainders wordBits room words).map (r :: ·)

/-- The digits of a remainder without leading zeros, in a buffer of some places -/
def remainderDigits : (places tmp : Nat) → Bytes
  | 0, _ => []
  | places + 1, tmp =>
      if 0 < tmp then remainderDigits places (tmp / 10) ++ [UInt8.ofNat (48 + tmp % 10)] else []

def ndigitsPerRemainder : Nat := 9

/-- The text of the remainders; those after the first have leading zeros. -/
def remaindersText : List Nat → Bytes
  | [] => []
  | [top] => remainderDigits ndigitsPerRemainder top
  | remainder :: higher =>
      let digits := remainderDigits ndigitsPerRemainder remainder
      remaindersText higher ++
        (List.replicate (ndigitsPerRemainder - digits.length) (byte '0') ++ digits)

/-- `_numstr_to_decimal`, which appends to an empty buffer -/
def numstrToDecimal (numstr : Bytes) (base : NumstrBase) : Option Bytes :=
  let digits := (numstr.dropWhile fun c => c = byte '0').map base.digitValue
  let words := base.words digits
  (collectRemainders base.wordBits (ndivisions * words.length) words).map remaindersText

def intMax : Nat := 2147483647

/-- The digits that follow, their number, and what is left -/
def readDigits (base : Nat) (isBaseDigit : UInt8 → Bool) (s : Bytes) : Nat × Bytes :=
  (numeral base ((s.takeWhile isBaseDigit).map hexdigitValue), s.dropWhile isBaseDigit)

/-- `strtoint` with base 0 on a text without a sign: the number and `endptr`.  The number is too
large for an `int` where `errno` is `ERANGE`. -/
def strtoint (s : Bytes) : Nat × Bytes :=
  match s with
  | zero :: rest =>
      if zero = byte '0' then
        match rest with
        | x :: digit :: later =>
            if (x = byte 'x' ∨ x = byte 'X') ∧ isHexdigit digit then
              readDigits 16 isHexdigit (digit :: later)
            else readDigits 8 isOctdigit s
        | _ => readDigits 8 isOctdigit s
      else readDigits 10 isDigit s
  | [] => (0, [])

def integerLiteralToToken (s : Bytes) : Except LiteralError AgToken :=
  let (i, endptr) := strtoint s
  if endptr ≠ [] then .error .invalidOctal
  else if intMax < i then
    match s with
    | zero :: rest =>
        if zero = byte '0' then
          let text := match rest with
            | x :: digits =>
                if x = byte 'X' ∨ x = byte 'x' then numstrToDecimal digits .hex
                else numstrToDecimal rest .oct
            | [] => numstrToDecimal rest .oct
          match text with
          | some text => .ok (.decimal text)
          | none => .error .bufferOverrun
        else .ok (.decimal s)
    | [] => .ok (.decimal s)
  else .ok (.integer i)

end Definitions

section Words

variable {base : NumstrBase}

theorem fillWord_eq {nbitsPerDigit : Nat} (several : 0 < nbitsPerDigit) {digits : List Nat}
    (small : ∀ digit ∈ digits, digit < 2 ^ nbitsPerDigit)
    (fits : nbitsPerDigit * digits.length ≤ 32) :
    fillWord nbitsPerDigit digits = numeral (2 ^ nbitsPerDigit) digits := by
  cases digits with
  | nil => rfl
  | cons first rest =>
      rw [fillWord]
      induction rest using List.reverseRecOn with
      | nil => simp
      | append_singleton rest digit inductionHypothesis =>
          have smaller : ∀ other ∈ first :: rest, other < 2 ^ nbitsPerDigit :=
            fun other inside => small other (List.mem_append_left [digit] inside)
          rw [List.foldl_append, List.foldl_cons, List.foldl_nil, inductionHypothesis smaller
            (Nat.le_trans (Nat.mul_le_mul_left _ (by simp)) fits),
            ← List.cons_append, numeral_append, numeral_singleton, List.length_singleton, pow_one]
          have below := numeral_lt (Nat.one_lt_two_pow several.ne') smaller
          -- The digits so far leave room for one more.
          have room : numeral (2 ^ nbitsPerDigit) (first :: rest) * 2 ^ nbitsPerDigit < 2 ^ 32 := by
            calc _ < (2 ^ nbitsPerDigit) ^ (first :: rest).length * 2 ^ nbitsPerDigit :=
                  Nat.mul_lt_mul_of_pos_right below (Nat.two_pow_pos _)
              _ = 2 ^ (nbitsPerDigit * (first :: (rest ++ [digit])).length) := by
                  rw [← pow_succ, ← pow_mul]
                  simp
              _ ≤ 2 ^ 32 := Nat.pow_le_pow_right Nat.two_pos fits
          rw [Nat.shiftLeft_eq, Nat.mod_eq_of_lt room, ← Nat.shiftLeft_eq,
            ← Nat.shiftLeft_add_eq_or_of_lt (small digit (by simp)), Nat.shiftLeft_eq]

/-- A full word is smaller than the base of the words. -/
theorem fillWord_lt {nbitsPerDigit ndigits : Nat} (several : 0 < nbitsPerDigit) {digits : List Nat}
    (small : ∀ digit ∈ digits, digit < 2 ^ nbitsPerDigit) (length : digits.length ≤ ndigits)
    (fits : nbitsPerDigit * ndigits ≤ 32) :
    fillWord nbitsPerDigit digits < 2 ^ (nbitsPerDigit * ndigits) := by
  rw [fillWord_eq several small (Nat.le_trans (Nat.mul_le_mul_left _ length) fits)]
  refine Nat.lt_of_lt_of_le (numeral_lt (Nat.one_lt_two_pow several.ne') small) ?_
  rw [← pow_mul]
  exact Nat.pow_le_pow_right Nat.two_pos (Nat.mul_le_mul_left _ length)

theorem fillWords_spec {ndigitsPerWord nbitsPerDigit : Nat} (several : 0 < nbitsPerDigit)
    (fits : nbitsPerDigit * ndigitsPerWord ≤ 32) (nwords : Nat) {digits : List Nat}
    (small : ∀ digit ∈ digits, digit < 2 ^ nbitsPerDigit)
    (length : digits.length = nwords * ndigitsPerWord) :
    (fillWords ndigitsPerWord nbitsPerDigit nwords digits).length = nwords ∧
      (∀ word ∈ fillWords ndigitsPerWord nbitsPerDigit nwords digits,
        word < 2 ^ (nbitsPerDigit * ndigitsPerWord)) ∧
      numeral (2 ^ (nbitsPerDigit * ndigitsPerWord))
          (fillWords ndigitsPerWord nbitsPerDigit nwords digits) =
        numeral (2 ^ nbitsPerDigit) digits := by
  induction nwords generalizing digits with
  | zero =>
      have empty : digits = [] := List.length_eq_zero_iff.1 (by simpa using length)
      subst empty
      exact ⟨rfl, nofun, rfl⟩
  | succ nwords inductionHypothesis =>
      rw [Nat.succ_mul] at length
      have taken : (digits.take ndigitsPerWord).length = ndigitsPerWord := by
        rw [List.length_take, length]
        omega
      have dropped : (digits.drop ndigitsPerWord).length = nwords * ndigitsPerWord := by
        rw [List.length_drop, length, Nat.add_sub_cancel]
      have smallTaken : ∀ digit ∈ digits.take ndigitsPerWord, digit < 2 ^ nbitsPerDigit :=
        fun digit inside => small digit (List.mem_of_mem_take inside)
      obtain ⟨count, words, same⟩ := inductionHypothesis
        (fun digit inside => small digit (List.mem_of_mem_drop inside)) dropped
      refine ⟨by rw [fillWords, List.length_cons, count], ?_, ?_⟩
      · intro word inside
        rcases List.mem_cons.1 inside with rfl | later
        · exact fillWord_lt several smallTaken taken.le fits
        · exact words word later
      · rw [fillWords, numeral_cons, same, count, fillWord_eq several smallTaken (by rwa [taken])]
        conv_rhs => rw [← List.take_append_drop ndigitsPerWord digits, numeral_append, dropped]
        rw [Nat.mul_comm nwords, pow_mul, pow_mul]

theorem NumstrBase.nbitsPerDigit_pos (base : NumstrBase) : 0 < base.nbitsPerDigit := by
  cases base <;> decide

theorem NumstrBase.ndigitsPerWord_pos (base : NumstrBase) : 0 < base.ndigitsPerWord := by
  cases base <;> decide

theorem NumstrBase.wordBits_le (base : NumstrBase) : base.wordBits ≤ 32 := by
  cases base <;> decide

/-- A word may be larger than the divisor: 2^30 exceeds 10^9. -/
theorem NumstrBase.divisor_lt (base : NumstrBase) : divisor < 2 ^ base.wordBits := by
  cases base <;> decide

/-- The words stand for the number of the digits, and the first one is not zero. -/
theorem words_spec {first : Nat} {rest : List Nat} (positive : first ≠ 0)
    (small : ∀ digit ∈ first :: rest, digit < 2 ^ base.nbitsPerDigit) :
    ∃ word words, base.words (first :: rest) = word :: words ∧ word ≠ 0 ∧
      (∀ other ∈ word :: words, other < 2 ^ base.wordBits) ∧
      numeral (2 ^ base.wordBits) (word :: words) =
        numeral (2 ^ base.nbitsPerDigit) (first :: rest) := by
  have several := base.nbitsPerDigit_pos
  have full := base.ndigitsPerWord_pos
  have fits := base.wordBits_le
  generalize isDigits : first :: rest = digits at small
  have some : 0 < digits.length := by simp [← isDigits]
  -- The first word takes at least one digit, and the others are full.
  obtain ⟨ndigitsWord0, isCount, atLeast, atMost, others⟩ : ∃ count,
      (if digits.length % base.ndigitsPerWord = 0 then base.ndigitsPerWord
        else digits.length % base.ndigitsPerWord) = count ∧ 0 < count ∧
      count ≤ base.ndigitsPerWord ∧
      digits.length = count + ((digits.length + (base.ndigitsPerWord - 1)) /
        base.ndigitsPerWord - 1) * base.ndigitsPerWord := by
    by_cases whole : digits.length % base.ndigitsPerWord = 0
    · refine ⟨base.ndigitsPerWord, if_pos whole, full, le_rfl, ?_⟩
      cases base <;> simp only [NumstrBase.ndigitsPerWord] at whole ⊢ <;> omega
    · refine ⟨_, if_neg whole, Nat.pos_of_ne_zero whole, (Nat.mod_lt _ full).le, ?_⟩
      cases base <;> simp only [NumstrBase.ndigitsPerWord] at whole ⊢ <;> omega
  have smallTaken : ∀ digit ∈ digits.take ndigitsWord0, digit < 2 ^ base.nbitsPerDigit :=
    fun digit inside => small digit (List.mem_of_mem_take inside)
  have taken : (digits.take ndigitsWord0).length = ndigitsWord0 := by
    rw [List.length_take]
    omega
  have dropped : (digits.drop ndigitsWord0).length =
      ((digits.length + (base.ndigitsPerWord - 1)) / base.ndigitsPerWord - 1) *
        base.ndigitsPerWord := by
    rw [List.length_drop]
    omega
  obtain ⟨count, words, same⟩ := fillWords_spec several fits _
    (fun digit inside => small digit (List.mem_of_mem_drop inside)) dropped
  have isWord := fillWord_eq several smallTaken
    (Nat.le_trans (Nat.mul_le_mul_left _ (taken.le.trans atMost)) fits)
  refine ⟨fillWord base.nbitsPerDigit (digits.take ndigitsWord0), fillWords base.ndigitsPerWord
    base.nbitsPerDigit ((digits.length + (base.ndigitsPerWord - 1)) / base.ndigitsPerWord - 1)
    (digits.drop ndigitsWord0), ?_, ?_, ?_, ?_⟩
  · simp only [NumstrBase.words, isCount]
  · rw [isWord, ← isDigits]
    obtain ⟨less, rfl⟩ := Nat.exists_eq_succ_of_ne_zero atLeast.ne'
    rw [List.take_succ_cons, numeral_cons]
    have := Nat.mul_pos (Nat.pos_of_ne_zero positive)
      (Nat.pow_pos (Nat.two_pow_pos base.nbitsPerDigit) : 0 <
        (2 ^ base.nbitsPerDigit) ^ (rest.take less).length)
    omega
  · intro word inside
    rcases List.mem_cons.1 inside with rfl | later
    · exact fillWord_lt several smallTaken (taken.le.trans atMost) fits
    · exact words word later
  · rw [NumstrBase.wordBits, numeral_cons, same, count, isWord]
    conv_rhs => rw [← List.take_append_drop ndigitsWord0 digits, numeral_append, dropped]
    rw [← pow_mul, ← pow_mul, Nat.mul_assoc, Nat.mul_comm base.ndigitsPerWord]

end Words

section Division

variable {wordBits : Nat}

theorem divideWords_eq (enough : divisor < 2 ^ wordBits) (fits : wordBits ≤ 32) {r : Nat}
    (below : r < divisor) {words : List Nat} (small : ∀ word ∈ words, word < 2 ^ wordBits) :
    divideWords wordBits r words = divide (2 ^ wordBits) divisor r words := by
  have room : 2 ^ wordBits ≤ 2 ^ 32 := Nat.pow_le_pow_right Nat.two_pos fits
  induction words generalizing r with
  | nil => rfl
  | cons word rest inductionHypothesis =>
      have isWord := small word List.mem_cons_self
      have smallRest := fun other inside => small other (List.mem_cons_of_mem word inside)
      have wide : r * 2 ^ wordBits < 2 ^ 64 := by
        calc r * 2 ^ wordBits < 2 ^ wordBits * 2 ^ wordBits :=
              Nat.mul_lt_mul_of_pos_right (below.trans enough) (Nat.two_pow_pos _)
          _ ≤ 2 ^ 32 * 2 ^ 32 := Nat.mul_le_mul room room
          _ = 2 ^ 64 := by norm_num
      have dividend : word ||| (r <<< wordBits) % 2 ^ 64 = r * 2 ^ wordBits + word := by
        rw [Nat.shiftLeft_eq, Nat.mod_eq_of_lt wide, ← Nat.shiftLeft_eq, Nat.or_comm,
          ← Nat.shiftLeft_add_eq_or_of_lt isWord]
      have quotient : (r * 2 ^ wordBits + word) / divisor < 2 ^ 32 :=
        Nat.lt_of_lt_of_le (divide_small below small _ List.mem_cons_self) room
      have later := inductionHypothesis
        (Nat.mod_lt (r * 2 ^ wordBits + word) (by decide : 0 < divisor)) smallRest
      simp only [divideWords, divide, dividend, later, Nat.mod_eq_of_lt quotient]

/-- The turns that some words still take at most: one where the first word is a remainder, and
otherwise two. -/
def turnsLeft : List Nat → Nat
  | [] => 0
  | word :: rest => 2 * rest.length + if word < divisor then 1 else 2

/-- The first effective word is not zero. -/
def Effective (words : List Nat) : Prop := ∀ word ∈ words.head?, word ≠ 0

/-- What one turn does to words whose first one is not zero -/
structure Turned (wordBits : Nat) (words : List Nat) (next : List Nat × Nat) : Prop where
  exact : numeral (2 ^ wordBits) words = numeral (2 ^ wordBits) next.1 * divisor + next.2
  remainder : next.2 < divisor
  small : ∀ word ∈ next.1, word < 2 ^ wordBits
  effective : Effective next.1
  top : next.1 = [] → next.2 ≠ 0
  fewer : turnsLeft next.1 < turnsLeft words

/-- A first word that is a remainder is left behind. -/
theorem divisionTurn_of_lt (enough : divisor < 2 ^ wordBits) (fits : wordBits ≤ 32) {word : Nat}
    {rest : List Nat} (small : ∀ other ∈ word :: rest, other < 2 ^ wordBits)
    (isRemainder : word < divisor) :
    divisionTurn wordBits (word :: rest) = divide (2 ^ wordBits) divisor word rest := by
  rw [divisionTurn, divideWords_eq enough fits (by decide) small, divide, Nat.zero_mul,
    Nat.zero_add, Nat.mod_eq_of_lt isRemainder, Nat.div_eq_of_lt isRemainder]
  rfl

/-- A larger one becomes its quotient. -/
theorem divisionTurn_of_le (enough : divisor < 2 ^ wordBits) (fits : wordBits ≤ 32) {word : Nat}
    {rest : List Nat} (small : ∀ other ∈ word :: rest, other < 2 ^ wordBits)
    (large : divisor ≤ word) :
    divisionTurn wordBits (word :: rest) =
      (word / divisor :: (divide (2 ^ wordBits) divisor (word % divisor) rest).1,
        (divide (2 ^ wordBits) divisor (word % divisor) rest).2) := by
  obtain ⟨less, isQuotient⟩ :=
    Nat.exists_eq_succ_of_ne_zero (Nat.div_pos large (by decide)).ne'
  rw [divisionTurn, divideWords_eq enough fits (by decide) small, divide, Nat.zero_mul,
    Nat.zero_add, isQuotient]
  rfl

theorem quotient_lt (fits : wordBits ≤ 32) {word : Nat} (small : word < 2 ^ wordBits) :
    word / divisor < divisor := by
  have room : 2 ^ wordBits ≤ 2 ^ 32 := Nat.pow_le_pow_right Nat.two_pos fits
  refine Nat.div_lt_of_lt_mul (small.trans_le (room.trans ?_))
  decide

theorem divisionTurn_spec (enough : divisor < 2 ^ wordBits) (fits : wordBits ≤ 32) {word : Nat}
    {rest : List Nat} (positive : word ≠ 0)
    (small : ∀ other ∈ word :: rest, other < 2 ^ wordBits) :
    Turned wordBits (word :: rest) (divisionTurn wordBits (word :: rest)) := by
  have smallRest := fun other inside => small other (List.mem_cons_of_mem word inside)
  by_cases isRemainder : word < divisor
  · rw [divisionTurn_of_lt enough fits small isRemainder]
    have length := @length_divide (2 ^ wordBits) divisor word rest
    refine ⟨?_, divide_remainder_lt isRemainder rest, divide_small isRemainder smallRest, ?_, ?_,
      ?_⟩
    · rw [numeral_cons]
      exact divide_exact word rest
    · -- With 2^30 above 10^9 the next word is not zero either.
      cases rest with
      | nil => exact nofun
      | cons next later =>
          rintro quotient isHead
          cases Option.some.inj isHead
          refine (Nat.div_pos ?_ (by decide)).ne'
          calc divisor ≤ 1 * 2 ^ wordBits := by rw [Nat.one_mul]; exact enough.le
            _ ≤ word * 2 ^ wordBits := Nat.mul_le_mul_right _ (Nat.pos_of_ne_zero positive)
            _ ≤ _ := Nat.le_add_right _ _
    · intro empty
      rw [empty, List.length_nil, eq_comm, List.length_eq_zero_iff] at length
      subst length
      exact positive
    · generalize (divide (2 ^ wordBits) divisor word rest).1 = quotient at length
      rw [turnsLeft, if_pos isRemainder]
      cases quotient with
      | nil => exact Nat.succ_pos _
      | cons next later =>
          rw [List.length_cons] at length
          rw [turnsLeft]
          split_ifs <;> omega
  · have large := Nat.le_of_not_lt isRemainder
    have below : word % divisor < divisor := Nat.mod_lt _ (by decide)
    have narrow := quotient_lt fits (small word List.mem_cons_self)
    rw [divisionTurn_of_le enough fits small large]
    refine ⟨?_, divide_remainder_lt below rest, ?_, ?_, nofun, ?_⟩
    · have exact_ := @divide_exact (2 ^ wordBits) divisor 0 (word :: rest)
      rw [Nat.zero_mul, Nat.zero_add, divide, Nat.zero_mul, Nat.zero_add] at exact_
      exact exact_
    · intro other inside
      rcases List.mem_cons.1 inside with rfl | later
      · exact narrow.trans enough
      · exact divide_small below smallRest other later
    · intro first isFirst
      cases Option.some.inj isFirst
      exact (Nat.div_pos large (by decide)).ne'
    · rw [turnsLeft, turnsLeft, length_divide, if_pos narrow, if_neg isRemainder]
      omega

/-- A word is left behind after at most three turns. -/
theorem divisionTurn_word (enough : divisor < 2 ^ wordBits) (fits : wordBits ≤ 32) {word : Nat}
    {rest : List Nat} (small : ∀ other ∈ word :: rest, other < 2 ^ wordBits) :
    ∃ turns ≤ ndivisions,
      ((fun words => (divisionTurn wordBits words).1)^[turns] (word :: rest)).length =
        rest.length := by
  by_cases isRemainder : word < divisor
  · refine ⟨1, by decide, ?_⟩
    rw [Function.iterate_one, divisionTurn_of_lt enough fits small isRemainder, length_divide]
  · refine ⟨2, by decide, ?_⟩
    have below : word % divisor < divisor := Nat.mod_lt _ (by decide)
    have narrow := quotient_lt fits (small word List.mem_cons_self)
    rw [Function.iterate_succ_apply, Function.iterate_one,
      divisionTurn_of_le enough fits small (Nat.le_of_not_lt isRemainder)]
    rw [divisionTurn_of_lt enough fits _ narrow, length_divide, length_divide]
    intro other inside
    rcases List.mem_cons.1 inside with rfl | later
    · exact narrow.trans enough
    · exact divide_small below (fun other inside => small other (List.mem_cons_of_mem word inside))
        other later

/-- The buffer of the remainders is large enough; they are the number in groups of nine digits,
and the last group is not zero. -/
theorem collectRemainders_spec (enough : divisor < 2 ^ wordBits) (fits : wordBits ≤ 32)
    {room : Nat} {words : List Nat} (effective : Effective words)
    (small : ∀ word ∈ words, word < 2 ^ wordBits) (turns : turnsLeft words ≤ room) :
    ∃ remainders, collectRemainders wordBits room words = some remainders ∧
      (∀ r ∈ remainders, r < divisor) ∧
      Nat.ofDigits divisor remainders = numeral (2 ^ wordBits) words ∧
      (words ≠ [] → ∃ top, remainders.getLast? = some top ∧ top ≠ 0) := by
  induction room generalizing words with
  | zero =>
      cases words with
      | nil => exact ⟨[], rfl, nofun, rfl, fun some => absurd rfl some⟩
      | cons word rest =>
          rw [turnsLeft] at turns
          split_ifs at turns <;> omega
  | succ room inductionHypothesis =>
      cases words with
      | nil => exact ⟨[], rfl, nofun, rfl, fun some => absurd rfl some⟩
      | cons word rest =>
          have turned := divisionTurn_spec enough fits (effective word rfl) small
          obtain ⟨remainders, collected, groups, number, top⟩ := inductionHypothesis
            turned.effective turned.small (Nat.le_of_lt_succ (turned.fewer.trans_le turns))
          refine ⟨(divisionTurn wordBits (word :: rest)).2 :: remainders, ?_, ?_, ?_, fun _ => ?_⟩
          · have unfolded : collectRemainders wordBits (room + 1) (word :: rest) =
                (collectRemainders wordBits room (divisionTurn wordBits (word :: rest)).1).map
                  ((divisionTurn wordBits (word :: rest)).2 :: ·) := rfl
            rw [unfolded, collected]
            rfl
          · intro r inside
            rcases List.mem_cons.1 inside with rfl | later
            · exact turned.remainder
            · exact groups r later
          · rw [Nat.ofDigits_cons, number, turned.exact, Nat.mul_comm divisor, Nat.add_comm]
          · by_cases last : (divisionTurn wordBits (word :: rest)).1 = []
            · rw [last, collectRemainders, Option.some.injEq] at collected
              · subst collected
                exact ⟨_, rfl, turned.top last⟩
            · obtain ⟨top, isLast, positive⟩ := top last
              exact ⟨top, by rw [List.getLast?_cons, isLast]; rfl, positive⟩

end Division

section Text

/-- The character of a decimal digit -/
def digitChar (digit : Nat) : UInt8 := UInt8.ofNat (48 + digit)

theorem remainderDigits_eq {places tmp : Nat} (fits : tmp < 10 ^ places) :
    remainderDigits places tmp = (Nat.digits 10 tmp).reverse.map digitChar := by
  induction places generalizing tmp with
  | zero =>
      rw [pow_zero, Nat.lt_one_iff] at fits
      subst fits
      rfl
  | succ places inductionHypothesis =>
      rw [remainderDigits]
      split_ifs with positive
      · have smaller : tmp / 10 < 10 ^ places := by
          rw [pow_succ] at fits
          omega
        rw [inductionHypothesis smaller, Nat.digits_def' (by decide) positive, List.reverse_cons,
          List.map_append]
        rfl
      · obtain rfl : tmp = 0 := by omega
        rfl

/-- The text of the remainders is the number in decimal. -/
theorem remaindersText_eq {remainders : List Nat} (groups : ∀ r ∈ remainders, r < divisor)
    {top : Nat} (isLast : remainders.getLast? = some top) (positive : top ≠ 0) :
    0 < Nat.ofDigits divisor remainders ∧ remaindersText remainders =
      (Nat.digits 10 (Nat.ofDigits divisor remainders)).reverse.map digitChar := by
  induction remainders with
  | nil => cases isLast
  | cons remainder higher inductionHypothesis =>
      have fits : remainder < 10 ^ ndigitsPerRemainder := groups remainder List.mem_cons_self
      cases higher with
      | nil =>
          cases Option.some.inj isLast
          rw [Nat.ofDigits_singleton]
          exact ⟨Nat.pos_of_ne_zero positive, by rw [remaindersText, remainderDigits_eq fits]⟩
      | cons next later =>
          obtain ⟨isPositive, text⟩ := inductionHypothesis
            (fun r inside => groups r (List.mem_cons_of_mem _ inside))
            (by rwa [List.getLast?_cons_cons] at isLast)
          have short : (Nat.digits 10 remainder).length ≤ ndigitsPerRemainder :=
            (Nat.digits_length_le_iff (by decide) remainder).2 fits
          have joined := @Nat.digits_append_zeroes_append_digits 10
            (ndigitsPerRemainder - (Nat.digits 10 remainder).length)
            (Nat.ofDigits divisor (next :: later)) remainder (by decide) isPositive
          rw [Nat.add_sub_cancel' short] at joined
          rw [Nat.ofDigits_cons]
          refine ⟨Nat.add_pos_right _ (Nat.mul_pos (by decide) isPositive), ?_⟩
          rw [show divisor = 10 ^ ndigitsPerRemainder from rfl] at joined text ⊢
          rw [← joined, remaindersText, text, remainderDigits_eq fits]
          · simp [digitChar, byte]
          · exact nofun

theorem decimal_eq {number : Nat} (positive : 0 < number) :
    decimal number = (Nat.digits 10 number).reverse.map digitChar := if_neg positive.ne'

theorem head?_decimal_ne_zero {number : Nat} (positive : 0 < number) :
    (decimal number).head? ≠ some (byte '0') := by
  rw [decimal_eq positive, List.head?_map, List.head?_reverse]
  cases isLast : (Nat.digits 10 number).getLast? with
  | none => exact nofun
  | some top =>
      have inside := List.mem_of_getLast? isLast
      have notZero := Nat.getLast_digit_ne_zero 10 positive.ne'
      rw [(List.getLast_of_getLast?_eq_some isLast : _)] at notZero
      have small := Nat.digits_lt_base (by decide : 1 < 10) inside
      have distinct : ∀ digit < 10, digit ≠ 0 → some (digitChar digit) ≠ some (byte '0') := by
        decide
      exact distinct top small notZero

end Text

section Literals

variable {base : NumstrBase}

/-- A digit has its value, and only the digit 0 has the value 0. -/
theorem digitValue_spec (base : NumstrBase) : ∀ c : UInt8, base.isBaseDigit c = true →
    base.digitValue c < 2 ^ base.nbitsPerDigit ∧ (c ≠ byte '0' → base.digitValue c ≠ 0) ∧
      base.digitValue c = hexdigitValue c := by
  cases base <;> decide +kernel

theorem digitValue_zero (base : NumstrBase) : base.digitValue (byte '0') = 0 := by
  cases base <;> decide

theorem numeral_dropWhile (numstr : Bytes) :
    numeral (2 ^ base.nbitsPerDigit) ((numstr.dropWhile fun c => c = byte '0').map base.digitValue) =
      numeral (2 ^ base.nbitsPerDigit) (numstr.map base.digitValue) := by
  induction numstr with
  | nil => rfl
  | cons c rest inductionHypothesis =>
      by_cases zero : c = byte '0'
      · rw [List.dropWhile_cons_of_pos (by simpa using zero), inductionHypothesis, List.map_cons,
          numeral_cons, zero, digitValue_zero, Nat.zero_mul, Nat.zero_add]
      · rw [List.dropWhile_cons_of_neg (by simpa using zero)]

/-- A number that is not zero is written in decimal. -/
theorem numstrToDecimal_eq {numstr : Bytes} (digits : numstr.all base.isBaseDigit = true)
    (positive : 0 < numeral (2 ^ base.nbitsPerDigit) (numstr.map base.digitValue)) :
    numstrToDecimal numstr base =
      some (decimal (numeral (2 ^ base.nbitsPerDigit) (numstr.map base.digitValue))) := by
  have enough := base.divisor_lt
  have fits := base.wordBits_le
  rw [← numeral_dropWhile] at positive ⊢
  rw [numstrToDecimal]
  cases dropped : numstr.dropWhile fun c => c = byte '0' with
  | nil =>
      rw [dropped] at positive
      exact absurd positive (Nat.lt_irrefl 0)
  | cons c rest =>
      rw [dropped] at positive
      have isDigits : ∀ other ∈ c :: rest, base.isBaseDigit other = true := fun other inside =>
        List.all_eq_true.1 digits other ((List.dropWhile_sublist _).subset (dropped ▸ inside))
      have notZero : c ≠ byte '0' := by
        intro zero
        have stops := List.head?_dropWhile_not (fun c => decide (c = byte '0')) numstr
        rw [dropped] at stops
        simp [zero] at stops
      have small : ∀ digit ∈ (c :: rest).map base.digitValue, digit < 2 ^ base.nbitsPerDigit := by
        intro digit inside
        obtain ⟨other, isOther, rfl⟩ := List.mem_map.1 inside
        exact (digitValue_spec base other (isDigits other isOther)).1
      obtain ⟨word, words, isWords, effective, smallWords, number⟩ := words_spec
        ((digitValue_spec base c (isDigits c List.mem_cons_self)).2.1 notZero) small
      have room : turnsLeft (word :: words) ≤ ndivisions * (word :: words).length := by
        rw [turnsLeft, List.length_cons, ndivisions]
        split_ifs <;> omega
      have isEffective : Effective (word :: words) := fun other isHead => by
        cases Option.some.inj isHead
        exact effective
      obtain ⟨remainders, collected, groups, isNumber, top⟩ :=
        collectRemainders_spec enough fits isEffective smallWords room
      obtain ⟨last, isLast, isTop⟩ := top (List.cons_ne_nil _ _)
      rw [List.map_cons, isWords, collected, Option.map_some,
        (remaindersText_eq groups isLast isTop).2, isNumber, number, ← List.map_cons,
        decimal_eq positive]

/-- What the rules `digitseq` and `hexint` of the scanner accept -/
def ScannedInteger (s : Bytes) : Prop :=
  (s ≠ [] ∧ s.all isDigit = true) ∨
    ∃ x digits, s = byte '0' :: x :: digits ∧ (x = byte 'x' ∨ x = byte 'X') ∧ digits ≠ [] ∧
      digits.all isHexdigit = true

/-- The value of a literal: in base 16 after `0x`, in base 8 after another 0, where there is none
with a digit 8 or 9, and otherwise in base 10 -/
def literalValue (s : Bytes) : Option Nat :=
  match s with
  | zero :: rest =>
      if zero = byte '0' then
        if rest.head? = some (byte 'x') ∨ rest.head? = some (byte 'X') then
          some (numeral 16 (rest.tail.map hexdigitValue))
        else if rest.all isOctdigit then some (numeral 8 (rest.map octdigitValue))
        else none
      else some (numeral 10 (s.map hexdigitValue))
  | [] => none

/-- The token of a literal: the value itself, or a text that denotes it and has no leading zero -/
def TokenFor (s : Bytes) (value : Nat) : Prop :=
  if value ≤ intMax then integerLiteralToToken s = .ok (.integer value)
  else ∃ text, integerLiteralToToken s = .ok (.decimal text) ∧ text.all isDigit = true ∧
    parseDecimal text = value ∧ text.head? ≠ some (byte '0')

theorem readDigits_eq {radix : Nat} {isBaseDigit : UInt8 → Bool} {s : Bytes}
    (digits : s.all isBaseDigit = true) :
    readDigits radix isBaseDigit s = (numeral radix (s.map hexdigitValue), []) := by
  have all := List.all_eq_true.1 digits
  rw [readDigits, List.takeWhile_eq_self_iff.2 all, List.dropWhile_eq_nil_iff.2 all]

theorem digitValue_map {s : Bytes} (digits : s.all base.isBaseDigit = true) :
    s.map base.digitValue = s.map hexdigitValue :=
  List.map_congr_left fun c inside =>
    (digitValue_spec base c (List.all_eq_true.1 digits c inside)).2.2

/-- A text of decimal digits stands for its numeral. -/
theorem parseDecimal_eq {s : Bytes} (digits : s.all isDigit = true) :
    parseDecimal s = numeral 10 (s.map hexdigitValue) := by
  have values : ∀ c : UInt8, isDigit c = true → c.toNat - 48 = hexdigitValue c := by
    decide +kernel
  rw [parseDecimal, numeral, List.map_reverse, List.map_congr_left fun c inside =>
    values c (List.all_eq_true.1 digits c inside)]

theorem all_isDigit_decimal (number : Nat) : (decimal number).all isDigit = true := by
  rw [decimal]
  split_ifs with zero
  · decide
  · have isDigits : ∀ digit < 10, isDigit (UInt8.ofNat (48 + digit)) = true := by decide
    rw [List.all_eq_true]
    intro c inside
    obtain ⟨digit, isIn, rfl⟩ := List.mem_map.1 inside
    exact isDigits digit (Nat.digits_lt_base (by decide) (List.mem_reverse.1 isIn))

/-- A literal whose digits are converted when it is too large -/
theorem tokenFor_of_converted {s numstr : Bytes} (digits : numstr.all base.isBaseDigit = true)
    {value : Nat} (isValue : numeral (2 ^ base.nbitsPerDigit) (numstr.map hexdigitValue) = value)
    (token : integerLiteralToToken s =
      if intMax < value then
        match numstrToDecimal numstr base with
        | some text => .ok (.decimal text)
        | none => .error .bufferOverrun
      else .ok (.integer value)) :
    TokenFor s value := by
  unfold TokenFor
  split_ifs with fits
  · rw [token, if_neg (Nat.not_lt.2 fits)]
  · have large := Nat.lt_of_not_le fits
    have positive := (Nat.zero_le _).trans_lt large
    have converted := @numstrToDecimal_eq base numstr digits
    rw [digitValue_map digits, isValue] at converted
    refine ⟨_, ?_, all_isDigit_decimal _, parseDecimal_decimal _, head?_decimal_ne_zero positive⟩
    rw [token, if_pos large, converted positive]

theorem tokenFor_hex {x : UInt8} {digits : Bytes} (isX : x = byte 'x' ∨ x = byte 'X')
    (some : digits ≠ []) (all : digits.all isHexdigit = true) :
    TokenFor (byte '0' :: x :: digits) (numeral 16 (digits.map hexdigitValue)) := by
  refine tokenFor_of_converted
    (show digits.all (NumstrBase.isBaseDigit .hex) = true from all) rfl ?_
  obtain ⟨first, rest, rfl⟩ := List.exists_cons_of_ne_nil some
  have isDigit := List.all_eq_true.1 all first List.mem_cons_self
  have parsed : strtoint (byte '0' :: x :: first :: rest) =
      (numeral 16 ((first :: rest).map hexdigitValue), []) := by
    simp only [strtoint, if_true]
    rw [if_pos ⟨isX, isDigit⟩, readDigits_eq all]
  simp only [integerLiteralToToken, parsed, ne_eq, not_true_eq_false, if_false, if_true,
    if_pos isX.symm]

/-- A digit is no `x`. -/
theorem not_x_of_isDigit {x : UInt8} (digit : isDigit x = true) :
    ¬(x = byte 'x' ∨ x = byte 'X') := by
  rintro (rfl | rfl) <;> exact absurd digit (by decide)

theorem strtoint_zero {digits : Bytes} (all : digits.all isDigit = true) :
    strtoint (byte '0' :: digits) = readDigits 8 isOctdigit (byte '0' :: digits) := by
  rcases digits with _ | ⟨x, _ | ⟨digit, later⟩⟩
  · simp only [strtoint, if_true]
  · simp only [strtoint, if_true]
  · have noX := not_x_of_isDigit (List.all_eq_true.1 all x List.mem_cons_self)
    simp only [strtoint, if_true]
    exact if_neg fun both => noX both.1

theorem isDigit_of_isOctdigit {digits : Bytes} (all : digits.all isOctdigit = true) :
    digits.all isDigit = true := by
  have wider : ∀ c : UInt8, isOctdigit c = true → isDigit c = true := by decide +kernel
  exact List.all_eq_true.2 fun c inside => wider c (List.all_eq_true.1 all c inside)

theorem tokenFor_oct {digits : Bytes} (all : digits.all isOctdigit = true) :
    TokenFor (byte '0' :: digits) (numeral 8 (digits.map octdigitValue)) := by
  have decimals := isDigit_of_isOctdigit all
  have values := digitValue_map (show digits.all (NumstrBase.isBaseDigit .oct) = true from all)
  refine tokenFor_of_converted (show digits.all (NumstrBase.isBaseDigit .oct) = true from all)
    (congrArg _ values.symm) ?_
  have whole : (byte '0' :: digits).all isOctdigit = true := by
    rw [List.all_cons, all]
    rfl
  have number : numeral 8 ((byte '0' :: digits).map hexdigitValue) =
      numeral 8 (digits.map octdigitValue) := by
    rw [List.map_cons, numeral_cons, show hexdigitValue (byte '0') = 0 by decide, Nat.zero_mul,
      Nat.zero_add]
    exact congrArg _ values.symm
  have parsed : strtoint (byte '0' :: digits) = (numeral 8 (digits.map octdigitValue), []) := by
    rw [strtoint_zero decimals, readDigits_eq whole, number]
  simp only [integerLiteralToToken, parsed, ne_eq, not_true_eq_false, if_false, if_true]
  cases digits with
  | nil => rfl
  | cons x rest =>
      have noX := not_x_of_isDigit (List.all_eq_true.1 decimals x List.mem_cons_self)
      simp only [if_neg fun isX => noX (Or.symm isX)]

theorem tokenFor_decimal {first : UInt8} {rest : Bytes} (notZero : first ≠ byte '0')
    (all : (first :: rest).all isDigit = true) :
    TokenFor (first :: rest) (numeral 10 ((first :: rest).map hexdigitValue)) := by
  have token : integerLiteralToToken (first :: rest) =
      if intMax < numeral 10 ((first :: rest).map hexdigitValue) then .ok (.decimal (first :: rest))
      else .ok (.integer (numeral 10 ((first :: rest).map hexdigitValue))) := by
    simp only [integerLiteralToToken, strtoint, if_neg notZero, readDigits_eq all, ne_eq,
      not_true_eq_false, if_false]
  unfold TokenFor
  split_ifs with fits
  · rw [token, if_neg (Nat.not_lt.2 fits)]
  · refine ⟨first :: rest, ?_, all, parseDecimal_eq all, fun isZero => notZero ?_⟩
    · rw [token, if_pos (Nat.lt_of_not_le fits)]
    · exact Option.some.inj isZero

/-- A digit 8 or 9 after a leading 0 -/
theorem invalidOctal_of_digit {digits : Bytes} (all : digits.all isDigit = true)
    (notOctal : ¬digits.all isOctdigit = true) :
    integerLiteralToToken (byte '0' :: digits) = .error .invalidOctal := by
  have left : (strtoint (byte '0' :: digits)).2 ≠ [] := by
    rw [strtoint_zero all]
    intro empty
    have octal := List.dropWhile_eq_nil_iff.1 empty
    exact notOctal (List.all_eq_true.2 fun c inside => octal c (List.mem_cons_of_mem _ inside))
  simp only [integerLiteralToToken, if_pos left]

theorem literalValue_zero {digits : Bytes} (all : digits.all isDigit = true) :
    literalValue (byte '0' :: digits) =
      if digits.all isOctdigit then some (numeral 8 (digits.map octdigitValue)) else none := by
  have noX : ¬(digits.head? = some (byte 'x') ∨ digits.head? = some (byte 'X')) := by
    cases digits with
    | nil => exact nofun
    | cons x rest =>
        have noX := not_x_of_isDigit (List.all_eq_true.1 all x List.mem_cons_self)
        simpa using noX
  rw [literalValue, if_pos rfl, if_neg noX]

/-- Every literal has a token of its value or is an invalid octal one, and each word of a large one
is left behind after at most three divisions. -/
theorem integerLiteralToToken_exact {s : Bytes} (scanned : ScannedInteger s) :
    (∀ value, literalValue s = some value → TokenFor s value) ∧
      (literalValue s = none → integerLiteralToToken s = .error .invalidOctal) ∧
      ∀ (base : NumstrBase) (word : Nat) (rest : List Nat),
        (∀ other ∈ word :: rest, other < 2 ^ base.wordBits) → ∃ turns ≤ ndivisions,
          ((fun words => (divisionTurn base.wordBits words).1)^[turns] (word :: rest)).length =
            rest.length := by
  refine ⟨?_, ?_, fun base word rest small =>
    divisionTurn_word base.divisor_lt base.wordBits_le small⟩
  · intro value isValue
    rcases scanned with ⟨some, all⟩ | ⟨x, digits, rfl, isX, some, all⟩
    · obtain ⟨first, rest, rfl⟩ := List.exists_cons_of_ne_nil some
      by_cases zero : first = byte '0'
      · subst zero
        rw [literalValue_zero (Bool.and_eq_true_iff.1 all).2] at isValue
        split_ifs at isValue with octal
        cases isValue
        exact tokenFor_oct octal
      · rw [literalValue, if_neg zero] at isValue
        cases isValue
        exact tokenFor_decimal zero all
    · rw [literalValue, if_pos rfl, if_pos (by simpa using isX)] at isValue
      cases isValue
      exact tokenFor_hex isX some all
  · intro noValue
    rcases scanned with ⟨some, all⟩ | ⟨x, digits, rfl, isX, some, all⟩
    · obtain ⟨first, rest, rfl⟩ := List.exists_cons_of_ne_nil some
      by_cases zero : first = byte '0'
      · subst zero
        have decimals := (Bool.and_eq_true_iff.1 all).2
        rw [literalValue_zero decimals] at noValue
        split_ifs at noValue with octal
        exact invalidOctal_of_digit decimals octal
      · rw [literalValue, if_neg zero] at noValue
        cases noValue
    · rw [literalValue, if_pos rfl, if_pos (by simpa using isX)] at noValue
      cases noValue

theorem integerLiteralToToken_octal :
    ScannedInteger (ascii ['0', '7', '7', '7', '7', '7', '7', '7', '7', '7', '7', '7', '7']) ∧
      TokenFor (ascii ['0', '7', '7', '7', '7', '7', '7', '7', '7', '7', '7', '7', '7'])
        68719476735 := by
  have scanned : ScannedInteger
      (ascii ['0', '7', '7', '7', '7', '7', '7', '7', '7', '7', '7', '7', '7']) :=
    .inl ⟨by decide, by decide⟩
  exact ⟨scanned, (integerLiteralToToken_exact scanned).1 _ (by decide)⟩

end Literals

end Age.Parser
