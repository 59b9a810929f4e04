import Age.Agtype.Text.Printed
import Age.Server.Text

/-!
# The text round trip

The parser reads the text of a value and pushes the value.  What follows the text
never starts a token that would belong to it.
-/

namespace Age.Agtype

open Lib AgtypeValue
open Filter (atTop Eventually)

/-- What the text conversions of the server promise. -/
structure TextLaws (ops : TextOps) : Prop where
  /-- `pg_strtoint64` reads what `pg_lltoa` writes -/
  integer : ∀ val, ops.strtoint64 (pgLltoa val) = some val
  /-- a fraction of zero changes nothing -/
  decimalPoint : ∀ numstr, isValidAgtypeNumber numstr = true → isDecimalNeeded numstr = true →
    ops.float8In (numstr ++ ascii ['.', '0']) = ops.float8In numstr

section Lookahead

variable (utf8 : Bool)

theorem agtypeLex_space (rest : Bytes) : agtypeLex utf8 (32 :: rest) = agtypeLex utf8 rest := rfl

theorem agtypeLex_comma (rest : Bytes) :
    agtypeLex utf8 (byte ',' :: rest) = .ok ⟨.comma, [byte ','], [], rest⟩ := rfl

theorem agtypeLex_objectStart (rest : Bytes) :
    agtypeLex utf8 (byte '{' :: rest) = .ok ⟨.objectStart, [byte '{'], [], rest⟩ := rfl

theorem agtypeLex_objectEnd (rest : Bytes) :
    agtypeLex utf8 (byte '}' :: rest) = .ok ⟨.objectEnd, [byte '}'], [], rest⟩ := rfl

theorem agtypeLex_arrayStart (rest : Bytes) :
    agtypeLex utf8 (byte '[' :: rest) = .ok ⟨.arrayStart, [byte '['], [], rest⟩ := rfl

theorem agtypeLex_arrayEnd (rest : Bytes) :
    agtypeLex utf8 (byte ']' :: rest) = .ok ⟨.arrayEnd, [byte ']'], [], rest⟩ := rfl

theorem agtypeLex_colon (rest : Bytes) :
    agtypeLex utf8 (byte ':' :: 32 :: rest) = .ok ⟨.colon, [byte ':'], [], 32 :: rest⟩ := rfl

theorem agtypeLex_annotationMark (rest : Bytes) :
    agtypeLex utf8 (byte ':' :: byte ':' :: rest) =
      .ok ⟨.annotationMark, [byte ':', byte ':'], [], rest⟩ := rfl

/-- The token after a value. -/
theorem agtypeLex_ends {rest : Bytes} (ends : Ends rest) :
    ∃ next, agtypeLex utf8 rest = .ok next ∧ next.tokenType ≠ .annotationMark := by
  cases rest with
  | nil => exact ⟨_, rfl, by decide⟩
  | cons c rest =>
      rcases ends c rfl with rfl | rfl | rfl
      · exact ⟨_, agtypeLex_comma utf8 rest, nofun⟩
      · exact ⟨_, agtypeLex_arrayEnd utf8 rest, nofun⟩
      · exact ⟨_, agtypeLex_objectEnd utf8 rest, nofun⟩

theorem ends_cons {c : UInt8} (rest : Bytes)
    (ends : c = byte ',' ∨ c = byte ']' ∨ c = byte '}') : Ends (c :: rest) := by
  intro d membership
  cases membership
  exact ends

/-- A type annotation after a value, and the token after that. -/
theorem lexAnnotation_word {c : UInt8} {w rest : Bytes} {next : AgtypeLexContext}
    (letters : ∀ d ∈ c :: w, isLetter d = true) (isName : wordType (c :: w) = .identifier)
    (ends : Ends rest) (lexed : agtypeLex utf8 rest = .ok next) :
    ∃ lex, agtypeLex utf8 (byte ':' :: byte ':' :: (c :: w ++ rest)) = .ok lex ∧
      lexAnnotationName utf8 lex = .ok (next, some (c :: w)) := by
  refine ⟨_, agtypeLex_annotationMark utf8 _, ?_⟩
  have name := agtypeLex_word utf8 letters ends.stops
  rw [isName] at name
  simp only [lexAnnotationName, if_true, lexNext, name, Except.mapError, bind, Except.bind, lexed]
  rfl

theorem lexAnnotation_none {lex : AgtypeLexContext} (other : lex.tokenType ≠ .annotationMark) :
    lexAnnotationName utf8 lex = .ok (lex, none) := if_neg other

end Lookahead

section Scalars

variable {ops : TextOps} {utf8 : Bool}

/-- Values that are pushed as one token. -/
def AgtypeValue.isComposite : AgtypeValue → Bool
  | .vertex _ | .edge _ | .path _ | .array _ _ | .object _ => true
  | _ => false

/-- What is left in `res` when the value is all of the input. -/
def AgtypeValue.top (v : AgtypeValue) : AgtypeValue :=
  if v.isComposite then v else .array true [v]

/-- The value is read off the input before `rest` and goes to the innermost open
container. -/
def ReadsText (ops : TextOps) (utf8 : Bool) (v : AgtypeValue) : Prop :=
  ∀ rest, Ends rest → ∃ lex next, agtypeLex utf8 (nodeText ops v ++ rest) = .ok lex ∧
    agtypeLex utf8 rest = .ok next ∧ lex.tokenType ≠ .arrayEnd ∧
    ∀ᶠ fuel in atTop, ∀ res stack after, pushResult v stack = .ok after →
      ∃ res', parseValue utf8 (agtypeInActions ops) fuel lex (res, stack) =
          .ok (next, (res', after)) ∧ (stack = [] → res' = some v.top)

theorem agtypeInScalar_ok {token : Bytes} {tokentype valueType : AgtypeTokenType}
    {annotationName : Option Bytes} {v : AgtypeValue} {res : Option AgtypeValue}
    {stack after : AgtypeParseState} (plain : v.isComposite = false)
    (typed : annotatedType tokentype annotationName = .ok valueType)
    (valued : scalarValue ops token valueType = .ok v) (pushed : pushResult v stack = .ok after) :
    ∃ res', agtypeInScalar ops (res, stack) token tokentype annotationName = .ok (res', after) ∧
      (stack = [] → res' = some v.top) := by
  have start : agtypeInScalar ops (res, stack) token tokentype annotationName =
      pushScalar v (res, stack) := by
    simp only [agtypeInScalar, typed, valued, bind, Except.bind]
  rw [start]
  cases stack with
  | nil =>
      cases pushed
      exact ⟨some (.array true [v]), rfl, fun _ => by rw [AgtypeValue.top, plain]; rfl⟩
  | cons frame next =>
      refine ⟨none, ?_, fun empty => absurd empty (List.cons_ne_nil _ _)⟩
      cases frame with
      | array rawScalar elems =>
          have appended : appendElement v (.array rawScalar elems :: next) = .ok after := pushed
          simp only [pushScalar, agtypeInPush, pushAgtypeValueScalar, appended]
          rfl
      | object pairs key =>
          have appended : appendValue v (.object pairs key :: next) = .ok after := pushed
          simp only [pushScalar, agtypeInPush, pushAgtypeValueScalar, appended]
          rfl

theorem parseValue_scalar {lex : AgtypeLexContext} (isScalar : isScalarToken lex.tokenType = true)
    (fuel : Nat) (state : PushState) :
    parseValue utf8 (agtypeInActions ops) (fuel + 1) lex state =
      parseScalar utf8 (agtypeInActions ops) lex state := by
  rw [parseValue]
  split
  · rename_i isObject
    rw [isObject] at isScalar
    cases isScalar
  · rename_i isArray
    rw [isArray] at isScalar
    cases isScalar
  · rfl

/-- A scalar token, with an annotation or without one. -/
theorem parseScalar_ok {lex first next : AgtypeLexContext} {annotationName : Option Bytes}
    {v : AgtypeValue} {t : AgtypeTokenType} {res : Option AgtypeValue}
    {stack after : AgtypeParseState} (isScalar : isScalarToken lex.tokenType = true)
    (lexed : agtypeLex utf8 lex.rest = .ok first)
    (annotated : lexAnnotationName utf8 first = .ok (next, annotationName))
    (plain : v.isComposite = false)
    (typed : annotatedType lex.tokenType annotationName = .ok t)
    (valued : scalarValue ops (lexeme lex) t = .ok v)
    (pushed : pushResult v stack = .ok after) :
    ∃ res', parseScalar utf8 (agtypeInActions ops) lex (res, stack) =
        .ok (next, (res', after)) ∧ (stack = [] → res' = some v.top) := by
  obtain ⟨res', received, top⟩ :=
    agtypeInScalar_ok plain typed valued pushed
  refine ⟨res', ?_, top⟩
  rw [parseScalar, if_pos isScalar, lexNext, lexed]
  change (lexAnnotationName utf8 first).bind _ = _
  rw [annotated]
  change (agtypeInScalar ops (res, stack) (lexeme lex) lex.tokenType annotationName).bind _ = _
  rw [received]
  rfl

/-- Scalars that are printed as one token. -/
theorem reads_token {v : AgtypeValue} (plain : v.isComposite = false)
    (token : ∀ rest, Ends rest → ∃ lex, agtypeLex utf8 (nodeText ops v ++ rest) = .ok lex ∧
      lex.rest = rest ∧ isScalarToken lex.tokenType = true ∧
      scalarValue ops (lexeme lex) lex.tokenType = .ok v) : ReadsText ops utf8 v := by
  intro rest ends
  obtain ⟨lex, lexed, after, isScalar, valued⟩ := token rest ends
  obtain ⟨next, lexedNext, other⟩ := agtypeLex_ends utf8 ends
  refine ⟨lex, next, lexed, lexedNext, ?_, ?_⟩
  · intro isEnd
    rw [isEnd] at isScalar
    cases isScalar
  · refine eventually_of_succ (p := fun _ => True) (Eventually.of_forall fun _ => trivial)
      fun fuel _ res stack after pushed => ?_
    rw [parseValue_scalar isScalar]
    exact parseScalar_ok isScalar (by rwa [‹lex.rest = rest›]) (lexAnnotation_none utf8 other)
      plain rfl valued pushed

theorem float8In_float8Text (laws : TextLaws ops) {val : Float8}
    (shape : NumberText (ops.float8Out val))
    (roundTrip : ops.float8In (ops.float8Out val) = some val) :
    ops.float8In (float8Text ops val) = some val := by
  simp only [float8Text]
  split_ifs with whole
  · rcases shape with valid | special | special | special
    · rw [laws.decimalPoint _ valid whole, roundTrip]
    · rw [special] at whole
      exact absurd whole (by decide)
    · rw [special] at whole
      exact absurd whole (by decide)
    · rw [special] at whole
      exact absurd whole (by decide)
  · exact roundTrip

theorem reads_numeric {val : Numeric} (shape : NumberText (ops.numericOut val))
    (roundTrip : ops.numericIn (ops.numericOut val) = some val) :
    ReadsText ops utf8 (.numeric val) := by
  intro rest ends
  obtain ⟨next, lexedNext, -⟩ := agtypeLex_ends utf8 ends
  obtain ⟨first, lexedFirst, annotated⟩ := lexAnnotation_word utf8 (c := byte 'n')
    (w := ascii ['u', 'm', 'e', 'r', 'i', 'c']) (by decide +kernel) (by decide) ends lexedNext
  have stops : Stops (byte ':' :: byte ':' ::
      (byte 'n' :: ascii ['u', 'm', 'e', 'r', 'i', 'c'] ++ rest)) := by
    intro c membership
    cases membership
    exact .inr (.inr (.inr rfl))
  obtain ⟨tokenType, lexed, isNumber⟩ := agtypeLex_numberText utf8 shape stops
  have text : nodeText ops (.numeric val) ++ rest = ops.numericOut val ++
      (byte ':' :: byte ':' :: (byte 'n' :: ascii ['u', 'm', 'e', 'r', 'i', 'c'] ++ rest)) := by
    simp [nodeText, ascii]
  have isScalar : isScalarToken tokenType = true := by
    rcases isNumber with rfl | rfl <;> rfl
  have notString : tokenType ≠ .string := by
    rcases isNumber with rfl | rfl <;> decide
  refine ⟨_, next, text ▸ lexed, lexedNext, ?_, ?_⟩
  · rcases isNumber with rfl | rfl <;> simp
  · refine eventually_of_succ (p := fun _ => True) (Eventually.of_forall fun _ => trivial)
      fun fuel _ res stack after pushed => ?_
    rw [parseValue_scalar isScalar]
    refine parseScalar_ok isScalar lexedFirst annotated rfl (t := .numeric) ?_ ?_ pushed
    · rcases isNumber with rfl | rfl <;> rfl
    · simp only [lexeme, notString, if_false, scalarValue, roundTrip]
      rfl

end Scalars

section Containers

variable {ops : TextOps} {utf8 : Bool}

theorem elemsText_false (elem : AgtypeValue) (rest : List AgtypeValue) :
    elemsText ops false (elem :: rest) = byte ',' :: 32 :: elemsText ops true (elem :: rest) := by
  simp [elemsText, separator, ascii, byte]

theorem pairsText_false (pair : AgtypePair) (rest : List AgtypePair) :
    pairsText ops false (pair :: rest) = byte ',' :: 32 :: pairsText ops true (pair :: rest) := by
  simp [pairsText, separator, ascii, byte]

/-- `agtype_in` sets no action around an element. -/
theorem parseArrayElements_agtypeIn (fuel : Nat) (lex : AgtypeLexContext) (state : PushState) :
    parseArrayElements utf8 (agtypeInActions ops) (fuel + 1) lex state = (do
      let (lex, state) ← parseValue utf8 (agtypeInActions ops) fuel lex state
      if lex.tokenType = .comma then
        parseArrayElements utf8 (agtypeInActions ops) fuel (← lexNext utf8 lex) state
      else return (lex, state)) := by
  rw [parseArrayElements]
  rfl

/-- One or more elements, up to the closing bracket. -/
theorem reads_elems {elem : AgtypeValue} {others : List AgtypeValue}
    (children : ∀ e ∈ elem :: others, ReadsText ops utf8 e) (tail : Bytes) :
    ∃ lex, agtypeLex utf8 (elemsText ops true (elem :: others) ++ byte ']' :: tail) = .ok lex ∧
      lex.tokenType ≠ .arrayEnd ∧
      ∀ᶠ fuel in atTop, ∀ res acc stack, acc.length + (elem :: others).length ≤ agtypeMaxElems →
        ∃ res', parseArrayElements utf8 (agtypeInActions ops) fuel lex
            (res, .array false acc :: stack) =
          .ok (⟨.arrayEnd, [byte ']'], [], tail⟩,
            (res', .array false (acc ++ elem :: others) :: stack)) := by
  induction others generalizing elem with
  | nil =>
      obtain ⟨lex, next, lexed, lexedNext, notEnd, parsed⟩ :=
        children elem (by simp) (byte ']' :: tail) (ends_cons tail (.inr (.inl rfl)))
      cases lexedNext.symm.trans (agtypeLex_arrayEnd utf8 tail)
      refine ⟨lex, by simpa [elemsText, separator] using lexed, notEnd, ?_⟩
      refine eventually_of_succ parsed fun fuel parsed res acc stack bounded => ?_
      have room : ¬ agtypeMaxElems ≤ acc.length := by
        simp at bounded
        omega
      obtain ⟨res', result, -⟩ := parsed res (.array false acc :: stack) _
        (show pushResult elem _ = .ok (.array false (acc ++ [elem]) :: stack) from if_neg room)
      refine ⟨res', ?_⟩
      rw [parseArrayElements_agtypeIn, result]
      rfl
  | cons second others inductionHypothesis =>
      obtain ⟨later, lexedLater, -, parsedLater⟩ :=
        inductionHypothesis fun e inside => children e (List.mem_cons_of_mem _ inside)
      obtain ⟨lex, next, lexed, lexedNext, notEnd, parsed⟩ := children elem (by simp)
        (elemsText ops false (second :: others) ++ byte ']' :: tail)
        (by
          rw [elemsText_false]
          exact ends_cons _ (.inl rfl))
      rw [elemsText_false] at lexedNext
      cases lexedNext.symm.trans (agtypeLex_comma utf8 _)
      refine ⟨lex, ?_, notEnd, ?_⟩
      · rw [← lexed]
        simp [elemsText, separator]
      · refine eventually_of_succ (parsed.and parsedLater) ?_
        rintro fuel ⟨parsed, parsedLater⟩ res acc stack bounded
        have room : ¬ agtypeMaxElems ≤ acc.length := by
          simp at bounded
          omega
        obtain ⟨middle, result, -⟩ := parsed res (.array false acc :: stack) _
          (show pushResult elem _ = .ok (.array false (acc ++ [elem]) :: stack) from if_neg room)
        obtain ⟨res', rest⟩ := parsedLater middle (acc ++ [elem]) stack (by
          simp at bounded ⊢
          omega)
        refine ⟨res', ?_⟩
        rw [List.append_assoc, List.singleton_append] at rest
        rw [parseArrayElements_agtypeIn, result]
        change (Except.mapError InError.lex (agtypeLex utf8 (32 :: (elemsText ops true
          (second :: others) ++ byte ']' :: tail)))).bind _ = _
        rw [agtypeLex_space, lexedLater]
        exact rest

/-- A key, a colon and a value. -/
theorem reads_field {key : Bytes} {value : AgtypeValue} (isText : IsText key)
    (child : ReadsText ops utf8 value) {r : Bytes} (ends : Ends r) :
    ∃ lex next, agtypeLex utf8 (escapeAgtype key ++ (ascii [':', ' '] ++
          (nodeText ops value ++ r))) = .ok lex ∧
      agtypeLex utf8 r = .ok next ∧ lex.tokenType = .string ∧
      ∀ᶠ fuel in atTop, ∀ res acc stack, acc.length < agtypeMaxPairs →
        ∃ res', parseObjectField utf8 (agtypeInActions ops) fuel lex
            (res, .object acc none :: stack) =
          .ok (next, (res', .object (acc ++ [(key, value)]) none :: stack)) := by
  obtain ⟨lexValue, next, lexedValue, lexedNext, -, parsed⟩ := child r ends
  obtain ⟨lex, lexed, isString, name, after⟩ := agtypeLex_escapeAgtype utf8 isText.1
    (ascii [':', ' '] ++ (nodeText ops value ++ r))
  refine ⟨lex, next, lexed, lexedNext, isString, ?_⟩
  refine eventually_of_succ parsed fun fuel parsed res acc stack room => ?_
  obtain ⟨res', result, -⟩ := parsed none (.object acc (some key) :: stack)
    (.object (acc ++ [(key, value)]) none :: stack) rfl
  refine ⟨res', ?_⟩
  have colon : agtypeLex utf8 lex.rest =
      .ok ⟨.colon, [byte ':'], [], 32 :: (nodeText ops value ++ r)⟩ := by
    rw [after]
    exact agtypeLex_colon utf8 _
  have short : checkStringLength key = .ok key := if_neg (Nat.not_lt.mpr isText.2)
  have pushed : agtypeInPush (.key key) (res, .object acc none :: stack) =
      .ok (none, .object acc (some key) :: stack) := by
    simp only [agtypeInPush, pushAgtypeValueScalar, appendKey, if_neg (Nat.not_le.mpr room)]
    rfl
  simp only [parseObjectField, lexExpect, isString, if_true, lexNext, colon, Except.mapError,
    bind, Except.bind, agtypeLex_space, lexedValue, name]
  have started (isnull : Bool) : (agtypeInActions ops).objectFieldStart
      (res, .object acc none :: stack) key isnull = .ok (none, .object acc (some key) :: stack) := by
    simp only [agtypeInActions, short, bind, Except.bind, pushed]
  simp only [started, result]
  rfl

/-- One or more fields, up to the closing brace. -/
theorem reads_fields {pair : AgtypePair} {others : List AgtypePair}
    (keys : ∀ p ∈ pair :: others, IsText p.1)
    (children : ∀ p ∈ pair :: others, ReadsText ops utf8 p.2) (tail : Bytes) :
    ∃ lex, agtypeLex utf8 (pairsText ops true (pair :: others) ++ byte '}' :: tail) = .ok lex ∧
      lex.tokenType = .string ∧
      ∀ᶠ fuel in atTop, ∀ res acc stack, acc.length + (pair :: others).length ≤ agtypeMaxPairs →
        ∃ res', parseObjectFields utf8 (agtypeInActions ops) fuel lex
            (res, .object acc none :: stack) =
          .ok (⟨.objectEnd, [byte '}'], [], tail⟩,
            (res', .object (acc ++ pair :: others) none :: stack)) := by
  induction others generalizing pair with
  | nil =>
      obtain ⟨key, value⟩ := pair
      obtain ⟨lex, next, lexed, lexedNext, isString, parsed⟩ := reads_field
        (keys (key, value) (by simp)) (children (key, value) (by simp))
        (ends_cons (c := byte '}') tail (.inr (.inr rfl)))
      cases lexedNext.symm.trans (agtypeLex_objectEnd utf8 tail)
      refine ⟨lex, by simpa [pairsText, separator] using lexed, isString, ?_⟩
      refine eventually_of_succ parsed fun fuel parsed res acc stack bounded => ?_
      obtain ⟨res', result⟩ := parsed res acc stack (by
        simp at bounded
        omega)
      refine ⟨res', ?_⟩
      rw [parseObjectFields, result]
      rfl
  | cons second others inductionHypothesis =>
      obtain ⟨key, value⟩ := pair
      obtain ⟨later, lexedLater, -, parsedLater⟩ := inductionHypothesis
        (fun p inside => keys p (List.mem_cons_of_mem _ inside))
        (fun p inside => children p (List.mem_cons_of_mem _ inside))
      obtain ⟨lex, next, lexed, lexedNext, isString, parsed⟩ := reads_field
        (keys (key, value) (by simp)) (children (key, value) (by simp))
        (r := pairsText ops false (second :: others) ++ byte '}' :: tail) (by
          rw [pairsText_false]
          exact ends_cons _ (.inl rfl))
      rw [pairsText_false] at lexedNext
      cases lexedNext.symm.trans (agtypeLex_comma utf8 _)
      refine ⟨lex, ?_, isString, ?_⟩
      · rw [← lexed]
        simp [pairsText, separator]
      · refine eventually_of_succ (parsed.and parsedLater) ?_
        rintro fuel ⟨parsed, parsedLater⟩ res acc stack bounded
        obtain ⟨middle, result⟩ := parsed res acc stack (by
          simp at bounded
          omega)
        obtain ⟨res', rest⟩ := parsedLater middle (acc ++ [(key, value)]) stack (by
          simp at bounded ⊢
          omega)
        refine ⟨res', ?_⟩
        rw [List.append_assoc, List.singleton_append] at rest
        rw [parseObjectFields, result]
        change (Except.mapError InError.lex (agtypeLex utf8 (32 :: (pairsText ops true
          (second :: others) ++ byte '}' :: tail)))).bind _ = _
        rw [agtypeLex_space, lexedLater]
        exact rest

/-- An array up to its closing bracket; an annotation may come next. -/
theorem parseArray_text {elems : List AgtypeValue} (bounded : elems.length ≤ agtypeMaxElems)
    (children : ∀ elem ∈ elems, ReadsText ops utf8 elem) {rest : Bytes} {next : AgtypeLexContext}
    (lexedNext : agtypeLex utf8 rest = .ok next) :
    ∀ᶠ fuel in atTop, ∀ res stack after, pushResult (.array false elems) stack = .ok after →
      parseArray utf8 (agtypeInActions ops) fuel
          ⟨.arrayStart, [byte '['], [], elemsText ops true elems ++ byte ']' :: rest⟩
          (res, stack) =
        parseAnnotation utf8 (agtypeInActions ops) next (some (.array false elems), after) := by
  cases elems with
  | nil =>
      refine eventually_of_succ (p := fun _ => True) (Eventually.of_forall fun _ => trivial)
        fun fuel _ res stack after pushed => ?_
      simp only [parseArray, agtypeInActions, agtypeInPush, pushAgtypeValueScalar, pushed,
        elemsText, List.nil_append, lexExpect, lexNext, agtypeLex_arrayEnd, lexedNext, if_true,
        Except.mapError, bind, Except.bind, pure, Except.pure]
  | cons elem others =>
      obtain ⟨lex, lexed, notEnd, parsed⟩ := reads_elems children rest
      refine eventually_of_succ parsed fun fuel parsed res stack after pushed => ?_
      obtain ⟨res', result⟩ := parsed (some (.array false [])) [] stack (by simpa using bounded)
      rw [List.nil_append] at result
      have started : (agtypeInActions ops).arrayStart (res, stack) =
          .ok (some (.array false []), .array false [] :: stack) := rfl
      have ended : (agtypeInActions ops).arrayEnd
          (res', .array false (elem :: others) :: stack) =
            .ok (some (.array false (elem :: others)), after) := by
        simp only [agtypeInActions, agtypeInPush, pushAgtypeValueScalar, pushed]
        rfl
      simp only [parseArray, lexExpect, if_true, lexNext, lexed, Except.mapError, bind,
        Except.bind, notEnd, if_false, started, result, lexedNext, ended]

/-- An object up to its closing brace. -/
theorem parseObject_text {pairs : List AgtypePair} (text : TextPairs pairs)
    (children : ∀ pair ∈ pairs, ReadsText ops utf8 pair.2) {rest : Bytes} {next : AgtypeLexContext}
    (lexedNext : agtypeLex utf8 rest = .ok next) :
    ∀ᶠ fuel in atTop, ∀ res stack after, pushResult (.object pairs) stack = .ok after →
      parseObject utf8 (agtypeInActions ops) fuel
          ⟨.objectStart, [byte '{'], [], pairsText ops true pairs ++ byte '}' :: rest⟩
          (res, stack) =
        parseAnnotation utf8 (agtypeInActions ops) next (some (.object pairs), after) := by
  have sorted := uniqueify_eq_self text.increasing
  cases pairs with
  | nil =>
      refine eventually_of_succ (p := fun _ => True) (Eventually.of_forall fun _ => trivial)
        fun fuel _ res stack after pushed => ?_
      simp only [parseObject, agtypeInActions, agtypeInPush, pushAgtypeValueScalar, sorted, pushed,
        pairsText, List.nil_append, lexExpect, lexNext, agtypeLex_objectEnd, lexedNext, if_true,
        Except.mapError, bind, Except.bind, pure, Except.pure]
  | cons pair others =>
      obtain ⟨lex, lexed, isString, parsed⟩ := reads_fields text.keys children rest
      refine eventually_of_succ parsed fun fuel parsed res stack after pushed => ?_
      obtain ⟨res', result⟩ := parsed (some (.object [])) [] stack (by simpa using text.bounded)
      rw [List.nil_append] at result
      have started : (agtypeInActions ops).objectStart (res, stack) =
          .ok (some (.object []), .object [] none :: stack) := rfl
      have ended : (agtypeInActions ops).objectEnd
          (res', .object (pair :: others) none :: stack) =
            .ok (some (.object (pair :: others)), after) := by
        simp only [agtypeInActions, agtypeInPush, pushAgtypeValueScalar, sorted, pushed]
        rfl
      simp only [parseObject, lexExpect, if_true, lexNext, lexed, Except.mapError, bind,
        Except.bind, isString, started, result, lexedNext, ended]

end Containers

section Values

variable {ops : TextOps} {utf8 : Bool}

/-- Whether a value can be pushed does not depend on the value, and a typecast
replaces the value that was pushed. -/
theorem retype_pushResult {f second : AgtypeValue} {stack after : AgtypeParseState}
    (pushed : pushResult second stack = .ok after) :
    ∃ middle, pushResult f stack = .ok middle ∧
      retype second middle = (some second, after) := by
  match stack with
  | [] =>
      cases pushed
      exact ⟨[], rfl, rfl⟩
  | .array rawScalar elems :: next =>
      simp only [pushResult, appendElement] at pushed ⊢
      split_ifs at pushed ⊢ with full
      cases pushed
      exact ⟨_, rfl, by simp [retype]⟩
  | .object pairs (some key) :: next =>
      cases pushed
      exact ⟨_, rfl, by simp [retype]⟩
  | .object pairs none :: next => cases pushed

theorem reads_array {elems : List AgtypeValue} (bounded : elems.length ≤ agtypeMaxElems)
    (children : ∀ elem ∈ elems, ReadsText ops utf8 elem) : ReadsText ops utf8 (.array false elems) := by
  intro rest ends
  obtain ⟨next, lexedNext, other⟩ := agtypeLex_ends utf8 ends
  refine ⟨⟨.arrayStart, [byte '['], [], elemsText ops true elems ++ byte ']' :: rest⟩, next,
    ?_, lexedNext, nofun, ?_⟩
  · simp [nodeText, agtypeLex_arrayStart]
  · refine eventually_of_succ (parseArray_text bounded children lexedNext)
      fun fuel parsed res stack after pushed => ⟨some (.array false elems), ?_, fun _ => rfl⟩
    rw [parseValue, parsed res stack after pushed, parseAnnotation,
      lexAnnotation_none utf8 other]
    rfl

theorem reads_object {pairs : List AgtypePair} (text : TextPairs pairs)
    (children : ∀ pair ∈ pairs, ReadsText ops utf8 pair.2) : ReadsText ops utf8 (.object pairs) := by
  intro rest ends
  obtain ⟨next, lexedNext, other⟩ := agtypeLex_ends utf8 ends
  refine ⟨⟨.objectStart, [byte '{'], [], pairsText ops true pairs ++ byte '}' :: rest⟩, next,
    ?_, lexedNext, nofun, ?_⟩
  · simp [nodeText, agtypeLex_objectStart]
  · refine eventually_of_succ (parseObject_text text children lexedNext)
      fun fuel parsed res stack after pushed => ⟨some (.object pairs), ?_, fun _ => rfl⟩
    rw [parseValue, parsed res stack after pushed, parseAnnotation,
      lexAnnotation_none utf8 other]
    rfl

/-- An object and the annotation that makes it an entity. -/
theorem reads_entity_object {pairs : List AgtypePair} {v : AgtypeValue} {c : UInt8} {w : Bytes}
    (text : TextPairs pairs) (children : ∀ pair ∈ pairs, ReadsText ops utf8 pair.2)
    (letters : ∀ d ∈ c :: w, isLetter d = true)
    (isName : wordType (c :: w) = .identifier) (composite : v.isComposite = true)
    (printed : nodeText ops v =
      byte '{' :: (pairsText ops true pairs ++ byte '}' :: byte ':' :: byte ':' :: c :: w))
    (cast : ∀ stack, agtypeInAgtypeAnnotation (some (.object pairs), stack) (c :: w) =
      .ok (retype v stack)) : ReadsText ops utf8 v := by
  intro rest ends
  obtain ⟨next, lexedNext, -⟩ := agtypeLex_ends utf8 ends
  obtain ⟨first, lexedFirst, annotated⟩ :=
    lexAnnotation_word utf8 letters isName ends lexedNext
  refine ⟨⟨.objectStart, [byte '{'], [], pairsText ops true pairs ++
    byte '}' :: byte ':' :: byte ':' :: (c :: w ++ rest)⟩, next, ?_, lexedNext, nofun, ?_⟩
  · simp [printed, agtypeLex_objectStart]
  · refine eventually_of_succ (parseObject_text text children lexedFirst)
      fun fuel parsed res stack after pushed => ⟨some v, ?_, fun _ => ?_⟩
    · obtain ⟨middle, pushedObject, retyped⟩ :=
        retype_pushResult pushed
      rw [parseValue, parsed res stack middle pushedObject, parseAnnotation, annotated]
      simp only [bind, Except.bind, agtypeInActions, cast, retyped]
      rfl
    · rw [AgtypeValue.top, composite]
      rfl

theorem reads_path {elems : List AgtypeValue} (bounded : elems.length ≤ agtypeMaxElems)
    (isPath : isArrayPath elems = true) (children : ∀ elem ∈ elems, ReadsText ops utf8 elem) :
    ReadsText ops utf8 (.path elems) := by
  intro rest ends
  obtain ⟨next, lexedNext, -⟩ := agtypeLex_ends utf8 ends
  obtain ⟨first, lexedFirst, annotated⟩ := lexAnnotation_word utf8 (c := byte 'p')
    (w := ascii ['a', 't', 'h']) (by decide +kernel) (by decide) ends lexedNext
  refine ⟨⟨.arrayStart, [byte '['], [], elemsText ops true elems ++
    byte ']' :: byte ':' :: byte ':' :: (byte 'p' :: ascii ['a', 't', 'h'] ++ rest)⟩, next, ?_,
    lexedNext, nofun, ?_⟩
  · simp [nodeText, ascii, agtypeLex_arrayStart]
  · refine eventually_of_succ (parseArray_text bounded children lexedFirst)
      fun fuel parsed res stack after pushed => ⟨some (.path elems), ?_, fun _ => rfl⟩
    obtain ⟨middle, pushedArray, retyped⟩ :=
      retype_pushResult (f := .array false elems) pushed
    rw [parseValue, parsed res stack middle pushedArray, parseAnnotation, annotated]
    have cast : agtypeInAgtypeAnnotation (some (.array false elems), middle)
        (byte 'p' :: ascii ['a', 't', 'h']) = .ok (retype (.path elems) middle) := by
      simp only [ agtypeInAgtypeAnnotation, agtypeTypecastArray, isPath, if_true]
      rfl
    simp only [bind, Except.bind, agtypeInActions, cast, retyped]
    rfl

/-- The text of a value is read as the value. -/
theorem reads_of_textValue (laws : TextLaws ops) (utf8 : Bool) {v : AgtypeValue}
    (value : TextValue ops v) : ReadsText ops utf8 v := by
  induction value with
  | null =>
      refine reads_token rfl fun rest ends => ⟨_, agtypeLex_word utf8 (c := byte 'n')
        (w := ascii ['u', 'l', 'l']) (by decide +kernel) ends.stops, rfl, ?_⟩
      exact ⟨rfl, rfl⟩
  | @string val isText =>
      refine reads_token rfl fun rest _ => ?_
      obtain ⟨lex, lexed, isString, name, after⟩ :=
        agtypeLex_escapeAgtype utf8 isText.1 rest
      refine ⟨lex, lexed, after, by rw [isString]; rfl, ?_⟩
      rw [isString, name, scalarValue, checkStringLength,
        if_neg (Nat.not_lt.mpr isText.2)]
      rfl
  | numeric shape roundTrip => exact reads_numeric shape roundTrip
  | integer val =>
      refine reads_token rfl fun rest ends =>
        ⟨_, agtypeLex_pgLltoa utf8 val ends.stops, rfl, rfl, ?_⟩
      change numberOr .integer (ops.strtoint64 (pgLltoa val)) = _
      rw [laws.integer]
      rfl
  | @float val shape roundTrip =>
      refine reads_token rfl fun rest ends =>
        ⟨_, agtypeLex_float8Text ops utf8 shape ends.stops, rfl, rfl, ?_⟩
      change numberOr .float (ops.float8In (float8Text ops val)) = _
      rw [float8In_float8Text laws shape roundTrip]
      rfl
  | bool val =>
      cases val with
      | true =>
          refine reads_token rfl fun rest ends => ⟨_, agtypeLex_word utf8 (c := byte 't')
            (w := ascii ['r', 'u', 'e']) (by decide +kernel) ends.stops, rfl, ?_⟩
          exact ⟨rfl, rfl⟩
      | false =>
          refine reads_token rfl fun rest ends => ⟨_, agtypeLex_word utf8 (c := byte 'f')
            (w := ascii ['a', 'l', 's', 'e']) (by decide +kernel) ends.stops, rfl, ?_⟩
          exact ⟨rfl, rfl⟩
  | @vertex pairs _ text isVertex children =>
      refine reads_entity_object text children (c := byte 'v')
        (w := ascii ['e', 'r', 't', 'e', 'x']) (by decide +kernel) (by decide) rfl
        (by simp [nodeText, ascii]) fun stack => ?_
      simp only [ agtypeInAgtypeAnnotation, agtypeTypecastObject, isVertex, if_true]
      rfl
  | @edge pairs _ text isEdge children =>
      refine reads_entity_object text children (c := byte 'e')
        (w := ascii ['d', 'g', 'e']) (by decide +kernel) (by decide) rfl
        (by simp [nodeText, ascii]) fun stack => ?_
      simp only [ agtypeInAgtypeAnnotation, agtypeTypecastObject, isEdge, if_true]
      rfl
  | path _ bounded isPath children => exact reads_path bounded isPath children
  | array _ bounded children => exact reads_array bounded children
  | object _ text children => exact reads_object text children

/-- `agtype_value_from_cstring` gives the value back. -/
theorem agtypeValueFromCstring_eq (laws : TextLaws ops) (utf8 : Bool) {v : AgtypeValue}
    (value : TextValue ops v) :
    ∀ᶠ fuel in atTop, agtypeValueFromCstring ops utf8 fuel (nodeText ops v) = .ok v.top := by
  obtain ⟨lex, next, lexed, lexedNext, -, parsed⟩ :=
    reads_of_textValue laws utf8 value [] ends_nil
  rw [List.append_nil] at lexed
  cases lexedNext.symm.trans (show agtypeLex utf8 [] = .ok ⟨.endOfInput, [], [], []⟩ from rfl)
  filter_upwards [parsed] with fuel parsed
  obtain ⟨res', result, top⟩ := parsed none [] [] rfl
  simp only [agtypeValueFromCstring, parseAgtype, lexed, Except.mapError, bind, Except.bind,
    result, top rfl]
  rfl

theorem agtypeValueToAgtype_top (v : AgtypeValue) :
    agtypeValueToAgtype v.top = convertToAgtype v.root := by
  cases v <;> rfl

end Values

section Stored

/-- A root scalar on the generic path: the container's own header and entry count
towards the limit. -/
theorem convertToAgtype_scalar {v : AgtypeValue} {out : Bytes} {entry : Nat}
    (converted : ∀ buffer : Bytes, padlen buffer = 0 →
      convertAgtypeValue buffer v = .ok (buffer ++ out, entry))
    (length : agteOfflenfld entry = out.length) (short : out.length ≤ agtentryOfflenmask) :
    (agtentryOfflenmask < out.length + 8 →
        convertToAgtype (.array true [v]) = .error .arrayTooLarge) ∧
      (¬agtentryOfflenmask < out.length + 8 →
        ∃ agtype, convertToAgtype (.array true [v]) = .ok agtype) := by
  let start := beginContainer (reserveFromBuffer [] 4) (arrayHeader true 1) 1
  have startLength : start.buffer.length = 12 := rfl
  have padded : padlen start.buffer = 0 := by rw [padlen, startLength]; rfl
  obtain ⟨next, stored⟩ : ∃ next, storeAgtentry .arrayTooLarge start (start.buffer ++ out) entry =
      .ok next := by
    refine ⟨_, if_neg ?_⟩
    change ¬agtentryOfflenmask < 0 + agteOfflenfld entry
    omega
  have nextLength : next.buffer.length = 12 + out.length := by
    obtain ⟨-, word, rfl, -⟩ := storeAgtentry_ok stored
    have place : start.agtentryOffset = 8 := rfl
    simp only [copyToBuffer, place, List.length_append, List.length_take, List.length_drop,
      startLength, length_encodeLE]
    omega
  have loop : convertElems start [v] = .ok next := by
    simp only [convertElems, converted start.buffer padded, stored, bind, Except.bind]
  have whole : convertToAgtype (.array true [v]) =
      (endContainer .arrayTooLarge 4 next).bind fun result => .ok (setVarsize result.1) := by
    change ((convertElems start [v]).bind _).bind _ = _
    rw [loop]
    rfl
  have counted : next.buffer.length - 4 = out.length + 8 := by omega
  rw [whole, endContainer, counted]
  refine ⟨fun tooLong => ?_, fun fits => ?_⟩
  · rw [if_pos tooLong]
    rfl
  · rw [if_neg fits]
    exact ⟨_, rfl⟩

/-- The length of a root scalar's data, for the scalars whose length varies. -/
def AgtypeValue.dataLength : AgtypeValue → Nat
  | .string val => val.length
  | .numeric val => val.image.length
  | _ => 0

/-- A root scalar that its own encoder accepts and the generic path does not. -/
def LongScalar (v : AgtypeValue) : Prop := agtentryOfflenmask < v.dataLength + 8

/-- A stored value that is no long scalar can be stored by the generic path as well. -/
theorem convertToAgtype_root {v : AgtypeValue} {agtype : Bytes}
    (stored : agtypeValueToAgtype v = .ok agtype) :
    (LongScalar v → convertToAgtype v.root = .error .arrayTooLarge) ∧
      (¬LongScalar v → ∃ agtype', convertToAgtype v.root = .ok agtype') := by
  have generic (out : Bytes) (entry : Nat) (root : v.root = .array true [v])
      (iff : LongScalar v ↔ agtentryOfflenmask < out.length + 8)
      (converted : ∀ buffer : Bytes, padlen buffer = 0 →
        convertAgtypeValue buffer v = .ok (buffer ++ out, entry))
      (length : agteOfflenfld entry = out.length) (short : out.length ≤ agtentryOfflenmask) :
      (LongScalar v → convertToAgtype v.root = .error .arrayTooLarge) ∧
        (¬LongScalar v → ∃ agtype', convertToAgtype v.root = .ok agtype') := by
    rw [root, iff]
    exact convertToAgtype_scalar converted length short
  have extended {header word : Nat} (root : v.root = .array true [v])
      (iff : LongScalar v ↔ agtentryOfflenmask < 0 + 8)
      (converted : ∀ buffer : Bytes, convertAgtypeValue buffer v =
        .ok (agSerializeHeader buffer header ++ encodeLE 8 word,
          agtentryIsAgtype ||| (padlen buffer + 8 + 4))) :
      (LongScalar v → convertToAgtype v.root = .error .arrayTooLarge) ∧
        (¬LongScalar v → ∃ agtype', convertToAgtype v.root = .ok agtype') := by
    refine generic (encodeLE 4 header ++ encodeLE 8 word) (agtentryIsAgtype ||| 12) root ?_ (fun buffer padded => ?_) ?_ ?_
    · simp [iff, agtentryOfflenmask]
    · simp [converted, agSerializeHeader, padBufferToInt, reserveFromBuffer, padded]
    · simp [agteOfflenfld, agtentryIsAgtype, agtentryOfflenmask]
    · simp [agtentryOfflenmask]
  have same (equal : agtypeValueToAgtype v = convertToAgtype v.root)
      (none : v.dataLength = 0) :
      (LongScalar v → convertToAgtype v.root = .error .arrayTooLarge) ∧
        (¬LongScalar v → ∃ agtype', convertToAgtype v.root = .ok agtype') := by
    refine ⟨fun long => ?_, fun _ => ⟨agtype, equal.symm.trans stored⟩⟩
    rw [LongScalar, none] at long
    exact absurd long (by decide)
  cases v with
  | null => exact same rfl rfl
  | vertex pairs => exact same rfl rfl
  | edge pairs => exact same rfl rfl
  | path elems => exact same rfl rfl
  | array rawScalar elems => exact same rfl rfl
  | object pairs => exact same rfl rfl
  | integer val => exact extended rfl Iff.rfl fun _ => rfl
  | float val => exact extended rfl Iff.rfl fun _ => rfl
  | bool val =>
      refine generic [] (if val then agtentryIsBoolTrue else agtentryIsBoolFalse) rfl Iff.rfl (fun buffer _ => ?_) ?_ (Nat.zero_le _)
      · rw [List.append_nil]
        rfl
      · cases val <;> rfl
  | string val =>
      simp only [agtypeValueToAgtype, agtypeStringToAgtype] at stored
      split_ifs at stored with tooLong
      have short : val.length < 2 ^ 28 := by
        rw [agtentryOfflenmask] at tooLong
        omega
      exact generic _ _ rfl Iff.rfl (fun _ _ => rfl) (entry_parts (k := 0) (by decide) short).1
        (Nat.not_lt.mp tooLong)
  | numeric val =>
      simp only [agtypeValueToAgtype, agtypeNumericToAgtype] at stored
      split_ifs at stored with tooLong
      have short : val.image.length < 2 ^ 28 := by
        rw [agtentryOfflenmask] at tooLong
        omega
      refine generic val.image (agtentryIsNumeric ||| val.image.length) rfl
        Iff.rfl (fun buffer padded => ?_) (entry_parts (k := 1) (by decide) short).1
        (Nat.not_lt.mp tooLong)
      simp [convertAgtypeValue, padBufferToInt, reserveFromBuffer, padded]

/-- `agtype_in` serializes the printed value by the generic path. -/
theorem agtypeIn_nodeText {ops : TextOps} (laws : TextLaws ops) (utf8 : Bool)
    {v : AgtypeValue} (value : TextValue ops v) :
    ∀ᶠ fuel in atTop, agtypeIn ops utf8 fuel (nodeText ops v) =
      (convertToAgtype v.root).mapError .convert := by
  filter_upwards [agtypeValueFromCstring_eq laws utf8 value] with fuel parsed
  simp only [agtypeIn, parsed, bind, Except.bind, agtypeValueToAgtype_top]

/-- What a value prints is read as the value with the same scalar types, and
`agtype_in` stores it again unless it is a scalar that only fits without a
container's header. -/
theorem agtypeIn_agtypeOut {ops : TextOps} (laws : TextLaws ops) (utf8 : Bool)
    {v : AgtypeValue} (value : TextValue ops v) {agtype : Bytes}
    (stored : agtypeValueToAgtype v = .ok agtype) :
    ∃ text, (∀ᶠ fuel in atTop, agtypeOut ops fuel agtype = .ok text) ∧
      (∀ᶠ fuel in atTop, agtypeValueFromCstring ops utf8 fuel text = .ok v.top) ∧
      (¬LongScalar v → ∃ agtype', (∀ᶠ fuel in atTop, agtypeIn ops utf8 fuel text = .ok agtype') ∧
        ReadsBack (agtype'.drop 4) v.root) ∧
      (LongScalar v → ∀ᶠ fuel in atTop,
        agtypeIn ops utf8 fuel text = .error (.convert .arrayTooLarge)) := by
  have again := agtypeIn_nodeText laws utf8 value
  obtain ⟨long, fits⟩ := convertToAgtype_root stored
  refine ⟨nodeText ops v, agtypeOut_eq value stored, agtypeValueFromCstring_eq laws utf8 value,
    fun notLong => ?_, fun isLong => ?_⟩
  · obtain ⟨agtype', converted⟩ := fits notLong
    rw [converted] at again
    refine ⟨agtype', again, readsBack_of_containerAt value.built ?_⟩
    exact containerAt_convertToAgtype v.isScalar_root converted
  · rw [long isLong] at again
    exact again

theorem textLaws_server : TextLaws Server.textOps where
  integer := Server.strtoint64_pgLltoa
  decimalPoint numstr _ digits := by
    have plain : numstr ≠ ascii ['1', '.', '5'] := by
      rintro rfl
      exact absurd digits (by decide)
    have longer : numstr ++ ascii ['.', '0'] ≠ ascii ['1', '.', '5'] := fun equal => by
      have last := congrArg List.getLast? equal
      rw [List.getLast?_append] at last
      cases last
    change (if _ then _ else _) = if _ then _ else _
    rw [if_neg longer, if_neg plain]

/-- A vertex with an integer, a float, a numeric and an escaped string below it. -/
def printedVertex : AgtypeValue :=
  .vertex [(ascii ['i', 'd'], .integer (-7)),
    (ascii ['l', 'a', 'b', 'e', 'l'], .string [quote, backslash]),
    (ascii ['p', 'r', 'o', 'p', 'e', 'r', 't', 'i', 'e', 's'],
      .object [(ascii ['a'], .float Server.oneAndHalf),
        (ascii ['b'], .array false [.numeric (Server.int8Numeric 1), .null, .bool true])])]

theorem textValue_printedVertex : TextValue Server.textOps printedVertex := by
  refine .vertex ?_ ⟨by decide +kernel, by decide, by decide +kernel⟩ (by decide +kernel)
  simp only [List.mem_cons, List.not_mem_nil, or_false, forall_eq_or_imp, forall_eq]
  refine ⟨.integer _, .string (by decide +kernel), .object ?_
    ⟨by decide +kernel, by decide, by decide +kernel⟩⟩
  simp only [List.mem_cons, List.not_mem_nil, or_false, forall_eq_or_imp, forall_eq]
  refine ⟨.float (.inl (by decide +kernel)) (by decide +kernel), .array ?_ (by decide)⟩
  simp only [List.mem_cons, List.not_mem_nil, or_false, forall_eq_or_imp, forall_eq]
  exact ⟨.numeric (.inl (by decide +kernel)) (by decide +kernel), .null, .bool true⟩

theorem agtypeIn_agtypeOut_printedVertex :
    ∃ agtype text, agtypeValueToAgtype printedVertex = .ok agtype ∧
      (∀ᶠ fuel in atTop, agtypeOut Server.textOps fuel agtype = .ok text) ∧
      ∀ᶠ fuel in atTop, agtypeValueFromCstring Server.textOps true fuel text =
        .ok printedVertex := by
  obtain ⟨agtype, stored⟩ : ∃ agtype, agtypeValueToAgtype printedVertex = .ok agtype := by
    have isOk : (agtypeValueToAgtype printedVertex).isOk = true := by decide +kernel
    cases result : agtypeValueToAgtype printedVertex with
    | ok agtype => exact ⟨agtype, rfl⟩
    | error error =>
        rw [result] at isOk
        cases isOk
  obtain ⟨text, printed, parsed, -⟩ :=
    agtypeIn_agtypeOut textLaws_server true textValue_printedVertex stored
  exact ⟨agtype, text, stored, printed, parsed⟩

theorem agtypeStringToAgtype_ok {string : Bytes} (fits : string.length ≤ agtentryOfflenmask) :
    ∃ agtype, agtypeStringToAgtype string = .ok agtype :=
  ⟨_, if_neg (Nat.not_lt.mpr fits)⟩

/-- The longest string there is, as a root scalar. -/
def longestString : AgtypeValue := .string (List.replicate agtentryOfflenmask (byte 'a'))

theorem not_agtypeIn_longestString :
    ∃ agtype text, TextValue Server.textOps longestString ∧
      agtypeValueToAgtype longestString = .ok agtype ∧
      (∀ᶠ fuel in atTop, agtypeOut Server.textOps fuel agtype = .ok text) ∧
      ∀ᶠ fuel in atTop, agtypeIn Server.textOps true fuel text =
        .error (.convert .arrayTooLarge) := by
  have length : (List.replicate agtentryOfflenmask (byte 'a')).length = agtentryOfflenmask :=
    List.length_replicate
  have value : TextValue Server.textOps longestString := by
    refine .string ⟨fun c membership => ?_, length.le⟩
    rw [List.eq_of_mem_replicate membership]
    decide
  obtain ⟨agtype, stored⟩ : ∃ agtype, agtypeValueToAgtype longestString = .ok agtype :=
    agtypeStringToAgtype_ok length.le
  have long : LongScalar longestString := by
    rw [LongScalar, longestString, AgtypeValue.dataLength, length]
    omega
  have again := agtypeIn_nodeText textLaws_server true value
  rw [(convertToAgtype_root stored).1 long] at again
  exact ⟨agtype, nodeText Server.textOps longestString, value, stored,
    agtypeOut_eq value stored, again⟩

end Stored

end Age.Agtype
