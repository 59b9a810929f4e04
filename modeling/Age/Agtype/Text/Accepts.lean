import Age.Agtype.Text.Grammar
import Age.Agtype.Text.RoundTrip

/-!
# What the parser accepts

`parse_agtype` with all its callbacks, which only note what they are called with, against a grammar
that derives texts together with these notes.
-/

namespace Age.Agtype

open Lib

section Callbacks

/-- A call of one of the functions of `agtype_sem_action` -/
inductive ParseEvent where
  | objectStart
  | objectEnd
  | arrayStart
  | arrayEnd
  | objectFieldStart (fname : Bytes) (isnull : Bool)
  | objectFieldEnd (fname : Bytes) (isnull : Bool)
  | arrayElementStart (isnull : Bool)
  | arrayElementEnd (isnull : Bool)
  | scalar (token : Bytes) (tokenType : AgtypeTokenType) (annotationName : Option Bytes)
  | agtypeAnnotationAction (annotationName : Bytes)
  deriving DecidableEq, Repr

def annotationEvents (annotationName : Option Bytes) : List ParseEvent :=
  (annotationName.map ParseEvent.agtypeAnnotationAction).toList

def fieldEvents (fname : Bytes) (isnull : Bool) (events : List ParseEvent) : List ParseEvent :=
  .objectFieldStart fname isnull :: (events ++ [.objectFieldEnd fname isnull])

def elementEvents (isnull : Bool) (events : List ParseEvent) : List ParseEvent :=
  .arrayElementStart isnull :: (events ++ [.arrayElementEnd isnull])

variable (utf8 : Bool)

/-- `parse_scalar` -/
def reportScalar (lex : AgtypeLexContext) : Except InError (AgtypeLexContext × List ParseEvent) :=
  if isScalarToken lex.tokenType then do
    let next ← lexNext utf8 lex
    let (next, annotationName) ← lexAnnotationName utf8 next
    return (next, [.scalar (lexeme lex) lex.tokenType annotationName])
  else .error (.parse .value lex.tokenType)

mutual

/-- The switch of `parse_array_element`, `parse_object_field` and `parse_agtype` -/
def reportValue : Nat → AgtypeLexContext → Except InError (AgtypeLexContext × List ParseEvent)
  | 0, _ => .error .outOfFuel
  | fuel + 1, lex =>
      match lex.tokenType with
      | .objectStart => reportObject fuel lex
      | .arrayStart => reportArray fuel lex
      | _ => reportScalar utf8 lex

/-- `parse_object_field` -/
def reportObjectField :
    Nat → AgtypeLexContext → Except InError (AgtypeLexContext × List ParseEvent)
  | 0, _ => .error .outOfFuel
  | fuel + 1, lex => do
      let fname := lexeme lex
      let lex ← lexExpect utf8 .string lex .string
      let lex ← lexExpect utf8 .objectLabel lex .colon
      let isnull := decide (lex.tokenType = .null)
      let (lex, events) ← reportValue fuel lex
      return (lex, fieldEvents fname isnull events)

/-- A field, and the fields after it that are separated by commas -/
def reportObjectFields :
    Nat → AgtypeLexContext → Except InError (AgtypeLexContext × List ParseEvent)
  | 0, _ => .error .outOfFuel
  | fuel + 1, lex => do
      let (lex, events) ← reportObjectField fuel lex
      if lex.tokenType = .comma then
        let (lex, more) ← reportObjectFields fuel (← lexNext utf8 lex)
        return (lex, events ++ more)
      else return (lex, events)

/-- `parse_object` -/
def reportObject : Nat → AgtypeLexContext → Except InError (AgtypeLexContext × List ParseEvent)
  | 0, _ => .error .outOfFuel
  | fuel + 1, lex => do
      let lex ← lexExpect utf8 .objectStart lex .objectStart
      let (lex, events) ←
        match lex.tokenType with
        | .string => reportObjectFields fuel lex
        | .objectEnd => .ok (lex, [])
        | other => .error (.parse .objectStart other)
      let lex ← lexExpect utf8 .objectNext lex .objectEnd
      let (lex, annotationName) ← lexAnnotationName utf8 lex
      return (lex, .objectStart :: (events ++ .objectEnd :: annotationEvents annotationName))

/-- `parse_array_element`, and the elements after it that are separated by commas -/
def reportArrayElements :
    Nat → AgtypeLexContext → Except InError (AgtypeLexContext × List ParseEvent)
  | 0, _ => .error .outOfFuel
  | fuel + 1, lex => do
      let isnull := decide (lex.tokenType = .null)
      let (lex, events) ← reportValue fuel lex
      if lex.tokenType = .comma then
        let (lex, more) ← reportArrayElements fuel (← lexNext utf8 lex)
        return (lex, elementEvents isnull events ++ more)
      else return (lex, elementEvents isnull events)

/-- `parse_array` -/
def reportArray : Nat → AgtypeLexContext → Except InError (AgtypeLexContext × List ParseEvent)
  | 0, _ => .error .outOfFuel
  | fuel + 1, lex => do
      let lex ← lexExpect utf8 .arrayStart lex .arrayStart
      let (lex, events) ←
        if lex.tokenType = .arrayEnd then .ok (lex, [])
        else reportArrayElements fuel lex
      let lex ← lexExpect utf8 .arrayNext lex .arrayEnd
      let (lex, annotationName) ← lexAnnotationName utf8 lex
      return (lex, .arrayStart :: (events ++ .arrayEnd :: annotationEvents annotationName))

end

/-- `parse_agtype`: the calls of its callbacks, in their order -/
def reportAgtype (fuel : Nat) (input : Bytes) : Except InError (List ParseEvent) := do
  let lex ← (agtypeLex utf8 input).mapError .lex
  let (lex, events) ← reportValue utf8 fuel lex
  let _ ← lexExpect utf8 .end lex .endOfInput
  return events

end Callbacks

section Derivations

variable (nul : Prop)

/-- `::` and an identifier, or nothing -/
inductive Annotation : Bytes → Option Bytes → Prop
  | none : Annotation [] none
  | some {white white' name : Bytes} (isWhite : White white) (isWhite' : White white')
      (isName : Lexeme nul .identifier name name) :
      Annotation (white ++ (byte ':' :: byte ':' :: (white' ++ name))) (some name)

/-- The syntactic categories -/
inductive Part where
  | value
  | fields
  | elements

/-- A value that is the scalar `null` -/
def isNullValue : List ParseEvent → Bool
  | .scalar _ .null _ :: _ => true
  | _ => false

/-- The texts of a category with the calls they stand for; white space may precede each token. -/
inductive Derives : Part → Bytes → List ParseEvent → Prop
  | scalar {white text token typecast : Bytes} {tokenType : AgtypeTokenType}
      {name : Option Bytes} (isWhite : White white) (isLexeme : Lexeme nul tokenType text token)
      (isScalar : isScalarToken tokenType = true) (isTypecast : Annotation nul typecast name) :
      Derives .value (white ++ (text ++ typecast)) [.scalar token tokenType name]
  | emptyObject {white white' typecast : Bytes} {name : Option Bytes} (isWhite : White white)
      (isWhite' : White white') (isTypecast : Annotation nul typecast name) :
      Derives .value (white ++ byte '{' :: (white' ++ byte '}' :: typecast))
        (.objectStart :: .objectEnd :: annotationEvents name)
  | object {white fields white' typecast : Bytes} {name : Option Bytes}
      {events : List ParseEvent} (isWhite : White white) (inner : Derives .fields fields events)
      (isWhite' : White white') (isTypecast : Annotation nul typecast name) :
      Derives .value (white ++ byte '{' :: (fields ++ (white' ++ byte '}' :: typecast)))
        (.objectStart :: (events ++ .objectEnd :: annotationEvents name))
  | emptyArray {white white' typecast : Bytes} {name : Option Bytes} (isWhite : White white)
      (isWhite' : White white') (isTypecast : Annotation nul typecast name) :
      Derives .value (white ++ byte '[' :: (white' ++ byte ']' :: typecast))
        (.arrayStart :: .arrayEnd :: annotationEvents name)
  | array {white elements white' typecast : Bytes} {name : Option Bytes}
      {events : List ParseEvent} (isWhite : White white) (inner : Derives .elements elements events)
      (isWhite' : White white') (isTypecast : Annotation nul typecast name) :
      Derives .value (white ++ byte '[' :: (elements ++ (white' ++ byte ']' :: typecast)))
        (.arrayStart :: (events ++ .arrayEnd :: annotationEvents name))
  | field {white key fname white' value : Bytes} {events : List ParseEvent}
      (isWhite : White white) (isKey : Lexeme nul .string key fname) (isWhite' : White white')
      (isValue : Derives .value value events) :
      Derives .fields (white ++ (key ++ (white' ++ byte ':' :: value)))
        (fieldEvents fname (isNullValue events) events)
  | fields {white key fname white' value white'' more : Bytes} {events others : List ParseEvent}
      (isWhite : White white) (isKey : Lexeme nul .string key fname) (isWhite' : White white')
      (isValue : Derives .value value events) (isWhite'' : White white'')
      (isMore : Derives .fields more others) :
      Derives .fields
        (white ++ (key ++ (white' ++ byte ':' :: (value ++ (white'' ++ byte ',' :: more)))))
        (fieldEvents fname (isNullValue events) events ++ others)
  | element {value : Bytes} {events : List ParseEvent} (isValue : Derives .value value events) :
      Derives .elements value (elementEvents (isNullValue events) events)
  | elements {value white more : Bytes} {events others : List ParseEvent}
      (isValue : Derives .value value events) (isWhite : White white)
      (isMore : Derives .elements more others) :
      Derives .elements (value ++ (white ++ byte ',' :: more))
        (elementEvents (isNullValue events) events ++ others)

/-- The text of one value -/
def AgtypeText (input : Bytes) (events : List ParseEvent) : Prop :=
  ∃ value white, input = value ++ white ∧ White white ∧ Derives nul .value value events

end Derivations

section Tokens

theorem lexNext_eq {lex next : AgtypeLexContext} (lexed : agtypeLex true lex.rest = .ok next) :
    lexNext true lex = .ok next := by
  rw [lexNext, lexed]
  rfl

theorem lexNext_ok {lex next : AgtypeLexContext} (lexed : lexNext true lex = .ok next) :
    agtypeLex true lex.rest = .ok next := by
  rw [lexNext] at lexed
  cases isLex : agtypeLex true lex.rest with
  | error error =>
      rw [isLex] at lexed
      cases lexed
  | ok other =>
      rw [isLex] at lexed
      cases lexed
      rfl

theorem lexExpect_eq {lex next : AgtypeLexContext} {token : AgtypeTokenType}
    (context : AgtypeParseContext) (isToken : lex.tokenType = token)
    (lexed : agtypeLex true lex.rest = .ok next) : lexExpect true context lex token = .ok next := by
  rw [lexExpect, if_pos isToken, lexNext_eq lexed]

theorem lexExpect_token {rest : Bytes} {next : AgtypeLexContext} (context : AgtypeParseContext)
    (token : AgtypeTokenType) (text : Bytes) (lexed : agtypeLex true rest = .ok next) :
    lexExpect true context ⟨token, text, [], rest⟩ token = .ok next :=
  lexExpect_eq context rfl lexed

theorem lexExpect_ok {lex next : AgtypeLexContext} {token : AgtypeTokenType}
    {context : AgtypeParseContext} (expected : lexExpect true context lex token = .ok next) :
    lex.tokenType = token ∧ agtypeLex true lex.rest = .ok next := by
  rw [lexExpect] at expected
  split_ifs at expected with isToken
  exact ⟨isToken, lexNext_ok expected⟩

theorem delimited_cons {c : UInt8} {s : Bytes} (other : isAlphanumeric c = false ∧ c ≠ byte '.') :
    Delimited (c :: s) := by
  intro d here
  cases here
  exact other

theorem delimited_white {white s : Bytes} (isWhite : White white) (delimited : Delimited s) :
    Delimited (white ++ s) := by
  cases white with
  | nil => exact delimited
  | cons c white =>
      have space := isWhite c List.mem_cons_self
      exact delimited_cons ⟨false_of_class space (by decide +kernel), ne_of_class space (by decide)⟩

/-- A token that the lexer found is there, after white space. -/
theorem token_of_agtypeLex {input : Bytes} {lex : AgtypeLexContext}
    (lexed : agtypeLex true input = .ok lex) (more : lex.tokenType ≠ .endOfInput) :
    ∃ white text, input = white ++ (text ++ lex.rest) ∧ White white ∧
      Lexeme False lex.tokenType text (lexeme lex) := by
  obtain ⟨white, text, split, isWhite, ⟨ended, -⟩ | isLexeme⟩ := lexeme_of_agtypeLex lexed
  · exact absurd ended more
  · exact ⟨white, text, split, isWhite, isLexeme⟩

/-- The text of a punctuation mark -/
def markText : AgtypeTokenType → Option Bytes
  | .objectStart => some [byte '{']
  | .objectEnd => some [byte '}']
  | .arrayStart => some [byte '[']
  | .arrayEnd => some [byte ']']
  | .comma => some [byte ',']
  | .colon => some [byte ':']
  | .annotationMark => some [byte ':', byte ':']
  | _ => none

theorem mark_text {token : AgtypeTokenType} {text value mark : Bytes}
    (isLexeme : Lexeme False token text value) (isMark : markText token = some mark) :
    text = mark := by
  cases isLexeme with
  | objectStart | objectEnd | arrayStart | arrayEnd | comma | colon | annotationMark =>
      exact Option.some.inj isMark
  | string | special | minusInfinity | true | false | null | identifier => cases isMark
  | number isNumber | negative isNumber =>
      rcases unsignedNumber_type isNumber with rfl | rfl <;> cases isMark

theorem identifier_value {text value : Bytes} (isLexeme : Lexeme False .identifier text value) :
    text = value := by
  generalize isToken : AgtypeTokenType.identifier = token at isLexeme
  cases isLexeme with
  | identifier | number | negative => rfl
  | _ => cases isToken

/-- A punctuation mark that the lexer found -/
theorem mark_of_agtypeLex {input mark : Bytes} {lex : AgtypeLexContext} {token : AgtypeTokenType}
    (lexed : agtypeLex true input = .ok lex) (isToken : lex.tokenType = token)
    (isMark : markText token = some mark) :
    ∃ white, input = white ++ (mark ++ lex.rest) ∧ White white := by
  have more : lex.tokenType ≠ .endOfInput := by
    rw [isToken]
    rintro rfl
    cases isMark
  obtain ⟨white, text, split, isWhite, isLexeme⟩ := token_of_agtypeLex lexed more
  rw [mark_text isLexeme (isToken ▸ isMark)] at split
  exact ⟨white, split, isWhite⟩

/-- An annotation is read, and the token after it. -/
theorem lexAnnotationName_of_annotation {typecast rest : Bytes} {name : Option Bytes}
    {next : AgtypeLexContext} (isTypecast : Annotation False typecast name)
    (lexed : agtypeLex true rest = .ok next) (delimited : Delimited rest)
    (noMark : next.tokenType ≠ .annotationMark) :
    Delimited (typecast ++ rest) ∧
      ∃ lex, agtypeLex true (typecast ++ rest) = .ok lex ∧
        lexAnnotationName true lex = .ok (next, name) := by
  cases isTypecast with
  | none => exact ⟨delimited, next, lexed, if_neg noMark⟩
  | @some white white' name isWhite isWhite' isName =>
      obtain ⟨lex, found, isIdentifier, isLexeme, after⟩ :=
        agtypeLex_of_lexeme isName delimited (by decide)
      have shape : white ++ (byte ':' :: byte ':' :: (white' ++ name)) ++ rest =
          white ++ (byte ':' :: byte ':' :: (white' ++ (name ++ rest))) := by simp
      rw [shape]
      refine ⟨delimited_white isWhite (delimited_cons (by decide)),
        ⟨.annotationMark, [byte ':', byte ':'], [], white' ++ (name ++ rest)⟩, ?_, ?_⟩
      · rw [agtypeLex_white isWhite, agtypeLex_annotationMark]
      · have second : agtypeLex true (white' ++ (name ++ rest)) = .ok lex := by
          rw [agtypeLex_white isWhite', found]
        have third : lexNext true lex = .ok next := lexNext_eq (by rw [after, lexed])
        rw [lexAnnotationName, if_pos rfl, lexNext_eq second]
        change (if lex.tokenType = .identifier then _ else _) = _
        rw [if_pos isIdentifier, third, isLexeme]
        rfl

theorem annotation_of_lexAnnotationName {input : Bytes} {lex next : AgtypeLexContext}
    {name : Option Bytes} (lexed : agtypeLex true input = .ok lex)
    (named : lexAnnotationName true lex = .ok (next, name)) :
    ∃ typecast rest, input = typecast ++ rest ∧ Annotation False typecast name ∧
      agtypeLex true rest = .ok next := by
  rw [lexAnnotationName] at named
  split_ifs at named with isMark
  · obtain ⟨white, split, isWhite⟩ := mark_of_agtypeLex lexed isMark rfl
    obtain ⟨second, found, named⟩ := bind_ok named
    split_ifs at named with isIdentifier
    obtain ⟨third, after, named⟩ := bind_ok named
    cases named
    obtain ⟨white', text, split', isWhite', isLexeme⟩ :=
      token_of_agtypeLex (lexNext_ok found) (by rw [isIdentifier]; decide)
    rw [isIdentifier] at isLexeme
    have same := identifier_value isLexeme
    rw [← same] at isLexeme ⊢
    refine ⟨_, second.rest, ?_, .some isWhite isWhite' isLexeme, lexNext_ok after⟩
    rw [split, split']
    simp
  · cases named
    exact ⟨[], input, rfl, .none, lexed⟩

end Tokens

section Soundness

/-- What a run of the parser from a token on has read: a text of the category, up to the token that
it stops at -/
def ReadsPart (part : Part) (input : Bytes) (next : AgtypeLexContext)
    (events : List ParseEvent) : Prop :=
  ∃ text rest, input = text ++ rest ∧ agtypeLex true rest = .ok next ∧
    Derives False part text events

variable {input : Bytes} {lex next : AgtypeLexContext} {events : List ParseEvent}

theorem scalar_of_report (lexed : agtypeLex true input = .ok lex)
    (reported : reportScalar true lex = .ok (next, events)) :
    ReadsPart .value input next events ∧
      isNullValue events = decide (lex.tokenType = .null) := by
  rw [reportScalar] at reported
  split_ifs at reported with isScalar
  obtain ⟨after, found, reported⟩ := bind_ok reported
  obtain ⟨⟨last, name⟩, named, reported⟩ := bind_ok reported
  cases reported
  have more : lex.tokenType ≠ .endOfInput := by
    intro ended
    rw [ended] at isScalar
    cases isScalar
  obtain ⟨white, text, rfl, isWhite, isLexeme⟩ := token_of_agtypeLex lexed more
  obtain ⟨typecast, rest, split, isTypecast, ends⟩ :=
    annotation_of_lexAnnotationName (lexNext_ok found) named
  refine ⟨⟨_, rest, ?_, ends, .scalar isWhite isLexeme isScalar isTypecast⟩, ?_⟩
  · rw [split]
    simp
  · cases lex.tokenType <;> rfl

/-- The end of a container: its closing mark and an annotation -/
theorem close_of_report {close : AgtypeTokenType} {mark : Bytes} {context : AgtypeParseContext}
    {after last : AgtypeLexContext} {name : Option Bytes} (isMark : markText close = some mark)
    (lexed : agtypeLex true input = .ok lex)
    (closed : lexExpect true context lex close = .ok after)
    (named : lexAnnotationName true after = .ok (last, name)) :
    ∃ white typecast rest, input = white ++ (mark ++ (typecast ++ rest)) ∧ White white ∧
      Annotation False typecast name ∧ agtypeLex true rest = .ok last := by
  obtain ⟨isClose, found⟩ := lexExpect_ok closed
  obtain ⟨white, rfl, isWhite⟩ := mark_of_agtypeLex lexed isClose isMark
  obtain ⟨typecast, rest, split, isTypecast, ends⟩ :=
    annotation_of_lexAnnotationName found named
  exact ⟨white, typecast, rest, by rw [split], isWhite, isTypecast, ends⟩

theorem object_of_report {fuel : Nat}
    (inner : ∀ {input lex next events}, agtypeLex true input = .ok lex →
      reportObjectFields true fuel lex = .ok (next, events) → ReadsPart .fields input next events)
    (lexed : agtypeLex true input = .ok lex)
    (reported : reportObject true (fuel + 1) lex = .ok (next, events)) :
    ReadsPart .value input next events ∧ isNullValue events = false := by
  rw [reportObject] at reported
  obtain ⟨first, opened, reported⟩ := bind_ok reported
  obtain ⟨isStart, found⟩ := lexExpect_ok opened
  obtain ⟨white, rfl, isWhite⟩ := mark_of_agtypeLex lexed isStart rfl
  dsimp only at reported
  split at reported
  · obtain ⟨⟨second, inside⟩, read, reported⟩ := bind_ok reported
    obtain ⟨third, closed, reported⟩ := bind_ok reported
    obtain ⟨⟨last, name⟩, named, reported⟩ := bind_ok reported
    cases reported
    obtain ⟨fields, rest, split, found', derives⟩ := inner found read
    obtain ⟨white', typecast, tail, rfl, isWhite', isTypecast, ends⟩ :=
      @close_of_report _ _ .objectEnd _ _ _ _ _ rfl found' closed named
    refine ⟨⟨_, tail, ?_, ends, .object isWhite derives isWhite' isTypecast⟩, rfl⟩
    rw [split]
    simp
  · obtain ⟨⟨second, inside⟩, read, reported⟩ := bind_ok reported
    cases read
    obtain ⟨third, closed, reported⟩ := bind_ok reported
    obtain ⟨⟨last, name⟩, named, reported⟩ := bind_ok reported
    cases reported
    obtain ⟨white', typecast, tail, split, isWhite', isTypecast, ends⟩ :=
      @close_of_report _ _ .objectEnd _ _ _ _ _ rfl found closed named
    refine ⟨⟨_, tail, ?_, ends, .emptyObject isWhite isWhite' isTypecast⟩, rfl⟩
    rw [split]
    simp
  · cases reported

theorem array_of_report {fuel : Nat}
    (inner : ∀ {input lex next events}, agtypeLex true input = .ok lex →
      reportArrayElements true fuel lex = .ok (next, events) →
      ReadsPart .elements input next events)
    (lexed : agtypeLex true input = .ok lex)
    (reported : reportArray true (fuel + 1) lex = .ok (next, events)) :
    ReadsPart .value input next events ∧ isNullValue events = false := by
  rw [reportArray] at reported
  obtain ⟨first, opened, reported⟩ := bind_ok reported
  obtain ⟨isStart, found⟩ := lexExpect_ok opened
  obtain ⟨white, rfl, isWhite⟩ := mark_of_agtypeLex lexed isStart rfl
  dsimp only at reported
  split_ifs at reported with isEnd
  · obtain ⟨⟨second, inside⟩, read, reported⟩ := bind_ok reported
    cases read
    obtain ⟨third, closed, reported⟩ := bind_ok reported
    obtain ⟨⟨last, name⟩, named, reported⟩ := bind_ok reported
    cases reported
    obtain ⟨white', typecast, tail, split, isWhite', isTypecast, ends⟩ :=
      @close_of_report _ _ .arrayEnd _ _ _ _ _ rfl found closed named
    refine ⟨⟨_, tail, ?_, ends, .emptyArray isWhite isWhite' isTypecast⟩, rfl⟩
    rw [split]
    simp
  · obtain ⟨⟨second, inside⟩, read, reported⟩ := bind_ok reported
    obtain ⟨third, closed, reported⟩ := bind_ok reported
    obtain ⟨⟨last, name⟩, named, reported⟩ := bind_ok reported
    cases reported
    obtain ⟨elements, rest, split, found', derives⟩ := inner found read
    obtain ⟨white', typecast, tail, rfl, isWhite', isTypecast, ends⟩ :=
      @close_of_report _ _ .arrayEnd _ _ _ _ _ rfl found' closed named
    refine ⟨⟨_, tail, ?_, ends, .array isWhite derives isWhite' isTypecast⟩, rfl⟩
    rw [split]
    simp

/-- A field: its key, the colon and a value -/
theorem field_of_report {fuel : Nat}
    (inner : ∀ {input lex next events}, agtypeLex true input = .ok lex →
      reportValue true fuel lex = .ok (next, events) →
      ReadsPart .value input next events ∧ isNullValue events = decide (lex.tokenType = .null))
    (lexed : agtypeLex true input = .ok lex)
    (reported : reportObjectField true (fuel + 1) lex = .ok (next, events)) :
    ∃ white key fname white' value rest inside,
      input = white ++ (key ++ (white' ++ byte ':' :: (value ++ rest))) ∧ White white ∧
      Lexeme False .string key fname ∧ White white' ∧ Derives False .value value inside ∧
      events = fieldEvents fname (isNullValue inside) inside ∧ agtypeLex true rest = .ok next := by
  rw [reportObjectField] at reported
  obtain ⟨first, keyed, reported⟩ := bind_ok reported
  obtain ⟨second, labelled, reported⟩ := bind_ok reported
  obtain ⟨⟨last, inside⟩, read, reported⟩ := bind_ok reported
  cases reported
  obtain ⟨isString, found⟩ := lexExpect_ok keyed
  obtain ⟨isColon, found'⟩ := lexExpect_ok labelled
  obtain ⟨white, key, rfl, isWhite, isKey⟩ :=
    token_of_agtypeLex lexed (by rw [isString]; decide)
  rw [isString] at isKey
  obtain ⟨white', split, isWhite'⟩ := mark_of_agtypeLex found isColon rfl
  obtain ⟨⟨value, rest, split', ends, derives⟩, isNull⟩ := inner found' read
  refine ⟨white, key, _, white', value, rest, inside, ?_, isWhite, isKey, isWhite', derives, ?_,
    ends⟩
  · rw [split, split']
    rfl
  · rw [isNull]

/-- A run of the parser reads a text of the grammar and makes the calls that belong to it. -/
theorem reads_of_report (fuel : Nat) : ∀ {input lex next events},
    agtypeLex true input = .ok lex →
    (reportValue true fuel lex = .ok (next, events) →
      ReadsPart .value input next events ∧ isNullValue events = decide (lex.tokenType = .null)) ∧
    (reportObjectFields true fuel lex = .ok (next, events) →
      ReadsPart .fields input next events) ∧
    (reportArrayElements true fuel lex = .ok (next, events) →
      ReadsPart .elements input next events) := by
  induction fuel using Nat.strongRecOn with
  | ind fuel inductionHypothesis =>
  intro input lex next events lexed
  cases fuel with
  | zero =>
      refine ⟨fun reported => ?_, fun reported => ?_, fun reported => ?_⟩
      · rw [reportValue] at reported
        cases reported
      · rw [reportObjectFields] at reported
        cases reported
      · rw [reportArrayElements] at reported
        cases reported
  | succ fuel =>
      refine ⟨fun reported => ?_, fun reported => ?_, fun reported => ?_⟩
      · rw [reportValue] at reported
        split at reported
        · rename_i isStart
          cases fuel with
          | zero =>
              rw [reportObject] at reported
              cases reported
          | succ fuel =>
              rw [isStart]
              exact object_of_report (fun lexed => (inductionHypothesis fuel (by omega) lexed).2.1)
                lexed reported
        · rename_i isStart
          cases fuel with
          | zero =>
              rw [reportArray] at reported
              cases reported
          | succ fuel =>
              rw [isStart]
              exact array_of_report (fun lexed => (inductionHypothesis fuel (by omega) lexed).2.2)
                lexed reported
        · exact scalar_of_report lexed reported
      · rw [reportObjectFields] at reported
        obtain ⟨⟨after, inside⟩, read, reported⟩ := bind_ok reported
        cases fuel with
        | zero =>
            rw [reportObjectField] at read
            cases read
        | succ fuel =>
            obtain ⟨white, key, fname, white', value, rest, events', split, isWhite, isKey, isWhite',
              derives, rfl, found⟩ := field_of_report
                (fun lexed => (inductionHypothesis fuel (by omega) lexed).1) lexed read
            dsimp only at reported
            split_ifs at reported with isComma
            · obtain ⟨third, found', reported⟩ := bind_ok reported
              obtain ⟨⟨last, others⟩, readMore, reported⟩ := bind_ok reported
              cases reported
              obtain ⟨white'', rfl, isWhite''⟩ := mark_of_agtypeLex found isComma rfl
              obtain ⟨more, tail, split', ends, derives'⟩ :=
                (inductionHypothesis (fuel + 1) (by omega) (lexNext_ok found')).2.1 readMore
              refine ⟨_, tail, ?_, ends,
                .fields isWhite isKey isWhite' derives isWhite'' derives'⟩
              rw [split, split']
              simp
            · cases reported
              refine ⟨_, rest, ?_, found, .field isWhite isKey isWhite' derives⟩
              rw [split]
              simp
      · rw [reportArrayElements] at reported
        obtain ⟨⟨after, inside⟩, read, reported⟩ := bind_ok reported
        obtain ⟨⟨value, rest, rfl, found, derives⟩, isNull⟩ :=
          (inductionHypothesis fuel (by omega) lexed).1 read
        dsimp only at reported
        split_ifs at reported with isComma
        · obtain ⟨third, found', reported⟩ := bind_ok reported
          obtain ⟨⟨last, others⟩, readMore, reported⟩ := bind_ok reported
          cases reported
          obtain ⟨white, rfl, isWhite⟩ := mark_of_agtypeLex found isComma rfl
          obtain ⟨more, tail, split, ends, derives'⟩ :=
            (inductionHypothesis fuel (by omega) (lexNext_ok found')).2.2 readMore
          refine ⟨value ++ (white ++ byte ',' :: more), tail, ?_, ends, ?_⟩
          · rw [split]
            simp
          · rw [← isNull]
            exact .elements derives isWhite derives'
        · cases reported
          refine ⟨value, rest, rfl, found, ?_⟩
          rw [← isNull]
          exact .element derives

end Soundness

section Completeness

def reportPart : Part → Nat → AgtypeLexContext →
    Except InError (AgtypeLexContext × List ParseEvent)
  | .value => reportValue true
  | .fields => reportObjectFields true
  | .elements => reportArrayElements true

/-- Enough fuel for a text: three calls for each byte at most -/
def partFuel : Part → Bytes → Nat
  | .value, text => 3 * text.length
  | _, text => 3 * text.length + 1

def beginsValue (tokenType : AgtypeTokenType) : Prop :=
  isScalarToken tokenType = true ∨ tokenType = .objectStart ∨ tokenType = .arrayStart

def Begins : Part → AgtypeTokenType → List ParseEvent → Prop
  | .value, tokenType, events =>
      beginsValue tokenType ∧ isNullValue events = decide (tokenType = .null)
  | .fields, tokenType, _ => tokenType = .string
  | .elements, tokenType, _ => beginsValue tokenType

/-- The token after a text of the category does not belong to it. -/
def EndsPart (part : Part) (rest : Bytes) (next : AgtypeLexContext) : Prop :=
  agtypeLex true rest = .ok next ∧ Delimited rest ∧ next.tokenType ≠ .annotationMark ∧
    match part with
    | .value => True
    | _ => next.tokenType ≠ .comma

/-- The parser reads the text up to the token after it. -/
def Parses (part : Part) (text : Bytes) (events : List ParseEvent) : Prop :=
  ∀ {rest next fuel}, EndsPart part rest next → partFuel part text ≤ fuel →
    ∃ lex, agtypeLex true (text ++ rest) = .ok lex ∧ Begins part lex.tokenType events ∧
      reportPart part fuel lex = .ok (next, events)

theorem lexeme_nonempty {token : AgtypeTokenType} {text value : Bytes}
    (isLexeme : Lexeme False token text value) : 0 < text.length := by
  cases isLexeme with
  | number isNumber =>
      obtain ⟨c, tail, rfl, -⟩ := unsignedNumber_head isNumber
      exact Nat.succ_pos _
  | special isSpecial =>
      cases special_word isSpecial
      exact Nat.succ_pos _
  | identifier isWord =>
      cases isWord
      exact Nat.succ_pos _
  | _ => exact Nat.succ_pos _

/-- A colon before a value is no annotation mark. -/
theorem agtypeLex_colon_value {s : Bytes} {lex : AgtypeLexContext}
    (lexed : agtypeLex true s = .ok lex) (begins : beginsValue lex.tokenType) :
    agtypeLex true (byte ':' :: s) = .ok ⟨.colon, [byte ':'], [], s⟩ := by
  refine if_neg fun mark => ?_
  obtain ⟨tail, rfl⟩ := List.head?_eq_some_iff.1 mark
  have isColon : lex.tokenType = .annotationMark ∨ lex.tokenType = .colon := by
    by_cases second : tail.head? = some (byte ':')
    · have found : agtypeLex true (byte ':' :: tail) =
          .ok ⟨.annotationMark, [byte ':', byte ':'], [], tail.tail⟩ := if_pos second
      rw [← Except.ok.inj (found.symm.trans lexed)]
      exact .inl rfl
    · have found : agtypeLex true (byte ':' :: tail) = .ok ⟨.colon, [byte ':'], [], tail⟩ :=
        if_neg second
      rw [← Except.ok.inj (found.symm.trans lexed)]
      exact .inr rfl
  rcases begins with scalar | object | array
  · rcases isColon with isColon | isColon <;> rw [isColon] at scalar <;> cases scalar
  · rcases isColon with isColon | isColon <;> rw [isColon] at object <;> cases object
  · rcases isColon with isColon | isColon <;> rw [isColon] at array <;> cases array

theorem reportValue_scalar {fuel : Nat} {lex : AgtypeLexContext}
    (isScalar : isScalarToken lex.tokenType = true) :
    reportValue true (fuel + 1) lex = reportScalar true lex := by
  rw [reportValue]
  split
  · rename_i other
    rw [other] at isScalar
    cases isScalar
  · rename_i other
    rw [other] at isScalar
    cases isScalar
  · rfl

theorem parses_scalar {white text token typecast : Bytes} {tokenType : AgtypeTokenType}
    {name : Option Bytes} (isWhite : White white) (isLexeme : Lexeme False tokenType text token)
    (isScalar : isScalarToken tokenType = true) (isTypecast : Annotation False typecast name) :
    Parses .value (white ++ (text ++ typecast)) [.scalar token tokenType name] := by
  intro rest next fuel ends enough
  obtain ⟨lexed, delimited, noMark, -⟩ := ends
  have positive := lexeme_nonempty isLexeme
  simp only [partFuel, List.length_append] at enough
  obtain ⟨fuel, rfl⟩ := Nat.exists_eq_add_of_le' (show 1 ≤ fuel by omega)
  obtain ⟨delimited', second, found, named⟩ :=
    lexAnnotationName_of_annotation isTypecast lexed delimited noMark
  have notColon : tokenType ≠ .colon := by
    rintro rfl
    cases isScalar
  obtain ⟨lex, first, rfl, isToken, after⟩ := agtypeLex_of_lexeme isLexeme delimited' notColon
  refine ⟨lex, ?_, ⟨.inl isScalar, ?_⟩, ?_⟩
  · rw [List.append_assoc, agtypeLex_white isWhite, List.append_assoc, first]
  · cases lex.tokenType <;> rfl
  · have follows : lexNext true lex = .ok second := lexNext_eq (by rw [after, found])
    change reportValue true (fuel + 1) lex = _
    rw [reportValue_scalar isScalar, reportScalar, if_pos isScalar, follows]
    change (lexAnnotationName true second >>= _) = _
    rw [named, isToken]
    rfl

/-- The end of a container is read. -/
theorem close_parses {close : AgtypeTokenType} {c : UInt8} {white typecast rest : Bytes}
    {name : Option Bytes} {next : AgtypeLexContext} (isWhite : White white)
    (isTypecast : Annotation False typecast name)
    (isMark : ∀ s, agtypeLex true (c :: s) = .ok ⟨close, [c], [], s⟩)
    (lexed : agtypeLex true rest = .ok next) (delimited : Delimited rest)
    (noMark : next.tokenType ≠ .annotationMark) :
    agtypeLex true (white ++ c :: (typecast ++ rest)) =
        .ok ⟨close, [c], [], typecast ++ rest⟩ ∧
      ∃ after, (∀ context, lexExpect true context ⟨close, [c], [], typecast ++ rest⟩ close =
          .ok after) ∧
        lexAnnotationName true after = .ok (next, name) := by
  obtain ⟨-, after, found, named⟩ :=
    lexAnnotationName_of_annotation isTypecast lexed delimited noMark
  exact ⟨by rw [agtypeLex_white isWhite, isMark], after,
    fun context => lexExpect_eq context rfl found, named⟩

theorem parses_emptyObject {white white' typecast : Bytes} {name : Option Bytes}
    (isWhite : White white) (isWhite' : White white')
    (isTypecast : Annotation False typecast name) :
    Parses .value (white ++ byte '{' :: (white' ++ byte '}' :: typecast))
      (.objectStart :: .objectEnd :: annotationEvents name) := by
  intro rest next fuel ends enough
  obtain ⟨lexed, delimited, noMark, -⟩ := ends
  simp only [partFuel, List.length_append, List.length_cons] at enough
  obtain ⟨fuel, rfl⟩ := Nat.exists_eq_add_of_le' (show 2 ≤ fuel by omega)
  obtain ⟨closing, after, closed, named⟩ := close_parses isWhite' isTypecast
    (agtypeLex_objectEnd true) lexed delimited noMark
  refine ⟨⟨.objectStart, [byte '{'], [], white' ++ byte '}' :: (typecast ++ rest)⟩, ?_,
    ⟨.inr (.inl rfl), rfl⟩, ?_⟩
  · simp only [List.append_assoc, List.cons_append]
    rw [agtypeLex_white isWhite, agtypeLex_objectStart]
  · have opened := lexExpect_token .objectStart .objectStart [byte '{'] closing
    rw [show reportPart .value = reportValue true from rfl, reportValue, reportObject]
    simp only [opened, closed, named, bind, Except.bind, pure, Except.pure, List.nil_append]

theorem parses_object {white fields white' typecast : Bytes} {name : Option Bytes}
    {events : List ParseEvent} (isWhite : White white) (inner : Parses .fields fields events)
    (isWhite' : White white') (isTypecast : Annotation False typecast name) :
    Parses .value (white ++ byte '{' :: (fields ++ (white' ++ byte '}' :: typecast)))
      (.objectStart :: (events ++ .objectEnd :: annotationEvents name)) := by
  intro rest next fuel ends enough
  obtain ⟨lexed, delimited, noMark, -⟩ := ends
  simp only [partFuel, List.length_append, List.length_cons] at enough
  obtain ⟨fuel, rfl⟩ := Nat.exists_eq_add_of_le' (show 2 ≤ fuel by omega)
  obtain ⟨closing, after, closed, named⟩ := close_parses isWhite' isTypecast
    (agtypeLex_objectEnd true) lexed delimited noMark
  obtain ⟨first, found, isString, read⟩ := @inner _ _ fuel
    ⟨closing, delimited_white isWhite' (delimited_cons (by decide)), nofun, nofun⟩
    (by simp only [partFuel]; omega)
  refine ⟨⟨.objectStart, [byte '{'], [],
    fields ++ (white' ++ byte '}' :: (typecast ++ rest))⟩, ?_, ⟨.inr (.inl rfl), rfl⟩, ?_⟩
  · simp only [List.append_assoc, List.cons_append]
    rw [agtypeLex_white isWhite, agtypeLex_objectStart]
  · have opened := lexExpect_token .objectStart .objectStart [byte '{'] found
    have isType : first.tokenType = .string := isString
    change reportObjectFields true fuel first = _ at read
    rw [show reportPart .value = reportValue true from rfl, reportValue, reportObject]
    simp only [opened, isType, read, closed, named, bind, Except.bind, pure, Except.pure]

theorem parses_emptyArray {white white' typecast : Bytes} {name : Option Bytes}
    (isWhite : White white) (isWhite' : White white')
    (isTypecast : Annotation False typecast name) :
    Parses .value (white ++ byte '[' :: (white' ++ byte ']' :: typecast))
      (.arrayStart :: .arrayEnd :: annotationEvents name) := by
  intro rest next fuel ends enough
  obtain ⟨lexed, delimited, noMark, -⟩ := ends
  simp only [partFuel, List.length_append, List.length_cons] at enough
  obtain ⟨fuel, rfl⟩ := Nat.exists_eq_add_of_le' (show 2 ≤ fuel by omega)
  obtain ⟨closing, after, closed, named⟩ := close_parses isWhite' isTypecast
    (agtypeLex_arrayEnd true) lexed delimited noMark
  refine ⟨⟨.arrayStart, [byte '['], [], white' ++ byte ']' :: (typecast ++ rest)⟩, ?_,
    ⟨.inr (.inr rfl), rfl⟩, ?_⟩
  · simp only [List.append_assoc, List.cons_append]
    rw [agtypeLex_white isWhite, agtypeLex_arrayStart]
  · have opened := lexExpect_token .arrayStart .arrayStart [byte '['] closing
    rw [show reportPart .value = reportValue true from rfl, reportValue, reportArray]
    simp only [opened, closed, named, bind, Except.bind, pure, Except.pure, if_true,
      List.nil_append]

theorem parses_array {white elements white' typecast : Bytes} {name : Option Bytes}
    {events : List ParseEvent} (isWhite : White white) (inner : Parses .elements elements events)
    (isWhite' : White white') (isTypecast : Annotation False typecast name) :
    Parses .value (white ++ byte '[' :: (elements ++ (white' ++ byte ']' :: typecast)))
      (.arrayStart :: (events ++ .arrayEnd :: annotationEvents name)) := by
  intro rest next fuel ends enough
  obtain ⟨lexed, delimited, noMark, -⟩ := ends
  simp only [partFuel, List.length_append, List.length_cons] at enough
  obtain ⟨fuel, rfl⟩ := Nat.exists_eq_add_of_le' (show 2 ≤ fuel by omega)
  obtain ⟨closing, after, closed, named⟩ := close_parses isWhite' isTypecast
    (agtypeLex_arrayEnd true) lexed delimited noMark
  obtain ⟨first, found, begins, read⟩ := @inner _ _ fuel
    ⟨closing, delimited_white isWhite' (delimited_cons (by decide)), nofun, nofun⟩
    (by simp only [partFuel]; omega)
  refine ⟨⟨.arrayStart, [byte '['], [],
    elements ++ (white' ++ byte ']' :: (typecast ++ rest))⟩, ?_, ⟨.inr (.inr rfl), rfl⟩, ?_⟩
  · simp only [List.append_assoc, List.cons_append]
    rw [agtypeLex_white isWhite, agtypeLex_arrayStart]
  · have opened := lexExpect_token .arrayStart .arrayStart [byte '['] found
    have notEnd : first.tokenType ≠ .arrayEnd := by
      intro isEnd
      change beginsValue first.tokenType at begins
      rw [isEnd] at begins
      rcases begins with begins | begins | begins <;> cases begins
    change reportArrayElements true fuel first = _ at read
    rw [show reportPart .value = reportValue true from rfl, reportValue, reportArray]
    simp only [opened, if_neg notEnd, read, closed, named, bind, Except.bind, pure, Except.pure]

/-- A key, its colon and the value after it are read. -/
theorem field_parses {white key fname white' value rest : Bytes} {events : List ParseEvent}
    {next : AgtypeLexContext} {fuel : Nat} (isWhite : White white)
    (isKey : Lexeme False .string key fname) (isWhite' : White white')
    (inner : Parses .value value events) (ends : EndsPart .value rest next)
    (enough : 3 * value.length ≤ fuel) :
    ∃ lex, agtypeLex true (white ++ (key ++ (white' ++ byte ':' :: (value ++ rest)))) = .ok lex ∧
      lex.tokenType = .string ∧
      reportObjectField true (fuel + 1) lex =
        .ok (next, fieldEvents fname (isNullValue events) events) := by
  obtain ⟨third, found, ⟨begins, isNull⟩, read⟩ := inner ends enough
  have colon := agtypeLex_colon_value found begins
  obtain ⟨lex, first, isString, isName, after⟩ := @agtypeLex_of_lexeme _ _ _
    (white' ++ byte ':' :: (value ++ rest)) isKey (delimited_white isWhite' (delimited_cons (by decide))) (by decide)
  refine ⟨lex, by rw [agtypeLex_white isWhite, first], isString, ?_⟩
  have keyed := lexExpect_eq .string isString (by rw [after, agtypeLex_white isWhite', colon])
  have labelled := lexExpect_token .objectLabel .colon [byte ':'] found
  change reportValue true fuel third = _ at read
  rw [reportObjectField]
  simp only [keyed, labelled, read, isName, isNull, bind, Except.bind, pure, Except.pure]

theorem parses_field {white key fname white' value : Bytes} {events : List ParseEvent}
    (isWhite : White white) (isKey : Lexeme False .string key fname) (isWhite' : White white')
    (inner : Parses .value value events) :
    Parses .fields (white ++ (key ++ (white' ++ byte ':' :: value)))
      (fieldEvents fname (isNullValue events) events) := by
  intro rest next fuel ends enough
  obtain ⟨lexed, delimited, noMark, noComma⟩ := ends
  simp only [partFuel, List.length_append, List.length_cons] at enough
  obtain ⟨fuel, rfl⟩ := Nat.exists_eq_add_of_le' (show 2 ≤ fuel by omega)
  obtain ⟨lex, first, isString, read⟩ := @field_parses _ _ _ _ _ _ _ _ fuel isWhite isKey isWhite'
    inner ⟨lexed, delimited, noMark, trivial⟩ (by omega)
  refine ⟨lex, by simpa using first, isString, ?_⟩
  change reportObjectFields true (fuel + 1 + 1) lex = _
  rw [reportObjectFields, read]
  exact if_neg noComma

theorem parses_fields {white key fname white' value white'' more : Bytes}
    {events others : List ParseEvent} (isWhite : White white)
    (isKey : Lexeme False .string key fname) (isWhite' : White white')
    (inner : Parses .value value events) (isWhite'' : White white'')
    (later : Parses .fields more others) :
    Parses .fields
      (white ++ (key ++ (white' ++ byte ':' :: (value ++ (white'' ++ byte ',' :: more)))))
      (fieldEvents fname (isNullValue events) events ++ others) := by
  intro rest next fuel ends enough
  simp only [partFuel, List.length_append, List.length_cons] at enough
  obtain ⟨fuel, rfl⟩ := Nat.exists_eq_add_of_le' (show 2 ≤ fuel by omega)
  have comma : agtypeLex true (white'' ++ byte ',' :: (more ++ rest)) =
      .ok ⟨.comma, [byte ','], [], more ++ rest⟩ := by
    rw [agtypeLex_white isWhite'', agtypeLex_comma]
  obtain ⟨lex, first, isString, read⟩ := @field_parses _ _ _ _ _ _ _ _ fuel isWhite isKey isWhite'
    inner ⟨comma, delimited_white isWhite'' (delimited_cons (by decide)), nofun, trivial⟩ (by omega)
  obtain ⟨second, found, -, readMore⟩ := @later _ _ (fuel + 1) ends (by simp only [partFuel]; omega)
  refine ⟨lex, by simpa using first, isString, ?_⟩
  have follows : lexNext true ⟨.comma, [byte ','], [], more ++ rest⟩ = .ok second :=
    lexNext_eq found
  change reportObjectFields true (fuel + 1) second = _ at readMore
  change reportObjectFields true (fuel + 1 + 1) lex = _
  rw [reportObjectFields, read]
  simp only [bind, Except.bind, if_true, follows, readMore, pure, Except.pure]

theorem parses_element {value : Bytes} {events : List ParseEvent}
    (inner : Parses .value value events) :
    Parses .elements value (elementEvents (isNullValue events) events) := by
  intro rest next fuel ends enough
  obtain ⟨lexed, delimited, noMark, noComma⟩ := ends
  simp only [partFuel] at enough
  obtain ⟨fuel, rfl⟩ := Nat.exists_eq_add_of_le' (show 1 ≤ fuel by omega)
  obtain ⟨lex, first, ⟨begins, isNull⟩, read⟩ := @inner _ _ fuel
    ⟨lexed, delimited, noMark, trivial⟩ (by simp only [partFuel]; omega)
  refine ⟨lex, first, begins, ?_⟩
  change reportValue true fuel lex = _ at read
  change reportArrayElements true (fuel + 1) lex = _
  rw [reportArrayElements, read, ← isNull]
  exact if_neg noComma

theorem parses_elements {value white more : Bytes} {events others : List ParseEvent}
    (inner : Parses .value value events) (isWhite : White white)
    (later : Parses .elements more others) :
    Parses .elements (value ++ (white ++ byte ',' :: more))
      (elementEvents (isNullValue events) events ++ others) := by
  intro rest next fuel ends enough
  simp only [partFuel, List.length_append, List.length_cons] at enough
  obtain ⟨fuel, rfl⟩ := Nat.exists_eq_add_of_le' (show 1 ≤ fuel by omega)
  have comma : agtypeLex true (white ++ byte ',' :: (more ++ rest)) =
      .ok ⟨.comma, [byte ','], [], more ++ rest⟩ := by
    rw [agtypeLex_white isWhite, agtypeLex_comma]
  obtain ⟨lex, first, ⟨begins, isNull⟩, read⟩ := @inner _ _ fuel
    ⟨comma, delimited_white isWhite (delimited_cons (by decide)), nofun, trivial⟩
    (by simp only [partFuel]; omega)
  obtain ⟨second, found, -, readMore⟩ := @later _ _ fuel ends (by simp only [partFuel]; omega)
  refine ⟨lex, by simpa using first, begins, ?_⟩
  have follows : lexNext true ⟨.comma, [byte ','], [], more ++ rest⟩ = .ok second :=
    lexNext_eq found
  change reportArrayElements true fuel second = _ at readMore
  change reportValue true fuel lex = _ at read
  change reportArrayElements true (fuel + 1) lex = _
  rw [reportArrayElements, read, ← isNull]
  simp only [bind, Except.bind, if_true, follows, readMore, pure, Except.pure]

/-- Every text of the grammar is read. -/
theorem parses_of_derives {part : Part} {text : Bytes} {events : List ParseEvent}
    (derives : Derives False part text events) : Parses part text events := by
  induction derives with
  | scalar isWhite isLexeme isScalar isTypecast =>
      exact parses_scalar isWhite isLexeme isScalar isTypecast
  | emptyObject isWhite isWhite' isTypecast => exact parses_emptyObject isWhite isWhite' isTypecast
  | object isWhite _ isWhite' isTypecast inner =>
      exact parses_object isWhite inner isWhite' isTypecast
  | emptyArray isWhite isWhite' isTypecast => exact parses_emptyArray isWhite isWhite' isTypecast
  | array isWhite _ isWhite' isTypecast inner =>
      exact parses_array isWhite inner isWhite' isTypecast
  | field isWhite isKey isWhite' _ inner => exact parses_field isWhite isKey isWhite' inner
  | fields isWhite isKey isWhite' _ isWhite'' _ inner later =>
      exact parses_fields isWhite isKey isWhite' inner isWhite'' later
  | element _ inner => exact parses_element inner
  | elements _ isWhite _ inner later => exact parses_elements inner isWhite later

end Completeness

theorem not_lexeme_endOfInput {nul : Prop} {text value : Bytes} :
    ¬Lexeme nul .endOfInput text value := by
  intro isLexeme
  generalize isToken : AgtypeTokenType.endOfInput = other at isLexeme
  cases isLexeme with
  | number isNumber | negative isNumber =>
      rcases unsignedNumber_type isNumber with rfl | rfl <;> cases isToken
  | _ => cases isToken

theorem agtypeText_of_report {input : Bytes} {events : List ParseEvent} {fuel : Nat}
    (reported : reportAgtype true fuel input = .ok events) : AgtypeText False input events := by
  rw [reportAgtype] at reported
  obtain ⟨lex, lexed, reported⟩ := bind_ok reported
  obtain ⟨⟨last, inside⟩, read, reported⟩ := bind_ok reported
  obtain ⟨ended, closed, reported⟩ := bind_ok reported
  cases reported
  have found : agtypeLex true input = .ok lex := by
    cases isLex : agtypeLex true input with
    | error error =>
        rw [isLex] at lexed
        cases lexed
    | ok other =>
        rw [isLex] at lexed
        cases lexed
        rfl
  obtain ⟨⟨text, rest, rfl, ends, derives⟩, -⟩ := (reads_of_report fuel found).1 read
  obtain ⟨isEnd, -⟩ := lexExpect_ok closed
  obtain ⟨white, token, rfl, isWhite, ⟨-, rfl, atEnd⟩ | isLexeme⟩ := lexeme_of_agtypeLex ends
  · refine ⟨text, white, ?_, isWhite, derives⟩
    rw [atEnd]
    simp
  · rw [isEnd] at isLexeme
    exact absurd isLexeme not_lexeme_endOfInput

theorem report_of_agtypeText {input : Bytes} {events : List ParseEvent} {fuel : Nat}
    (isText : AgtypeText False input events) (enough : 3 * input.length ≤ fuel) :
    reportAgtype true fuel input = .ok events := by
  obtain ⟨text, white, rfl, isWhite, derives⟩ := isText
  have atEnd : agtypeLex true white = .ok ⟨.endOfInput, [], [], []⟩ := by
    have := agtypeLex_white isWhite []
    rwa [List.append_nil] at this
  have delimited : Delimited white := by
    have := delimited_white isWhite (s := []) (fun c here => nomatch here)
    rwa [List.append_nil] at this
  rw [List.length_append] at enough
  obtain ⟨lex, found, -, read⟩ := @parses_of_derives _ _ _ derives _ _ fuel
    ⟨atEnd, delimited, nofun, trivial⟩ (by simp only [partFuel]; omega)
  change reportValue true fuel lex = _ at read
  rw [reportAgtype, found]
  change (reportValue true fuel lex >>= _) = _
  rw [read]
  rfl

/-- The parser accepts the texts of the grammar and no others, and calls back as they derive. -/
theorem reportAgtype_ok_iff (input : Bytes) (events : List ParseEvent) {fuel : Nat}
    (enough : 3 * input.length ≤ fuel) :
    reportAgtype true fuel input = .ok events ↔ AgtypeText False input events :=
  ⟨agtypeText_of_report, fun isText => report_of_agtypeText isText enough⟩

/-- `[1, {"a" : null}::e]` is a text, with these calls. -/
theorem agtypeText_element_field :
    AgtypeText False (ascii "[1, \x7b\"a\" : null\x7d::e]".toList)
      ([.arrayStart] ++ elementEvents false [.scalar (ascii ['1']) .integer none] ++
        elementEvents false ([.objectStart] ++
          fieldEvents (ascii ['a']) true [.scalar (ascii ['n', 'u', 'l', 'l']) .null none] ++
          [.objectEnd, .agtypeAnnotationAction (ascii ['e'])]) ++ [.arrayEnd]) :=
  (@reportAgtype_ok_iff _ _ 66 (by decide)).mp (by decide +kernel)

/-- A JSON escape of the character zero is no agtype text. -/
theorem not_reportAgtype_ok_iff_nul :
    ¬∀ (input : Bytes) (events : List ParseEvent) (fuel : Nat), 3 * input.length ≤ fuel →
      (reportAgtype true fuel input = .ok events ↔ AgtypeText True input events) := by
  intro always
  have isQuad : HexQuad (ascii ['0', '0', '0', '0']) 0 :=
    @HexQuad.digits 48 48 48 48 0 0 0 0 rfl rfl rfl rfl
  have isBody : StringBody True (backslash :: byte 'u' :: ascii ['0', '0', '0', '0'] ++ [])
      (unicodeToUtf8 0 ++ []) :=
    .unicode isQuad (by simp [isSurrogate]) (.inr trivial) .nil
  have isText : AgtypeText True (quote :: backslash :: ascii ['u', '0', '0', '0', '0', '"'])
      [.scalar (unicodeToUtf8 0 ++ []) .string none] :=
    ⟨_, [], (List.append_nil _).symm, nofun,
      @Derives.scalar True [] _ _ _ _ _ nofun (.string isBody) rfl .none⟩
  have accepted := (always _ _ 24 (by decide)).mpr isText
  revert accepted
  decide +kernel

end Age.Agtype
