import Age.Agtype.Binary.Write
import Age.Agtype.Builder
import Age.Agtype.Text.Lex

/-!
# The parser and `agtype_in`

A recursive descent parser with semantic actions, and the actions of
`agtype_in`, which push tokens and apply type annotations.  A typecast changes
the type of a container after it was closed, both in the result and in the copy
that its parent holds.
-/

namespace Age.Agtype

open Lib

/-- What the parser expects, for the message of an error. -/
inductive AgtypeParseContext where
  | value | string | arrayStart | arrayNext | objectStart | objectLabel | objectNext | «end»
  deriving DecidableEq, Repr

inductive InError where
  | lex (error : LexError)
  /-- `report_parse_error` -/
  | parse (context : AgtypeParseContext) (found : AgtypeTokenType)
  /-- `invalid value for annotation` -/
  | annotationValue
  /-- `invalid annotation value for scalar` -/
  | scalarAnnotationValue
  /-- `invalid annotation value for object` -/
  | objectAnnotationValue
  /-- `unsupported type to annotate` -/
  | unsupportedType
  /-- `object is not a vertex` -/
  | notVertex
  /-- `object is not a edge` -/
  | notEdge
  /-- `array is not a valid path` -/
  | notPath
  /-- `string too long to represent as agtype string` -/
  | stringTooLong
  /-- the input conversion of the number refuses its text -/
  | invalidNumber
  /-- `invalid agtype token type` -/
  | invalidTokenType
  | push (error : PushError)
  | convert (error : ConvertError)
  | outOfFuel
  deriving DecidableEq, Repr

/-- `agtype_sem_action`; an action that is not set leaves the state as it is. -/
structure AgtypeSemAction (State : Type) where
  objectStart : State → Except InError State
  objectEnd : State → Except InError State
  arrayStart : State → Except InError State
  arrayEnd : State → Except InError State
  objectFieldStart : State → (fname : Bytes) → (isnull : Bool) → Except InError State
  objectFieldEnd : State → (fname : Bytes) → (isnull : Bool) → Except InError State
  arrayElementStart : State → (isnull : Bool) → Except InError State
  arrayElementEnd : State → (isnull : Bool) → Except InError State
  scalar : State → (token : Bytes) → AgtypeTokenType → (annotationName : Option Bytes) →
    Except InError State
  agtypeAnnotationAction : State → (annotationName : Bytes) → Except InError State

section Parser

variable {State : Type}

/-- The next token. -/
def lexNext (utf8 : Bool) (lex : AgtypeLexContext) : Except InError AgtypeLexContext :=
  (agtypeLex utf8 lex.rest).mapError .lex

/-- `lex_expect` -/
def lexExpect (utf8 : Bool) (context : AgtypeParseContext) (lex : AgtypeLexContext)
    (token : AgtypeTokenType) : Except InError AgtypeLexContext :=
  if lex.tokenType = token then lexNext utf8 lex else .error (.parse context lex.tokenType)

/-- The lexeme that `lex_accept` hands back. -/
def lexeme (lex : AgtypeLexContext) : Bytes :=
  if lex.tokenType = .string then lex.strval else lex.token

/-- An annotation if one comes next, for a scalar or a container. -/
def lexAnnotationName (utf8 : Bool) (lex : AgtypeLexContext) :
    Except InError (AgtypeLexContext × Option Bytes) :=
  if lex.tokenType = .annotationMark then do
    let lex ← lexNext utf8 lex
    if lex.tokenType = .identifier then
      return (← lexNext utf8 lex, some (lexeme lex))
    else .error .annotationValue
  else .ok (lex, none)

/-- `parse_annotation` -/
def parseAnnotation (utf8 : Bool) (sem : AgtypeSemAction State) (lex : AgtypeLexContext)
    (state : State) : Except InError (AgtypeLexContext × State) := do
  let (lex, annotationName) ← lexAnnotationName utf8 lex
  match annotationName with
  | some annotationName => return (lex, ← sem.agtypeAnnotationAction state annotationName)
  | none => return (lex, state)

def isScalarToken : AgtypeTokenType → Bool
  | .true | .false | .null | .integer | .float | .string => true
  | _ => false

def parseScalar (utf8 : Bool) (sem : AgtypeSemAction State) (lex : AgtypeLexContext)
    (state : State) : Except InError (AgtypeLexContext × State) :=
  if isScalarToken lex.tokenType then do
    let next ← lexNext utf8 lex
    let (next, annotationName) ← lexAnnotationName utf8 next
    return (next, ← sem.scalar state (lexeme lex) lex.tokenType annotationName)
  else .error (.parse .value lex.tokenType)

mutual

/-- The switch of `parse_array_element`, `parse_object_field` and `parse_agtype`. -/
def parseValue (utf8 : Bool) (sem : AgtypeSemAction State) :
    (fuel : Nat) → AgtypeLexContext → State → Except InError (AgtypeLexContext × State)
  | 0, _, _ => .error .outOfFuel
  | fuel + 1, lex, state =>
      match lex.tokenType with
      | .objectStart => parseObject utf8 sem fuel lex state
      | .arrayStart => parseArray utf8 sem fuel lex state
      | _ => parseScalar utf8 sem lex state

def parseObjectField (utf8 : Bool) (sem : AgtypeSemAction State) :
    (fuel : Nat) → AgtypeLexContext → State → Except InError (AgtypeLexContext × State)
  | 0, _, _ => .error .outOfFuel
  | fuel + 1, lex, state => do
      let fname := lexeme lex
      let lex ← lexExpect utf8 .string lex .string
      let lex ← lexExpect utf8 .objectLabel lex .colon
      let isnull := decide (lex.tokenType = .null)
      let state ← sem.objectFieldStart state fname isnull
      let (lex, state) ← parseValue utf8 sem fuel lex state
      return (lex, ← sem.objectFieldEnd state fname isnull)

/-- A field, and the fields after it that are separated by commas. -/
def parseObjectFields (utf8 : Bool) (sem : AgtypeSemAction State) :
    (fuel : Nat) → AgtypeLexContext → State → Except InError (AgtypeLexContext × State)
  | 0, _, _ => .error .outOfFuel
  | fuel + 1, lex, state => do
      let (lex, state) ← parseObjectField utf8 sem fuel lex state
      if lex.tokenType = .comma then
        parseObjectFields utf8 sem fuel (← lexNext utf8 lex) state
      else return (lex, state)

def parseObject (utf8 : Bool) (sem : AgtypeSemAction State) :
    (fuel : Nat) → AgtypeLexContext → State → Except InError (AgtypeLexContext × State)
  | 0, _, _ => .error .outOfFuel
  | fuel + 1, lex, state => do
      let state ← sem.objectStart state
      let lex ← lexExpect utf8 .objectStart lex .objectStart
      let (lex, state) ←
        match lex.tokenType with
        | .string => parseObjectFields utf8 sem fuel lex state
        | .objectEnd => .ok (lex, state)
        | other => .error (.parse .objectStart other)
      let lex ← lexExpect utf8 .objectNext lex .objectEnd
      let state ← sem.objectEnd state
      parseAnnotation utf8 sem lex state

/-- An element, and the elements after it that are separated by commas. -/
def parseArrayElements (utf8 : Bool) (sem : AgtypeSemAction State) :
    (fuel : Nat) → AgtypeLexContext → State → Except InError (AgtypeLexContext × State)
  | 0, _, _ => .error .outOfFuel
  | fuel + 1, lex, state => do
      let isnull := decide (lex.tokenType = .null)
      let state ← sem.arrayElementStart state isnull
      let (lex, state) ← parseValue utf8 sem fuel lex state
      let state ← sem.arrayElementEnd state isnull
      if lex.tokenType = .comma then
        parseArrayElements utf8 sem fuel (← lexNext utf8 lex) state
      else return (lex, state)

def parseArray (utf8 : Bool) (sem : AgtypeSemAction State) :
    (fuel : Nat) → AgtypeLexContext → State → Except InError (AgtypeLexContext × State)
  | 0, _, _ => .error .outOfFuel
  | fuel + 1, lex, state => do
      let state ← sem.arrayStart state
      let lex ← lexExpect utf8 .arrayStart lex .arrayStart
      let (lex, state) ←
        if lex.tokenType = .arrayEnd then .ok (lex, state)
        else parseArrayElements utf8 sem fuel lex state
      let lex ← lexExpect utf8 .arrayNext lex .arrayEnd
      let state ← sem.arrayEnd state
      parseAnnotation utf8 sem lex state

end

/-- `parse_agtype` -/
def parseAgtype (utf8 : Bool) (sem : AgtypeSemAction State) (fuel : Nat) (input : Bytes)
    (state : State) : Except InError State := do
  let lex ← (agtypeLex utf8 input).mapError .lex
  let (lex, state) ← parseValue utf8 sem fuel lex state
  let _ ← lexExpect utf8 .end lex .endOfInput
  return state

end Parser

section Typecasts

/-- The pair is the field `name` of an entity and has the type it should have. -/
def isField (field : List Char × AgtypeValueType) (pair : AgtypePair) : Bool :=
  pair.1.length = field.1.length && equalsIgnoreCase pair.1 (ascii field.1) &&
    pair.2.type = field.2

/-- `is_object_vertex` and `is_object_edge`: as many pairs as fields, no pair that
is not one of the fields, and every field. -/
def isObjectEntity (fields : List (List Char × AgtypeValueType)) (pairs : List AgtypePair) :
    Bool :=
  pairs.length = fields.length && pairs.all (fun pair => fields.any (isField · pair)) &&
    fields.all (fun field => pairs.any (isField field))

def vertexFields : List (List Char × AgtypeValueType) :=
  [(['i', 'd'], .integer), (['l', 'a', 'b', 'e', 'l'], .string),
    (['p', 'r', 'o', 'p', 'e', 'r', 't', 'i', 'e', 's'], .object)]

def edgeFields : List (List Char × AgtypeValueType) :=
  vertexFields ++ [(['s', 't', 'a', 'r', 't', '_', 'i', 'd'], .integer),
    (['e', 'n', 'd', '_', 'i', 'd'], .integer)]

def isObjectVertex (pairs : List AgtypePair) : Bool := isObjectEntity vertexFields pairs

def isObjectEdge (pairs : List AgtypePair) : Bool := isObjectEntity edgeFields pairs

/-- Vertices and edges in turn, with a vertex at both ends. -/
def isArrayPath : List AgtypeValue → Bool
  | [] => false
  | [last] => last.type = .vertex
  | vertex :: edge :: rest => vertex.type = .vertex && edge.type = .edge && isArrayPath rest

/-- Change the type of the result and of `last_updated_value`, the copy of it that
the parent holds. -/
def retype (result : AgtypeValue) : AgtypeParseState → PushState
  | [] => (some result, [])
  | .array rawScalar elems :: next =>
      (some result, .array rawScalar (elems.dropLast ++ [result]) :: next)
  | .object pairs key :: next =>
      (some result,
        .object (pairs.dropLast ++ (pairs.getLast?.map fun pair => (pair.1, result)).toList)
          key :: next)

def agtypeTypecastObject (state : PushState) (pairs : List AgtypePair) (annotationName : Bytes) :
    Except InError PushState :=
  if annotationName.length = 6 ∧
      equalsIgnoreCase annotationName (ascii ['v', 'e', 'r', 't', 'e', 'x']) then
    if isObjectVertex pairs then .ok (retype (.vertex pairs) state.2) else .error .notVertex
  else if annotationName.length = 4 ∧
      equalsIgnoreCase annotationName (ascii ['e', 'd', 'g', 'e']) then
    if isObjectEdge pairs then .ok (retype (.edge pairs) state.2) else .error .notEdge
  else .error .objectAnnotationValue

def agtypeTypecastArray (state : PushState) (elems : List AgtypeValue) (annotationName : Bytes) :
    Except InError PushState :=
  if annotationName.length = 4 ∧ equalsIgnoreCase annotationName (ascii ['p', 'a', 't', 'h']) then
    if isArrayPath elems then .ok (retype (.path elems) state.2) else .error .notPath
  else .error .objectAnnotationValue

def agtypeInAgtypeAnnotation (state : PushState) (annotationName : Bytes) :
    Except InError PushState :=
  match state.1 with
  | some (.object pairs) => agtypeTypecastObject state pairs annotationName
  | some (.array _ elems) => agtypeTypecastArray state elems annotationName
  | _ => .error .unsupportedType

end Typecasts

section Actions

def agtypeInPush (token : Token) (state : PushState) : Except InError PushState :=
  (pushAgtypeValueScalar state token).mapError .push

def checkStringLength (string : Bytes) : Except InError Bytes :=
  if agtentryOfflenmask < string.length then .error .stringTooLong else .ok string

/-- The type that a scalar annotation asks for; a null stays a null. -/
def annotatedType (tokentype : AgtypeTokenType) (annotationName : Option Bytes) :
    Except InError AgtypeTokenType :=
  match annotationName with
  | none => .ok tokentype
  | some annotationName =>
      if tokentype = .null then .ok tokentype
      else if annotationName.length = 7 ∧
          equalsIgnoreCase annotationName (ascii ['n', 'u', 'm', 'e', 'r', 'i', 'c']) then .ok .numeric
      else if annotationName.length = 7 ∧
          equalsIgnoreCase annotationName (ascii ['i', 'n', 't', 'e', 'g', 'e', 'r']) then .ok .integer
      else if annotationName.length = 5 ∧
          equalsIgnoreCase annotationName (ascii ['f', 'l', 'o', 'a', 't']) then .ok .float
      else .error .scalarAnnotationValue

def numberOr {α : Type} (make : α → AgtypeValue) (read : Option α) : Except InError AgtypeValue :=
  match read with
  | some value => .ok (make value)
  | none => .error .invalidNumber

/-- The value of a scalar token. -/
def scalarValue (ops : TextOps) (token : Bytes) : AgtypeTokenType → Except InError AgtypeValue
  | .string => do return .string (← checkStringLength token)
  | .integer => numberOr .integer (ops.strtoint64 token)
  | .float => numberOr .float (ops.float8In token)
  | .numeric => numberOr .numeric (ops.numericIn token)
  | .true => .ok (.bool true)
  | .false => .ok (.bool false)
  | .null => .ok .null
  | _ => .error .invalidTokenType

/-- Push a scalar: into the open container, or as a raw scalar of its own. -/
def pushScalar (v : AgtypeValue) (state : PushState) : Except InError PushState :=
  match state.2 with
  | [] =>
      agtypeInPush (.beginArray true 1) state >>= agtypeInPush (.elem v) >>=
        agtypeInPush .endArray
  | .array _ _ :: _ => agtypeInPush (.elem v) state
  | .object _ _ :: _ => agtypeInPush (.value v) state

/-- `agtype_in_scalar` -/
def agtypeInScalar (ops : TextOps) (state : PushState) (token : Bytes)
    (tokentype : AgtypeTokenType) (annotationName : Option Bytes) : Except InError PushState := do
  let v ← scalarValue ops token (← annotatedType tokentype annotationName)
  pushScalar v state

def agtypeInActions (ops : TextOps) : AgtypeSemAction PushState where
  objectStart := agtypeInPush (.beginObject 0)
  objectEnd := agtypeInPush .endObject
  arrayStart := agtypeInPush (.beginArray false 0)
  arrayEnd := agtypeInPush .endArray
  objectFieldStart state fname _ := do agtypeInPush (.key (← checkStringLength fname)) state
  objectFieldEnd state _ _ := .ok state
  arrayElementStart state _ := .ok state
  arrayElementEnd state _ := .ok state
  scalar := agtypeInScalar ops
  agtypeAnnotationAction := agtypeInAgtypeAnnotation

/-- `agtype_value_from_cstring` -/
def agtypeValueFromCstring (ops : TextOps) (utf8 : Bool) (fuel : Nat) (str : Bytes) :
    Except InError AgtypeValue := do
  let (res, _) ← parseAgtype utf8 (agtypeInActions ops) fuel str (none, [])
  match res with
  | some value => return value
  | none => .error .unsupportedType

/-- `agtype_in` -/
def agtypeIn (ops : TextOps) (utf8 : Bool) (fuel : Nat) (str : Bytes) : Except InError Bytes := do
  let value ← agtypeValueFromCstring ops utf8 fuel str
  (agtypeValueToAgtype value).mapError .convert

end Actions

end Age.Agtype
