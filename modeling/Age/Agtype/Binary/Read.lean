import Age.Agtype.Binary.Layout
import Age.Agtype.Builder

/-!
# Reading containers

The iterator over a serialized container, and the deserialization of the nodes
it meets.  An entity is itself a container, which is iterated and pushed into a
value, so reading a node and iterating call each other; `fuel` bounds how deep
and how long.
-/

namespace Age.Agtype

open Lib

inductive ReadError where
  | invalidAgtHeader (header : Nat)
  | unknownContainer (header : Nat)
  | unexpectedObjectKey
  | notAnArray
  | push (error : PushError)
  /-- memory is read as something that was not written there -/
  | unsetRead
  | outOfFuel
  deriving DecidableEq, Repr

/-- What `fill_agtype_value` makes of a node: a scalar, or an `AGTV_BINARY` that
points to a nested container. -/
inductive Filled where
  | scalar (val : AgtypeValue)
  | binary (data : Bytes) (len : Nat)

/-- An iterator token with what `*val` is set to. -/
inductive ByteToken where
  | key (val : Bytes)
  | value (val : Filled)
  | elem (val : Filled)
  | beginArray (rawScalar : Bool) (numElems : Nat)
  | endArray
  | beginObject (numPairs : Nat)
  | endObject

/-- A token of a tree, as the iterator returns it. -/
def Token.toByte : Token → ByteToken
  | .key val => .key val
  | .value val => .value (.scalar val)
  | .elem val => .elem (.scalar val)
  | .beginArray rawScalar numElems => .beginArray rawScalar numElems
  | .endArray => .endArray
  | .beginObject numPairs => .beginObject numPairs
  | .endObject => .endObject

inductive AgtIteratorState where
  | arrayStart | arrayElem | objectStart | objectKey | objectValue
  deriving DecidableEq, Repr

/-- An `agtype_iterator` without its `parent`. -/
structure IteratorLevel where
  container : Bytes
  numElems : Nat
  isScalar : Bool
  dataProper : Bytes
  currIndex : Nat
  currDataOffset : Nat
  currValueOffset : Nat
  state : AgtIteratorState

/-- The current iterator and its ancestors. -/
abbrev AgtypeIterator := List IteratorLevel

def iteratorFromContainer (container : Bytes) : Except ReadError IteratorLevel :=
  let numElems := agtypeContainerSize container
  if agtypeContainerIsArray container && !agtypeContainerIsObject container then
    .ok {
      container, numElems
      isScalar := agtypeContainerIsScalar container
      dataProper := dataProper container numElems
      currIndex := 0, currDataOffset := 0, currValueOffset := 0
      state := .arrayStart }
  else if agtypeContainerIsObject container && !agtypeContainerIsArray container then
    .ok {
      container, numElems
      isScalar := false
      dataProper := dataProper container (2 * numElems)
      currIndex := 0, currDataOffset := 0, currValueOffset := 0
      state := .objectStart }
  else .error (.unknownContainer (containerHeader container))

/-- `fill_agtype_value`: container, index, data region and offset. -/
abbrev Fill := Bytes → Nat → Bytes → Nat → Except ReadError Filled

/-- An iterator that stands at the start of its container. -/
def iteratorStart (it : IteratorLevel) (parents : AgtypeIterator) :
    Option ByteToken × AgtypeIterator :=
  if it.state = .objectStart then
    (some (.beginObject it.numElems),
      { it with
        currIndex := 0, currDataOffset := 0
        currValueOffset := getAgtypeOffset it.container it.numElems
        state := .objectKey } :: parents)
  else
    (some (.beginArray it.isScalar it.numElems),
      { it with
        currIndex := 0, currDataOffset := 0, currValueOffset := 0
        state := .arrayElem } :: parents)

/-- Return a node, or step into it. -/
def iteratorNode (skipNested : Bool) (leaf : Filled → ByteToken) (val : Filled)
    (it : AgtypeIterator) : Except ReadError (Option ByteToken × AgtypeIterator) :=
  match skipNested, val with
  | false, .binary data _ => do
      let child ← iteratorFromContainer data
      return iteratorStart child it
  | _, val => .ok (some (leaf val), it)

/-- `agtype_iterator_next`; no token is `WAGT_DONE`. -/
def agtypeIteratorNext (fill : Fill) (skipNested : Bool) :
    AgtypeIterator → Except ReadError (Option ByteToken × AgtypeIterator)
  | [] => .ok (none, [])
  | it :: parents =>
      match it.state with
      | .arrayStart => .ok (iteratorStart it parents)
      | .objectStart => .ok (iteratorStart it parents)
      | .arrayElem =>
          if it.numElems ≤ it.currIndex then .ok (some .endArray, parents)
          else do
            let val ← fill it.container it.currIndex it.dataProper it.currDataOffset
            let next := { it with
              currDataOffset := agteAdvanceOffset it.currDataOffset
                (containerChild it.container it.currIndex)
              currIndex := it.currIndex + 1 }
            iteratorNode skipNested .elem val (next :: parents)
      | .objectKey =>
          if it.numElems ≤ it.currIndex then .ok (some .endObject, parents)
          else do
            let val ← fill it.container it.currIndex it.dataProper it.currDataOffset
            match val with
            | .scalar (.string key) =>
                return (some (.key key), { it with state := .objectValue } :: parents)
            | _ => .error .unexpectedObjectKey
      | .objectValue => do
          let val ← fill it.container (it.currIndex + it.numElems) it.dataProper
            it.currValueOffset
          let next := { it with
            currDataOffset := agteAdvanceOffset it.currDataOffset
              (containerChild it.container it.currIndex)
            currValueOffset := agteAdvanceOffset it.currValueOffset
              (containerChild it.container (it.currIndex + it.numElems))
            currIndex := it.currIndex + 1
            state := .objectKey }
          iteratorNode skipNested .value val (next :: parents)

/-- Call `agtype_iterator_next` until it returns `WAGT_DONE`. -/
def iterate (fill : Fill) (skipNested : Bool) :
    (steps : Nat) → AgtypeIterator → Except ReadError (List ByteToken)
  | 0, _ => .error .outOfFuel
  | steps + 1, it => do
      let (token, next) ← agtypeIteratorNext fill skipNested it
      match token with
      | none => return []
      | some token => return token :: (← iterate fill skipNested steps next)

/-- The value of a token goes to `push_agtype_value_scalar` for a key, a value or
an element only. -/
def pushByteToken (state : PushState) (token : ByteToken) : Except ReadError PushState :=
  let push (token : Token) : Except ReadError PushState :=
    (pushAgtypeValueScalar state token).mapError .push
  match token with
  | .key val => push (.key val)
  | .value (.scalar val) => push (.value val)
  | .elem (.scalar val) => push (.elem val)
  | .beginArray _ numElems => push (.beginArray false numElems)
  | .endArray => push .endArray
  | .beginObject numPairs => push (.beginObject numPairs)
  | .endObject => push .endObject
  | .value (.binary _ _) => .error .unsetRead
  | .elem (.binary _ _) => .error .unsetRead

/-- `push_agtype_value`: a nested container is unpacked and pushed piece by
piece. -/
def pushAgtypeValue (fill : Fill) (steps : Nat) (state : PushState) (token : ByteToken) :
    Except ReadError PushState :=
  let unpack (data : Bytes) : Except ReadError PushState := do
    let it ← iteratorFromContainer data
    (← iterate fill false steps [it]).foldlM pushByteToken state
  match token with
  | .elem (.binary data _) => unpack data
  | .value (.binary data _) => unpack data
  | token => pushByteToken state token

/-- The union of the pushed container under the type of an entity. -/
def entityOf (type : AgtypeValueType) (parsed : Option AgtypeValue) :
    Except ReadError AgtypeValue :=
  match type, parsed with
  | .vertex, some (.object pairs) => .ok (.vertex pairs)
  | .edge, some (.object pairs) => .ok (.edge pairs)
  | .path, some (.array _ elems) => .ok (.path elems)
  | _, _ => .error .unsetRead

/-- `ag_deserialize_composite`: the pushed container with the type of the
entity. -/
def agDeserializeComposite (fill : Fill) (steps : Nat) (base : Bytes)
    (type : AgtypeValueType) : Except ReadError AgtypeValue := do
  let it ← iteratorFromContainer (base.drop 4)
  let tokens ← iterate fill true steps [it]
  let (parsed, _) ← tokens.foldlM (pushAgtypeValue fill steps) (none, [])
  entityOf type parsed

/-- A `Numeric` that starts here, copied by its own size. -/
def readNumeric (data : Bytes) : Except ReadError AgtypeValue :=
  let image := data.take (varsize4b data)
  if valid : 4 ≤ image.length ∧ varsize4b image = image.length then
    .ok (.numeric ⟨image, valid.1, valid.2⟩)
  else .error .unsetRead

/-- `ag_deserialize_extended_type` -/
def agDeserializeExtendedType
    (composite : Bytes → AgtypeValueType → Except ReadError AgtypeValue)
    (baseAddr : Bytes) (offset : Nat) : Except ReadError AgtypeValue :=
  let base := baseAddr.drop (intAlign offset)
  let agtHeader := readLE 4 base 0
  if agtHeader = agtHeaderInteger then
    .ok (.integer (UInt64.ofNat (readLE 8 base 4)).toInt64)
  else if agtHeader = agtHeaderFloat then
    .ok (.float ⟨UInt64.ofNat (readLE 8 base 4)⟩)
  else if agtHeader = agtHeaderVertex then composite base .vertex
  else if agtHeader = agtHeaderEdge then composite base .edge
  else if agtHeader = agtHeaderPath then composite base .path
  else .error (.invalidAgtHeader agtHeader)

/-- `fill_agtype_value` over a given deserialization of composites. -/
def fillWith (composite : Bytes → AgtypeValueType → Except ReadError AgtypeValue) : Fill :=
  fun container index baseAddr offset =>
    let kind := agteType (containerChild container index)
    if kind = agtentryIsNull then .ok (.scalar .null)
    else if kind = agtentryIsString then
      .ok (.scalar (.string
        ((baseAddr.drop offset).take (getAgtypeLength container index))))
    else if kind = agtentryIsNumeric then do
      return .scalar (← readNumeric (baseAddr.drop (intAlign offset)))
    else if kind = agtentryIsAgtype then do
      return .scalar (← agDeserializeExtendedType composite baseAddr offset)
    else if kind = agtentryIsBoolTrue then .ok (.scalar (.bool true))
    else if kind = agtentryIsBoolFalse then .ok (.scalar (.bool false))
    else
      .ok (.binary (baseAddr.drop (intAlign offset))
        (getAgtypeLength container index - (intAlign offset - offset)))

def fillAgtypeValue : (fuel : Nat) → Fill
  | 0 => fillWith fun _ _ => .error .outOfFuel
  | fuel + 1 => fillWith (agDeserializeComposite (fillAgtypeValue fuel) fuel)

/-- All tokens of a root container. -/
def agtypeTokens (fuel : Nat) (container : Bytes) : Except ReadError (List ByteToken) := do
  let it ← iteratorFromContainer container
  iterate (fillAgtypeValue fuel) false fuel [it]

/-- `get_ith_agtype_value_from_container`: random access through
`get_agtype_offset`. -/
def getIthAgtypeValue (fuel : Nat) (container : Bytes) (i : Nat) :
    Except ReadError (Option Filled) :=
  if !agtypeContainerIsArray container then .error .notAnArray
  else
    let nelements := agtypeContainerSize container
    if nelements ≤ i then .ok none
    else do
      return some (← fillAgtypeValue fuel container i (dataProper container nelements)
        (getAgtypeOffset container i))

/-- The `i`-th key and value of an object, by random access. -/
def getIthAgtypePair (fuel : Nat) (container : Bytes) (i : Nat) :
    Except ReadError (Bytes × Filled) := do
  let count := agtypeContainerSize container
  let base := dataProper container (2 * count)
  let key := (base.drop (getAgtypeOffset container i)).take (getAgtypeLength container i)
  let value ← fillAgtypeValue fuel container (i + count) base
    (getAgtypeOffset container (i + count))
  return (key, value)

end Age.Agtype
