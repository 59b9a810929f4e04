import Age.Agtype.Value

/-!
# Iterator tokens

The stream of tokens `agtype_iterator_next` hands out for a container when it
is told to step into nested containers.  The end of the list is `WAGT_DONE`.
-/

namespace Age.Agtype

open Lib

/-- An `agtype_iterator_token` together with what `*val` is set to.  The
iterator leaves `*val` alone at the two end tokens. -/
inductive Token where
  | key (val : Bytes)
  | value (val : AgtypeValue)
  | elem (val : AgtypeValue)
  | beginArray (rawScalar : Bool) (numElems : Nat)
  | endArray
  | beginObject (numPairs : Nat)
  | endObject

namespace Token

/-- The `type` of the `agtype_value` that comes with a token. -/
def valType? : Token → Option AgtypeValueType
  | key _ => some .string
  | value val => some val.type
  | elem val => some val.type
  | beginArray _ _ => some .array
  | endArray => none
  | beginObject _ => some .object
  | endObject => none

def isEnd : Token → Bool
  | endArray => true
  | endObject => true
  | _ => false

end Token

namespace AgtypeValue

mutual

/-- Tokens of one node: `leaf` is the token that carries a scalar here, which
is `Token.elem` inside an array and `Token.value` inside an object. -/
def nodeTokens (leaf : AgtypeValue → Token) : AgtypeValue → List Token
  | array rawScalar elems =>
      .beginArray rawScalar elems.length :: (elemTokens elems ++ [.endArray])
  | object pairs =>
      .beginObject pairs.length :: (pairTokens pairs ++ [.endObject])
  | null => [leaf null]
  | string val => [leaf (string val)]
  | numeric val => [leaf (numeric val)]
  | integer val => [leaf (integer val)]
  | float val => [leaf (float val)]
  | bool val => [leaf (bool val)]
  | vertex pairs => [leaf (vertex pairs)]
  | edge pairs => [leaf (edge pairs)]
  | path elems => [leaf (path elems)]

def elemTokens : List AgtypeValue → List Token
  | [] => []
  | elem :: rest => nodeTokens .elem elem ++ elemTokens rest

def pairTokens : List (Bytes × AgtypeValue) → List Token
  | [] => []
  | (key, value) :: rest =>
      .key key :: (nodeTokens .value value ++ pairTokens rest)

end

/-- The token stream of a root container. -/
def tokens (container : AgtypeValue) : List Token :=
  nodeTokens .elem container

theorem nodeTokens_scalar (leaf : AgtypeValue → Token) {v : AgtypeValue}
    (scalar : v.isScalar = true) : nodeTokens leaf v = [leaf v] := by
  cases v <;> first | rfl | cases scalar

theorem nodeTokens_container (leaf : AgtypeValue → Token) {v : AgtypeValue}
    (container : v.isScalar = false) : nodeTokens leaf v = v.tokens := by
  cases v <;> first | rfl | cases container

end AgtypeValue

end Age.Agtype
