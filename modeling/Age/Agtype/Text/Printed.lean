import Age.Agtype.Binary.RoundTrip
import Age.Agtype.Text.Tokens

/-!
# What is printed

The text of a tree, by recursion on the tree, and the loop over the tokens that
appends it.
-/

namespace Age.Agtype

open Lib AgtypeValue
open Filter (atTop Eventually)

attribute [grind =] agtypeToCstringLoop

section Values

/-- A string that the server accepts as text and that fits an entry. -/
def IsText (str : Bytes) : Prop := (∀ c ∈ str, c ≠ 0) ∧ str.length ≤ agtentryOfflenmask

instance (str : Bytes) : Decidable (IsText str) := inferInstanceAs (Decidable (_ ∧ _))

/-- The pairs of an object: keys that are text, in order. -/
structure TextPairs (pairs : List AgtypePair) : Prop where
  increasing : KeysIncrease pairs
  bounded : pairs.length ≤ agtypeMaxPairs
  keys : ∀ pair ∈ pairs, IsText pair.1

/-- The values of the type: what pushing can build, with text for strings,
numbers that their own text conversions round-trip, and entities that have the
fields of an entity. -/
inductive TextValue (ops : TextOps) : AgtypeValue → Prop where
  | null : TextValue ops .null
  | string {val : Bytes} : IsText val → TextValue ops (.string val)
  | numeric {val : Numeric} : NumberText (ops.numericOut val) →
      ops.numericIn (ops.numericOut val) = some val → TextValue ops (.numeric val)
  | integer (val : Int64) : TextValue ops (.integer val)
  | float {val : Float8} : NumberText (ops.float8Out val) →
      ops.float8In (ops.float8Out val) = some val → TextValue ops (.float val)
  | bool (val : Bool) : TextValue ops (.bool val)
  | vertex {pairs : List AgtypePair} : (∀ pair ∈ pairs, TextValue ops pair.2) →
      TextPairs pairs → isObjectVertex pairs = true → TextValue ops (.vertex pairs)
  | edge {pairs : List AgtypePair} : (∀ pair ∈ pairs, TextValue ops pair.2) →
      TextPairs pairs → isObjectEdge pairs = true → TextValue ops (.edge pairs)
  | path {elems : List AgtypeValue} : (∀ elem ∈ elems, TextValue ops elem) →
      elems.length ≤ agtypeMaxElems → isArrayPath elems = true → TextValue ops (.path elems)
  | array {elems : List AgtypeValue} : (∀ elem ∈ elems, TextValue ops elem) →
      elems.length ≤ agtypeMaxElems → TextValue ops (.array false elems)
  | object {pairs : List AgtypePair} : (∀ pair ∈ pairs, TextValue ops pair.2) →
      TextPairs pairs → TextValue ops (.object pairs)

theorem TextValue.built {ops : TextOps} {v : AgtypeValue} (value : TextValue ops v) :
    Built v := by
  induction value with
  | null => exact .null
  | string _ => exact .string _
  | numeric _ _ => exact .numeric _
  | integer val => exact .integer val
  | float _ _ => exact .float _
  | bool val => exact .bool val
  | vertex _ pairs _ children => exact .vertex children pairs.increasing pairs.bounded
  | edge _ pairs _ children => exact .edge children pairs.increasing pairs.bounded
  | path _ bounded _ children => exact .path children bounded
  | array _ bounded children => exact .array children bounded
  | object _ pairs children => exact .object children pairs.increasing pairs.bounded

end Values

section Texts

variable (ops : TextOps)

mutual

/-- The text of a node. -/
def nodeText : AgtypeValue → Bytes
  | .null => ascii ['n', 'u', 'l', 'l']
  | .string val => escapeAgtype val
  | .numeric val =>
      ops.numericOut val ++ ascii [':', ':', 'n', 'u', 'm', 'e', 'r', 'i', 'c']
  | .integer val => pgLltoa val
  | .float val => float8Text ops val
  | .bool val => if val then ascii ['t', 'r', 'u', 'e'] else ascii ['f', 'a', 'l', 's', 'e']
  | .vertex pairs =>
      byte '{' :: (pairsText true pairs ++
        byte '}' :: ascii [':', ':', 'v', 'e', 'r', 't', 'e', 'x'])
  | .edge pairs =>
      byte '{' :: (pairsText true pairs ++ byte '}' :: ascii [':', ':', 'e', 'd', 'g', 'e'])
  | .path elems =>
      byte '[' :: (elemsText true elems ++ byte ']' :: ascii [':', ':', 'p', 'a', 't', 'h'])
  | .array _ elems => byte '[' :: (elemsText true elems ++ [byte ']'])
  | .object pairs => byte '{' :: (pairsText true pairs ++ [byte '}'])

/-- The texts of elements, with commas between them. -/
def elemsText : (first : Bool) → List AgtypeValue → Bytes
  | _, [] => []
  | first, elem :: rest => separator false first ++ (nodeText elem ++ elemsText false rest)

/-- The texts of keys and values. -/
def pairsText : (first : Bool) → List (Bytes × AgtypeValue) → Bytes
  | _, [] => []
  | first, (key, value) :: rest =>
      separator false first ++ (escapeAgtype key ++ (ascii [':', ' '] ++
        (nodeText value ++ pairsText false rest)))

end

end Texts

section Loop

variable {ops : TextOps}

/-- `agtype_put_escaped_value` with type annotations. -/
def putEscaped (ops : TextOps) (fuel : Nat) : AgtypeValue → Except PrintError Bytes :=
  agtypePutEscapedValue ops true fun container =>
    agtypeToCstringWorker ops true fuel false (container.tokens.map Token.toByte)

/-- The state of the loop without indentation. -/
def printing (out : Bytes) (first : Bool) (level : Nat) (lastWasKey : Bool) : PrintState where
  out := out
  first := first
  level := level
  useIndent := false
  rawScalar := false
  lastWasKey := lastWasKey

/-- Printing a scalar gives its text; running the loop over the tokens of a
container appends its text. -/
def Prints (ops : TextOps) (v : AgtypeValue) : Prop :=
  (v.isScalar = true → ∀ᶠ fuel in atTop, putEscaped ops fuel v = .ok (nodeText ops v)) ∧
  (v.isScalar = false → ∀ᶠ fuel in atTop, ∀ out first level lastWasKey rest,
    agtypeToCstringLoop (putEscaped ops fuel) false (printing out first level lastWasKey)
        (v.tokens.map Token.toByte ++ rest) =
      agtypeToCstringLoop (putEscaped ops fuel) false
        (printing (out ++ separator false first ++ nodeText ops v) false level false) rest)

/-- A node of an array. -/
theorem loop_elem {v : AgtypeValue} (prints : Prints ops v) :
    ∀ᶠ fuel in atTop, ∀ out first level rest,
      agtypeToCstringLoop (putEscaped ops fuel) false (printing out first level false)
          ((nodeTokens .elem v).map Token.toByte ++ rest) =
        agtypeToCstringLoop (putEscaped ops fuel) false
          (printing (out ++ separator false first ++ nodeText ops v) false level false) rest := by
  cases nested : v.isScalar with
  | true =>
      filter_upwards [prints.1 nested] with fuel text
      intro out first level rest
      rw [nodeTokens_scalar _ nested]
      simp only [List.map_cons, List.map_nil, Token.toByte, List.cons_append, List.nil_append,
        agtypeToCstringLoop, putFilled, text]
      simp [bind, Except.bind, printing, addIndent]
  | false =>
      filter_upwards [prints.2 nested] with fuel text
      intro out first level rest
      rw [nodeTokens_container _ nested]
      exact text out first level false rest

theorem loop_elems {elems : List AgtypeValue} (prints : ∀ elem ∈ elems, Prints ops elem) :
    ∀ᶠ fuel in atTop, ∀ out first level rest,
      agtypeToCstringLoop (putEscaped ops fuel) false (printing out first level false)
          ((elemTokens elems).map Token.toByte ++ rest) =
        agtypeToCstringLoop (putEscaped ops fuel) false
          (printing (out ++ elemsText ops first elems) (first && elems.isEmpty) level false)
          rest := by
  induction elems with
  | nil =>
      refine Eventually.of_forall fun fuel out first level rest => ?_
      simp [elemTokens, elemsText]
  | cons elem others inductionHypothesis =>
      filter_upwards [loop_elem (prints elem (by simp)),
        inductionHypothesis fun e inside => prints e (by simp [inside])] with fuel one more
      intro out first level rest
      rw [elemTokens, List.map_append, List.append_assoc, one, more, elemsText]
      simp

/-- A key and its value. -/
theorem loop_pair {key : Bytes} {v : AgtypeValue} (prints : Prints ops v) :
    ∀ᶠ fuel in atTop, ∀ out first level rest,
      agtypeToCstringLoop (putEscaped ops fuel) false (printing out first level false)
          (.key key :: ((nodeTokens .value v).map Token.toByte ++ rest)) =
        agtypeToCstringLoop (putEscaped ops fuel) false
          (printing (out ++ separator false first ++ escapeAgtype key ++ ascii [':', ' '] ++
            nodeText ops v) false level false) rest := by
  cases nested : v.isScalar with
  | true =>
      filter_upwards [prints.1 nested] with fuel text
      intro out first level rest
      rw [nodeTokens_scalar _ nested]
      simp only [List.map_cons, List.map_nil, Token.toByte, List.cons_append, List.nil_append,
        agtypeToCstringLoop, putFilled, text]
      simp [bind, Except.bind, printing, addIndent]
  | false =>
      filter_upwards [prints.2 nested] with fuel text
      intro out first level rest
      rw [nodeTokens_container _ nested]
      -- the switch is run again on the token that opens the container
      have again : agtypeToCstringLoop (putEscaped ops fuel) false
          (printing out first level false) (.key key :: (v.tokens.map Token.toByte ++ rest)) =
          agtypeToCstringLoop (putEscaped ops fuel) false
            (printing (out ++ separator false first ++ escapeAgtype key ++ ascii [':', ' '])
              true level true) (v.tokens.map Token.toByte ++ rest) := by
        cases v <;> cases nested <;>
          simp [tokens, nodeTokens, Token.toByte, agtypeToCstringLoop, printing, addIndent]
      rw [again, text]
      simp [separator]

theorem loop_pairs {pairs : List AgtypePair} (prints : ∀ pair ∈ pairs, Prints ops pair.2) :
    ∀ᶠ fuel in atTop, ∀ out first level rest,
      agtypeToCstringLoop (putEscaped ops fuel) false (printing out first level false)
          ((pairTokens pairs).map Token.toByte ++ rest) =
        agtypeToCstringLoop (putEscaped ops fuel) false
          (printing (out ++ pairsText ops first pairs) (first && pairs.isEmpty) level false)
          rest := by
  induction pairs with
  | nil =>
      refine Eventually.of_forall fun fuel out first level rest => ?_
      simp [pairTokens, pairsText]
  | cons pair others inductionHypothesis =>
      obtain ⟨key, value⟩ := pair
      filter_upwards [loop_pair (prints (key, value) (by simp)),
        inductionHypothesis fun p inside => prints p (by simp [inside])] with fuel one more
      intro out first level rest
      rw [pairTokens, List.map_cons, List.map_append, List.cons_append, List.append_assoc]
      rw [show Token.toByte (.key key) = ByteToken.key key from rfl, one, more, pairsText]
      simp

theorem loop_beginArray (put : AgtypeValue → Except PrintError Bytes) (out : Bytes)
    (first : Bool) (level : Nat) (lastWasKey : Bool) (numElems : Nat) (rest : List ByteToken) :
    agtypeToCstringLoop put false (printing out first level lastWasKey)
        (.beginArray false numElems :: rest) =
      agtypeToCstringLoop put false
        (printing (out ++ separator false first ++ [byte '[']) true (level + 1) false) rest := by
  simp [agtypeToCstringLoop, printing, addIndent]

theorem loop_beginObject (put : AgtypeValue → Except PrintError Bytes) (out : Bytes)
    (first : Bool) (level : Nat) (lastWasKey : Bool) (numPairs : Nat) (rest : List ByteToken) :
    agtypeToCstringLoop put false (printing out first level lastWasKey)
        (.beginObject numPairs :: rest) =
      agtypeToCstringLoop put false
        (printing (out ++ separator false first ++ [byte '{']) true (level + 1) false) rest := by
  simp [agtypeToCstringLoop, printing, addIndent]

theorem loop_endArray (put : AgtypeValue → Except PrintError Bytes) (out : Bytes)
    (first : Bool) (level : Nat) (lastWasKey : Bool) (rest : List ByteToken) :
    agtypeToCstringLoop put false (printing out first (level + 1) lastWasKey)
        (.endArray :: rest) =
      agtypeToCstringLoop put false (printing (out ++ [byte ']']) false level false) rest := by
  simp [agtypeToCstringLoop, printing, addIndent]

theorem loop_endObject (put : AgtypeValue → Except PrintError Bytes) (out : Bytes)
    (first : Bool) (level : Nat) (lastWasKey : Bool) (rest : List ByteToken) :
    agtypeToCstringLoop put false (printing out first (level + 1) lastWasKey)
        (.endObject :: rest) =
      agtypeToCstringLoop put false (printing (out ++ [byte '}']) false level false) rest := by
  simp [agtypeToCstringLoop, printing, addIndent]

theorem prints_array {elems : List AgtypeValue} (children : ∀ elem ∈ elems, Prints ops elem) :
    Prints ops (.array false elems) := by
  refine ⟨nofun, fun _ => ?_⟩
  filter_upwards [loop_elems children] with fuel loop
  intro out first level lastWasKey rest
  simp only [tokens, nodeTokens, List.map_cons, List.map_append, List.map_nil, Token.toByte,
    List.cons_append, List.append_assoc, List.nil_append]
  rw [loop_beginArray, loop, loop_endArray]
  simp [nodeText]

theorem prints_object {pairs : List AgtypePair}
    (children : ∀ pair ∈ pairs, Prints ops pair.2) : Prints ops (.object pairs) := by
  refine ⟨nofun, fun _ => ?_⟩
  filter_upwards [loop_pairs children] with fuel loop
  intro out first level lastWasKey rest
  simp only [tokens, nodeTokens, List.map_cons, List.map_append, List.map_nil, Token.toByte,
    List.cons_append, List.append_assoc, List.nil_append]
  rw [loop_beginObject, loop, loop_endObject]
  simp [nodeText]

/-- The worker prints the text of a container. -/
theorem worker_container {v : AgtypeValue} (prints : Prints ops v)
    (nested : v.isScalar = false) :
    ∀ᶠ fuel in atTop, agtypeToCstringWorker ops true fuel false (v.tokens.map Token.toByte) =
      .ok (nodeText ops v) := by
  refine eventually_of_succ (prints.2 nested) fun fuel loop => ?_
  have whole := loop [] true 0 false []
  rw [List.append_nil] at whole
  exact whole

/-- An entity is printed as its container with an annotation. -/
theorem prints_entity {v container : AgtypeValue} {annotationName : List Char}
    (scalar : v.isScalar = true) (nested : container.isScalar = false)
    (prints : Prints ops container)
    (put : ∀ worker, agtypePutEscapedValue ops true worker v = (do
      return annotated true annotationName (← worker container)))
    (text : nodeText ops v = nodeText ops container ++ ascii (':' :: ':' :: annotationName)) :
    Prints ops v := by
  refine ⟨fun _ => ?_, fun absurd => by rw [scalar] at absurd; cases absurd⟩
  filter_upwards [worker_container prints nested] with fuel printed
  rw [putEscaped, put, printed, text]
  rfl

/-- Every value is printed as its text. -/
theorem prints_of_textValue {v : AgtypeValue} (value : TextValue ops v) : Prints ops v := by
  induction value with
  | null => exact ⟨fun _ => Eventually.of_forall fun _ => rfl, nofun⟩
  | string _ => exact ⟨fun _ => Eventually.of_forall fun _ => rfl, nofun⟩
  | numeric _ _ => exact ⟨fun _ => Eventually.of_forall fun _ => rfl, nofun⟩
  | integer _ => exact ⟨fun _ => Eventually.of_forall fun _ => rfl, nofun⟩
  | float _ _ => exact ⟨fun _ => Eventually.of_forall fun _ => rfl, nofun⟩
  | bool _ => exact ⟨fun _ => Eventually.of_forall fun _ => rfl, nofun⟩
  | vertex _ _ _ children =>
      exact prints_entity rfl rfl (prints_object children) (fun _ => rfl) (by simp [nodeText])
  | edge _ _ _ children =>
      exact prints_entity rfl rfl (prints_object children) (fun _ => rfl) (by simp [nodeText])
  | path _ _ _ children =>
      exact prints_entity rfl rfl (prints_array children) (fun _ => rfl) (by simp [nodeText])
  | array _ _ children => exact prints_array children
  | object _ _ children => exact prints_object children

/-- A raw scalar is printed as the scalar. -/
theorem worker_root {v : AgtypeValue} (prints : Prints ops v) :
    ∀ᶠ fuel in atTop,
      agtypeToCstringWorker ops true fuel false (v.root.tokens.map Token.toByte) =
        .ok (nodeText ops v) := by
  cases nested : v.isScalar with
  | false =>
      rw [AgtypeValue.root, nested, if_neg (by decide)]
      exact worker_container prints nested
  | true =>
      rw [AgtypeValue.root, nested, if_pos rfl]
      refine eventually_of_succ (prints.1 nested) fun fuel text => ?_
      have all : (array true [v]).tokens.map Token.toByte =
          [.beginArray true 1, .elem (.scalar v), .endArray] := by
        simp [tokens, nodeTokens, elemTokens, nodeTokens_scalar _ nested, Token.toByte]
      rw [all, agtypeToCstringWorker]
      change agtypeToCstringLoop (putEscaped ops fuel) false _ _ = _
      simp [agtypeToCstringLoop, putFilled, text, separator, addIndent, bind, Except.bind]

end Loop

/-- `agtype_out` prints the text of the value that is stored. -/
theorem agtypeOut_eq {ops : TextOps} {v : AgtypeValue} (value : TextValue ops v)
    {agtype : Bytes} (stored : agtypeValueToAgtype v = .ok agtype) :
    ∀ᶠ fuel in atTop, agtypeOut ops fuel agtype = .ok (nodeText ops v) := by
  have read := readsBack_of_containerAt value.built (containerAt_agtypeValueToAgtype stored)
  filter_upwards [(read 1).iterated, worker_root (prints_of_textValue value)] with fuel tokens printed
  rw [agtypeOut, tokens]
  exact printed

end Age.Agtype
