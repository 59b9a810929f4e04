import Age.Agtype.Text.Accepts

/-!
# Actions along a derivation

The parser with the actions of a conversion: on a text of the grammar it is these actions, called
one after the other as the text derives.
-/

namespace Age.Agtype

open Lib

section Calls

variable {State : Type} (sem : AgtypeSemAction State)

/-- What a conversion does at a call. -/
def AgtypeSemAction.call (state : State) : ParseEvent → Except InError State
  | .objectStart => sem.objectStart state
  | .objectEnd => sem.objectEnd state
  | .arrayStart => sem.arrayStart state
  | .arrayEnd => sem.arrayEnd state
  | .objectFieldStart fname isnull => sem.objectFieldStart state fname isnull
  | .objectFieldEnd fname isnull => sem.objectFieldEnd state fname isnull
  | .arrayElementStart isnull => sem.arrayElementStart state isnull
  | .arrayElementEnd isnull => sem.arrayElementEnd state isnull
  | .scalar token tokenType annotationName => sem.scalar state token tokenType annotationName
  | .agtypeAnnotationAction annotationName => sem.agtypeAnnotationAction state annotationName

def AgtypeSemAction.calls (events : List ParseEvent) (state : State) : Except InError State :=
  events.foldlM sem.call state

/-- A run of the parser is the calls, up to the token `next`. -/
def Replays (parse : State → Except InError (AgtypeLexContext × State)) (next : AgtypeLexContext)
    (events : List ParseEvent) : Prop :=
  ∀ state, parse state = sem.calls events state >>= fun state => .ok (next, state)

theorem calls_nil (state : State) : sem.calls [] state = .ok state := rfl

theorem calls_cons (event : ParseEvent) (events : List ParseEvent) (state : State) :
    sem.calls (event :: events) state = sem.call state event >>= sem.calls events :=
  List.foldlM_cons

theorem calls_append (events others : List ParseEvent) (state : State) :
    sem.calls (events ++ others) state = sem.calls events state >>= sem.calls others :=
  List.foldlM_append

end Calls

section Replay

variable {State : Type} {sem : AgtypeSemAction State} {lex next : AgtypeLexContext}
  {events : List ParseEvent}

theorem ok_bind {α β : Type} (a : α) (f : α → Except InError β) :
    (Except.ok a >>= f) = f a := rfl

theorem scalar_replays (reported : reportScalar true lex = .ok (next, events)) :
    Replays sem (parseScalar true sem lex) next events := by
  intro state
  rw [reportScalar] at reported
  split_ifs at reported with isScalar
  obtain ⟨after, found, reported⟩ := bind_ok reported
  obtain ⟨⟨last, name⟩, named, reported⟩ := bind_ok reported
  cases reported
  rw [parseScalar, if_pos isScalar]
  simp only [found, named, ok_bind, calls_cons, bind_assoc, calls_nil]
  rfl

theorem annotation_replays {after : AgtypeLexContext} {name : Option Bytes}
    (named : lexAnnotationName true after = .ok (next, name)) :
    Replays sem (fun state => parseAnnotation true sem after state) next
      (annotationEvents name) := by
  intro state
  dsimp only
  unfold parseAnnotation
  cases name with
  | none =>
      simp only [named, ok_bind]
      rfl
  | some name =>
      simp only [named, ok_bind, annotationEvents, Option.map_some, Option.toList_some, calls_cons,
        bind_assoc, calls_nil]
      rfl

theorem object_replays {fuel : Nat}
    (inner : ∀ {lex next events}, reportObjectFields true fuel lex = .ok (next, events) →
      Replays sem (parseObjectFields true sem fuel lex) next events)
    (reported : reportObject true (fuel + 1) lex = .ok (next, events)) :
    Replays sem (parseObject true sem (fuel + 1) lex) next events := by
  intro state
  rw [reportObject] at reported
  rw [parseObject]
  obtain ⟨first, opened, reported⟩ := bind_ok reported
  dsimp only at reported
  split at reported
  case h_1 isString =>
    obtain ⟨⟨second, inside⟩, read, reported⟩ := bind_ok reported
    obtain ⟨third, closed, reported⟩ := bind_ok reported
    obtain ⟨⟨last, name⟩, named, reported⟩ := bind_ok reported
    cases reported
    have ends := @annotation_replays _ sem _ _ _ named
    simp only [opened, isString, inner read _, closed, ends _, ok_bind, calls_cons, calls_append,
      bind_assoc]
    rfl
  case h_2 isEnd =>
    obtain ⟨⟨second, inside⟩, read, reported⟩ := bind_ok reported
    cases read
    obtain ⟨third, closed, reported⟩ := bind_ok reported
    obtain ⟨⟨last, name⟩, named, reported⟩ := bind_ok reported
    cases reported
    have ends := @annotation_replays _ sem _ _ _ named
    simp only [opened, isEnd, closed, ends _, ok_bind, calls_cons, List.nil_append, bind_assoc]
    rfl
  case h_3 => cases reported

theorem array_replays {fuel : Nat}
    (inner : ∀ {lex next events}, reportArrayElements true fuel lex = .ok (next, events) →
      Replays sem (parseArrayElements true sem fuel lex) next events)
    (reported : reportArray true (fuel + 1) lex = .ok (next, events)) :
    Replays sem (parseArray true sem (fuel + 1) lex) next events := by
  intro state
  rw [reportArray] at reported
  rw [parseArray]
  obtain ⟨first, opened, reported⟩ := bind_ok reported
  dsimp only at reported
  split_ifs at reported with isEnd
  · obtain ⟨⟨second, inside⟩, read, reported⟩ := bind_ok reported
    cases read
    obtain ⟨third, closed, reported⟩ := bind_ok reported
    obtain ⟨⟨last, name⟩, named, reported⟩ := bind_ok reported
    cases reported
    have ends := @annotation_replays _ sem _ _ _ named
    simp only [opened, if_pos isEnd, closed, ends _, ok_bind, calls_cons, List.nil_append,
      bind_assoc]
    rfl
  · obtain ⟨⟨second, inside⟩, read, reported⟩ := bind_ok reported
    obtain ⟨third, closed, reported⟩ := bind_ok reported
    obtain ⟨⟨last, name⟩, named, reported⟩ := bind_ok reported
    cases reported
    have ends := @annotation_replays _ sem _ _ _ named
    simp only [opened, if_neg isEnd, inner read _, closed, ends _, ok_bind, calls_cons,
      calls_append, bind_assoc]
    rfl

theorem field_replays {fuel : Nat}
    (inner : ∀ {lex next events}, reportValue true fuel lex = .ok (next, events) →
      Replays sem (parseValue true sem fuel lex) next events)
    (reported : reportObjectField true (fuel + 1) lex = .ok (next, events)) :
    Replays sem (parseObjectField true sem (fuel + 1) lex) next events := by
  intro state
  rw [reportObjectField] at reported
  rw [parseObjectField]
  obtain ⟨first, keyed, reported⟩ := bind_ok reported
  obtain ⟨second, labelled, reported⟩ := bind_ok reported
  obtain ⟨⟨last, inside⟩, read, reported⟩ := bind_ok reported
  cases reported
  simp only [keyed, labelled, inner read _, ok_bind, fieldEvents, calls_cons, calls_append,
    calls_nil, bind_assoc]
  rfl

theorem value_replays {fuel : Nat}
    (object : reportObject true fuel lex = .ok (next, events) →
      Replays sem (parseObject true sem fuel lex) next events)
    (array : reportArray true fuel lex = .ok (next, events) →
      Replays sem (parseArray true sem fuel lex) next events)
    (reported : reportValue true (fuel + 1) lex = .ok (next, events)) :
    Replays sem (parseValue true sem (fuel + 1) lex) next events := by
  intro state
  by_cases isObject : lex.tokenType = .objectStart
  · simp only [reportValue, isObject] at reported
    simp only [parseValue, isObject]
    exact object reported state
  by_cases isArray : lex.tokenType = .arrayStart
  · simp only [reportValue, isArray] at reported
    simp only [parseValue, isArray]
    exact array reported state
  have reads : reportValue true (fuel + 1) lex = reportScalar true lex := by
    rw [reportValue]
    split
    · exact absurd ‹_› isObject
    · exact absurd ‹_› isArray
    · rfl
  have parses : parseValue true sem (fuel + 1) lex state = parseScalar true sem lex state := by
    rw [parseValue]
    split
    · exact absurd ‹_› isObject
    · exact absurd ‹_› isArray
    · rfl
  rw [parses]
  exact scalar_replays (reads ▸ reported) state

/-- The parser with the actions does what it reports. -/
theorem replays_of_report (fuel : Nat) : ∀ {lex next events},
    (reportValue true fuel lex = .ok (next, events) →
      Replays sem (parseValue true sem fuel lex) next events) ∧
    (reportObject true fuel lex = .ok (next, events) →
      Replays sem (parseObject true sem fuel lex) next events) ∧
    (reportArray true fuel lex = .ok (next, events) →
      Replays sem (parseArray true sem fuel lex) next events) ∧
    (reportObjectField true fuel lex = .ok (next, events) →
      Replays sem (parseObjectField true sem fuel lex) next events) ∧
    (reportObjectFields true fuel lex = .ok (next, events) →
      Replays sem (parseObjectFields true sem fuel lex) next events) ∧
    (reportArrayElements true fuel lex = .ok (next, events) →
      Replays sem (parseArrayElements true sem fuel lex) next events) := by
  induction fuel with
  | zero =>
      intro lex next events
      refine ⟨?_, ?_, ?_, ?_, ?_, ?_⟩ <;> intro reported
      · rw [reportValue] at reported
        cases reported
      · rw [reportObject] at reported
        cases reported
      · rw [reportArray] at reported
        cases reported
      · rw [reportObjectField] at reported
        cases reported
      · rw [reportObjectFields] at reported
        cases reported
      · rw [reportArrayElements] at reported
        cases reported
  | succ fuel inductionHypothesis =>
      intro lex next events
      refine ⟨?_, object_replays fun read => inductionHypothesis.2.2.2.2.1 read,
        array_replays fun read => inductionHypothesis.2.2.2.2.2 read,
        field_replays fun read => inductionHypothesis.1 read, ?_, ?_⟩ <;> intro reported state
      · exact value_replays inductionHypothesis.2.1 inductionHypothesis.2.2.1 reported state
      · rw [reportObjectFields] at reported
        rw [parseObjectFields]
        obtain ⟨⟨after, inside⟩, read, reported⟩ := bind_ok reported
        dsimp only at reported
        split_ifs at reported with more
        · obtain ⟨second, found, reported⟩ := bind_ok reported
          obtain ⟨⟨last, others⟩, readMore, reported⟩ := bind_ok reported
          cases reported
          simp only [inductionHypothesis.2.2.2.1 read _, if_pos more, found,
            inductionHypothesis.2.2.2.2.1 readMore _, ok_bind, calls_append, bind_assoc]
        · cases reported
          simp only [inductionHypothesis.2.2.2.1 read _, if_neg more, ok_bind, bind_assoc]
          rfl
      · rw [reportArrayElements] at reported
        rw [parseArrayElements]
        obtain ⟨⟨after, inside⟩, read, reported⟩ := bind_ok reported
        dsimp only at reported
        split_ifs at reported with more
        · obtain ⟨second, found, reported⟩ := bind_ok reported
          obtain ⟨⟨last, others⟩, readMore, reported⟩ := bind_ok reported
          cases reported
          simp only [inductionHypothesis.1 read _, if_pos more, found,
            inductionHypothesis.2.2.2.2.2 readMore _, ok_bind, elementEvents, calls_cons,
            calls_append, calls_nil, bind_assoc, AgtypeSemAction.call]
        · cases reported
          simp only [inductionHypothesis.1 read _, if_neg more, ok_bind, elementEvents, calls_cons,
            calls_append, calls_nil, bind_assoc, AgtypeSemAction.call]
          rfl

/-- A conversion of a text runs its actions in the order of the derivation. -/
theorem parseAgtype_of_text {input : Bytes} {fuel : Nat} (isText : AgtypeText False input events)
    (enough : 3 * input.length ≤ fuel) (state : State) :
    parseAgtype true sem fuel input state = sem.calls events state := by
  have reported := report_of_agtypeText isText enough
  rw [reportAgtype] at reported
  obtain ⟨lex, lexed, reported⟩ := bind_ok reported
  obtain ⟨⟨last, inside⟩, read, reported⟩ := bind_ok reported
  obtain ⟨ended, closed, reported⟩ := bind_ok reported
  cases reported
  rw [parseAgtype]
  simp only [lexed, (replays_of_report fuel).1 read _, closed, ok_bind, bind_assoc]
  exact bind_pure _

/-- The actions of `[1, true]::e`, with a count that goes up by one at a scalar and doubles at an
annotation -/
theorem parseAgtype_of_text_counted : ∃ sem : AgtypeSemAction Nat,
    (∀ count token tokenType name, sem.scalar count token tokenType name = .ok (count + 1)) ∧
    (∀ count name, sem.agtypeAnnotationAction count name = .ok (2 * count)) ∧
    parseAgtype true sem 39 (ascii "[1, true]::e".toList) 0 = .ok 4 := by
  let sem : AgtypeSemAction Nat :=
    { objectStart := .ok, objectEnd := .ok, arrayStart := .ok, arrayEnd := .ok
      objectFieldStart := fun count _ _ => .ok count
      objectFieldEnd := fun count _ _ => .ok count
      arrayElementStart := fun count _ => .ok count
      arrayElementEnd := fun count _ => .ok count
      scalar := fun count _ _ _ => .ok (count + 1)
      agtypeAnnotationAction := fun count _ => .ok (2 * count) }
  refine ⟨sem, fun _ _ _ _ => rfl, fun _ _ => rfl, ?_⟩
  have isText : AgtypeText False (ascii "[1, true]::e".toList)
      ([.arrayStart] ++ elementEvents false [.scalar (ascii ['1']) .integer none] ++
        elementEvents false [.scalar (ascii "true".toList) .true none] ++
        [.arrayEnd, .agtypeAnnotationAction (ascii ['e'])]) :=
    @agtypeText_of_report _ _ 39 (by decide +kernel)
  exact (@parseAgtype_of_text _ sem _ _ 39 isText (by decide) 0).trans rfl

end Replay

end Age.Agtype
