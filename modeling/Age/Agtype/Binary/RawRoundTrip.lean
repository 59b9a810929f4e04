import Age.Agtype.Binary.Raw

/-!
# What the raw builder has written

Each call appends its data and the entry that describes them, so the calls fill
a table of entries.  The nodes of the table are where the reader looks for them,
except for a numeric that was copied between two boundaries.
-/

namespace Age.Agtype

open Lib AgtypeValue
open Filter (atTop Eventually eventually_gt_atTop)

section Runs

/-- The entries of a run of calls. -/
inductive StoredEntries : (offset : Nat) → List Write → List Nat → Prop where
  | nil {offset : Nat} : StoredEntries offset [] []
  | cons {offset word : Nat} {write : Write} {writes : List Write} {words : List Nat} :
      word < 2 ^ 32 → agteType word = write.kind →
      EntryIs word offset (write.bytes offset).length →
      StoredEntries (offset + (write.bytes offset).length) writes words →
      StoredEntries offset (write :: writes) (word :: words)

theorem StoredEntries.length {offset : Nat} {writes : List Write} {words : List Nat}
    (stored : StoredEntries offset writes words) : words.length = writes.length := by
  induction stored with
  | nil => rfl
  | cons _ _ _ _ inductionHypothesis => simp [inductionHypothesis]

theorem StoredEntries.word_lt {offset : Nat} {writes : List Write} {words : List Nat}
    (stored : StoredEntries offset writes words) : ∀ word ∈ words, word < 2 ^ 32 := by
  induction stored with
  | nil => simp
  | cons small _ _ _ inductionHypothesis =>
      intro word membership
      rcases List.mem_cons.mp membership with rfl | later
      · exact small
      · exact inductionHypothesis word later

theorem Write.kind_eq (write : Write) : ∃ k < 8, write.kind = k * 2 ^ 28 := by
  cases write with
  | string str => exact ⟨0, by decide, rfl⟩
  | graphid id => exact ⟨7, by decide, rfl⟩
  | container agtype => exact ⟨5, by decide, rfl⟩
  | extended val header => exact ⟨7, by decide, rfl⟩
  | scalarPayload val =>
      exact ⟨containerChild val.root 0 / 2 ^ 28 % 8, by omega, agteType_eq _⟩

/-- Every call appends its bytes and stores the entry for them. -/
theorem Write.run_eq {write : Write} {bstate next : AgtypeBuildState} {front data : Bytes}
    {room : Nat} (shape : BuildAt bstate front room data) (ran : write.run bstate = .ok next) :
    writeAgtentry bstate (bstate.buffer ++ write.bytes data.length)
      (write.kind ||| (write.bytes data.length).length) = .ok next := by
  have pad := shape.padlen
  have padded := shape.padBufferToInt
  cases write with
  | string str => exact ran
  | graphid id =>
      simp only [Write.run, writeGraphid, pad, padded] at ran
      simpa [Write.bytes, Write.kind, padding, Nat.add_assoc] using ran
  | container agtype =>
      simp only [Write.run, writeContainer, pad, padded] at ran
      simpa [Write.bytes, Write.kind, padding] using ran
  | extended val header =>
      simp only [Write.run, writeExtended, pad, padded] at ran
      simpa [Write.bytes, Write.kind, padding, Nat.add_assoc] using ran
  | scalarPayload val =>
      simp only [Write.run, writeAgtypeScalarPayload, pad, padded] at ran
      by_cases refused : (!agtypeContainerIsScalar val.root ||
          agtypeContainerSize val.root ≠ 1) = true
      · rw [if_pos refused] at ran
        cases ran
      · rw [if_neg refused] at ran
        by_cases extended : payloadKind val = agtentryIsAgtype
        · rw [if_pos extended] at ran
          simpa [Write.bytes, Write.kind, padding, extended] using ran
        · rw [if_neg extended] at ran
          simpa [Write.bytes, Write.kind, extended] using ran

/-- One call. -/
theorem Write.run_ok {write : Write} {bstate next : AgtypeBuildState} {front data : Bytes}
    {room : Nat} (shape : BuildAt bstate front (room + 1) data)
    (ran : write.run bstate = .ok next) :
    ∃ word, BuildAt next (front ++ encodeLE 4 word) room (data ++ write.bytes data.length) ∧
      word < 2 ^ 32 ∧ agteType word = write.kind ∧
      EntryIs word data.length (write.bytes data.length).length := by
  obtain ⟨fits, word, shapeNext, parts⟩ := writeAgtentry_ok shape (Write.run_eq shape ran)
  obtain ⟨k, isKind, kind⟩ := write.kind_eq
  obtain ⟨length, noOff, type, small⟩ := entry_parts isKind
    (show (write.bytes data.length).length < 2 ^ 28 by omega)
  rw [← kind] at length noOff type small
  obtain ⟨wordSmall, wordType, is⟩ := parts small noOff length
  exact ⟨word, shapeNext, wordSmall, wordType.trans type, is⟩

/-- A run of calls. -/
theorem foldlM_run_ok {writes : List Write} {bstate final : AgtypeBuildState}
    {front data : Bytes} {room : Nat} (shape : BuildAt bstate front (writes.length + room) data)
    (ran : writes.foldlM Write.run bstate = .ok final) :
    ∃ words, BuildAt final (front ++ entriesBytes words) room
        (data ++ writtenBytes data.length writes) ∧
      StoredEntries data.length writes words := by
  induction writes generalizing bstate front data with
  | nil =>
      cases ran
      refine ⟨[], ?_, .nil⟩
      simpa [entriesBytes, writtenBytes] using shape
  | cons write rest inductionHypothesis =>
      rw [List.foldlM_cons] at ran
      obtain ⟨next, first, later⟩ := bind_ok ran
      have counts : (write :: rest).length + room = rest.length + room + 1 := by
        rw [List.length_cons]
        omega
      rw [counts] at shape
      obtain ⟨word, shapeNext, small, type, is⟩ := Write.run_ok shape first
      obtain ⟨words, shapeFinal, stored⟩ := inductionHypothesis shapeNext later
      rw [List.length_append] at shapeFinal stored
      refine ⟨word :: words, ?_, .cons small type is stored⟩
      simpa [entriesBytes, writtenBytes, List.append_assoc] using shapeFinal

theorem buildAt_init {size headerFlag count : Nat} {bstate : AgtypeBuildState}
    (entries : count = if headerFlag &&& agtFobject ≠ 0 then size * 2 else size)
    (started : initAgtypeBuildState size headerFlag = .ok bstate) :
    BuildAt bstate ([0, 0, 0, 0] ++ encodeLE 4 (headerFlag ||| size)) count [] := by
  have shape (n : Nat) : BuildAt
      { aOffset := 8, i := 0, dStart := 8 + 4 * n
        buffer := reserveFromBuffer (reserveFromBuffer [] 4 ++
          encodeLE 4 (headerFlag ||| size)) (4 * n) }
      ([0, 0, 0, 0] ++ encodeLE 4 (headerFlag ||| size)) n [] := by
    refine ⟨?_, ?_, ?_, ?_⟩ <;> simp [reserveFromBuffer]
  unfold initAgtypeBuildState at started
  subst entries
  split_ifs at started with object array
  · cases started
    rw [if_pos object]
    exact shape _
  · cases started
    rw [if_neg object]
    exact shape _

/-- The container a build ends with. -/
theorem buildFrom_ok {size headerFlag : Nat} {writes : List Write} {agtype : Bytes}
    (count : writes.length = if headerFlag &&& agtFobject ≠ 0 then size * 2 else size)
    (built : buildFrom size headerFlag writes = .ok agtype) :
    ∃ words, agtype.drop 4 =
        containerBytes (headerFlag ||| size) words (writtenBytes 0 writes) ∧
      StoredEntries 0 writes words := by
  obtain ⟨bstate, started, later⟩ := bind_ok built
  obtain ⟨final, ran, result⟩ := bind_ok later
  cases result
  have shape := buildAt_init count started
  rw [← Nat.add_zero writes.length] at shape
  obtain ⟨words, last, stored⟩ := foldlM_run_ok shape ran
  refine ⟨words, ?_, stored⟩
  rw [buildAgtype, drop_setVarsize, last.buffer]
  simp [containerBytes]

end Runs

section Nodes

/-- What is copied of a scalar agtype. -/
theorem AgtypeDatum.HoldsScalar.parts {val : AgtypeDatum} {v : AgtypeValue} (holds : val.HoldsScalar v) :
    ∀ rest, NodeAt (payloadKind val) (scalarPayload val ++ rest) 0 (scalarPayload val).length
      v := by
  obtain ⟨entry, payload, root, table⟩ := holds
  cases table with
  | @cons _ _ _ _ _ out data is fits node after =>
      cases after
      rw [List.append_nil] at root
      have child : containerChild val.root 0 = entry := by
        have read := containerChild_containerBytes (h := arrayHeader true 1)
          (e := [entry]) (d := out) (r := []) (by simpa using fits) 0 (by simp)
        rwa [List.append_nil, ← root] at read
      have data : dataProper val.root 1 = out := by
        have dropped := dataProper_containerBytes (arrayHeader true 1) [entry] out []
        rwa [List.append_nil, List.append_nil, ← root] at dropped
      have length : getAgtypeLength val.root 0 = out.length :=
        EntryIs.length (o := 0) (child ▸ is) rfl
      have payload : scalarPayload val = out := by
        rw [scalarPayload, data, length]
        simp [getAgtypeOffset]
      intro rest
      rw [payload, payloadKind, child]
      exact node _ rest rfl

theorem drop_padding {base b r : Bytes} {offset : Nat}
    (memory : base.drop offset = padding offset ++ b ++ r) :
    base.drop (intAlign offset) = b ++ r := by
  have le := le_intAlign offset
  have sum : intAlign offset = offset + (intAlign offset - offset) := by omega
  rw [sum, ← List.drop_drop, memory, padding, List.append_assoc,
    List.drop_left' (List.length_replicate)]

/-- The data of an extended type are looked up from the next boundary on. -/
theorem nodeAt_agtype {base : Bytes} {offset length length' : Nat} {v : AgtypeValue} :
    NodeAt agtentryIsAgtype base offset length v ↔
      NodeAt agtentryIsAgtype (base.drop (intAlign offset)) 0 length' v := by
  have zero : intAlign 0 = 0 := rfl
  have notString : agtentryIsAgtype ≠ agtentryIsString := by decide
  cases v <;>
    simp [NodeAt, zero, readLE_drop, List.drop_drop, notString]

/-- A numeric of less than 64 bytes has a length in its first byte only, so it
does not start again within its header. -/
theorem long_of_shifted {val : Numeric} {memory : Bytes} {shift : Nat}
    (start : val.image <+: memory) (again : val.image <+: memory.drop shift)
    (positive : 0 < shift) (small : shift < 4) : 64 ≤ val.image.length := by
  by_contra short
  have size := val.varsize
  have header := val.hasHeader
  obtain ⟨b0, b1, b2, b3, more, image⟩ : ∃ b0 b1 b2 b3 more,
      val.image = b0 :: b1 :: b2 :: b3 :: more := by
    match val.image, header with
    | b0 :: b1 :: b2 :: b3 :: more, _ => exact ⟨b0, b1, b2, b3, more, rfl⟩
  have word : varsize4b val.image =
      (b0.toNat + 256 * (b1.toNat + 256 * (b2.toNat + 256 * b3.toNat))) / 4 := by
    rw [image]
    simp [varsize4b, readLE, decodeLE]
  obtain ⟨rest, rfl⟩ := start
  have first : [b0] <+: (b0 :: b1 :: b2 :: b3 :: (more ++ rest)).drop shift := by
    rw [image] at again
    exact List.IsPrefix.trans ⟨b1 :: b2 :: b3 :: more, rfl⟩ again
  have repeated : b0 = b1 ∨ b0 = b2 ∨ b0 = b3 := by
    obtain rfl | rfl | rfl : shift = 1 ∨ shift = 2 ∨ shift = 3 := by omega
    · exact .inl (by simpa using first)
    · exact .inr (.inl (by simpa using first))
    · exact .inr (.inr (by simpa using first))
  rw [word] at size
  have low : 16 ≤ b0.toNat := by omega
  have high : b1.toNat = 0 ∧ b2.toNat = 0 ∧ b3.toNat = 0 := by omega
  rcases repeated with rfl | rfl | rfl <;> omega

theorem take_eq_iff_prefix {image memory : Bytes} :
    memory.take image.length = image ↔ image <+: memory := by
  rw [List.prefix_iff_eq_take, eq_comm]

theorem nodeAt_numeric {base rest : Bytes} {offset : Nat} {val : Numeric} {payload : Bytes}
    (memory : base.drop offset = payload ++ rest) (start : val.image <+: payload) :
    val.image <+: base.drop (intAlign offset) ↔
      offset % 4 = 0 ∨ Repeats (intAlign offset - offset) payload rest := by
  have le := le_intAlign offset
  have lt := intAlign_lt offset
  have sum : intAlign offset = offset + (intAlign offset - offset) := by omega
  have shifted : base.drop (intAlign offset) =
      (payload ++ rest).drop (intAlign offset - offset) := by
    rw [← memory, List.drop_drop, ← sum]
  have image : numericImage payload = val.image := by
    have size : varsize4b payload = val.image.length := by
      have same : payload.take 4 = val.image.take 4 := by
        obtain ⟨after, rfl⟩ := start
        rw [List.take_append_of_le_length val.hasHeader]
      rw [← val.varsize]
      simp only [varsize4b, readLE, List.drop_zero, same]
    rw [numericImage, size]
    exact take_eq_iff_prefix.mpr start
  rw [Repeats, image, shifted]
  constructor
  · intro found
    by_cases aligned : offset % 4 = 0
    · exact .inl aligned
    · refine .inr ⟨?_, found⟩
      refine long_of_shifted (start.trans (List.prefix_append _ rest)) found ?_ (by omega)
      have mod := intAlign_mod offset
      omega
  · rintro (aligned | ⟨-, found⟩)
    · rw [intAlign_of_mod aligned, Nat.sub_self, List.drop_zero]
      exact start.trans (List.prefix_append _ rest)
    · exact found

/-- A header word and what follows it, after padding. -/
theorem headed_memory {base out rest : Bytes} {offset header : Nat} (small : header < 2 ^ 32)
    (memory : base.drop offset = padding offset ++ encodeLE 4 header ++ out ++ rest) :
    readLE 4 base (intAlign offset) = header ∧
      base.drop (intAlign offset + 4) = out ++ rest := by
  have start := drop_padding (b := encodeLE 4 header ++ out) (r := rest)
    (memory.trans (by simp))
  constructor
  · have read := readLE_append [] (out ++ rest) (w := 4) small
    rw [← Nat.add_zero (intAlign offset), ← readLE_drop, start]
    simpa using read
  · rw [← List.drop_drop, start, List.append_assoc, List.drop_left' (length_encodeLE 4 header)]

/-- A scalar payload is in place unless it is a numeric that is not. -/
theorem nodeAt_scalarPayload {val : AgtypeDatum} {v : AgtypeValue} (scalar : v.isScalar = true)
    (holds : val.HoldsScalar v) {base rest : Bytes} {offset : Nat}
    (memory : base.drop offset = (Write.scalarPayload val).bytes offset ++ rest) :
    NodeAt (payloadKind val) base offset ((Write.scalarPayload val).bytes offset).length v ↔
      NumericLands offset rest (.scalarPayload val) := by
  have node := holds.parts
  rw [NumericLands]
  by_cases extended : payloadKind val = agtentryIsAgtype
  · rw [Write.bytes, if_pos extended] at memory
    rw [extended] at node ⊢
    refine iff_of_true (nodeAt_agtype.mpr (?_ : NodeAt _ _ _ (scalarPayload val).length _))
      fun is => absurd is (by decide)
    rw [drop_padding memory]
    exact node rest
  rw [Write.bytes, if_neg extended] at memory ⊢
  have whole := node []
  rw [List.append_nil] at whole
  cases v with
  | numeric image =>
      obtain ⟨kind, prefixed⟩ := whole
      have start : image.image <+: scalarPayload val := take_eq_iff_prefix.mp prefixed
      simp only [NodeAt, kind, true_and, forall_const, take_eq_iff_prefix]
      exact nodeAt_numeric memory start
  | string str =>
      obtain ⟨kind, length, bytes⟩ := whole
      refine iff_of_true ⟨kind, length, ?_⟩ fun is => absurd (kind.symm.trans is) (by decide)
      rw [List.drop_zero, List.take_length] at bytes
      rw [memory, List.take_left, bytes]
  | null =>
      have kind : payloadKind val = agtentryIsNull := whole
      exact iff_of_true kind fun is => absurd (kind.symm.trans is) (by decide)
  | bool b =>
      have kind : payloadKind val = if b then agtentryIsBoolTrue else agtentryIsBoolFalse :=
        whole
      refine iff_of_true kind fun is => absurd (kind.symm.trans is) ?_
      cases b <;> decide
  | integer _ => exact absurd whole.1 extended
  | float _ => exact absurd whole.1 extended
  | vertex _ => exact absurd whole.1 extended
  | edge _ => exact absurd whole.1 extended
  | path _ => exact absurd whole.1 extended
  | array _ _ => cases scalar
  | object _ => cases scalar

/-- The node of a call is in place unless its numeric is not. -/
theorem nodeAt_writes {write : Write} {v : AgtypeValue} (writes : Writes write v)
    {base rest : Bytes} {offset : Nat}
    (memory : base.drop offset = write.bytes offset ++ rest) :
    NodeAt write.kind base offset (write.bytes offset).length v ↔
      NumericLands offset rest write := by
  cases writes with
  | string str =>
      refine iff_of_true ⟨rfl, rfl, ?_⟩ trivial
      rw [memory]
      exact List.take_left
  | graphid id =>
      obtain ⟨header, payload⟩ := headed_memory (by decide) memory
      refine iff_of_true ⟨rfl, header, ?_⟩ trivial
      have read := readLE_append [] rest (w := 8)
        (n := id.toUInt64.toNat) id.toUInt64.toNat_lt
      rw [← Nat.add_zero (intAlign offset + 4), ← readLE_drop, payload]
      simpa using read
  | @container agtype v built holds =>
      refine iff_of_true ((nodeAt_container v.isScalar_root).mpr ⟨rfl, ?_⟩) trivial
      rw [drop_padding memory, agtype.copied_eq, List.append_assoc]
      exact holds _
  | @vertex val pairs built holds =>
      obtain ⟨header, payload⟩ := headed_memory (by decide) memory
      rw [val.copied_eq, List.append_assoc] at payload
      exact iff_of_true ⟨rfl, header, payload ▸ holds _⟩ trivial
  | @edge val pairs built holds =>
      obtain ⟨header, payload⟩ := headed_memory (by decide) memory
      rw [val.copied_eq, List.append_assoc] at payload
      exact iff_of_true ⟨rfl, header, payload ▸ holds _⟩ trivial
  | @path val elems built holds =>
      obtain ⟨header, payload⟩ := headed_memory (by decide) memory
      rw [val.copied_eq, List.append_assoc] at payload
      exact iff_of_true ⟨rfl, header, payload ▸ holds _⟩ trivial
  | @scalarPayload val v built scalar holds => exact nodeAt_scalarPayload scalar holds memory

/-- Where the node of a call is not in place, a numeric was to be there. -/
theorem numeric_of_not_lands {write : Write} {v : AgtypeValue} (writes : Writes write v)
    {after : Bytes} {offset : Nat} (misses : ¬ NumericLands offset after write) :
    write.kind = agtentryIsNumeric ∧ ∃ val, v = .numeric val := by
  cases writes with
  | @scalarPayload val v built scalar holds =>
      have kind : payloadKind val = agtentryIsNumeric := by
        by_contra other
        exact misses fun is => absurd is other
      refine ⟨kind, ?_⟩
      have whole := holds.parts []
      rw [kind] at whole
      cases v with
      | numeric image => exact ⟨image, rfl⟩
      | bool b =>
          have same : agtentryIsNumeric =
              if b then agtentryIsBoolTrue else agtentryIsBoolFalse := whole
          refine absurd same ?_
          cases b <;> decide
      | null => exact absurd (show agtentryIsNumeric = agtentryIsNull from whole) (by decide)
      | array _ _ => cases scalar
      | object _ => cases scalar
      | _ => exact absurd whole.1 (by decide)
  | _ => exact absurd trivial misses

end Nodes

section Tables

/-- Nodes laid out one after the other, numerics perhaps not where they are
looked for. -/
def LooselyAt (container base : Bytes) : (index offset : Nat) → List AgtypeValue → Prop
  | _, _, [] => True
  | index, offset, elem :: rest =>
      ∃ length, EntryIs (containerChild container index) offset length ∧
        (NodeAt (agteType (containerChild container index)) base offset length elem ∨
          agteType (containerChild container index) = agtentryIsNumeric ∧
            ∃ val, elem = .numeric val) ∧
        LooselyAt container base (index + 1) (offset + length) rest

/-- The table of a run of calls. -/
theorem looselyAt_stored {writes : List Write} {words : List Nat} {vs : List AgtypeValue}
    {container base : Bytes} {index offset : Nat}
    (stored : StoredEntries offset writes words) (values : List.Forall₂ Writes writes vs)
    (children : ∀ j (inside : j < words.length),
      containerChild container (index + j) = words[j])
    (memory : base.drop offset = writtenBytes offset writes) :
    LooselyAt container base index offset vs ∧
      (ElemsAt container base index offset vs ↔ NumericsLand offset writes) := by
  induction stored generalizing index vs with
  | nil =>
      cases values
      exact ⟨trivial, Iff.rfl⟩
  | @cons offset word write writes words small type is _ inductionHypothesis =>
      cases values with
      | cons value values =>
          have here : containerChild container index = word := children 0 (by simp)
          have node := nodeAt_writes value memory
          have after : base.drop (offset + (write.bytes offset).length) =
              writtenBytes (offset + (write.bytes offset).length) writes := by
            rw [← List.drop_drop, memory, writtenBytes, List.drop_left]
          obtain ⟨loosely, elements⟩ := inductionHypothesis values (fun j inside => by
            have shift : index + 1 + j = index + (j + 1) := by omega
            rw [shift, children (j + 1) (by simpa using inside)]
            rfl) after
          constructor
          · refine ⟨_, here ▸ is, ?_, loosely⟩
            rw [here, type]
            by_cases lands : NumericLands offset
                (writtenBytes (offset + (write.bytes offset).length) writes) write
            · exact .inl (node.mpr lands)
            · exact .inr (numeric_of_not_lands value lands)
          · constructor
            · rintro ⟨length, entry, held, others⟩
              have same : length = (write.bytes offset).length := by
                have first := entry.advance
                have second := (here ▸ is : EntryIs _ _ _).advance
                omega
              subst same
              rw [here, type] at held
              exact ⟨node.mp held, elements.mp others⟩
            · rintro ⟨lands, others⟩
              refine ⟨_, here ▸ is, ?_, elements.mpr others⟩
              rw [here, type]
              exact node.mpr lands

/-- The keys of an object are always in place. -/
theorem looselyAt_keys {container base : Bytes} {keys : List Bytes} {values : List AgtypeValue}
    {index offset : Nat}
    (loosely : LooselyAt container base index offset (keys.map .string ++ values)) :
    ∃ stop, KeysAt container base index offset keys stop ∧
      LooselyAt container base (index + keys.length) stop values ∧
      (ElemsAt container base (index + keys.length) stop values →
        ElemsAt container base index offset (keys.map .string ++ values)) := by
  induction keys generalizing index offset with
  | nil => exact ⟨offset, rfl, by simpa using loosely, fun elements => by simpa using elements⟩
  | cons key rest inductionHypothesis =>
      obtain ⟨length, entry, node | ⟨_, _, other⟩, after⟩ := loosely
      · obtain ⟨stop, keysAt, looseValues, elements⟩ := inductionHypothesis after
        have shift : index + (key :: rest).length = index + 1 + rest.length := by
          rw [List.length_cons]
          omega
        obtain ⟨kind, hasLength, bytes⟩ := node
        subst hasLength
        rw [shift]
        exact ⟨stop, ⟨entry, kind, bytes, keysAt⟩, looseValues,
          fun found => ⟨_, entry, ⟨kind, rfl, bytes⟩, elements found⟩⟩
      · cases other

end Tables

section Converse

/-- The rest of the tokens is returned from where the first of them lead. -/
theorem Yields.iterate_rest {fill : Fill} {skipNested : Bool} {it middle : AgtypeIterator}
    {first rest : List ByteToken} (yields : Yields fill skipNested it first middle)
    {steps : Nat} (iterated : iterate fill skipNested steps it = .ok (first ++ rest)) :
    ∃ steps, iterate fill skipNested steps middle = .ok rest := by
  induction yields generalizing steps with
  | none => exact ⟨steps, iterated⟩
  | next step _ inductionHypothesis =>
      obtain ⟨steps, rfl⟩ := Nat.exists_eq_succ_of_ne_zero (show steps ≠ 0 by
        rintro rfl
        cases iterated)
      rw [iterate, step] at iterated
      obtain ⟨others, later, result⟩ := bind_ok (show (iterate fill skipNested steps _).bind
        _ = _ from iterated)
      cases result
      exact inductionHypothesis later

/-- What the first call returns is the first token. -/
theorem iterate_first {fill : Fill} {skipNested : Bool} {it : AgtypeIterator} {steps : Nat}
    {token : ByteToken} {rest : List ByteToken}
    (iterated : iterate fill skipNested steps it = .ok (token :: rest)) :
    ∃ next, agtypeIteratorNext fill skipNested it = .ok (some token, next) := by
  obtain ⟨steps, rfl⟩ := Nat.exists_eq_succ_of_ne_zero (show steps ≠ 0 by
    rintro rfl
    cases iterated)
  rw [iterate] at iterated
  obtain ⟨⟨found, next⟩, step, later⟩ := bind_ok iterated
  cases found with
  | none => cases later
  | some found =>
      obtain ⟨others, _, result⟩ := bind_ok later
      cases result
      exact ⟨next, step⟩

theorem fill_numeric {container base : Bytes} {index offset : Nat}
    (kind : agteType (containerChild container index) = agtentryIsNumeric) (fuel : Nat) :
    fillAgtypeValue fuel container index base offset =
      (readNumeric (base.drop (intAlign offset))).map .scalar := by
  cases fuel <;> simp only [fillAgtypeValue, fillWith, kind] <;>
    cases readNumeric (base.drop (intAlign offset)) <;> rfl

theorem readNumeric_ok {data : Bytes} {val : Numeric}
    (read : readNumeric data = .ok (.numeric val)) : data.take val.image.length = val.image := by
  unfold readNumeric at read
  simp only at read
  split_ifs at read with valid
  cases read
  exact take_eq_iff_prefix.mpr (List.take_prefix _ _)

/-- A numeric is in place when the iterator returned it. -/
theorem nodeAt_of_returned {f : Filled → ByteToken} (injective : Function.Injective f)
    {container base : Bytes} {index offset length fuel : Nat} {val : Numeric}
    (kind : agteType (containerChild container index) = agtentryIsNumeric)
    {it next : AgtypeIterator}
    (returned : (fillAgtypeValue fuel container index base offset >>= fun filled =>
      iteratorNode false f filled it) = .ok (some (f (.scalar (.numeric val))), next)) :
    NodeAt (agteType (containerChild container index)) base offset length (.numeric val) := by
  refine ⟨kind, readNumeric_ok ?_⟩
  rw [fill_numeric kind] at returned
  cases read : readNumeric (base.drop (intAlign offset)) with
  | error error =>
      rw [read] at returned
      cases returned
  | ok value =>
      rw [read] at returned
      have same : f (.scalar value) = f (.scalar (.numeric val)) := by
        injection returned with pair
        exact Option.some.inj (congrArg Prod.fst pair)
      rw [Filled.scalar.inj (injective same)]

/-- The call at an element: fill it in, then return it or step into it. -/
theorem next_elem_bind {fill : Fill} (container base : Bytes) (isScalar : Bool)
    {numElems index : Nat} (offset : Nat) (parents : AgtypeIterator) (inside : index < numElems) :
    agtypeIteratorNext fill false
        (elemLevel container base isScalar numElems index offset :: parents) =
      (fill container index base offset >>= fun val => iteratorNode false .elem val
        (elemLevel container base isScalar numElems (index + 1)
          (agteAdvanceOffset offset (containerChild container index)) :: parents)) := by
  exact if_neg (Nat.not_le.mpr inside)

/-- An array whose elements the iterator returned has them in place. -/
theorem elemsAt_of_iterate {elems : List AgtypeValue} (decodes : ∀ elem ∈ elems, Decodes elem)
    {container base : Bytes} {index offset : Nat} {s : Bool} {p : AgtypeIterator}
    {z : List ByteToken} (start : getAgtypeOffset container index = offset)
    (loosely : LooselyAt container base index offset elems)
    (iterated : ∀ᶠ fuel in atTop, ∃ steps, iterate (fillAgtypeValue fuel) false steps
      (elemLevel container base s (index + elems.length) index offset :: p) =
        .ok ((elemTokens elems).map Token.toByte ++ z)) :
    ElemsAt container base index offset elems := by
  induction elems generalizing index offset with
  | nil => trivial
  | cons elem rest inductionHypothesis =>
      obtain ⟨length, entry, node, after⟩ := loosely
      have inPlace :
          NodeAt (agteType (containerChild container index)) base offset length elem := by
        rcases node with node | ⟨kind, val, rfl⟩
        · exact node
        · obtain ⟨fuel, steps, returned⟩ := iterated.exists
          obtain ⟨next, step⟩ := iterate_first returned
          rw [next_elem_bind _ _ _ _ _ (by simp)] at step
          exact nodeAt_of_returned (fun _ _ same => ByteToken.elem.inj same)
            kind step
      have slot : SlotAt container base index offset length elem := ⟨entry, start, inPlace⟩
      refine ⟨length, entry, inPlace, inductionHypothesis
        (fun other membership => decodes other (by simp [membership]))
        (entry.offset_succ start) after ?_⟩
      filter_upwards [iterated, yields_elem (decodes elem (by simp)) slot]
        with fuel ⟨steps, returned⟩ yields
      have counts : index + (elem :: rest).length = index + 1 + rest.length := by
        rw [List.length_cons]
        omega
      rw [AgtypeValue.elemTokens, List.map_append, List.append_assoc, counts] at returned
      exact (yields s _ p (by omega)).iterate_rest returned

/-- An object whose pairs the iterator returned has their values in place. -/
theorem valuesAt_of_iterate {pairs : List AgtypePair}
    (decodes : ∀ pair ∈ pairs, Decodes pair.2) {container base : Bytes}
    {n i keyOffset valueOffset stop : Nat} {p : AgtypeIterator}
    {z : List ByteToken} (counts : i + pairs.length = n)
    (keyStart : getAgtypeOffset container i = keyOffset)
    (valueStart : getAgtypeOffset container (i + n) = valueOffset)
    (keys : KeysAt container base i keyOffset (pairs.map Prod.fst) stop)
    (loosely : LooselyAt container base (i + n) valueOffset (pairs.map Prod.snd))
    (iterated : ∀ᶠ fuel in atTop, ∃ steps, iterate (fillAgtypeValue fuel) false steps
      (keyLevel container base n i keyOffset valueOffset :: p) =
        .ok ((pairTokens pairs).map Token.toByte ++ z)) :
    ElemsAt container base (i + n) valueOffset (pairs.map Prod.snd) := by
  induction pairs generalizing i keyOffset valueOffset with
  | nil => trivial
  | cons pair rest inductionHypothesis =>
      obtain ⟨key, value⟩ := pair
      rw [List.length_cons] at counts
      obtain ⟨keyEntry, keyKind, keyBytes, keysAfter⟩ := keys
      obtain ⟨length, entry, node, after⟩ := loosely
      -- the key comes first, whatever the fuel
      have keyStep (fuel : Nat) := next_key (v := valueOffset)
        (fill_key keyEntry keyStart keyKind keyBytes fuel) false p
        (show i < n by omega)
      have values : ∀ᶠ fuel in atTop, ∃ steps, iterate (fillAgtypeValue fuel) false steps
          (valueLevel container base n i keyOffset valueOffset :: p) =
            .ok ((nodeTokens .value value).map Token.toByte ++
              ((pairTokens rest).map Token.toByte ++ z)) := by
        filter_upwards [iterated] with fuel done
        obtain ⟨steps, returned⟩ := done
        rw [AgtypeValue.pairTokens, List.map_cons, List.map_append, List.cons_append,
          List.append_assoc] at returned
        exact (Yields.single (keyStep fuel)).iterate_rest returned
      have inPlace : NodeAt (agteType (containerChild container (i + n))) base
          valueOffset length value := by
        rcases node with node | ⟨kind, val, rfl⟩
        · exact node
        · obtain ⟨fuel, steps, returned⟩ := values.exists
          obtain ⟨next, step⟩ := iterate_first returned
          simp only [agtypeIteratorNext, valueLevel, keyLevel] at step
          exact nodeAt_of_returned (f := .value) (fun _ _ same => ByteToken.value.inj same)
            kind step
      have slot : SlotAt container base (i + n) valueOffset length value :=
        ⟨entry, valueStart, inPlace⟩
      have shift : i + n + 1 = i + 1 + n := by omega
      refine ⟨length, entry, inPlace, ?_⟩
      rw [shift] at after ⊢
      refine inductionHypothesis (fun other membership => decodes other (by simp [membership]))
        (by omega) (keyEntry.offset_succ keyStart) ?_ keysAfter after ?_
      · rw [← shift]
        exact entry.offset_succ valueStart
      · filter_upwards [values, yields_value (decodes (key, value) (by simp)) keyEntry slot]
          with fuel done yields
        obtain ⟨steps, returned⟩ := done
        exact (yields p).iterate_rest returned

end Converse

section Builds

theorem decodes_of_writes {write : Write} {v : AgtypeValue} (writes : Writes write v) :
    Decodes v := by
  cases writes with
  | string str => exact decodes_of_built (.string str)
  | graphid id => exact decodes_of_built (.integer id)
  | @container agtype v built holds =>
      unfold AgtypeValue.root
      split_ifs with scalar
      · refine ⟨nofun, fun _ => iterates_array ?_⟩
        simpa using decodes_of_built built
      · exact decodes_of_built built
  | vertex built holds => exact decodes_of_built built
  | edge built holds => exact decodes_of_built built
  | path built holds => exact decodes_of_built built
  | scalarPayload built scalar holds => exact decodes_of_built built

theorem decodes_of_forall {writes : List Write} {vs : List AgtypeValue}
    (values : List.Forall₂ Writes writes vs) : ∀ v ∈ vs, Decodes v := by
  induction values with
  | nil => simp
  | cons value _ inductionHypothesis =>
      intro v membership
      rcases List.mem_cons.mp membership with rfl | later
      · exact decodes_of_writes value
      · exact inductionHypothesis v later

/-- The first token of a container gives its size. -/
theorem agtypeTokens_first {fuel : Nat} {container : Bytes} {token : ByteToken}
    {rest : List ByteToken} (read : agtypeTokens fuel container = .ok (token :: rest)) :
    (∃ isScalar, token = .beginArray isScalar (agtypeContainerSize container)) ∨
      token = .beginObject (agtypeContainerSize container) := by
  obtain ⟨it, started, iterated⟩ := bind_ok read
  obtain ⟨next, step⟩ := iterate_first iterated
  unfold iteratorFromContainer at started
  simp only at started
  split_ifs at started
  · cases started
    cases step
    exact .inl ⟨_, rfl⟩
  · cases started
    cases step
    exact .inr rfl

theorem agtypeContainerSize_lt (container : Bytes) : agtypeContainerSize container < 2 ^ 28 := by
  have masked : agtypeContainerSize container = containerHeader container % 2 ^ 28 :=
    Nat.and_two_pow_sub_one_eq_mod _ 28
  omega

/-- The container is iterated as the tokens of a tree. -/
def IteratesAs (container : Bytes) (root : AgtypeValue) : Prop :=
  ∀ᶠ fuel in atTop, agtypeTokens fuel container = .ok (root.tokens.map Token.toByte)

/-- What is returned after the first token is returned inside the container. -/
theorem Starts.iterate_inside {container : Bytes} {level inside : IteratorLevel}
    {token : ByteToken} (starts : Starts container level token inside) {fuel : Nat}
    {rest : List ByteToken} (read : agtypeTokens fuel container = .ok (token :: rest)) :
    ∃ steps, iterate (fillAgtypeValue fuel) false steps [inside] = .ok rest := by
  obtain ⟨it, started, iterated⟩ := bind_ok read
  cases started.symm.trans starts.fromContainer
  have step := starts.next (fillAgtypeValue fuel) false []
  rw [starts.start] at step
  exact (Yields.single step).iterate_rest iterated

/-- The table of a container that the raw builder has filled. -/
theorem looselyAt_containerBytes {header : Nat} {words : List Nat} {writes : List Write}
    {vs : List AgtypeValue} {container base : Bytes}
    (bytes : container = containerBytes header words (writtenBytes 0 writes))
    (data : base = dataProper container vs.length) (stored : StoredEntries 0 writes words)
    (values : List.Forall₂ Writes writes vs) :
    LooselyAt container base 0 0 vs ∧
      (ElemsAt container base 0 0 vs ↔ NumericsLand 0 writes) := by
  rw [← List.append_nil (containerBytes _ _ _)] at bytes
  refine looselyAt_stored stored values (fun j inside => ?_) ?_
  · rw [Nat.zero_add, bytes]
    exact containerChild_containerBytes stored.word_lt j inside
  · rw [List.drop_zero, data, bytes, ← values.length_eq, ← stored.length,
      dataProper_containerBytes, List.append_nil]

/-- An array that the raw builder has filled. -/
theorem iteratesAs_array {words : List Nat} {writes : List Write} {vs : List AgtypeValue}
    (rawScalar : Bool) (stored : StoredEntries 0 writes words)
    (values : List.Forall₂ Writes writes vs) :
    IteratesAs (containerBytes (arrayHeader rawScalar vs.length) words (writtenBytes 0 writes))
        (.array rawScalar vs) ↔
      vs.length < 2 ^ 28 ∧ NumericsLand 0 writes := by
  generalize bytes : containerBytes (arrayHeader rawScalar vs.length) words
    (writtenBytes 0 writes) = container
  have header (few : vs.length < 2 ^ 28) :
      HeaderIs container (if rawScalar then 5 else 4) vs.length := by
    have word := arrayHeader_eq few rawScalar
    have fits : arrayHeader rawScalar vs.length < 2 ^ 32 := by
      rw [word]
      split <;> omega
    refine ⟨?_, few, by split <;> omega⟩
    rw [← bytes, ← List.append_nil (containerBytes _ _ _),
      containerHeader_containerBytes fits, word]
  obtain ⟨loosely, elements⟩ := looselyAt_containerBytes bytes.symm rfl stored values
  have all : (array rawScalar vs).tokens.map Token.toByte =
      .beginArray rawScalar vs.length :: ((elemTokens vs).map Token.toByte ++ [.endArray]) := by
    simp [tokens, nodeTokens, Token.toByte]
  constructor
  · intro read
    unfold IteratesAs at read
    rw [all] at read
    have few : vs.length < 2 ^ 28 := by
      obtain ⟨fuel, returned⟩ := read.exists
      rcases agtypeTokens_first returned with ⟨isScalar, first⟩ | first
      · rw [(ByteToken.beginArray.inj first).2]
        exact agtypeContainerSize_lt container
      · cases first
    obtain ⟨level, starts⟩ := starts_array (header few)
    refine ⟨few, elements.mp (elemsAt_of_iterate (decodes_of_forall values)
      (s := rawScalar) (p := []) (z := [.endArray]) rfl loosely ?_)⟩
    filter_upwards [read] with fuel returned
    rw [Nat.zero_add]
    exact starts.iterate_inside returned
  · rintro ⟨few, lands⟩
    exact agtypeTokens_of_iterates (iterates_array (decodes_of_forall values))
      ⟨header few, elements.mpr lands⟩

/-- An object that the raw builder has filled. -/
theorem iteratesAs_object {words : List Nat} {writes : List Write} {pairs : List AgtypePair}
    (stored : StoredEntries 0 writes words)
    (values : List.Forall₂ Writes writes
      ((pairs.map Prod.fst).map .string ++ pairs.map Prod.snd)) :
    IteratesAs (containerBytes (objectHeader pairs.length) words (writtenBytes 0 writes))
        (.object pairs) ↔
      pairs.length < 2 ^ 28 ∧ NumericsLand 0 writes := by
  generalize bytes : containerBytes (objectHeader pairs.length) words
    (writtenBytes 0 writes) = container
  have header (few : pairs.length < 2 ^ 28) : HeaderIs container 2 pairs.length := by
    have word := objectHeader_eq few
    have fits : objectHeader pairs.length < 2 ^ 32 := by omega
    refine ⟨?_, few, by omega⟩
    rw [← bytes, ← List.append_nil (containerBytes _ _ _),
      containerHeader_containerBytes fits, word]
  have count : 2 * pairs.length =
      ((pairs.map Prod.fst).map AgtypeValue.string ++ pairs.map Prod.snd).length := by
    simp
    omega
  obtain ⟨loosely, elements⟩ := looselyAt_containerBytes bytes.symm
    (congrArg (dataProper container) count) stored values
  obtain ⟨stop, keys, looseValues, inPlace⟩ := looselyAt_keys loosely
  have decodes : ∀ pair ∈ pairs, Decodes pair.2 := fun pair inside =>
    decodes_of_forall values _ (List.mem_append_right _ (List.mem_map_of_mem inside))
  have valueStart := keysAt_stop (i := 0) rfl keys
  rw [List.length_map, Nat.zero_add] at valueStart looseValues inPlace
  have all : (object pairs).tokens.map Token.toByte =
      .beginObject pairs.length :: ((pairTokens pairs).map Token.toByte ++ [.endObject]) := by
    simp [tokens, nodeTokens, Token.toByte]
  constructor
  · intro read
    unfold IteratesAs at read
    rw [all] at read
    have few : pairs.length < 2 ^ 28 := by
      obtain ⟨fuel, returned⟩ := read.exists
      rcases agtypeTokens_first returned with ⟨isScalar, first⟩ | first
      · cases first
      · rw [ByteToken.beginObject.inj first]
        exact agtypeContainerSize_lt container
    obtain ⟨level, starts⟩ := starts_object (header few)
    have found := valuesAt_of_iterate decodes (i := 0) (n := pairs.length)
      (p := []) (z := [.endObject]) (by omega) rfl (by rw [Nat.zero_add]) keys
      (by rwa [Nat.zero_add, valueStart]) (by
        filter_upwards [read] with fuel returned
        exact starts.iterate_inside returned)
    rw [Nat.zero_add, valueStart] at found
    exact ⟨few, elements.mp (inPlace found)⟩
  · rintro ⟨few, lands⟩
    have contents := elements.mpr lands
    obtain ⟨stop, keysAt, valuesAt⟩ := keysAt_valuesAt_of_elemsAt contents
    rw [List.length_map, Nat.zero_add] at valuesAt
    exact agtypeTokens_of_iterates (iterates_object decodes)
      ⟨header few, stop, keysAt, valuesAt⟩

/-- What the builder returns is iterated as the values that were written, unless
there are too many of them for the header, or a numeric was copied between two
boundaries and does not happen to repeat itself there. -/
theorem buildFrom_iteratesAs_iff {size headerFlag : Nat} {writes : List Write}
    {vs : List AgtypeValue} {root : AgtypeValue} {agtype : Bytes}
    (fills : Fills size headerFlag vs root) (values : List.Forall₂ Writes writes vs)
    (built : buildFrom size headerFlag writes = .ok agtype) :
    IteratesAs (agtype.drop 4) root ↔ size < 2 ^ 28 ∧ NumericsLand 0 writes := by
  have count := values.length_eq
  cases fills with
  | array =>
      obtain ⟨words, bytes, stored⟩ :=
        buildFrom_ok (count.trans (if_neg (by decide)).symm) built
      rw [bytes, Nat.or_comm]
      exact iteratesAs_array false stored values
  | rawScalar =>
      obtain ⟨words, bytes, stored⟩ :=
        buildFrom_ok (count.trans (if_neg (by decide)).symm) built
      rw [bytes, Nat.or_comm, ← Nat.or_assoc]
      exact iteratesAs_array true stored values
  | object pairs =>
      have twice : writes.length = pairs.length * 2 := by
        rw [count]
        simp
        omega
      obtain ⟨words, bytes, stored⟩ :=
        buildFrom_ok (twice.trans (if_pos (by decide)).symm) built
      rw [bytes, Nat.or_comm]
      exact iteratesAs_object stored values

/-- The numeric `1` and the agtype that holds it. -/
def numericOne : Numeric := ⟨[0x20, 0, 0, 0, 0, 0x80, 1, 0], by decide, by decide⟩

def agtypeNumericOne : AgtypeDatum where
  image := scalarAgtype (agtentryIsNumeric ||| agtentryHasOff ||| 8) numericOne.image
  hasHeader := by decide
  varsize := by decide
  beyond := [0, 0, 0, 0]
  hasBeyond := rfl

theorem holdsScalar_numericOne : agtypeNumericOne.HoldsScalar (.numeric numericOne) := by
  refine ⟨agtentryIsNumeric ||| agtentryHasOff ||| 8, numericOne.image ++ [], by decide, ?_⟩
  refine .cons (by unfold EntryIs; decide) (by decide) (fun base rest memory => ⟨rfl, ?_⟩) .nil
  rw [intAlign_of_mod rfl, memory]
  exact List.take_left

/-- The array `[1::numeric, "a"]` is read back. -/
theorem buildFrom_iteratesAs_numeric_first :
    let agtype := encodeLE 4 100 ++ encodeLE 4 0x40000002 ++ encodeLE 4 0x90000008 ++
      encodeLE 4 1 ++ numericOne.image ++ [97]
    buildFrom 2 agtFarray [.scalarPayload agtypeNumericOne, .string [97]] = .ok agtype ∧
      IteratesAs (agtype.drop 4) (.array false [.numeric numericOne, .string [97]]) := by
  intro agtype
  have built : buildFrom 2 agtFarray [.scalarPayload agtypeNumericOne, .string [97]] =
      .ok agtype := by rfl
  have values : List.Forall₂ Writes [.scalarPayload agtypeNumericOne, .string [97]]
      [.numeric numericOne, .string [97]] :=
    .cons (.scalarPayload (.numeric _) rfl holdsScalar_numericOne) (.cons (.string _) .nil)
  refine ⟨built, (buildFrom_iteratesAs_iff (.array _) values built).mpr ?_⟩
  exact ⟨by decide, fun _ => .inl rfl, trivial, trivial⟩

/-- The array `["a", 1::numeric]` is not read back: the string moves the numeric
off its boundary. -/
theorem not_iteratesAs_numeric_second :
    let agtype := encodeLE 4 100 ++ encodeLE 4 0x40000002 ++ encodeLE 4 0x80000001 ++
      encodeLE 4 0x10000008 ++ [97] ++ numericOne.image
    List.Forall₂ Writes [.string [97], .scalarPayload agtypeNumericOne]
        [.string [97], .numeric numericOne] ∧
      buildFrom 2 agtFarray [.string [97], .scalarPayload agtypeNumericOne] = .ok agtype ∧
      ¬ IteratesAs (agtype.drop 4) (.array false [.string [97], .numeric numericOne]) := by
  intro agtype
  have built : buildFrom 2 agtFarray [.string [97], .scalarPayload agtypeNumericOne] =
      .ok agtype := by rfl
  have values : List.Forall₂ Writes [.string [97], .scalarPayload agtypeNumericOne]
      [.string [97], .numeric numericOne] :=
    .cons (.string _) (.cons (.scalarPayload (.numeric _) rfl holdsScalar_numericOne) .nil)
  refine ⟨values, built, fun read => ?_⟩
  obtain ⟨words, bytes, stored⟩ := buildFrom_ok (by rfl) built
  rw [bytes, Nat.or_comm] at read
  obtain ⟨-, -, second, -⟩ := (iteratesAs_array false stored values).mp read
  rcases second rfl with aligned | ⟨long, -⟩
  · exact absurd aligned (by decide)
  · exact absurd long (by decide)

end Builds

end Age.Agtype
