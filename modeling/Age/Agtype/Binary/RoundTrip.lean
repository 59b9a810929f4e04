import Age.Agtype.Binary.Decode
import Age.Agtype.Binary.Write

/-!
# The binary round trip

What the serializer writes is memory that holds the tree it was given, so the
iterator reads the tree back.  Lengths that do not fit an entry show up in the
final check of an enclosing container.
-/

namespace Age.Agtype

open Lib

section Entries

/-- Type bits and a length are recovered from an entry that stores a length. -/
theorem entry_parts {k l : Nat} (isKind : k < 8) (fits : l < 2 ^ 28) :
    agteOfflenfld (k * 2 ^ 28 ||| l) = l ∧
      agteHasOff (k * 2 ^ 28 ||| l) = false ∧
      agteType (k * 2 ^ 28 ||| l) = k * 2 ^ 28 ∧
      (k * 2 ^ 28 ||| l) < 2 ^ 32 := by
  rw [type_or_length fits, agteOfflenfld_eq, agteHasOff_eq, agteType_eq]
  refine ⟨by omega, ?_, by omega, by omega⟩
  have high : (k * 2 ^ 28 + l) / 2 ^ 31 = 0 := by omega
  rw [high]
  rfl

/-- Type bits and an end offset are recovered from an entry that stores it. -/
theorem offset_entry_parts {k stop : Nat} (isKind : k < 8) (fits : stop < 2 ^ 28) :
    agteOfflenfld (k * 2 ^ 28 ||| stop ||| agtentryHasOff) = stop ∧
      agteHasOff (k * 2 ^ 28 ||| stop ||| agtentryHasOff) = true ∧
      agteType (k * 2 ^ 28 ||| stop ||| agtentryHasOff) = k * 2 ^ 28 ∧
      (k * 2 ^ 28 ||| stop ||| agtentryHasOff) < 2 ^ 32 := by
  have word : k * 2 ^ 28 ||| stop ||| agtentryHasOff =
      2 ^ 31 + (k * 2 ^ 28 + stop) := by
    rw [type_or_length fits, Nat.or_comm]
    have sum := Nat.two_pow_add_eq_or_of_lt (show k * 2 ^ 28 + stop < 2 ^ 31 by omega) 1
    simpa [agtentryHasOff] using sum.symm
  rw [word, agteOfflenfld_eq, agteHasOff_eq, agteType_eq]
  refine ⟨by omega, ?_, by omega, by omega⟩
  have high : (2 ^ 31 + (k * 2 ^ 28 + stop)) / 2 ^ 31 = 1 := by omega
  rw [high]
  rfl

/-- Storing an entry keeps its type, and its length or end offset. -/
theorem storeAgtentry_ok {error : ConvertError} {loop next : EntryLoop} {buffer : Bytes}
    {entry : Nat} (stored : storeAgtentry error loop buffer entry = .ok next) :
    loop.totallen + agteOfflenfld entry < 2 ^ 28 ∧
    ∃ word, next = {
        buffer := copyToBuffer buffer loop.agtentryOffset (encodeLE 4 word)
        agtentryOffset := loop.agtentryOffset + 4
        i := loop.i + 1
        totallen := loop.totallen + agteOfflenfld entry } ∧
      (entry < 2 ^ 32 → agteHasOff entry = false →
        word < 2 ^ 32 ∧ agteType word = agteType entry ∧
          EntryIs word loop.totallen (agteOfflenfld entry)) := by
  unfold storeAgtentry at stored
  simp only at stored
  by_cases tooLong : agtentryOfflenmask < loop.totallen + agteOfflenfld entry
  · rw [if_pos tooLong] at stored
    cases stored
  rw [if_neg tooLong] at stored
  injection stored with equal
  have fits : loop.totallen + agteOfflenfld entry < 2 ^ 28 := by
    rw [agtentryOfflenmask] at tooLong
    omega
  refine ⟨fits, _, equal.symm, fun small noOff => ?_⟩
  have kind : agteType entry = entry / 2 ^ 28 % 8 * 2 ^ 28 := agteType_eq entry
  split_ifs with stride
  · have parts := offset_entry_parts (k := entry / 2 ^ 28 % 8) (by omega) fits
    change agteType entry ||| _ ||| _ < _ ∧ _ = _ ∧ EntryIs (agteType entry ||| _ ||| _) _ _
    rw [← kind] at parts
    refine ⟨parts.2.2.2, parts.2.2.1, ?_⟩
    rw [EntryIs, if_pos parts.2.1]
    exact parts.1
  · exact ⟨small, rfl, by simp [EntryIs, noOff]⟩

end Entries

section Loops

/-- A buffer with `room` entries reserved between `front` and `data`. -/
structure LoopAt (loop : EntryLoop) (front : Bytes) (room : Nat) (data : Bytes) : Prop where
  buffer : loop.buffer = front ++ List.replicate (4 * room) 0 ++ data
  place : loop.agtentryOffset = front.length

/-- What converting a value leaves behind: the bytes `out` and the entry. -/
structure Written (buffer out : Bytes) (entry : Nat) (v : AgtypeValue) : Prop where
  length : agteOfflenfld entry = out.length
  noOff : agteHasOff entry = false
  fits : entry < 2 ^ 32
  node : ∀ base offset rest, offset % 4 = buffer.length % 4 → base.drop offset = out ++ rest →
    NodeAt (agteType entry) base offset out.length v

/-- Converting a value appends to the buffer; what it appends holds the value
unless it is too long for an entry. -/
def Converts (v : AgtypeValue) : Prop :=
  ∀ buffer buffer' entry, convertAgtypeValue buffer v = .ok (buffer', entry) →
    ∃ out, buffer' = buffer ++ out ∧ (out.length < 2 ^ 28 → Written buffer out entry v)

theorem copyToBuffer_room (front tail : Bytes) (room entry : Nat) :
    copyToBuffer (front ++ List.replicate (4 * (room + 1)) 0 ++ tail) front.length
        (encodeLE 4 entry) =
      front ++ encodeLE 4 entry ++ List.replicate (4 * room) 0 ++ tail := by
  have reserved : List.replicate (4 * (room + 1)) (0 : UInt8) =
      List.replicate 4 0 ++ List.replicate (4 * room) 0 := by
    rw [List.replicate_append_replicate]
    congr 1
    omega
  rw [copyToBuffer, reserved, length_encodeLE]
  simp [List.append_assoc, List.drop_append]

/-- A run of an entry loop tooLong some nodes, when it starts and ends like this. -/
def LoopRuns (loop final : EntryLoop) (vs : List AgtypeValue) : Prop :=
  ∀ front room data, LoopAt loop front (vs.length + room) data →
    ∃ entries more, LoopAt final (front ++ entriesBytes entries) room (data ++ more) ∧
      entries.length = vs.length ∧
      (front.length % 4 = 0 → loop.totallen = data.length →
        (data ++ more).length < 2 ^ 28 →
          SlotTable data.length vs entries more ∧ final.totallen = (data ++ more).length)

theorem LoopRuns.nil (loop : EntryLoop) : LoopRuns loop loop [] := by
  intro front room data shape
  rw [List.length_nil, Nat.zero_add] at shape
  refine ⟨[], [], by simpa [entriesBytes] using shape, rfl, fun _ total _ => ⟨.nil, ?_⟩⟩
  simpa using total

/-- One iteration: convert a node and store its entry. -/
theorem LoopRuns.cons {error : ConvertError} {loop next final : EntryLoop} {out : Bytes}
    {entry : Nat} {v : AgtypeValue} {vs : List AgtypeValue}
    (written : out.length < 2 ^ 28 → Written loop.buffer out entry v)
    (stored : storeAgtentry error loop (loop.buffer ++ out) entry = .ok next)
    (others : LoopRuns next final vs) : LoopRuns loop final (v :: vs) := by
  intro front room data shape
  obtain ⟨fits, word, equal, kept⟩ := storeAgtentry_ok stored
  have room' : (v :: vs).length + room = vs.length + room + 1 := by
    rw [List.length_cons]
    omega
  rw [room'] at shape
  have nextShape : LoopAt next (front ++ encodeLE 4 word) (vs.length + room) (data ++ out) := by
    subst equal
    refine ⟨?_, ?_⟩
    · rw [shape.buffer, List.append_assoc, shape.place]
      exact copyToBuffer_room front (data ++ out) (vs.length + room) word
    · simp [shape.place]
  obtain ⟨entries, more, finalShape, count, table⟩ := others _ _ _ nextShape
  refine ⟨word :: entries, out ++ more, ?_, by simp [count], fun aligned total short => ?_⟩
  · simpa [entriesBytes, List.append_assoc] using finalShape
  · simp only [List.length_append] at short
    have written := written (by omega)
    obtain ⟨small, kind, is⟩ := kept written.fits written.noOff
    rw [total, written.length] at is
    have rest := table (by simpa using aligned) (by simp [equal, total, written.length])
      (by simp only [List.length_append]; omega)
    rw [List.length_append] at rest
    refine ⟨.cons is small (fun base tail bytes => kind ▸ written.node base _ tail ?_ bytes)
      rest.1, ?_⟩
    · rw [shape.buffer]
      simp only [List.length_append, List.length_replicate]
      omega
    · simpa [List.append_assoc] using rest.2

theorem LoopRuns.append {first second third : EntryLoop} {vs ws : List AgtypeValue}
    (before : LoopRuns first second vs) (after : LoopRuns second third ws) :
    LoopRuns first third (vs ++ ws) := by
  intro front room data shape
  rw [List.length_append, Nat.add_assoc] at shape
  obtain ⟨entries, more, middle, count, table⟩ := before _ _ _ shape
  obtain ⟨entries', more', last, count', table'⟩ := after _ _ _ middle
  refine ⟨entries ++ entries', more ++ more', ?_, by simp [count, count'],
    fun aligned total short => ?_⟩
  · simpa [entriesBytes, List.append_assoc] using last
  · rw [← List.append_assoc] at short ⊢
    have shorter : (data ++ more).length < 2 ^ 28 := by
      simp only [List.length_append] at short ⊢
      omega
    obtain ⟨firstTable, firstTotal⟩ := table aligned total shorter
    obtain ⟨secondTable, secondTotal⟩ := table' (by simp; omega) firstTotal short
    rw [List.length_append] at secondTable
    exact ⟨firstTable.append secondTable, secondTotal⟩

end Loops

section Nodes

theorem length_padBufferToInt (buffer : Bytes) :
    (padBufferToInt buffer).length = intAlign buffer.length := by
  have le := le_intAlign buffer.length
  simp only [padBufferToInt, reserveFromBuffer, padlen, List.length_append,
    List.length_replicate]
  omega

theorem padlen_lt (buffer : Bytes) : padlen buffer < 4 := by
  have lt := intAlign_lt buffer.length
  rw [padlen]
  omega

/-- Data that a writer has padded start at the aligned offset. -/
theorem drop_intAlign {buffer base out rest : Bytes} {offset : Nat}
    (aligned : offset % 4 = buffer.length % 4)
    (bytes : base.drop offset = List.replicate (padlen buffer) 0 ++ out ++ rest) :
    base.drop (intAlign offset) = out ++ rest := by
  have le := le_intAlign offset
  have sum : intAlign offset = offset + padlen buffer := by
    have same := intAlign_sub_congr aligned
    rw [padlen]
    omega
  rw [sum, ← List.drop_drop, bytes, List.append_assoc,
    List.drop_left' (List.length_replicate)]

theorem loopAt_beginContainer (buffer : Bytes) (header count : Nat) :
    LoopAt (beginContainer buffer header count) (padBufferToInt buffer ++ encodeLE 4 header)
      count [] := by
  refine ⟨?_, rfl⟩
  simp [beginContainer, reserveFromBuffer]

/-- The bytes of a container, and its entry. -/
theorem container_written {error : ConvertError} {buffer buffer' : Bytes}
    {header entry : Nat} {final : EntryLoop} {vs : List AgtypeValue}
    (runs : LoopRuns (beginContainer buffer header vs.length) final vs)
    (ended : endContainer error buffer.length final = .ok (buffer', entry)) :
    ∃ entries data out, out = List.replicate (padlen buffer) 0 ++ containerBytes header entries data ∧
      buffer' = buffer ++ out ∧ out.length < 2 ^ 28 ∧
      entry = agtentryIsContainer ||| out.length ∧ SlotTable 0 vs entries data := by
  obtain ⟨entries, data, shape, count, table⟩ :=
    runs _ 0 [] (by simpa using loopAt_beginContainer buffer header vs.length)
  have whole : final.buffer = buffer ++
      (List.replicate (padlen buffer) 0 ++ containerBytes header entries data) := by
    rw [shape.buffer]
    simp [padBufferToInt, reserveFromBuffer, containerBytes, List.append_assoc]
  unfold endContainer at ended
  simp only at ended
  split_ifs at ended with tooLong
  injection ended with equal
  injection equal with bufferEq entryEq
  have total : final.buffer.length - buffer.length =
      (List.replicate (padlen buffer) 0 ++ containerBytes header entries data).length := by
    rw [whole, List.length_append]
    omega
  rw [total] at tooLong entryEq
  have short : (List.replicate (padlen buffer) 0 ++
      containerBytes header entries data).length < 2 ^ 28 := by
    rw [agtentryOfflenmask] at tooLong
    omega
  refine ⟨entries, data, _, rfl, bufferEq ▸ whole, short, entryEq.symm, (table ?_ rfl ?_).1⟩
  · rw [List.length_append, length_padBufferToInt, length_encodeLE]
    have aligned := intAlign_mod buffer.length
    omega
  · simp only [List.length_append, containerBytes] at short ⊢
    simp only [List.length_nil]
    omega

theorem converts_of_entry {v : AgtypeValue} (written : ∀ buffer, ∃ out entry,
    convertAgtypeValue buffer v = .ok (buffer ++ out, entry) ∧
      (out.length < 2 ^ 28 → Written buffer out entry v)) : Converts v := by
  intro buffer buffer' entry converted
  obtain ⟨out, entry', equal, spec⟩ := written buffer
  rw [equal] at converted
  cases converted
  exact ⟨out, rfl, spec⟩

theorem converts_null : Converts .null := by
  refine converts_of_entry fun buffer => ⟨[], agtentryIsNull, by simp [convertAgtypeValue], fun _ => ?_⟩
  exact ⟨by decide, by decide, by decide, fun _ _ _ _ _ => rfl⟩

theorem converts_bool (val : Bool) : Converts (.bool val) := by
  refine converts_of_entry fun buffer =>
    ⟨[], if val then agtentryIsBoolTrue else agtentryIsBoolFalse,
      by simp [convertAgtypeValue], fun _ => ?_⟩
  cases val <;> exact ⟨by decide, by decide, by decide, fun _ _ _ _ _ => rfl⟩

theorem written_string (buffer val : Bytes) (short : val.length < 2 ^ 28) :
    Written buffer val (agtentryIsString ||| val.length) (.string val) := by
  obtain ⟨length, noOff, type, fits⟩ := entry_parts (k := 0) (by decide) short
  refine ⟨length, noOff, fits, fun base offset rest _ bytes => ⟨type, rfl, ?_⟩⟩
  rw [bytes, List.take_left]

theorem converts_string (val : Bytes) : Converts (.string val) :=
  converts_of_entry fun buffer => ⟨val, _, rfl, written_string buffer val⟩

theorem converts_numeric (val : Numeric) : Converts (.numeric val) := by
  refine converts_of_entry fun buffer =>
    ⟨List.replicate (padlen buffer) 0 ++ val.image, _,
      by simp [convertAgtypeValue, padBufferToInt, reserveFromBuffer]; rfl, fun short => ?_⟩
  rw [List.length_append, List.length_replicate] at short
  obtain ⟨length, noOff, type, fits⟩ := entry_parts (k := 1) (by decide) short
  refine ⟨length.trans (by simp), noOff, fits, fun base offset rest aligned bytes =>
    ⟨type, ?_⟩⟩
  rw [drop_intAlign aligned bytes, List.take_left]

/-- The eight-byte scalars of the extended types. -/
theorem written_extended {buffer : Bytes} {header word : Nat} {v : AgtypeValue}
    (small : header < 2 ^ 32) (fitsWord : word < 2 ^ 64)
    (node : ∀ base offset length, readLE 4 base (intAlign offset) = header →
      readLE 8 base (intAlign offset + 4) = word →
      NodeAt agtentryIsAgtype base offset length v) :
    Written buffer (List.replicate (padlen buffer) 0 ++ (encodeLE 4 header ++ encodeLE 8 word))
      (agtentryIsAgtype ||| (padlen buffer + 8 + 4)) v := by
  have pad := padlen_lt buffer
  obtain ⟨length, noOff, type, fits⟩ :=
    entry_parts (k := 7) (l := padlen buffer + 8 + 4) (by decide) (by omega)
  refine ⟨length.trans (by simp), noOff, fits, fun base offset rest aligned bytes => ?_⟩
  have start := drop_intAlign aligned bytes
  have kind : agteType (agtentryIsAgtype ||| (padlen buffer + 8 + 4)) = agtentryIsAgtype := type
  rw [kind]
  refine node base offset _ ?_ ?_
  · have read := readLE_append [] (encodeLE 8 word ++ rest) (w := 4) small
    rw [← Nat.add_zero (intAlign offset), ← readLE_drop, start]
    simpa using read
  · have read := readLE_append (encodeLE 4 header) rest (w := 8) fitsWord
    rw [length_encodeLE] at read
    rw [← readLE_drop, start]
    exact read

theorem converts_integer (val : Int64) : Converts (.integer val) :=
  converts_of_entry fun buffer =>
    ⟨_, _, by simp only [convertAgtypeValue, agSerializeHeader, padBufferToInt,
        reserveFromBuffer, List.append_assoc],
      fun _ => written_extended (by decide) val.toUInt64.toNat_lt
        fun _ _ _ header word => ⟨rfl, header, word⟩⟩

theorem converts_float (val : Float8) : Converts (.float val) :=
  converts_of_entry fun buffer =>
    ⟨_, _, by simp only [convertAgtypeValue, agSerializeHeader, padBufferToInt,
        reserveFromBuffer, List.append_assoc],
      fun _ => written_extended (by decide) val.bits.toNat_lt
        fun _ _ _ header word => ⟨rfl, header, word⟩⟩

theorem loopRuns_elems {elems : List AgtypeValue} (children : ∀ elem ∈ elems, Converts elem)
    {loop final : EntryLoop} (converted : convertElems loop elems = .ok final) :
    LoopRuns loop final elems := by
  induction elems generalizing loop with
  | nil =>
      cases converted
      exact .nil _
  | cons elem rest inductionHypothesis =>
      obtain ⟨⟨buffer, entry⟩, first, later⟩ := bind_ok converted
      obtain ⟨next, stored, others⟩ := bind_ok later
      obtain ⟨out, rfl, written⟩ := children elem (by simp) _ _ _ first
      exact .cons written stored
        (inductionHypothesis (fun e inside => children e (by simp [inside])) others)

theorem loopRuns_values {pairs : List AgtypePair} (children : ∀ pair ∈ pairs, Converts pair.2)
    {loop final : EntryLoop} (converted : convertValues loop pairs = .ok final) :
    LoopRuns loop final (pairs.map Prod.snd) := by
  induction pairs generalizing loop with
  | nil =>
      cases converted
      exact .nil _
  | cons pair rest inductionHypothesis =>
      obtain ⟨⟨buffer, entry⟩, first, later⟩ := bind_ok converted
      obtain ⟨next, stored, others⟩ := bind_ok later
      obtain ⟨out, rfl, written⟩ := children pair (by simp) _ _ _ first
      exact .cons written stored
        (inductionHypothesis (fun p inside => children p (by simp [inside])) others)

theorem loopRuns_keys {keys : List Bytes} {loop final : EntryLoop}
    (converted : convertKeys loop keys = .ok final) :
    LoopRuns loop final (keys.map .string) := by
  induction keys generalizing loop with
  | nil =>
      cases converted
      exact .nil _
  | cons key rest inductionHypothesis =>
      obtain ⟨next, stored, others⟩ := bind_ok converted
      exact .cons (written_string loop.buffer key) stored (inductionHypothesis others)

theorem loopRuns_object {pairs : List AgtypePair} (children : ∀ pair ∈ pairs, Converts pair.2)
    {loop keys final : EntryLoop} (first : convertKeys loop (pairs.map Prod.fst) = .ok keys)
    (second : convertValues keys pairs = .ok final) :
    LoopRuns loop final ((pairs.map Prod.fst).map .string ++ pairs.map Prod.snd) :=
  (loopRuns_keys first).append (loopRuns_values children second)

theorem length_containerBytes (header : Nat) (entries : List Nat) (data : Bytes) :
    (containerBytes header entries data).length = 4 + 4 * entries.length + data.length := by
  simp [containerBytes, Nat.add_assoc]

/-- A container that is written holds its tree wherever it is put. -/
theorem written_container {buffer out : Bytes} {header : Nat} {entries : List Nat}
    {data : Bytes} {v : AgtypeValue} (nested : v.isScalar = false)
    (bytes : out = List.replicate (padlen buffer) 0 ++ containerBytes header entries data)
    (short : out.length < 2 ^ 28)
    (contents : ∀ rest, ContainerAt (containerBytes header entries data ++ rest) v) :
    Written buffer out (agtentryIsContainer ||| out.length) v := by
  obtain ⟨length, noOff, type, fits⟩ := entry_parts (k := 5) (by decide) short
  refine ⟨length, noOff, fits, fun base offset rest aligned memory => ?_⟩
  rw [nodeAt_container nested]
  rw [bytes] at memory
  exact ⟨type, drop_intAlign aligned memory ▸ contents rest⟩

theorem converts_array {rawScalar : Bool} {elems : List AgtypeValue}
    (children : ∀ elem ∈ elems, Converts elem) : Converts (.array rawScalar elems) := by
  intro buffer buffer' entry converted
  obtain ⟨final, loop, ended⟩ := bind_ok converted
  obtain ⟨entries, data, out, bytes, rfl, short, rfl, table⟩ :=
    container_written (loopRuns_elems children loop) ended
  refine ⟨out, rfl, fun _ => written_container rfl bytes short fun rest => ?_⟩
  refine arrayAt_containerBytes ?_ table rest
  rw [← table.length_entries]
  rw [bytes, List.length_append, length_containerBytes] at short
  omega

theorem converts_object {pairs : List AgtypePair} (children : ∀ pair ∈ pairs, Converts pair.2) :
    Converts (.object pairs) := by
  intro buffer buffer' entry converted
  obtain ⟨keys, first, later⟩ := bind_ok converted
  obtain ⟨final, second, ended⟩ := bind_ok later
  have runs := loopRuns_object children first second
  have count : 2 * pairs.length =
      ((pairs.map Prod.fst).map AgtypeValue.string ++ pairs.map Prod.snd).length := by
    simp
    omega
  rw [count] at runs
  obtain ⟨entries, data, out, bytes, rfl, short, rfl, table⟩ := container_written runs ended
  refine ⟨out, rfl, fun _ => written_container rfl bytes short fun rest => ?_⟩
  refine objectAt_containerBytes ?_ table rest
  have entryCount := table.length_entries
  rw [← count] at entryCount
  rw [bytes, List.length_append, length_containerBytes] at short
  omega

theorem padlen_agSerializeHeader (buffer : Bytes) (type : Nat) :
    padlen (agSerializeHeader buffer type) = 0 := by
  have aligned : (agSerializeHeader buffer type).length % 4 = 0 := by
    rw [agSerializeHeader, List.length_append, length_padBufferToInt, length_encodeLE]
    have mod := intAlign_mod buffer.length
    omega
  rw [padlen, intAlign_of_mod aligned, Nat.sub_self]

/-- An entity is a header followed by a container and padding. -/
theorem written_entity {buffer : Bytes} {header containerHeader : Nat} {entries : List Nat}
    {data : Bytes} {v : AgtypeValue} (small : header < 2 ^ 32)
    (contents : ∀ base offset length, readLE 4 base (intAlign offset) = header →
      (∃ rest, base.drop (intAlign offset + 4) =
        containerBytes containerHeader entries data ++ rest) →
      NodeAt agtentryIsAgtype base offset length v)
    {ended : Bytes × Nat}
    (bytes : ended.1 = agSerializeHeader buffer header ++
      containerBytes containerHeader entries data)
    (entry : ended.2 = agtentryIsContainer ||| (containerBytes containerHeader entries data).length)
    (fitsContainer : (containerBytes containerHeader entries data).length < 2 ^ 28) :
    ∃ out, (endEntity (padlen buffer) ended).1 = buffer ++ out ∧
      (out.length < 2 ^ 28 →
        Written buffer out (endEntity (padlen buffer) ended).2 v) := by
  obtain ⟨object, objectAe⟩ := ended
  simp only at bytes entry
  refine ⟨List.replicate (padlen buffer) 0 ++ (encodeLE 4 header ++
    containerBytes containerHeader entries data ++ List.replicate (padlen object) 0), ?_, ?_⟩
  · rw [endEntity, padBufferToInt, reserveFromBuffer, bytes]
    simp [agSerializeHeader, padBufferToInt, reserveFromBuffer, List.append_assoc]
  intro short
  simp only [List.length_append, List.length_replicate, length_encodeLE] at short
  have masked : agtentryOfflenmask &&& (objectAe + padlen object) =
      (containerBytes containerHeader entries data).length + padlen object := by
    have word : objectAe =
        5 * 2 ^ 28 + (containerBytes containerHeader entries data).length := by
      rw [entry]
      exact type_or_length (k := 5) fitsContainer
    have low : agtentryOfflenmask &&& (objectAe + padlen object) =
        (objectAe + padlen object) % 2 ^ 28 := by
      rw [Nat.and_comm]
      exact agteOfflenfld_eq _
    rw [low, word]
    omega
  obtain ⟨length, noOff, type, fits⟩ := entry_parts (k := 7)
    (l := padlen buffer + ((containerBytes containerHeader entries data).length +
      padlen object) + 4) (by decide) (by omega)
  have total : (endEntity (padlen buffer) (object, objectAe)).2 =
      agtentryIsAgtype ||| (padlen buffer + ((containerBytes containerHeader entries data).length +
        padlen object) + 4) := by
    rw [endEntity, masked]
  rw [total]
  refine ⟨length.trans ?_, noOff, fits, fun base offset rest aligned memory => ?_⟩
  · simp only [List.length_append, List.length_replicate, length_encodeLE]
    omega
  have start := drop_intAlign aligned memory
  have kind : agteType (agtentryIsAgtype ||| (padlen buffer +
      ((containerBytes containerHeader entries data).length + padlen object) + 4)) =
      agtentryIsAgtype := type
  rw [kind]
  refine contents base offset _ ?_ ⟨List.replicate (padlen object) 0 ++ rest, ?_⟩
  · have read := readLE_append [] (containerBytes containerHeader entries data ++
      List.replicate (padlen object) 0 ++ rest) (w := 4) small
    rw [← Nat.add_zero (intAlign offset), ← readLE_drop, start]
    simpa using read
  · rw [← List.drop_drop, start]
    simp [List.append_assoc, List.drop_left' (length_encodeLE 4 header)]

theorem converts_entity_object {pairs : List AgtypePair} {header : Nat} {v : AgtypeValue}
    (children : ∀ pair ∈ pairs, Converts pair.2) (small : header < 2 ^ 32)
    (node : ∀ base offset length, readLE 4 base (intAlign offset) = header →
      ObjectAt (base.drop (intAlign offset + 4)) pairs →
      NodeAt agtentryIsAgtype base offset length v)
    (definition : ∀ buffer, convertAgtypeValue buffer v = (do
      let start := agSerializeHeader buffer header
      let keys ← convertKeys
        (beginContainer start (objectHeader pairs.length) (2 * pairs.length))
        (pairs.map Prod.fst)
      let loop ← convertValues keys pairs
      return endEntity (padlen buffer) (← endContainer .objectTooLarge start.length loop))) :
    Converts v := by
  intro buffer buffer' entry converted
  rw [definition] at converted
  obtain ⟨keys, first, later⟩ := bind_ok converted
  obtain ⟨final, second, last⟩ := bind_ok later
  obtain ⟨ended, endedOk, result⟩ := bind_ok last
  have runs := loopRuns_object children first second
  have count : 2 * pairs.length =
      ((pairs.map Prod.fst).map AgtypeValue.string ++ pairs.map Prod.snd).length := by
    simp
    omega
  rw [count] at runs
  obtain ⟨entries, data, out, bytes, bufferEq, short, entryEq, table⟩ :=
    container_written runs endedOk
  rw [padlen_agSerializeHeader, List.replicate_zero, List.nil_append] at bytes
  subst bytes
  have few : pairs.length < 2 ^ 28 := by
    have entryCount := table.length_entries
    rw [← count] at entryCount
    rw [length_containerBytes] at short
    omega
  obtain ⟨out, appended, written⟩ := written_entity (v := v) small
    (fun base offset length isHeader ⟨rest, memory⟩ =>
      node base offset length isHeader (memory ▸ objectAt_containerBytes few table rest))
    bufferEq entryEq short
  cases result
  exact ⟨out, appended, written⟩

theorem converts_path {elems : List AgtypeValue} (children : ∀ elem ∈ elems, Converts elem) :
    Converts (.path elems) := by
  intro buffer buffer' entry converted
  obtain ⟨final, loop, last⟩ := bind_ok converted
  obtain ⟨ended, endedOk, result⟩ := bind_ok last
  obtain ⟨entries, data, out, bytes, bufferEq, short, entryEq, table⟩ :=
    container_written (loopRuns_elems children loop) endedOk
  rw [padlen_agSerializeHeader, List.replicate_zero, List.nil_append] at bytes
  subst bytes
  have few : elems.length < 2 ^ 28 := by
    rw [← table.length_entries]
    rw [length_containerBytes] at short
    omega
  obtain ⟨out, appended, written⟩ := written_entity (v := .path elems)
    (by decide : agtHeaderPath < 2 ^ 32)
    (fun base offset length isHeader ⟨rest, memory⟩ =>
      ⟨rfl, isHeader, memory ▸ arrayAt_containerBytes few table rest⟩)
    bufferEq entryEq short
  cases result
  exact ⟨out, appended, written⟩

/-- Every tree is written as memory that holds it. -/
theorem converts (v : AgtypeValue) : Converts v := by
  induction v using AgtypeValue.inductionOn with
  | null => exact converts_null
  | string val => exact converts_string val
  | numeric val => exact converts_numeric val
  | integer val => exact converts_integer val
  | float val => exact converts_float val
  | bool val => exact converts_bool val
  | vertex pairs children =>
      exact converts_entity_object children (by decide : agtHeaderVertex < 2 ^ 32)
        (fun _ _ _ header contents => ⟨rfl, header, contents⟩) fun _ => by
          rw [convertAgtypeValue]
  | edge pairs children =>
      exact converts_entity_object children (by decide : agtHeaderEdge < 2 ^ 32)
        (fun _ _ _ header contents => ⟨rfl, header, contents⟩) fun _ => by
          rw [convertAgtypeValue]
  | path elems children => exact converts_path children
  | array rawScalar elems children => exact converts_array children
  | object pairs children => exact converts_object children

end Nodes

section Roots

theorem drop_setVarsize (buffer : Bytes) :
    (setVarsize buffer).drop 4 = buffer.drop 4 := by
  simp [setVarsize, copyToBuffer, List.drop_left' (length_encodeLE 4 _)]

/-- The second check of its length bounds what a container has appended. -/
theorem convert_container_short {v : AgtypeValue} (nested : v.isScalar = false)
    {buffer buffer' : Bytes} {entry : Nat}
    (converted : convertAgtypeValue buffer v = .ok (buffer', entry)) :
    buffer'.length - buffer.length < 2 ^ 28 := by
  have checked {error : ConvertError} {loop : EntryLoop}
      (ended : endContainer error buffer.length loop = .ok (buffer', entry)) :
      buffer'.length - buffer.length < 2 ^ 28 := by
    unfold endContainer at ended
    simp only at ended
    split_ifs at ended with tooLong
    cases ended
    rw [agtentryOfflenmask] at tooLong
    omega
  cases v <;> cases nested
  case array rawScalar elems =>
    obtain ⟨loop, _, ended⟩ := bind_ok converted
    exact checked ended
  case object pairs =>
    obtain ⟨keys, _, later⟩ := bind_ok converted
    obtain ⟨loop, _, ended⟩ := bind_ok later
    exact checked ended

/-- The generic path writes a root container that holds the tree. -/
theorem containerAt_convertToAgtype {v : AgtypeValue} (nested : v.isScalar = false)
    {agtype : Bytes} (converted : convertToAgtype v = .ok agtype) :
    ContainerAt (agtype.drop 4) v := by
  obtain ⟨⟨buffer, entry⟩, value, result⟩ := bind_ok converted
  cases result
  obtain ⟨out, rfl, written⟩ := converts v _ _ _ value
  have short := convert_container_short nested value
  rw [List.length_append, Nat.add_sub_cancel_left] at short
  have memory : (setVarsize (reserveFromBuffer [] 4 ++ out)).drop 4 = out := by
    rw [drop_setVarsize]
    rfl
  rw [memory]
  have node := (written short).node out 0 [] rfl (by simp)
  exact ((nodeAt_container nested).mp node).2

/-- A root scalar with its entry and data holds the scalar. -/
theorem arrayAt_scalarAgtype {v : AgtypeValue} {entry : Nat} {data : Bytes}
    (is : EntryIs entry 0 data.length) (fits : entry < 2 ^ 32)
    (node : ∀ base rest, base = data ++ rest → NodeAt (agteType entry) base 0 data.length v) :
    ArrayAt ((scalarAgtype entry data).drop 4) true [v] := by
  have table : SlotTable 0 [v] [entry] (data ++ []) :=
    .cons is fits (fun base rest bytes => node base rest (by simpa using bytes)) .nil
  have contents := arrayAt_containerBytes (s := true) (by simp) table []
  have memory : (scalarAgtype entry data).drop 4 =
      containerBytes (arrayHeader true [v].length) [entry] (data ++ []) ++ [] := by
    rw [scalarAgtype, drop_setVarsize]
    simp [reserveFromBuffer, arrayHeader, agtFarray, agtFscalar]
  rw [memory]
  exact contents

theorem arrayAt_offset_entry {v : AgtypeValue} {k : Nat} {d : Bytes}
    (isKind : k < 8) (short : d.length < 2 ^ 28)
    (node : ∀ base rest, base = d ++ rest →
      NodeAt (k * 2 ^ 28) base 0 d.length v) :
    ArrayAt ((scalarAgtype (k * 2 ^ 28 ||| agtentryHasOff ||| d.length) d).drop 4)
      true [v] := by
  obtain ⟨length, hasOff, type, fits⟩ := offset_entry_parts isKind short
  rw [Nat.or_right_comm] at length hasOff type fits
  refine arrayAt_scalarAgtype ?_ fits fun base rest bytes => ?_
  · rw [EntryIs, if_pos hasOff, length, Nat.zero_add]
  · rw [type]
    exact node base rest bytes

theorem arrayAt_extended {v : AgtypeValue} {header word : Nat} (small : header < 2 ^ 32)
    (fitsWord : word < 2 ^ 64)
    (node : ∀ base, readLE 4 base (intAlign 0) = header →
      readLE 8 base (intAlign 0 + 4) = word → NodeAt agtentryIsAgtype base 0 12 v) :
    ArrayAt ((scalarAgtype (agtentryIsAgtype ||| agtentryHasOff ||| (4 + 8))
      (encodeLE 4 header ++ encodeLE 8 word)).drop 4) true [v] := by
  have length : (encodeLE 4 header ++ encodeLE 8 word).length = 4 + 8 := by simp
  have contents := arrayAt_offset_entry (v := v) (k := 7)
    (d := encodeLE 4 header ++ encodeLE 8 word) (by decide) (by rw [length]; decide)
  rw [length] at contents
  refine contents fun base rest bytes => node base ?_ ?_
  · rw [bytes]
    have read := readLE_append [] (encodeLE 8 word ++ rest) (w := 4) small
    simpa [intAlign] using read
  · rw [bytes]
    have read := readLE_append (encodeLE 4 header) rest (w := 8) fitsWord
    simpa [intAlign] using read

/-- The encoders of the root scalars write what the generic path would. -/
theorem containerAt_agtypeValueToAgtype {v : AgtypeValue} {agtype : Bytes}
    (converted : agtypeValueToAgtype v = .ok agtype) :
    ContainerAt (agtype.drop 4) (if v.isScalar then .array true [v] else v) := by
  cases v with
  | null => exact containerAt_convertToAgtype rfl converted
  | vertex pairs => exact containerAt_convertToAgtype rfl converted
  | edge pairs => exact containerAt_convertToAgtype rfl converted
  | path elems => exact containerAt_convertToAgtype rfl converted
  | array rawScalar elems => exact containerAt_convertToAgtype rfl converted
  | object pairs => exact containerAt_convertToAgtype rfl converted
  | integer val =>
      cases converted
      exact arrayAt_extended (by decide) val.toUInt64.toNat_lt
        fun _ header word => ⟨rfl, header, word⟩
  | float val =>
      cases converted
      exact arrayAt_extended (by decide) val.bits.toNat_lt
        fun _ header word => ⟨rfl, header, word⟩
  | bool val =>
      cases converted
      cases val
      · exact arrayAt_scalarAgtype (by unfold EntryIs; decide) (by decide) fun _ _ _ => rfl
      · exact arrayAt_scalarAgtype (by unfold EntryIs; decide) (by decide) fun _ _ _ => rfl
  | numeric val =>
      simp only [agtypeValueToAgtype, agtypeNumericToAgtype] at converted
      split_ifs at converted with tooLong
      cases converted
      rw [agtentryOfflenmask] at tooLong
      refine arrayAt_offset_entry (k := 1) (by decide) (by omega) fun base rest bytes =>
        ⟨rfl, ?_⟩
      rw [bytes]
      simp [intAlign]
  | string val =>
      simp only [agtypeValueToAgtype, agtypeStringToAgtype] at converted
      split_ifs at converted with tooLong
      cases converted
      rw [agtentryOfflenmask] at tooLong
      refine arrayAt_offset_entry (k := 0) (by decide) (by omega) fun base rest bytes =>
        ⟨rfl, rfl, ?_⟩
      rw [bytes]
      simp

/-- The container a value is stored as: a scalar becomes a raw scalar array. -/
def AgtypeValue.root (v : AgtypeValue) : AgtypeValue :=
  if v.isScalar then .array true [v] else v

theorem AgtypeValue.isScalar_root (v : AgtypeValue) : v.root.isScalar = false := by
  unfold AgtypeValue.root
  cases scalar : v.isScalar with
  | true => rfl
  | false => simpa using scalar

theorem readsBack_of_containerAt {v : AgtypeValue} (built : Built v) {container : Bytes}
    (contents : ContainerAt container v.root) : ReadsBack container v.root := by
  cases nested : v.isScalar with
  | true =>
      rw [AgtypeValue.root, nested, if_pos rfl] at contents ⊢
      exact readsBack_array (by simpa using built) (show 1 ≤ agtypeMaxElems by decide) contents
  | false =>
      rw [AgtypeValue.root, nested, if_neg (by decide)] at contents ⊢
      exact fun depth => readsTo_of_built depth v built nested container contents

/-- A serialization ends with one of the size-limit errors or gives a varlena
whose root container is read back as the tree. -/
def SerializesTo (result : Except ConvertError Bytes) (root : AgtypeValue) : Prop :=
  (∃ error, result = .error error) ∨
    ∃ agtype, result = .ok agtype ∧ ReadsBack (agtype.drop 4) root

/-- A tree that was put together by pushing is read back from what
`agtype_value_to_agtype` makes of it; for a root scalar the generic path and the
scalar's own encoder give containers that are read back alike. -/
theorem agtypeValueToAgtype_roundTrip {v : AgtypeValue} (pushed : BuiltByPush v) :
    SerializesTo (agtypeValueToAgtype v) v.root ∧
      SerializesTo (convertToAgtype v.root) v.root := by
  have built := built_of_builtByPush pushed
  constructor
  · cases converted : agtypeValueToAgtype v with
    | error error => exact .inl ⟨error, rfl⟩
    | ok agtype =>
        refine .inr ⟨agtype, rfl, readsBack_of_containerAt built ?_⟩
        exact containerAt_agtypeValueToAgtype converted
  · cases converted : convertToAgtype v.root with
    | error error => exact .inl ⟨error, rfl⟩
    | ok agtype =>
        refine .inr ⟨agtype, rfl, readsBack_of_containerAt built ?_⟩
        exact containerAt_convertToAgtype v.isScalar_root converted

/-- The object `{"a": 1}` as it is pushed, and the bytes of it. -/
theorem agtypeValueToAgtype_roundTrip_object :
    agtypeValueToAgtype (.object [([97], .integer 1)]) =
        .ok (encodeLE 4 128 ++ encodeLE 4 0x20000001 ++ encodeLE 4 0x80000001 ++
          encodeLE 4 0x7000000F ++ [97, 0, 0, 0] ++ encodeLE 4 0 ++ encodeLE 8 1) ∧
      SerializesTo (agtypeValueToAgtype (.object [([97], .integer 1)]))
        (.object [([97], .integer 1)]) := by
  refine ⟨by rfl, (agtypeValueToAgtype_roundTrip ?_).1⟩
  refine @BuiltByPush.pushed [.beginObject 1, .key [97], .value (.integer 1), .endObject] _ ?_ ?_ ?_
    rfl
  · simp [Token.leaf?, AgtypeValue.isScalar]
  · simpa [Token.leaf?] using BuiltByPush.integer 1
  · simp [Token.isRawArray]

end Roots

end Age.Agtype
