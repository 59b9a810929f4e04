import Age.Agtype.Binary.Layout

/-!
# Tables of entries

A container is a header, one entry for each child, and the data of the children
one after the other.  Every writer fills such a table entry by entry; this
module says what a filled table means.
-/

namespace Age.Agtype

open Lib

/-- The bytes of a list of entries. -/
def entriesBytes (entries : List Nat) : Bytes := entries.flatMap (encodeLE 4)

@[simp]
theorem length_entriesBytes (entries : List Nat) :
    (entriesBytes entries).length = 4 * entries.length := by
  simp [entriesBytes, List.length_flatMap, Nat.mul_comm]

/-- A container in memory, from its parts. -/
def containerBytes (header : Nat) (entries : List Nat) (data : Bytes) : Bytes :=
  encodeLE 4 header ++ entriesBytes entries ++ data

theorem containerHeader_containerBytes {header : Nat} (fits : header < 2 ^ 32)
    (entries : List Nat) (data rest : Bytes) :
    containerHeader (containerBytes header entries data ++ rest) = header := by
  have read := readLE_append (w := 4) [] (entriesBytes entries ++ data ++ rest)
    (n := header) fits
  simpa [containerHeader, containerBytes] using read

theorem containerChild_containerBytes {h : Nat} {e : List Nat} {d r : Bytes}
    (fits : ∀ entry ∈ e, entry < 2 ^ 32) (i : Nat) (inside : i < e.length) :
    containerChild (containerBytes h e d ++ r) i = e[i] := by
  have split : containerBytes h e d ++ r =
      (encodeLE 4 h ++ entriesBytes (e.take i)) ++ encodeLE 4 e[i] ++
        (entriesBytes (e.drop (i + 1)) ++ d ++ r) := by
    have parts : entriesBytes e = entriesBytes (e.take i) ++
        (encodeLE 4 e[i] ++ entriesBytes (e.drop (i + 1))) := by
      rw [entriesBytes, entriesBytes, entriesBytes, ← List.flatMap_cons, ← List.flatMap_append,
        List.cons_getElem_drop_succ, List.take_append_drop]
    simp [containerBytes, parts, List.append_assoc]
  have place : (encodeLE 4 h ++ entriesBytes (e.take i)).length = 4 + 4 * i := by
    simp [Nat.min_eq_left inside.le]
  rw [containerChild, split, ← place]
  exact readLE_append _ _ (fits _ (List.getElem_mem inside))

theorem dataProper_containerBytes (header : Nat) (entries : List Nat) (data rest : Bytes) :
    dataProper (containerBytes header entries data ++ rest) entries.length = data ++ rest := by
  have place : (encodeLE 4 header ++ entriesBytes entries).length = 4 + 4 * entries.length := by
    simp
  rw [dataProper, ← place, containerBytes, List.append_assoc, List.drop_left]

/-- Entries and data of nodes laid out one after the other, from `offset` on. -/
inductive SlotTable : (offset : Nat) → List AgtypeValue → List Nat → Bytes → Prop where
  | nil {offset : Nat} : SlotTable offset [] [] []
  | cons {offset entry : Nat} {v : AgtypeValue} {vs : List AgtypeValue} {entries : List Nat}
      {out data : Bytes} : EntryIs entry offset out.length → entry < 2 ^ 32 →
      (∀ base rest, base.drop offset = out ++ rest →
        NodeAt (agteType entry) base offset out.length v) →
      SlotTable (offset + out.length) vs entries data →
      SlotTable offset (v :: vs) (entry :: entries) (out ++ data)

namespace SlotTable

variable {offset : Nat} {vs : List AgtypeValue} {entries : List Nat} {data : Bytes}

theorem length_entries (table : SlotTable offset vs entries data) :
    entries.length = vs.length := by
  induction table with
  | nil => rfl
  | cons _ _ _ _ inductionHypothesis => simp [inductionHypothesis]

theorem entry_lt (table : SlotTable offset vs entries data) :
    ∀ entry ∈ entries, entry < 2 ^ 32 := by
  induction table with
  | nil => simp
  | cons _ fits _ _ inductionHypothesis =>
      intro entry membership
      rcases List.mem_cons.mp membership with rfl | later
      · exact fits
      · exact inductionHypothesis entry later

theorem append {vs' : List AgtypeValue} {entries' : List Nat} {data' : Bytes}
    (first : SlotTable offset vs entries data)
    (second : SlotTable (offset + data.length) vs' entries' data') :
    SlotTable offset (vs ++ vs') (entries ++ entries') (data ++ data') := by
  induction first with
  | nil => simpa using second
  | cons entry fits node _ inductionHypothesis =>
      rw [List.append_assoc]
      refine .cons entry fits node (inductionHypothesis ?_)
      rwa [List.length_append, ← Nat.add_assoc] at second

/-- A filled table lays out its nodes. -/
theorem elemsAt (table : SlotTable offset vs entries data) {container base r : Bytes}
    {index : Nat}
    (children : ∀ j (inside : j < entries.length),
      containerChild container (index + j) = entries[j])
    (bytes : base.drop offset = data ++ r) : ElemsAt container base index offset vs := by
  induction table generalizing index with
  | nil => trivial
  | @cons offset entry v vs entries out data is fits node _ inductionHypothesis =>
      have here : containerChild container index = entry := children 0 (by simp)
      rw [List.append_assoc] at bytes
      refine ⟨out.length, here ▸ is, here ▸ node base _ bytes, ?_⟩
      refine inductionHypothesis (fun j inside => ?_) ?_
      · have shift : index + 1 + j = index + (j + 1) := by omega
        rw [shift, children (j + 1) (by simpa using inside)]
        rfl
      · rw [← List.drop_drop, bytes, List.drop_left]

end SlotTable

/-- Keys and then values, laid out as an object has them. -/
theorem keysAt_valuesAt_of_elemsAt {container base : Bytes} {keys : List Bytes}
    {pairs : List AgtypePair} {index offset : Nat}
    (contents : ElemsAt container base index offset
      (keys.map .string ++ pairs.map Prod.snd)) :
    ∃ stop, KeysAt container base index offset keys stop ∧
      ValuesAt container base (index + keys.length) stop pairs := by
  induction keys generalizing index offset with
  | nil =>
      refine ⟨offset, rfl, ?_⟩
      rw [List.length_nil, Nat.add_zero]
      simp only [List.map_nil, List.nil_append] at contents
      induction pairs generalizing index offset with
      | nil => trivial
      | cons pair rest inductionHypothesis =>
          obtain ⟨length, entry, node, after⟩ := contents
          exact ⟨length, entry, node, inductionHypothesis after⟩
  | cons key rest inductionHypothesis =>
      obtain ⟨length, entry, ⟨kind, hasLength, bytes⟩, after⟩ := contents
      subst hasLength
      obtain ⟨stop, keys, values⟩ := inductionHypothesis after
      refine ⟨stop, ⟨entry, kind, bytes, keys⟩, ?_⟩
      have shift : index + (rest.length + 1) = index + 1 + rest.length := by omega
      rw [List.length_cons, shift]
      exact values

theorem arrayAt_containerBytes {s : Bool} {elems : List AgtypeValue}
    {entries : List Nat} {data : Bytes} (few : elems.length < 2 ^ 28)
    (table : SlotTable 0 elems entries data) (rest : Bytes) :
    ArrayAt (containerBytes (arrayHeader s elems.length) entries data ++ rest)
      s elems := by
  have word := arrayHeader_eq few s
  have small : arrayHeader s elems.length < 2 ^ 32 := by
    rw [word]
    split <;> omega
  refine ⟨⟨(containerHeader_containerBytes small _ _ _).trans word, few, by split <;> omega⟩, ?_⟩
  refine table.elemsAt (r := rest) (fun j inside => ?_) ?_
  · rw [Nat.zero_add]
    exact containerChild_containerBytes table.entry_lt j inside
  · rw [List.drop_zero, ← table.length_entries, dataProper_containerBytes]

theorem objectAt_containerBytes {pairs : List AgtypePair} {entries : List Nat} {data : Bytes}
    (few : pairs.length < 2 ^ 28)
    (table : SlotTable 0 ((pairs.map Prod.fst).map .string ++ pairs.map Prod.snd) entries data)
    (rest : Bytes) :
    ObjectAt (containerBytes (objectHeader pairs.length) entries data ++ rest) pairs := by
  have word := objectHeader_eq few
  have small : objectHeader pairs.length < 2 ^ 32 := by omega
  have count : entries.length = 2 * pairs.length := by
    rw [table.length_entries]
    simp
    omega
  have contents : ElemsAt (containerBytes (objectHeader pairs.length) entries data ++ rest)
      (dataProper (containerBytes (objectHeader pairs.length) entries data ++ rest)
        (2 * pairs.length)) 0 0
      ((pairs.map Prod.fst).map .string ++ pairs.map Prod.snd) := by
    refine table.elemsAt (r := rest) (fun j inside => ?_) ?_
    · rw [Nat.zero_add]
      exact containerChild_containerBytes table.entry_lt j inside
    · rw [List.drop_zero, ← count, dataProper_containerBytes]
  obtain ⟨stop, keys, values⟩ := keysAt_valuesAt_of_elemsAt contents
  refine ⟨⟨(containerHeader_containerBytes small _ _ _).trans word, few, by omega⟩,
    stop, keys, ?_⟩
  simpa using values

end Age.Agtype
