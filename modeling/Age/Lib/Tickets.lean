import Mathlib.Data.List.Perm.Basic
import Mathlib.Data.List.Basic

/-!
# Ranges handed out by a shared counter

Workers number the same items `0, 1, 2, ...` and take ranges of `size` numbers
from a counter by fetch-and-add.  A worker takes a range only when it has come
to the end of its last one, so a range is never behind the item it stands at.
-/

namespace Age.Tickets

/-- The range that a worker holds. -/
structure Claim where
  start : Nat
  stop : Nat
  deriving DecidableEq, Repr

/-- Take ranges until one reaches beyond an item; `none` when the worker waits
for its next fetch-and-add. -/
def claimUntil (size ordinal : Nat) : Claim → List Nat → Option (Claim × List Nat)
  | claim, [] => if ordinal < claim.stop then some (claim, []) else none
  | claim, ticket :: rest =>
      if ordinal < claim.stop then some (claim, ticket :: rest)
      else claimUntil size ordinal ⟨ticket, ticket + size⟩ rest

def ticketCovers (size : Nat) (tickets : List Nat) (ordinal : Nat) : Bool :=
  tickets.any fun ticket => ticket ≤ ordinal && ordinal < ticket + size

/-- An item is in the range a worker holds or in one of those to come. -/
def covers (size : Nat) (claim : Claim) (tickets : List Nat) (ordinal : Nat) : Bool :=
  (claim.start ≤ ordinal && ordinal < claim.stop) || ticketCovers size tickets ordinal

/-- What the ranges to come are when the worker stands at an item. -/
structure Ahead (size ordinal : Nat) (claim : Claim) (tickets : List Nat) : Prop where
  near : ordinal ≤ claim.stop
  apart : tickets.Pairwise fun a b => a + size ≤ b
  later : ∀ ticket ∈ tickets, claim.stop ≤ ticket

variable {size ordinal : Nat} {claim : Claim} {tickets : List Nat}

theorem ticketCovers_iff : ticketCovers size tickets ordinal = true ↔
    ∃ ticket ∈ tickets, ticket ≤ ordinal ∧ ordinal < ticket + size := by
  simp [ticketCovers]

theorem Ahead.not_covered (later : ∀ ticket ∈ tickets, claim.stop ≤ ticket)
    (inside : ordinal < claim.stop) : ticketCovers size tickets ordinal = false := by
  rw [← Bool.not_eq_true, ticketCovers_iff]
  rintro ⟨ticket, member, low, -⟩
  have bound := later ticket member
  omega

/-- A worker that goes on holds a range beyond the item; it owns the item
exactly if one of its ranges does. -/
theorem Ahead.claimUntil (ahead : Ahead size ordinal claim tickets) (positive : 0 < size)
    {next : Claim} {rest : List Nat}
    (taken : Tickets.claimUntil size ordinal claim tickets = some (next, rest)) :
    Ahead size (ordinal + 1) next rest ∧ ordinal < next.stop ∧
      decide (next.start ≤ ordinal) = covers size claim tickets ordinal ∧
      (∀ later, ordinal < later → covers size next rest later = covers size claim tickets later) ∧
      (next = claim ∨ ∃ ticket ∈ tickets, next = ⟨ticket, ticket + size⟩) ∧
      ∀ ticket ∈ rest, ticket ∈ tickets := by
  by_cases inside : ordinal < claim.stop
  · have same : next = claim ∧ rest = tickets := by
      cases tickets <;> simp only [Tickets.claimUntil, inside, if_true, Option.some.injEq,
        Prod.mk.injEq] at taken <;> exact ⟨taken.1.symm, taken.2.symm⟩
    obtain ⟨rfl, rfl⟩ := same
    refine ⟨⟨inside, ahead.apart, ahead.later⟩, inside, ?_, fun _ _ => rfl, .inl rfl,
      fun _ member => member⟩
    simp [covers, inside, Ahead.not_covered ahead.later inside]
  · have here : ordinal = claim.stop := Nat.le_antisymm ahead.near (Nat.not_lt.mp inside)
    cases tickets with
    | nil => simp [Tickets.claimUntil, inside] at taken
    | cons ticket others =>
        have from' := ahead.later ticket List.mem_cons_self
        have beyond : ordinal < ticket + size := by omega
        have same : next = ⟨ticket, ticket + size⟩ ∧ rest = others := by
          rw [Tickets.claimUntil, if_neg inside] at taken
          cases others <;> simp only [Tickets.claimUntil, beyond, if_true, Option.some.injEq,
            Prod.mk.injEq] at taken <;> exact ⟨taken.1.symm, taken.2.symm⟩
        obtain ⟨rfl, rfl⟩ := same
        obtain ⟨first, apart⟩ := List.pairwise_cons.mp ahead.apart
        refine ⟨⟨beyond, apart, first⟩, beyond, ?_, fun later after => ?_,
          .inr ⟨ticket, List.mem_cons_self, rfl⟩, fun _ member => List.mem_cons_of_mem _ member⟩
        · have none : ticketCovers size rest ordinal = false :=
            @Ahead.not_covered size ordinal ⟨ticket, ticket + size⟩ rest first beyond
          simp only [ticketCovers] at none
          simp [covers, ticketCovers, inside, none, beyond]
        · have past : ¬ later < claim.stop := by omega
          simp [covers, ticketCovers, past]

section Emitted

variable {α : Type}

/-- What a worker emits, item by item, when it emits the items it owns. -/
def emitted (owns : Nat → Bool) : Nat → List (List α) → List α
  | _, [] => []
  | ordinal, item :: rest => (if owns ordinal then item else []) ++ emitted owns (ordinal + 1) rest

theorem emitted_congr {owns other : Nat → Bool} {items : List (List α)} {ordinal : Nat}
    (same : ∀ later, ordinal ≤ later → owns later = other later) :
    emitted owns ordinal items = emitted other ordinal items := by
  induction items generalizing ordinal with
  | nil => rfl
  | cons item rest inductionHypothesis =>
      rw [emitted, emitted, same ordinal (Nat.le_refl _),
        inductionHypothesis fun later bound => same later (by omega)]

theorem flatMap_choice {β : Type} (workers : List β) (owns : β → Bool) (item : List α)
    (rest : β → List α) :
    (workers.flatMap fun worker => (if owns worker then item else []) ++ rest worker).Perm
      ((List.replicate (workers.countP owns) item).flatten ++ workers.flatMap rest) := by
  induction workers with
  | nil => simp
  | cons worker others inductionHypothesis =>
      rw [List.flatMap_cons, List.flatMap_cons, List.countP_cons]
      cases owns worker with
      | true =>
          simp only [if_true, List.replicate_succ, List.flatten_cons, List.append_assoc]
          refine List.Perm.append_left item ?_
          refine (inductionHypothesis.append_left (rest worker)).trans ?_
          rw [← List.append_assoc, ← List.append_assoc]
          exact List.perm_append_comm.append_right _
      | false =>
          simp only [Bool.false_eq_true, if_false, List.nil_append, Nat.add_zero]
          refine (inductionHypothesis.append_left (rest worker)).trans ?_
          rw [← List.append_assoc, ← List.append_assoc]
          exact List.perm_append_comm.append_right _

/-- When one worker owns each item that has something, the workers together emit
all items once. -/
theorem emitted_perm {β : Type} {workers : List β} {owns : β → Nat → Bool}
    {items : List (List α)} {ordinal : Nat}
    (one : ∀ (place : Nat) item, items[place]? = some item → item ≠ [] →
      (workers.countP fun worker => owns worker (ordinal + place)) = 1) :
    (workers.flatMap fun worker => emitted (owns worker) ordinal items).Perm items.flatten := by
  induction items generalizing ordinal with
  | nil => simp [emitted]
  | cons item rest inductionHypothesis =>
      refine (flatMap_choice workers (fun worker => owns worker ordinal) item _).trans ?_
      rw [List.flatten_cons]
      have others := @inductionHypothesis (ordinal + 1) fun place later found nonempty => by
        have here := one (place + 1) later found nonempty
        rwa [show ordinal + (place + 1) = ordinal + 1 + place by omega] at here
      refine List.Perm.append ?_ others
      cases item with
      | nil => simp
      | cons first others =>
          have here := one 0 (first :: others) rfl (by simp)
          rw [Nat.add_zero] at here
          rw [here]
          simp

end Emitted

section Shares

/-- The ranges of all workers: each worker's stand apart in order, and every
number below the counter is in a range of one worker. -/
structure Shares (size next : Nat) (workers : List (List Nat)) : Prop where
  apart : ∀ tickets ∈ workers, tickets.Pairwise fun a b => a + size ≤ b
  below : ∀ tickets ∈ workers, ∀ ticket ∈ tickets, ticket + size ≤ next
  one : ∀ ordinal < next, (workers.countP fun tickets => ticketCovers size tickets ordinal) = 1

theorem Shares.none (count : Nat) : Shares size 0 (List.replicate count []) := by
  refine ⟨fun tickets member => ?_, fun tickets member => ?_, fun ordinal bound => ?_⟩
  · rw [List.eq_of_mem_replicate member]
    exact List.Pairwise.nil
  · rw [List.eq_of_mem_replicate member]
    simp
  · omega

theorem Shares.ahead {next : Nat} {workers : List (List Nat)} (shares : Shares size next workers)
    {tickets : List Nat} (member : tickets ∈ workers) : Ahead size 0 ⟨0, 0⟩ tickets :=
  ⟨Nat.le_refl _, shares.apart tickets member, fun _ _ => Nat.zero_le _⟩

theorem ticketCovers_append (ticket : Nat) :
    ticketCovers size (tickets ++ [ticket]) ordinal =
      (ticketCovers size tickets ordinal || (ticket ≤ ordinal && ordinal < ticket + size)) := by
  simp [ticketCovers]

/-- One fetch-and-add. -/
theorem Shares.give {next : Nat} {workers : List (List Nat)} (shares : Shares size next workers)
    {worker : Nat} (inside : worker < workers.length) :
    Shares size (next + size) (workers.set worker (workers[worker] ++ [next])) := by
  have isMember := List.getElem_mem inside
  refine ⟨fun tickets member => ?_, fun tickets member ticket isTicket => ?_,
    fun ordinal bound => ?_⟩
  · rcases List.mem_or_eq_of_mem_set member with old | rfl
    · exact shares.apart tickets old
    · rw [List.pairwise_append]
      refine ⟨shares.apart _ isMember, List.pairwise_singleton _ _, fun a inA b inB => ?_⟩
      rw [List.mem_singleton.mp inB]
      exact shares.below _ isMember a inA
  · rcases List.mem_or_eq_of_mem_set member with old | rfl
    · have bound := shares.below tickets old ticket isTicket
      omega
    · rcases List.mem_append.mp isTicket with old | new
      · have bound := shares.below _ isMember ticket old
        omega
      · exact Nat.le_of_eq (by rw [List.mem_singleton.mp new])
  · rw [List.countP_set inside, ticketCovers_append]
    by_cases before : ordinal < next
    · have notNew : (decide (next ≤ ordinal) && decide (ordinal < next + size)) = false := by
        simp
        omega
      rw [notNew, Bool.or_false, shares.one ordinal before]
      cases covered : ticketCovers size workers[worker] ordinal with
      | false => simp
      | true => simp
    · have new : (decide (next ≤ ordinal) && decide (ordinal < next + size)) = true := by
        simp
        omega
      have nobody {others : List Nat} (member : others ∈ workers) :
          ticketCovers size others ordinal = false := by
        rw [← Bool.not_eq_true, ticketCovers_iff]
        rintro ⟨ticket, isTicket, low, high⟩
        have bound := shares.below others member ticket isTicket
        omega
      have zero : (workers.countP fun tickets => ticketCovers size tickets ordinal) = 0 := by
        rw [List.countP_eq_zero]
        intro others member
        simp [nobody member]
      rw [new, Bool.or_true, zero]
      simp

end Shares

end Age.Tickets
