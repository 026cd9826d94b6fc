import BinanceTh.Lib.Transition
import BinanceTh.Stream.Queue

/-!
# What the ring of a subscription keeps

`offer` with the exceptions of the `asyncio.Queue` it uses, against the queue of `offer` in
`Stream.Queue` (`tryOffer_eq`), and a subscription with the history of its ring, which the code does
not keep: what was offered, what the consumer got, and what was dropped. An item is known by its
position among those offered, so that equal items are told apart.

The queue is the end of what was offered. What is not in it any more was received or lost, each
position once (`Accounts.settled`), and an item is lost by the offer that brings the capacity's
worth of items behind it (`Accounts.crowded`).
-/

namespace BinanceTh

open Transition

/-- `asyncio.QueueFull` and `asyncio.QueueEmpty`. -/
inductive QueueError where
  | full
  | empty
  deriving DecidableEq

namespace SubscriptionQueue

variable {α : Type} {q : SubscriptionQueue α} {item : StreamItem α}

def putNowait (q : SubscriptionQueue α) (item : StreamItem α) :
    Except QueueError (SubscriptionQueue α) :=
  if q.full then .error .full else .ok { q with items := q.items ++ [item] }

def getNowait (q : SubscriptionQueue α) :
    Except QueueError (StreamItem α × SubscriptionQueue α) :=
  match q.items with
  | [] => .error .empty
  | item :: items => .ok (item, { q with items })

/-- `get_nowait` with `QueueEmpty` suppressed. -/
def discardOldest (q : SubscriptionQueue α) : Except QueueError (SubscriptionQueue α) :=
  match q.getNowait with
  | .ok (_, q') => .ok q'
  | .error .empty => .ok q
  | .error .full => .error .full

/-- `offer` with its handlers. -/
def tryOffer (q : SubscriptionQueue α) (item : StreamItem α) :
    Except QueueError (SubscriptionQueue α) :=
  match q.putNowait item with
  | .error .full => do
    let q ← q.discardOldest
    let q ← q.putNowait item
    pure { q with lagged := q.lagged + 1 }
  | result => result

theorem discardOldest_eq (q : SubscriptionQueue α) :
    q.discardOldest = .ok { q with items := q.items.tail } := by
  unfold discardOldest getNowait
  obtain ⟨maxsize, items, lagged, ended⟩ := q
  cases items <;> rfl

theorem full_iff (hmax : 1 ≤ q.maxsize) : q.full = true ↔ q.maxsize ≤ q.items.length := by
  simp only [full, Bool.and_eq_true, decide_eq_true_eq]
  exact ⟨fun h => h.2, fun h => ⟨hmax, h⟩⟩

/-- An offer to a queue that is not past its size raises nothing. -/
theorem tryOffer_eq (hmax : 1 ≤ q.maxsize) (hlength : q.items.length ≤ q.maxsize)
    (item : StreamItem α) : q.tryOffer item = .ok (q.offer item) := by
  unfold tryOffer offer
  by_cases hfull : q.full = true
  · have hput : q.putNowait item = .error .full := if_pos hfull
    -- with one item less there is room
    have hroom : ¬ ({ q with items := q.items.tail } : SubscriptionQueue α).full = true := by
      have htail : q.items.tail.length = q.items.length - 1 := List.length_tail
      rw [full_iff (q := { q with items := q.items.tail }) hmax]
      dsimp only
      omega
    have hput' : ({ q with items := q.items.tail } : SubscriptionQueue α).putNowait item =
        .ok { q with items := q.items.tail ++ [item] } := if_neg hroom
    simp only [hput, discardOldest_eq, bind, Except.bind, hput', if_pos hfull]
    rfl
  · have hput : q.putNowait item = .ok { q with items := q.items ++ [item] } := if_neg hfull
    simp only [hput, if_neg hfull]

theorem maxsize_offer (q : SubscriptionQueue α) (item : StreamItem α) :
    (q.offer item).maxsize = q.maxsize := by
  unfold offer
  split <;> rfl

end SubscriptionQueue

/-! ## A subscription with its history -/

/-- An item that was dropped. -/
structure Loss (α : Type) where
  position : ℕ
  item : StreamItem α
  /-- How many items had been offered by then, with the one that took its place. -/
  offered : ℕ

structure Ring (α : Type) where
  queue : SubscriptionQueue α
  /-- Everything offered so far. -/
  offered : List (StreamItem α)
  /-- What the consumer got, each with its position. -/
  received : List (ℕ × StreamItem α)
  lost : List (Loss α)

inductive RingLabel (α : Type) where
  | offer (payload : α)
  | fault (message : String)
  | close
  /-- The consumer's `get` returns. -/
  | get

namespace Ring

variable {α : Type}

def new (maxsize : ℕ) : Ring α := ⟨{ maxsize }, [], [], []⟩

/-- The position of the oldest item in the queue. -/
def front (s : Ring α) : ℕ := s.offered.length - s.queue.items.length

/-- What an offer drops. -/
def dropped (s : Ring α) : List (Loss α) :=
  if s.queue.full then
    s.queue.items.head?.toList.map fun item => ⟨s.front, item, s.offered.length + 1⟩
  else []

def put (s : Ring α) (item : StreamItem α) : Option (Ring α) :=
  (s.queue.tryOffer item).toOption.map fun queue =>
    { s with queue, offered := s.offered ++ [item], lost := s.lost ++ s.dropped }

def step (s : Ring α) : RingLabel α → Option (Ring α)
  | .offer payload => s.put (.payload payload)
  | .fault message => s.put (.fault message)
  | .close => s.put .closed
  | .get => s.queue.next.map fun (item, queue) =>
    { s with queue, received := s.received ++ [(s.front, item)] }

def system (maxsize : ℕ) : System (Ring α) (RingLabel α) where
  init := new maxsize
  step := step

/-- The queue, what was received and what was lost, against what was offered. -/
structure Accounts (maxsize : ℕ) (s : Ring α) : Prop where
  length_le : s.queue.items.length ≤ maxsize
  suffix : s.queue.items <:+ s.offered
  received_sublist : (s.received.map Prod.snd).Sublist s.offered
  received_at : ∀ r ∈ s.received, s.offered[r.1]? = some r.2
  received_in_order : (s.received.map Prod.fst).Pairwise (· < ·)
  /-- The positions in front of the queue are those received and those lost. -/
  settled : (s.received.map Prod.fst ++ s.lost.map Loss.position).Perm (List.range s.front)
  lagged : s.queue.lagged = s.lost.length
  count : s.offered.length = s.received.length + s.queue.items.length + s.queue.lagged
  /-- When an item was lost, at least `maxsize` items had been offered after it. -/
  crowded : ∀ loss ∈ s.lost, s.offered[loss.position]? = some loss.item ∧
    loss.position + 1 + maxsize ≤ loss.offered ∧ loss.offered ≤ s.offered.length

/-- What is kept from step to step. -/
structure RingInv (maxsize : ℕ) (s : Ring α) : Prop where
  maxsize_eq : s.queue.maxsize = maxsize
  length_le : s.queue.items.length ≤ maxsize
  suffix : s.queue.items <:+ s.offered
  sublist : (s.received.map Prod.snd ++ s.queue.items).Sublist s.offered
  received_at : ∀ r ∈ s.received, s.offered[r.1]? = some r.2
  received_in_order : (s.received.map Prod.fst).Pairwise (· < ·)
  settled : (s.received.map Prod.fst ++ s.lost.map Loss.position).Perm (List.range s.front)
  lagged : s.queue.lagged = s.lost.length
  crowded : ∀ loss ∈ s.lost, s.offered[loss.position]? = some loss.item ∧
    loss.position + 1 + maxsize ≤ loss.offered ∧ loss.offered ≤ s.offered.length

variable {maxsize : ℕ} {s s' : Ring α} {item : StreamItem α}

theorem ringInv_new : (new maxsize : Ring α).RingInv maxsize where
  maxsize_eq := rfl
  length_le := Nat.zero_le _
  suffix := List.suffix_rfl
  sublist := List.Sublist.refl _
  received_at _ h := absurd h List.not_mem_nil
  received_in_order := .nil
  settled := List.Perm.refl _
  lagged := rfl
  crowded _ h := absurd h List.not_mem_nil

namespace RingInv

variable (h : s.RingInv maxsize)

include h

theorem front_add_length : s.front + s.queue.items.length = s.offered.length :=
  Nat.sub_add_cancel h.suffix.length_le

theorem items_eq_drop : s.queue.items = s.offered.drop s.front :=
  List.suffix_iff_eq_drop.1 h.suffix

/-- The item at the front of the queue is the one offered at that position. -/
theorem getElem?_front {items : List (StreamItem α)} (hitems : s.queue.items = item :: items) :
    s.offered[s.front]? = some item := by
  have hdrop := h.items_eq_drop
  rw [hitems] at hdrop
  rw [← List.head?_drop, ← hdrop]
  rfl

theorem accounts : s.Accounts maxsize where
  length_le := h.length_le
  suffix := h.suffix
  received_sublist := (List.sublist_append_left _ _).trans h.sublist
  received_at := h.received_at
  received_in_order := h.received_in_order
  settled := h.settled
  lagged := h.lagged
  count := by
    have hsettled := h.settled.length_eq
    have hfront := h.front_add_length
    rw [List.length_append, List.length_map, List.length_map, List.length_range, ← h.lagged]
      at hsettled
    omega
  crowded := h.crowded

/-- What has been received lies before the front. -/
theorem lt_front {p : ℕ} (hp : p ∈ s.received.map Prod.fst) : p < s.front :=
  List.mem_range.1 (h.settled.subset (List.mem_append_left _ hp))

end RingInv

theorem getElem?_concat {l : List (StreamItem α)} {p : ℕ} {x : StreamItem α}
    (h : l[p]? = some x) (item : StreamItem α) : (l ++ [item])[p]? = some x := by
  obtain ⟨hlt, -⟩ := List.getElem?_eq_some_iff.1 h
  rw [List.getElem?_append_left hlt, h]

/-- What is not at the front stays there: one position more is settled. -/
theorem front_succ {items : List (StreamItem α)} (h : s.RingInv maxsize)
    (hitems : s.queue.items = item :: items) : s.offered.length - items.length = s.front + 1 := by
  have hfront := h.front_add_length
  rw [hitems, List.length_cons] at hfront
  omega

/-- An offer to a queue with room. -/
theorem RingInv.put_of_room (h : s.RingInv maxsize) (hmax : 1 ≤ maxsize)
    (hroom : ¬ s.queue.full = true) (item : StreamItem α) :
    RingInv maxsize { s with
      queue := s.queue.offer item, offered := s.offered ++ [item], lost := s.lost ++ s.dropped } := by
  have hitems : (s.queue.offer item).items = s.queue.items ++ [item] := by
    rw [SubscriptionQueue.items_offer, if_neg hroom]
  have hlength : s.queue.items.length < maxsize := by
    rw [SubscriptionQueue.full_iff (h.maxsize_eq ▸ hmax), h.maxsize_eq] at hroom
    exact not_le.1 hroom
  have hlost : s.lost ++ s.dropped = s.lost := by
    rw [dropped, if_neg hroom, List.append_nil]
  have hfront : (s.offered ++ [item]).length - (s.queue.items ++ [item]).length = s.front := by
    rw [List.length_append, List.length_append]
    exact Nat.add_sub_add_right _ _ _
  rw [hlost]
  constructor
  case maxsize_eq => exact (s.queue.maxsize_offer item).trans h.maxsize_eq
  case length_le =>
    dsimp only
    rw [hitems, List.length_append]
    exact hlength
  case suffix =>
    dsimp only
    rw [hitems]
    obtain ⟨l, hl⟩ := h.suffix
    exact ⟨l, by rw [← hl, List.append_assoc]⟩
  case sublist =>
    dsimp only
    rw [hitems, ← List.append_assoc]
    exact h.sublist.append_right _
  case received_at => exact fun r hr => getElem?_concat (h.received_at r hr) item
  case received_in_order => exact h.received_in_order
  case settled =>
    unfold front
    dsimp only
    rw [hitems, hfront]
    exact h.settled
  case lagged =>
    dsimp only
    rw [SubscriptionQueue.offer, if_neg hroom]
    exact h.lagged
  case crowded =>
    intro loss hloss
    obtain ⟨hat, hcrowded, hle⟩ := h.crowded loss hloss
    refine ⟨getElem?_concat hat item, hcrowded, hle.trans ?_⟩
    rw [List.length_append]
    exact Nat.le_add_right _ _

/-- An offer to a full queue loses the item at its front. -/
theorem RingInv.put_of_full (h : s.RingInv maxsize) (hmax : 1 ≤ maxsize)
    (hfull : s.queue.full = true) (item : StreamItem α) :
    RingInv maxsize { s with
      queue := s.queue.offer item, offered := s.offered ++ [item], lost := s.lost ++ s.dropped } := by
  have hlength : maxsize ≤ s.queue.items.length := by
    rwa [SubscriptionQueue.full_iff (h.maxsize_eq ▸ hmax), h.maxsize_eq] at hfull
  obtain ⟨head, items, hitems⟩ : ∃ head items, s.queue.items = head :: items :=
    List.exists_cons_of_length_pos (hmax.trans hlength)
  have hoffer : (s.queue.offer item).items = items ++ [item] := by
    rw [SubscriptionQueue.items_offer, if_pos hfull, hitems, List.tail_cons]
  have hdropped : s.dropped = [⟨s.front, head, s.offered.length + 1⟩] := by
    rw [dropped, if_pos hfull, hitems]
    rfl
  have hfront : (s.offered ++ [item]).length - (items ++ [item]).length = s.front + 1 := by
    rw [List.length_append, List.length_append, ← front_succ h hitems]
    exact Nat.add_sub_add_right _ _ _
  have hcount := h.front_add_length
  have hle := h.length_le
  rw [hitems, List.length_cons] at hlength hcount hle
  rw [hdropped]
  constructor
  case maxsize_eq => exact (s.queue.maxsize_offer item).trans h.maxsize_eq
  case length_le =>
    dsimp only
    rw [hoffer, List.length_append]
    exact hle
  case suffix =>
    dsimp only
    rw [hoffer]
    obtain ⟨l, hl⟩ := h.suffix
    exact ⟨l ++ [head], by rw [← hl, hitems, List.append_assoc, List.append_assoc]; rfl⟩
  case sublist =>
    dsimp only
    rw [hoffer, ← List.append_assoc]
    refine List.Sublist.append_right (List.Sublist.trans ?_ h.sublist) _
    rw [hitems]
    exact (List.sublist_cons_self head items).append_left _
  case received_at => exact fun r hr => getElem?_concat (h.received_at r hr) item
  case received_in_order => exact h.received_in_order
  case settled =>
    unfold front
    dsimp only
    rw [hoffer, hfront, List.map_append, ← List.append_assoc, List.range_succ]
    exact h.settled.append_right _
  case lagged =>
    dsimp only
    rw [SubscriptionQueue.offer, if_pos hfull, List.length_append]
    exact congrArg (· + 1) h.lagged
  case crowded =>
    intro loss hloss
    rw [List.length_append, List.length_singleton]
    rcases List.mem_append.1 hloss with hold | hnew
    · obtain ⟨hat, hcrowded, hle'⟩ := h.crowded loss hold
      exact ⟨getElem?_concat hat item, hcrowded, hle'.trans (Nat.le_succ _)⟩
    · obtain rfl := List.mem_singleton.1 hnew
      refine ⟨getElem?_concat (h.getElem?_front hitems) item, ?_, le_rfl⟩
      dsimp only
      omega

theorem RingInv.put (h : s.RingInv maxsize) (hmax : 1 ≤ maxsize) (hput : s.put item = some s') :
    s'.RingInv maxsize := by
  have hoffer := SubscriptionQueue.tryOffer_eq (h.maxsize_eq ▸ hmax) (h.maxsize_eq ▸ h.length_le) item
  rw [Ring.put, hoffer] at hput
  obtain rfl := Option.some.inj hput
  by_cases hfull : s.queue.full = true
  · exact h.put_of_full hmax hfull item
  · exact h.put_of_room hmax hfull item

theorem RingInv.get (h : s.RingInv maxsize) (hget : s.step .get = some s') :
    s'.RingInv maxsize := by
  obtain ⟨⟨head, queue⟩, hnext, rfl⟩ := Option.map_eq_some_iff.1 hget
  unfold SubscriptionQueue.next at hnext
  split at hnext
  · cases hnext
  · next head' items hitems =>
    obtain ⟨rfl, rfl⟩ := Prod.mk.inj (Option.some.inj hnext)
    have hfront := front_succ h hitems
    have hcount := h.length_le
    rw [hitems, List.length_cons] at hcount
    constructor
    case maxsize_eq => exact h.maxsize_eq
    case length_le => exact (Nat.le_succ _).trans hcount
    case suffix =>
      refine List.IsSuffix.trans ?_ h.suffix
      rw [hitems]
      exact List.suffix_cons _ _
    case sublist =>
      dsimp only
      rw [List.map_append, List.append_assoc]
      have hsublist := h.sublist
      rwa [hitems] at hsublist
    case received_at =>
      intro r hr
      rcases List.mem_append.1 hr with hold | hnew
      · exact h.received_at r hold
      · obtain rfl := List.mem_singleton.1 hnew
        exact h.getElem?_front hitems
    case received_in_order =>
      dsimp only
      rw [List.map_append, List.pairwise_append]
      refine ⟨h.received_in_order, List.pairwise_singleton _ _, fun p hp p' hp' => ?_⟩
      rw [List.mem_singleton.1 hp']
      exact h.lt_front hp
    case settled =>
      unfold front
      dsimp only
      rw [hfront, List.map_append, List.range_succ]
      refine List.Perm.trans ?_ (h.settled.append_right _)
      rw [List.append_assoc, List.append_assoc]
      exact List.perm_append_comm.append_left _
    case lagged => exact h.lagged
    case crowded => exact h.crowded

/-- In every run the accounts of the ring are in order, and no offer raises. -/
theorem run_accounts (hmax : 1 ≤ maxsize) {ls : List (RingLabel α)}
    (hrun : (system maxsize).run (new maxsize) ls = some s) :
    s.Accounts maxsize ∧ ∀ item, s.queue.tryOffer item = .ok (s.queue.offer item) := by
  have hinv : s.RingInv maxsize := by
    refine System.run_invariant (C := fun _ _ => True) ?_ ls ringInv_new
      (System.guarded_of_forall ls (fun _ _ => trivial) _) hrun
    intro s l s' h _ hstep
    cases l with
    | offer payload => exact h.put hmax hstep
    | fault message => exact h.put hmax hstep
    | close => exact h.put hmax hstep
    | get => exact h.get hstep
  exact ⟨hinv.accounts, SubscriptionQueue.tryOffer_eq (hinv.maxsize_eq ▸ hmax)
    (hinv.maxsize_eq ▸ hinv.length_le)⟩

/-- Three items and a close for a ring of two, with one item taken. -/
def overflowing : List (RingLabel ℕ) := [.offer 1, .offer 2, .offer 3, .get, .close, .offer 4]

theorem run_accounts_overflowing :
    ∃ s, (system 2).run (new 2) overflowing = some s ∧ s.Accounts 2 ∧
      s.received = [(1, .payload 2)] ∧ s.queue.lagged = 2 := by
  obtain ⟨s, hrun, hreceived, hlagged⟩ : ∃ s, (system 2).run (new 2) overflowing = some s ∧
      s.received = [(1, .payload 2)] ∧ s.queue.lagged = 2 := ⟨_, rfl, rfl, rfl⟩
  exact ⟨s, hrun, (run_accounts (by decide) hrun).1, hreceived, hlagged⟩

end Ring

end BinanceTh
