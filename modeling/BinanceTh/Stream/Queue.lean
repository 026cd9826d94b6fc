import BinanceTh.Stream
import Mathlib.Data.List.Nodup
import Mathlib.Logic.Function.Basic

/-!
# The queues of subscriptions

The queue of a `_Subscription` of `stream.py`: it drops its oldest item when it is full, and its
consumer is at its end once it gets a close or a fault. Also, the registry of the subscriptions by stream,
which both kinds of connections have, and what is offered to many of them at once.
-/

namespace BinanceTh

inductive StreamItem (α : Type) where
  | payload (a : α)
  /-- `_CLOSED`. -/
  | closed
  /-- `_StreamError` of a `BinanceThWebSocketError`. -/
  | fault (message : String)

/-- The consumer gets `StopAsyncIteration` or the error. -/
def StreamItem.isEnd {α : Type} : StreamItem α → Bool
  | .payload _ => false
  | .closed => true
  | .fault _ => true

def queueMaxsize : ℕ := 1024

/-- The queue of a `_Subscription`. -/
structure SubscriptionQueue (α : Type) where
  maxsize : ℕ := queueMaxsize
  items : List (StreamItem α) := []
  lagged : ℕ := 0
  /-- A close or a fault was delivered. -/
  ended : Bool := false

namespace SubscriptionQueue

variable {α : Type} {q q' : SubscriptionQueue α} {item : StreamItem α}

/-- `asyncio.Queue.full`: a maximal size of 0 is none. -/
def full (q : SubscriptionQueue α) : Bool := 0 < q.maxsize && q.maxsize ≤ q.items.length

def offer (q : SubscriptionQueue α) (item : StreamItem α) : SubscriptionQueue α :=
  if q.full then { q with items := q.items.tail ++ [item], lagged := q.lagged + 1 }
  else { q with items := q.items ++ [item] }

/-- `__anext__` with an item in the queue. -/
def next (q : SubscriptionQueue α) : Option (StreamItem α × SubscriptionQueue α) :=
  match q.items with
  | [] => none
  | item :: items => some (item, { q with items, ended := q.ended || item.isEnd })

/-- A close or a fault was delivered, or will be. -/
def HasEnd (q : SubscriptionQueue α) : Prop := q.ended = true ∨ ∃ item ∈ q.items, item.isEnd = true

/-- An empty queue of a consumer that got no end. -/
theorem not_hasEnd_nil (hended : q.ended = false) (hitems : q.items = []) : ¬ q.HasEnd := by
  unfold HasEnd
  simp [hended, hitems]

theorem items_offer (q : SubscriptionQueue α) (item : StreamItem α) :
    (q.offer item).items = (if q.full then q.items.tail else q.items) ++ [item] := by
  unfold offer
  split <;> rfl

theorem mem_offer (q : SubscriptionQueue α) (item : StreamItem α) :
    item ∈ (q.offer item).items := by
  rw [items_offer]
  exact List.mem_append_right _ (List.mem_singleton_self item)

theorem hasEnd_offer (h : item.isEnd = true) : (q.offer item).HasEnd :=
  .inr ⟨item, q.mem_offer item, h⟩

theorem HasEnd.next (h : q.HasEnd) (hnext : q.next = some (item, q')) : q'.HasEnd := by
  unfold SubscriptionQueue.next at hnext
  split at hnext
  · cases hnext
  · next head items hitems =>
    cases hnext
    rcases h with hended | ⟨x, hx, hend⟩
    · exact .inl (by simp [hended])
    · rw [hitems] at hx
      rcases List.mem_cons.1 hx with rfl | hx
      · exact .inl (by simp [hend])
      · exact .inr ⟨x, hx, hend⟩

end SubscriptionQueue

/-! ## Registries -/

/-- `_subs`. -/
abbrev Registry : Type := AList fun _ : String => List Subscription

namespace Registry

variable {subs : Registry} {sub sub' : Subscription}

def Has (subs : Registry) (sub : Subscription) : Prop := ∃ l ∈ subs.lookup sub.stream, sub ∈ l

def all (subs : Registry) : List Subscription := subs.entries.flatMap fun e => e.2

def ofStream (subs : Registry) (stream : String) : List Subscription := (subs.lookup stream).getD []

def add (subs : Registry) (sub : Subscription) : Registry :=
  subs.insert sub.stream (ofStream subs sub.stream ++ [sub])

/-- A stream without subscriptions is removed. -/
def remove (subs : Registry) (sub : Subscription) : Registry :=
  match subs.lookup sub.stream with
  | none => subs
  | some l =>
    if l.erase sub = [] then subs.erase sub.stream else subs.insert sub.stream (l.erase sub)

theorem not_has_empty : ¬ Has ∅ sub := by
  intro ⟨l, hl, _⟩
  cases hl

theorem Has.mem_all (h : Has subs sub) : sub ∈ all subs := by
  obtain ⟨l, hl, hsub⟩ := h
  exact List.mem_flatMap.2 ⟨⟨sub.stream, l⟩, AList.mem_lookup_iff.1 hl, hsub⟩

theorem Has.of_remove (h : Has (remove subs sub) sub') : Has subs sub' := by
  unfold remove at h
  split at h
  · exact h
  · next l hlookup =>
    obtain ⟨l', hl', hsub'⟩ := h
    by_cases hstream : sub'.stream = sub.stream
    · split at hl'
      · rw [hstream, AList.lookup_erase] at hl'
        cases hl'
      · rw [hstream, AList.lookup_insert, Option.mem_some_iff] at hl'
        subst hl'
        exact ⟨l, by rw [hstream]; exact hlookup, List.mem_of_mem_erase hsub'⟩
    · split at hl'
      · rw [AList.lookup_erase_ne hstream] at hl'
        exact ⟨l', hl', hsub'⟩
      · rw [AList.lookup_insert_ne hstream] at hl'
        exact ⟨l', hl', hsub'⟩

/-- No stream has an empty list, and a subscription occurs once, under its own stream. -/
structure WellFormed (subs : Registry) : Prop where
  nonempty : ∀ stream l, subs.lookup stream = some l → l ≠ []
  nodup : ∀ stream l, subs.lookup stream = some l → l.Nodup
  own : ∀ stream l, subs.lookup stream = some l → ∀ sub ∈ l, sub.stream = stream

theorem wellFormed_empty : WellFormed ∅ := by
  refine ⟨?_, ?_, ?_⟩ <;>
  · intro stream l hl
    cases hl

theorem WellFormed.nodup_ofStream (h : WellFormed subs) (stream : String) :
    (ofStream subs stream).Nodup := by
  unfold ofStream
  cases hlookup : subs.lookup stream with
  | none => exact List.nodup_nil
  | some l => exact h.nodup stream l hlookup

/-- To change one list, if what it becomes is in order. -/
theorem WellFormed.insert (h : WellFormed subs) {stream : String} {l : List Subscription}
    (hne : l ≠ []) (hnodup : l.Nodup) (hown : ∀ sub ∈ l, sub.stream = stream) :
    WellFormed (subs.insert stream l) := by
  have hlist : ∀ x l', (subs.insert stream l).lookup x = some l' →
      l' ≠ [] ∧ l'.Nodup ∧ ∀ sub ∈ l', sub.stream = x := by
    intro x l' hl'
    by_cases hx : x = stream
    · subst hx
      rw [AList.lookup_insert] at hl'
      obtain rfl := Option.some.inj hl'
      exact ⟨hne, hnodup, hown⟩
    · rw [AList.lookup_insert_ne hx] at hl'
      exact ⟨h.nonempty x l' hl', h.nodup x l' hl', h.own x l' hl'⟩
  exact ⟨fun x l' hl' => (hlist x l' hl').1, fun x l' hl' => (hlist x l' hl').2.1,
    fun x l' hl' => (hlist x l' hl').2.2⟩

theorem WellFormed.erase (h : WellFormed subs) (stream : String) :
    WellFormed (subs.erase stream) := by
  have hlookup : ∀ x l, (subs.erase stream).lookup x = some l → subs.lookup x = some l := by
    intro x l hl
    by_cases hx : x = stream
    · subst hx
      rw [AList.lookup_erase] at hl
      cases hl
    · rwa [AList.lookup_erase_ne hx] at hl
  exact ⟨fun x l hl => h.nonempty x l (hlookup x l hl), fun x l hl => h.nodup x l (hlookup x l hl),
    fun x l hl => h.own x l (hlookup x l hl)⟩

theorem WellFormed.add (h : WellFormed subs) (hnew : ¬ Has subs sub) : WellFormed (add subs sub) := by
  unfold Registry.add ofStream
  cases hlookup : subs.lookup sub.stream with
  | none =>
    refine h.insert (by simp) (by simp) ?_
    intro x hx
    rw [List.mem_singleton.1 hx]
  | some l =>
    refine h.insert (by simp) ?_ ?_
    · refine (h.nodup _ l hlookup).append (List.nodup_singleton sub) ?_
      rw [List.disjoint_singleton]
      exact fun hmem => hnew ⟨l, hlookup, hmem⟩
    · intro x hx
      rcases List.mem_append.1 hx with hx | hx
      · exact h.own _ l hlookup x hx
      · rw [List.mem_singleton.1 hx]

theorem WellFormed.remove (h : WellFormed subs) (sub : Subscription) :
    WellFormed (remove subs sub) := by
  unfold Registry.remove
  split
  · exact h
  · next l hlookup =>
    split
    · exact h.erase sub.stream
    · next hne =>
      refine h.insert hne ((h.nodup _ l hlookup).erase sub) ?_
      intro x hx
      exact h.own _ l hlookup x (List.mem_of_mem_erase hx)

/-- A subscription under its own stream is found there. -/
theorem WellFormed.has_of_mem (h : WellFormed subs) {stream : String}
    (hsub : sub ∈ ofStream subs stream) : Has subs sub := by
  unfold ofStream at hsub
  cases hlookup : subs.lookup stream with
  | none =>
    rw [hlookup] at hsub
    cases hsub
  | some l =>
    rw [hlookup] at hsub
    refine ⟨l, ?_, hsub⟩
    rw [h.own stream l hlookup sub hsub]
    exact hlookup

theorem Has.remove (h : Has subs sub') (hne : sub' ≠ sub) : Has (remove subs sub) sub' := by
  obtain ⟨l, hl, hmem⟩ := h
  unfold Registry.remove
  split
  · exact ⟨l, hl, hmem⟩
  · next l' hlookup =>
    by_cases hstream : sub'.stream = sub.stream
    · rw [hstream, hlookup, Option.mem_some_iff] at hl
      subst hl
      have hmem' : sub' ∈ l'.erase sub := (List.mem_erase_of_ne hne).2 hmem
      rw [if_neg (List.ne_nil_of_mem hmem')]
      exact ⟨l'.erase sub, by rw [hstream, AList.lookup_insert]; rfl, hmem'⟩
    · split
      · exact ⟨l, by rw [AList.lookup_erase_ne hstream]; exact hl, hmem⟩
      · exact ⟨l, by rw [AList.lookup_insert_ne hstream]; exact hl, hmem⟩

theorem has_add : Has (add subs sub) sub' ↔ sub' = sub ∨ Has subs sub' := by
  unfold Has add ofStream
  by_cases hstream : sub'.stream = sub.stream
  · rw [hstream, AList.lookup_insert]
    cases hlookup : subs.lookup sub.stream <;> simp [or_comm]
  · have hne : sub' ≠ sub := fun h => hstream (congrArg Subscription.stream h)
    rw [AList.lookup_insert_ne hstream]
    simp [hne]

end Registry

/-! ## Many queues -/

/-- The queue of each subscription. -/
abbrev Queues (α : Type) : Type := Subscription → SubscriptionQueue α

namespace Queues

variable {α : Type} {sub : Subscription} {item : StreamItem α}

def new : Queues α := fun _ => {}

def offerTo (queues : Queues α) (sub : Subscription) (item : StreamItem α) : Queues α :=
  Function.update queues sub ((queues sub).offer item)

def offerAll (queues : Queues α) (subs : List Subscription) (item : StreamItem α) : Queues α :=
  subs.foldl (fun queues sub => offerTo queues sub item) queues

/-- Each of the subscriptions gets the item once, and no other. -/
theorem offerAll_apply (subs : List Subscription) :
    ∀ queues : Queues α, subs.Nodup →
      offerAll queues subs item sub =
        if sub ∈ subs then (queues sub).offer item else queues sub := by
  induction subs with
  | nil => exact fun _ _ => (if_neg List.not_mem_nil).symm
  | cons head subs ih =>
    intro queues hnodup
    obtain ⟨hhead, hnodup⟩ := List.nodup_cons.1 hnodup
    have htail := ih (offerTo queues head item) hnodup
    change offerAll (offerTo queues head item) subs item sub = _
    by_cases heq : sub = head
    · subst heq
      rw [htail, if_neg hhead, if_pos List.mem_cons_self, offerTo, Function.update_self]
    · rw [htail, offerTo, Function.update_of_ne heq]
      simp [heq]

/-- To offer an end takes none away. -/
theorem hasEnd_offerTo (h : item.isEnd = true) (queues : Queues α) (sub' : Subscription)
    (hsub : sub = sub' ∨ (queues sub).HasEnd) : (offerTo queues sub' item sub).HasEnd := by
  unfold offerTo
  by_cases heq : sub = sub'
  · subst heq
    rw [Function.update_self]
    exact SubscriptionQueue.hasEnd_offer h
  · rw [Function.update_of_ne heq]
    exact hsub.resolve_left heq

theorem hasEnd_offerAll (h : item.isEnd = true) :
    ∀ (subs : List Subscription) (queues : Queues α), sub ∈ subs ∨ (queues sub).HasEnd →
      (offerAll queues subs item sub).HasEnd := by
  intro subs
  induction subs with
  | nil =>
    intro queues hsub
    exact hsub.resolve_left List.not_mem_nil
  | cons head subs ih =>
    intro queues hsub
    refine ih (offerTo queues head item) ?_
    rcases hsub with hmem | hend
    · rcases List.mem_cons.1 hmem with hhead | hmem
      · exact .inr (hasEnd_offerTo h queues head (.inl hhead))
      · exact .inl hmem
    · exact .inr (hasEnd_offerTo h queues head (.inr hend))

theorem hasEnd_next {queues : Queues α} {sub' : Subscription} {queue : SubscriptionQueue α}
    (h : (queues sub).HasEnd) (hnext : (queues sub').next = some (item, queue)) :
    (Function.update queues sub' queue sub).HasEnd := by
  by_cases heq : sub = sub'
  · subst heq
    rw [Function.update_self]
    exact h.next hnext
  · rw [Function.update_of_ne heq]
    exact h

end Queues

end BinanceTh
