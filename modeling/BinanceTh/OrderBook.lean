import Mathlib.Data.List.AList
import Mathlib.Data.Rat.Defs
import Mathlib.Algebra.Order.Ring.Unbundled.Rat

/-!
# The local order book and its synchronizer (ADR-0007)

`LocalOrderBook` and `OrderBookSynchronizer.run`. Prices and quantities are `Decimal`s that the
code only compares, looks up and stores; those operations read the numeric value alone
(`Decimal("1.0")` and `Decimal("1.00")` are one dictionary key), so levels are rationals.

The synchronizer is an async generator: it fetches a snapshot, yields the seeded book, yields the
book after every delta it applies, and starts over with a new snapshot when a delta leaves a gap.
`Yield` records which of the two produced a yielded book. The book is one mutable object; an entry
of the result is its content at the moment of the yield.
-/

namespace BinanceTh

/-- One price level, of a snapshot or of a delta. -/
structure OrderBookEntry where
  price : ℚ
  quantity : ℚ
  deriving DecidableEq

/-- The REST depth snapshot. -/
structure OrderBook where
  lastUpdateId : ℤ
  bids : List OrderBookEntry
  asks : List OrderBookEntry
  deriving DecidableEq

/-- A diff-depth delta: `U`, `u` and the levels of both sides. -/
structure DepthUpdateEvent where
  firstUpdateId : ℤ
  finalUpdateId : ℤ
  bids : List OrderBookEntry
  asks : List OrderBookEntry
  deriving DecidableEq

/-- One side of a local book, a dictionary from prices to quantities. -/
abbrev BookSide := AList fun _ : ℚ => ℚ

structure LocalOrderBook where
  symbol : String
  bids : BookSide
  asks : BookSide
  lastAppliedU : ℤ

namespace LocalOrderBook

/-- A new book is empty and has applied nothing. -/
def new (symbol : String) : LocalOrderBook :=
  { symbol, bids := ∅, asks := ∅, lastAppliedU := -1 }

/-- The dictionary of a snapshot's levels; a later level of a price replaces an earlier one. -/
def sideOf (levels : List OrderBookEntry) : BookSide :=
  levels.foldl (fun side entry => side.insert entry.price entry.quantity) ∅

def seed (book : LocalOrderBook) (snapshot : OrderBook) : LocalOrderBook :=
  { book with
    bids := sideOf snapshot.bids
    asks := sideOf snapshot.asks
    lastAppliedU := snapshot.lastUpdateId }

def applySide (side : BookSide) (levels : List OrderBookEntry) : BookSide :=
  levels.foldl (fun side level =>
    if level.quantity = 0 then side.erase level.price
    else side.insert level.price level.quantity) side

def apply (book : LocalOrderBook) (delta : DepthUpdateEvent) : LocalOrderBook :=
  { book with
    bids := applySide book.bids delta.bids
    asks := applySide book.asks delta.asks
    lastAppliedU := delta.finalUpdateId }

/-- A price with its quantity. -/
abbrev Level : Type := ℚ × ℚ

/-- The level of a side at the price that `pick` picks, `None` if the side is empty. -/
def levelAt (pick : List ℚ → Option ℚ) (side : BookSide) : Option Level :=
  (pick side.keys).bind fun price => (side.lookup price).map fun quantity => (price, quantity)

/-- `best_bid`. -/
def bestBid (book : LocalOrderBook) : Option Level := levelAt List.max? book.bids

/-- `best_ask`. -/
def bestAsk (book : LocalOrderBook) : Option Level := levelAt List.min? book.asks

end LocalOrderBook

/-! ## The synchronizer -/

/-- A yielded book, with what produced it: a snapshot just fetched, or a delta just applied. -/
inductive Yield where
  | seeded (snapshot : OrderBook) (book : LocalOrderBook)
  | applied (delta : DepthUpdateEvent) (book : LocalOrderBook)

def Yield.book : Yield → LocalOrderBook
  | .seeded _ book => book
  | .applied _ book => book

/-- The local variables of `run` between two deltas, and how many snapshots it has fetched. -/
structure SyncState where
  fetched : ℕ
  book : LocalOrderBook
  lastU : ℤ
  first : Bool

namespace OrderBookSynchronizer

variable {ε : Type}

/-- The top of the outer loop: fetch a snapshot and seed a new book from it. The `n`-th call of
the depth provider answers `depth n`. -/
def reseed (symbol : String) (depth : ℕ → Except ε OrderBook) (n : ℕ) :
    Except ε (OrderBook × SyncState) := do
  let snapshot ← depth n
  let book := (LocalOrderBook.new symbol).seed snapshot
  pure (snapshot, { fetched := n + 1, book, lastU := snapshot.lastUpdateId, first := true })

/-- The delta does not follow on the book: it does not bracket the snapshot if it is the first one,
it starts past the next update id otherwise. -/
def isGap (st : SyncState) (delta : DepthUpdateEvent) : Bool :=
  if st.first then
    !(decide (delta.firstUpdateId ≤ st.lastU + 1) && decide (st.lastU + 1 ≤ delta.finalUpdateId))
  else decide (st.lastU + 1 < delta.firstUpdateId)

/-- One delta pulled from the stream: dropped when it is fully stale, lost to a new snapshot on a
gap, applied otherwise. -/
def onDelta (symbol : String) (depth : ℕ → Except ε OrderBook) (st : SyncState)
    (delta : DepthUpdateEvent) : Except ε (Option Yield × SyncState) :=
  if delta.finalUpdateId ≤ st.lastU then pure (none, st)
  else if isGap st delta then do
    let (snapshot, st) ← reseed symbol depth st.fetched
    pure (some (.seeded snapshot st.book), st)
  else
    let book := st.book.apply delta
    pure (some (.applied delta book),
      { st with book, lastU := book.lastAppliedU, first := false })

/-- The loop over the rest of the stream: the books it yields, and how it ends (with the stream, or
with an error of the depth provider). -/
def loop (symbol : String) (depth : ℕ → Except ε OrderBook) :
    SyncState → List DepthUpdateEvent → List Yield × Except ε Unit
  | _, [] => ([], .ok ())
  | st, delta :: deltas =>
    match onDelta symbol depth st delta with
    | .error e => ([], .error e)
    | .ok (y, st) =>
      let (ys, r) := loop symbol depth st deltas
      (y.toList ++ ys, r)

/-- `OrderBookSynchronizer.run` over a delta stream. -/
def run (symbol : String) (depth : ℕ → Except ε OrderBook) (deltas : List DepthUpdateEvent) :
    List Yield × Except ε Unit :=
  match reseed symbol depth 0 with
  | .error e => ([], .error e)
  | .ok (snapshot, st) =>
    let (ys, r) := loop symbol depth st deltas
    (.seeded snapshot st.book :: ys, r)

/-! ### What a delta does -/

variable {symbol : String} {depth : ℕ → Except ε OrderBook} {st st' : SyncState}
  {delta : DepthUpdateEvent} {y : Option Yield}

/-- The state after a delta that is applied. -/
def applied (st : SyncState) (delta : DepthUpdateEvent) : SyncState :=
  { st with book := st.book.apply delta, lastU := delta.finalUpdateId, first := false }

theorem reseed_ok {n : ℕ} {s : OrderBook} (h : reseed symbol depth n = .ok (s, st)) :
    depth n = .ok s ∧ st = ⟨n + 1, (LocalOrderBook.new symbol).seed s, s.lastUpdateId, true⟩ := by
  unfold reseed at h
  cases hd : depth n with
  | error e =>
    rw [hd] at h
    cases h
  | ok s' =>
    rw [hd] at h
    cases h
    exact ⟨rfl, rfl⟩

theorem onDelta_cases (h : onDelta symbol depth st delta = .ok (y, st')) :
    (delta.finalUpdateId ≤ st.lastU ∧ y = none ∧ st' = st) ∨
    (st.lastU < delta.finalUpdateId ∧ isGap st delta = true ∧
      ∃ s, reseed symbol depth st.fetched = .ok (s, st') ∧ y = some (.seeded s st'.book)) ∨
    (st.lastU < delta.finalUpdateId ∧ isGap st delta = false ∧ st' = applied st delta ∧
      y = some (.applied delta st'.book)) := by
  unfold onDelta at h
  split at h
  · next hstale =>
    cases h
    exact .inl ⟨hstale, rfl, rfl⟩
  · next hfresh =>
    have hlt : st.lastU < delta.finalUpdateId := by omega
    split at h
    · next hgap =>
      cases hr : reseed symbol depth st.fetched with
      | error e =>
        rw [hr] at h
        cases h
      | ok r =>
        obtain ⟨s, st₁⟩ := r
        rw [hr] at h
        cases h
        exact .inr (.inl ⟨hlt, hgap, s, rfl, rfl⟩)
    · next hgap =>
      cases h
      exact .inr (.inr ⟨hlt, by simpa using hgap, rfl, rfl⟩)

/-- A delta that is no gap reaches back to the book's last update. -/
theorem firstUpdateId_le_of_not_isGap (h : isGap st delta = false) :
    delta.firstUpdateId ≤ st.lastU + 1 := by
  unfold isGap at h
  split at h
  · simp only [Bool.not_eq_false', Bool.and_eq_true, decide_eq_true_eq] at h
    exact h.1
  · simpa using h

/-! ### Induction along a run -/

/-- What a snapshot establishes and an applied delta keeps holds at every yield of the loop. -/
theorem loop_induction {I : List Yield → SyncState → Prop} {deltas : List DepthUpdateEvent}
    (hseed : ∀ past n s st, reseed symbol depth n = .ok (s, st) → I (past ++ [.seeded s st.book]) st)
    (happly : ∀ past st, ∀ delta ∈ deltas, I past st → st.lastU < delta.finalUpdateId →
      isGap st delta = false →
      I (past ++ [.applied delta (applied st delta).book]) (applied st delta)) :
    ∀ past st, I past st → ∀ pre y post, (loop symbol depth st deltas).1 = pre ++ y :: post →
      ∃ st', I (past ++ pre ++ [y]) st' ∧ st'.book = y.book := by
  induction deltas with
  | nil =>
    intro past st _ pre y post heq
    cases pre <;> cases heq
  | cons delta deltas ih =>
    intro past st hI pre y post heq
    have htail := ih fun past st d hd => happly past st d (List.mem_cons_of_mem delta hd)
    -- the yield of this delta, or one of a later delta
    have hcons {y₁ : Yield} {st₁ : SyncState} (hy : I (past ++ [y₁]) st₁) (hbook : st₁.book = y₁.book)
        (heq : y₁ :: (loop symbol depth st₁ deltas).1 = pre ++ y :: post) :
        ∃ st', I (past ++ pre ++ [y]) st' ∧ st'.book = y.book := by
      cases pre with
      | nil =>
        obtain ⟨hhead, -⟩ := List.cons.inj heq
        subst hhead
        rw [List.append_nil]
        exact ⟨st₁, hy, hbook⟩
      | cons y₀ pre =>
        obtain ⟨hhead, hrest⟩ := List.cons.inj heq
        subst hhead
        have hlater := htail _ st₁ hy pre y post hrest
        rwa [List.append_assoc past] at hlater
    rw [loop] at heq
    cases hstep : onDelta symbol depth st delta with
    | error e =>
      rw [hstep] at heq
      cases pre <;> cases heq
    | ok r =>
      obtain ⟨y₁, st₁⟩ := r
      rw [hstep] at heq
      rcases onDelta_cases hstep with ⟨-, hy, hst⟩ | ⟨-, -, s, hr, hy⟩ | ⟨hlt, hgap, hst, hy⟩
      · subst hy hst
        exact htail past _ hI pre y post heq
      · subst hy
        exact hcons (hseed past _ s st₁ hr) rfl heq
      · subst hy hst
        exact hcons (happly past st delta List.mem_cons_self hI hlt hgap) rfl heq

/-- The same at every yield of a run. -/
theorem run_induction {I : List Yield → SyncState → Prop} {deltas : List DepthUpdateEvent}
    (hseed : ∀ past n s st, reseed symbol depth n = .ok (s, st) → I (past ++ [.seeded s st.book]) st)
    (happly : ∀ past st, ∀ delta ∈ deltas, I past st → st.lastU < delta.finalUpdateId →
      isGap st delta = false →
      I (past ++ [.applied delta (applied st delta).book]) (applied st delta))
    {pre : List Yield} {y : Yield} {post : List Yield}
    (h : (run symbol depth deltas).1 = pre ++ y :: post) :
    ∃ st, I (pre ++ [y]) st ∧ st.book = y.book := by
  unfold run at h
  cases hr : reseed symbol depth 0 with
  | error e =>
    rw [hr] at h
    cases pre <;> cases h
  | ok r =>
    obtain ⟨s, st⟩ := r
    rw [hr] at h
    have hfirst := hseed [] 0 s st hr
    cases pre with
    | nil =>
      obtain ⟨hhead, -⟩ := List.cons.inj h
      subst hhead
      exact ⟨st, hfirst, rfl⟩
    | cons y₀ pre =>
      obtain ⟨hhead, hrest⟩ := List.cons.inj h
      subst hhead
      exact loop_induction hseed happly _ st hfirst pre y post hrest

end OrderBookSynchronizer

end BinanceTh
