import BinanceTh.OrderBook.Coverage
import BinanceTh.OrderBook.Safety

/-!
# A stream without gaps

The deltas of a stream are contiguous when each of them starts right after the one before. A
snapshot may lie anywhere: before a delta, inside it or after it. If it is not older than what the
stream starts after, then the next delta always reaches back to the book's last update
(`Reaches`), so that the tests of the synchronizer only ever drop what the snapshot has already.
One snapshot is taken, the newer deltas are applied in order (`run_gapFree`), and of each price the
last level written stays.
-/

namespace BinanceTh

/-- Each delta covers an update, and starts right after the delta before. -/
structure Contiguous (deltas : List DepthUpdateEvent) : Prop where
  covers : ∀ d ∈ deltas, d.firstUpdateId ≤ d.finalUpdateId
  chained : deltas.IsChain fun d d' => d'.firstUpdateId = d.finalUpdateId + 1

/-- The stream does not start past the update after `u`. -/
def Reaches (u : ℤ) (deltas : List DepthUpdateEvent) : Prop :=
  ∀ d, deltas.head? = some d → d.firstUpdateId ≤ u + 1

/-- The deltas that a book at update `u` does not have yet. -/
def newer (u : ℤ) (deltas : List DepthUpdateEvent) : List DepthUpdateEvent :=
  deltas.filter fun d => u < d.finalUpdateId

section Contiguous

variable {d : DepthUpdateEvent} {ds : List DepthUpdateEvent} {u : ℤ}

theorem Contiguous.tail (h : Contiguous (d :: ds)) : Contiguous ds where
  covers d' hd' := h.covers d' (List.mem_cons_of_mem d hd')
  chained := h.chained.of_cons

/-- What follows on a delta reaches back to it, and to whatever is newer. -/
theorem Contiguous.reaches_tail (h : Contiguous (d :: ds)) (hu : d.finalUpdateId ≤ u) :
    Reaches u ds := by
  intro d' hd'
  cases ds with
  | nil => cases hd'
  | cons d₁ ds =>
    obtain rfl := Option.some.inj hd'
    have hnext := (List.isChain_cons_cons.1 h.chained).1
    omega

theorem Contiguous.finalUpdateId_lt (h : Contiguous (d :: ds)) :
    ∀ d' ∈ ds, d.finalUpdateId < d'.finalUpdateId := by
  induction ds generalizing d with
  | nil => simp
  | cons d₁ ds ih =>
    have hnext := (List.isChain_cons_cons.1 h.chained).1
    have hcovers := h.tail.covers d₁ List.mem_cons_self
    intro d' hd'
    rcases List.mem_cons.1 hd' with rfl | hd'
    · omega
    · have hlater := ih h.tail d' hd'
      omega

theorem newer_eq_self (h : ∀ d' ∈ ds, u < d'.finalUpdateId) : newer u ds = ds := by
  unfold newer
  rw [List.filter_eq_self]
  simpa using h

/-- To a book at a delta's update and to one before it the same deltas are new. -/
theorem Contiguous.newer_tail (h : Contiguous (d :: ds)) (hu : u ≤ d.finalUpdateId) :
    newer d.finalUpdateId ds = newer u ds := by
  have hlt := h.finalUpdateId_lt
  rw [newer_eq_self hlt, newer_eq_self]
  intro d' hd'
  have hd := hlt d' hd'
  omega

end Contiguous

/-! ## Levels -/

/-- The last level of a price in a list. -/
def lastLevel (levels : List OrderBookEntry) (p : ℚ) : Option OrderBookEntry :=
  levels.reverse.find? fun e => e.price = p

theorem lastLevel_append (l₁ l₂ : List OrderBookEntry) (p : ℚ) :
    lastLevel (l₁ ++ l₂) p = (lastLevel l₂ p).or (lastLevel l₁ p) := by
  simp [lastLevel, List.find?_append]

theorem lastLevel_concat (l : List OrderBookEntry) (e : OrderBookEntry) (p : ℚ) :
    lastLevel (l ++ [e]) p = if e.price = p then some e else lastLevel l p := by
  rw [lastLevel_append]
  by_cases h : e.price = p <;> simp [lastLevel, h]

/-- The quantity at a price after a snapshot and the levels written since: the last one written,
none if that is 0, that of the snapshot if there is none. -/
def quantityAt (snapshot levels : List OrderBookEntry) (p : ℚ) : Option ℚ :=
  ((lastLevel levels p).map fun e => level e.quantity).getD
    ((lastLevel snapshot p).map OrderBookEntry.quantity)

namespace LocalOrderBook

theorem lookup_sideOf (levels : List OrderBookEntry) (p : ℚ) :
    (sideOf levels).lookup p = (lastLevel levels p).map OrderBookEntry.quantity := by
  induction levels using List.reverseRecOn with
  | nil => rfl
  | append_singleton levels e ih =>
    have hlast : sideOf (levels ++ [e]) = (sideOf levels).insert e.price e.quantity := by
      simp [sideOf]
    rw [hlast, lastLevel_concat]
    by_cases h : e.price = p
    · subst h
      simp
    · rw [AList.lookup_insert_ne (Ne.symm h), ih, if_neg h]

theorem lookup_applySide_eq (side : BookSide) (levels : List OrderBookEntry) (p : ℚ) :
    (applySide side levels).lookup p =
      ((lastLevel levels p).map fun e => level e.quantity).getD (side.lookup p) := by
  induction levels using List.reverseRecOn with
  | nil => rfl
  | append_singleton levels e ih =>
    have hlast : applySide side (levels ++ [e]) =
        if e.quantity = 0 then (applySide side levels).erase e.price
        else (applySide side levels).insert e.price e.quantity := by
      simp [applySide]
    rw [hlast, lastLevel_concat]
    have hwrite := congrFun (lookup_writeLevel (applySide side levels) e) p
    rw [hwrite]
    by_cases h : e.price = p
    · subst h
      simp
    · rw [Function.update_of_ne (Ne.symm h), ih, if_neg h]

theorem applySide_append (side : BookSide) (l₁ l₂ : List OrderBookEntry) :
    applySide side (l₁ ++ l₂) = applySide (applySide side l₁) l₂ := by
  simp [applySide]

/-- To apply deltas is to apply all their levels, side by side. -/
theorem foldl_apply_sides (book : LocalOrderBook) (deltas : List DepthUpdateEvent) :
    (deltas.foldl apply book).bids = applySide book.bids (deltas.flatMap fun d => d.bids) ∧
      (deltas.foldl apply book).asks = applySide book.asks (deltas.flatMap fun d => d.asks) := by
  induction deltas generalizing book with
  | nil => exact ⟨rfl, rfl⟩
  | cons d deltas ih =>
    obtain ⟨hbids, hasks⟩ := ih (book.apply d)
    rw [List.foldl_cons, List.flatMap_cons, List.flatMap_cons, applySide_append, applySide_append]
    exact ⟨hbids, hasks⟩

end LocalOrderBook

namespace OrderBookSynchronizer

open LocalOrderBook

variable {ε : Type}

/-! ## The run -/

/-- The yields of deltas that are applied one after the other. -/
def replay : LocalOrderBook → List DepthUpdateEvent → List Yield
  | _, [] => []
  | book, d :: ds => .applied d (book.apply d) :: replay (book.apply d) ds

theorem getLast?_replay (y : Yield) (ds : List DepthUpdateEvent) :
    (y :: replay y.book ds).getLast?.map Yield.book = some (ds.foldl apply y.book) := by
  induction ds generalizing y with
  | nil => rfl
  | cons d ds ih =>
    have hlater := ih (.applied d (y.book.apply d))
    rw [replay, List.getLast?_cons_cons]
    exact hlater

/-- A delta that covers an update and reaches back to the book leaves no gap. -/
theorem isGap_of_reaches {st : SyncState} {d : DepthUpdateEvent}
    (hback : d.firstUpdateId ≤ st.lastU + 1) (hfresh : st.lastU < d.finalUpdateId) :
    isGap st d = false := by
  unfold isGap
  split
  · simp only [Bool.not_eq_false', Bool.and_eq_true, decide_eq_true_eq]
    omega
  · rw [decide_eq_false_iff_not]
    omega

/-- The loop over contiguous deltas: it applies the newer ones, and takes no snapshot. -/
theorem loop_gapFree (symbol : String) (depth : ℕ → Except ε OrderBook)
    {deltas : List DepthUpdateEvent} (st : SyncState) (h : Contiguous deltas)
    (hreaches : Reaches st.lastU deltas) :
    loop symbol depth st deltas = (replay st.book (newer st.lastU deltas), .ok ()) ∧
      ∃ st', after symbol depth st deltas = .ok st' ∧ st'.fetched = st.fetched ∧
        st'.book = (newer st.lastU deltas).foldl apply st.book := by
  induction deltas generalizing st with
  | nil => exact ⟨rfl, st, rfl, rfl, rfl⟩
  | cons d ds ih =>
    by_cases hstale : d.finalUpdateId ≤ st.lastU
    · have hstep : onDelta symbol depth st d = .ok (none, st) := if_pos hstale
      have hnewer : newer st.lastU (d :: ds) = newer st.lastU ds :=
        List.filter_cons_of_neg (by simpa using hstale)
      obtain ⟨hloop, st', hafter, hrest⟩ := ih st h.tail (h.reaches_tail hstale)
      rw [hnewer]
      refine ⟨?_, st', after_cons_iff.2 ⟨_, st, hstep, hafter⟩, hrest⟩
      simp only [loop, hstep, hloop]
      rfl
    · have hfresh : st.lastU < d.finalUpdateId := by omega
      have hgap := isGap_of_reaches (hreaches d rfl) hfresh
      have hstep : onDelta symbol depth st d =
          .ok (some (.applied d (st.book.apply d)), applied st d) := by
        simp only [onDelta, if_neg hstale, hgap]
        rfl
      have hnewer : newer st.lastU (d :: ds) = d :: newer d.finalUpdateId ds := by
        rw [h.newer_tail hfresh.le]
        exact List.filter_cons_of_pos (by simpa using hfresh)
      have hback : Reaches (applied st d).lastU ds := h.reaches_tail (le_refl d.finalUpdateId)
      obtain ⟨hloop, st', hafter, hrest⟩ := ih (applied st d) h.tail hback
      rw [hnewer]
      refine ⟨?_, st', after_cons_iff.2 ⟨_, _, hstep, hafter⟩, hrest⟩
      simp only [loop, hstep, hloop]
      rfl

/-- **A stream without gaps.** One snapshot is taken; it and each newer delta are yielded, in this
order and nothing else, and the last book is the snapshot with the levels of these deltas written
over it. -/
theorem run_gapFree (symbol : String) (depth : ℕ → Except ε OrderBook) {s : OrderBook}
    {deltas : List DepthUpdateEvent} (hs : depth 0 = .ok s) (h : Contiguous deltas)
    (hreaches : Reaches s.lastUpdateId deltas) :
    let book := (LocalOrderBook.new symbol).seed s
    let fresh := newer s.lastUpdateId deltas
    run symbol depth deltas = (.seeded s book :: replay book fresh, .ok ()) ∧
      ∃ st, stateAfter symbol depth deltas = .ok st ∧ st.fetched = 1 ∧
        (Yield.seeded s book :: replay book fresh).getLast?.map Yield.book = some st.book ∧
        (∀ p, st.book.bids.lookup p = quantityAt s.bids (fresh.flatMap fun d => d.bids) p) ∧
        ∀ p, st.book.asks.lookup p = quantityAt s.asks (fresh.flatMap fun d => d.asks) p := by
  intro book fresh
  have hseed : reseed symbol depth 0 = .ok (s, ⟨1, book, s.lastUpdateId, true⟩) := by
    unfold reseed
    rw [hs]
    rfl
  obtain ⟨hloop, st, hafter, hfetched, hbook⟩ :=
    loop_gapFree symbol depth ⟨1, book, s.lastUpdateId, true⟩ h hreaches
  refine ⟨?_, st, ?_, hfetched, ?_, ?_, ?_⟩
  · simp only [run, hseed, hloop]
    rfl
  · rw [stateAfter, hseed]
    exact hafter
  · rw [hbook]
    exact getLast?_replay (.seeded s book) fresh
  · intro p
    rw [hbook, (foldl_apply_sides book _).1, lookup_applySide_eq]
    exact congrArg _ (lookup_sideOf s.bids p)
  · intro p
    rw [hbook, (foldl_apply_sides book _).2, lookup_applySide_eq]
    exact congrArg _ (lookup_sideOf s.asks p)

/-- A snapshot inside a delta: of the three deltas two are newer. -/
def cutSnapshot : OrderBook := ⟨10, [⟨5, 1⟩, ⟨4, 2⟩], [⟨6, 1⟩]⟩

def cutDeltas : List DepthUpdateEvent :=
  [⟨8, 9, [⟨5, 7⟩], []⟩, ⟨10, 12, [⟨5, 0⟩], [⟨6, 3⟩]⟩, ⟨13, 13, [], [⟨6, 4⟩]⟩]

theorem run_gapFree_cut :
    let depth : ℕ → Except Unit OrderBook := fun _ => .ok cutSnapshot
    ((run "BTCTHB" depth cutDeltas).1.length = 3 ∧ (run "BTCTHB" depth cutDeltas).2 = .ok ()) ∧
      ∃ st, stateAfter "BTCTHB" depth cutDeltas = .ok st ∧ st.fetched = 1 ∧
        st.book.bids.lookup 5 = none ∧ st.book.bids.lookup 4 = some 2 ∧
        st.book.asks.lookup 6 = some 4 := by
  intro depth
  have hcontig : Contiguous cutDeltas := ⟨by decide, by decide⟩
  have hreaches : Reaches cutSnapshot.lastUpdateId cutDeltas := by
    intro d hd
    obtain rfl := Option.some.inj hd
    decide
  obtain ⟨hrun, st, hstate, hfetched, -, hbids, hasks⟩ :=
    run_gapFree "BTCTHB" depth rfl hcontig hreaches
  refine ⟨?_, st, hstate, hfetched, ?_, ?_, ?_⟩
  · rw [hrun]
    exact ⟨rfl, rfl⟩
  · rw [hbids]
    decide
  · rw [hbids]
    decide
  · rw [hasks]
    decide

end OrderBookSynchronizer

end BinanceTh
