import BinanceTh.OrderBook.Safety
import Mathlib.Data.List.MinMax
import Mathlib.Tactic.NormNum

/-!
# The top of the book

A snapshot with a limit lists the best levels of each side only, and a delta only the prices that
change. A level that is in neither is unknown to the book, and comes to the top of the exchange's
side once all the better ones have been removed. So a book has the exchange's best bid and ask
exactly as long as these are at prices that its snapshot covers or that a delta has listed since
(`run_top_iff`).
-/

namespace BinanceTh

open Replica

/-- The best `limit` levels of a side, all of them if there are fewer; `noWorse p p'` orders the
prices of the side. -/
structure TopLevels (noWorse : ℚ → ℚ → Prop) (qty : ℚ → ℚ) (limit : ℕ)
    (levels : List OrderBookEntry) : Prop where
  listed : ∀ e ∈ levels, e.quantity = qty e.price ∧ e.quantity ≠ 0
  nodup : (levels.map (·.price)).Nodup
  length_le : levels.length ≤ limit
  complete : levels.length < limit → ∀ p, qty p ≠ 0 → ∃ e ∈ levels, e.price = p
  best : ∀ p, qty p ≠ 0 → (∃ e ∈ levels, e.price = p) ∨ ∀ e ∈ levels, noWorse e.price p

/-- A bid is no worse than another when it is at least as high. -/
def bidNoWorse (p p' : ℚ) : Prop := p' ≤ p

/-- An ask is no worse than another when it is at most as high. -/
def askNoWorse (p p' : ℚ) : Prop := p ≤ p'

/-- A snapshot of the best `limit` levels per side of the exchange's book at its `lastUpdateId`. -/
structure TopSnapshotOf (H : History) (limit : ℕ) (s : OrderBook) : Prop where
  bids : TopLevels bidNoWorse (H.bids s.lastUpdateId) limit s.bids
  asks : TopLevels askNoWorse (H.asks s.lastUpdateId) limit s.asks

/-- A list of fewer than `limit` levels is the whole side. -/
def extentOf (limit : ℕ) (levels : List OrderBookEntry) : Extent :=
  if levels.length < limit then .complete else .truncated

/-- The prices of a side that the snapshot covers or a delta applied since has listed. -/
def knownPrices (noWorse : ℚ → ℚ → Prop) (limit : ℕ) (levels : List OrderBookEntry)
    (side : DepthUpdateEvent → List OrderBookEntry) (applied : List DepthUpdateEvent) : Set ℚ :=
  coveredRange noWorse (extentOf limit levels) levels ∪ touched side applied

/-- The levels of a side of the exchange. -/
def levelsOf (qty : ℚ → ℚ) (p : ℚ) : Option ℚ := level (qty p)

/-- The best bid and the best ask of the book are the exchange's at `last_applied_u`. -/
structure TopAgrees (H : History) (book : LocalOrderBook) : Prop where
  bid : Best bidNoWorse (levelsOf (H.bids book.lastAppliedU)) book.bestBid
  ask : Best askNoWorse (levelsOf (H.asks book.lastAppliedU)) book.bestAsk

/-- A side of the exchange is empty, or its best price is known. -/
def BestKnown (noWorse : ℚ → ℚ → Prop) (qty : ℚ → ℚ) (known : Set ℚ) : Prop :=
  (∀ p, levelsOf qty p = none) ∨ BestIn noWorse (levelsOf qty) known

/-! ## A side -/

section Side

variable {noWorse : ℚ → ℚ → Prop} {qty : ℚ → ℚ} {limit : ℕ} {levels : List OrderBookEntry}

/-- The best levels of a side are a snapshot of it. -/
theorem TopLevels.sideSnapshot (h : TopLevels noWorse qty limit levels)
    (hanti : ∀ p p', noWorse p p' → noWorse p' p → p = p') :
    SideSnapshot qty levels (coveredRange noWorse (extentOf limit levels) levels) where
  listed := h.listed
  complete p hp hq := by
    unfold extentOf at hp
    split at hp
    · next hlt => exact h.complete hlt p hq
    · -- no worse than a listed price, so listed itself
      obtain ⟨e, he, hle⟩ := hp
      rcases h.best p hq with hlisted | hworse
      · exact hlisted
      · exact ⟨e, he, hanti _ _ (hworse e he) hle⟩

/-- The best level of a dictionary. -/
theorem best_levelAt {pick : List ℚ → Option ℚ} (side : BookSide)
    (hpick : ∀ l p, pick l = some p → p ∈ l ∧ ∀ p' ∈ l, noWorse p p')
    (hnone : ∀ l, pick l = none → l = []) :
    Best noWorse (fun p => side.lookup p) (LocalOrderBook.levelAt pick side) := by
  have hmem (p : ℚ) : p ∈ side.keys ↔ side.lookup p ≠ none := by
    rw [← AList.mem_keys, ← AList.lookup_isSome, Option.isSome_iff_ne_none]
  unfold LocalOrderBook.levelAt
  cases hkeys : pick side.keys with
  | none =>
    intro p
    by_contra hp
    have hin := (hmem p).2 hp
    rw [hnone _ hkeys] at hin
    simp at hin
  | some p =>
    obtain ⟨hp, hbest⟩ := hpick _ p hkeys
    obtain ⟨q, hq⟩ := Option.ne_none_iff_exists'.1 ((hmem p).1 hp)
    simp only [Option.bind_some, hq, Option.map_some]
    exact ⟨hq, fun p' hp' => hbest p' ((hmem p').2 hp')⟩

end Side

theorem LocalOrderBook.best_bestBid (book : LocalOrderBook) :
    Best bidNoWorse (fun p => book.bids.lookup p) book.bestBid :=
  best_levelAt book.bids (fun _ _ h => List.max?_eq_some_iff.1 h)
    (fun _ h => List.max?_eq_none_iff.1 h)

theorem LocalOrderBook.best_bestAsk (book : LocalOrderBook) :
    Best askNoWorse (fun p => book.asks.lookup p) book.bestAsk :=
  best_levelAt book.asks (fun _ _ h => List.min?_eq_some_iff.1 h)
    (fun _ h => List.min?_eq_none_iff.1 h)

theorem bidNoWorse_antisymm (p p' : ℚ) (h : bidNoWorse p p') (h' : bidNoWorse p' p) : p = p' :=
  le_antisymm h' h

theorem askNoWorse_antisymm (p p' : ℚ) (h : askNoWorse p p') (h' : askNoWorse p' p) : p = p' :=
  le_antisymm h h'

theorem TopSnapshotOf.snapshotOf {H : History} {limit : ℕ} {s : OrderBook}
    (h : TopSnapshotOf H limit s) : SnapshotOf H s (extentOf limit s.bids) (extentOf limit s.asks) where
  bids := h.bids.sideSnapshot bidNoWorse_antisymm
  asks := h.asks.sideSnapshot askNoWorse_antisymm

/-! ## Books of a run -/

/-- A key of a side that has been written over is an old one or one of the change set. -/
theorem lookup_applySide_ne_none {side : BookSide} {levels : List OrderBookEntry} {p : ℚ}
    (h : (LocalOrderBook.applySide side levels).lookup p ≠ none) :
    side.lookup p ≠ none ∨ p ∈ keysOf (changesOf levels) := by
  have happly := congrFun (LocalOrderBook.lookup_applySide levels side) p
  by_cases hp : p ∈ keysOf (changesOf levels)
  · exact .inr hp
  · left
    rwa [happly, overlay_of_notMem hp] at h

/-- A side of the book has only prices of its snapshot and prices listed since. -/
def OnlyKnown (side : BookSide) (levels : List OrderBookEntry) (touched : Set ℚ) : Prop :=
  ∀ p, side.lookup p ≠ none → (∃ e ∈ levels, e.price = p) ∨ p ∈ touched

theorem onlyKnown_sideOf {levels : List OrderBookEntry} (h : ∀ e ∈ levels, e.quantity ≠ 0)
    (touched : Set ℚ) : OnlyKnown (LocalOrderBook.sideOf levels) levels touched := by
  intro p hp
  rw [LocalOrderBook.sideOf_eq_applySide h] at hp
  rcases lookup_applySide_ne_none hp with hempty | hlisted
  · exact absurd (AList.lookup_empty p) hempty
  · exact .inl (mem_keysOf_changesOf.1 hlisted)

theorem OnlyKnown.apply {side : BookSide} {levels : List OrderBookEntry}
    {list : DepthUpdateEvent → List OrderBookEntry} {ds : List DepthUpdateEvent}
    (h : OnlyKnown side levels (touched list ds)) (d : DepthUpdateEvent) :
    OnlyKnown (LocalOrderBook.applySide side (list d)) levels (touched list (ds ++ [d])) := by
  intro p hp
  rw [touched_append]
  rcases lookup_applySide_ne_none hp with hold | hnew
  · exact (h p hold).imp_right .inl
  · exact .inr (.inr hnew)

/-- The snapshot in force lists the best levels, and the book has only prices known since. -/
def BookKnown (H : History) (limit : ℕ) (past : List Yield) (st : SyncState) : Prop :=
  ∃ seed applied, sinceSeed past = some (seed, applied) ∧ TopSnapshotOf H limit seed ∧
    OnlyKnown st.book.bids seed.bids (touched (·.bids) applied) ∧
    OnlyKnown st.book.asks seed.asks (touched (·.asks) applied)

namespace OrderBookSynchronizer

variable {ε : Type} {H : History} {symbol : String} {limit : ℕ} {depth : ℕ → Except ε OrderBook}
  {deltas : List DepthUpdateEvent}

theorem run_known (hdepth : ∀ n s, depth n = .ok s → TopSnapshotOf H limit s) {pre : List Yield}
    {y : Yield} {post : List Yield} (h : (run symbol depth deltas).1 = pre ++ y :: post) :
    ∃ st, BookKnown H limit (pre ++ [y]) st ∧ st.book = y.book := by
  refine run_induction (fun past n s st hr => ?_) (fun past st d hd hknown _ _ => ?_) h
  · obtain ⟨hs, hst⟩ := reseed_ok hr
    have htop := hdepth n s hs
    subst hst
    exact ⟨s, [], sinceSeed_append_seeded past s _, htop,
      onlyKnown_sideOf (fun e he => (htop.bids.listed e he).2) _,
      onlyKnown_sideOf (fun e he => (htop.asks.listed e he).2) _⟩
  · obtain ⟨seed, ds, hseed, htop, hbids, hasks⟩ := hknown
    refine ⟨seed, ds ++ [d], ?_, htop, hbids.apply d, hasks.apply d⟩
    rw [sinceSeed_append_applied, hseed]
    rfl

/-- A listed price is in the range that its snapshot covers. -/
theorem mem_coveredRange {noWorse : ℚ → ℚ → Prop} {levels : List OrderBookEntry} {e : OrderBookEntry}
    (hrefl : ∀ p, noWorse p p) (extent : Extent) (he : e ∈ levels) :
    e.price ∈ coveredRange noWorse extent levels := by
  cases extent with
  | complete => exact Set.mem_univ _
  | truncated => exact ⟨e, he, hrefl _⟩

/-- A side of a book that agrees where it is known, and has only known prices. -/
theorem best_side_iff {noWorse : ℚ → ℚ → Prop} {qty : ℚ → ℚ} {levels : List OrderBookEntry}
    {side : BookSide} {touched : Set ℚ} {b : Option (ℚ × ℚ)}
    (hanti : ∀ p p', noWorse p p' → noWorse p' p → p = p') (hrefl : ∀ p, noWorse p p)
    (hagrees : ∀ p ∈ coveredRange noWorse (extentOf limit levels) levels ∪ touched,
      side.lookup p = levelsOf qty p)
    (hknown : OnlyKnown side levels touched) (hb : Best noWorse (fun p => side.lookup p) b) :
    Best noWorse (levelsOf qty) b ↔
      BestKnown noWorse qty (coveredRange noWorse (extentOf limit levels) levels ∪ touched) := by
  refine best_iff hanti hagrees (fun p hp => ?_) hb
  rcases hknown p hp with ⟨e, he, heq⟩ | htouched
  · left
    rw [← heq]
    exact mem_coveredRange hrefl _ he
  · exact .inr htouched

/-- **Top of book.** Over snapshots of the best `limit` levels and truthful deltas, a yielded book
has the exchange's best bid and best ask at its `last_applied_u` exactly when each of these, where
there is one, is at a price that the snapshot in force covers or that a delta applied since has
listed. -/
theorem run_top_iff (hdepth : ∀ n s, depth n = .ok s → TopSnapshotOf H limit s)
    (hdeltas : ∀ d ∈ deltas, Truthful H d) {pre : List Yield} {y : Yield} {post : List Yield}
    (h : (run symbol depth deltas).1 = pre ++ y :: post) :
    ∃ seed applied, sinceSeed (pre ++ [y]) = some (seed, applied) ∧
      (TopAgrees H y.book ↔
        BestKnown bidNoWorse (H.bids y.book.lastAppliedU)
          (knownPrices bidNoWorse limit seed.bids (·.bids) applied) ∧
        BestKnown askNoWorse (H.asks y.book.lastAppliedU)
          (knownPrices askNoWorse limit seed.asks (·.asks) applied)) := by
  have hprovider : ProviderOf H depth := fun n s hs => ⟨_, _, (hdepth n s hs).snapshotOf⟩
  obtain ⟨st, ⟨seed, ds, hseed, htop, hbids, hasks⟩, hbook⟩ := run_known hdepth h
  obtain ⟨seed', ds', hseed', -, hagrees⟩ := (run_good hprovider hdeltas h).agrees
  obtain ⟨heq, hds⟩ := Prod.mk.inj (Option.some.inj (hseed.symm.trans hseed'))
  subst heq hds
  rw [hbook] at hbids hasks
  obtain ⟨hagreeBids, hagreeAsks⟩ := hagrees _ _ htop.snapshotOf
  have hbid := best_side_iff bidNoWorse_antisymm le_refl hagreeBids hbids y.book.best_bestBid
  have hask := best_side_iff askNoWorse_antisymm le_refl hagreeAsks hasks y.book.best_bestAsk
  refine ⟨seed, ds, hseed, ?_⟩
  constructor
  · intro htop'
    exact ⟨hbid.1 htop'.bid, hask.1 htop'.ask⟩
  · intro ⟨hbidKnown, haskKnown⟩
    exact ⟨hbid.2 hbidKnown, hask.2 haskKnown⟩

/-- A snapshot of a side without levels. -/
theorem topLevels_empty {noWorse : ℚ → ℚ → Prop} : TopLevels noWorse (fun _ => 0) limit [] :=
  ⟨by simp, by simp, by simp, by simp, by simp⟩

theorem oneBidHistory_topSnapshot : TopSnapshotOf oneBidHistory 5 ⟨100, [⟨10, 1⟩], []⟩ where
  bids := {
    listed := oneBidHistory_snapshot.bids.listed
    nodup := by simp
    length_le := by simp
    complete := fun _ p hp => oneBidHistory_snapshot.bids.complete p (Set.mem_univ p) hp
    best := fun p hp => .inl (oneBidHistory_snapshot.bids.complete p (Set.mem_univ p) hp) }
  asks := topLevels_empty

/-- One bid, within the limit, that changes its quantity. -/
theorem run_top_oneBid :
    let snapshot : OrderBook := ⟨100, [⟨10, 1⟩], []⟩
    let delta : DepthUpdateEvent := ⟨100, 101, [⟨10, 2⟩], []⟩
    TopAgrees oneBidHistory (((LocalOrderBook.new "BTCTHB").seed snapshot).apply delta) := by
  intro snapshot delta
  have hrun : (run (ε := Unit) "BTCTHB" (fun _ => .ok snapshot) [delta]).1 =
      [.seeded snapshot ((LocalOrderBook.new "BTCTHB").seed snapshot)] ++
        .applied delta (((LocalOrderBook.new "BTCTHB").seed snapshot).apply delta) :: [] := rfl
  have hsnapshot : ∀ (n : ℕ) (s : OrderBook), (.ok snapshot : Except Unit OrderBook) = .ok s →
      TopSnapshotOf oneBidHistory 5 s := by
    intro n s hs
    cases hs
    exact oneBidHistory_topSnapshot
  have hdelta : ∀ d ∈ [delta], Truthful oneBidHistory d := by
    intro d hd
    cases List.mem_singleton.1 hd
    exact oneBidHistory_truthful
  obtain ⟨seed, ds, hseed, htop⟩ := run_top_iff hsnapshot hdelta hrun
  cases hseed
  refine htop.2 ⟨.inr ⟨10, .inl (Set.mem_univ _), by decide, fun p hp => ?_⟩, .inl fun p => rfl⟩
  by_cases hten : p = 10
  · exact hten.le
  · simp [levelsOf, level, oneBidHistory, hten] at hp

/-- An exchange with bids at 10 and 9, the first of which is removed with update 101. -/
def twoBidHistory : History where
  bids v p := if p = 9 then 1 else if p = 10 ∧ v ≤ 100 then 1 else 0
  asks _ _ := 0

/-- With a limit of 1 the bid at 9 is unknown when it becomes the best one. -/
theorem not_run_top_removed :
    let snapshot : OrderBook := ⟨100, [⟨10, 1⟩], []⟩
    let delta : DepthUpdateEvent := ⟨101, 101, [⟨10, 0⟩], []⟩
    let book := ((LocalOrderBook.new "BTCTHB").seed snapshot).apply delta
    TopSnapshotOf twoBidHistory 1 snapshot ∧ Truthful twoBidHistory delta ∧
      (∃ pre, (run (ε := Unit) "BTCTHB" (fun _ => .ok snapshot) [delta]).1 =
        pre ++ [.applied delta book]) ∧ ¬ TopAgrees twoBidHistory book := by
  intro snapshot delta book
  have hbids (p : ℚ) (hp : p ≠ 10) : twoBidHistory.bids 101 p = twoBidHistory.bids 100 p := by
    simp [twoBidHistory, hp]
  refine ⟨⟨?_, topLevels_empty⟩, ⟨?_, ?_⟩, ⟨[_], rfl⟩, fun htop => ?_⟩
  · refine ⟨?_, by decide, by decide, fun hlt => absurd hlt (by decide), fun p hp => ?_⟩
    · intro e he
      obtain rfl := List.mem_singleton.1 he
      decide
    · right
      intro e he
      obtain rfl := List.mem_singleton.1 he
      simp only [twoBidHistory] at hp
      split at hp
      · next hnine =>
        rw [hnine]
        show (9 : ℚ) ≤ 10
        norm_num
      · split at hp
        · next hten => exact hten.1.le
        · exact absurd rfl hp
  · refine ⟨?_, fun p hp i hlo hhi => ?_⟩
    · intro e he
      obtain rfl := List.mem_singleton.1 he
      decide
    · obtain rfl : i = 101 := le_antisymm hhi hlo
      exact hbids p fun heq => hp _ List.mem_cons_self heq.symm
  · exact ⟨by simp [delta], fun p _ i _ _ => rfl⟩
  · have hnone := htop.bid 9
    exact absurd hnone (by decide)

end OrderBookSynchronizer

end BinanceTh
