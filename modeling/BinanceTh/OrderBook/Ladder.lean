import BinanceTh.Lib.Ranked
import BinanceTh.OrderBook.TopOfBook
import Mathlib.Data.List.Sort

/-!
# The ladders of the book

`bids_top` and `asks_top` of `LocalOrderBook`: the `n` best levels of a side, best first. Beyond the
levels of its snapshot a book knows only what deltas have listed, so its ladder is the exchange's
exactly when the exchange's `n` best levels are at prices it knows (`run_ladder_iff`). A level of the
snapshot is lost by a removal only, and the removals since the snapshot can be counted: with a limit
of `limit`, the `n` best levels are right as long as there have been no more than `limit - n` of them
(`run_ladder`).
-/

namespace BinanceTh

open Replica

/-- `l[:n]`. -/
def sliceTo {α : Type} (l : List α) (n : ℤ) : List α :=
  if 0 ≤ n then l.take n.toNat else l.take (l.length - n.natAbs)

namespace LocalOrderBook

/-- The levels of a side in an order of their prices, up to `n`. -/
def ladder (noWorse : ℚ → ℚ → Prop) [DecidableRel noWorse] (side : BookSide) (n : ℤ) : List Level :=
  (sliceTo (side.keys.insertionSort noWorse) n).filterMap fun price =>
    (side.lookup price).map fun quantity => (price, quantity)

/-- `bids_top`. -/
def bidsTop (book : LocalOrderBook) (n : ℤ) : List Level :=
  ladder (fun p p' => p' ≤ p) book.bids n

/-- `asks_top`. -/
def asksTop (book : LocalOrderBook) (n : ℤ) : List Level :=
  ladder (fun p p' => p ≤ p') book.asks n

/-! ## The ladder of a dictionary -/

variable {noWorse : ℚ → ℚ → Prop} {side : BookSide}

theorem mem_keys_iff {p : ℚ} : p ∈ side.keys ↔ side.lookup p ≠ none := by
  rw [← AList.mem_keys, ← AList.lookup_isSome, Option.isSome_iff_ne_none]

/-- The levels at some prices of the side. -/
theorem map_fst_levels {prices : List ℚ} (h : ∀ p ∈ prices, side.lookup p ≠ none) :
    (prices.filterMap fun price =>
      (side.lookup price).map fun quantity => (price, quantity)).map Prod.fst = prices := by
  induction prices with
  | nil => rfl
  | cons p prices ih =>
    obtain ⟨hp, hprices⟩ := List.forall_mem_cons.1 h
    obtain ⟨q, hq⟩ := Option.ne_none_iff_exists'.1 hp
    rw [List.filterMap_cons_some (b := (p, q)) (by rw [hq]; rfl), List.map_cons, ih hprices]

/-- The first of all prices, in their order. -/
theorem ranks_of_sorted {prices : List ℚ}
    (hsorted : prices.Pairwise fun p p' => noWorse p p' ∧ p ≠ p')
    (hmem : ∀ p, p ∈ prices ↔ side.lookup p ≠ none) (n : ℕ) :
    Ranks noWorse (fun p => side.lookup p) n ((prices.take n).filterMap fun price =>
      (side.lookup price).map fun quantity => (price, quantity)) := by
  have hkeys := map_fst_levels fun p (hp : p ∈ prices.take n) =>
    (hmem p).1 (List.mem_of_mem_take hp)
  have hlength : ((prices.take n).filterMap fun price =>
      (side.lookup price).map fun quantity => (price, quantity)).length = (prices.take n).length := by
    rw [← List.length_map Prod.fst, hkeys]
  refine ⟨?_, fun e he => ?_, ?_, fun p hp => ?_⟩
  · rw [← List.pairwise_map (f := Prod.fst) (R := fun p p' => noWorse p p' ∧ p ≠ p'), hkeys]
    exact hsorted.sublist (List.take_sublist n prices)
  · obtain ⟨p, -, hp⟩ := List.mem_filterMap.1 he
    obtain ⟨q, hq, rfl⟩ := Option.map_eq_some_iff.1 hp
    exact hq
  · rw [hlength, List.length_take]
    exact min_le_left n _
  · rw [hkeys, hlength]
    by_cases hfirst : p ∈ prices.take n
    · exact .inl hfirst
    · -- a price that is left over comes after those taken
      have hsplit := List.take_append_drop n prices
      have hlater : p ∈ prices.drop n := by
        have hin := (hmem p).2 hp
        rw [← hsplit] at hin
        exact (List.mem_append.1 hin).resolve_left hfirst
      have hlong : n < prices.length := by
        by_contra hle
        rw [List.drop_eq_nil_of_le (not_lt.1 hle)] at hlater
        cases hlater
      refine .inr ⟨List.length_take_of_le hlong.le, fun e he => ?_⟩
      have he' : e.1 ∈ prices.take n := hkeys ▸ List.mem_map_of_mem he
      rw [← hsplit] at hsorted
      exact ((List.pairwise_append.1 hsorted).2.2 e.1 he' p hlater).1

/-- **A ladder** has the best levels of the dictionary. -/
theorem ranks_ladder [DecidableRel noWorse] [Std.Total noWorse] [IsTrans ℚ noWorse]
    (side : BookSide) (n : ℕ) :
    Ranks noWorse (fun p => side.lookup p) n (ladder noWorse side n) := by
  have hperm := List.perm_insertionSort noWorse side.keys
  have hsorted := (List.pairwise_insertionSort noWorse side.keys).and
    (hperm.nodup_iff.2 side.keys_nodup)
  have hranks := ranks_of_sorted hsorted (fun p => hperm.mem_iff.trans mem_keys_iff) n
  rwa [ladder, sliceTo, if_pos (Int.natCast_nonneg n), Int.toNat_natCast]

theorem ranks_bidsTop (book : LocalOrderBook) (n : ℕ) :
    Ranks bidNoWorse (fun p => book.bids.lookup p) n (book.bidsTop n) := by
  have : Std.Total fun p p' : ℚ => p' ≤ p := ⟨fun p p' => le_total p' p⟩
  have : IsTrans ℚ fun p p' => p' ≤ p := ⟨fun p p' p'' h h' => le_trans h' h⟩
  change Ranks (fun p p' => p' ≤ p) _ n (ladder (fun p p' => p' ≤ p) book.bids n)
  exact ranks_ladder book.bids n

theorem ranks_asksTop (book : LocalOrderBook) (n : ℕ) :
    Ranks askNoWorse (fun p => book.asks.lookup p) n (book.asksTop n) := by
  have : Std.Total fun p p' : ℚ => p ≤ p' := ⟨le_total⟩
  have : IsTrans ℚ fun p p' => p ≤ p' := ⟨fun _ _ _ => le_trans⟩
  change Ranks (fun p p' => p ≤ p') _ n (ladder (fun p p' => p ≤ p') book.asks n)
  exact ranks_ladder book.asks n

end LocalOrderBook

/-! ## What removals take away -/

/-- How many levels the deltas remove from a side. -/
def removals (side : DepthUpdateEvent → List OrderBookEntry) (ds : List DepthUpdateEvent) : ℕ :=
  (ds.flatMap side).countP fun e => e.quantity = 0

/-- At how many of the prices the side has a level. -/
def present (prices : List ℚ) (side : BookSide) : ℕ := prices.countP fun p => (side.lookup p).isSome

/-- Two conditions that differ at one element only. -/
theorem countP_le_succ {α : Type} {P Q : α → Bool} {l : List α} {a : α} (hl : l.Nodup)
    (h : ∀ b ∈ l, b ≠ a → P b = true → Q b = true) : l.countP P ≤ l.countP Q + 1 := by
  induction l with
  | nil => exact Nat.zero_le _
  | cons b l ih =>
    obtain ⟨hnot, hl⟩ := List.nodup_cons.1 hl
    rw [List.countP_cons, List.countP_cons]
    by_cases hb : b = a
    · -- the others are not the one
      have hrest : l.countP P ≤ l.countP Q := List.countP_mono_left fun c hc =>
        h c (List.mem_cons_of_mem b hc) (fun hca => hnot (by rw [hb, ← hca]; exact hc))
      split <;> split <;> omega
    · have hrest := ih hl fun c hc => h c (List.mem_cons_of_mem b hc)
      have hhead := h b List.mem_cons_self hb
      split
      · next hP =>
        rw [if_pos (hhead hP)]
        omega
      · split <;> omega

theorem present_applySide {prices : List ℚ} (hprices : prices.Nodup)
    (levels : List OrderBookEntry) (side : BookSide) :
    present prices side ≤ present prices (LocalOrderBook.applySide side levels) +
      levels.countP fun e => e.quantity = 0 := by
  induction levels generalizing side with
  | nil => exact Nat.le_refl _
  | cons e levels ih =>
    have hwrite := congrFun (LocalOrderBook.lookup_writeLevel side e)
    have hone : present prices side ≤ present prices (if e.quantity = 0 then side.erase e.price
        else side.insert e.price e.quantity) + if e.quantity = 0 then 1 else 0 := by
      unfold present
      by_cases hq : e.quantity = 0
      · rw [if_pos hq] at hwrite ⊢
        rw [if_pos hq]
        refine countP_le_succ (a := e.price) hprices fun p _ hp hsome => ?_
        rwa [hwrite p, Function.update_of_ne hp]
      · rw [if_neg hq] at hwrite ⊢
        rw [if_neg hq]
        refine List.countP_mono_left fun p _ hsome => ?_
        rw [hwrite p]
        by_cases hp : p = e.price
        · rw [hp, Function.update_self, level, if_neg hq]
          rfl
        · rwa [Function.update_of_ne hp]
    have hrest := ih (if e.quantity = 0 then side.erase e.price
      else side.insert e.price e.quantity)
    rw [List.countP_cons]
    simp only [decide_eq_true_eq]
    calc present prices side
        ≤ _ + if e.quantity = 0 then 1 else 0 := hone
      _ ≤ (_ + levels.countP fun e => e.quantity = 0) + if e.quantity = 0 then 1 else 0 :=
        Nat.add_le_add_right hrest _
      _ = _ := Nat.add_assoc _ _ _

/-! ## Books of a run -/

section Side

variable {noWorse : ℚ → ℚ → Prop} {limit n r : ℕ} {levels : List OrderBookEntry} {side : BookSide}

/-- A snapshot seeds all its levels. -/
theorem present_sideOf {qty : ℚ → ℚ} (hanti : ∀ p p', noWorse p p' → noWorse p' p → p = p')
    (hrefl : ∀ p, noWorse p p) (h : TopLevels noWorse qty limit levels) :
    present (levels.map (·.price)) (LocalOrderBook.sideOf levels) = levels.length := by
  have hagrees : Agrees (fun (_ : ℤ) p => level (qty p)) 0
      (coveredRange noWorse (extentOf limit levels) levels)
      (fun p => (LocalOrderBook.sideOf levels).lookup p) := SideSnapshot.agrees (h.sideSnapshot hanti)
  unfold present
  rw [List.countP_eq_length.2, List.length_map]
  intro p hp
  obtain ⟨e, he, rfl⟩ := List.mem_map.1 hp
  have hlookup : (LocalOrderBook.sideOf levels).lookup e.price = level (qty e.price) :=
    hagrees e.price (OrderBookSynchronizer.mem_coveredRange hrefl _ he)
  obtain ⟨hq, hne⟩ := h.listed e he
  rw [hq] at hne
  rw [hlookup, level, if_neg hne]
  rfl

/-- A side that has lost no more than `r` levels of its snapshot. -/
theorem ranks_side {qty₀ qty : ℚ → ℚ} {touched : Set ℚ} {l : List (ℚ × ℚ)}
    (htrans : ∀ p p' p'', noWorse p p' → noWorse p' p'' → noWorse p p'')
    (htotal : ∀ p p', noWorse p p' ∨ noWorse p' p) (h : TopLevels noWorse qty₀ limit levels)
    (hagrees : ∀ p ∈ coveredRange noWorse (extentOf limit levels) levels ∪ touched,
      side.lookup p = levelsOf qty p)
    (hkept : levels.length ≤ present (levels.map (·.price)) side + r)
    (hn : levels.length < limit ∨ n + r ≤ limit)
    (hl : Ranks noWorse (fun p => side.lookup p) n l) : Ranks noWorse (levelsOf qty) n l := by
  by_cases hlt : levels.length < limit
  · -- the snapshot was the whole side
    have hall : (fun p => side.lookup p) = levelsOf qty := funext fun p => hagrees p
      (.inl (by rw [extentOf, if_pos hlt]; exact Set.mem_univ p))
    rwa [← hall]
  · have hn := hn.resolve_left hlt
    rw [extentOf, if_neg hlt] at hagrees
    have hks : ((levels.map (·.price)).filter fun p => (side.lookup p).isSome).Nodup :=
      h.nodup.filter _
    refine Ranks.of_range (B := coveredRange noWorse .truncated levels) htotal ?_
      (fun p hp => hagrees p (.inl hp)) hks ?_ ?_ hl
    · rintro p ⟨e, he, hp⟩ p' hp'
      exact ⟨e, he, htrans _ _ _ hp' hp⟩
    · rw [← List.countP_eq_length_filter]
      change n ≤ present (levels.map (·.price)) side
      have := h.length_le
      omega
    · intro p hp
      obtain ⟨hp, hsome⟩ := List.mem_filter.1 hp
      obtain ⟨e, he, rfl⟩ := List.mem_map.1 hp
      refine ⟨⟨e, he, ?_⟩, Option.isSome_iff_ne_none.1 hsome⟩
      rcases htotal e.price e.price with hrefl | hrefl <;> exact hrefl

end Side

/-- A price of a side that has only known prices. -/
theorem OnlyKnown.mem_known {noWorse : ℚ → ℚ → Prop} {limit : ℕ} {levels : List OrderBookEntry}
    {side : BookSide} {touched : Set ℚ} (h : OnlyKnown side levels touched)
    (hrefl : ∀ p, noWorse p p) (p : ℚ) (hp : side.lookup p ≠ none) :
    p ∈ coveredRange noWorse (extentOf limit levels) levels ∪ touched := by
  rcases h p hp with ⟨e, he, rfl⟩ | htouched
  · exact .inl (OrderBookSynchronizer.mem_coveredRange hrefl _ he)
  · exact .inr htouched

/-- A side has lost no more levels of its snapshot than have been removed since. -/
def Kept (side : BookSide) (levels : List OrderBookEntry)
    (list : DepthUpdateEvent → List OrderBookEntry) (ds : List DepthUpdateEvent) : Prop :=
  levels.length ≤ present (levels.map (·.price)) side + removals list ds

theorem Kept.apply {side : BookSide} {levels : List OrderBookEntry}
    {list : DepthUpdateEvent → List OrderBookEntry} {ds : List DepthUpdateEvent}
    (h : Kept side levels list ds) (hlevels : (levels.map (·.price)).Nodup) (d : DepthUpdateEvent) :
    Kept (LocalOrderBook.applySide side (list d)) levels list (ds ++ [d]) := by
  have hone := present_applySide hlevels (list d) side
  have hsum : removals list (ds ++ [d]) =
      removals list ds + (list d).countP fun e => e.quantity = 0 := by
    simp [removals]
  unfold Kept at h ⊢
  omega

/-- The snapshot in force lists the best levels, and the book has lost only what was removed. -/
def BookKept (H : History) (limit : ℕ) (past : List Yield) (st : SyncState) : Prop :=
  ∃ seed applied, sinceSeed past = some (seed, applied) ∧ TopSnapshotOf H limit seed ∧
    Kept st.book.bids seed.bids (·.bids) applied ∧ Kept st.book.asks seed.asks (·.asks) applied

/-- The exchange's `n` best levels of a side are at known prices. -/
def LadderKnown (noWorse : ℚ → ℚ → Prop) (qty : ℚ → ℚ) (known : Set ℚ) (n : ℕ) : Prop :=
  ∃ l, Ranks noWorse (levelsOf qty) n l ∧ ∀ e ∈ l, e.1 ∈ known

namespace OrderBookSynchronizer

variable {ε : Type} {H : History} {symbol : String} {limit : ℕ} {depth : ℕ → Except ε OrderBook}
  {deltas : List DepthUpdateEvent}

theorem run_kept (hdepth : ∀ n s, depth n = .ok s → TopSnapshotOf H limit s) {pre : List Yield}
    {y : Yield} {post : List Yield} (h : (run symbol depth deltas).1 = pre ++ y :: post) :
    ∃ st, BookKept H limit (pre ++ [y]) st ∧ st.book = y.book := by
  refine run_induction (fun past n s st hr => ?_) (fun past st d hd hkept _ _ => ?_) h
  · obtain ⟨hs, hst⟩ := reseed_ok hr
    have htop := hdepth n s hs
    subst hst
    exact ⟨s, [], sinceSeed_append_seeded past s _, htop,
      (present_sideOf bidNoWorse_antisymm le_refl htop.bids).ge,
      (present_sideOf askNoWorse_antisymm le_refl htop.asks).ge⟩
  · obtain ⟨seed, ds, hseed, htop, hbids, hasks⟩ := hkept
    refine ⟨seed, ds ++ [d], ?_, htop, hbids.apply htop.bids.nodup d, hasks.apply htop.asks.nodup d⟩
    rw [sinceSeed_append_applied, hseed]
    rfl

/-- Both bids of `twoBidHistory`. -/
def bothBids : OrderBook := ⟨100, [⟨10, 1⟩, ⟨9, 1⟩], []⟩

/-- The better one is removed. -/
def tenRemoved : DepthUpdateEvent := ⟨101, 101, [⟨10, 0⟩], []⟩

theorem topSnapshot_bothBids : TopSnapshotOf twoBidHistory 2 bothBids := by
  refine ⟨⟨fun e he => ?_, by decide, by decide, fun hlt => absurd hlt (by decide), fun p hp => ?_⟩,
    topLevels_empty⟩
  · simp only [bothBids, List.mem_cons, List.not_mem_nil, or_false] at he
    rcases he with rfl | rfl <;> decide
  · left
    by_cases hnine : p = 9
    · exact ⟨⟨9, 1⟩, by simp [bothBids], hnine.symm⟩
    · by_cases hten : p = 10
      · exact ⟨⟨10, 1⟩, by simp [bothBids], hten.symm⟩
      · simp [twoBidHistory, hnine, hten] at hp

theorem truthful_tenRemoved : Truthful twoBidHistory tenRemoved := by
  refine ⟨⟨fun e he => ?_, fun p hp i hlo hhi => ?_⟩, ⟨by simp [tenRemoved], fun p _ i _ _ => rfl⟩⟩
  · obtain rfl := List.mem_singleton.1 he
    decide
  · have hten : p ≠ 10 := fun heq => hp _ List.mem_cons_self heq.symm
    simp [twoBidHistory, hten]

def ladderBook : LocalOrderBook := ((LocalOrderBook.new "BTCTHB").seed bothBids).apply tenRemoved

theorem run_tenRemoved : (run (ε := Unit) "BTCTHB" (fun _ => .ok bothBids) [tenRemoved]).1 =
    [.seeded bothBids ((LocalOrderBook.new "BTCTHB").seed bothBids)] ++
      .applied tenRemoved ladderBook :: [] := rfl

theorem provider_bothBids (n : ℕ) (s : OrderBook)
    (h : (fun _ => .ok bothBids : ℕ → Except Unit OrderBook) n = .ok s) :
    TopSnapshotOf twoBidHistory 2 s := by
  obtain rfl := Except.ok.inj h
  exact topSnapshot_bothBids

theorem deltas_tenRemoved : ∀ d ∈ [tenRemoved], Truthful twoBidHistory d := by
  intro d hd
  obtain rfl := List.mem_singleton.1 hd
  exact truthful_tenRemoved

/-- **The ladders.** Over snapshots of the best `limit` levels and truthful deltas, the `n` best bids
of a yielded book are the exchange's at its `last_applied_u` as long as `n` and the bids that deltas
have removed since the snapshot are no more than `limit`, and always if the snapshot was the whole
side; so for the asks. -/
theorem run_ladder (hdepth : ∀ n s, depth n = .ok s → TopSnapshotOf H limit s)
    (hdeltas : ∀ d ∈ deltas, Truthful H d) {pre : List Yield} {y : Yield} {post : List Yield}
    (h : (run symbol depth deltas).1 = pre ++ y :: post) :
    ∃ seed applied, sinceSeed (pre ++ [y]) = some (seed, applied) ∧ ∀ n : ℕ,
      (seed.bids.length < limit ∨ n + removals (·.bids) applied ≤ limit →
        Ranks bidNoWorse (levelsOf (H.bids y.book.lastAppliedU)) n (y.book.bidsTop n)) ∧
      (seed.asks.length < limit ∨ n + removals (·.asks) applied ≤ limit →
        Ranks askNoWorse (levelsOf (H.asks y.book.lastAppliedU)) n (y.book.asksTop n)) := by
  have hprovider : ProviderOf H depth := fun n s hs => ⟨_, _, (hdepth n s hs).snapshotOf⟩
  obtain ⟨st, ⟨seed, ds, hseed, htop, hbids, hasks⟩, hbook⟩ := run_kept hdepth h
  obtain ⟨seed', ds', hseed', -, hagrees⟩ := (run_good hprovider hdeltas h).agrees
  obtain ⟨heq, hds⟩ := Prod.mk.inj (Option.some.inj (hseed.symm.trans hseed'))
  subst heq hds
  rw [hbook] at hbids hasks
  obtain ⟨hagreeBids, hagreeAsks⟩ := hagrees _ _ htop.snapshotOf
  refine ⟨seed, ds, hseed, fun n => ⟨fun hn => ?_, fun hn => ?_⟩⟩
  · exact ranks_side (fun _ _ _ h h' => le_trans h' h) (fun p p' => le_total p' p) htop.bids
      hagreeBids hbids hn (y.book.ranks_bidsTop n)
  · exact ranks_side (fun _ _ _ h h' => le_trans h h') le_total htop.asks hagreeAsks hasks hn
      (y.book.ranks_asksTop n)

/-- One removal and one level, of a limit of 2. -/
theorem run_ladder_tenRemoved : ladderBook.bidsTop 1 = [(9, 1)] ∧
    Ranks bidNoWorse (levelsOf (twoBidHistory.bids 101)) 1 (ladderBook.bidsTop 1) := by
  obtain ⟨seed, ds, hseed, hladder⟩ := run_ladder provider_bothBids deltas_tenRemoved run_tenRemoved
  cases hseed
  exact ⟨by decide, (hladder 1).1 (.inr (by decide))⟩

/-- **Exactly when** a ladder is right. -/
theorem run_ladder_iff (hdepth : ∀ n s, depth n = .ok s → TopSnapshotOf H limit s)
    (hdeltas : ∀ d ∈ deltas, Truthful H d) {pre : List Yield} {y : Yield} {post : List Yield}
    (h : (run symbol depth deltas).1 = pre ++ y :: post) :
    ∃ seed applied, sinceSeed (pre ++ [y]) = some (seed, applied) ∧ ∀ n : ℕ,
      (Ranks bidNoWorse (levelsOf (H.bids y.book.lastAppliedU)) n (y.book.bidsTop n) ↔
        LadderKnown bidNoWorse (H.bids y.book.lastAppliedU)
          (knownPrices bidNoWorse limit seed.bids (·.bids) applied) n) ∧
      (Ranks askNoWorse (levelsOf (H.asks y.book.lastAppliedU)) n (y.book.asksTop n) ↔
        LadderKnown askNoWorse (H.asks y.book.lastAppliedU)
          (knownPrices askNoWorse limit seed.asks (·.asks) applied) n) := by
  have hprovider : ProviderOf H depth := fun n s hs => ⟨_, _, (hdepth n s hs).snapshotOf⟩
  obtain ⟨st, ⟨seed, ds, hseed, htop, hbids, hasks⟩, hbook⟩ := run_known hdepth h
  obtain ⟨seed', ds', hseed', -, hagrees⟩ := (run_good hprovider hdeltas h).agrees
  obtain ⟨heq, hds⟩ := Prod.mk.inj (Option.some.inj (hseed.symm.trans hseed'))
  subst heq hds
  rw [hbook] at hbids hasks
  obtain ⟨hagreeBids, hagreeAsks⟩ := hagrees _ _ htop.snapshotOf
  exact ⟨seed, ds, hseed, fun n =>
    ⟨ranks_iff bidNoWorse_antisymm hagreeBids (hbids.mem_known le_refl) (y.book.ranks_bidsTop n),
      ranks_iff askNoWorse_antisymm hagreeAsks (hasks.mem_known le_refl) (y.book.ranks_asksTop n)⟩⟩

/-- The bid at 9 is all there is. -/
theorem run_ladder_iff_tenRemoved : LadderKnown bidNoWorse (twoBidHistory.bids 101)
    (knownPrices bidNoWorse 2 bothBids.bids (·.bids) [tenRemoved]) 5 := by
  obtain ⟨seed, ds, hseed, hladder⟩ :=
    run_ladder_iff provider_bothBids deltas_tenRemoved run_tenRemoved
  cases hseed
  refine (hladder 5).1.1 ?_
  have hbook : (Yield.applied tenRemoved ladderBook).book.bidsTop (5 : ℕ) = [(9, 1)] := by decide
  have hlast : (Yield.applied tenRemoved ladderBook).book.lastAppliedU = 101 := rfl
  rw [hbook, hlast]
  refine ⟨List.pairwise_singleton _ _, fun e he => ?_, by decide, fun p hp => .inl ?_⟩
  · obtain rfl := List.mem_singleton.1 he
    decide
  · by_contra hne
    have hnine : p ≠ 9 := fun heq => hne (by simp [heq])
    exact hp (by simp [levelsOf, level, twoBidHistory, hnine])

end OrderBookSynchronizer

end BinanceTh
