import BinanceTh.OrderBook
import BinanceTh.Lib.Replica

/-!
# Safety of the local order book

An exchange is a history of books (`History`): the quantity at every price on each side, for every
update id. The delta stream is truthful but unreliable: nothing is assumed about which deltas
arrive, how often or in which order. The replica library supplies the argument (a book at version
`v` that applies a change set reaching back to `v + 1` is at the change set's last version); this
module shows that the dictionary operations are its overlay (`lookup_applySide`), that a snapshot
starts a replica (`SideSnapshot.agrees`), and that the synchronizer applies a delta only when it
reaches back far enough (`synced_applied`). `run_agrees` is the result for whole runs.
-/

namespace BinanceTh

open Replica

/-- The dictionary entry for a quantity: a level with quantity 0 does not exist. -/
def level (q : ℚ) : Option ℚ := if q = 0 then none else some q

/-- The exchange's book for every update id: quantities by price, 0 where there is no level. -/
structure History where
  bids : ℤ → ℚ → ℚ
  asks : ℤ → ℚ → ℚ

/-- Which part of a side a snapshot lists: all of it, or the levels no worse than its worst. -/
inductive Extent where
  | complete
  | truncated

/-- The prices on which a snapshot's list of levels says everything; `noWorse p p'` orders the
prices of the side. -/
def coveredRange (noWorse : ℚ → ℚ → Prop) : Extent → List OrderBookEntry → Set ℚ
  | .complete, _ => Set.univ
  | .truncated, levels => {p | ∃ e ∈ levels, noWorse p e.price}

/-- A bid is no worse than another when it is at least as high. -/
def bidRange : Extent → List OrderBookEntry → Set ℚ := coveredRange fun p p' => p' ≤ p

/-- An ask is no worse than another when it is at most as high. -/
def askRange : Extent → List OrderBookEntry → Set ℚ := coveredRange fun p p' => p ≤ p'

/-- A side of a snapshot: levels with the exchange's quantities, none of them 0, and every level
of the covered range. -/
structure SideSnapshot (qty : ℚ → ℚ) (levels : List OrderBookEntry) (A : Set ℚ) : Prop where
  listed : ∀ e ∈ levels, e.quantity = qty e.price ∧ e.quantity ≠ 0
  complete : ∀ p ∈ A, qty p ≠ 0 → ∃ e ∈ levels, e.price = p

/-- A snapshot of the exchange's book at its `lastUpdateId`. -/
structure SnapshotOf (H : History) (s : OrderBook) (eb ea : Extent) : Prop where
  bids : SideSnapshot (H.bids s.lastUpdateId) s.bids (bidRange eb s.bids)
  asks : SideSnapshot (H.asks s.lastUpdateId) s.asks (askRange ea s.asks)

/-- A depth provider all of whose snapshots are of the exchange's book. -/
def ProviderOf {ε : Type} (H : History) (depth : ℕ → Except ε OrderBook) : Prop :=
  ∀ n s, depth n = .ok s → ∃ eb ea, SnapshotOf H s eb ea

/-- A side of a delta for the updates `lo..hi`: quantities as of `hi`, and every price that an
update in the range changes. -/
structure SideTruthful (qty : ℤ → ℚ → ℚ) (lo hi : ℤ) (levels : List OrderBookEntry) : Prop where
  listed : ∀ e ∈ levels, e.quantity = qty hi e.price
  complete : ∀ p, (∀ e ∈ levels, e.price ≠ p) → ∀ i, lo ≤ i → i ≤ hi → qty i p = qty (i - 1) p

structure Truthful (H : History) (d : DepthUpdateEvent) : Prop where
  bids : SideTruthful H.bids d.firstUpdateId d.finalUpdateId d.bids
  asks : SideTruthful H.asks d.firstUpdateId d.finalUpdateId d.asks

/-- The snapshot that the last book of a run was seeded from, and the deltas applied since. -/
def sinceSeed (ys : List Yield) : Option (OrderBook × List DepthUpdateEvent) :=
  ys.foldl (fun acc y =>
    match y with
    | .seeded s _ => some (s, [])
    | .applied d _ => acc.map fun (s, ds) => (s, ds ++ [d])) none

/-- The prices that the deltas list on the side `side`. -/
def touched (side : DepthUpdateEvent → List OrderBookEntry) (ds : List DepthUpdateEvent) : Set ℚ :=
  {p | ∃ d ∈ ds, ∃ e ∈ side d, e.price = p}

/-- The book agrees with the exchange at its own `last_applied_u`: on the range of the snapshot it
was seeded from (in whichever way the snapshot is one), and on every price touched by a delta
applied since. -/
def BookAgrees (H : History) (ys : List Yield) (book : LocalOrderBook) : Prop :=
  ∃ seed applied, sinceSeed ys = some (seed, applied) ∧ (∃ eb ea, SnapshotOf H seed eb ea) ∧
    ∀ eb ea, SnapshotOf H seed eb ea →
    Agrees (fun v p => level (H.bids v p)) book.lastAppliedU
      (bidRange eb seed.bids ∪ touched (·.bids) applied) (fun p => book.bids.lookup p) ∧
    Agrees (fun v p => level (H.asks v p)) book.lastAppliedU
      (askRange ea seed.asks ∪ touched (·.asks) applied) (fun p => book.asks.lookup p)

/-! ## The dictionary operations are overlays -/

/-- A list of levels as a change set. -/
def changesOf (levels : List OrderBookEntry) : List (ℚ × Option ℚ) :=
  levels.map fun e => (e.price, level e.quantity)

theorem mem_keysOf_changesOf {levels : List OrderBookEntry} {p : ℚ} :
    p ∈ keysOf (changesOf levels) ↔ ∃ e ∈ levels, e.price = p := by
  constructor
  · rintro ⟨o, ho⟩
    obtain ⟨e, he, heq⟩ := List.mem_map.1 ho
    exact ⟨e, he, (Prod.mk.inj heq).1⟩
  · rintro ⟨e, he, rfl⟩
    exact ⟨level e.quantity, List.mem_map.2 ⟨e, he, rfl⟩⟩

theorem touched_append (side : DepthUpdateEvent → List OrderBookEntry)
    (ds : List DepthUpdateEvent) (d : DepthUpdateEvent) :
    touched side (ds ++ [d]) = touched side ds ∪ keysOf (changesOf (side d)) := by
  ext p
  simp only [touched, Set.mem_ofPred_eq, Set.mem_union, mem_keysOf_changesOf, List.mem_append,
    List.mem_singleton, or_and_right, exists_or, exists_eq_left]

namespace LocalOrderBook

/-- Writing one level changes the entry of its price. -/
theorem lookup_writeLevel (side : BookSide) (e : OrderBookEntry) :
    (fun p => (if e.quantity = 0 then side.erase e.price
      else side.insert e.price e.quantity).lookup p) =
      Function.update (fun p => side.lookup p) e.price (level e.quantity) := by
  funext p
  unfold level
  by_cases hq : e.quantity = 0 <;> by_cases hp : p = e.price
  · subst hp
    simp only [hq, ↓reduceIte, AList.lookup_erase, Function.update_self]
  · simp only [hq, ↓reduceIte, AList.lookup_erase_ne hp, Function.update_of_ne hp]
  · subst hp
    simp only [hq, ↓reduceIte, AList.lookup_insert, Function.update_self]
  · simp only [hq, ↓reduceIte, AList.lookup_insert_ne hp, Function.update_of_ne hp]

theorem lookup_applySide (levels : List OrderBookEntry) (side : BookSide) :
    (fun p => (applySide side levels).lookup p) =
      overlay (fun p => side.lookup p) (changesOf levels) := by
  induction levels generalizing side with
  | nil => rfl
  | cons e levels ih =>
    have hcons : applySide side (e :: levels) = applySide
        (if e.quantity = 0 then side.erase e.price else side.insert e.price e.quantity)
        levels := rfl
    rw [hcons, ih, lookup_writeLevel]
    rfl

/-- A snapshot without zero quantities seeds what applying its levels to an empty book would. -/
theorem sideOf_eq_applySide {levels : List OrderBookEntry}
    (h : ∀ e ∈ levels, e.quantity ≠ 0) : sideOf levels = applySide ∅ levels := by
  refine List.foldl_ext _ _ _ fun side e he => ?_
  rw [if_neg (h e he)]

end LocalOrderBook

open LocalOrderBook

/-- A side seeded from a snapshot agrees with the exchange on the range the snapshot covers. -/
theorem SideSnapshot.agrees {qty : ℤ → ℚ → ℚ} {v : ℤ} {levels : List OrderBookEntry} {A : Set ℚ}
    (h : SideSnapshot (qty v) levels A) :
    Agrees (fun v p => level (qty v p)) v A (fun p => (sideOf levels).lookup p) := by
  intro p hp
  rw [sideOf_eq_applySide fun e he => (h.listed e he).2, lookup_applySide]
  by_cases hmem : p ∈ keysOf (changesOf levels)
  · refine overlay_of_listed hmem fun o ho => ?_
    obtain ⟨e, he, heq⟩ := List.mem_map.1 ho
    obtain ⟨rfl, rfl⟩ := Prod.mk.inj heq
    rw [(h.listed e he).1]
  · have hzero : qty v p = 0 := by
      by_contra hne
      exact hmem (mem_keysOf_changesOf.2 (h.complete p hp hne))
    rw [overlay_of_notMem hmem, AList.lookup_empty]
    show none = level (qty v p)
    rw [hzero]
    rfl

/-- A truthful side of a delta is a change set of the exchange's history. -/
theorem SideTruthful.covers {qty : ℤ → ℚ → ℚ} {lo hi : ℤ} {levels : List OrderBookEntry}
    (h : SideTruthful qty lo hi levels) :
    Covers (fun v p => level (qty v p)) lo hi (changesOf levels) where
  listed p o ho := by
    obtain ⟨e, he, heq⟩ := List.mem_map.1 ho
    obtain ⟨rfl, rfl⟩ := Prod.mk.inj heq
    rw [h.listed e he]
  unlisted p hp i hlo hhi := by
    have hne : ∀ e ∈ levels, e.price ≠ p := fun e he heq =>
      hp (mem_keysOf_changesOf.2 ⟨e, he, heq⟩)
    rw [h.complete p hne i hlo hhi]

/-- Applying a truthful side keeps agreement and adds the prices listed. -/
theorem SideTruthful.agrees_applySide {qty : ℤ → ℚ → ℚ} {lo hi v : ℤ}
    {levels : List OrderBookEntry} {A : Set ℚ} {side : BookSide}
    (h : SideTruthful qty lo hi levels)
    (hside : Agrees (fun v p => level (qty v p)) v A (fun p => side.lookup p))
    (hlo : lo ≤ v + 1) (hhi : v ≤ hi) :
    Agrees (fun v p => level (qty v p)) hi (A ∪ keysOf (changesOf levels))
      (fun p => (applySide side levels).lookup p) := by
  rw [lookup_applySide]
  exact hside.overlay h.covers hlo hhi

/-! ## Books of a run -/

theorem sinceSeed_append_seeded (ys : List Yield) (s : OrderBook) (b : LocalOrderBook) :
    sinceSeed (ys ++ [.seeded s b]) = some (s, []) := by
  simp only [sinceSeed, List.foldl_append, List.foldl_cons, List.foldl_nil]

theorem sinceSeed_append_applied (ys : List Yield) (d : DepthUpdateEvent) (b : LocalOrderBook) :
    sinceSeed (ys ++ [.applied d b]) = (sinceSeed ys).map fun (s, ds) => (s, ds ++ [d]) := by
  simp only [sinceSeed, List.foldl_append, List.foldl_cons, List.foldl_nil]

/-- A book just seeded agrees with the exchange on the range of its snapshot. -/
theorem BookAgrees.seed {H : History} {s : OrderBook} (hs : ∃ eb ea, SnapshotOf H s eb ea)
    (ys : List Yield) (symbol : String) (b : LocalOrderBook) :
    BookAgrees H (ys ++ [.seeded s b]) ((LocalOrderBook.new symbol).seed s) := by
  refine ⟨s, [], sinceSeed_append_seeded ys s b, hs, fun eb ea hs => ?_⟩
  have hnone : ∀ side, touched side [] = ∅ := fun side =>
    Set.eq_empty_of_forall_notMem fun p ⟨d, hd, _⟩ => List.not_mem_nil hd
  rw [hnone, hnone, Set.union_empty, Set.union_empty]
  exact ⟨hs.bids.agrees, hs.asks.agrees⟩

/-- A truthful delta that reaches back to the book's last update keeps the agreement. -/
theorem BookAgrees.apply {H : History} {ys : List Yield} {book b : LocalOrderBook}
    {d : DepthUpdateEvent} (h : BookAgrees H ys book) (hd : Truthful H d)
    (hlo : d.firstUpdateId ≤ book.lastAppliedU + 1)
    (hhi : book.lastAppliedU ≤ d.finalUpdateId) :
    BookAgrees H (ys ++ [.applied d b]) (book.apply d) := by
  obtain ⟨seed, applied, hseed, hsnap, hagree⟩ := h
  refine ⟨seed, applied ++ [d], ?_, hsnap, fun eb ea hs => ?_⟩
  · rw [sinceSeed_append_applied, hseed]
    rfl
  · obtain ⟨hbids, hasks⟩ := hagree eb ea hs
    rw [touched_append, touched_append, ← Set.union_assoc, ← Set.union_assoc]
    exact ⟨hd.bids.agrees_applySide hbids hlo hhi, hd.asks.agrees_applySide hasks hlo hhi⟩

/-- What holds between two deltas: the state carries the book yielded last, `last_u` is that
book's `last_applied_u`, and the book agrees with the exchange. -/
structure Synced (H : History) (past : List Yield) (st : SyncState) : Prop where
  last : past.getLast?.map (·.book) = some st.book
  lastU : st.lastU = st.book.lastAppliedU
  agrees : BookAgrees H past st.book

/-- What is promised of a yielded book, given the yields before it. -/
structure GoodYield (H : History) (past : List Yield) (y : Yield) : Prop where
  agrees : BookAgrees H (past ++ [y]) y.book
  increases : ∀ d b, y = .applied d b →
    ∃ prev, past.getLast? = some prev ∧ prev.book.lastAppliedU < b.lastAppliedU

namespace OrderBookSynchronizer

variable {ε : Type} {H : History} {symbol : String} {depth : ℕ → Except ε OrderBook}

theorem synced_seed (hdepth : ProviderOf H depth) (past : List Yield) {n : ℕ} {s : OrderBook}
    {st : SyncState} (h : reseed symbol depth n = .ok (s, st)) :
    Synced H (past ++ [.seeded s st.book]) st ∧ GoodYield H past (.seeded s st.book) := by
  obtain ⟨hs, hst⟩ := reseed_ok h
  subst hst
  have hagrees := BookAgrees.seed (hdepth n s hs) past symbol ((LocalOrderBook.new symbol).seed s)
  refine ⟨⟨?_, rfl, hagrees⟩, ⟨hagrees, fun d b heq => ?_⟩⟩
  · rw [List.getLast?_concat]
    rfl
  · cases heq

/-- **One delta.** Applied to a synced book it gives a good yield and a synced book. -/
theorem synced_applied {past : List Yield} {st : SyncState} {d : DepthUpdateEvent}
    (hst : Synced H past st) (hd : Truthful H d) (hfresh : st.lastU < d.finalUpdateId)
    (hgap : isGap st d = false) :
    Synced H (past ++ [.applied d (applied st d).book]) (applied st d) ∧
      GoodYield H past (.applied d (applied st d).book) := by
  have hlo := firstUpdateId_le_of_not_isGap hgap
  rw [hst.lastU] at hfresh hlo
  have hagrees := hst.agrees.apply (b := st.book.apply d) hd hlo hfresh.le
  refine ⟨⟨?_, rfl, hagrees⟩, ⟨hagrees, fun d' b heq => ?_⟩⟩
  · rw [List.getLast?_concat]
    rfl
  · obtain ⟨-, hb⟩ := Yield.applied.inj heq
    obtain ⟨prev, hprev, hbook⟩ := Option.map_eq_some_iff.1 hst.last
    refine ⟨prev, hprev, ?_⟩
    rw [hbook, ← hb]
    exact hfresh

/-- Every book of a run is good, whatever the stream brings. -/
theorem run_good (hdepth : ProviderOf H depth) {deltas : List DepthUpdateEvent}
    (hdeltas : ∀ d ∈ deltas, Truthful H d) {pre : List Yield} {y : Yield} {post : List Yield}
    (h : (run symbol depth deltas).1 = pre ++ y :: post) : GoodYield H pre y := by
  have hlast {past : List Yield} {y : Yield} (hgood : GoodYield H past y) :
      ∀ pre y', past ++ [y] = pre ++ [y'] → GoodYield H pre y' := by
    intro pre y' heq
    obtain ⟨hpast, hy⟩ := List.append_inj' heq rfl
    rwa [← hpast, ← List.singleton_inj.1 hy]
  obtain ⟨st, ⟨-, hgood⟩, -⟩ := run_induction (I := fun past st =>
      Synced H past st ∧ ∀ pre y, past = pre ++ [y] → GoodYield H pre y)
    (fun past n s st hr => (synced_seed hdepth past hr).imp_right hlast)
    (fun past st d hd hI hfresh hgap =>
      (synced_applied hI.1 (hdeltas d hd) hfresh hgap).imp_right hlast) h
  exact hgood pre y rfl

/-- **Order-book safety.** Let the depth provider answer with snapshots of the exchange's book and
let every delta be truthful, in any order and with any loss, repetition or delay. Every book the
synchronizer yields agrees with the exchange at its own `last_applied_u` on the range its snapshot
covers and on every price touched since, and every applied delta makes `last_applied_u` larger. -/
theorem run_agrees (H : History) (symbol : String) (depth : ℕ → Except ε OrderBook)
    (deltas : List DepthUpdateEvent) (hdepth : ProviderOf H depth)
    (hdeltas : ∀ d ∈ deltas, Truthful H d) (pre : List Yield) (y : Yield) (post : List Yield)
    (h : (run symbol depth deltas).1 = pre ++ y :: post) :
    BookAgrees H (pre ++ [y]) y.book ∧ ∀ d b, y = .applied d b →
      ∃ prev, pre.getLast? = some prev ∧ prev.book.lastAppliedU < b.lastAppliedU := by
  have hgood : GoodYield H pre y := run_good hdepth hdeltas h
  exact ⟨hgood.agrees, hgood.increases⟩

/-- An exchange with one bid at 10, whose quantity goes from 1 to 2 with update 101. -/
def oneBidHistory : History where
  bids v p := if p = 10 then if v ≤ 100 then 1 else 2 else 0
  asks _ _ := 0

theorem oneBidHistory_snapshot :
    SnapshotOf oneBidHistory ⟨100, [⟨10, 1⟩], []⟩ .complete .complete where
  bids := by
    refine ⟨fun e he => ?_, fun p _ hp => ?_⟩
    · obtain rfl := List.mem_singleton.1 he
      exact ⟨by simp [oneBidHistory], by decide⟩
    · refine ⟨_, List.mem_singleton_self _, ?_⟩
      by_contra hne
      exact hp (if_neg (Ne.symm hne))
  asks := ⟨fun e he => absurd he List.not_mem_nil, fun p _ hp => absurd rfl hp⟩

theorem oneBidHistory_truthful : Truthful oneBidHistory ⟨100, 101, [⟨10, 2⟩], []⟩ where
  bids := by
    refine ⟨fun e he => ?_, fun p hp i _ _ => ?_⟩
    · obtain rfl := List.mem_singleton.1 he
      simp [oneBidHistory]
    · have hne : p ≠ 10 := fun h => hp _ (List.mem_singleton_self _) h.symm
      simp [oneBidHistory, hne]
  asks := ⟨fun e he => absurd he List.not_mem_nil, fun p _ i _ _ => rfl⟩

/-- The book after the delta for updates 100 and 101, over the snapshot at 100. -/
theorem run_agrees_oneBid :
    let snapshot : OrderBook := ⟨100, [⟨10, 1⟩], []⟩
    let delta : DepthUpdateEvent := ⟨100, 101, [⟨10, 2⟩], []⟩
    let book := (LocalOrderBook.new "BTCTHB").seed snapshot
    let ys : List Yield := [.seeded snapshot book, .applied delta (book.apply delta)]
    (run (ε := Unit) "BTCTHB" (fun _ => .ok snapshot) [delta]).1 = ys ∧
      BookAgrees oneBidHistory ys (book.apply delta) ∧
      ∀ d b, Yield.applied delta (book.apply delta) = .applied d b →
        ∃ prev, [Yield.seeded snapshot book].getLast? = some prev ∧
          prev.book.lastAppliedU < b.lastAppliedU := by
  intro snapshot delta book ys
  have hrun : (run (ε := Unit) "BTCTHB" (fun _ => .ok snapshot) [delta]).1 = ys := rfl
  refine ⟨hrun, run_agrees oneBidHistory "BTCTHB" (fun _ => Except.ok snapshot) [delta]
    (fun n s hs => ?_) (fun d hd => ?_) [.seeded snapshot book] _ [] hrun⟩
  · obtain rfl := Except.ok.inj hs
    exact ⟨_, _, oneBidHistory_snapshot⟩
  · obtain rfl := List.mem_singleton.1 hd
    exact oneBidHistory_truthful

end OrderBookSynchronizer

end BinanceTh
