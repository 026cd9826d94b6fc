import BinanceTh.Lib.Counting
import BinanceTh.Lib.Follower
import BinanceTh.OrderBook.Live
import BinanceTh.OrderBook.Safety

/-!
# A managed order book catches up

The task of a `ManagedOrderBook` is a follower of the exchange's update ids (`follower_step`): it
skips what its book has, applies what follows on it, and takes a new snapshot for what does not. So
the book that is shown never goes back (`run_shown_mono`), and when the task waits on an empty queue
the book is as new as every delta ever offered, also those that the queue has dropped
(`run_caughtUp`). As the task refines the synchronizer, that book agrees with the exchange.
-/

namespace BinanceTh

open Following Transition

namespace LiveBook

open OrderBookSynchronizer (oneBidHistory)

variable {α ε : Type} {validate : α → Except ε DepthUpdateEvent} {webSocketError : String → ε}
  {symbol : String} {queue : SubscriptionQueue α} {s s' t : LiveBook α ε}
  {label : LiveBookLabel α ε} {labels : List (LiveBookLabel α ε)}

/-! ## The task as a follower -/

def BookPhase.mode : BookPhase ε → FollowerMode ℤ
  | .scheduled => .idle
  | .fetching _ gap => .resyncing (gap.map DepthUpdateEvent.finalUpdateId)
  | .reading _ => .following
  | .ended _ => .ended

/-- The book as a follower of the update ids. -/
def follower (validate : α → Except ε DepthUpdateEvent) (s : LiveBook α ε) : Follower ℤ where
  queue := s.queue.items.map fun item =>
    (deltaOf validate item).map DepthUpdateEvent.finalUpdateId
  delivered := s.delivered.map DepthUpdateEvent.finalUpdateId
  shown := s.book.map LocalOrderBook.lastAppliedU
  mode := BookPhase.mode s.phase

/-- Deltas are offered in the order of their final ids, and a snapshot that is taken for a gap is as
new as the delta that has left it. -/
def InOrder (validate : α → Except ε DepthUpdateEvent) (s : LiveBook α ε) :
    LiveBookLabel α ε → Prop
  | .offer item => ∀ d, deltaOf validate item = some d →
    ∀ d' ∈ s.delivered, d'.finalUpdateId ≤ d.finalUpdateId
  | .answered (.ok snapshot) => ∀ fetched d, s.phase = .fetching fetched (some d) →
    d.finalUpdateId ≤ snapshot.lastUpdateId
  | _ => True

instance (validate : α → Except ε DepthUpdateEvent) (s : LiveBook α ε) :
    ∀ label, Decidable (s.InOrder validate label)
  | .offer item => decidable_of_iff (∀ d ∈ deltaOf validate item, ∀ d' ∈ s.delivered,
      d'.finalUpdateId ≤ d.finalUpdateId) Iff.rfl
  | .answered (.ok snapshot) =>
    match hphase : s.phase with
    | .fetching fetched (some d) => decidable_of_iff (d.finalUpdateId ≤ snapshot.lastUpdateId)
        ⟨fun hle _ _ heq => by rw [hphase] at heq; cases heq; exact hle,
          fun hall => hall fetched d hphase⟩
    | .fetching _ none | .scheduled | .reading _ | .ended _ =>
      isTrue fun _ _ heq => by rw [hphase] at heq; cases heq
  | .answered (.error _) | .began | .pull | .cancelled => isTrue trivial

/-- A task that waits for a delta shows its own book. -/
theorem Refines.shown {st : SyncState} (h : s.Refines) (hphase : s.phase = .reading st)
    (validate : α → Except ε DepthUpdateEvent) : (follower validate s).shown = some st.lastU := by
  have hstands := h.stands
  unfold Stands at hstands
  rw [hphase] at hstands
  rw [follower, h.book, hstands.1.last, hstands.1.lastU]
  rfl

theorem follower_pull (h : s.Refines) (hstep : s.step validate webSocketError .pull = some s') :
    ∃ applies, (follower validate s).step (.take applies) = some (follower validate s') := by
  obtain ⟨st, item, items, hphase, hitems, rfl⟩ := step_pull hstep
  have hshown := h.shown hphase validate
  have hmode : (follower validate s).mode = .following := by rw [follower, hphase]; rfl
  have hqueue : (follower validate s).queue =
      (deltaOf validate item).map DepthUpdateEvent.finalUpdateId ::
        items.map fun item => (deltaOf validate item).map DepthUpdateEvent.finalUpdateId := by
    rw [follower, hitems]
    rfl
  have htake := Follower.step_take hmode hshown hqueue
  cases item with
  | closed => exact ⟨true, htake true⟩
  | fault message => exact ⟨true, htake true⟩
  | payload a =>
    cases hvalid : validate a with
    | error e =>
      refine ⟨true, (htake true).trans ?_⟩
      simp [Follower.taken, deltaOf, hvalid, consume, follower, BookPhase.mode, Except.toOption]
    | ok delta =>
      have hdelta : deltaOf validate (.payload a) = some delta := by
        rw [deltaOf, hvalid]
        rfl
      refine ⟨!OrderBookSynchronizer.isGap st delta, (htake _).trans ?_⟩
      rw [hdelta]
      simp only [hvalid, consume, Option.map_some, LiveBook.onDelta, Follower.taken]
      split
      · rfl
      · cases hgap : OrderBookSynchronizer.isGap st delta with
        | true => rfl
        | false => simp [follower, yielded, hphase, BookPhase.mode, Yield.book, LocalOrderBook.apply]

/-- **The task follows.** Each step is one of the follower. -/
theorem follower_step (h : s.Refines) (horder : s.InOrder validate label)
    (hstep : s.step validate webSocketError label = some s') :
    ∃ l, (follower validate s).InOrder l ∧
      (follower validate s).step l = some (follower validate s') := by
  cases label with
  | offer item =>
    obtain rfl := Option.some.inj hstep
    refine ⟨.deliver ((deltaOf validate item).map DepthUpdateEvent.finalUpdateId) s.queue.full,
      ?_, ?_⟩
    · intro v hv v' hv'
      obtain ⟨d, hd, rfl⟩ := Option.map_eq_some_iff.1 hv
      obtain ⟨d', hd', rfl⟩ := List.mem_map.1 hv'
      exact horder d hd d' hd'
    · have hitems : (s.queue.offer item).items.map (fun item =>
          (deltaOf validate item).map DepthUpdateEvent.finalUpdateId) =
          (if s.queue.full then (follower validate s).queue.tail else (follower validate s).queue) ++
            [(deltaOf validate item).map DepthUpdateEvent.finalUpdateId] := by
        rw [SubscriptionQueue.items_offer, List.map_append]
        split <;> simp [follower]
      have hdelivered : (s.delivered ++ (deltaOf validate item).toList).map
          DepthUpdateEvent.finalUpdateId = s.delivered.map DepthUpdateEvent.finalUpdateId ++
            ((deltaOf validate item).map DepthUpdateEvent.finalUpdateId).toList := by
        rw [List.map_append]
        cases deltaOf validate item <;> rfl
      simp only [Follower.step, follower, Option.some.injEq]
      rw [hitems, hdelivered]
      rfl
  | began =>
    rw [step] at hstep
    split at hstep
    · next hphase =>
      obtain rfl := Option.some.inj hstep
      refine ⟨.begin, trivial, ?_⟩
      simp [Follower.step, follower, hphase, BookPhase.mode]
    · cases hstep
  | answered reply =>
    obtain ⟨fetched, gap, hphase, ⟨e, -, rfl⟩ | ⟨snapshot, rfl, rfl⟩⟩ := step_answered hstep
    · exact ⟨.stop, trivial, rfl⟩
    · refine ⟨.answer snapshot.lastUpdateId, fun u hu => ?_, ?_⟩
      · rw [follower, hphase] at hu
        obtain ⟨d, rfl, rfl⟩ := Option.map_eq_some_iff.1 (FollowerMode.resyncing.inj hu)
        exact horder fetched d hphase
      · simp [Follower.step, follower, hphase, BookPhase.mode, yielded, Yield.book,
          LocalOrderBook.seed]
  | pull =>
    obtain ⟨applies, htake⟩ := follower_pull h hstep
    exact ⟨.take applies, trivial, htake⟩
  | cancelled =>
    rw [step] at hstep
    split at hstep
    · cases hstep
    · obtain rfl := Option.some.inj hstep
      exact ⟨.stop, trivial, rfl⟩

/-! ## Runs -/

theorem run_follows (h : s.Refines)
    (horder : (system validate webSocketError symbol queue).Guarded (InOrder validate) s labels)
    (hrun : (system validate webSocketError symbol queue).run s labels = some t) :
    ∃ ls, (Follower.system ℤ).Guarded Follower.InOrder (follower validate s) ls ∧
      (Follower.system ℤ).run (follower validate s) ls = some (follower validate t) :=
  System.run_simulates (C := InOrder validate) (I := Refines) (follower validate)
    (fun _ _ _ hI hC hstep => ⟨hI.step hstep, .inr (follower_step hI hC hstep)⟩) labels h horder hrun

theorem follower_inv (hqueue : queue.items = [])
    (horder : (system validate webSocketError symbol queue).Guarded (InOrder validate)
      (new symbol queue) labels)
    (hrun : (system validate webSocketError symbol queue).run (new symbol queue) labels = some t) :
    (follower validate t).Inv := by
  obtain ⟨ls, hguarded, hrun'⟩ := run_follows (refines_new symbol queue) horder hrun
  have hnew : follower validate (new symbol queue : LiveBook α ε) = Follower.new := by
    simp [follower, new, hqueue, BookPhase.mode, Follower.new]
  rw [hnew] at hguarded hrun'
  exact (Follower.shown_le_of_run Follower.inv_new hguarded hrun').1

/-- **The book that is shown never goes back**, whatever was lost or dropped on the way. -/
theorem run_shown_mono {labels' : List (LiveBookLabel α ε)} (hqueue : queue.items = [])
    (horder : (system validate webSocketError symbol queue).Guarded (InOrder validate)
      (new symbol queue) (labels ++ labels'))
    (hrun : (system validate webSocketError symbol queue).run (new symbol queue) labels = some s)
    (hrun' : (system validate webSocketError symbol queue).run s labels' = some t)
    {book : LocalOrderBook} (hbook : s.book = some book) :
    ∃ book', t.book = some book' ∧ book.lastAppliedU ≤ book'.lastAppliedU := by
  obtain ⟨horder, horder'⟩ := (System.guarded_append_iff hrun).1 horder
  obtain ⟨ls, hguarded, hfollows⟩ := run_follows (refines_of_run hrun) horder' hrun'
  obtain ⟨-, hmono⟩ := Follower.shown_le_of_run (follower_inv hqueue horder hrun) hguarded hfollows
  obtain ⟨u, hu, hle⟩ := hmono book.lastAppliedU (by rw [follower, hbook]; rfl)
  obtain ⟨book', hbook', rfl⟩ := Option.map_eq_some_iff.1 hu
  exact ⟨book', hbook', hle⟩

/-- From the first snapshot to the second. -/
theorem run_shown_mono_droppedDelta :
    ∃ s t : LiveBook DepthUpdateEvent String,
      (system .ok id "BTCTHB" { maxsize := 1 }).run (new "BTCTHB" { maxsize := 1 })
          (droppedDelta.take 2) = some s ∧
        (system .ok id "BTCTHB" { maxsize := 1 }).run s (droppedDelta.drop 2) = some t ∧
        ∃ book book', s.book = some book ∧ t.book = some book' ∧
          book.lastAppliedU ≤ book'.lastAppliedU := by
  obtain ⟨s, t, book, hrun, hrun', hbook⟩ : ∃ (s t : LiveBook DepthUpdateEvent String) (book : _),
      (system .ok id "BTCTHB" { maxsize := 1 }).run (new "BTCTHB" { maxsize := 1 })
          (droppedDelta.take 2) = some s ∧
        (system .ok id "BTCTHB" { maxsize := 1 }).run s (droppedDelta.drop 2) = some t ∧
        s.book = some book := ⟨_, _, _, rfl, rfl, rfl⟩
  obtain ⟨book', hbook', hle⟩ := run_shown_mono rfl (by decide) hrun hrun' hbook
  exact ⟨s, t, hrun, hrun', book, book', hbook, hbook', hle⟩

/-- The deltas offered are truthful, and the snapshots are those of the exchange. -/
def Honest (H : History) (validate : α → Except ε DepthUpdateEvent) : LiveBookLabel α ε → Prop
  | .offer item => ∀ d, deltaOf validate item = some d → Truthful H d
  | .answered (.ok snapshot) => ∃ eb ea, SnapshotOf H snapshot eb ea
  | _ => True

structure Sound (H : History) (s : LiveBook α ε) : Prop where
  answers : ∀ snapshot ∈ s.answers, ∃ eb ea, SnapshotOf H snapshot eb ea
  delivered : ∀ d ∈ s.delivered, Truthful H d

theorem Sound.step {H : History} (h : s.Sound H) (hhonest : Honest H validate label)
    (hstep : s.step validate webSocketError label = some s') : s'.Sound H := by
  cases label with
  | offer item =>
    obtain rfl := Option.some.inj hstep
    refine ⟨h.answers, fun d hd => ?_⟩
    rcases List.mem_append.1 hd with hd | hd
    · exact h.delivered d hd
    · exact hhonest d (Option.mem_toList.1 hd)
  | began =>
    rw [LiveBook.step] at hstep
    split at hstep
    · obtain rfl := Option.some.inj hstep
      exact ⟨h.answers, h.delivered⟩
    · cases hstep
  | answered reply =>
    obtain ⟨fetched, gap, -, ⟨e, -, rfl⟩ | ⟨snapshot, rfl, rfl⟩⟩ := step_answered hstep
    · exact ⟨h.answers, h.delivered⟩
    · refine ⟨fun s hs => ?_, h.delivered⟩
      rcases List.mem_append.1 hs with hs | hs
      · exact h.answers s hs
      · rw [List.mem_singleton.1 hs]
        exact hhonest
  | pull =>
    obtain ⟨st, item, items, -, -, rfl⟩ := step_pull hstep
    obtain ⟨-, hdelivered, hanswers, -⟩ := consume_frame validate webSocketError
      { s with queue := { s.queue with items, ended := s.queue.ended || item.isEnd } } st item
    refine ⟨fun snapshot hs => ?_, fun d hd => ?_⟩
    · rw [hanswers] at hs
      exact h.answers snapshot hs
    · rw [hdelivered] at hd
      exact h.delivered d hd
  | cancelled =>
    rw [LiveBook.step] at hstep
    split at hstep
    · cases hstep
    · obtain rfl := Option.some.inj hstep
      exact ⟨h.answers, h.delivered⟩

/-- The book that is shown agrees with the exchange. -/
theorem Refines.agrees {H : History} (h : s.Refines) (hsound : s.Sound H)
    (hpulled : ∀ d ∈ s.pulled, d ∈ s.delivered) {book : LocalOrderBook}
    (hbook : s.book = some book) : BookAgrees H s.yields book := by
  rw [h.book, Option.map_eq_some_iff] at hbook
  obtain ⟨y, hy, rfl⟩ := hbook
  obtain ⟨pre, hpre⟩ := List.getLast?_eq_some_iff.1 hy
  have hprovider : ProviderOf H (provider s.answers) := by
    intro n snapshot hs
    unfold provider at hs
    split at hs
    · next heq =>
      obtain rfl := Except.ok.inj hs
      exact hsound.answers _ (List.mem_of_getElem? heq)
    · cases hs
  have hgood := OrderBookSynchronizer.run_good hprovider
    (fun d hd => hsound.delivered d (hpulled d hd)) (h.stands.yields_eq.trans hpre)
  rw [hpre]
  exact hgood.agrees

/-- **Catching up.** The book that is shown agrees with the exchange at its own last update. When the
task waits for a delta and its queue is empty, that update is as new as every delta that was ever
offered, also those that the queue has dropped. -/
theorem run_caughtUp (H : History) (hqueue : queue.items = [])
    (horder : (system validate webSocketError symbol queue).Guarded (InOrder validate)
      (new symbol queue) labels)
    (hhonest : ∀ label ∈ labels, Honest H validate label)
    (hrun : (system validate webSocketError symbol queue).run (new symbol queue) labels = some t) :
    (∀ book, t.book = some book → BookAgrees H t.yields book) ∧
      ∀ st, t.phase = .reading st → t.queue.items = [] →
        ∃ book, t.book = some book ∧ ∀ d ∈ t.delivered, d.finalUpdateId ≤ book.lastAppliedU := by
  have hrefines := refines_of_run hrun
  have hsound : t.Sound H := System.run_invariant (fun _ _ _ hI hC hstep => hI.step hC hstep) labels
    ⟨fun _ hs => absurd hs List.not_mem_nil, fun _ hd => absurd hd List.not_mem_nil⟩
    (System.guarded_of_forall labels hhonest _) hrun
  have hfed := fed_of_run hrun hqueue
  refine ⟨fun book hbook => hrefines.agrees hsound
    (fun d hd => hfed.subset (List.mem_append_left _ hd)) hbook, fun st hphase hempty => ?_⟩
  have hcaught := (follower_inv hqueue horder hrun).caughtUp (by rw [follower, hphase]; rfl)
    (by rw [follower, hempty]; rfl)
  have hshown := hrefines.shown hphase validate
  obtain ⟨book, hbook, hlast⟩ := Option.map_eq_some_iff.1 hshown
  refine ⟨book, hbook, fun d hd => ?_⟩
  obtain ⟨u, hu, hle⟩ := hcaught d.finalUpdateId (List.mem_map_of_mem hd)
  obtain rfl := Option.some.inj (hshown.symm.trans hu)
  rwa [hlast]

theorem snapshot_oneBid : SnapshotOf oneBidHistory ⟨102, [⟨10, 2⟩], []⟩
    .complete .complete := by
  refine ⟨⟨fun e he => ?_, fun p _ hp => ?_⟩,
    ⟨fun e he => absurd he List.not_mem_nil, fun p _ hp => absurd rfl hp⟩⟩
  · obtain rfl := List.mem_singleton.1 he
    exact ⟨by simp [oneBidHistory], by decide⟩
  · refine ⟨_, List.mem_singleton_self _, ?_⟩
    by_contra hne
    exact hp (if_neg (Ne.symm hne))

/-- A delta for one update, which lists the level of update 101 and no other. -/
theorem truthful_oneBid {lo : ℤ} {levels : List OrderBookEntry} (hlo : 101 ≤ lo)
    (hlevels : ∀ e ∈ levels, e = ⟨10, 2⟩) (hfirst : lo = 101 → levels ≠ []) :
    Truthful oneBidHistory ⟨lo, lo, levels, []⟩ := by
  refine ⟨⟨fun e he => ?_, fun p hp i hi hi' => ?_⟩,
    ⟨fun e he => absurd he List.not_mem_nil, fun p _ i _ _ => rfl⟩⟩
  · rw [hlevels e he]
    simp only [oneBidHistory, if_true]
    rw [if_neg (by omega)]
  · change lo ≤ i at hi
    change i ≤ lo at hi'
    by_cases hp' : p = 10
    · have hlater : lo ≠ 101 := by
        intro heq
        obtain ⟨e, he⟩ := List.exists_mem_of_ne_nil levels (hfirst heq)
        exact hp e he (by rw [hlevels e he, hp'])
      simp only [oneBidHistory, if_pos hp']
      rw [if_neg (by omega), if_neg (by omega)]
    · simp only [oneBidHistory, if_neg hp']

theorem run_caughtUp_droppedDelta :
    ∃ (t : LiveBook DepthUpdateEvent String) (st : SyncState) (book : LocalOrderBook),
      (system .ok id "BTCTHB" { maxsize := 1 }).run (new "BTCTHB" { maxsize := 1 })
          droppedDelta = some t ∧ t.phase = .reading st ∧ t.book = some book ∧
        BookAgrees oneBidHistory t.yields book ∧
        ∀ d ∈ t.delivered, d.finalUpdateId ≤ book.lastAppliedU := by
  have hhonest : ∀ label ∈ droppedDelta,
      Honest oneBidHistory .ok label := by
    simp only [droppedDelta, List.forall_mem_cons]
    refine ⟨trivial, ⟨_, _, OrderBookSynchronizer.oneBidHistory_snapshot⟩, ?_, ?_, trivial,
      ⟨_, _, snapshot_oneBid⟩, fun _ hlabel => absurd hlabel List.not_mem_nil⟩
    · intro d hd
      obtain rfl := Option.some.inj hd
      exact truthful_oneBid (by omega) (by simp) (by simp)
    · intro d hd
      obtain rfl := Option.some.inj hd
      exact truthful_oneBid (by omega) (by simp) (by simp)
  obtain ⟨t, st, hrun, hphase, hempty⟩ : ∃ t st,
      (system .ok id "BTCTHB" { maxsize := 1 }).run (new "BTCTHB" { maxsize := 1 })
        droppedDelta = some t ∧ t.phase = .reading st ∧ t.queue.items = [] := ⟨_, _, rfl, rfl, rfl⟩
  obtain ⟨hagrees, hcaught⟩ := run_caughtUp oneBidHistory rfl (by decide)
    hhonest hrun
  obtain ⟨book, hbook, hall⟩ := hcaught st hphase hempty
  exact ⟨t, st, book, hrun, hphase, hbook, hagrees book hbook, hall⟩

end LiveBook

end BinanceTh
