import BinanceTh.Exceptions
import BinanceTh.OrderBook
import Mathlib.Data.List.Induction

/-!
# Which deltas a run covers

A delta that leaves a gap is pulled from the stream and then dropped: the synchronizer takes a new
snapshot and goes on with the next delta. Between two snapshots nothing is lost (`covered_of_noGap`):
the last update id is that of the snapshot or of the newest delta since. So a whole run covers every
delta it has pulled exactly when the last snapshot, or a delta after it, is as new as each delta
before it (`run_covers_iff`).
-/

namespace BinanceTh

/-- A split of a list with one more element is at that element, or a split of the list. -/
theorem split_concat {α : Type} {l pre post : List α} {x a : α} (h : l ++ [x] = pre ++ a :: post) :
    (pre = l ∧ a = x ∧ post = []) ∨ ∃ post', post = post' ++ [x] ∧ l = pre ++ a :: post' := by
  rcases List.eq_nil_or_concat post with hpost | ⟨post', b, hpost⟩
  · subst hpost
    obtain ⟨hl, hx⟩ := List.append_inj' h rfl
    exact .inl ⟨hl.symm, (List.singleton_inj.1 hx).symm, rfl⟩
  · have hsplit : l ++ [x] = (pre ++ a :: post') ++ [b] := by simp [h, hpost]
    obtain ⟨hl, hx⟩ := List.append_inj' hsplit rfl
    obtain rfl := List.singleton_inj.1 hx
    exact .inr ⟨post', by simpa using hpost, hl⟩

/-- Of the splits of a list at an element for which `G` holds there is a last one, or none. -/
theorem exists_last_split {α : Type} (G : List α → α → Prop) (l : List α) :
    (∀ pre a post, l = pre ++ a :: post → ¬ G pre a) ∨
    ∃ pre a post, l = pre ++ a :: post ∧ G pre a ∧
      ∀ pre' a' post', post = pre' ++ a' :: post' → ¬ G (pre ++ a :: pre') a' := by
  induction l using List.reverseRecOn with
  | nil =>
    left
    intro pre a post h
    simp at h
  | append_singleton l x ih =>
    by_cases hx : G l x
    · right
      refine ⟨l, x, [], rfl, hx, ?_⟩
      intro pre' a' post' h
      simp at h
    · rcases ih with hnone | ⟨pre, a, post, hl, hG, hlast⟩
      · left
        intro pre a post h
        rcases split_concat h with ⟨hpre, ha, -⟩ | ⟨post', -, hl⟩
        · rwa [hpre, ha]
        · exact hnone pre a post' hl
      · right
        refine ⟨pre, a, post ++ [x], by simp [hl], hG, ?_⟩
        intro pre' a' post' h
        rcases split_concat h with ⟨hpre, ha, -⟩ | ⟨post'', -, hpost⟩
        · rwa [hpre, ha, ← hl]
        · exact hlast pre' a' post'' hpost

namespace OrderBookSynchronizer

variable {ε : Type} {symbol : String} {depth : ℕ → Except ε OrderBook}

/-! ## The state after some deltas -/

/-- The state that the loop reaches from `st` with the deltas pulled so far. -/
def after (symbol : String) (depth : ℕ → Except ε OrderBook) :
    SyncState → List DepthUpdateEvent → Except ε SyncState
  | st, [] => .ok st
  | st, delta :: deltas => onDelta symbol depth st delta >>= fun r => after symbol depth r.2 deltas

/-- The state of `run` with the deltas pulled so far. -/
def stateAfter (symbol : String) (depth : ℕ → Except ε OrderBook) (deltas : List DepthUpdateEvent) :
    Except ε SyncState :=
  reseed symbol depth 0 >>= fun r => after symbol depth r.2 deltas

/-- After the deltas `pre`, the delta leaves a gap and the snapshot `s` is taken. -/
def Resnapshots (symbol : String) (depth : ℕ → Except ε OrderBook) (pre : List DepthUpdateEvent)
    (delta : DepthUpdateEvent) (s : OrderBook) : Prop :=
  ∃ st, stateAfter symbol depth pre = .ok st ∧ st.lastU < delta.finalUpdateId ∧
    isGap st delta = true ∧ depth st.fetched = .ok s

theorem after_cons_iff {st st' : SyncState} {d : DepthUpdateEvent} {ds : List DepthUpdateEvent} :
    after symbol depth st (d :: ds) = .ok st' ↔
      ∃ y st₁, onDelta symbol depth st d = .ok (y, st₁) ∧ after symbol depth st₁ ds = .ok st' := by
  rw [after, bind_eq_ok_iff, Prod.exists]

theorem after_append (ds₁ ds₂ : List DepthUpdateEvent) (st : SyncState) :
    after symbol depth st (ds₁ ++ ds₂) =
      after symbol depth st ds₁ >>= fun st₁ => after symbol depth st₁ ds₂ := by
  induction ds₁ generalizing st with
  | nil => rfl
  | cons d ds₁ ih => simp only [List.cons_append, after, bind_assoc, ih]

theorem stateAfter_append (ds₁ ds₂ : List DepthUpdateEvent) :
    stateAfter symbol depth (ds₁ ++ ds₂) =
      stateAfter symbol depth ds₁ >>= fun st₁ => after symbol depth st₁ ds₂ := by
  simp only [stateAfter, bind_assoc, after_append]

/-- The last book that a finished loop yields, or the one it began with, is that of its last state. -/
theorem loop_ends {deltas : List DepthUpdateEvent} :
    ∀ {st : SyncState} (y₀ : Yield) {ys : List Yield},
      y₀.book.lastAppliedU = st.lastU → loop symbol depth st deltas = (ys, .ok ()) →
      ∃ st', after symbol depth st deltas = .ok st' ∧
        ∃ y, (y₀ :: ys).getLast? = some y ∧ y.book.lastAppliedU = st'.lastU := by
  induction deltas with
  | nil =>
    intro st y₀ ys hbook h
    obtain ⟨hys, -⟩ := Prod.mk.inj h
    subst hys
    exact ⟨st, rfl, y₀, rfl, hbook⟩
  | cons delta deltas ih =>
    intro st y₀ ys hbook h
    rw [loop] at h
    split at h
    · obtain ⟨-, herr⟩ := Prod.mk.inj h
      cases herr
    · next y st₁ hstep =>
      obtain ⟨hys, hr⟩ := Prod.mk.inj h
      have hrest : loop symbol depth st₁ deltas = ((loop symbol depth st₁ deltas).1, .ok ()) := by
        rw [← hr]
      simp only [after_cons_iff, hstep]
      -- a delta that yields nothing leaves the state, another one yields the new state's book
      rcases onDelta_cases hstep with ⟨-, hy, hst⟩ | ⟨-, -, s, hseed, hy⟩ | ⟨-, -, hst, hy⟩
      · subst hst hy
        obtain ⟨st', hafter, hlast⟩ := ih y₀ hbook hrest
        exact ⟨st', ⟨_, _, rfl, hafter⟩, hys ▸ hlast⟩
      · obtain ⟨-, hst⟩ := reseed_ok hseed
        subst hy
        obtain ⟨st', hafter, hlast⟩ := ih (.seeded s st₁.book) (by rw [hst]; rfl) hrest
        refine ⟨st', ⟨_, _, rfl, hafter⟩, ?_⟩
        rw [← hys]
        exact hlast
      · subst hst hy
        obtain ⟨st', hafter, hlast⟩ := ih (.applied delta (applied st delta).book) rfl hrest
        refine ⟨st', ⟨_, _, rfl, hafter⟩, ?_⟩
        rw [← hys]
        exact hlast

/-- A run that ends with its stream yields a last book, that of its last state. -/
theorem run_ends {deltas : List DepthUpdateEvent} {ys : List Yield}
    (h : run symbol depth deltas = (ys, .ok ())) :
    ∃ st, stateAfter symbol depth deltas = .ok st ∧
      ∃ y, ys.getLast? = some y ∧ y.book.lastAppliedU = st.lastU := by
  unfold run at h
  split at h
  · obtain ⟨-, herr⟩ := Prod.mk.inj h
    cases herr
  · next s st hseed =>
    obtain ⟨hys, hr⟩ := Prod.mk.inj h
    obtain ⟨-, hst⟩ := reseed_ok hseed
    have hrest : loop symbol depth st deltas = ((loop symbol depth st deltas).1, .ok ()) := by
      rw [← hr]
    obtain ⟨st', hafter, hlast⟩ := loop_ends (.seeded s st.book) (by rw [hst]; rfl) hrest
    refine ⟨st', ?_, hys ▸ hlast⟩
    unfold stateAfter
    rw [hseed]
    exact hafter

/-! ## Between two snapshots -/

/-- No delta of the list leaves a gap. -/
def NoGap (symbol : String) (depth : ℕ → Except ε OrderBook) (st : SyncState)
    (deltas : List DepthUpdateEvent) : Prop :=
  ∀ pre d post st', deltas = pre ++ d :: post → after symbol depth st pre = .ok st' →
    ¬ (st'.lastU < d.finalUpdateId ∧ isGap st' d = true)

theorem NoGap.tail {st st₁ : SyncState} {d : DepthUpdateEvent} {ds : List DepthUpdateEvent}
    {y : Option Yield} (h : NoGap symbol depth st (d :: ds))
    (hstep : onDelta symbol depth st d = .ok (y, st₁)) : NoGap symbol depth st₁ ds := by
  intro pre d' post st' hsplit hafter
  exact h (d :: pre) d' post st' (by simp [hsplit]) (after_cons_iff.2 ⟨y, st₁, hstep, hafter⟩)

/-- **Nothing is lost between two snapshots.** Without a gap the last update id covers all the
deltas pulled, and it comes from one of them or was there before. -/
theorem covered_of_noGap {deltas : List DepthUpdateEvent} {st st' : SyncState}
    (hgap : NoGap symbol depth st deltas) (h : after symbol depth st deltas = .ok st') :
    st.lastU ≤ st'.lastU ∧ (∀ d ∈ deltas, d.finalUpdateId ≤ st'.lastU) ∧
      (st'.lastU = st.lastU ∨ ∃ d ∈ deltas, st'.lastU = d.finalUpdateId) := by
  induction deltas generalizing st with
  | nil =>
    obtain rfl := Except.ok.inj h
    exact ⟨le_refl _, by simp, .inl rfl⟩
  | cons delta deltas ih =>
    obtain ⟨y, st₁, hstep, hrest⟩ := after_cons_iff.1 h
    obtain ⟨hle, hall, hfrom⟩ := ih (hgap.tail hstep) hrest
    -- what the delta itself gives, and the rest of the list
    have hnext : st.lastU ≤ st₁.lastU ∧ delta.finalUpdateId ≤ st₁.lastU ∧
        (st₁.lastU = st.lastU ∨ st₁.lastU = delta.finalUpdateId) := by
      rcases onDelta_cases hstep with ⟨hstale, -, hst⟩ | ⟨hlt, hyes, -⟩ | ⟨hlt, -, hst, -⟩
      · subst hst
        omega
      · exact absurd ⟨hlt, hyes⟩ (hgap [] delta deltas st rfl rfl)
      · have hU : st₁.lastU = delta.finalUpdateId := by rw [hst]; rfl
        omega
    refine ⟨by omega, ?_, ?_⟩
    · intro d hd
      rcases List.mem_cons.1 hd with hd | hd
      · subst hd
        omega
      · exact hall d hd
    · rcases hfrom with hsame | ⟨d, hd, heq⟩
      · rcases hnext.2.2 with hold | hnew
        · exact .inl (by omega)
        · exact .inr ⟨delta, List.mem_cons_self, by omega⟩
      · exact .inr ⟨d, List.mem_cons_of_mem _ hd, heq⟩

/-! ## A whole run -/

/-- A finished run takes a snapshot at every gap. -/
theorem noGap_of_noResnapshot {before deltas : List DepthUpdateEvent} {st st' : SyncState}
    (hbefore : stateAfter symbol depth before = .ok st) (h : after symbol depth st deltas = .ok st')
    (hnone : ∀ pre d post s, deltas = pre ++ d :: post → ¬ Resnapshots symbol depth (before ++ pre) d s) :
    NoGap symbol depth st deltas := by
  intro pre d post st₁ hsplit hafter ⟨hlt, hyes⟩
  rw [hsplit, after_append, hafter] at h
  obtain ⟨y, st₂, hstep, -⟩ := after_cons_iff.1 h
  have hstate : stateAfter symbol depth (before ++ pre) = .ok st₁ := by
    rw [stateAfter_append, hbefore]
    exact hafter
  rcases onDelta_cases hstep with ⟨hstale, -⟩ | ⟨-, -, s, hseed, -⟩ | ⟨-, hno, -⟩
  · omega
  · exact hnone pre d post s hsplit ⟨st₁, hstate, hlt, hyes, (reseed_ok hseed).1⟩
  · rw [hyes] at hno
    cases hno

/-- At the last snapshot that a gap leads to: from there on nothing is lost. -/
theorem lastU_of_resnapshots {pre post : List DepthUpdateEvent} {d : DepthUpdateEvent}
    {s : OrderBook} {st' : SyncState} (hgap : Resnapshots symbol depth pre d s)
    (hlast : ∀ pre' d' post' s', post = pre' ++ d' :: post' →
      ¬ Resnapshots symbol depth (pre ++ d :: pre') d' s')
    (h : stateAfter symbol depth (pre ++ d :: post) = .ok st') :
    s.lastUpdateId ≤ st'.lastU ∧ (∀ d' ∈ post, d'.finalUpdateId ≤ st'.lastU) ∧
      (st'.lastU = s.lastUpdateId ∨ ∃ d' ∈ post, st'.lastU = d'.finalUpdateId) := by
  obtain ⟨st, hpre, hlt, hyes, hs⟩ := hgap
  rw [stateAfter_append, hpre] at h
  obtain ⟨y, st₁, hstep, hrest⟩ := after_cons_iff.1 h
  rcases onDelta_cases hstep with ⟨hstale, -⟩ | ⟨-, -, s', hseed, -⟩ | ⟨-, hno, -⟩
  · omega
  · obtain ⟨hs', hst₁⟩ := reseed_ok hseed
    obtain rfl := Except.ok.inj (hs.symm.trans hs')
    have hU : st₁.lastU = s.lastUpdateId := by rw [hst₁]
    have hstate : stateAfter symbol depth (pre ++ [d]) = .ok st₁ := by
      rw [stateAfter_append, hpre]
      exact after_cons_iff.2 ⟨y, st₁, hstep, rfl⟩
    rw [← hU]
    refine covered_of_noGap (noGap_of_noResnapshot hstate hrest ?_) hrest
    intro pre' d' post' s' hsplit
    rw [List.append_assoc]
    exact hlast pre' d' post' s' hsplit
  · rw [hyes] at hno
    cases hno

/-- The last book of a run is at least as new as every delta pulled. -/
def CoversAll (ys : List Yield) (deltas : List DepthUpdateEvent) : Prop :=
  ∃ y, ys.getLast? = some y ∧ ∀ d ∈ deltas, d.finalUpdateId ≤ y.book.lastAppliedU

/-- **What a finished run covers.** A run that ends with its stream covers every delta it pulled
exactly when, at the last delta that made it take a new snapshot, that snapshot or a delta pulled
later is at least as new as each delta pulled up to there. -/
theorem run_covers_iff {deltas : List DepthUpdateEvent} {ys : List Yield}
    (h : run symbol depth deltas = (ys, .ok ())) :
    CoversAll ys deltas ↔ ∀ pre d post s, deltas = pre ++ d :: post →
      Resnapshots symbol depth pre d s →
      (∀ pre' d' post' s', post = pre' ++ d' :: post' →
        ¬ Resnapshots symbol depth (pre ++ d :: pre') d' s') →
      ∀ d' ∈ pre ++ [d], d'.finalUpdateId ≤ s.lastUpdateId ∨
        ∃ d'' ∈ post, d'.finalUpdateId ≤ d''.finalUpdateId := by
  obtain ⟨st, hstate, y, hy, hU⟩ := run_ends h
  have hcovers : CoversAll ys deltas ↔ ∀ d ∈ deltas, d.finalUpdateId ≤ st.lastU := by
    unfold CoversAll
    simp only [hy, Option.some.injEq, exists_eq_left', hU]
  rw [hcovers]
  constructor
  · intro hall pre d post s hsplit hgap hlast d' hd'
    subst hsplit
    obtain ⟨-, -, hfrom⟩ := lastU_of_resnapshots hgap hlast hstate
    have hle : d'.finalUpdateId ≤ st.lastU := by
      refine hall d' ?_
      rw [List.append_cons]
      exact List.mem_append_left post hd'
    rcases hfrom with hsame | ⟨d'', hd'', heq⟩
    · left
      omega
    · right
      exact ⟨d'', hd'', by omega⟩
  · intro hcond d' hd'
    rcases exists_last_split (fun pre d => ∃ s, Resnapshots symbol depth pre d s) deltas with
      hnone | ⟨pre, d, post, hsplit, ⟨s, hgap⟩, hlast⟩
    · -- the first snapshot stays in force
      obtain ⟨r, hseed, hafter⟩ := bind_eq_ok_iff.1 hstate
      have hempty : stateAfter symbol depth [] = .ok r.2 := bind_eq_ok_iff.2 ⟨r, hseed, rfl⟩
      have hgap := noGap_of_noResnapshot hempty hafter fun pre d post s hsplit hre =>
        hnone pre d post hsplit ⟨s, hre⟩
      exact (covered_of_noGap hgap hafter).2.1 d' hd'
    · have hlast' : ∀ pre' d' post' s', post = pre' ++ d' :: post' →
          ¬ Resnapshots symbol depth (pre ++ d :: pre') d' s' := by
        intro pre' d₁ post' s' hpost hre
        exact hlast pre' d₁ post' hpost ⟨s', hre⟩
      have hpulled := hcond pre d post s hsplit hgap hlast' d'
      subst hsplit
      obtain ⟨hs, hpost, -⟩ := lastU_of_resnapshots hgap hlast' hstate
      rw [List.append_cons] at hd'
      rcases List.mem_append.1 hd' with hd' | hd'
      · rcases hpulled hd' with hle | ⟨d'', hd'', hle⟩
        · omega
        · have hle' := hpost d'' hd''
          omega
      · exact hpost d' hd'

/-- Snapshots at 10, at 22 and so on: the second one is newer than the delta that leads to it. -/
def newerSnapshots (n : ℕ) : Except Unit OrderBook := .ok ⟨10 + 12 * n, [], []⟩

/-- The delta for 20 and 21 leaves a gap, and the snapshot taken for it is newer. -/
theorem run_covers_newerSnapshot :
    CoversAll (run "BTCTHB" newerSnapshots [⟨20, 21, [], []⟩]).1 [⟨20, 21, [], []⟩] := by
  have hrun : run "BTCTHB" newerSnapshots [⟨20, 21, [], []⟩] =
      ((run "BTCTHB" newerSnapshots [⟨20, 21, [], []⟩]).1, .ok ()) := rfl
  refine (run_covers_iff hrun).2 ?_
  intro pre d post s hsplit hgap _ d' hd'
  obtain ⟨st, hst, -, -, hs⟩ := hgap
  left
  rcases split_concat (l := []) hsplit with ⟨hpre, hd, -⟩ | ⟨post', -, hnil⟩
  · subst hpre hd
    obtain rfl := List.mem_singleton.1 hd'
    cases hst
    cases hs
    decide
  · simp at hnil

/-- A snapshot that is older than the gap it is taken for: the delta is lost. -/
theorem not_run_covers_olderSnapshot :
    let depth : ℕ → Except Unit OrderBook := fun n => .ok ⟨10 + 2 * n, [], []⟩
    (run "BTCTHB" depth [⟨20, 25, [], []⟩]).2 = .ok () ∧
      ¬ CoversAll (run "BTCTHB" depth [⟨20, 25, [], []⟩]).1 [⟨20, 25, [], []⟩] := by
  refine ⟨rfl, fun ⟨y, hy, hall⟩ => ?_⟩
  obtain rfl := Option.some.inj hy
  exact absurd (hall ⟨20, 25, [], []⟩ List.mem_cons_self) (by decide)

end OrderBookSynchronizer

end BinanceTh
