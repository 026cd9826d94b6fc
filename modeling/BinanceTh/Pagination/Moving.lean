import BinanceTh.Pagination
import Mathlib.Data.List.Nodup

/-!
# Paging through a moving server

A server may answer each fetch differently: rows appear and vanish between two pages. So the `n`-th
fetch of a run has its own answers here, and a run also records what it fetched (`PagedRun`); on a
server that stands still it is the run of before (`iterFrom_still`). Whatever the server does, every
fetch but the last moves the window on, and no row at or beyond the end is yielded (`run_bounded`).

On a page that is served as it should be, the rows yielded lie from the window start on, and those
at the window start are new. A later window starts at a page's last timestamp, and knows the rows
with it that were yielded; so no row comes twice, and the rows come in order (`run_ordered`).
-/

namespace BinanceTh

/-- A run of `iter_time_windows`. -/
structure PagedRun (α ε : Type) where
  /-- The window starts asked for, and the answers. -/
  fetched : List (ℤ × Except ε (List α))
  rows : List α
  result : Except ε Unit

namespace MovingServer

section Paging

variable {α ι ε : Type} [DecidableEq ι]

/-- The loop of `iter_time_windows` at a window start, after `n` fetches. -/
def iterFrom (fetch : ℕ → ℤ → ℤ → Except ε (List α)) (endTime : ℤ) (pageLimit : ℕ)
    (windowKey : α → ℤ) (identity : α → ι) (n : ℕ) (windowStart : ℤ) (boundaryKey : Option ℤ)
    (boundaryIds : List ι) : PagedRun α ε :=
  if windowStart < endTime then
    match fetch n windowStart endTime with
    | .error e => ⟨[(windowStart, .error e)], [], .error e⟩
    | .ok page =>
      match page.getLast? with
      | none => ⟨[(windowStart, .ok page)], [], .ok ()⟩
      | some last =>
        let scanned := scanPage windowKey identity endTime boundaryKey boundaryIds page
        if scanned.2 then ⟨[(windowStart, .ok page)], scanned.1, .ok ()⟩
        else if page.length < pageLimit then ⟨[(windowStart, .ok page)], scanned.1, .ok ()⟩
        else if _h : windowKey last ≤ windowStart then
          ⟨[(windowStart, .ok page)], scanned.1, .ok ()⟩
        else
          let ids := (page.filter fun row => windowKey row = windowKey last).map identity
          let rest := iterFrom fetch endTime pageLimit windowKey identity (n + 1) (windowKey last)
            (some (windowKey last)) ids
          ⟨(windowStart, .ok page) :: rest.fetched, scanned.1 ++ rest.rows, rest.result⟩
  else ⟨[], [], .ok ()⟩
termination_by (endTime - windowStart).toNat
decreasing_by omega

/-- `iter_time_windows`. -/
def iterTimeWindows (fetch : ℕ → ℤ → ℤ → Except ε (List α)) (startTime endTime : ℤ)
    (pageLimit : ℕ) (windowKey : α → ℤ) (identity : α → ι) : PagedRun α ε :=
  iterFrom fetch endTime pageLimit windowKey identity 0 startTime none []

variable {fetch : ℕ → ℤ → ℤ → Except ε (List α)} {startTime endTime : ℤ} {pageLimit : ℕ}
  {windowKey : α → ℤ} {identity : α → ι}

/-- On a server that always answers alike, the run is that of `BinanceTh.iterFrom`. -/
theorem iterFrom_still (fetch : ℤ → ℤ → Except ε (List α)) (n : ℕ) (w : ℤ) (boundaryKey : Option ℤ)
    (boundaryIds : List ι) :
    let run := iterFrom (fun _ => fetch) endTime pageLimit windowKey identity n w boundaryKey
      boundaryIds
    BinanceTh.iterFrom fetch endTime pageLimit windowKey identity w boundaryKey boundaryIds =
      (run.rows, run.result) := by
  induction hm : (endTime - w).toNat using Nat.strong_induction_on generalizing n w boundaryKey
    boundaryIds with
  | _ m ih =>
    subst hm
    rw [iterFrom, BinanceTh.iterFrom]
    split
    · next hlt =>
      cases fetch w endTime with
      | error e => rfl
      | ok page =>
        simp only
        cases page.getLast? with
        | none => rfl
        | some last =>
          simp only
          split
          · rfl
          · split
            · rfl
            · split
              · rfl
              · next hprogress =>
                rw [ih _ (by omega) (n + 1) (windowKey last) _ _ rfl]
    · rfl

/-- The window start and what is known of it, the page, the rest of the run: what holds of the runs
that end at once and passes from the rest of a run to the run holds of every run. -/
theorem iterFrom_induction {P : ℤ → Option ℤ → List ι → PagedRun α ε → Prop}
    (stop : ∀ w boundaryKey boundaryIds, endTime ≤ w → P w boundaryKey boundaryIds ⟨[], [], .ok ()⟩)
    (fail : ∀ w boundaryKey boundaryIds e, w < endTime →
      P w boundaryKey boundaryIds ⟨[(w, .error e)], [], .error e⟩)
    (final : ∀ w boundaryKey boundaryIds page, w < endTime →
      P w boundaryKey boundaryIds ⟨[(w, .ok page)],
        (scanPage windowKey identity endTime boundaryKey boundaryIds page).1, .ok ()⟩)
    (more : ∀ w boundaryKey boundaryIds page last rest, w < endTime → page.getLast? = some last →
      w < windowKey last →
      P (windowKey last) (some (windowKey last))
        ((page.filter fun row => windowKey row = windowKey last).map identity) rest →
      P w boundaryKey boundaryIds ⟨(w, .ok page) :: rest.fetched,
        (scanPage windowKey identity endTime boundaryKey boundaryIds page).1 ++ rest.rows,
        rest.result⟩)
    (n : ℕ) (w : ℤ) (boundaryKey : Option ℤ) (boundaryIds : List ι) :
    P w boundaryKey boundaryIds
      (iterFrom fetch endTime pageLimit windowKey identity n w boundaryKey boundaryIds) := by
  induction hm : (endTime - w).toNat using Nat.strong_induction_on generalizing n w boundaryKey
    boundaryIds with
  | _ m ih =>
    subst hm
    rw [iterFrom]
    split
    · next hlt =>
      cases fetch n w endTime with
      | error e => exact fail w boundaryKey boundaryIds e hlt
      | ok page =>
        simp only
        cases hlast : page.getLast? with
        | none =>
          obtain rfl := List.getLast?_eq_none_iff.1 hlast
          exact final w boundaryKey boundaryIds [] hlt
        | some last =>
          have hfinal := final w boundaryKey boundaryIds page hlt
          simp only
          split
          · exact hfinal
          · split
            · exact hfinal
            · split
              · exact hfinal
              · next hprogress =>
                have hgo : w < windowKey last := by omega
                exact more w boundaryKey boundaryIds page last _ hlt hlast hgo
                  (ih _ (by omega) (n + 1) _ _ _ rfl)
    · next hge =>
      exact stop w boundaryKey boundaryIds (by omega)

/-! ## Any server -/

/-- What the loop over a page yields: rows of the page, in its order, that lie before the end and
are not known from the page before. -/
theorem scanPage_yields (windowKey : α → ℤ) (identity : α → ι) (endTime : ℤ)
    (boundaryKey : Option ℤ) (boundaryIds : List ι) (page : List α) :
    let rows := (scanPage windowKey identity endTime boundaryKey boundaryIds page).1
    rows.Sublist page ∧ ∀ r ∈ rows, windowKey r < endTime ∧
      ¬ (boundaryKey = some (windowKey r) ∧ identity r ∈ boundaryIds) := by
  induction page with
  | nil => simp [scanPage]
  | cons r page ih =>
    obtain ⟨hsub, hrows⟩ := ih
    rw [scanPage]
    split
    · simp
    · next hbefore =>
      simp only
      split
      · exact ⟨hsub.cons r, hrows⟩
      · next hnew =>
        refine ⟨hsub.cons_cons r, ?_⟩
        intro r' hr'
        rcases List.mem_cons.1 hr' with rfl | hr'
        · exact ⟨by omega, hnew⟩
        · exact hrows r' hr'

/-- **Any server.** A run fetches at most once for every timestamp of the range, and yields no row
at or beyond its end. -/
theorem run_bounded (fetch : ℕ → ℤ → ℤ → Except ε (List α)) (startTime endTime : ℤ)
    (pageLimit : ℕ) (windowKey : α → ℤ) (identity : α → ι) :
    let run := iterTimeWindows fetch startTime endTime pageLimit windowKey identity
    (run.fetched.length : ℤ) ≤ max 0 (endTime - startTime) ∧
      ∀ r ∈ run.rows, windowKey r < endTime := by
  unfold iterTimeWindows
  have hyields := scanPage_yields windowKey identity endTime
  refine iterFrom_induction (P := fun w _ _ run => (run.fetched.length : ℤ) ≤ max 0 (endTime - w) ∧
    ∀ r ∈ run.rows, windowKey r < endTime) ?_ ?_ ?_ ?_ 0 startTime none []
  · intro w _ _ _
    simp
  · intro w _ _ e hlt
    refine ⟨?_, by simp⟩
    simp
    omega
  · intro w boundaryKey boundaryIds page hlt
    obtain ⟨-, hrows⟩ := hyields boundaryKey boundaryIds page
    refine ⟨?_, fun r hr => (hrows r hr).1⟩
    simp
    omega
  · intro w boundaryKey boundaryIds page last rest hlt _ hgo ⟨hcount, hrest⟩
    obtain ⟨-, hrows⟩ := hyields boundaryKey boundaryIds page
    constructor
    · simp only [List.length_cons, Nat.cast_add, Nat.cast_one]
      omega
    · intro r hr
      rcases List.mem_append.1 hr with hr | hr
      · exact (hrows r hr).1
      · exact hrest r hr

/-! ## A server that orders its pages -/

/-- A page for a window start: ascending, from the window start on, each identity once. -/
structure PageOf (windowKey : α → ℤ) (identity : α → ι) (w : ℤ) (page : List α) : Prop where
  ascending : page.Pairwise fun a b => windowKey a ≤ windowKey b
  fromStart : ∀ r ∈ page, w ≤ windowKey r
  distinct : (page.map identity).Nodup

def OnPage (fetched : List (ℤ × Except ε (List α))) (r : α) : Prop :=
  ∃ w page, (w, .ok page) ∈ fetched ∧ r ∈ page

/-- All pages are of this kind, and an identity has the same timestamp on each. -/
structure WellServed (windowKey : α → ℤ) (identity : α → ι)
    (fetched : List (ℤ × Except ε (List α))) : Prop where
  pages : ∀ w page, (w, .ok page) ∈ fetched → PageOf windowKey identity w page
  stamped : ∀ r r', OnPage fetched r → OnPage fetched r' → identity r = identity r' →
    windowKey r = windowKey r'

/-- The rows yielded from a window start on. -/
structure Ordered (windowKey : α → ℤ) (identity : α → ι) (w : ℤ) (boundaryKey : Option ℤ)
    (boundaryIds : List ι) (run : PagedRun α ε) : Prop where
  onPage : ∀ r ∈ run.rows, OnPage run.fetched r
  fromStart : ∀ r ∈ run.rows, w ≤ windowKey r
  fresh : ∀ r ∈ run.rows, ¬ (boundaryKey = some (windowKey r) ∧ identity r ∈ boundaryIds)
  ascending : run.rows.Pairwise fun a b => windowKey a ≤ windowKey b
  distinct : (run.rows.map identity).Nodup

section Ordered

variable {w : ℤ} {boundaryKey : Option ℤ} {boundaryIds : List ι} {page : List α} {last : α}
  {rest : PagedRun α ε} {fetched : List (ℤ × Except ε (List α))}

theorem OnPage.cons {r : α} (h : OnPage fetched r) (a : ℤ × Except ε (List α)) :
    OnPage (a :: fetched) r := by
  obtain ⟨w, page, hmem, hr⟩ := h
  exact ⟨w, page, List.mem_cons_of_mem a hmem, hr⟩

omit [DecidableEq ι] in
theorem WellServed.tail {a : ℤ × Except ε (List α)}
    (h : WellServed windowKey identity (a :: fetched)) : WellServed windowKey identity fetched where
  pages w page hmem := h.pages w page (List.mem_cons_of_mem a hmem)
  stamped r r' hr hr' := h.stamped r r' (hr.cons a) (hr'.cons a)

omit [DecidableEq ι] in
theorem PageOf.le_last (h : PageOf windowKey identity w page) (hlast : page.getLast? = some last) :
    ∀ r ∈ page, windowKey r ≤ windowKey last := by
  obtain ⟨front, hfront⟩ := List.getLast?_eq_some_iff.1 hlast
  subst hfront
  obtain ⟨-, -, hbehind⟩ := List.pairwise_append.1 h.ascending
  intro r hr
  rcases List.mem_append.1 hr with hr | hr
  · exact hbehind r hr last (List.mem_singleton_self last)
  · obtain rfl := List.mem_singleton.1 hr
    exact le_refl _

/-- The rows of one page. -/
theorem ordered_page (result : Except ε Unit) (h : PageOf windowKey identity w page) :
    Ordered windowKey identity w boundaryKey boundaryIds ⟨[(w, .ok page)],
      (scanPage windowKey identity endTime boundaryKey boundaryIds page).1, result⟩ := by
  obtain ⟨hsub, hrows⟩ := scanPage_yields windowKey identity endTime boundaryKey boundaryIds page
  constructor
  case onPage =>
    intro r hr
    exact ⟨w, page, List.mem_singleton_self _, hsub.subset hr⟩
  case fromStart =>
    intro r hr
    exact h.fromStart r (hsub.subset hr)
  case fresh =>
    intro r hr
    exact (hrows r hr).2
  case ascending => exact h.ascending.sublist hsub
  case distinct => exact h.distinct.sublist (hsub.map identity)

/-- The rows of a page and of the rest of the run. -/
theorem Ordered.cons (hknown : ∀ k, boundaryKey = some k → k ≤ w)
    (hserved : WellServed windowKey identity ((w, .ok page) :: rest.fetched))
    (hlast : page.getLast? = some last) (hgo : w < windowKey last)
    (hrest : Ordered windowKey identity (windowKey last) (some (windowKey last))
      ((page.filter fun row => windowKey row = windowKey last).map identity) rest) :
    Ordered windowKey identity w boundaryKey boundaryIds ⟨(w, .ok page) :: rest.fetched,
      (scanPage windowKey identity endTime boundaryKey boundaryIds page).1 ++ rest.rows,
      rest.result⟩ := by
  have hpage := hserved.pages w page List.mem_cons_self
  obtain ⟨hsub, -⟩ := scanPage_yields windowKey identity endTime boundaryKey boundaryIds page
  have hhead : Ordered windowKey identity w boundaryKey boundaryIds ⟨[(w, .ok page)],
      (scanPage windowKey identity endTime boundaryKey boundaryIds page).1, rest.result⟩ :=
    ordered_page rest.result hpage
  have hle : ∀ r ∈ (scanPage windowKey identity endTime boundaryKey boundaryIds page).1,
      windowKey r ≤ windowKey last := fun r hr => hpage.le_last hlast r (hsub.subset hr)
  have honPage : ∀ r ∈ (scanPage windowKey identity endTime boundaryKey boundaryIds page).1,
      OnPage ((w, .ok page) :: rest.fetched) r :=
    fun r hr => ⟨w, page, List.mem_cons_self, hsub.subset hr⟩
  constructor
  case onPage =>
    intro r hr
    rcases List.mem_append.1 hr with hr | hr
    · exact honPage r hr
    · exact (hrest.onPage r hr).cons _
  case fromStart =>
    intro r hr
    rcases List.mem_append.1 hr with hr | hr
    · exact hhead.fromStart r hr
    · have hlater := hrest.fromStart r hr
      omega
  case fresh =>
    intro r hr
    rcases List.mem_append.1 hr with hr | hr
    · exact hhead.fresh r hr
    · intro ⟨hkey, _⟩
      have hold := hknown _ hkey
      have hlater := hrest.fromStart r hr
      omega
  case ascending =>
    refine List.pairwise_append.2 ⟨hhead.ascending, hrest.ascending, ?_⟩
    intro r hr r' hr'
    exact (hle r hr).trans (hrest.fromStart r' hr')
  case distinct =>
    rw [List.map_append]
    refine hhead.distinct.append hrest.distinct ?_
    intro i hi hi'
    obtain ⟨r, hr, hid⟩ := List.mem_map.1 hi
    obtain ⟨r', hr', hid'⟩ := List.mem_map.1 hi'
    -- both have the timestamp that the next window starts with, and that window knows the first
    have hsame := hserved.stamped r r' (honPage r hr) ((hrest.onPage r' hr').cons _)
      (hid.trans hid'.symm)
    have hbefore := hle r hr
    have hafter := hrest.fromStart r' hr'
    have hkey : windowKey r = windowKey last := by omega
    have hseen : identity r' ∈
        (page.filter fun row => windowKey row = windowKey last).map identity := by
      rw [hid', ← hid]
      exact List.mem_map_of_mem (List.mem_filter.2 ⟨hsub.subset hr, by simpa using hkey⟩)
    exact hrest.fresh r' hr' ⟨by rw [← hsame, hkey], hseen⟩

end Ordered

/-- **A moving server.** On well-served pages no identity is yielded twice, and the timestamps of
the rows yielded never decrease. -/
theorem run_ordered (fetch : ℕ → ℤ → ℤ → Except ε (List α)) (startTime endTime : ℤ)
    (pageLimit : ℕ) (windowKey : α → ℤ) (identity : α → ι) :
    let run := iterTimeWindows fetch startTime endTime pageLimit windowKey identity
    WellServed windowKey identity run.fetched →
      Ordered windowKey identity startTime none [] run := by
  unfold iterTimeWindows
  refine iterFrom_induction (P := fun w boundaryKey boundaryIds run =>
    (∀ k, boundaryKey = some k → k ≤ w) → WellServed windowKey identity run.fetched →
      Ordered windowKey identity w boundaryKey boundaryIds run) ?_ ?_ ?_ ?_ 0 startTime none []
    (fun k hk => by cases hk)
  · intro w boundaryKey boundaryIds _ _ _
    constructor <;> simp
  · intro w boundaryKey boundaryIds e _ _ _
    constructor <;> simp
  · intro w boundaryKey boundaryIds page _ _ hserved
    exact ordered_page _ (hserved.pages w page (List.mem_singleton_self _))
  · intro w boundaryKey boundaryIds page last rest _ hlast hgo ih hknown hserved
    refine Ordered.cons hknown hserved hlast hgo (ih ?_ hserved.tail)
    intro k hk
    obtain rfl := Option.some.inj hk
    exact le_refl _

/-- **Any server, and one that moves.** The fetches and the rows of a run are bounded whatever the
server does; on well-served pages no identity is yielded twice and the timestamps never decrease. -/
theorem run_paged (fetch : ℕ → ℤ → ℤ → Except ε (List α)) (startTime endTime : ℤ)
    (pageLimit : ℕ) (windowKey : α → ℤ) (identity : α → ι) :
    let run := iterTimeWindows fetch startTime endTime pageLimit windowKey identity
    (run.fetched.length : ℤ) ≤ max 0 (endTime - startTime) ∧
      (∀ r ∈ run.rows, windowKey r < endTime) ∧
      (WellServed windowKey identity run.fetched →
        (run.rows.map identity).Nodup ∧
          run.rows.Pairwise fun a b => windowKey a ≤ windowKey b) := by
  intro run
  obtain ⟨hcount, hrows⟩ :=
    run_bounded fetch startTime endTime pageLimit windowKey identity
  refine ⟨hcount, hrows, fun hserved => ?_⟩
  have hordered := run_ordered fetch startTime endTime pageLimit windowKey identity hserved
  exact ⟨hordered.distinct, hordered.ascending⟩

end Paging

/-- The field of a candlestick that paging reads. -/
structure Kline where
  openTime : ℤ
  deriving DecidableEq

/-- `iter_klines`, over the pages of `klines`. -/
def iterKlines {ε : Type} (klines : ℕ → ℤ → ℤ → Except ε (List Kline)) (startTime endTime : ℤ)
    (limit : ℕ) : PagedRun Kline ε :=
  iterTimeWindows klines startTime endTime limit (·.openTime) (·.openTime)

/-- Between the fetches the row 25 is inserted, and the row 20 removed. -/
def movingKlines : ℕ → ℤ → ℤ → Except Unit (List Kline)
  | 0, _, _ => .ok [⟨10⟩, ⟨20⟩]
  | 1, _, _ => .ok [⟨25⟩, ⟨30⟩]
  | _, _, _ => .ok [⟨30⟩]

theorem run_paged_moving :
    (iterKlines movingKlines 0 100 2).fetched.length = 3 ∧
      ((iterKlines movingKlines 0 100 2).rows.map (·.openTime)).Nodup := by
  have hrun : iterKlines movingKlines 0 100 2 =
      ⟨[(0, .ok [⟨10⟩, ⟨20⟩]), (20, .ok [⟨25⟩, ⟨30⟩]), (30, .ok [⟨30⟩])],
        [⟨10⟩, ⟨20⟩, ⟨25⟩, ⟨30⟩], .ok ()⟩ := by
    rw [iterKlines, iterTimeWindows]
    repeat
      rw [iterFrom]
      simp [movingKlines, scanPage]
  refine ⟨by rw [hrun]; rfl, ((run_paged movingKlines 0 100 2 (·.openTime) (·.openTime)).2.2 ?_).1⟩
  rw [iterKlines] at hrun
  rw [hrun]
  constructor
  · intro w page hmem
    simp only [List.mem_cons, Prod.mk.injEq, Except.ok.injEq, List.not_mem_nil, or_false] at hmem
    rcases hmem with ⟨rfl, rfl⟩ | ⟨rfl, rfl⟩ | ⟨rfl, rfl⟩ <;> constructor <;> decide
  · intro r r' _ _ hsame
    exact hsame

end MovingServer

end BinanceTh
