import BinanceTh.Pagination
import Mathlib.Data.List.Nodup

/-!
# Which windows are paged completely

A page that is full of rows with one timestamp, the window's own, ends the paging with the rows
behind it unseen. Every other page either is the last one or moves the window on, past the rows that
have been yielded. So paging is complete exactly when no timestamp fills a page by itself, unless
the page takes all that is left of the range (`Fits`, `iterTimeWindows_complete_iff`).
-/

namespace BinanceTh

section Completeness

variable {α ι ε : Type}

/-- A server page: the first `pageLimit` rows with `ws ≤ timestamp ≤ end`, of `rows` in ascending
order. -/
def serve (rows : List α) (windowKey : α → ℤ) (pageLimit : ℕ) (ws endTime : ℤ) :
    Except ε (List α) :=
  .ok ((rows.filter fun row => ws ≤ windowKey row ∧ windowKey row ≤ endTime).take pageLimit)

/-- The rows with timestamp `t` leave room on a page, or a page takes all rows from `t` on. -/
def Fits (rows : List α) (windowKey : α → ℤ) (pageLimit : ℕ) (endTime t : ℤ) : Prop :=
  rows.countP (fun row => windowKey row = t) < pageLimit ∨
    rows.countP (fun row => t ≤ windowKey row ∧ windowKey row < endTime) ≤ pageLimit

/-! ## One page -/

section Scan

variable [DecidableEq ι] {windowKey : α → ℤ} {identity : α → ι} {endTime : ℤ}
  {boundaryKey : Option ℤ} {boundaryIds : List ι}

/-- The rows of a page that were yielded before are skipped. -/
theorem scanPage_seen_append {B P : List α}
    (hseen : ∀ b ∈ B, windowKey b < endTime ∧ boundaryKey = some (windowKey b) ∧
      identity b ∈ boundaryIds) :
    scanPage windowKey identity endTime boundaryKey boundaryIds (B ++ P) =
      scanPage windowKey identity endTime boundaryKey boundaryIds P := by
  induction B with
  | nil => rfl
  | cons b B ih =>
    obtain ⟨hb, hB⟩ := List.forall_mem_cons.1 hseen
    rw [List.cons_append, scanPage, if_neg (not_le.2 hb.1), if_pos hb.2, ih hB]

/-- New rows are yielded, as far as they lie before the end. -/
theorem scanPage_fresh {P : List α}
    (hfresh : ∀ r ∈ P, ¬ (boundaryKey = some (windowKey r) ∧ identity r ∈ boundaryIds)) :
    scanPage windowKey identity endTime boundaryKey boundaryIds P =
      (P.takeWhile fun r => windowKey r < endTime, P.any fun r => endTime ≤ windowKey r) := by
  induction P with
  | nil => rfl
  | cons r P ih =>
    obtain ⟨hr, hP⟩ := List.forall_mem_cons.1 hfresh
    rw [scanPage]
    by_cases hend : endTime ≤ windowKey r
    · simp [hend]
    · have hlt : windowKey r < endTime := by omega
      simp [hend, hr, ih hP, hlt]

end Scan

/-! ## Sorted rows -/

section Sorted

variable {windowKey : α → ℤ}

/-- The rows from `w` on, cut off at a later `l`. -/
theorem filter_from {rows : List α} {w l endTime : ℤ} (h : w ≤ l) :
    (rows.filter fun r => l ≤ windowKey r ∧ windowKey r ≤ endTime) =
      (rows.filter fun r => w ≤ windowKey r ∧ windowKey r ≤ endTime).filter
        fun r => l ≤ windowKey r := by
  rw [List.filter_filter]
  congr 1
  funext r
  grind

theorem countP_from {rows : List α} {w endTime : ℤ} {p : α → Bool}
    (h : ∀ r, p r = true → w ≤ windowKey r ∧ windowKey r ≤ endTime) :
    rows.countP p =
      (rows.filter fun r => w ≤ windowKey r ∧ windowKey r ≤ endTime).countP p := by
  rw [List.countP_filter]
  congr 1
  funext r
  cases hp : p r with
  | false => simp
  | true => simp [h r hp]

/-- Of sorted rows, those before the end come first. -/
theorem takeWhile_lt_eq_filter {P : List α} {endTime : ℤ}
    (hP : P.Pairwise fun a b => windowKey a ≤ windowKey b) :
    (P.takeWhile fun r => windowKey r < endTime) = P.filter fun r => windowKey r < endTime := by
  induction P with
  | nil => rfl
  | cons r P ih =>
    obtain ⟨hr, hP⟩ := List.pairwise_cons.1 hP
    by_cases h : windowKey r < endTime
    · simp [h, ih hP]
    · have hnone : (P.filter fun r => windowKey r < endTime) = [] := by
        rw [List.filter_eq_nil_iff]
        intro a ha
        have := hr a ha
        simp
        omega
      simp [h, hnone]

/-- No row behind one at or beyond the end lies before it. -/
theorem filter_lt_eq_nil {P Q : List α} {endTime : ℤ}
    (h : (P ++ Q).Pairwise fun a b => windowKey a ≤ windowKey b)
    (hend : ∃ r ∈ P, endTime ≤ windowKey r) :
    (Q.filter fun r => windowKey r < endTime) = [] := by
  obtain ⟨r, hr, hle⟩ := hend
  rw [List.filter_eq_nil_iff]
  intro a ha
  have := (List.pairwise_append.1 h).2.2 r hr a ha
  simp
  omega

end Sorted

/-! ## The state at a window start -/

section Windows

variable {rows : List α} {windowKey : α → ℤ} {identity : α → ι} {endTime w : ℤ} {pageLimit : ℕ}
  {boundaryKey : Option ℤ} {boundaryIds : List ι} {B T : List α}

/-- The rows that the server has from `w` on: `B` were yielded before and are known by their
identities, `T` were not. -/
structure Resumes (rows : List α) (windowKey : α → ℤ) (identity : α → ι) (endTime : ℤ)
    (pageLimit : ℕ) (w : ℤ) (boundaryKey : Option ℤ) (boundaryIds : List ι) (B T : List α) :
    Prop where
  served : (rows.filter fun r => w ≤ windowKey r ∧ windowKey r ≤ endTime) = B ++ T
  seen : ∀ b ∈ B, windowKey b = w ∧ boundaryKey = some w ∧ identity b ∈ boundaryIds
  fresh : ∀ r ∈ T, ¬ (boundaryKey = some (windowKey r) ∧ identity r ∈ boundaryIds)
  length_le : B.length ≤ pageLimit

/-- What is left of a run from `w`: it yields all of `T` that lies before the end and every
timestamp fits, or it yields less and some timestamp does not. -/
def Settles (rows : List α) (windowKey : α → ℤ) (endTime : ℤ) (pageLimit : ℕ) (w : ℤ)
    (T out : List α) : Prop :=
  (out = T.filter (fun r => windowKey r < endTime) ∧
      ∀ t, w ≤ t → t < endTime → Fits rows windowKey pageLimit endTime t) ∨
    (out.length < (T.filter fun r => windowKey r < endTime).length ∧
      ∃ t, w ≤ t ∧ t < endTime ∧ ¬ Fits rows windowKey pageLimit endTime t)

/-- A run begins with nothing seen. -/
theorem resumes_start (w : ℤ) :
    Resumes rows windowKey identity endTime pageLimit w none []
      [] (rows.filter fun r => w ≤ windowKey r ∧ windowKey r ≤ endTime) := by
  constructor <;> simp

theorem fits_of_countP_le
    (h : rows.countP (fun r => w ≤ windowKey r ∧ windowKey r < endTime) ≤ pageLimit) {t : ℤ}
    (ht : w ≤ t) : Fits rows windowKey pageLimit endTime t := by
  right
  refine le_trans (List.countP_mono_left ?_) h
  intro r _ hr
  simp at hr ⊢
  omega

namespace Resumes

/-- The page takes `B` and as much of `T` as there is room for. -/
theorem page_eq (h : Resumes rows windowKey identity endTime pageLimit w boundaryKey boundaryIds
      B T) :
    ((rows.filter fun r => w ≤ windowKey r ∧ windowKey r ≤ endTime).take pageLimit) =
      B ++ T.take (pageLimit - B.length) := by
  rw [h.served, List.take_append, List.take_of_length_le h.length_le]

/-- The rows from `w` on, cut where the page ends. -/
theorem split_eq (h : Resumes rows windowKey identity endTime pageLimit w boundaryKey boundaryIds
      B T) :
    (rows.filter fun r => w ≤ windowKey r ∧ windowKey r ≤ endTime) =
      (B ++ T.take (pageLimit - B.length)) ++ T.drop (pageLimit - B.length) := by
  rw [h.served, List.append_assoc, List.take_append_drop]

theorem page_length_le
    (h : Resumes rows windowKey identity endTime pageLimit w boundaryKey boundaryIds B T) :
    (B ++ T.take (pageLimit - B.length)).length ≤ pageLimit := by
  have := h.length_le
  simp
  omega

/-- A count of rows from `w` on, as a count on the page and behind it. -/
theorem countP_eq (h : Resumes rows windowKey identity endTime pageLimit w boundaryKey boundaryIds
      B T) {p : α → Bool} (hp : ∀ r, p r = true → w ≤ windowKey r ∧ windowKey r ≤ endTime) :
    rows.countP p = (B ++ T.take (pageLimit - B.length)).countP p +
      (T.drop (pageLimit - B.length)).countP p := by
  rw [countP_from hp, h.split_eq, List.countP_append]

section Sorted

variable (hsorted : rows.Pairwise fun a b => windowKey a ≤ windowKey b)

include hsorted

theorem sorted (h : Resumes rows windowKey identity endTime pageLimit w boundaryKey boundaryIds
      B T) :
    ((B ++ T.take (pageLimit - B.length)) ++ T.drop (pageLimit - B.length)).Pairwise
      fun a b => windowKey a ≤ windowKey b := by
  rw [← h.split_eq]
  exact hsorted.filter _

/-- What the loop over the page yields, and whether it comes to the end. -/
theorem scanPage_eq [DecidableEq ι] (h : Resumes rows windowKey identity endTime pageLimit w
      boundaryKey boundaryIds B T) (hw : w < endTime) :
    scanPage windowKey identity endTime boundaryKey boundaryIds
        (B ++ T.take (pageLimit - B.length)) =
      ((T.take (pageLimit - B.length)).filter fun r => windowKey r < endTime,
        (T.take (pageLimit - B.length)).any fun r => endTime ≤ windowKey r) := by
  rw [scanPage_seen_append, scanPage_fresh, takeWhile_lt_eq_filter]
  · have := h.sorted hsorted
    exact (List.pairwise_append.1 (List.pairwise_append.1 this).1).2.1
  · intro r hr
    exact h.fresh r (List.mem_of_mem_take hr)
  · intro b hb
    obtain ⟨hkey, hbound, hid⟩ := h.seen b hb
    rw [hkey]
    exact ⟨hw, hbound, hid⟩

end Sorted

/-- The run may end where no row of the range lies behind the page. -/
theorem settles_of_done (h : Resumes rows windowKey identity endTime pageLimit w boundaryKey
      boundaryIds B T)
    (hdone : ((T.drop (pageLimit - B.length)).filter fun r => windowKey r < endTime) = []) :
    Settles rows windowKey endTime pageLimit w T
      ((T.take (pageLimit - B.length)).filter fun r => windowKey r < endTime) := by
  left
  constructor
  · rw [← List.append_nil ((T.take (pageLimit - B.length)).filter _), ← hdone,
      ← List.filter_append, List.take_append_drop]
  · intro t ht _
    refine fits_of_countP_le ?_ ht
    have hbehind : (T.drop (pageLimit - B.length)).countP
        (fun r => w ≤ windowKey r ∧ windowKey r < endTime) = 0 := by
      rw [List.countP_eq_zero]
      intro r hr hlt
      rw [List.filter_eq_nil_iff] at hdone
      have := hdone r hr
      simp at this hlt
      omega
    rw [h.countP_eq, hbehind, Nat.add_zero]
    · exact le_trans List.countP_le_length h.page_length_le
    · intro r hr
      simp at hr
      omega

/-- A page that is not full is the last one. -/
theorem settles_of_short (h : Resumes rows windowKey identity endTime pageLimit w boundaryKey
      boundaryIds B T) (hshort : (B ++ T.take (pageLimit - B.length)).length < pageLimit) :
    Settles rows windowKey endTime pageLimit w T
      ((T.take (pageLimit - B.length)).filter fun r => windowKey r < endTime) := by
  have hdrop : T.drop (pageLimit - B.length) = [] := by
    rw [List.drop_eq_nil_iff]
    simp at hshort
    omega
  exact h.settles_of_done (by rw [hdrop, List.filter_nil])

/-- A full page of rows at the window's own timestamp, with rows of the range behind it, ends the run
too early. -/
theorem settles_of_stuck (h : Resumes rows windowKey identity endTime pageLimit w boundaryKey
      boundaryIds B T) (hw : w < endTime)
    (hfull : pageLimit ≤ (B ++ T.take (pageLimit - B.length)).length)
    (hkeys : ∀ r ∈ B ++ T.take (pageLimit - B.length), windowKey r = w)
    (hmore : ((T.drop (pageLimit - B.length)).filter fun r => windowKey r < endTime) ≠ []) :
    Settles rows windowKey endTime pageLimit w T
      ((T.take (pageLimit - B.length)).filter fun r => windowKey r < endTime) := by
  have hpos : 0 < ((T.drop (pageLimit - B.length)).filter fun r => windowKey r < endTime).length :=
    List.length_pos_iff.2 hmore
  right
  constructor
  · conv_rhs => rw [← List.take_append_drop (pageLimit - B.length) T]
    rw [List.filter_append, List.length_append]
    omega
  · refine ⟨w, le_rfl, hw, ?_⟩
    have hpage : ∀ p : α → Bool, (∀ r, windowKey r = w → p r = true) →
        (B ++ T.take (pageLimit - B.length)).countP p =
          (B ++ T.take (pageLimit - B.length)).length := by
      intro p hp
      rw [List.countP_eq_length]
      intro r hr
      exact hp r (hkeys r hr)
    intro hfits
    rcases hfits with hfits | hfits
    · rw [h.countP_eq, hpage] at hfits
      · omega
      · simp
      · intro r hr
        simp at hr
        omega
    · have hbehind : ((T.drop (pageLimit - B.length)).filter fun r => windowKey r < endTime).length ≤
          (T.drop (pageLimit - B.length)).countP
            (fun r => w ≤ windowKey r ∧ windowKey r < endTime) := by
        rw [← List.countP_eq_length_filter]
        apply List.countP_mono_left
        intro r hr hlt
        have hmem : r ∈ rows.filter fun r => w ≤ windowKey r ∧ windowKey r ≤ endTime := by
          rw [h.served]
          exact List.mem_append_right _ (List.mem_of_mem_drop hr)
        simp at hmem hlt ⊢
        omega
      rw [h.countP_eq, hpage] at hfits
      · omega
      · intro r hr
        simp
        omega
      · intro r hr
        simp at hr
        omega

section Advance

variable {last : α} (hsorted : rows.Pairwise fun a b => windowKey a ≤ windowKey b)

include hsorted

/-- The page's last row is behind all others of the page, and before those behind the page. -/
theorem last_bounds (h : Resumes rows windowKey identity endTime pageLimit w boundaryKey boundaryIds
      B T) (hlast : (B ++ T.take (pageLimit - B.length)).getLast? = some last) :
    (∀ r ∈ B ++ T.take (pageLimit - B.length), windowKey r ≤ windowKey last) ∧
      ∀ r ∈ T.drop (pageLimit - B.length), windowKey last ≤ windowKey r := by
  have hpair := h.sorted hsorted
  obtain ⟨front, hfront⟩ := List.getLast?_eq_some_iff.1 hlast
  rw [hfront] at hpair ⊢
  obtain ⟨hpage, -, hbehind⟩ := List.pairwise_append.1 hpair
  constructor
  · intro r hr
    rcases List.mem_append.1 hr with hr | hr
    · exact (List.pairwise_append.1 hpage).2.2 r hr last (by simp)
    · obtain rfl := List.mem_singleton.1 hr
      exact le_rfl
  · intro r hr
    exact hbehind last (by simp) r hr

/-- If the page's last row is at the window's own timestamp, then so is every row of the page. -/
theorem keys_eq_of_last_le (h : Resumes rows windowKey identity endTime pageLimit w boundaryKey
      boundaryIds B T) (hlast : (B ++ T.take (pageLimit - B.length)).getLast? = some last)
    (hstop : windowKey last ≤ w) : ∀ r ∈ B ++ T.take (pageLimit - B.length), windowKey r = w := by
  intro r hr
  have hle := (h.last_bounds hsorted hlast).1 r hr
  have hmem : r ∈ rows.filter fun r => w ≤ windowKey r ∧ windowKey r ≤ endTime := by
    rw [h.split_eq]
    exact List.mem_append_left _ hr
  simp at hmem
  omega

/-- The next window begins at the page's last row. -/
theorem advance (h : Resumes rows windowKey identity endTime pageLimit w boundaryKey boundaryIds
      B T) (hids : (rows.map identity).Nodup)
    (hlast : (B ++ T.take (pageLimit - B.length)).getLast? = some last)
    (hprogress : w < windowKey last) :
    Resumes rows windowKey identity endTime pageLimit (windowKey last) (some (windowKey last))
      (((B ++ T.take (pageLimit - B.length)).filter fun r => windowKey r = windowKey last).map
        identity)
      ((B ++ T.take (pageLimit - B.length)).filter fun r => windowKey r = windowKey last)
      (T.drop (pageLimit - B.length)) := by
  obtain ⟨hpage, hbehind⟩ := h.last_bounds hsorted hlast
  constructor
  case served =>
    rw [filter_from hprogress.le, h.split_eq, List.filter_append]
    congr 1
    · apply List.filter_congr
      intro r hr
      have := hpage r hr
      simp
      omega
    · rw [List.filter_eq_self]
      intro r hr
      simpa using hbehind r hr
  case seen =>
    intro b hb
    refine ⟨by simpa using (List.mem_filter.1 hb).2, rfl, List.mem_map_of_mem hb⟩
  case fresh =>
    -- a row behind the page has another identity than every row on the page
    intro r hr hseen
    obtain ⟨b, hb, hid⟩ := List.mem_map.1 hseen.2
    have hnodup : ((rows.filter fun r => w ≤ windowKey r ∧ windowKey r ≤ endTime).map
        identity).Nodup := hids.sublist (List.filter_sublist.map _)
    rw [h.split_eq, List.map_append] at hnodup
    exact List.disjoint_of_nodup_append hnodup (List.mem_map_of_mem (List.mem_of_mem_filter hb))
      (hid ▸ List.mem_map_of_mem hr)
  case length_le =>
    exact le_trans (List.length_filter_le _ _) h.page_length_le

/-- No timestamp before the next window fills a page. -/
theorem fits_of_lt_last (h : Resumes rows windowKey identity endTime pageLimit w boundaryKey
      boundaryIds B T) (hlast : (B ++ T.take (pageLimit - B.length)).getLast? = some last)
    (hend : windowKey last < endTime) {t : ℤ} (ht : w ≤ t) (htl : t < windowKey last) :
    Fits rows windowKey pageLimit endTime t := by
  left
  obtain ⟨-, hbehind⟩ := h.last_bounds hsorted hlast
  have hdrop : (T.drop (pageLimit - B.length)).countP (fun r => windowKey r = t) = 0 := by
    rw [List.countP_eq_zero]
    intro r hr hrt
    have := hbehind r hr
    simp at hrt
    omega
  have hlength := h.page_length_le
  rw [h.countP_eq, hdrop]
  · obtain ⟨front, hfront⟩ := List.getLast?_eq_some_iff.1 hlast
    have hcount : front.countP (fun r => windowKey r = t) ≤ front.length := List.countP_le_length
    have hne : windowKey last ≠ t := htl.ne'
    rw [hfront] at hlength ⊢
    simp [hne] at hlength ⊢
    omega
  · intro r hr
    simp at hr
    omega

/-- The run from a window start, from the run from the next one. -/
theorem settles_of_advance (h : Resumes rows windowKey identity endTime pageLimit w boundaryKey
      boundaryIds B T) (hlast : (B ++ T.take (pageLimit - B.length)).getLast? = some last)
    (hend : windowKey last < endTime) (hprogress : w < windowKey last) {out : List α}
    (hout : Settles rows windowKey endTime pageLimit (windowKey last)
      (T.drop (pageLimit - B.length)) out) :
    Settles rows windowKey endTime pageLimit w T
      ((T.take (pageLimit - B.length)).filter (fun r => windowKey r < endTime) ++ out) := by
  have hfilter : (T.filter fun r => windowKey r < endTime) =
      (T.take (pageLimit - B.length)).filter (fun r => windowKey r < endTime) ++
        (T.drop (pageLimit - B.length)).filter fun r => windowKey r < endTime := by
    rw [← List.filter_append, List.take_append_drop]
  rcases hout with ⟨hout, hfits⟩ | ⟨hout, t, hlt, ht, hnot⟩
  · left
    refine ⟨by rw [hout, hfilter], ?_⟩
    intro t ht htend
    rcases lt_or_ge t (windowKey last) with hlt | hge
    · exact h.fits_of_lt_last hsorted hlast hend ht hlt
    · exact hfits t hge htend
  · right
    refine ⟨?_, t, by omega, ht, hnot⟩
    rw [hfilter, List.length_append, List.length_append]
    omega

end Advance

end Resumes

/-- A run from a window start ends, and either yields all that is left and every timestamp fits, or
yields less and some timestamp does not fit. -/
theorem iterFrom_settles [DecidableEq ι]
    (hsorted : rows.Pairwise fun a b => windowKey a ≤ windowKey b)
    (hids : (rows.map identity).Nodup) (hlimit : 1 ≤ pageLimit) (n : ℕ) :
    ∀ {w : ℤ} {boundaryKey : Option ℤ} {boundaryIds : List ι} {B T : List α},
      (endTime - w).toNat = n → w < endTime →
      Resumes rows windowKey identity endTime pageLimit w boundaryKey boundaryIds B T →
      ∃ out, iterFrom (ε := ε) (serve rows windowKey pageLimit) endTime pageLimit windowKey identity
          w boundaryKey boundaryIds = (out, .ok ()) ∧
        Settles rows windowKey endTime pageLimit w T out := by
  induction n using Nat.strong_induction_on with
  | _ n ih =>
    intro w boundaryKey boundaryIds B T hn hw h
    rw [iterFrom, if_pos hw, serve, h.page_eq]
    simp only
    split
    · next hempty =>
      -- an empty page is not full
      have hpage := List.getLast?_eq_none_iff.1 hempty
      have hsettles := h.settles_of_short (by rw [hpage]; exact hlimit)
      rw [(List.append_eq_nil_iff.1 hpage).2, List.filter_nil] at hsettles
      exact ⟨[], rfl, hsettles⟩
    · next last hlast =>
      rw [h.scanPage_eq hsorted hw]
      simp only
      split
      · next hany =>
        -- a row at the end: all that come before it are on the page
        refine ⟨_, rfl, h.settles_of_done (filter_lt_eq_nil (h.sorted hsorted) ?_)⟩
        obtain ⟨r, hr, hle⟩ := List.any_eq_true.1 hany
        exact ⟨r, List.mem_append_right _ hr, by simpa using hle⟩
      · next hany =>
        split
        · next hshort => exact ⟨_, rfl, h.settles_of_short hshort⟩
        · next hfull =>
          split
          · next hstop =>
            refine ⟨_, rfl, ?_⟩
            by_cases hmore : ((T.drop (pageLimit - B.length)).filter
                fun r => windowKey r < endTime) = []
            · exact h.settles_of_done hmore
            · exact h.settles_of_stuck hw (not_lt.1 hfull)
                (h.keys_eq_of_last_le hsorted hlast hstop) hmore
          · next hgo =>
            have hprogress : w < windowKey last := not_le.1 hgo
            -- the last row is a new one, and no new row on the page is at the end
            have hend : windowKey last < endTime := by
              rcases List.mem_append.1 (List.mem_of_getLast? hlast) with hB | hT
              · have := (h.seen last hB).1
                omega
              · simp at hany
                exact hany last hT
            obtain ⟨out, hrun, hout⟩ := ih (endTime - windowKey last).toNat (by omega) rfl hend
              (h.advance hsorted hids hlast hprogress)
            exact ⟨_, by rw [hrun], h.settles_of_advance hsorted hlast hend hprogress hout⟩

/-- Paging yields every row of the range once, in order, exactly when every timestamp of it leaves
room on a page or begins a range that fits one page. -/
theorem iterTimeWindows_complete_iff [DecidableEq ι]
    (hsorted : rows.Pairwise fun a b => windowKey a ≤ windowKey b)
    (hids : (rows.map identity).Nodup) (hlimit : 1 ≤ pageLimit) (startTime endTime : ℤ) :
    iterTimeWindows (ε := ε) (serve rows windowKey pageLimit) startTime endTime pageLimit windowKey
        identity =
      (rows.filter fun r => startTime ≤ windowKey r ∧ windowKey r < endTime, .ok ()) ↔
    ∀ t, startTime ≤ t → t < endTime → Fits rows windowKey pageLimit endTime t := by
  have hrange : (rows.filter fun r => startTime ≤ windowKey r ∧ windowKey r < endTime) =
      (rows.filter fun r => startTime ≤ windowKey r ∧ windowKey r ≤ endTime).filter
        fun r => windowKey r < endTime := by
    rw [List.filter_filter]
    congr 1
    funext r
    grind
  rcases lt_or_ge startTime endTime with hlt | hge
  · obtain ⟨out, hrun, hout⟩ := iterFrom_settles (ε := ε) hsorted hids hlimit _ rfl hlt
      (resumes_start startTime)
    rw [iterTimeWindows, hrun, hrange]
    rcases hout with ⟨hout, hfits⟩ | ⟨hout, t, ht, htend, hnot⟩
    · simp only [hout, true_iff]
      exact hfits
    · constructor
      · intro heq
        have := congrArg (·.1.length) heq
        simp only at this
        omega
      · intro hfits
        exact absurd (hfits t ht htend) hnot
  · rw [iterTimeWindows, iterFrom, if_neg (not_lt.2 hge)]
    constructor
    · intro _ t ht htend
      omega
    · intro _
      congr 1
      rw [eq_comm, List.filter_eq_nil_iff]
      intro r _
      simp
      omega

end Windows

end Completeness

/-- Three trades, two at one time, on pages of three. -/
theorem iterUserTrades_complete_threeTrades :
    iterUserTrades (ε := Unit) (serve [⟨1, 5⟩, ⟨2, 5⟩, ⟨3, 6⟩] (·.time) 3) 0 10 3 =
      ([⟨1, 5⟩, ⟨2, 5⟩, ⟨3, 6⟩], .ok ()) := by
  refine (iterTimeWindows_complete_iff (by decide) (by decide) (by decide) 0 10).2 ?_
  intro t _ _
  right
  exact List.countP_le_length

/-- On pages of two, the page of the two trades at one time hides the third trade. -/
theorem not_iterUserTrades_complete :
    iterUserTrades (ε := Unit) (serve [⟨1, 5⟩, ⟨2, 5⟩, ⟨3, 6⟩] (·.time) 2) 0 10 2 ≠
      (([⟨1, 5⟩, ⟨2, 5⟩, ⟨3, 6⟩] : List UserTrade).filter fun r => 0 ≤ r.time ∧ r.time < 10,
        .ok ()) := by
  have hrun : iterUserTrades (ε := Unit) (serve [⟨1, 5⟩, ⟨2, 5⟩, ⟨3, 6⟩] (·.time) 2) 0 10 2 =
      ([⟨1, 5⟩, ⟨2, 5⟩], .ok ()) := by
    rw [iterUserTrades, iterTimeWindows, iterFrom]
    simp [serve, scanPage]
    rw [iterFrom]
    simp [serve, scanPage]
  rw [hrun]
  decide

end BinanceTh
