import BinanceTh.Python
import BinanceTh.Pagination.Completeness

/-!
# Paging with identities that collide

`iter_deposit_history` of `wallet.py`. A deposit is known by its transaction id or, without one, by
its insert time, so that two records of one time can have one identity. Where no timestamp fills a
page, paging yields every row of the range once, but for the rows behind the cut of a page that
have the timestamp and the identity of one before the cut (`CutsApart`,
`iterDepositHistory_complete_iff`).
-/

namespace BinanceTh

section Cuts

variable {α ι ε : Type} (rows : List α) (windowKey : α → ℤ) (identity : α → ι) (pageLimit : ℕ)
  (endTime : ℤ)

/-- The rows that a window from `w` on is about. -/
def rowsFrom (w : ℤ) : List α :=
  rows.filter fun row => w ≤ windowKey row ∧ windowKey row ≤ endTime

/-- The page of the window from `w` on is full, and its last row, at `k`, is in the range. -/
def CutAt (w k : ℤ) : Prop :=
  pageLimit ≤ ((rowsFrom rows windowKey endTime w).take pageLimit).length ∧ k < endTime ∧
    ∃ last, ((rowsFrom rows windowKey endTime w).take pageLimit).getLast? = some last ∧
      windowKey last = k

/-- The windows that paging from one window on opens. -/
inductive Opens : ℤ → ℤ → Prop
  | here (w : ℤ) : Opens w w
  | next {w k v : ℤ} : CutAt rows windowKey pageLimit endTime w k → Opens k v → Opens w v

/-- No row behind the cut of a page has both the timestamp and the identity of one before it. -/
def CutsApart (startTime : ℤ) : Prop :=
  ∀ w k, Opens rows windowKey pageLimit endTime startTime w →
    CutAt rows windowKey pageLimit endTime w k →
    ∀ before ∈ (rowsFrom rows windowKey endTime w).take pageLimit,
    ∀ behind ∈ (rowsFrom rows windowKey endTime w).drop pageLimit,
      windowKey before = k → windowKey behind = k → identity before ≠ identity behind

variable {rows windowKey identity pageLimit endTime} {w k : ℤ} {boundaryKey : Option ℤ}
  {boundaryIds : List ι} {B T : List α}

/-! ## The loop over a page -/

/-- A row that the loop takes for one that has been yielded. -/
def Seen (windowKey : α → ℤ) (identity : α → ι) (boundaryKey : Option ℤ) (boundaryIds : List ι)
    (row : α) : Prop :=
  boundaryKey = some (windowKey row) ∧ identity row ∈ boundaryIds

instance [DecidableEq ι] :
    DecidablePred (Seen windowKey identity boundaryKey boundaryIds) := fun row =>
  inferInstanceAs (Decidable (boundaryKey = some (windowKey row) ∧ identity row ∈ boundaryIds))

/-- The rows before the end that are not taken for yielded ones. -/
theorem scanPage_unseen [DecidableEq ι] (P : List α) :
    scanPage windowKey identity endTime boundaryKey boundaryIds P =
      ((P.takeWhile fun r => windowKey r < endTime).filter fun r =>
          ¬ Seen windowKey identity boundaryKey boundaryIds r,
        P.any fun r => endTime ≤ windowKey r) := by
  induction P with
  | nil => rfl
  | cons r P ih =>
    by_cases hend : endTime ≤ windowKey r
    · rw [scanPage, if_pos hend]
      simp [hend]
    · have hlt : windowKey r < endTime := by omega
      have hstep : scanPage windowKey identity endTime boundaryKey boundaryIds (r :: P) =
          if Seen windowKey identity boundaryKey boundaryIds r then
            scanPage windowKey identity endTime boundaryKey boundaryIds P
          else (r :: (scanPage windowKey identity endTime boundaryKey boundaryIds P).1,
            (scanPage windowKey identity endTime boundaryKey boundaryIds P).2) := by
        rw [scanPage, if_neg hend]
        rfl
      rw [hstep, ih]
      by_cases hseen : Seen windowKey identity boundaryKey boundaryIds r
      · simp [hend, hlt, hseen]
      · simp [hend, hlt, hseen]

/-! ## The state at a window start -/

/-- The rows from `w` on: `B` were on the page before and are known by their identities, `T` were
not. -/
structure Reopens (rows : List α) (windowKey : α → ℤ) (identity : α → ι) (endTime : ℤ)
    (pageLimit : ℕ) (w : ℤ) (boundaryKey : Option ℤ) (boundaryIds : List ι) (B T : List α) :
    Prop where
  served : rowsFrom rows windowKey endTime w = B ++ T
  key_eq : ∀ b ∈ B, windowKey b = w
  known : ∀ b ∈ B, Seen windowKey identity boundaryKey boundaryIds b
  boundary : ∀ key, boundaryKey = some key → key = w
  length_le : B.length ≤ pageLimit

theorem reopens_start (w : ℤ) :
    Reopens rows windowKey identity endTime pageLimit w none []
      [] (rowsFrom rows windowKey endTime w) := by
  constructor <;> simp

/-- What is left of a run from `w`: it yields all of `T` that lies before the end and no row of `T`
is or comes to be taken for another, or it yields less and some row is. -/
def Yields (rows : List α) (windowKey : α → ℤ) (identity : α → ι) (pageLimit : ℕ) (endTime w : ℤ)
    (boundaryKey : Option ℤ) (boundaryIds : List ι) (T out : List α) : Prop :=
  (out = T.filter (fun r => windowKey r < endTime) ∧
      (∀ r ∈ T, ¬ Seen windowKey identity boundaryKey boundaryIds r) ∧
      CutsApart rows windowKey identity pageLimit endTime w) ∨
    (out.length < (T.filter fun r => windowKey r < endTime).length ∧
      ¬ ((∀ r ∈ T, ¬ Seen windowKey identity boundaryKey boundaryIds r) ∧
        CutsApart rows windowKey identity pageLimit endTime w))

theorem mem_rowsFrom {r : α} :
    r ∈ rowsFrom rows windowKey endTime w ↔ r ∈ rows ∧ w ≤ windowKey r ∧ windowKey r ≤ endTime := by
  simp [rowsFrom]

theorem CutAt.unique {k' : ℤ} (h : CutAt rows windowKey pageLimit endTime w k)
    (h' : CutAt rows windowKey pageLimit endTime w k') : k' = k := by
  obtain ⟨-, -, last, hlast, rfl⟩ := h
  obtain ⟨-, -, last', hlast', rfl⟩ := h'
  rw [Option.some.inj (hlast.symm.trans hlast')]

/-- Without a cut the window is the last one. -/
theorem cutsApart_of_no_cut (h : ∀ k, ¬ CutAt rows windowKey pageLimit endTime w k) :
    CutsApart rows windowKey identity pageLimit endTime w := by
  intro v k hopens hcut
  cases hopens with
  | here => exact absurd hcut (h k)
  | next hcut' _ => exact absurd hcut' (h _)

theorem cutsApart_iff_of_cut (hcut : CutAt rows windowKey pageLimit endTime w k) :
    CutsApart rows windowKey identity pageLimit endTime w ↔
      (∀ r ∈ (rowsFrom rows windowKey endTime w).drop pageLimit,
        ¬ Seen windowKey identity (some k)
          ((((rowsFrom rows windowKey endTime w).take pageLimit).filter
            fun row => windowKey row = k).map identity) r) ∧
      CutsApart rows windowKey identity pageLimit endTime k := by
  constructor
  · intro h
    refine ⟨fun behind hbehind hseen => ?_, fun v k' hopens => h v k' (.next hcut hopens)⟩
    obtain ⟨hkey, hid⟩ := hseen
    obtain ⟨before, hbefore, hsame⟩ := List.mem_map.1 hid
    obtain ⟨hmem, hk⟩ := List.mem_filter.1 hbefore
    exact h w k (.here w) hcut before hmem behind hbehind (of_decide_eq_true hk)
      (Option.some.inj hkey).symm hsame
  · rintro ⟨hfresh, hrest⟩ v k' hopens hcut'
    cases hopens with
    | here =>
      obtain rfl := hcut.unique hcut'
      intro before hbefore behind hbehind hk hk' hsame
      refine hfresh behind hbehind ⟨congrArg some hk'.symm, List.mem_map.2 ⟨before, ?_, hsame⟩⟩
      exact List.mem_filter.2 ⟨hbefore, decide_eq_true hk⟩
    | next hcut'' hopens =>
      obtain rfl := hcut.unique hcut''
      exact hrest v k' hopens hcut'

/-! ## Timestamps that do not fill a page -/

section Sorted

variable (hsorted : rows.Pairwise fun a b => windowKey a ≤ windowKey b)
  (hshare : ∀ t, rows.countP (fun r => windowKey r = t) < pageLimit)

include hshare in
theorem length_lt_of_keys_eq
    (h : ∀ r ∈ (rowsFrom rows windowKey endTime w).take pageLimit, windowKey r = k) :
    ((rowsFrom rows windowKey endTime w).take pageLimit).length < pageLimit := by
  have hsub : ((rowsFrom rows windowKey endTime w).take pageLimit).Sublist rows :=
    (List.take_sublist _ _).trans List.filter_sublist
  have hall : ((rowsFrom rows windowKey endTime w).take pageLimit).countP
      (fun r => windowKey r = k) = ((rowsFrom rows windowKey endTime w).take pageLimit).length :=
    List.countP_eq_length.2 fun r hr => decide_eq_true (h r hr)
  rw [← hall]
  exact hsub.countP_le.trans_lt (hshare k)

include hsorted

theorem CutAt.bounds (h : CutAt rows windowKey pageLimit endTime w k) :
    (∀ r ∈ (rowsFrom rows windowKey endTime w).take pageLimit, windowKey r ≤ k) ∧
      ∀ r ∈ (rowsFrom rows windowKey endTime w).drop pageLimit, k ≤ windowKey r := by
  obtain ⟨-, -, last, hlast, rfl⟩ := h
  have hstart : Resumes rows windowKey windowKey endTime pageLimit w none [] []
      (rowsFrom rows windowKey endTime w) := resumes_start w
  exact hstart.last_bounds hsorted hlast

include hshare in
/-- A cut moves the window on. -/
theorem CutAt.lt (h : CutAt rows windowKey pageLimit endTime w k) : w < k := by
  by_contra hle
  have hkeys : ∀ r ∈ (rowsFrom rows windowKey endTime w).take pageLimit, windowKey r = w := by
    intro r hr
    have hle' := (h.bounds hsorted).1 r hr
    obtain ⟨-, hge, -⟩ := mem_rowsFrom.1 (List.mem_of_mem_take hr)
    omega
  exact absurd h.1 (not_le.2 (length_lt_of_keys_eq hshare hkeys))

include hshare in
/-- The rows at the window's own timestamp are on its page. -/
theorem lt_of_behind {r : α} (hr : r ∈ (rowsFrom rows windowKey endTime w).drop pageLimit) :
    w < windowKey r := by
  have hpair := hsorted.filter fun row => w ≤ windowKey row ∧ windowKey row ≤ endTime
  rw [← List.take_append_drop pageLimit (rows.filter _)] at hpair
  obtain ⟨-, -, hbefore⟩ := List.pairwise_append.1 hpair
  obtain ⟨-, hge, -⟩ := mem_rowsFrom.1 (List.mem_of_mem_drop hr)
  refine lt_of_le_of_ne hge fun heq => ?_
  have hkeys : ∀ b ∈ (rowsFrom rows windowKey endTime w).take pageLimit, windowKey b = w := by
    intro b hb
    have hle : windowKey b ≤ windowKey r := hbefore b hb r hr
    obtain ⟨-, hge', -⟩ := mem_rowsFrom.1 (List.mem_of_mem_take hb)
    omega
  have hshort := length_lt_of_keys_eq hshare hkeys
  rw [List.length_take] at hshort
  have hnone : (rowsFrom rows windowKey endTime w).drop pageLimit = [] :=
    List.drop_eq_nil_of_le (by omega)
  rw [hnone] at hr
  cases hr

end Sorted

/-! ## One page -/

namespace Reopens

variable (h : Reopens rows windowKey identity endTime pageLimit w boundaryKey boundaryIds B T)

include h

theorem page_eq : (rowsFrom rows windowKey endTime w).take pageLimit =
    B ++ T.take (pageLimit - B.length) := by
  rw [h.served, List.take_append, List.take_of_length_le h.length_le]

theorem behind_eq :
    (rowsFrom rows windowKey endTime w).drop pageLimit = T.drop (pageLimit - B.length) := by
  rw [h.served, List.drop_append, List.drop_eq_nil_of_le h.length_le, List.nil_append]

/-- What the page yields: of its new rows those before the end that are not taken for old ones. -/
theorem scanPage_eq [DecidableEq ι] (hsorted : rows.Pairwise fun a b => windowKey a ≤ windowKey b)
    (hw : w < endTime) :
    scanPage windowKey identity endTime boundaryKey boundaryIds
        ((rowsFrom rows windowKey endTime w).take pageLimit) =
      (((T.take (pageLimit - B.length)).filter fun r => windowKey r < endTime).filter fun r =>
          ¬ Seen windowKey identity boundaryKey boundaryIds r,
        (T.take (pageLimit - B.length)).any fun r => endTime ≤ windowKey r) := by
  have hpage : ((rowsFrom rows windowKey endTime w).take pageLimit).Pairwise
      fun a b => windowKey a ≤ windowKey b :=
    (hsorted.filter _).sublist (List.take_sublist _ _)
  rw [scanPage_unseen, takeWhile_lt_eq_filter hpage, h.page_eq, List.filter_append,
    List.filter_append, List.any_append]
  have hnone : ((B.filter fun r => windowKey r < endTime).filter fun r =>
      ¬ Seen windowKey identity boundaryKey boundaryIds r) = [] := by
    rw [List.filter_eq_nil_iff]
    intro b hb
    simpa using h.known b (List.mem_of_mem_filter hb)
  have hany : (B.any fun r => endTime ≤ windowKey r) = false := by
    rw [List.any_eq_false]
    intro b hb
    rw [h.key_eq b hb]
    simpa using hw
  rw [hnone, hany, List.nil_append, Bool.false_or]

/-- The rows that a page drops for old ones are those of `T` with the window's own timestamp, so
that they are all on this page. -/
theorem length_yielded [DecidableEq ι]
    (hsorted : rows.Pairwise fun a b => windowKey a ≤ windowKey b)
    (hshare : ∀ t, rows.countP (fun r => windowKey r = t) < pageLimit) (hw : w < endTime) :
    ((∀ r ∈ T, ¬ Seen windowKey identity boundaryKey boundaryIds r) ∧
        (((T.take (pageLimit - B.length)).filter fun r => windowKey r < endTime).filter fun r =>
          ¬ Seen windowKey identity boundaryKey boundaryIds r) =
        (T.take (pageLimit - B.length)).filter fun r => windowKey r < endTime) ∨
      (¬ (∀ r ∈ T, ¬ Seen windowKey identity boundaryKey boundaryIds r) ∧
        (((T.take (pageLimit - B.length)).filter fun r => windowKey r < endTime).filter fun r =>
          ¬ Seen windowKey identity boundaryKey boundaryIds r).length <
        ((T.take (pageLimit - B.length)).filter fun r => windowKey r < endTime).length) := by
  by_cases hfresh : ∀ r ∈ T, ¬ Seen windowKey identity boundaryKey boundaryIds r
  · left
    refine ⟨hfresh, List.filter_eq_self.2 fun r hr => decide_eq_true ?_⟩
    exact hfresh r (List.mem_of_mem_take (List.mem_of_mem_filter hr))
  · right
    refine ⟨hfresh, ?_⟩
    simp only [not_forall, not_not] at hfresh
    obtain ⟨r, hr, hseen⟩ := hfresh
    have hkey : windowKey r = w := h.boundary _ hseen.1
    have hpage : r ∈ T.take (pageLimit - B.length) := by
      rw [← List.take_append_drop (pageLimit - B.length) T] at hr
      refine (List.mem_append.1 hr).resolve_right fun hbehind => ?_
      rw [← h.behind_eq] at hbehind
      exact absurd hkey (lt_of_behind hsorted hshare hbehind).ne'
    rw [List.length_filter_lt_length_iff_exists]
    refine ⟨r, List.mem_filter.2 ⟨hpage, decide_eq_true (hkey ▸ hw)⟩, ?_⟩
    simpa using hseen

/-- The run may end where no row of the range is behind the page. -/
theorem yields_of_done [DecidableEq ι]
    (hsorted : rows.Pairwise fun a b => windowKey a ≤ windowKey b)
    (hshare : ∀ t, rows.countP (fun r => windowKey r = t) < pageLimit) (hw : w < endTime)
    (hdone : ((T.drop (pageLimit - B.length)).filter fun r => windowKey r < endTime) = [])
    (hcut : ∀ k, ¬ CutAt rows windowKey pageLimit endTime w k) :
    Yields rows windowKey identity pageLimit endTime w boundaryKey boundaryIds T
      (((T.take (pageLimit - B.length)).filter fun r => windowKey r < endTime).filter fun r =>
        ¬ Seen windowKey identity boundaryKey boundaryIds r) := by
  have hall : (T.filter fun r => windowKey r < endTime) =
      (T.take (pageLimit - B.length)).filter fun r => windowKey r < endTime := by
    rw [← List.append_nil ((T.take (pageLimit - B.length)).filter _), ← hdone,
      ← List.filter_append, List.take_append_drop]
  rw [Yields, hall]
  rcases h.length_yielded hsorted hshare hw with ⟨hfresh, heq⟩ | ⟨hnot, hlt⟩
  · exact .inl ⟨heq, hfresh, cutsApart_of_no_cut hcut⟩
  · exact .inr ⟨hlt, fun hgood => hnot hgood.1⟩

/-- The next window begins at the cut. -/
theorem advance (hsorted : rows.Pairwise fun a b => windowKey a ≤ windowKey b)
    (hshare : ∀ t, rows.countP (fun r => windowKey r = t) < pageLimit)
    (hcut : CutAt rows windowKey pageLimit endTime w k) :
    Reopens rows windowKey identity endTime pageLimit k (some k)
      ((((rowsFrom rows windowKey endTime w).take pageLimit).filter fun row =>
        windowKey row = k).map identity)
      (((rowsFrom rows windowKey endTime w).take pageLimit).filter fun row => windowKey row = k)
      (T.drop (pageLimit - B.length)) := by
  obtain ⟨hpage, hbehind⟩ := hcut.bounds hsorted
  constructor
  case served =>
    have hfrom : rowsFrom rows windowKey endTime k =
        (rowsFrom rows windowKey endTime w).filter fun r => k ≤ windowKey r :=
      filter_from (hcut.lt hsorted hshare).le
    rw [hfrom, ← h.behind_eq]
    conv_lhs => rw [← List.take_append_drop pageLimit (rowsFrom rows windowKey endTime w)]
    rw [List.filter_append]
    congr 1
    · apply List.filter_congr
      intro r hr
      have := hpage r hr
      simp
      omega
    · rw [List.filter_eq_self]
      intro r hr
      simpa using hbehind r hr
  case key_eq => exact fun b hb => of_decide_eq_true (List.mem_filter.1 hb).2
  case known =>
    intro b hb
    have hkey : windowKey b = k := of_decide_eq_true (List.mem_filter.1 hb).2
    exact ⟨congrArg some hkey.symm, List.mem_map_of_mem hb⟩
  case boundary => exact fun key hkey => (Option.some.inj hkey).symm
  case length_le =>
    exact (List.length_filter_le _ _).trans (List.length_take_le _ _)

/-- The run from a window start, from the run from the cut of its page. -/
theorem yields_of_cut [DecidableEq ι]
    (hsorted : rows.Pairwise fun a b => windowKey a ≤ windowKey b)
    (hshare : ∀ t, rows.countP (fun r => windowKey r = t) < pageLimit) (hw : w < endTime)
    (hcut : CutAt rows windowKey pageLimit endTime w k) {out : List α}
    (hout : Yields rows windowKey identity pageLimit endTime k (some k)
      ((((rowsFrom rows windowKey endTime w).take pageLimit).filter fun row =>
        windowKey row = k).map identity) (T.drop (pageLimit - B.length)) out) :
    Yields rows windowKey identity pageLimit endTime w boundaryKey boundaryIds T
      ((((T.take (pageLimit - B.length)).filter fun r => windowKey r < endTime).filter fun r =>
        ¬ Seen windowKey identity boundaryKey boundaryIds r) ++ out) := by
  have hsplit : (T.filter fun r => windowKey r < endTime) =
      (T.take (pageLimit - B.length)).filter (fun r => windowKey r < endTime) ++
        (T.drop (pageLimit - B.length)).filter fun r => windowKey r < endTime := by
    rw [← List.filter_append, List.take_append_drop]
  rw [Yields, hsplit, cutsApart_iff_of_cut hcut, h.behind_eq, List.length_append,
    List.length_append]
  rcases h.length_yielded hsorted hshare hw with ⟨hfresh, heq⟩ | ⟨hnot, hlt⟩
  · rcases hout with ⟨hout, hgood⟩ | ⟨hless, hbad⟩
    · exact .inl ⟨by rw [heq, hout], hfresh, hgood⟩
    · exact .inr ⟨by rw [heq]; omega, fun hall => hbad hall.2⟩
  · right
    refine ⟨?_, fun hall => hnot hall.1⟩
    rcases hout with ⟨hout, -⟩ | ⟨hless, -⟩
    · rw [hout]
      omega
    · omega

/-- Behind a page that is not full there is nothing. -/
theorem done_of_short
    (hshort : ((rowsFrom rows windowKey endTime w).take pageLimit).length < pageLimit) :
    ((T.drop (pageLimit - B.length)).filter fun r => windowKey r < endTime) = [] ∧
      ∀ k, ¬ CutAt rows windowKey pageLimit endTime w k := by
  refine ⟨?_, fun k hcut => absurd hcut.1 (not_le.2 hshort)⟩
  rw [List.length_take] at hshort
  rw [← h.behind_eq, List.drop_eq_nil_of_le (by omega), List.filter_nil]

/-- Behind a page with a row at the end there is nothing of the range. -/
theorem done_of_end (hsorted : rows.Pairwise fun a b => windowKey a ≤ windowKey b)
    (hany : ((T.take (pageLimit - B.length)).any fun r => endTime ≤ windowKey r) = true) :
    ((T.drop (pageLimit - B.length)).filter fun r => windowKey r < endTime) = [] ∧
      ∀ k, ¬ CutAt rows windowKey pageLimit endTime w k := by
  obtain ⟨r, hr, hle⟩ := List.any_eq_true.1 hany
  have hend : endTime ≤ windowKey r := of_decide_eq_true hle
  have hpage : r ∈ (rowsFrom rows windowKey endTime w).take pageLimit := by
    rw [h.page_eq]
    exact List.mem_append_right _ hr
  constructor
  · rw [← h.behind_eq]
    refine filter_lt_eq_nil ?_ ⟨r, hpage, hend⟩
    rw [List.take_append_drop]
    exact hsorted.filter _
  · intro k hcut
    have := (hcut.bounds hsorted).1 r hpage
    have := hcut.2.1
    omega

theorem last_lt (hw : w < endTime) {last : α}
    (hlast : ((rowsFrom rows windowKey endTime w).take pageLimit).getLast? = some last)
    (hany : ¬ ((T.take (pageLimit - B.length)).any fun r => endTime ≤ windowKey r) = true) :
    windowKey last < endTime := by
  have hmem := List.mem_of_getLast? hlast
  rw [h.page_eq] at hmem
  rcases List.mem_append.1 hmem with hB | hT
  · exact h.key_eq last hB ▸ hw
  · by_contra hle
    exact hany (List.any_eq_true.2 ⟨last, hT, decide_eq_true (not_lt.1 hle)⟩)

end Reopens

/-- A run from a window start ends, and either yields all that is left and no row is taken for
another, or yields less and some row is. -/
theorem iterFrom_yields [DecidableEq ι]
    (hsorted : rows.Pairwise fun a b => windowKey a ≤ windowKey b)
    (hshare : ∀ t, rows.countP (fun r => windowKey r = t) < pageLimit) (n : ℕ) :
    ∀ {w : ℤ} {boundaryKey : Option ℤ} {boundaryIds : List ι} {B T : List α},
      (endTime - w).toNat = n → w < endTime →
      Reopens rows windowKey identity endTime pageLimit w boundaryKey boundaryIds B T →
      ∃ out, iterFrom (ε := ε) (serve rows windowKey pageLimit) endTime pageLimit windowKey identity
          w boundaryKey boundaryIds = (out, .ok ()) ∧
        Yields rows windowKey identity pageLimit endTime w boundaryKey boundaryIds T out := by
  induction n using Nat.strong_induction_on with
  | _ n ih =>
    intro w boundaryKey boundaryIds B T hn hw h
    have hserve : serve (ε := ε) rows windowKey pageLimit w endTime =
        .ok ((rowsFrom rows windowKey endTime w).take pageLimit) := rfl
    rw [iterFrom, if_pos hw, hserve]
    simp only
    split
    · next hempty =>
      -- an empty page is not full
      have hpage := List.getLast?_eq_none_iff.1 hempty
      obtain ⟨hdone, hcut⟩ :=
        h.done_of_short (by rw [hpage]; exact (hshare w).trans_le' (Nat.zero_le _))
      have hyields := h.yields_of_done hsorted hshare hw hdone hcut
      rw [h.page_eq] at hpage
      rw [(List.append_eq_nil_iff.1 hpage).2] at hyields
      exact ⟨[], rfl, hyields⟩
    · next last hlast =>
      rw [h.scanPage_eq hsorted hw]
      simp only
      split
      · next hany =>
        -- all rows that come before the one at the end are on the page
        obtain ⟨hdone, hcut⟩ := h.done_of_end hsorted hany
        exact ⟨_, rfl, h.yields_of_done hsorted hshare hw hdone hcut⟩
      · next hany =>
        have hbefore := h.last_lt hw hlast hany
        split
        · next hlt =>
          obtain ⟨hdone, hcut⟩ := h.done_of_short hlt
          exact ⟨_, rfl, h.yields_of_done hsorted hshare hw hdone hcut⟩
        · next hfull =>
          have hcut : CutAt rows windowKey pageLimit endTime w (windowKey last) :=
            ⟨not_lt.1 hfull, hbefore, last, hlast, rfl⟩
          have hprogress := hcut.lt hsorted hshare
          rw [dif_neg (not_le.2 hprogress)]
          obtain ⟨out, hrun, hout⟩ := ih (endTime - windowKey last).toNat (by omega) rfl hbefore
            (h.advance hsorted hshare hcut)
          exact ⟨_, by rw [hrun], h.yields_of_cut hsorted hshare hw hcut hout⟩

/-- Where no timestamp fills a page, paging yields every row of the range once iff no row behind a
cut is taken for one before it. -/
theorem iterTimeWindows_apart_iff [DecidableEq ι]
    (hsorted : rows.Pairwise fun a b => windowKey a ≤ windowKey b)
    (hshare : ∀ t, rows.countP (fun r => windowKey r = t) < pageLimit) (startTime endTime : ℤ) :
    (∃ out, iterTimeWindows (ε := ε) (serve rows windowKey pageLimit) startTime endTime pageLimit
          windowKey identity = (out, .ok ()) ∧
        out.Perm (rows.filter fun r => startTime ≤ windowKey r ∧ windowKey r < endTime)) ↔
      CutsApart rows windowKey identity pageLimit endTime startTime := by
  have hrange : (rows.filter fun r => startTime ≤ windowKey r ∧ windowKey r < endTime) =
      (rowsFrom rows windowKey endTime startTime).filter fun r => windowKey r < endTime := by
    rw [rowsFrom, List.filter_filter]
    congr 1
    funext r
    grind
  unfold iterTimeWindows
  rcases lt_or_ge startTime endTime with hlt | hge
  · have hstart : Reopens rows windowKey identity endTime pageLimit startTime none [] []
        (rowsFrom rows windowKey endTime startTime) := reopens_start startTime
    obtain ⟨out, hrun, hout⟩ := iterFrom_yields (ε := ε) hsorted hshare _ rfl hlt hstart
    rw [hrun, hrange]
    rcases hout with ⟨heq, -, happart⟩ | ⟨hless, hnot⟩
    · exact iff_of_true ⟨out, rfl, heq ▸ List.Perm.refl _⟩ happart
    · constructor
      · rintro ⟨out', hout', hperm⟩
        obtain ⟨rfl, -⟩ := Prod.mk.inj hout'
        rw [hperm.length_eq] at hless
        exact absurd hless (lt_irrefl _)
      · intro happart
        refine absurd ⟨fun r _ hseen => ?_, happart⟩ hnot
        cases hseen.1
  · rw [iterFrom, if_neg (not_lt.2 hge)]
    have hnone : (rows.filter fun r => startTime ≤ windowKey r ∧ windowKey r < endTime) = [] := by
      rw [List.filter_eq_nil_iff]
      intro r _
      simp
      omega
    refine iff_of_true ⟨[], rfl, hnone ▸ List.Perm.nil⟩ (cutsApart_of_no_cut fun k hcut => ?_)
    have hlast := hcut.2.2
    obtain ⟨last, hlast, rfl⟩ := hlast
    obtain ⟨-, hle, -⟩ := mem_rowsFrom.1 (List.mem_of_mem_take (List.mem_of_getLast? hlast))
    have := hcut.2.1
    omega

end Cuts

/-! ## Deposits -/

structure DepositRecord where
  amount : Decimal
  coin : String
  network : String
  status : ℤ
  address : String
  addressTag : Option String
  txId : Option String
  insertTime : ℤ
  transferType : ℤ
  confirmTimes : String
  deriving DecidableEq

/-- `record.tx_id or record.insert_time`. -/
def DepositRecord.identity (record : DepositRecord) : String ⊕ ℤ :=
  match record.txId with
  | some txId => if txId = "" then .inr record.insertTime else .inl txId
  | none => .inr record.insertTime

/-- `iter_deposit_history`, over the pages of `deposit_history`. -/
def iterDepositHistory {ε : Type} (depositHistory : ℤ → ℤ → Except ε (List DepositRecord))
    (startTime endTime : ℤ) (limit : ℕ) : List DepositRecord × Except ε Unit :=
  iterTimeWindows depositHistory startTime endTime limit (·.insertTime) (·.identity)

/-- Where fewer records than a page takes have any one insert time, every record of the range is
yielded once iff no record behind a cut has the insert time and the identity of one before it. -/
theorem iterDepositHistory_complete_iff {ε : Type} {records : List DepositRecord} {limit : ℕ}
    (hsorted : records.Pairwise fun a b => a.insertTime ≤ b.insertTime)
    (hshare : ∀ t, records.countP (fun r => r.insertTime = t) < limit) (startTime endTime : ℤ) :
    (∃ out, iterDepositHistory (ε := ε) (serve records (·.insertTime) limit) startTime endTime
          limit = (out, .ok ()) ∧
        out.Perm (records.filter fun r => startTime ≤ r.insertTime ∧ r.insertTime < endTime)) ↔
      CutsApart records (·.insertTime) (·.identity) limit endTime startTime :=
  iterTimeWindows_apart_iff hsorted hshare startTime endTime

/-- A pending deposit, which has no transaction id. -/
def pendingDeposit (amount insertTime : ℤ) : DepositRecord :=
  { amount := ⟨amount, 0⟩, coin := "BTC", network := "BTC", status := 0, address := "a",
    addressTag := none, txId := none, insertTime, transferType := 0, confirmTimes := "0/1" }

def paidDeposit (txId : String) (insertTime : ℤ) : DepositRecord :=
  { pendingDeposit 1 insertTime with txId := some txId, status := 1, confirmTimes := "1/1" }

/-- Five deposits; the first page of three ends between two of one insert time. -/
def fiveDeposits : List DepositRecord :=
  [pendingDeposit 1 4, pendingDeposit 2 5, paidDeposit "a" 6, paidDeposit "b" 6, pendingDeposit 3 7]

/-- Three pages. -/
theorem iterDepositHistory_complete_threePages :
    ∃ out, iterDepositHistory (ε := Unit) (serve fiveDeposits (·.insertTime) 3) 0 10 3 =
        (out, .ok ()) ∧
      out.Perm fiveDeposits := by
  have hshare : ∀ t, fiveDeposits.countP (fun r => r.insertTime = t) < 3 := by
    intro t
    simp only [fiveDeposits, pendingDeposit, paidDeposit, List.countP_cons, List.countP_nil,
      decide_eq_true_eq]
    split_ifs <;> omega
  have hfirst : CutAt fiveDeposits (·.insertTime) 3 10 0 6 :=
    ⟨by decide +kernel, by decide, paidDeposit "a" 6, by decide +kernel, rfl⟩
  have hsecond : CutAt fiveDeposits (·.insertTime) 3 10 6 7 :=
    ⟨by decide +kernel, by decide, pendingDeposit 3 7, by decide +kernel, rfl⟩
  refine (iterDepositHistory_complete_iff (by decide +kernel) hshare 0 10).2 ?_
  refine (cutsApart_iff_of_cut hfirst).2 ⟨by decide +kernel, ?_⟩
  refine (cutsApart_iff_of_cut hsecond).2 ⟨by decide +kernel, ?_⟩
  exact cutsApart_of_no_cut fun k hcut => absurd hcut.1 (by decide +kernel)

/-- Four pending deposits, of which two have one insert time. -/
def fourDeposits : List DepositRecord :=
  [pendingDeposit 1 4, pendingDeposit 2 5, pendingDeposit 3 6, pendingDeposit 4 6]

/-- On pages of three the fourth deposit is taken for the third. -/
theorem not_iterDepositHistory_complete :
    (∀ t, fourDeposits.countP (fun r => r.insertTime = t) < 3) ∧
      ¬ ∃ out, iterDepositHistory (ε := Unit) (serve fourDeposits (·.insertTime) 3) 0 10 3 =
          (out, .ok ()) ∧
        out.Perm (fourDeposits.filter fun r => 0 ≤ r.insertTime ∧ r.insertTime < 10) := by
  have hshare : ∀ t, fourDeposits.countP (fun r => r.insertTime = t) < 3 := by
    intro t
    simp only [fourDeposits, pendingDeposit, List.countP_cons, List.countP_nil, decide_eq_true_eq]
    split_ifs <;> omega
  refine ⟨hshare, fun hcomplete => ?_⟩
  have happart := (iterTimeWindows_apart_iff (by decide +kernel) hshare 0 10).1 hcomplete
  have hcut : CutAt fourDeposits (·.insertTime) 3 10 0 6 :=
    ⟨by decide +kernel, by decide, pendingDeposit 3 6, by decide +kernel, rfl⟩
  exact happart 0 6 (.here 0) hcut (pendingDeposit 3 6) (by decide +kernel) (pendingDeposit 4 6)
    (by decide +kernel) rfl rfl rfl

end BinanceTh
