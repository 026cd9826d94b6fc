import Mathlib.Data.List.Basic
import Mathlib.Algebra.Order.Ring.Int

/-!
# Time-window pagination (ADR-0016)

`iter_time_windows`: an async generator over the pages that a server returns for half-open windows.
A window begins at the timestamp of the last row of the page before it; the rows with that timestamp
that have been yielded already are skipped by their identity. The generator's result is the list of
the rows it yields, and how it ends.
-/

namespace BinanceTh

section Paging

variable {α ι ε : Type} [DecidableEq ι]

/-- The loop over one page: the rows it yields, and whether it has come to a row at or beyond
`endTime`. -/
def scanPage (windowKey : α → ℤ) (identity : α → ι) (endTime : ℤ) (boundaryKey : Option ℤ)
    (boundaryIds : List ι) : List α → List α × Bool
  | [] => ([], false)
  | row :: page =>
    if endTime ≤ windowKey row then ([], true)
    else
      let rest := scanPage windowKey identity endTime boundaryKey boundaryIds page
      -- a boundary row re-returned by the server's inclusive `startTime`
      if boundaryKey = some (windowKey row) ∧ identity row ∈ boundaryIds then rest
      else (row :: rest.1, rest.2)

/-- The loop of `iter_time_windows` at a window start. -/
def iterFrom (fetch : ℤ → ℤ → Except ε (List α)) (endTime : ℤ) (pageLimit : ℕ)
    (windowKey : α → ℤ) (identity : α → ι) (windowStart : ℤ) (boundaryKey : Option ℤ)
    (boundaryIds : List ι) : List α × Except ε Unit :=
  if windowStart < endTime then
    match fetch windowStart endTime with
    | .error e => ([], .error e)
    | .ok page =>
      match page.getLast? with
      | none => ([], .ok ())
      | some last =>
        let scanned := scanPage windowKey identity endTime boundaryKey boundaryIds page
        if scanned.2 then (scanned.1, .ok ())
        -- last (partial) page
        else if page.length < pageLimit then (scanned.1, .ok ())
        -- no forward progress; avoid an infinite loop
        else if _h : windowKey last ≤ windowStart then (scanned.1, .ok ())
        else
          let ids := (page.filter fun row => windowKey row = windowKey last).map identity
          let rest := iterFrom fetch endTime pageLimit windowKey identity (windowKey last)
            (some (windowKey last)) ids
          (scanned.1 ++ rest.1, rest.2)
  else ([], .ok ())
termination_by (endTime - windowStart).toNat
decreasing_by omega

/-- `iter_time_windows`; `identity` is `dedup_key`, or `window_key` if there is none. -/
def iterTimeWindows (fetch : ℤ → ℤ → Except ε (List α)) (startTime endTime : ℤ) (pageLimit : ℕ)
    (windowKey : α → ℤ) (identity : α → ι) : List α × Except ε Unit :=
  iterFrom fetch endTime pageLimit windowKey identity startTime none []

end Paging

/-- The fields of a user trade that paging reads. -/
structure UserTrade where
  id : ℤ
  time : ℤ
  deriving DecidableEq

/-- `iter_user_trades`, over the pages of `user_trades`. -/
def iterUserTrades {ε : Type} (userTrades : ℤ → ℤ → Except ε (List UserTrade))
    (startTime endTime : ℤ) (limit : ℕ) : List UserTrade × Except ε Unit :=
  iterTimeWindows userTrades startTime endTime limit (·.time) (·.id)

end BinanceTh
