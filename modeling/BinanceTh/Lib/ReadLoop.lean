import Mathlib.Data.List.Basic

/-!
# Read loops

A loop that handles one frame after another, while others change the state between two frames. What
handling a frame raises ends the loop, and so does a frame that tells it to stop; the others go on.
Frames that change nothing in any state may be left out of what is read (`run_filter`), and a loop
whose frames raise in all states or in none reads on if and only if none of them does
(`run_not_raised_iff`).
-/

namespace ReadLoop

variable {σ ρ ε : Type}

/-- A frame is read, or somebody else does something. -/
inductive Event (σ ρ : Type) where
  | frame (raw : ρ)
  | other (act : σ → σ)

inductive Status (ε : Type) where
  | reading
  /-- A frame has told the loop to stop. -/
  | stopped
  | raised (e : ε)

/-- A loop over a state. -/
structure Loop (σ ε : Type) where
  state : σ
  status : Status ε := .reading

/-- What one frame does: the state after it, and whether to stop, or what is raised. -/
abbrev Handler (σ ρ ε : Type) : Type := σ → ρ → σ × Except ε Bool

def Status.after : Except ε Bool → Status ε
  | .ok false => .reading
  | .ok true => .stopped
  | .error e => .raised e

def step (handle : Handler σ ρ ε) (s : Loop σ ε) : Event σ ρ → Loop σ ε
  | .frame raw =>
    match s.status with
    | .reading => ⟨(handle s.state raw).1, .after (handle s.state raw).2⟩
    | _ => s
  | .other act => { s with state := act s.state }

def run (handle : Handler σ ρ ε) (s : Loop σ ε) (events : List (Event σ ρ)) : Loop σ ε :=
  events.foldl (step handle) s

/-- A frame that `p` holds of. -/
def Event.isFrame (p : ρ → Bool) : Event σ ρ → Bool
  | .frame raw => p raw
  | .other _ => false

variable {handle : Handler σ ρ ε} {s : Loop σ ε}

theorem run_cons (event : Event σ ρ) (events : List (Event σ ρ)) :
    run handle s (event :: events) = run handle (step handle s event) events := rfl

/-- Frames that change nothing may be left out. -/
theorem run_filter {skip : ρ → Bool} {events : List (Event σ ρ)}
    (h : ∀ raw, .frame raw ∈ events → skip raw = true → ∀ state,
      handle state raw = (state, .ok false)) :
    run handle s (events.filter fun event => !event.isFrame skip) = run handle s events := by
  induction events generalizing s with
  | nil => rfl
  | cons event events ih =>
    have hrest : ∀ s, run handle s (events.filter fun event => !event.isFrame skip) =
        run handle s events :=
      fun s => ih fun raw hraw => h raw (List.mem_cons_of_mem event hraw)
    rw [List.filter_cons, run_cons]
    split
    · rw [run_cons, hrest]
    · next hskip =>
      rw [hrest]
      cases event with
      | other act => exact absurd rfl hskip
      | frame raw =>
        have hsame := h raw List.mem_cons_self (by simpa [Event.isFrame] using hskip)
        have hstep : step handle s (.frame raw) = s := by
          unfold step
          dsimp only
          split
          · next hreading => rw [hsame, Status.after, ← hreading]
          · rfl
        rw [hstep]

/-- A loop whose frames do not raise has not been ended by an exception. -/
theorem run_not_raised {events : List (Event σ ρ)}
    (h : ∀ raw, .frame raw ∈ events → ∀ state e, (handle state raw).2 ≠ .error e)
    (hs : ∀ e, s.status ≠ .raised e) : ∀ e, (run handle s events).status ≠ .raised e := by
  induction events generalizing s with
  | nil => exact hs
  | cons event events ih =>
    rw [run_cons]
    refine ih (fun raw hraw => h raw (List.mem_cons_of_mem event hraw)) ?_
    intro e heq
    cases event with
    | other act => exact hs e heq
    | frame raw =>
      unfold step at heq
      dsimp only at heq
      split at heq
      · have hno := h raw List.mem_cons_self s.state
        revert heq hno
        generalize (handle s.state raw).2 = result
        intro heq hno
        cases result with
        | error e' => exact hno e' rfl
        | ok stop => cases stop <;> cases heq
      · exact hs e heq

/-- Once an exception has ended the loop, it is the one that has. -/
theorem run_raised {e : ε} (events : List (Event σ ρ)) (hs : s.status = .raised e) :
    (run handle s events).status = .raised e := by
  induction events generalizing s with
  | nil => exact hs
  | cons event events ih =>
    rw [run_cons]
    refine ih ?_
    cases event with
    | other act => exact hs
    | frame raw =>
      unfold step
      dsimp only
      rw [hs]
      exact hs

/-- Where no frame says to stop, and whether a frame raises does not depend on the state, an exception
ends the loop if and only if a frame that raises is read. -/
theorem run_not_raised_iff {bad : ρ → Bool} {events : List (Event σ ρ)}
    (hbad : ∀ raw, .frame raw ∈ events → bad raw = true → ∀ state, ∃ e,
      (handle state raw).2 = .error e)
    (hgood : ∀ raw, .frame raw ∈ events → bad raw = false → ∀ state, (handle state raw).2 = .ok false)
    (hs : s.status = .reading) :
    (∀ e, (run handle s events).status ≠ .raised e) ↔
      ∀ raw, .frame raw ∈ events → bad raw = false := by
  induction events generalizing s with
  | nil =>
    refine iff_of_true (fun e heq => ?_) (fun raw hraw => absurd hraw List.not_mem_nil)
    rw [run, List.foldl_nil, hs] at heq
    cases heq
  | cons event events ih =>
    have hrest := fun s (hs : s.status = Status.reading) =>
      ih (s := s) (fun raw hraw => hbad raw (List.mem_cons_of_mem event hraw))
        (fun raw hraw => hgood raw (List.mem_cons_of_mem event hraw)) hs
    rw [run_cons]
    cases event with
    | other act =>
      rw [hrest (step handle s (.other act)) hs]
      simp
    | frame raw =>
      have hstep : step handle s (.frame raw) =
          ⟨(handle s.state raw).1, .after (handle s.state raw).2⟩ := by
        unfold step
        dsimp only
        rw [hs]
      cases hraw : bad raw with
      | true =>
        obtain ⟨e, he⟩ := hbad raw List.mem_cons_self hraw s.state
        refine iff_of_false (fun hnot => hnot e (run_raised events ?_)) fun hall => ?_
        · rw [hstep, he]
          rfl
        · rw [hall raw List.mem_cons_self] at hraw
          cases hraw
      | false =>
        have hstatus : (step handle s (.frame raw)).status = .reading := by
          rw [hstep, hgood raw List.mem_cons_self hraw s.state]
          rfl
        rw [hrest _ hstatus]
        constructor
        · intro hall raw' hraw'
          rcases List.mem_cons.1 hraw' with heq | hraw'
          · cases heq
            exact hraw
          · exact hall raw' hraw'
        · exact fun hall raw' hraw' => hall raw' (List.mem_cons_of_mem _ hraw')

end ReadLoop
