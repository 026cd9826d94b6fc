import Mathlib.Data.List.AList
import Mathlib.Data.Set.Basic
import Mathlib.Algebra.Order.Ring.Int

/-!
# Replicas of a versioned map

A map that changes by numbered updates is a history `hist : ℤ → K → Option V`: its content at
every version. A replica holds some content `m`; it agrees with version `v` on a set of keys `A`
(`Agrees`). A change set covers the versions `lo..hi` when it lists, with its content at `hi`,
every key that some update in the range changes (`Covers`). `Agrees.overlay`: writing a change set
that reaches back to the version after `v` moves the replica to version `hi`, and the set of keys
it is right about only grows, by the keys listed. `best_iff`: a replica that only has keys it is right
about knows the best key exactly when that key is one of them.
-/

namespace Replica

variable {K V : Type}

/-- The replica `m` has, for every key of `A`, the content of version `v`. -/
def Agrees (hist : ℤ → K → Option V) (v : ℤ) (A : Set K) (m : K → Option V) : Prop :=
  ∀ k ∈ A, m k = hist v k

/-- The keys that a change set lists. -/
def keysOf (us : List (K × Option V)) : Set K := {k | ∃ o, (k, o) ∈ us}

/-- A change set for the updates `lo..hi`: what it lists is the content at `hi`, and what it does
not list no update in the range changes. -/
structure Covers (hist : ℤ → K → Option V) (lo hi : ℤ) (us : List (K × Option V)) : Prop where
  listed : ∀ k o, (k, o) ∈ us → o = hist hi k
  unlisted : ∀ k, k ∉ keysOf us → ∀ i, lo ≤ i → i ≤ hi → hist i k = hist (i - 1) k

section Overlay

variable [DecidableEq K]

/-- Write a change set over a map; of two entries for one key the later one stays. -/
def overlay (m : K → Option V) : List (K × Option V) → K → Option V
  | [] => m
  | (k, o) :: us => overlay (Function.update m k o) us

theorem overlay_of_notMem {us : List (K × Option V)} {m : K → Option V} {k : K}
    (h : k ∉ keysOf us) : overlay m us k = m k := by
  induction us generalizing m with
  | nil => rfl
  | cons u us ih =>
    obtain ⟨j, o⟩ := u
    have hj : k ≠ j := fun e => h ⟨o, e ▸ List.mem_cons_self⟩
    have hus : k ∉ keysOf us := fun ⟨o', ho'⟩ => h ⟨o', List.mem_cons_of_mem _ ho'⟩
    rw [overlay, ih hus, Function.update_of_ne hj]

/-- Where all entries for a key agree, the overlay has that content. -/
theorem overlay_of_listed {us : List (K × Option V)} {m : K → Option V} {k : K} {x : Option V}
    (hk : k ∈ keysOf us) (h : ∀ o, (k, o) ∈ us → o = x) : overlay m us k = x := by
  induction us generalizing m with
  | nil =>
    obtain ⟨o, ho⟩ := hk
    cases ho
  | cons u us ih =>
    obtain ⟨j, o⟩ := u
    have htail : ∀ o', (k, o') ∈ us → o' = x := fun o' ho' => h o' (List.mem_cons_of_mem _ ho')
    by_cases hus : k ∈ keysOf us
    · exact ih hus htail
    · obtain ⟨o', ho'⟩ := hk
      rcases List.mem_cons.1 ho' with heq | hmem
      · obtain ⟨rfl, rfl⟩ := Prod.mk.inj heq
        rw [overlay, overlay_of_notMem hus, Function.update_self]
        exact h o' List.mem_cons_self
      · exact absurd ⟨o', hmem⟩ hus

end Overlay

section History

variable {hist : ℤ → K → Option V} {v lo hi : ℤ} {A B : Set K} {m : K → Option V}
  {us : List (K × Option V)}

theorem Agrees.mono (h : Agrees hist v A m) (hBA : B ⊆ A) : Agrees hist v B m :=
  fun k hk => h k (hBA hk)

/-- A key that a change set does not list is the same at every version it covers. -/
theorem Covers.frame (h : Covers hist lo hi us) {k : K} (hk : k ∉ keysOf us) (hlo : lo ≤ v + 1)
    (hhi : v ≤ hi) : hist hi k = hist v k := by
  -- from `v` upwards, every update up to `hi` lies in `lo..hi`
  have hup : ∀ n, v ≤ n → n ≤ hi → hist n k = hist v k := by
    intro n hn
    induction n, hn using Int.leInduction with
    | base => exact fun _ => rfl
    | succ n hn ih =>
      intro hle
      have hstep := h.unlisted k hk (n + 1) (by omega) hle
      rw [add_sub_cancel_right] at hstep
      rw [hstep, ih (by omega)]
  exact hup hi hhi le_rfl

/-- **Applying a change set.** A replica at version `v` that writes a change set for `lo..hi`
with `lo ≤ v + 1` and `v ≤ hi` is at version `hi`, also on the keys listed. -/
theorem Agrees.overlay [DecidableEq K] (hm : Agrees hist v A m) (hus : Covers hist lo hi us)
    (hlo : lo ≤ v + 1) (hhi : v ≤ hi) :
    Agrees hist hi (A ∪ keysOf us) (overlay m us) := by
  intro k hk
  by_cases hmem : k ∈ keysOf us
  · exact overlay_of_listed hmem (hus.listed k)
  · have hA : k ∈ A := hk.resolve_right hmem
    rw [overlay_of_notMem hmem, hm k hA, hus.frame hmem hlo hhi]

end History

section Best

variable {noWorse : K → K → Prop} {content m : K → Option V} {A : Set K} {b : Option (K × V)}

/-- `b` is the entry of the best key, `none` if there is no entry at all. -/
def Best (noWorse : K → K → Prop) (content : K → Option V) (b : Option (K × V)) : Prop :=
  match b with
  | none => ∀ k, content k = none
  | some (k, v) => content k = some v ∧ ∀ k', content k' ≠ none → noWorse k k'

/-- Some key of `A` is the best one. -/
def BestIn (noWorse : K → K → Prop) (content : K → Option V) (A : Set K) : Prop :=
  ∃ k ∈ A, content k ≠ none ∧ ∀ k', content k' ≠ none → noWorse k k'

/-- **The best entry of a replica** that only has keys of `A` and is right about them is the true
one exactly when there is no entry at all, or the true best key is in `A`. -/
theorem best_iff (hanti : ∀ k k', noWorse k k' → noWorse k' k → k = k')
    (hm : ∀ k ∈ A, m k = content k) (hA : ∀ k, m k ≠ none → k ∈ A) (hb : Best noWorse m b) :
    Best noWorse content b ↔ (∀ k, content k = none) ∨ BestIn noWorse content A := by
  have hfrom (k : K) (hk : m k ≠ none) : content k = m k := (hm k (hA k hk)).symm
  cases b with
  | none =>
    constructor
    · exact .inl
    · intro h
      rcases h with hnone | ⟨k, hk, hcontent, -⟩
      · exact hnone
      · exact absurd ((hm k hk).symm.trans (hb k)) hcontent
  | some e =>
    obtain ⟨k₀, v⟩ := e
    obtain ⟨hk₀, hbest₀⟩ := hb
    have hmem : m k₀ ≠ none := by simp [hk₀]
    constructor
    · intro ⟨hcontent, hbest⟩
      exact .inr ⟨k₀, hA k₀ hmem, by simp [hcontent], hbest⟩
    · intro h
      rcases h with hnone | ⟨k, hk, hcontent, hbest⟩
      · rw [← hfrom k₀ hmem, hnone k₀] at hk₀
        cases hk₀
      · -- both are best, each among the other's keys
        have heq : k = k₀ := by
          refine hanti k k₀ (hbest k₀ ?_) (hbest₀ k ?_)
          · rw [hfrom k₀ hmem]
            exact hmem
          · rw [hm k hk]
            exact hcontent
        subst heq
        exact ⟨(hfrom k hmem).trans hk₀, hbest⟩

end Best

end Replica
