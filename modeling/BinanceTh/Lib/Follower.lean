import BinanceTh.Lib.Transition
import Mathlib.Order.Lattice

/-!
# Followers of a numbered feed

A follower keeps a copy of something whose changes are numbered. It is told of them through a queue
that may drop its oldest item when one is added, it may skip what it has already, and where a change
does not follow on its copy it asks for a new copy. An item that is no change ends the following.

If what is delivered does not go back, and each new copy is as new as the change that it was asked
for, then what the follower shows never goes back (`shown_le_of_run`), and whenever it has emptied its
queue it has caught up with all that was ever delivered, also with what the queue has dropped
(`Inv.caughtUp`).
-/

namespace Following

open Transition

variable {V : Type}

inductive FollowerMode (V : Type) where
  | idle
  /-- It waits for a copy; `demand` is the change that does not follow on the one it shows. -/
  | resyncing (demand : Option V)
  | following
  | ended

structure Follower (V : Type) where
  /-- The changes to come, `none` for an item that ends the following. -/
  queue : List (Option V)
  /-- All the changes that were delivered. -/
  delivered : List V
  /-- Up to which change it shows them. -/
  shown : Option V
  mode : FollowerMode V

inductive FollowerLabel (V : Type) where
  | deliver (item : Option V) (drops : Bool)
  | begin
  | answer (v : V)
  | take (applies : Bool)
  | stop

namespace Follower

section Steps

variable [LinearOrder V]

/-- The first item is taken from the queue, while everything up to `p` is shown. -/
def taken (s : Follower V) (applies : Bool) (p : V) (queue : List (Option V)) :
    Option V → Follower V
  | none => { s with queue, mode := .ended }
  | some v =>
    if v ≤ p then { s with queue }
    else if applies then { s with queue, shown := some v }
    else { s with queue, mode := .resyncing (some v) }

def step (s : Follower V) : FollowerLabel V → Option (Follower V)
  | .deliver item drops =>
    some { s with
      queue := (if drops then s.queue.tail else s.queue) ++ [item]
      delivered := s.delivered ++ item.toList }
  | .begin =>
    match s.mode with
    | .idle => some { s with mode := .resyncing none }
    | _ => none
  | .answer v =>
    match s.mode with
    | .resyncing _ => some { s with mode := .following, shown := some v }
    | _ => none
  | .take applies =>
    match s.mode, s.shown, s.queue with
    | .following, some p, item :: queue => some (s.taken applies p queue item)
    | _, _, _ => none
  | .stop => some { s with mode := .ended }

def new : Follower V := ⟨[], [], none, .idle⟩

def system (V : Type) [LinearOrder V] : System (Follower V) (FollowerLabel V) where
  init := new
  step := step

/-- What is delivered does not go back, and a copy is as new as the change it was asked for. -/
def InOrder (s : Follower V) : FollowerLabel V → Prop
  | .deliver item _ => ∀ v ∈ item, ∀ v' ∈ s.delivered, v' ≤ v
  | .answer v => ∀ u, s.mode = .resyncing (some u) → u ≤ v
  | _ => True

/-- What the follower shows, or what it demands, is as new as `v`. -/
def Reached (s : Follower V) (v : V) : Prop :=
  match s.mode with
  | .resyncing (some u) => v ≤ u
  | .following => ∃ p, s.shown = some p ∧ v ≤ p
  | _ => False

/-- An item of the queue is as new as `v`, or ends the following. -/
def Queued (s : Follower V) (v : V) : Prop := ∃ item ∈ s.queue, ∀ w ∈ item, v ≤ w

/-- What is kept from step to step. -/
structure Inv (s : Follower V) : Prop where
  /-- Each change delivered is reached, or will be. -/
  covered : s.mode ≠ .ended → ∀ v ∈ s.delivered, s.Reached v ∨ s.Queued v
  /-- A demand is newer than what is shown. -/
  demand : ∀ u, s.mode = .resyncing (some u) → ∀ p, s.shown = some p → p ≤ u
  unasked : s.mode = .idle ∨ s.mode = .resyncing none → s.shown = none

/-- What `s` shows, or something newer, is shown by `s'`. -/
def ShownMono (s s' : Follower V) : Prop := ∀ p, s.shown = some p → ∃ q, s'.shown = some q ∧ p ≤ q

variable {s s' t : Follower V} {l : FollowerLabel V} {ls : List (FollowerLabel V)} {v : V}

theorem step_take {p : V} {item : Option V} {queue : List (Option V)}
    (hmode : s.mode = .following) (hshown : s.shown = some p) (hqueue : s.queue = item :: queue)
    (applies : Bool) : s.step (.take applies) = some (s.taken applies p queue item) := by
  rw [step, hmode, hshown, hqueue]

theorem ShownMono.refl (s : Follower V) : s.ShownMono s := fun p hp => ⟨p, hp, le_rfl⟩

theorem ShownMono.trans (h : s.ShownMono s') (h' : s'.ShownMono t) : s.ShownMono t := by
  intro p hp
  obtain ⟨q, hq, hpq⟩ := h p hp
  obtain ⟨r, hr, hqr⟩ := h' q hq
  exact ⟨r, hr, hpq.trans hqr⟩

theorem reached_following {p : V} (hmode : s.mode = .following) (hshown : s.shown = some p) :
    s.Reached v ↔ v ≤ p := by
  simp [Reached, hmode, hshown]

/-- An item drops out of the queue only for one that is as new. -/
theorem Queued.deliver {item : Option V} {drops : Bool} (h : s.Queued v) (hv : v ∈ s.delivered)
    (horder : s.InOrder (.deliver item drops)) (hstep : s.step (.deliver item drops) = some s') :
    s'.Queued v := by
  obtain rfl := Option.some.inj hstep
  obtain ⟨old, hold, hle⟩ := h
  by_cases hkept : old ∈ if drops then s.queue.tail else s.queue
  · exact ⟨old, List.mem_append_left _ hkept, hle⟩
  · exact ⟨item, List.mem_append_right _ (List.mem_singleton_self item),
      fun w hw => horder w hw v hv⟩

theorem inv_deliver {item : Option V} {drops : Bool} (h : s.Inv)
    (horder : s.InOrder (.deliver item drops)) (hstep : s.step (.deliver item drops) = some s') :
    s'.Inv ∧ s.ShownMono s' := by
  have hqueued (v : V) (hv : v ∈ s.delivered) (hold : s.Queued v) : s'.Queued v :=
    hold.deliver hv horder hstep
  obtain rfl := Option.some.inj hstep
  refine ⟨⟨fun hmode v hv => ?_, h.demand, h.unasked⟩, ShownMono.refl s⟩
  rcases List.mem_append.1 hv with hv | hv
  · exact (h.covered hmode v hv).imp_right (hqueued v hv)
  · -- the new item itself
    refine .inr ⟨item, List.mem_append_right _ (List.mem_singleton_self item), fun w hw => ?_⟩
    obtain rfl := Option.mem_toList.1 hv
    exact (Option.some.inj hw).le

/-- Nothing is demanded while it follows, or once that is over. -/
theorem inv_of_mode (hmode : s.mode = .following ∨ s.mode = .ended)
    (hcovered : s.mode ≠ .ended → ∀ v ∈ s.delivered, s.Reached v ∨ s.Queued v) : s.Inv where
  covered := hcovered
  demand u hu := by
    rw [hu] at hmode
    rcases hmode with hmode | hmode <;> cases hmode
  unasked hnone := by
    rcases hmode with hmode | hmode <;> rw [hmode] at hnone <;>
      rcases hnone with hnone | hnone <;> cases hnone

theorem inv_answer {v : V} (h : s.Inv) (horder : s.InOrder (.answer v))
    (hstep : s.step (.answer v) = some s') : s'.Inv ∧ s.ShownMono s' := by
  rw [step] at hstep
  split at hstep
  · next demand hmode =>
    obtain rfl := Option.some.inj hstep
    refine ⟨inv_of_mode (.inl rfl) fun _ w hw => ?_, fun p hp => ⟨v, rfl, ?_⟩⟩
    · refine (h.covered (by rw [hmode]; simp) w hw).imp_left fun hreached => ?_
      rw [reached_following rfl rfl]
      cases demand with
      | none => simp [Reached, hmode] at hreached
      | some u =>
        have hle : w ≤ u := by simpa [Reached, hmode] using hreached
        exact hle.trans (horder u hmode)
    · cases demand with
      | none =>
        rw [h.unasked (.inr hmode)] at hp
        cases hp
      | some u => exact (h.demand u hmode p hp).trans (horder u hmode)
  · cases hstep

theorem inv_take {applies : Bool} (h : s.Inv) (hstep : s.step (.take applies) = some s') :
    s'.Inv ∧ s.ShownMono s' := by
  rw [step] at hstep
  split at hstep
  · next p item queue hmode hshown hqueue =>
    have hstep := Option.some.inj hstep
    have hcovered := h.covered (by rw [hmode]; simp)
    -- what the item in front does not cover the rest of the queue does
    have hrest : ∀ v ∈ s.delivered, v ≤ p ∨ (∀ w ∈ item, v ≤ w) ∨
        ∃ item ∈ queue, ∀ w ∈ item, v ≤ w := by
      intro v hv
      rcases hcovered v hv with hreached | ⟨old, hold, hle⟩
      · exact .inl ((reached_following hmode hshown).1 hreached)
      · rw [hqueue] at hold
        rcases List.mem_cons.1 hold with rfl | hold
        · exact .inr (.inl hle)
        · exact .inr (.inr ⟨old, hold, hle⟩)
    cases item with
    | none =>
      obtain rfl := hstep
      exact ⟨inv_of_mode (.inr rfl) fun hmode => absurd rfl hmode, ShownMono.refl _⟩
    | some w =>
      have hitem : ∀ v, (∀ w' ∈ some w, v ≤ w') → v ≤ w := fun v hv => hv w rfl
      rw [taken] at hstep
      split at hstep
      · next hle =>
        -- skipped
        obtain rfl := hstep
        refine ⟨inv_of_mode (.inl hmode) fun _ v hv => ?_, ShownMono.refl _⟩
        rcases hrest v hv with hv | hv | hv
        · exact .inl ((reached_following hmode hshown).2 hv)
        · exact .inl ((reached_following hmode hshown).2 ((hitem v hv).trans hle))
        · exact .inr hv
      · next hnot =>
        have hlt : p < w := not_le.1 hnot
        cases applies with
        | true =>
          obtain rfl := hstep
          refine ⟨inv_of_mode (.inl hmode) fun _ v hv => ?_, fun p' hp' => ⟨w, rfl, ?_⟩⟩
          · have hreached : ({ s with queue, shown := some w } : Follower V).Reached v ↔ v ≤ w :=
              reached_following hmode rfl
            rcases hrest v hv with hv | hv | hv
            · exact .inl (hreached.2 (hv.trans hlt.le))
            · exact .inl (hreached.2 (hitem v hv))
            · exact .inr hv
          · obtain rfl := Option.some.inj (hshown.symm.trans hp')
            exact hlt.le
        | false =>
          obtain rfl := hstep
          refine ⟨⟨fun _ v hv => ?_, fun u hu p' hp' => ?_, fun hnone => ?_⟩, ShownMono.refl _⟩
          · rcases hrest v hv with hv | hv | hv
            · exact .inl (hv.trans hlt.le)
            · exact .inl (hitem v hv)
            · exact .inr hv
          · obtain rfl := Option.some.inj (FollowerMode.resyncing.inj hu)
            obtain rfl := Option.some.inj (hshown.symm.trans hp')
            exact hlt.le
          · rcases hnone with hnone | hnone <;> cases hnone
  · cases hstep

/-- **One step** keeps the invariant, and what is shown does not go back. -/
theorem inv_step (h : s.Inv) (horder : s.InOrder l) (hstep : s.step l = some s') :
    s'.Inv ∧ s.ShownMono s' := by
  cases l with
  | deliver item drops => exact inv_deliver h horder hstep
  | answer v => exact inv_answer h horder hstep
  | take applies => exact inv_take h hstep
  | begin =>
    rw [step] at hstep
    split at hstep
    · next hmode =>
      obtain rfl := Option.some.inj hstep
      refine ⟨⟨fun _ v hv => ?_, fun u hu => (by cases hu), fun _ => h.unasked (.inl hmode)⟩,
        ShownMono.refl s⟩
      refine (h.covered (by rw [hmode]; simp) v hv).imp_left fun hreached => ?_
      simp [Reached, hmode] at hreached
    · cases hstep
  | stop =>
    obtain rfl := Option.some.inj hstep
    exact ⟨inv_of_mode (.inr rfl) fun hmode => absurd rfl hmode, ShownMono.refl s⟩

theorem inv_new : (new : Follower V).Inv where
  covered _ v hv := absurd hv List.not_mem_nil
  demand u hu := by cases hu
  unasked _ := rfl

/-- **What is shown never goes back.** -/
theorem shown_le_of_run (h : s.Inv) (horder : (system V).Guarded InOrder s ls)
    (hrun : (system V).run s ls = some t) : t.Inv ∧ s.ShownMono t :=
  System.run_invariant (I := fun t => t.Inv ∧ s.ShownMono t)
    (fun _ _ _ hI hC hstep => (inv_step hI.1 hC hstep).imp_right hI.2.trans) ls
    ⟨h, ShownMono.refl s⟩ horder hrun

/-- **Caught up.** A follower that waits for the next item shows all that was ever delivered. -/
theorem Inv.caughtUp (h : s.Inv) (hmode : s.mode = .following) (hqueue : s.queue = []) :
    ∀ v ∈ s.delivered, ∃ p, s.shown = some p ∧ v ≤ p := by
  intro v hv
  rcases h.covered (by rw [hmode]; simp) v hv with hreached | ⟨item, hitem, -⟩
  · simpa [Reached, hmode] using hreached
  · rw [hqueue] at hitem
    cases hitem

end Steps

end Follower

end Following
