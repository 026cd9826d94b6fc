import BinanceTh.Lib.Hoare
import BinanceTh.Transport

/-!
# What requests keep

What `_execute` and a synchronization keep, every `request` keeps, through its resyncs and retries
(`Transport.keeps_request_of`), if the operations beside the limiter's and the network's do.
-/

namespace BinanceTh

open Interaction

/-- The operations on the limiter and the network. -/
def Op.isTraffic : Op → Bool
  | .acquire _ _ | .send _ | .updateFromHeaders _ => true
  | _ => false

variable {W : Type} {H : W → (o : Op) → Ans o → W → Prop}

/-- The operations beside the traffic keep it. -/
def Quiet (H : W → (o : Op) → Ans o → W → Prop) (J : W → TimeSync → Prop) : Prop :=
  ∀ o : Op, o.isTraffic = false → ∀ w s x w', J w s → H w o x w' → J w' s

theorem Quiet.keeps {J : W → TimeSync → Prop} (h : Quiet H J) {o : Op} (ho : o.isTraffic = false) :
    Keeps H J (perform o : M (Ans o)) := Keeps.perform (h o ho)

section Limiter

variable {P P' : W → TimeSync → Prop} {E : Exc → W → TimeSync → Prop}

/-- What holds after the limiter's answer also holds of what it raises. -/
theorem triple_raiseLimiter (answer : Except LimiterError Unit)
    (hraise : ∀ (e : LimiterError) w s, P w s → E e.exc w s) :
    Triple H P (raiseLimiter answer) (fun _ => P) E :=
  .raiseOr fun w s hP => by
    cases answer with
    | ok u => exact hP
    | error e => exact hraise e w s hP

theorem triple_acquire {weight : ℤ} {mutating : Bool}
    (h : ∀ w s x w', P w s → H w (.acquire weight mutating) x w' → P' w' s)
    (hraise : ∀ (e : LimiterError) w s, P' w s → E e.exc w s) :
    Triple H P (acquire weight mutating) (fun _ => P') E :=
  Triple.bind (Q := fun _ => P') (.perform h) fun answer => triple_raiseLimiter answer hraise

end Limiter

namespace BackoffRetryer

variable {α : Type} {P : W → TimeSync → Prop} {Q : α → W → TimeSync → Prop}
  {E : Exc → W → TimeSync → Prop}

/-- The retry loop ends as one of its attempts does, or with a delay that cannot be computed. -/
theorem triple_runFrom {b : BackoffRetryer} {fn : M α} {retryable : Exc → Bool}
    (hquiet : Quiet H P) (hfn : Triple H P fn Q E)
    (hagain : ∀ e w s, retryable e = true → E e w s → P w s)
    (hoverflow : ∀ w s, P w s → E .overflowError w s) (left : ℕ) :
    ∀ attempt, Triple H P (b.runFrom fn retryable left attempt) Q E := by
  induction left with
  | zero => exact fun _ => hfn
  | succ left ih =>
    intro attempt
    refine hfn.tryCatch fun e => ?_
    split
    · next hretry =>
      have hdelay : Triple H (E e) (b.delay e attempt) (fun _ => P) E := by
        refine Triple.pre ?_ fun w s => hagain e w s hretry
        unfold delay
        split
        · exact .throw hoverflow
        · split
          · exact .pure fun _ _ hP => hP
          · exact .perform (hquiet _ rfl)
      exact hdelay.bind fun d => Triple.bind (.perform (hquiet (.sleep d) rfl))
        fun _ => ih (attempt + 1)
    · exact .throw fun _ _ hE => hE

end BackoffRetryer

namespace Transport

variable {T : Transport} {call : Call} {P J : W → TimeSync → Prop} {Q : Json → W → TimeSync → Prop}
  {E : Exc → W → TimeSync → Prop}

/-- A request ends as one of its attempts does, with a delay that cannot be computed, or without the
credentials it needs. -/
theorem triple_request_of (hquiet : Quiet H P) (hattempt : Triple H P (T.attempt call) Q E)
    (hagain : ∀ e w s, isRetryable call.mutating e = true → E e w s → P w s)
    (hoverflow : ∀ w s, P w s → E .overflowError w s) (hauth : ∀ w s, P w s → E authRequired w s) :
    Triple H P (T.request call) Q E := by
  unfold Transport.request
  split
  · exact .throw hauth
  · unfold Retryer.run
    split
    · exact hattempt
    · exact BackoffRetryer.triple_runFrom hquiet hattempt hagain hoverflow _ 0

theorem keeps_executeRest_of (hquiet : Quiet H J)
    (htransmit : ∀ params, Keeps H J (T.transmit call params)) : Keeps H J (T.executeRest call) := by
  refine Keeps.bind ?_ htransmit
  unfold sendParams
  split
  · split
    · exact .throw _
    · exact Keeps.bind (hquiet.keeps rfl) fun clock => .get_bind fun t => .pure _
  · exact .pure _

theorem keeps_execute_of (hsync : Keeps H J T.syncTime) (hrest : Keeps H J (T.executeRest call)) :
    Keeps H J (T.execute call) := by
  refine Keeps.bind ?_ fun _ => hrest
  refine .get_bind fun s => ?_
  split
  · exact hsync.bind fun _ => .pure _
  · exact .pure _

/-- **What `_execute` keeps**, every `request` keeps, through resyncs and retries. -/
theorem keeps_request_of (hquiet : Quiet H J) (hsync : Keeps H J T.syncTime)
    (hexecute : Keeps H J (T.execute call)) : Keeps H J (T.request call) := by
  refine triple_request_of hquiet (Keeps.tryCatch hexecute fun e => ?_) (fun _ _ _ _ hJ => hJ)
    (fun _ _ hJ => hJ) fun _ _ hJ => hJ
  split
  · exact hsync.bind fun _ => hexecute
  · exact .throw e

end Transport

end BinanceTh
