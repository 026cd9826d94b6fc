import BinanceTh.Lib.Transition
import BinanceTh.Models
import BinanceTh.RateLimit.Adoption

/-!
# The exchange information and the limiter

`exchange_info` of the client, called by any number of tasks: a cache that is looked at twice, once
before and once under a lock, and that is filled together with the limiter. A step is what a task
does between two awaits; other tasks use the limiter at any time.

Between its last await and its return a fetch writes the cache first and then the windows. So the
two agree after it, unless `reseed` raises on the way: the cache then has the new rules and the
limiter still the old keys.
-/

namespace BinanceTh

open Transition

/-! ## The windows under their keys -/

def RateLimit.key (rule : RateLimit) : RateLimitType × RateLimitInterval × ℤ :=
  (rule.rateLimitType, rule.interval, rule.intervalNum)

/-- The limit that the rules give a key; the last rule wins. -/
def advertised (rules : List RateLimit) (key : RateLimitType × RateLimitInterval × ℤ) : Option ℤ :=
  (rules.reverse.find? fun rule => rule.key = key).map RateLimit.limit

namespace Limiter

/-- `_windows.get(key)`. -/
def window? (l : Limiter ℚ) (key : RateLimitType × RateLimitInterval × ℤ) : Option (Window ℚ) :=
  l.find? fun w => w.key = key

/-- The limit of the window with a key, if there is one. -/
def limitOf (l : Limiter ℚ) (key : RateLimitType × RateLimitInterval × ℤ) : Option ℤ :=
  (l.window? key).map Window.limit

variable {l l' : Limiter ℚ} {key : RateLimitType × RateLimitInterval × ℤ} {w : Window ℚ} {now : ℚ}

theorem window?_insert (l : Limiter ℚ) (w : Window ℚ)
    (key : RateLimitType × RateLimitInterval × ℤ) :
    (l.insert w).window? key = if w.key = key then some w else l.window? key := by
  unfold insert window?
  split
  · next hany =>
    rw [List.find?_map]
    simp only [Function.comp_def, key_replace]
    cases hfind : l.find? fun v => decide (v.key = key) with
    | none =>
      rw [if_neg, Option.map_none]
      rintro rfl
      obtain ⟨v, hv, heq⟩ := List.any_eq_true.1 hany
      exact List.find?_eq_none.1 hfind v hv heq
    | some v =>
      have hv : v.key = key := by simpa using List.find?_some hfind
      rw [Option.map_some, hv]
      by_cases hkey : key = w.key
      · rw [if_pos hkey, if_pos hkey.symm]
      · rw [if_neg hkey, if_neg (Ne.symm hkey)]
  · next hnone =>
    rw [List.find?_append]
    by_cases hkey : w.key = key
    · have hfind : l.find? (fun v => decide (v.key = key)) = none := by
        refine List.find?_eq_none.2 fun v hv heq => hnone ?_
        exact List.any_eq_true.2 ⟨v, hv, hkey ▸ heq⟩
      simp [hfind, hkey]
    · simp [hkey]

theorem window?_foldl_insert (ws : List (Window ℚ)) (l : Limiter ℚ)
    (key : RateLimitType × RateLimitInterval × ℤ) :
    (ws.foldl insert l).window? key =
      (ws.reverse.find? fun w => w.key = key).or (l.window? key) := by
  induction ws generalizing l with
  | nil => rfl
  | cons w ws ih =>
    rw [List.foldl_cons, ih, window?_insert, List.reverse_cons, List.find?_append, Option.or_assoc]
    congr 1
    by_cases hkey : w.key = key <;> simp [hkey]

theorem window?_reseed (l : Limiter ℚ) (rules : List RateLimit)
    (key : RateLimitType × RateLimitInterval × ℤ) :
    (l.reseed rules).window? key =
      (rules.reverse.find? fun rule => rule.key = key).map l.reseeded := by
  unfold reseed ofWindows
  rw [window?_foldl_insert, ← List.map_reverse, List.find?_map]
  have hkey : (fun w => decide (Window.key w = key)) ∘ l.reseeded =
      fun rule => decide (rule.key = key) := by
    funext rule
    rw [Function.comp_apply, reseeded_key]
    rfl
  rw [hkey]
  exact Option.or_none

/-- After `reseed` the windows have the keys and the limits of the rules. -/
theorem limitOf_reseed (l : Limiter ℚ) (rules : List RateLimit)
    (key : RateLimitType × RateLimitInterval × ℤ) :
    (l.reseed rules).limitOf key = advertised rules key := by
  have hlimit : Window.limit ∘ l.reseeded = RateLimit.limit := by
    funext rule
    rw [Function.comp_apply]
    unfold reseeded
    simp only
    split <;> rfl
  unfold limitOf advertised
  rw [window?_reseed, Option.map_map, hlimit]

/-- A kept key keeps its count and its start. -/
theorem window?_reseed_kept {rules : List RateLimit} {w' : Window ℚ} (hw : l.window? key = some w)
    (hw' : (l.reseed rules).window? key = some w') :
    w'.used = w.used ∧ w'.windowStart = w.windowStart := by
  rw [window?_reseed] at hw'
  obtain ⟨rule, hrule, rfl⟩ := Option.map_eq_some_iff.1 hw'
  have hkey : rule.key = key := by simpa using List.find?_some hrule
  subst hkey
  have hfind : l.find? (fun w => decide (w.key =
      (rule.rateLimitType, rule.interval, rule.intervalNum))) = some w := hw
  unfold reseeded
  rw [hfind]
  exact ⟨rfl, rfl⟩

/-- A key of the rules with a number too large for a float is in no dictionary of windows that have
been made. -/
theorem limitOf_eq_none (h : ∀ w ∈ l, overflows w.intervalNum = false)
    (hkey : overflows key.2.2 = true) : l.limitOf key = none := by
  unfold limitOf window?
  rw [Option.map_eq_none_iff, List.find?_eq_none]
  intro w hw heq
  have hfits := h w hw
  rw [← of_decide_eq_true heq] at hkey
  exact absurd hkey (Bool.eq_false_iff.1 hfits)

/-- The window keeps its key and its limit. -/
def SameLimit (w w' : Window ℚ) : Prop := w'.key = w.key ∧ w'.limit = w.limit

theorem limitOf_of_forall₂ (h : List.Forall₂ SameLimit l l') : l'.limitOf key = l.limitOf key := by
  unfold limitOf window?
  induction h with
  | nil => rfl
  | @cons w w' l l' hsame _ ih =>
    by_cases hkey : w.key = key
    · have hkey' := hsame.1.trans hkey
      simp [hkey, hkey', hsame.2]
    · have hkey' : w'.key ≠ key := fun heq => hkey (hsame.1.symm.trans heq)
      simpa [hkey, hkey'] using ih

theorem sameLimit_roll {w' : Window ℚ} (h : w.roll now = .ok w') : SameLimit w w' := by
  obtain ⟨-, hlimit, -⟩ := Window.roll_cases h
  exact ⟨Window.roll_key h, hlimit⟩

theorem sameLimit_rollUntilRaised (weight : ℤ) (mutating : Bool) (now : ℚ) (l : Limiter ℚ) :
    List.Forall₂ SameLimit l (rollUntilRaised weight mutating now l) := by
  have hsame : ∀ w, SameLimit w w := fun w => ⟨rfl, rfl⟩
  induction l with
  | nil => exact .nil
  | cons w ws ih =>
    unfold rollUntilRaised
    split
    · exact .cons (hsame w) ih
    · split
      · next w' hroll => exact .cons (sameLimit_roll hroll) ih
      · exact List.forall₂_same.2 fun w _ => hsame w

theorem limitOf_reconcile {name value : String} (h : l.reconcile now name value = .ok l') :
    l'.limitOf key = l.limitOf key := by
  unfold reconcile at h
  split at h
  · split at h
    · cases h
    · split at h
      · obtain rfl := Except.ok.inj h
        rfl
      · next w hfind =>
        obtain ⟨w', hroll, h⟩ := bind_eq_ok_iff.1 h
        obtain rfl := Except.ok.inj h
        obtain ⟨hkey, hlimit⟩ := sameLimit_roll hroll
        have hw := List.find?_some hfind
        have hwindow : l.window? w.key = some w := by
          rw [of_decide_eq_true hw]
          exact hfind
        unfold limitOf
        rw [window?_insert]
        split
        · next heq =>
          have heq' : w.key = key := hkey.symm.trans heq
          rw [← heq', hwindow]
          exact congrArg some hlimit
        · rfl
  · obtain rfl := Except.ok.inj h
    rfl

theorem limitOf_updateFromHeaders (now : ℚ) (headers : List (String × String)) :
    ∀ l : Limiter ℚ, (updateFromHeaders now l headers).1.limitOf key = l.limitOf key := by
  induction headers with
  | nil => exact fun _ => rfl
  | cons header headers ih =>
    intro l
    rw [updateFromHeaders]
    split
    · rfl
    · next l' hone => rw [ih l', limitOf_reconcile hone]

theorem sameLimit_acquire (weight : ℤ) (mutating : Bool) (now : ℚ) (l : Limiter ℚ) :
    List.Forall₂ SameLimit l (l.perform now (.acquire weight mutating)).1 := by
  rw [perform]
  split
  · next a l' hstep =>
    obtain ⟨⟨wait, rolled⟩, hrolled, hstep⟩ := bind_eq_ok_iff.1 hstep
    have hsame : List.Forall₂ SameLimit l rolled := by
      refine (rollAll_forall₂ hrolled le_rfl).imp fun w w' h => ?_
      obtain ⟨-, rfl⟩ | ⟨amount, -, hroll, -⟩ := h
      · exact ⟨rfl, rfl⟩
      · exact sameLimit_roll hroll
    dsimp only at hstep
    split at hstep
    · obtain ⟨-, rfl⟩ := Prod.mk.inj (Except.ok.inj hstep)
      unfold chargeAll
      rw [List.forall₂_map_right_iff]
      refine hsame.imp fun w w' h => ?_
      split <;> exact h
    · obtain ⟨-, rfl⟩ := Prod.mk.inj (Except.ok.inj hstep)
      exact hsame
  · exact sameLimit_rollUntilRaised weight mutating now l

/-- No call on the limiter changes a limit. -/
theorem limitOf_perform (l : Limiter ℚ) (now : ℚ) (call : Call) :
    (l.perform now call).1.limitOf key = l.limitOf key := by
  cases call with
  | acquire weight mutating => exact limitOf_of_forall₂ (sameLimit_acquire weight mutating now l)
  | updateFromHeaders headers => exact limitOf_updateFromHeaders now headers l

theorem keys_perform (l : Limiter ℚ) (now : ℚ) (call : Call) :
    (l.perform now call).1.map Window.key = l.map Window.key := by
  cases call with
  | acquire weight mutating =>
    have hsame := sameLimit_acquire weight mutating now l
    generalize (l.perform now (.acquire weight mutating)).1 = l' at hsame ⊢
    induction hsame with
    | nil => rfl
    | cons h _ ih => rw [List.map_cons, List.map_cons, h.1, ih]
  | updateFromHeaders headers => exact (updateFromHeaders_spec now headers l).1

theorem nodup_ofRateLimits (rules : List RateLimit) :
    ((ofRateLimits rules : Limiter ℚ).map Window.key).Nodup :=
  List.foldlRecOn rules _ (motive := fun l : Limiter ℚ => (l.map Window.key).Nodup) List.nodup_nil
    fun _ hl _ _ => nodup_insert _ hl

end Limiter

/-! ## The calls of `exchange_info` -/

/-- What `exchangeInfo` says: of the symbols and of the limits. -/
structure LimitedExchangeInfo extends ExchangeInfo where
  rateLimits : List RateLimit

inductive InfoPhase where
  /-- It has looked at the cache once and wants the lock. -/
  | waiting
  /-- It holds the lock and has its request out. -/
  | fetching
  | returned (result : Except Exc LimitedExchangeInfo)
  | cancelled

structure InfoCall where
  force : Bool
  /-- A fetch had succeeded when the call began. -/
  afterFirst : Bool
  /-- It has gone into `Transport.request`. -/
  requested : Bool
  phase : InfoPhase

def InfoCall.isFetching (call : InfoCall) : Bool :=
  match call.phase with
  | .fetching => true
  | _ => false

/-- A client with its limiter and the calls of `exchange_info` so far. -/
structure InfoClient where
  exchangeInfo : Option LimitedExchangeInfo
  windows : Limiter ℚ
  calls : List InfoCall

inductive InfoLabel where
  | call (force : Bool)
  /-- The lock is given to a call. -/
  | lock (call : ℕ)
  /-- The request has returned its decoded body. -/
  | reply (call : ℕ) (raw : Json)
  | fail (call : ℕ) (e : Exc)
  | cancel (call : ℕ)
  /-- Any request's use of the limiter. -/
  | limiter (now : ℚ) (call : Limiter.Call)

namespace InfoClient

def setCall (s : InfoClient) (i : ℕ) (call : InfoCall) : InfoClient :=
  { s with calls := s.calls.set i call }

/-- What a call that begins or has got the lock finds in the cache. -/
def cached? (s : InfoClient) (force : Bool) : Option LimitedExchangeInfo :=
  if force then none else s.exchangeInfo

/-- The end of a fetch: the cache is written before the limiter. -/
def store (s : InfoClient) (i : ℕ) (call : InfoCall) (info : LimitedExchangeInfo) : InfoClient :=
  let adopted := s.windows.adopt info.rateLimits
  { exchangeInfo := some info
    windows := adopted.1
    calls := s.calls.set i { call with phase := .returned (adopted.2.map fun _ => info) } }

variable (parse : Json → Except Exc LimitedExchangeInfo)

/-- `parse` is the model's constructor, `ExchangeInfo(**raw)`. -/
def step (s : InfoClient) : InfoLabel → Option InfoClient
  | .call force =>
    let call := { force, afterFirst := s.exchangeInfo.isSome, requested := false, phase := .waiting }
    some { s with calls := s.calls ++ [match s.cached? force with
      | some info => { call with phase := .returned (.ok info) }
      | none => call] }
  | .lock i =>
    match s.calls[i]? with
    | some call =>
      match call.phase with
      | .waiting =>
        if s.calls.any InfoCall.isFetching then none
        else some (s.setCall i (match s.cached? call.force with
          | some info => { call with phase := .returned (.ok info) }
          | none => { call with requested := true, phase := .fetching }))
      | _ => none
    | none => none
  | .reply i raw =>
    match s.calls[i]? with
    | some call =>
      match call.phase with
      | .fetching =>
        match parse raw with
        | .ok info => some (s.store i call info)
        | .error e => some (s.setCall i { call with phase := .returned (.error e) })
      | _ => none
    | none => none
  | .fail i e =>
    match s.calls[i]? with
    | some call =>
      match call.phase with
      | .fetching => some (s.setCall i { call with phase := .returned (.error e) })
      | _ => none
    | none => none
  | .cancel i =>
    match s.calls[i]? with
    | some call =>
      match call.phase with
      | .waiting | .fetching => some (s.setCall i { call with phase := .cancelled })
      | _ => none
    | none => none
  | .limiter now call => some { s with windows := (s.windows.perform now call).1 }

/-- A client whose limiter has been made of `rules`. -/
def system (rules : List RateLimit) : System InfoClient InfoLabel where
  init := ⟨none, Limiter.ofRateLimits rules, []⟩
  step := step parse

/-! ## Agreement -/

/-- The windows are a dictionary with the keys and the limits of the cached rules. -/
structure Agrees (s : InfoClient) : Prop where
  nodup : (s.windows.map Window.key).Nodup
  limits : ∀ info, s.exchangeInfo = some info →
    ∀ key, s.windows.limitOf key = advertised info.rateLimits key

/-- What a step that takes `s` to `s'` keeps of the cache and the limiter. -/
structure Coherent (s : InfoClient) (l : InfoLabel) (s' : InfoClient) : Prop where
  agrees : s'.Agrees
  kept : ∀ i raw, l = .reply i raw → ∀ key w w', s.windows.window? key = some w →
    s'.windows.window? key = some w' → w'.used = w.used ∧ w'.windowStart = w.windowStart
  failing : (∀ i raw info, l = .reply i raw → parse raw ≠ .ok info) →
    s'.exchangeInfo = s.exchangeInfo ∧ ∀ key, s'.windows.limitOf key = s.windows.limitOf key
  served : ∀ call ∈ s'.calls, call.force = false → call.afterFirst = true → call.requested = false

/-- If it is a reply that parses, no number of intervals in it is too large for a float. -/
def Fits : InfoLabel → Prop
  | .reply _ raw => ∀ info, parse raw = .ok info →
      ∀ rule ∈ info.rateLimits, overflows rule.intervalNum = false
  | _ => True

/-- A call that has begun after a fetch succeeded, if it is not forced, has returned at once. -/
def Served (call : InfoCall) : Prop :=
  call.force = false → call.afterFirst = true →
    call.requested = false ∧ ∃ result, call.phase = .returned result

/-- What a step can do: a call begins, a fetch is stored, a call that has not ended goes on, or the
limiter is used. -/
inductive Steps (s : InfoClient) : InfoLabel → InfoClient → Prop
  | call {force : Bool} {call : InfoCall} (hserved : Served call) :
      Steps s (.call force) { s with calls := s.calls ++ [call] }
  | store {i : ℕ} {raw : Json} {call : InfoCall} {info : LimitedExchangeInfo}
      (hget : s.calls[i]? = some call) (hphase : call.phase = .fetching)
      (hparse : parse raw = .ok info) : Steps s (.reply i raw) (s.store i call info)
  | move {l : InfoLabel} {i : ℕ} {call call' : InfoCall} (hget : s.calls[i]? = some call)
      (hopen : call.phase = .waiting ∨ call.phase = .fetching) (hforce : call'.force = call.force)
      (hafter : call'.afterFirst = call.afterFirst)
      (hlabel : ∀ i raw info, l = .reply i raw → parse raw ≠ .ok info) :
      Steps s l (s.setCall i call')
  | limiter {now : ℚ} {call : Limiter.Call} :
      Steps s (.limiter now call) { s with windows := (s.windows.perform now call).1 }

variable {parse} {s s' : InfoClient} {l : InfoLabel} {rules₀ : List RateLimit}

theorem served_begin (s : InfoClient) (force : Bool) :
    Served (match s.cached? force with
      | some info => ⟨force, s.exchangeInfo.isSome, false, .returned (.ok info)⟩
      | none => ⟨force, s.exchangeInfo.isSome, false, .waiting⟩) := by
  intro hforce hafter
  cases hcached : s.cached? force with
  | some info => exact ⟨rfl, .ok info, rfl⟩
  | none =>
    simp only [hcached] at hforce hafter
    obtain ⟨info, hinfo⟩ := Option.isSome_iff_exists.1 hafter
    rw [cached?, hforce, if_neg Bool.false_ne_true, hinfo] at hcached
    cases hcached

theorem steps_of_step (h : s.step parse l = some s') : Steps parse s l s' := by
  unfold step at h
  split at h
  · next force =>
    obtain rfl := Option.some.inj h
    exact .call (served_begin s force)
  · next i =>
    split at h
    · next call hget =>
      split at h
      · next hphase =>
        obtain ⟨-, h⟩ := Option.ite_none_left_eq_some.1 h
        obtain rfl := Option.some.inj h
        refine .move hget (.inl hphase) ?_ ?_ (fun _ _ _ h => by cases h)
        · split <;> rfl
        · split <;> rfl
      · cases h
    · cases h
  · next i raw =>
    split at h
    · next call hget =>
      split at h
      · next hphase =>
        split at h
        · next info hparse =>
          obtain rfl := Option.some.inj h
          exact .store hget hphase hparse
        · next e hparse =>
          obtain rfl := Option.some.inj h
          refine .move hget (.inr hphase) rfl rfl (fun j raw' info heq hok => ?_)
          cases heq
          rw [hparse] at hok
          cases hok
      · cases h
    · cases h
  · next i e =>
    split at h
    · next call hget =>
      split at h
      · next hphase =>
        obtain rfl := Option.some.inj h
        exact .move hget (.inr hphase) rfl rfl (fun _ _ _ h => by cases h)
      · cases h
    · cases h
  · next i =>
    split at h
    · next call hget =>
      split at h
      · next hphase =>
        obtain rfl := Option.some.inj h
        exact .move hget (.inl hphase) rfl rfl (fun _ _ _ h => by cases h)
      · next hphase =>
        obtain rfl := Option.some.inj h
        exact .move hget (.inr hphase) rfl rfl (fun _ _ _ h => by cases h)
      · cases h
    · cases h
  · next now call =>
    obtain rfl := Option.some.inj h
    exact .limiter

theorem served_steps (h : Steps parse s l s') (hserved : ∀ call ∈ s.calls, Served call) :
    ∀ call ∈ s'.calls, Served call := by
  cases h with
  | @call force call hnew =>
    intro call' hcall'
    rcases List.mem_append.1 hcall' with hcall' | hcall'
    · exact hserved call' hcall'
    · obtain rfl := List.mem_singleton.1 hcall'
      exact hnew
  | store hget hphase hparse =>
    intro call' hcall'
    rcases List.mem_or_eq_of_mem_set hcall' with hcall' | rfl
    · exact hserved call' hcall'
    · intro hforce hafter
      obtain ⟨hrequested, -⟩ := hserved _ (List.mem_of_getElem? hget) hforce hafter
      exact ⟨hrequested, _, rfl⟩
  | move hget hopen hforce hafter hlabel =>
    intro call' hcall'
    rcases List.mem_or_eq_of_mem_set hcall' with hcall' | rfl
    · exact hserved call' hcall'
    · intro hforce' hafter'
      -- a call that has been served has returned
      obtain ⟨-, result, hreturned⟩ := hserved _ (List.mem_of_getElem? hget)
        (hforce ▸ hforce') (hafter ▸ hafter')
      rw [hreturned] at hopen
      rcases hopen with hopen | hopen <;> cases hopen
  | limiter => exact hserved

/-- A step whose reply fits keeps the cache and the limiter in agreement. -/
theorem coherent_steps (h : Steps parse s l s') (hfits : Fits parse l) (hagrees : s.Agrees)
    (hserved : ∀ call ∈ s.calls, Served call) : Coherent parse s l s' := by
  have hserved' : ∀ call ∈ s'.calls, call.force = false → call.afterFirst = true →
      call.requested = false :=
    fun call hcall hforce hafter => (served_steps h hserved call hcall hforce hafter).1
  cases h with
  | call hnew =>
    exact ⟨⟨hagrees.nodup, hagrees.limits⟩, fun _ _ hl => (by cases hl),
      fun _ => ⟨rfl, fun _ => rfl⟩, hserved'⟩
  | @store i raw call info hget hphase hparse =>
    have hadopted : s.windows.adopt info.rateLimits = (s.windows.reseed info.rateLimits, .ok ()) :=
      Limiter.adopt_eq (hfits info hparse)
    have hwindows : (s.store i call info).windows = s.windows.reseed info.rateLimits :=
      congrArg Prod.fst hadopted
    refine ⟨⟨?_, ?_⟩, ?_, fun hfails => absurd hparse (hfails i raw info rfl), hserved'⟩
    · rw [hwindows]
      exact Limiter.nodup_ofWindows _
    · intro info' hinfo' key
      obtain rfl := Option.some.inj hinfo'
      rw [hwindows, Limiter.limitOf_reseed]
    · intro _ _ _ key w w' hw hw'
      rw [hwindows] at hw'
      exact Limiter.window?_reseed_kept hw hw'
  | move hget hopen hforce hafter hlabel =>
    refine ⟨⟨hagrees.nodup, hagrees.limits⟩, ?_, fun _ => ⟨rfl, fun _ => rfl⟩, hserved'⟩
    intro _ _ _ key w w' hw hw'
    obtain rfl := Option.some.inj (hw.symm.trans hw')
    exact ⟨rfl, rfl⟩
  | @limiter now call =>
    refine ⟨⟨?_, ?_⟩, fun _ _ hl => (by cases hl),
      fun _ => ⟨rfl, fun key => Limiter.limitOf_perform s.windows now call⟩, hserved'⟩
    · change ((s.windows.perform now call).1.map Window.key).Nodup
      rw [Limiter.keys_perform]
      exact hagrees.nodup
    · intro info hinfo key
      exact (Limiter.limitOf_perform s.windows now call).trans (hagrees.limits info hinfo key)

/-- Every number of intervals is converted before its window is made. -/
theorem fits_steps (h : Steps parse s l s')
    (hwindows : ∀ w ∈ s.windows, overflows w.intervalNum = false) :
    ∀ w ∈ s'.windows, overflows w.intervalNum = false := by
  cases h with
  | call hnew => exact hwindows
  | store hget hphase hparse =>
    refine Limiter.adopt_forall (P := fun w => overflows w.intervalNum = false)
      (fun windows _ rule _ hfits => ?_) hwindows
    rw [Limiter.reseeded_intervalNum]
    exact hfits
  | move hget hopen hforce hafter hlabel => exact hwindows
  | limiter =>
    refine Limiter.perform_forall (P := fun w => overflows w.intervalNum = false)
      (fun w used hw => hw) (fun w w' hw hroll => ?_) hwindows
    rw [Window.roll_intervalNum hroll]
    exact hw

/-- A stored reply with a number too large for a float leaves the limiter without a key that the
cache has. -/
theorem fits_of_agrees (h : Steps parse s l s')
    (hwindows : ∀ w ∈ s.windows, overflows w.intervalNum = false) (hagrees : s'.Agrees) :
    Fits parse l := by
  have hwindows' := fits_steps h hwindows
  cases h with
  | call hnew => trivial
  | @store i raw call info hget hphase hparse =>
    intro info' hparse' rule hrule
    obtain rfl := Except.ok.inj (hparse.symm.trans hparse')
    rw [← Bool.not_eq_true]
    intro hover
    have hnum : rule.key.2.2 = rule.intervalNum := rfl
    rw [← hnum] at hover
    have hlimit := hagrees.limits info rfl rule.key
    rw [Limiter.limitOf_eq_none hwindows' hover] at hlimit
    have hnone := Option.map_eq_none_iff.1 hlimit.symm
    exact List.find?_eq_none.1 hnone rule (List.mem_reverse.2 hrule) (decide_eq_true rfl)
  | @move _ i call call' hget hopen hforce hafter hlabel =>
    cases l with
    | reply j raw => exact fun info hparse => absurd hparse (hlabel j raw info rfl)
    | _ => trivial
  | limiter => trivial

/-! ## Runs -/

/-- In every run of a client whose limiter could be made, every step leaves the cache and the
limiter in agreement, keeps the counts and starts of kept keys, fails without a change and sends
nothing for a call that can be served, if and only if no number of intervals in a reply that parses
is too large for a float. -/
theorem run_coherent_iff (hrules₀ : ∀ rule ∈ rules₀, overflows rule.intervalNum = false)
    {labels : List InfoLabel}
    (hrun : (system parse rules₀).run (system parse rules₀).init labels = some s) :
    (∀ before l rest s₁ s₂, labels = before ++ l :: rest →
        (system parse rules₀).run (system parse rules₀).init before = some s₁ →
        s₁.step parse l = some s₂ → Coherent parse s₁ l s₂) ↔
      ∀ l ∈ labels, Fits parse l := by
  constructor
  · intro hcoherent l hl
    obtain ⟨before, rest, rfl⟩ := List.append_of_mem hl
    rw [System.run_append] at hrun
    obtain ⟨s₁, hbefore, hrun⟩ := Option.bind_eq_some_iff.1 hrun
    obtain ⟨s₂, hstep, -⟩ := System.run_cons_iff.1 hrun
    have hwindows : ∀ w ∈ s₁.windows, overflows w.intervalNum = false :=
      System.run_invariant (C := fun _ _ => True)
        (I := fun s : InfoClient => ∀ w ∈ s.windows, overflows w.intervalNum = false)
        (fun _ _ _ hI _ hstep => fits_steps (steps_of_step hstep) hI) before
        (Limiter.ofRateLimits_forall (P := fun w => overflows w.intervalNum = false) hrules₀)
        (System.guarded_of_forall (P := fun _ => True) before (fun _ _ => trivial) _) hbefore
    exact fits_of_agrees (steps_of_step hstep) hwindows
      (hcoherent before l rest s₁ s₂ rfl hbefore hstep).agrees
  · rintro hfits before l rest s₁ s₂ rfl hbefore hstep
    have hinit : (system parse rules₀).init.Agrees ∧
        ∀ call ∈ (system parse rules₀).init.calls, Served call :=
      ⟨⟨Limiter.nodup_ofRateLimits rules₀, fun info hinfo => (by cases hinfo)⟩,
        fun call hcall => absurd hcall List.not_mem_nil⟩
    obtain ⟨hagrees, hserved⟩ := System.run_invariant (C := fun _ => Fits parse)
      (I := fun s : InfoClient => s.Agrees ∧ ∀ call ∈ s.calls, Served call)
      (fun s l s' hI hfits hstep => ⟨(coherent_steps (steps_of_step hstep) hfits hI.1 hI.2).agrees,
        served_steps (steps_of_step hstep) hI.2⟩) before hinit
      (System.guarded_of_forall before (fun l hl => hfits l (List.mem_append_left _ hl)) _) hbefore
    exact coherent_steps (steps_of_step hstep) (hfits l (by simp)) hagrees hserved

/-- A reply with one rule, of so many minutes. -/
def infoReply (intervalNum : ℤ) : Json :=
  .obj [("timezone", .str "UTC"), ("serverTime", .int 0),
    ("rateLimits", .arr [.obj [("rateLimitType", .str "REQUEST_WEIGHT"),
      ("interval", .str "MINUTE"), ("intervalNum", .int intervalNum), ("limit", .int 1200)]]),
    ("exchangeFilters", .arr []), ("symbols", .arr [])]

/-- The constructor, on `infoReply intervalNum`. -/
def parseInfoReply (intervalNum : ℤ) (_ : Json) : Except Exc LimitedExchangeInfo :=
  .ok ⟨⟨[]⟩, [⟨.requestWeight, .minute, intervalNum, 1200⟩]⟩

/-- One call, which fetches. -/
def oneFetch (intervalNum : ℤ) : List InfoLabel :=
  [.call false, .lock 0, .reply 0 (infoReply intervalNum)]

theorem run_coherent_iff_minute :
    ∃ s, (system (parseInfoReply 1) defaultRateLimits).run
        (system (parseInfoReply 1) defaultRateLimits).init (oneFetch 1) = some s ∧
      ((∀ before l rest s₁ s₂, oneFetch 1 = before ++ l :: rest →
          (system (parseInfoReply 1) defaultRateLimits).run
            (system (parseInfoReply 1) defaultRateLimits).init before = some s₁ →
          s₁.step (parseInfoReply 1) l = some s₂ → Coherent (parseInfoReply 1) s₁ l s₂) ↔
        ∀ l ∈ oneFetch 1, Fits (parseInfoReply 1) l) :=
  ⟨_, rfl, run_coherent_iff (by decide +kernel) rfl⟩

/-- The cache has the rule of a reply whose number of minutes is too large for a float; the limiter
has not. -/
theorem not_run_agrees :
    ¬ ∀ (parse : Json → Except Exc LimitedExchangeInfo) (labels : List InfoLabel) (s : InfoClient),
      (system parse defaultRateLimits).run (system parse defaultRateLimits).init labels = some s →
        s.Agrees := by
  intro h
  have hlimits := (h (parseInfoReply (10 ^ 400)) (oneFetch (10 ^ 400)) _ rfl).limits _ rfl
    (.requestWeight, .minute, 10 ^ 400)
  revert hlimits
  decide +kernel

end InfoClient

end BinanceTh
