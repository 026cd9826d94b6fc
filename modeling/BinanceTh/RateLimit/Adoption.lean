import BinanceTh.RateLimit

/-!
# Adopting the server's limits

What a limiter does with rules that come from the server unchecked, and with calls over the windows
that it has made of them. `reseed` multiplies a number of intervals by a float, which raises for a
number past the largest float; the windows in use then stay in use, some of them with new limits.
Over windows of some length a pass always rolls, and what can still raise is the number in a
header's name (`performed_iff`). Whatever a call raises is an exception of a limiter, which the
transport passes on (`perform_error`).
-/

namespace BinanceTh

/-! ## Reseeding with any numbers -/

namespace Limiter

variable {K : Type}

/-- To replace the window of a key keeps all keys. -/
theorem key_replace (w v : Window K) : (if v.key = w.key then w else v).key = v.key := by
  split
  · next heq => exact heq.symm
  · rfl

section

variable [Seconds K]

/-- The loop of `reseed`: the windows in use, where the kept ones are changed in place, and the new
dictionary. -/
def reseedLoop : Limiter K → Limiter K → List RateLimit → Limiter K × Except Exc (Limiter K)
  | l, new, [] => (l, .ok new)
  | l, new, rule :: rules =>
    if overflows rule.intervalNum then (l, .error .overflowError)
    else
      let w := l.reseeded rule
      reseedLoop (l.map fun v => if v.key = w.key then w else v) (new.insert w) rules

/-- `reseed`, with the exception of a number of intervals that is too large for a float. -/
def adopt (l : Limiter K) (rateLimits : List RateLimit) : Limiter K × Except Exc Unit :=
  match reseedLoop l [] rateLimits with
  | (_, .ok new) => (new, .ok ())
  | (l', .error e) => (l', .error e)

variable {l l' : Limiter K}

theorem reseeded_key (l : Limiter K) (rule : RateLimit) :
    (l.reseeded rule).key = (rule.rateLimitType, rule.interval, rule.intervalNum) :=
  (reseeded_cases l rule).1

theorem reseeded_intervalNum (l : Limiter K) (rule : RateLimit) :
    (l.reseeded rule).intervalNum = rule.intervalNum :=
  (Prod.mk.inj (Prod.mk.inj (l.reseeded_key rule)).2).2

/-- What a rule makes of the windows depends on the count and the start of its own one only. -/
theorem reseeded_congr {rule : RateLimit}
    (h : (l'.find? fun w => w.key = (rule.rateLimitType, rule.interval, rule.intervalNum)).map
        (fun w => { w with
          limit := rule.limit
          duration := Seconds.times rule.interval.seconds rule.intervalNum }) =
      (l.find? fun w => w.key = (rule.rateLimitType, rule.interval, rule.intervalNum)).map
        fun w => { w with
          limit := rule.limit
          duration := Seconds.times rule.interval.seconds rule.intervalNum }) :
    l'.reseeded rule = l.reseeded rule := by
  unfold reseeded
  simp only
  split
  · next w' hw' =>
    rw [hw', Option.map_some] at h
    obtain ⟨w, hw, heq⟩ := Option.map_eq_some_iff.1 h.symm
    rw [hw]
    simp only [Window.mk.injEq] at heq ⊢
    grind
  · next hnone =>
    rw [hnone, Option.map_none] at h
    rw [Option.map_eq_none_iff.1 h.symm]

/-- A rule finds the same count and start after another rule has changed its window in place. -/
theorem reseeded_map (l : Limiter K) (rule rule' : RateLimit) :
    reseeded (l.map fun v => if v.key = (l.reseeded rule).key then l.reseeded rule else v) rule' =
      l.reseeded rule' := by
  apply reseeded_congr
  rw [List.find?_map]
  simp only [Function.comp_def, key_replace]
  rw [Option.map_map]
  apply Option.map_congr
  intro v hv
  simp only [Function.comp_apply]
  split
  · next heq =>
    -- the window is the one that the first rule has found
    rw [reseeded_key] at heq
    have hv' : v.key = (rule'.rateLimitType, rule'.interval, rule'.intervalNum) := by
      simpa using List.find?_some hv
    rw [← hv', heq] at hv
    unfold reseeded
    rw [hv]
  · rfl

theorem reseedLoop_eq {rules : List RateLimit}
    (h : ∀ rule ∈ rules, overflows rule.intervalNum = false) :
    ∀ l new : Limiter K, ∃ l', reseedLoop l new rules =
      (l', .ok ((rules.map l.reseeded).foldl insert new)) := by
  induction rules with
  | nil => exact fun l new => ⟨l, rfl⟩
  | cons rule rules ih =>
    intro l new
    obtain ⟨hrule, hrules⟩ := List.forall_mem_cons.1 h
    obtain ⟨l', hloop⟩ := ih hrules
      (l.map fun v => if v.key = (l.reseeded rule).key then l.reseeded rule else v)
      (new.insert (l.reseeded rule))
    refine ⟨l', ?_⟩
    rw [reseedLoop, hrule, if_neg Bool.false_ne_true]
    dsimp only
    rw [hloop, List.map_congr_left fun rule' _ => l.reseeded_map rule rule']
    rfl

/-- Without numbers too large for a float, `reseed` adopts the rules. -/
theorem adopt_eq {rules : List RateLimit} (h : ∀ rule ∈ rules, overflows rule.intervalNum = false) :
    l.adopt rules = (l.reseed rules, .ok ()) := by
  obtain ⟨l', hloop⟩ := reseedLoop_eq h l []
  unfold adopt
  rw [hloop]
  rfl

theorem reseedLoop_overflows {rules : List RateLimit}
    (h : ∃ rule ∈ rules, overflows rule.intervalNum = true) :
    ∀ l new : Limiter K, ∃ l', reseedLoop l new rules = (l', .error .overflowError) := by
  induction rules with
  | nil =>
    obtain ⟨rule, hrule, -⟩ := h
    cases hrule
  | cons rule rules ih =>
    intro l new
    rw [reseedLoop]
    split
    · exact ⟨l, rfl⟩
    · next hno =>
      obtain ⟨rule', hrule', hover⟩ := h
      rcases List.mem_cons.1 hrule' with rfl | hrule'
      · exact absurd hover hno
      · exact ih ⟨rule', hrule', hover⟩ _ _

theorem adopt_ok_iff {rules : List RateLimit} :
    (l.adopt rules).2 = .ok () ↔ ∀ rule ∈ rules, overflows rule.intervalNum = false := by
  constructor
  · intro hok rule hrule
    by_contra hover
    obtain ⟨l', hloop⟩ := reseedLoop_overflows ⟨rule, hrule, Bool.of_not_eq_false hover⟩ l []
    unfold adopt at hok
    rw [hloop] at hok
    cases hok
  · intro h
    rw [adopt_eq h]

theorem reseedLoop_forall {P : Window K → Prop} {rules : List RateLimit}
    (hreseeded : ∀ l : Limiter K, (∀ w ∈ l, P w) → ∀ rule ∈ rules,
      overflows rule.intervalNum = false → P (l.reseeded rule)) :
    ∀ {l new : Limiter K}, (∀ w ∈ l, P w) → (∀ w ∈ new, P w) →
      (∀ w ∈ (reseedLoop l new rules).1, P w) ∧
        ∀ new', (reseedLoop l new rules).2 = .ok new' → ∀ w ∈ new', P w := by
  induction rules with
  | nil =>
    intro l new hl hnew
    refine ⟨hl, fun new' hok => ?_⟩
    obtain rfl := Except.ok.inj hok
    exact hnew
  | cons rule rules ih =>
    intro l new hl hnew
    rw [reseedLoop]
    split
    · exact ⟨hl, fun new' hok => by cases hok⟩
    · next hfits =>
      have hrule := hreseeded l hl rule List.mem_cons_self (Bool.of_not_eq_true hfits)
      refine ih (fun l' hl' rule' hrule' => hreseeded l' hl' rule' (List.mem_cons_of_mem rule hrule'))
        ?_ ?_
      · intro w hw
        obtain ⟨v, hv, rfl⟩ := List.mem_map.1 hw
        split
        · exact hrule
        · exact hl v hv
      · intro w hw
        rcases mem_insert hw with rfl | ⟨hw, -⟩
        · exact hrule
        · exact hnew w hw

/-- What holds of every window in use and of what the rules make of such windows holds after the
rules, also where `reseed` raises. -/
theorem adopt_forall {P : Window K → Prop} {rules : List RateLimit}
    (hreseeded : ∀ l : Limiter K, (∀ w ∈ l, P w) → ∀ rule ∈ rules,
      overflows rule.intervalNum = false → P (l.reseeded rule))
    (hl : ∀ w ∈ l, P w) : ∀ w ∈ (l.adopt rules).1, P w := by
  have hempty : ∀ w ∈ ([] : Limiter K), P w := fun w hw => absurd hw List.not_mem_nil
  obtain ⟨hold, hnew⟩ := reseedLoop_forall hreseeded hl hempty
  unfold adopt
  split
  · next new' heq => exact hnew new' (by rw [heq])
  · next l' e heq =>
    rw [heq] at hold
    exact hold

theorem ofRateLimits_forall {P : Window K → Prop} {rules : List RateLimit}
    (h : ∀ rule ∈ rules, P
      { rateLimitType := rule.rateLimitType, interval := rule.interval,
        intervalNum := rule.intervalNum, limit := rule.limit,
        duration := Seconds.times rule.interval.seconds rule.intervalNum }) :
    ∀ w ∈ ofRateLimits rules, P w := by
  refine List.foldlRecOn rules _ (motive := fun l : Limiter K => ∀ w ∈ l, P w)
    (fun w hw => absurd hw List.not_mem_nil) ?_
  intro l hl rule hrule w hw
  rcases mem_insert hw with rfl | ⟨hw, -⟩
  · exact h rule hrule
  · exact hl w hw

end

/-! ## Calls -/

/-- What the limiter is asked: a pass of a call of `acquire`, or the headers of a response. -/
inductive Call where
  | acquire (weight : ℤ) (mutating : Bool)
  | updateFromHeaders (headers : List (String × String))

theorem chargeAll_forall {P : Window K → Prop} {l : Limiter K} {weight : ℤ} {mutating : Bool}
    (hused : ∀ w used, P w → P { w with used }) (hl : ∀ w ∈ l, P w) :
    ∀ w ∈ chargeAll weight mutating l, P w := by
  intro w hw
  obtain ⟨v, hv, rfl⟩ := List.mem_map.1 hw
  split
  · exact hused v _ (hl v hv)
  · exact hl v hv

section

variable [LinearOrder K] [Zero K] [Add K] [Sub K] [Mul K] [Seconds K] {l : Limiter K}

/-- The windows after a call, and what it raises. -/
def perform (l : Limiter K) (now : K) : Call → Limiter K × Except Exc Unit
  | .acquire weight mutating =>
    match acquireStep weight mutating l now with
    | .ok (_, l') => (l', .ok ())
    | .error e => (rollUntilRaised weight mutating now l, .error e)
  | .updateFromHeaders headers => updateFromHeaders now l headers

/-- If the header names a window beside an integer, then the digits in its name are not too many to
be converted. -/
def convertible (name value : String) : Bool :=
  match headerWindow name, parseInt value with
  | some (_, digits, _), some _ => (parseInt digits).isSome
  | _, _ => true

def Call.Convertible : Call → Prop
  | .acquire _ _ => True
  | .updateFromHeaders headers => ∀ header ∈ headers, convertible header.1 header.2 = true

section Forall

variable {P : Window K → Prop} {now : K} (hused : ∀ w used, P w → P { w with used })
  (hroll : ∀ w w', P w → w.roll now = .ok w' → P w')

include hroll in
theorem rollUntilRaised_forall {weight : ℤ} {mutating : Bool} (hl : ∀ w ∈ l, P w) :
    ∀ w ∈ rollUntilRaised weight mutating now l, P w := by
  induction l with
  | nil => exact hl
  | cons w ws ih =>
    obtain ⟨hw, hws⟩ := List.forall_mem_cons.1 hl
    unfold rollUntilRaised
    split
    · exact List.forall_mem_cons.2 ⟨hw, ih hws⟩
    · split
      · next w' hroll' => exact List.forall_mem_cons.2 ⟨hroll w w' hw hroll', ih hws⟩
      · exact hl

include hused hroll

theorem updateFromHeaders_forall {headers : List (String × String)} (hl : ∀ w ∈ l, P w) :
    ∀ w ∈ (updateFromHeaders now l headers).1, P w := by
  induction headers generalizing l with
  | nil => exact hl
  | cons header headers ih =>
    rw [updateFromHeaders]
    split
    · exact hl
    · next l' hone =>
      refine ih fun w' hw' => ?_
      obtain ⟨w, hw, heq | ⟨w₁, used, hroll', -, heq⟩⟩ := (reconcile_spec hone).2 w' hw'
      · exact heq ▸ hl w hw
      · exact heq ▸ hused w₁ used (hroll w w₁ (hl w hw) hroll')

/-- What rolling to `now` keeps and what does not depend on the count is kept by a call at `now`,
also by one that raises. -/
theorem perform_forall {call : Call} (hl : ∀ w ∈ l, P w) : ∀ w ∈ (l.perform now call).1, P w := by
  cases call with
  | acquire weight mutating =>
    rw [perform]
    split
    · next a l' hstep =>
      unfold acquireStep at hstep
      obtain ⟨⟨wait, rolled⟩, hrolled, hstep⟩ := bind_eq_ok_iff.1 hstep
      have hkept : ∀ w ∈ rolled, P w := by
        intro w' hw'
        obtain ⟨w, hw, ⟨-, heq⟩ | ⟨amount, -, hroll', -⟩⟩ :=
          (exists_of_forall₂ (rollAll_forall₂ hrolled le_rfl)).1 w' hw'
        · exact heq ▸ hl w hw
        · exact hroll w w' (hl w hw) hroll'
      dsimp only at hstep
      split at hstep
      · obtain ⟨-, rfl⟩ := Prod.mk.inj (Except.ok.inj hstep)
        exact chargeAll_forall hused hkept
      · obtain ⟨-, rfl⟩ := Prod.mk.inj (Except.ok.inj hstep)
        exact hkept
    · exact rollUntilRaised_forall hroll hl
  | updateFromHeaders headers => exact updateFromHeaders_forall hused hroll hl

end Forall

section Positive

variable {now : K} (hpos : ∀ w ∈ l, 0 < w.duration)

include hpos

theorem reconcile_ok_iff {name value : String} :
    (∃ l', l.reconcile now name value = .ok l') ↔ convertible name value = true := by
  unfold reconcile convertible
  cases headerWindow name with
  | none => exact iff_of_true ⟨l, rfl⟩ rfl
  | some named =>
    obtain ⟨rateType, digits, interval⟩ := named
    cases parseInt value with
    | none => exact iff_of_true ⟨l, rfl⟩ rfl
    | some used =>
      dsimp only
      cases parseInt digits with
      | none => exact iff_of_false (fun ⟨l', h⟩ => by cases h) (by decide)
      | some num =>
        refine iff_of_true ?_ rfl
        dsimp only
        split
        · exact ⟨l, rfl⟩
        · next w hfind =>
          obtain ⟨w', hroll⟩ := Window.exists_roll (hpos w (List.mem_of_find?_eq_some hfind)) now
          rw [hroll]
          exact ⟨_, rfl⟩

theorem updateFromHeaders_ok_iff {headers : List (String × String)} :
    (updateFromHeaders now l headers).2 = .ok () ↔
      ∀ header ∈ headers, convertible header.1 header.2 = true := by
  induction headers generalizing l with
  | nil => exact iff_of_true rfl (fun _ h => absurd h List.not_mem_nil)
  | cons header headers ih =>
    have hfirst : (∃ l', l.reconcile now header.1 header.2 = .ok l') ↔
        convertible header.1 header.2 = true := reconcile_ok_iff hpos
    rw [updateFromHeaders, List.forall_mem_cons, ← hfirst]
    split
    · next e herror => simp [herror]
    · next l' hone =>
      have hpos' : ∀ w ∈ l', 0 < w.duration := by
        intro w' hw'
        obtain ⟨w, hw, heq | ⟨w₁, used, hroll, -, heq⟩⟩ := (reconcile_spec hone).2 w' hw'
        · exact heq ▸ hpos w hw
        · obtain ⟨-, -, hduration, -⟩ := Window.roll_frame hroll
          rw [heq]
          exact hduration ▸ hpos w hw
      rw [ih hpos', hone]
      simp

/-- Over windows of some length a pass raises nothing, and headers only for the number in a name. -/
theorem performed_iff (call : Call) : (l.perform now call).2 = .ok () ↔ call.Convertible := by
  cases call with
  | acquire weight mutating =>
    obtain ⟨wait, l', hrolled⟩ : ∃ wait l', rollAll weight mutating now l = .ok (wait, l') :=
      exists_rollAll hpos now
    refine iff_of_true ?_ trivial
    rw [perform, acquireStep, hrolled]
    by_cases hwait : wait ≤ 0 <;> simp [bind, Except.bind, pure, Except.pure, hwait]
  | updateFromHeaders headers => exact updateFromHeaders_ok_iff hpos

/-- A pass rolls the windows and then changes their counts. -/
theorem exists_rolled_of_mem {weight : ℤ} {mutating : Bool} {w' : Window K}
    (h : w' ∈ (l.perform now (.acquire weight mutating)).1) :
    ∃ w ∈ l, ∃ w₁ used bound, Rolled weight mutating now bound w w₁ ∧ w' = { w₁ with used } := by
  obtain ⟨wait, rolled, hrolled⟩ : ∃ wait rolled,
      rollAll weight mutating now l = .ok (wait, rolled) := exists_rollAll hpos now
  have hkept : ∀ v ∈ rolled, ∃ w ∈ l, ∃ w₁ used bound,
      Rolled weight mutating now bound w w₁ ∧ v = { w₁ with used } := by
    intro v hv
    obtain ⟨w, hw, hroll⟩ := (exists_of_forall₂ (rollAll_forall₂ hrolled le_rfl)).1 v hv
    exact ⟨w, hw, v, v.used, wait, hroll, rfl⟩
  rw [perform, acquireStep, hrolled] at h
  dsimp only [bind, Except.bind] at h
  by_cases hwait : wait ≤ 0
  · rw [if_pos hwait] at h
    refine chargeAll_forall (fun v used hv => ?_) hkept w' h
    obtain ⟨w, hw, w₁, used₁, bound, hroll, rfl⟩ := hv
    exact ⟨w, hw, w₁, used, bound, hroll, rfl⟩
  · rw [if_neg hwait] at h
    exact hkept w' h

end Positive

/-- What a call raises is an exception of a limiter. -/
theorem perform_error {now : K} {call : Call} {e : Exc} (h : (l.perform now call).2 = .error e) :
    ∃ raised : LimiterError, e = raised.exc := by
  cases call with
  | acquire weight mutating =>
    rw [perform] at h
    split at h
    · cases h
    · next e' hstep =>
      obtain rfl := Except.error.inj h
      exact acquireStep_error hstep
  | updateFromHeaders headers => exact updateFromHeaders_error h

end

end Limiter

end BinanceTh
