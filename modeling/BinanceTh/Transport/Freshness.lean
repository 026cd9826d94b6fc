import BinanceTh.RateLimit
import BinanceTh.Transport.Sending

/-!
# Freshness of signed requests

`_execute` signs a request and only then waits for the limiter, so that the wait counts against the
request's window. The limiter's part is a schedule of wake-ups: what its clock and the local clock
read at each, and the windows it finds, which other tasks may have changed since. A request is
handed over at the first wake-up at which every window it is charged to has room, and is fresh
exactly when that one is early enough; where nothing else touches the windows, exactly when no
window that lacks room has more of its interval left than `recv_window` (`execute_fresh_iff`).
-/

namespace BinanceTh

open Interaction

theorem append_cons_unique {α : Type} {a b a' b' : List α} {x x' : α}
    (h : a ++ x :: b = a' ++ x' :: b') (hleft : x ∉ a' ∨ x' ∉ b) (hright : x' ∉ a ∨ x ∉ b') :
    a = a' ∧ x = x' ∧ b = b' := by
  rcases List.append_eq_append_iff.1 h with ⟨c, ha', hb⟩ | ⟨c, ha, hb'⟩
  · cases c with
    | nil =>
      obtain ⟨rfl, rfl⟩ := List.cons.inj hb
      exact ⟨by rw [ha', List.append_nil], rfl, rfl⟩
    | cons y c =>
      obtain ⟨rfl, rfl⟩ := List.cons.inj hb
      rcases hleft with hx | hx
      · exact absurd (ha' ▸ List.mem_append_right a List.mem_cons_self) hx
      · exact absurd (List.mem_append_right c List.mem_cons_self) hx
  · cases c with
    | nil =>
      obtain ⟨rfl, rfl⟩ := List.cons.inj hb'
      exact ⟨by rw [ha, List.append_nil], rfl, rfl⟩
    | cons y c =>
      obtain ⟨rfl, rfl⟩ := List.cons.inj hb'
      rcases hright with hx | hx
      · exact absurd (ha ▸ List.mem_append_right a' List.mem_cons_self) hx
      · exact absurd (List.mem_append_right c List.mem_cons_self) hx

/-! ## Waiting -/

/-- A wake-up of `acquire`: what the limiter's clock and the local clock read, and the windows that
it finds. -/
structure Wake where
  now : ℚ
  localMs : ℤ
  windows : Limiter ℚ
  deriving DecidableEq

namespace Wake

def HasRoom (weight : ℤ) (mutating : Bool) (wake : Wake) : Prop :=
  Limiter.HasRoom weight mutating wake.windows wake.now

/-- `acquire`: the wake-up whose pass admits the call. -/
def admittedAt (weight : ℤ) (mutating : Bool) : List Wake → Option Wake
  | [] => none
  | wake :: wakes =>
    match wake.windows.acquireStep weight mutating wake.now with
    | .ok (.admitted, _) => some wake
    | .ok (.wait _, _) => admittedAt weight mutating wakes
    | .error _ => none

/-- Without other tasks: the next wake-up comes when the sleep is over, and finds the windows as
they were left. -/
def Next (c : ℚ → ℤ) (weight : ℤ) (mutating : Bool) (wake next : Wake) : Prop :=
  ∀ wait windows, wake.windows.acquireStep weight mutating wake.now = .ok (.wait wait, windows) →
    next = ⟨wake.now + wait, c (wake.now + wait), windows⟩

variable {weight : ℤ} {mutating : Bool} {wake : Wake} {wakes : List Wake}

/-- A call is admitted at the first wake-up with room. -/
theorem admittedAt_first (h : admittedAt weight mutating wakes = some wake) :
    ∃ l l', wakes = l ++ wake :: l' ∧ (∀ x ∈ l, ¬ x.HasRoom weight mutating) ∧
      wake.HasRoom weight mutating := by
  induction wakes with
  | nil => cases h
  | cons first wakes ih =>
    unfold admittedAt at h
    split at h
    · next hstep =>
      obtain rfl := Option.some.inj h
      rcases Limiter.acquireStep_cases hstep with ⟨-, hroom, -⟩ | ⟨wait, hwait, -⟩
      · exact ⟨[], wakes, rfl, fun x hx => absurd hx List.not_mem_nil, hroom⟩
      · cases hwait
    · next hstep =>
      obtain ⟨l, l', rfl, hl, hroom⟩ := ih h
      rcases Limiter.acquireStep_cases hstep with ⟨hadmitted, -⟩ | ⟨-, -, hno, -⟩
      · cases hadmitted
      · refine ⟨first :: l, l', rfl, fun x hx => ?_, hroom⟩
        rcases List.mem_cons.1 hx with rfl | hx
        · exact hno
        · exact hl x hx
    · cases h

/-- Left alone, a call is admitted when the longest wait that it met on entry is over. -/
theorem admittedAt_undisturbed {c : ℚ → ℤ} {first : Wake} {rest : List Wake}
    (h : admittedAt weight mutating (first :: rest) = some wake)
    (hfirst : first.localMs = c first.now)
    (hnext : (first :: rest).IsChain (Next c weight mutating)) :
    ∃ wait, Limiter.LongestWait weight mutating first.windows first.now wait ∧
      wake.localMs = c (first.now + wait) := by
  unfold admittedAt at h
  split at h
  · next hstep =>
    obtain rfl := Option.some.inj h
    rcases Limiter.acquireStep_cases hstep with ⟨-, -, hlongest⟩ | ⟨wait, hwait, -⟩
    · exact ⟨0, hlongest, by rw [hfirst, add_zero]⟩
    · cases hwait
  · next wait windows hstep =>
    rcases Limiter.acquireStep_cases hstep with ⟨hadmitted, -⟩ | ⟨_, hwait, -, hlongest, hroll⟩
    · cases hadmitted
    obtain rfl := Admission.wait.inj hwait
    cases rest with
    | nil => cases h
    | cons second rest =>
      have hsecond := (List.isChain_cons_cons.1 hnext).1 wait windows hstep
      unfold admittedAt at h
      split at h
      · obtain rfl := Option.some.inj h
        exact ⟨wait, hlongest, by rw [hsecond]⟩
      · next hstep₂ =>
        rcases Limiter.acquireStep_cases hstep₂ with ⟨hadmitted, -⟩ | ⟨wait₂, -, hno, hlongest₂, hroll₂⟩
        · cases hadmitted
        · rw [hsecond] at hroll₂ hno hlongest₂
          have hzero := Limiter.rollAll_after_wait hroll le_rfl hroll₂
          exact absurd (hlongest₂.hasRoom_iff.2 hzero.le) hno
      · cases h
  · cases h

end Wake

/-- The local clock, and the wake-ups that the next `acquire` will have. -/
structure Pace where
  localMs : ℤ
  wakes : List Wake

/-- The local clock moves only while `acquire` waits. -/
def Pace.Answers (p : Pace) : (op : Op) → Ans op → Pace → Prop
  | .clock, reading, p' => reading = p.localMs ∧ p' = p
  | .acquire weight mutating, .ok (), p' =>
    ∃ wake, Wake.admittedAt weight mutating p.wakes = some wake ∧ p'.localMs = wake.localMs
  | .acquire weight mutating, .error e, _ =>
    ∃ wake ∈ p.wakes, wake.windows.acquireStep weight mutating wake.now = .error e.exc
  | _, _, p' => p' = p

/-- On entry the limiter's clock reads `now`, the local clock is `c` of the limiter's, and nothing
but the call touches `windows`. -/
structure Pace.Undisturbed (c : ℚ → ℤ) (weight : ℤ) (mutating : Bool) (now : ℚ) (windows : Limiter ℚ)
    (p : Pace) : Prop where
  clock : p.localMs = c now
  entry : ∃ rest, p.wakes = ⟨now, c now, windows⟩ :: rest
  alone : p.wakes.IsChain (Wake.Next c weight mutating)

/-! ## Handing a request over -/

namespace Transport

variable {T : Transport} {call : Call} {s s' : TimeSync} {tr tr' : List Ev}

/-- In the run `tr` the clock is read as `clock`, then `tr'` happens without another reading, then
`request` is sent, which is a transmission of the call. -/
structure HandsOver (call : Call) (tr : List Ev) (clock : ℤ) (tr' : List Ev)
    (request : HttpRequest) : Prop where
  split : ∃ tr₀ net tr₁, tr = tr₀ ++ ⟨.clock, clock⟩ :: (tr' ++ ⟨.send request, net⟩ :: tr₁)
  own : call.isOwn request = true
  lastReading : ∀ e ∈ tr', e.1 ≠ .clock

/-- A run of `_execute` without a transmission of the call, or with one at its end. -/
theorem runs_execute_split {r : Except Exc Json} (hsign : call.signed = true → T.signer.isSome = true)
    (h : Runs (T.execute call) s tr r s') :
    (∀ x ∈ sends tr, call.isOwn x.1 = false) ∨
    ∃ tr₀ clock net update, (∀ x ∈ sends tr₀, call.isOwn x.1 = false) ∧
      tr = tr₀ ++ (clockEvents call clock ++
        T.transmission call (T.paramsAt call s' clock) (.sent net update)) := by
  have hrest {s₀ : TimeSync} {tr₀ tr : List Ev} (htr₀ : ∀ x ∈ sends tr₀, call.isOwn x.1 = false)
      (h : Runs (T.executeRest call) s₀ tr r s') :
      (∀ x ∈ sends (tr₀ ++ tr), call.isOwn x.1 = false) ∨
      ∃ tr₁ clock net update, (∀ x ∈ sends tr₁, call.isOwn x.1 = false) ∧
        tr₀ ++ tr = tr₁ ++ (clockEvents call clock ++
          T.transmission call (T.paramsAt call s' clock) (.sent net update)) := by
    obtain ⟨rfl, clock, d, -, rfl⟩ := (runs_executeRest_iff hsign).1 h
    cases d with
    | sent net update => exact .inr ⟨tr₀, clock, net, update, htr₀, rfl⟩
    | refused e =>
      left
      rw [sends_append, sends_append, sends_clockEvents, sends_transmission, exchanges,
        List.append_nil, List.append_nil]
      exact htr₀
  unfold execute ensureSynced at h
  rw [bind_assoc, runs_get_bind_iff] at h
  by_cases hsync : (call.signed && !s.synced) = true
  · rw [if_pos hsync, bind_assoc] at h
    have hsigned := (Bool.and_eq_true_iff.1 hsync).1
    have hnotOwn {s s' : TimeSync} {tr : List Ev} {r : Except Exc ServerTime}
        (h : Runs T.syncTime s tr r s') (x : Exchange) (hx : x ∈ sends tr) :
        call.isOwn x.1 = false := by
      rw [sends_syncTime h x hx]
      exact isOwn_timeRequest hsigned
    rcases runs_bind_iff.1 h with ⟨e, rfl, h₁⟩ | ⟨t, tr₁, s₁, tr₂, rfl, h₁, h₂⟩
    · exact .inl (hnotOwn h₁)
    · rw [pure_bind] at h₂
      exact hrest (hnotOwn h₁) h₂
  · rw [if_neg hsync, pure_bind] at h
    have hnone : ∀ x ∈ sends [], call.isOwn x.1 = false := fun x hx => absurd hx List.not_mem_nil
    exact hrest hnone h

theorem clock_notMem_leadIn {params : Params} {clock : ℤ} :
    (⟨.clock, clock⟩ : Ev) ∉ T.leadIn call params := by
  intro h
  rcases List.mem_append.1 h with hlog | hacquire
  · unfold announcement logEvents at hlog
    split at hlog
    · cases List.mem_singleton.1 hlog
    · cases hlog
  · cases List.mem_singleton.1 hacquire

/-- What stands between the signing and the send, and what is sent. -/
theorem HandsOver.eq {r : Except Exc Json} {clock : ℤ} {request : HttpRequest}
    (hsend : HandsOver call tr clock tr' request) (hsigned : call.signed = true)
    (hsign : T.signer.isSome = true) (h : Runs (T.execute call) s tr r s') :
    tr' = T.leadIn call (T.paramsAt call s' clock) ∧
      request = T.httpRequest call (T.paramsAt call s' clock) := by
  obtain ⟨⟨tr₀, net, tr₁, hsplit⟩, hown, hlast⟩ := hsend
  have hmem {l : List Ev} (hl : (⟨.send request, net⟩ : Ev) ∈ l) : (request, net) ∈ sends l :=
    List.mem_filterMap.2 ⟨_, hl, rfl⟩
  have hnotOwn {l : List Ev} (hl : ∀ x ∈ sends l, call.isOwn x.1 = false) :
      (⟨.send request, net⟩ : Ev) ∉ l := by
    intro hin
    rw [hl _ (hmem hin)] at hown
    cases hown
  rcases runs_execute_split (fun _ => hsign) h with hnone | ⟨tr₂, clock', net', update, htr₂, htr⟩
  · have hin : (⟨.send request, net⟩ : Ev) ∈ tr := by
      rw [hsplit]
      exact List.mem_append_right _ (List.mem_cons_of_mem _
        (List.mem_append_right _ List.mem_cons_self))
    exact absurd hin (hnotOwn hnone)
  set params := T.paramsAt call s' clock' with hparams
  have hbefore : (⟨.send request, net⟩ : Ev) ∉ tr₂ ++ ⟨.clock, clock'⟩ :: T.leadIn call params := by
    refine hnotOwn fun x hx => htr₂ x ?_
    have hsilent : sends (⟨.clock, clock'⟩ :: T.leadIn call params) = [] := by
      change sends (T.announcement call params ++ [_]) = []
      unfold announcement
      rw [sends_append, sends_logEvents]
      rfl
    rwa [sends_append, hsilent, List.append_nil] at hx
  have hafter : (⟨.send request, net⟩ : Ev) ∉ T.followUp call net' update := by
    refine hnotOwn fun x hx => ?_
    rw [(silent_followUp net' update).1] at hx
    cases hx
  have heq : (tr₀ ++ ⟨.clock, clock⟩ :: tr') ++ ⟨.send request, net⟩ :: tr₁ =
      (tr₂ ++ ⟨.clock, clock'⟩ :: T.leadIn call params) ++
        ⟨.send (T.httpRequest call params), net'⟩ :: T.followUp call net' update := by
    rw [clockEvents, if_pos hsigned] at htr
    rw [List.append_assoc, List.append_assoc]
    exact hsplit.symm.trans htr
  obtain ⟨hlead, hrequest, -⟩ := append_cons_unique heq (.inl hbefore) (.inr hafter)
  have hlast' (reading : ℤ) : (⟨.clock, reading⟩ : Ev) ∉ tr' := fun hin => hlast _ hin rfl
  obtain ⟨-, hclock, rfl⟩ := append_cons_unique hlead (.inr (hlast' clock'))
    (.inr clock_notMem_leadIn)
  obtain rfl := eq_of_heq (Sigma.mk.inj hclock).2
  exact ⟨rfl, Op.send.inj (Sigma.mk.inj hrequest).1⟩

theorem admits_leadIn {p p' : Pace} {params : Params} {clock : ℤ}
    (h : Admits Pace.Answers p (⟨.clock, clock⟩ :: T.leadIn call params) p') :
    clock = p.localMs ∧ ∃ wake, Wake.admittedAt call.weight call.mutating p.wakes = some wake ∧
      p'.localMs = wake.localMs := by
  obtain ⟨p₁, ⟨hclock, rfl⟩, h₁⟩ := admits_cons_iff.1 h
  obtain ⟨p₂, hlog, h₂⟩ := admits_append_iff.1 h₁
  have hstay : p₂ = p₁ := by
    unfold announcement logEvents at hlog
    split at hlog
    · obtain ⟨p₃, rfl, hnil⟩ := admits_cons_iff.1 hlog
      cases hnil
      rfl
    · cases hlog
      rfl
  obtain ⟨p₃, hacquire, hnil⟩ := admits_cons_iff.1 h₂
  cases hnil
  rw [hstay] at hacquire
  exact ⟨hclock, hacquire⟩

/-- At a reading `localMs` of the local clock, what was signed at the reading `clock` is at most
`recv_window` old. -/
def FreshAt (T : Transport) (t : TimeSync) (clock localMs : ℤ) : Prop :=
  t.nowMs localMs ≤ t.nowMs clock + T.config.recvWindow

instance (T : Transport) (t : TimeSync) (clock localMs : ℤ) : Decidable (T.FreshAt t clock localMs) :=
  inferInstanceAs (Decidable (_ ≤ _))

/-- **Freshness.** A request is signed with the time of the last clock reading before its send. It is
handed over fresh exactly when the first wake-up with room comes at most `recv_window` after that
reading; if nothing else touches the windows, exactly when on the local clock no window that lacks
room on entry asks for a longer wait. -/
theorem execute_fresh_iff (T : Transport) (call : Call) {r : Except Exc Json} {clock : ℤ}
    {request : HttpRequest} {p p' : Pace} (hsigned : call.signed = true)
    (hsign : T.signer.isSome = true) (h : Runs (T.execute call) s tr r s')
    (hsend : HandsOver call tr clock tr' request)
    (hpace : Admits Pace.Answers p (⟨.clock, clock⟩ :: tr') p') :
    Dict.get? request.params "timestamp" = some (.str (toString (s'.nowMs clock))) ∧
    (T.FreshAt s' clock p'.localMs ↔ ∃ l wake l', p.wakes = l ++ wake :: l' ∧
      (∀ x ∈ l, ¬ x.HasRoom call.weight call.mutating) ∧
      wake.HasRoom call.weight call.mutating ∧
      wake.localMs ≤ p.localMs + T.config.recvWindow) ∧
    ∀ c : ℚ → ℤ, (∀ t t', t ≤ t' → c t ≤ c t') → ∀ now windows,
      p.Undisturbed c call.weight call.mutating now windows →
      (T.FreshAt s' clock p'.localMs ↔ ∀ w ∈ windows, ∀ amount,
        w.charge? call.weight call.mutating = some amount → ∀ w', w.roll now = .ok w' →
          c (now + w'.waitTime now amount) ≤ c now + T.config.recvWindow) := by
  obtain ⟨rfl, rfl⟩ := hsend.eq hsigned hsign h
  obtain ⟨rfl, wake, hwake, hlocal⟩ := admits_leadIn hpace
  have hfresh : T.FreshAt s' p.localMs p'.localMs ↔
      wake.localMs ≤ p.localMs + T.config.recvWindow := by
    unfold FreshAt TimeSync.nowMs
    rw [hlocal]
    omega
  refine ⟨?_, ?_, fun c hc now windows hundisturbed => ?_⟩
  · obtain ⟨signer, hsigner⟩ := Option.isSome_iff_exists.1 hsign
    change Dict.get? (T.paramsAt call s' p.localMs) "timestamp" = _
    unfold paramsAt
    rw [if_pos hsigned, hsigner]
    dsimp only
    rw [Dict.get?_map, Signer.signedParams, Dict.get?_set, if_neg (by decide), Dict.get?_set,
      if_pos rfl]
    rfl
  · obtain ⟨l, l', hwakes, hl, hroom⟩ := Wake.admittedAt_first hwake
    rw [hfresh]
    constructor
    · exact fun hle => ⟨l, wake, l', hwakes, hl, hroom, hle⟩
    · rintro ⟨l₁, wake₁, l₁', hwakes₁, hl₁, hroom₁, hle⟩
      obtain ⟨-, rfl, -⟩ := append_cons_unique (hwakes.symm.trans hwakes₁)
        (.inl fun hin => hl₁ _ hin hroom) (.inl fun hin => hl _ hin hroom₁)
      exact hle
  · obtain ⟨hclock, ⟨rest, hentry⟩, halone⟩ := hundisturbed
    rw [hentry] at hwake halone
    obtain ⟨wait, hlongest, hend⟩ := Wake.admittedAt_undisturbed hwake rfl halone
    rw [hfresh, hend, hclock]
    constructor
    · intro hle w hw amount hcharge w' hroll
      obtain ⟨w'', hroll', hwait⟩ := hlongest.le w hw amount hcharge
      obtain rfl := Except.ok.inj (hroll.symm.trans hroll')
      exact (hc _ _ (add_le_add_right hwait now)).trans hle
    · intro hall
      rcases hlongest.attained with hzero | ⟨w, hw, amount, w', hcharge, hroll, hwait⟩
      · have hpos := T.config.recvWindow_pos
        rw [hzero]
        change c (now + 0) ≤ _
        rw [add_zero]
        omega
      · exact hwait ▸ hall w hw amount hcharge w' hroll

/-! ### The default limits -/

/-- A signed request that places an order. -/
def orderCall : Call where
  method := "POST"
  path := "/api/v1/order"
  signed := true
  mutating := true

/-- Its run against a network that times out. -/
def orderRun : List Ev × Except Exc Json × TimeSync :=
  (sampleTransport.execute orderCall).play (scripted [.timeout ""]) ⟨0, true⟩

def orderRequest : HttpRequest := (sends orderRun.1)[0].1

theorem handsOver_orderRun : HandsOver orderCall orderRun.1 0 [⟨.acquire 1 true, .ok ()⟩] orderRequest where
  split := ⟨[], .timeout "", [], rfl⟩
  own := by decide
  lastReading := by simp

def millis (t : ℚ) : ℤ := ⌊1000 * t⌋

/-- The default windows after `used` orders since the time 0. -/
def usedWindows (used : ℤ) : Limiter ℚ :=
  (Limiter.ofRateLimits defaultRateLimits).map fun w => { w with used := used, windowStart := some 0 }

/-- A call that enters at the time 0 and may have to wait for ten seconds. -/
def samplePace (used : ℤ) : Pace where
  localMs := millis 0
  wakes := [⟨0, millis 0, usedWindows used⟩, ⟨0 + 10, millis (0 + 10), usedWindows used⟩]

/-- How long a pass that waits wants to wait, and the windows that it leaves. -/
def waiting? : Except Exc (Admission ℚ × Limiter ℚ) → Option (ℚ × Limiter ℚ)
  | .ok (.wait wait, windows) => some (wait, windows)
  | _ => none

/-- A call that enters six seconds after the windows began. -/
def latePace : Pace where
  localMs := 0
  wakes := [⟨6, 0, usedWindows 1000⟩, ⟨10, 4000, usedWindows 1000⟩]

/-- After 1000 orders within six seconds the next one waits for four, and is handed over fresh. -/
theorem execute_fresh_waits :
    (waiting? (Limiter.acquireStep 1 true (usedWindows 1000) 6)).map Prod.fst = some 4 ∧
      sampleTransport.FreshAt orderRun.2.2 0 4000 := by
  have hwake : Wake.admittedAt 1 true latePace.wakes = some ⟨10, 4000, usedWindows 1000⟩ := by
    decide +kernel
  have hpace : Admits Pace.Answers latePace [⟨.clock, (0 : ℤ)⟩, ⟨.acquire 1 true, .ok ()⟩]
      { latePace with localMs := 4000 } :=
    .cons ⟨rfl, rfl⟩ (.cons ⟨_, hwake, rfl⟩ (.nil _))
  obtain ⟨l, l', hwakes, hl, hroom⟩ := Wake.admittedAt_first hwake
  refine ⟨by decide +kernel, ?_⟩
  exact (execute_fresh_iff sampleTransport orderCall rfl rfl (Comp.runs_play _ _ _).1
    handsOver_orderRun hpace).2.1.2 ⟨l, _, l', hwakes, hl, hroom, by decide⟩

/-- After 1000 orders within ten seconds the next one waits for twice its `recv_window`. -/
theorem execute_stale :
    Runs (sampleTransport.execute orderCall) ⟨0, true⟩ orderRun.1 orderRun.2.1 orderRun.2.2 ∧
    HandsOver orderCall orderRun.1 0 [⟨.acquire 1 true, .ok ()⟩] orderRequest ∧
    (samplePace 1000).Undisturbed millis 1 true 0 (usedWindows 1000) ∧
    ∃ p, Admits Pace.Answers (samplePace 1000) [⟨.clock, (0 : ℤ)⟩, ⟨.acquire 1 true, .ok ()⟩] p ∧
      ¬ sampleTransport.FreshAt orderRun.2.2 0 p.localMs := by
  have hfull : waiting? (Limiter.acquireStep 1 true (usedWindows 1000) 0) =
      some (10, usedWindows 1000) := by decide +kernel
  have hnext : Wake.Next millis 1 true ⟨0, millis 0, usedWindows 1000⟩
      ⟨0 + 10, millis (0 + 10), usedWindows 1000⟩ := by
    intro wait windows h
    rw [h] at hfull
    obtain ⟨rfl, rfl⟩ := Prod.mk.inj (Option.some.inj hfull)
    rfl
  have hwake : Wake.admittedAt 1 true (samplePace 1000).wakes =
      some ⟨0 + 10, millis (0 + 10), usedWindows 1000⟩ := by decide +kernel
  refine ⟨(Comp.runs_play _ _ _).1, handsOver_orderRun, ⟨rfl, ⟨_, rfl⟩, ?_⟩,
    ⟨millis (0 + 10), []⟩, ?_, by decide +kernel⟩
  · exact .cons_cons hnext (.singleton _)
  · exact .cons ⟨by decide +kernel, rfl⟩ (.cons ⟨_, hwake, rfl⟩ (.nil _))

end Transport

end BinanceTh
