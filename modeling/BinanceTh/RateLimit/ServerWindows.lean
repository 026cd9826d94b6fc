import BinanceTh.RateLimit.Budget

/-!
# The server's windows

The server counts in fixed windows too, of the same length but of any phase. A window of the client
begins with its first use, and is reset at multiples of its length from there; so a window of the
server may overlap two of the client's, and the client has forgotten what it admitted in the first
one. As long as no server window gets a charge of a second client window (`Unsplit`), what it is
charged stays within the limit (`run_withinServer`).

A request is sent when its call is admitted, and arrives at once; no header has come back yet.
-/

namespace BinanceTh

open Transition

/-- The number of the server's window at a time. -/
def serverWindow (phase duration t : ℚ) : ℤ := ⌊(t - phase) / duration⌋

def BudgetEntry.amount (entry : BudgetEntry) : ℤ :=
  match entry.event with
  | .charged charge => charge.amount
  | .raised _ => 0

/-- The limiter, with what its calls were charged and when. -/
structure ServedPacing where
  pacing : Pacing
  arrived : List (ℚ × BudgetEntry)

namespace ServedPacing

def step (s : ServedPacing) : PacingLabel → Option ServedPacing
  | .acquire weight mutating =>
    (s.pacing.step (.acquire weight mutating)).map fun pacing => { s with pacing }
  | .pass i now => (s.pacing.step (.pass i now)).map fun pacing =>
    ⟨pacing, s.arrived ++ (pacing.log.drop s.pacing.log.length).map fun entry => (now, entry)⟩
  | .headers _ _ => none
  | .reseed _ => none

def system (windows : List (Window ℚ)) : System ServedPacing PacingLabel where
  init := ⟨(Pacing.system windows).init, []⟩
  step := step

variable (key : RateLimitType × RateLimitInterval × ℤ) (phase : ℚ)

/-- What was charged to a window of the client in the server's window `k`. -/
def admittedIn (duration : ℚ) (k : ℤ) (arrived : List (ℚ × BudgetEntry)) : ℤ :=
  (arrived.map fun x =>
    if x.2.key = key ∧ serverWindow phase duration x.1 = k then x.2.amount else 0).sum

/-- No window of the server is charged more than the limit. -/
def WithinServer (s : ServedPacing) : Prop :=
  ∀ w ∈ s.pacing.windows, w.key = key → ∀ k, admittedIn key phase w.duration k s.arrived ≤ w.limit

/-- What a call charges a window with the key is not negative, and no more than the limit. -/
def Fits (s : ServedPacing) : PacingLabel → Prop
  | .acquire weight mutating => 0 ≤ weight ∧ ∀ w ∈ s.pacing.windows, w.key = key →
      ∀ amount, w.charge? weight mutating = some amount → amount ≤ w.limit
  | _ => True

/-- A pass that has room: what the server's present window was charged before was charged in the
client's present window. -/
def Unsplit (s : ServedPacing) : PacingLabel → Prop
  | .pass i now => ∀ call w w', s.pacing.calls[i]? = some call →
      Limiter.HasRoom call.weight call.mutating s.pacing.windows now →
      w ∈ s.pacing.windows → w.key = key → w.roll now = .ok w' →
      ∀ x ∈ s.arrived, x.2.key = key →
        serverWindow phase w.duration x.1 = serverWindow phase w.duration now →
        x.2.epoch = w'.windowStart
  | _ => True

/-! ## Sums -/

variable {key phase} {duration now : ℚ} {k : ℤ} {arrived : List (ℚ × BudgetEntry)}

theorem admittedIn_append (arrived arrived' : List (ℚ × BudgetEntry)) :
    admittedIn key phase duration k (arrived ++ arrived') =
      admittedIn key phase duration k arrived + admittedIn key phase duration k arrived' := by
  unfold admittedIn
  rw [List.map_append, List.sum_append]

/-- What arrives at one time is charged to the window of that time. -/
theorem admittedIn_map (entries : List BudgetEntry) :
    admittedIn key phase duration k (entries.map fun entry => (now, entry)) =
      if serverWindow phase duration now = k then
        ((Pacing.ledger key entries).map BudgetEntry.amount).sum
      else 0 := by
  unfold admittedIn
  induction entries with
  | nil => simp [Pacing.ledger]
  | cons entry entries ih =>
    unfold Pacing.ledger at ih ⊢
    rw [List.map_cons, List.map_cons, List.sum_cons, ih]
    by_cases hkey : entry.key = key <;> by_cases hwindow : serverWindow phase duration now = k <;>
      simp [hkey, hwindow]

/-- What one arrival adds to the server's window, if it belongs to the epoch. -/
theorem amount_le_chargesIn {epoch : Option ℚ} {x : ℚ × BudgetEntry}
    (hnonneg : ∀ charge ∈ Pacing.chargesIn (Pacing.ledger key [x.2]) epoch, 0 ≤ charge.amount)
    (hepoch : x.2.key = key → serverWindow phase duration x.1 = k → x.2.epoch = epoch) :
    (if x.2.key = key ∧ serverWindow phase duration x.1 = k then x.2.amount else 0) ≤
      ((Pacing.chargesIn (Pacing.ledger key [x.2]) epoch).map Charge.amount).sum := by
  have hsum : 0 ≤ ((Pacing.chargesIn (Pacing.ledger key [x.2]) epoch).map Charge.amount).sum := by
    refine List.sum_nonneg fun a ha => ?_
    obtain ⟨charge, hcharge, rfl⟩ := List.mem_map.1 ha
    exact hnonneg charge hcharge
  split
  · next hin =>
    obtain ⟨hkey, hwindow⟩ := hin
    have hsame := hepoch hkey hwindow
    unfold BudgetEntry.amount
    cases hevent : x.2.event with
    | raised v => exact hsum
    | charged charge => simp [Pacing.ledger, Pacing.chargesIn, hkey, hevent, hsame]
  · exact hsum

/-- The charges of the server's window, if all of them belong to one epoch. -/
theorem admittedIn_le_chargesIn {epoch : Option ℚ}
    (hnonneg : ∀ e, ∀ charge ∈ Pacing.chargesIn (Pacing.ledger key (arrived.map Prod.snd)) e,
      0 ≤ charge.amount)
    (hone : ∀ x ∈ arrived, x.2.key = key → serverWindow phase duration x.1 = k →
      x.2.epoch = epoch) :
    admittedIn key phase duration k arrived ≤
      ((Pacing.chargesIn (Pacing.ledger key (arrived.map Prod.snd)) epoch).map
        Charge.amount).sum := by
  induction arrived with
  | nil => simp [admittedIn, Pacing.ledger, Pacing.chargesIn]
  | cons x arrived ih =>
    obtain ⟨hx, hrest⟩ := List.forall_mem_cons.1 hone
    have hsplit : admittedIn key phase duration k (x :: arrived) =
        (if x.2.key = key ∧ serverWindow phase duration x.1 = k then x.2.amount else 0) +
          admittedIn key phase duration k arrived := by
      simp [admittedIn]
    have hledger : Pacing.ledger key ((x :: arrived).map Prod.snd) =
        Pacing.ledger key [x.2] ++ Pacing.ledger key (arrived.map Prod.snd) := by
      rw [List.map_cons, ← Pacing.ledger_append]
      rfl
    rw [hledger] at hnonneg ⊢
    have hhead := amount_le_chargesIn (x := x) (fun charge hcharge => hnonneg epoch charge (by
      rw [Pacing.chargesIn_append]
      exact List.mem_append_left _ hcharge)) hx
    have hih := ih (fun e charge hcharge => hnonneg e charge (by
      rw [Pacing.chargesIn_append]
      exact List.mem_append_right _ hcharge)) hrest
    rw [hsplit, Pacing.chargesIn_append, List.map_append, List.sum_append]
    omega

/-! ## The steps -/

/-- What is true of every reachable state. -/
structure Served (key : RateLimitType × RateLimitInterval × ℤ) (phase : ℚ) (s : ServedPacing) :
    Prop where
  inv : Pacing.Inv key s.pacing
  logged : s.arrived.map Prod.snd = s.pacing.log
  fits : ∀ call ∈ s.pacing.calls, ∀ w ∈ s.pacing.windows, w.key = key → ∀ amount,
    w.charge? call.weight call.mutating = some amount → amount ≤ w.limit
  within : WithinServer key phase s

variable {s s' : ServedPacing} {weight : ℤ} {mutating : Bool} {bound : ℚ}

/-- The two windows have one rule. -/
structure SameRule (w w' : Window ℚ) : Prop where
  key : w'.key = w.key
  limit : w'.limit = w.limit
  duration : w'.duration = w.duration

theorem SameRule.charge? {w w' : Window ℚ} (h : SameRule w w') (weight : ℤ) (mutating : Bool) :
    w'.charge? weight mutating = w.charge? weight mutating := by
  have htype : w'.rateLimitType = w.rateLimitType := (Prod.mk.inj h.key).1
  unfold Window.charge?
  rw [htype]

/-- A pass leaves the rule of a window alone. -/
theorem sameRule_rolled {w w' : Window ℚ} (h : Limiter.Rolled weight mutating now bound w w') :
    SameRule w w' := by
  have hkey := h.key_eq
  rcases h with ⟨-, rfl⟩ | ⟨amount, -, hroll, -⟩
  · exact ⟨rfl, rfl, rfl⟩
  · obtain ⟨-, hlimit, hduration, -⟩ := Window.roll_cases hroll
    exact ⟨hkey, hlimit, hduration⟩

theorem sameRule_afterCharge (weight : ℤ) (mutating : Bool) {w w' : Window ℚ}
    (h : SameRule w w') : SameRule w (Pacing.afterCharge weight mutating w') := by
  unfold Pacing.afterCharge
  split <;> exact ⟨h.key, h.limit, h.duration⟩

/-- **The charge of a window**, on top of what the server's window has been charged. -/
theorem Served.charge (h : Served key phase s) {i : ℕ} {call : Acquire} {w w₁ : Window ℚ}
    (hcall : s.pacing.calls[i]? = some call) (hw : w ∈ s.pacing.windows) (hkey : w.key = key)
    (hrolled : Limiter.Rolled call.weight call.mutating now bound w w₁) (hbound : bound ≤ 0)
    (hone : ∀ w', w.roll now = .ok w' → ∀ x ∈ s.arrived, x.2.key = key →
      serverWindow phase w.duration x.1 = serverWindow phase w.duration now →
      x.2.epoch = w'.windowStart) (k : ℤ) :
    admittedIn key phase w.duration k s.arrived +
        (if serverWindow phase w.duration now = k then
          ((Pacing.admission i call.weight call.mutating w₁).toList.map BudgetEntry.amount).sum
        else 0) ≤ w.limit := by
  have hwithin := h.within w hw hkey k
  have hcharge := hrolled.charge?_eq
  unfold Pacing.admission
  rw [hcharge]
  rcases hrolled with ⟨hnone, -⟩ | ⟨amount, hsome, hroll, hwait⟩
  · simp [hnone, hwithin]
  · split
    · next hk =>
      subst hk
      have hbooks := (h.inv.books w hw hkey).roll hroll
      have hfits := h.fits call (List.mem_of_getElem? hcall) w hw hkey amount hsome
      have hroom := (Window.waitTime_le_zero_iff (h.inv.books w hw hkey).duration_pos hroll).1
        (hwait.trans hbound)
      have hlimit := (Window.roll_cases hroll).2.1
      have hnonneg := h.inv.kept.nonneg
      rw [← h.logged] at hbooks hnonneg
      have hsum := (admittedIn_le_chargesIn hnonneg (hone w₁ hroll)).trans hbooks.charged
      simp only [hsome, Option.map_some, Option.toList_some, List.map_cons, List.map_nil,
        List.sum_cons, List.sum_nil, BudgetEntry.amount]
      omega
    · next hk => simpa using hwithin

/-- Calls that fit the windows before a pass fit those after it. -/
theorem Served.fits_of_sameRule (h : Served key phase s) {windows : Limiter ℚ}
    (hrule : ∀ w' ∈ windows, ∃ w ∈ s.pacing.windows, SameRule w w') {call : Acquire}
    (hcall : ∃ c ∈ s.pacing.calls, c.weight = call.weight ∧ c.mutating = call.mutating) :
    ∀ w ∈ windows, w.key = key → ∀ amount,
      w.charge? call.weight call.mutating = some amount → amount ≤ w.limit := by
  intro w' hw' hkey amount hamount
  obtain ⟨w, hw, hsame⟩ := hrule w' hw'
  obtain ⟨c, hc, hweight, hmutating⟩ := hcall
  rw [hsame.charge?, ← hweight, ← hmutating] at hamount
  rw [hsame.limit]
  exact h.fits c hc w hw (hsame.key.symm.trans hkey) amount hamount

theorem Served.pass {i : ℕ} (h : Served key phase s) (hunsplit : s.Unsplit key phase (.pass i now))
    (hstep : s.step (.pass i now) = some s') : Served key phase s' := by
  rw [step] at hstep
  obtain ⟨pacing, hpacing, rfl⟩ := Option.map_eq_some_iff.1 hstep
  have hinv := h.inv.pass hpacing
  obtain ⟨call, wait, rolled, hcall, -, hroll, hcases⟩ := Pacing.step_pass hpacing
  have hfrom := (Limiter.exists_of_forall₂ (Limiter.rollAll_forall₂ hroll le_rfl)).1
  rcases hcases with ⟨hle, rfl⟩ | ⟨-, rfl⟩
  · have hroom := (Limiter.rollAll_longestWait hroll).hasRoom_iff.2 hle
    constructor
    case inv => exact hinv
    case logged => simp [h.logged, Function.comp_def]
    case fits =>
      intro c hc
      refine h.fits_of_sameRule ?_ ?_
      · intro w' hw'
        obtain ⟨w₁, hw₁, rfl⟩ := List.mem_map.1 hw'
        obtain ⟨w, hw, hrolled⟩ := hfrom w₁ hw₁
        exact ⟨w, hw, sameRule_afterCharge _ _ (sameRule_rolled hrolled)⟩
      · rcases List.mem_or_eq_of_mem_set hc with hc | rfl
        · exact ⟨c, hc, rfl, rfl⟩
        · exact ⟨call, List.mem_of_getElem? hcall, rfl, rfl⟩
    case within =>
      intro w' hw' hkey k
      obtain ⟨w₁, hw₁, rfl⟩ := List.mem_map.1 hw'
      obtain ⟨w, hw, hrolled⟩ := hfrom w₁ hw₁
      have hsame := sameRule_afterCharge call.weight call.mutating (sameRule_rolled hrolled)
      have hkey₁ : w.key = key := hsame.key.symm.trans hkey
      -- of what this pass has charged, one entry at most is of the window
      have hnew : Pacing.ledger key
          (rolled.filterMap (Pacing.admission i call.weight call.mutating)) =
            (Pacing.admission i call.weight call.mutating w₁).toList := by
        rw [← hkey₁, ← (sameRule_rolled hrolled).key]
        exact Pacing.ledger_filterMap (Limiter.rollAll_keys hroll ▸ h.inv.nodup)
          Pacing.admission_key hw₁
      have hcharge := h.charge (i := i) hcall hw hkey₁ hrolled hle
        (hunsplit call w · hcall hroom hw hkey₁) k
      change admittedIn key phase (Pacing.afterCharge _ _ w₁).duration k (_ ++ _) ≤
        (Pacing.afterCharge _ _ w₁).limit
      rw [hsame.limit, hsame.duration, List.drop_left, admittedIn_append, admittedIn_map, hnew]
      exact hcharge
  · have hrule : ∀ w' ∈ rolled, ∃ w ∈ s.pacing.windows, SameRule w w' := by
      intro w' hw'
      obtain ⟨w, hw, hrolled⟩ := hfrom w' hw'
      exact ⟨w, hw, sameRule_rolled hrolled⟩
    constructor
    case inv => exact hinv
    case logged => simp [h.logged]
    case fits =>
      intro c hc
      exact h.fits_of_sameRule hrule ⟨c, hc, rfl, rfl⟩
    case within =>
      intro w' hw' hkey k
      obtain ⟨w, hw, hsame⟩ := hrule w' hw'
      have hwithin := h.within w hw (hsame.key.symm.trans hkey) k
      rw [hsame.limit, hsame.duration]
      simpa using hwithin

theorem Served.step {l : PacingLabel} (h : Served key phase s) (hfits : s.Fits key l)
    (hunsplit : s.Unsplit key phase l) (hstep : s.step l = some s') : Served key phase s' := by
  cases l with
  | acquire weight mutating =>
    rw [ServedPacing.step] at hstep
    obtain ⟨pacing, hpacing, rfl⟩ := Option.map_eq_some_iff.1 hstep
    have hallowed : Pacing.Allowed key (.acquire weight mutating) := hfits.1
    have hinv := h.inv.step hallowed hpacing
    obtain rfl := Option.some.inj hpacing
    refine ⟨hinv, h.logged, ?_, h.within⟩
    intro call hcall
    rcases List.mem_append.1 hcall with hcall | hcall
    · exact h.fits call hcall
    · obtain rfl := List.mem_singleton.1 hcall
      exact hfits.2
  | pass i now => exact h.pass hunsplit hstep
  | headers now headers => cases hstep
  | reseed rateLimits => cases hstep

/-! ## The runs -/

/-- **The server's windows.** In every run of calls that fit, in which no server window is charged
in two windows of the client, each server window stays within the limit. -/
theorem run_withinServer {windows : List (Window ℚ)}
    (hrules : ∀ w ∈ windows, 0 < w.duration ∧ 0 < w.limit ∧ w.used = 0)
    {labels : List PacingLabel}
    (hlabels : (system windows).Guarded (fun s l => s.Fits key l ∧ s.Unsplit key phase l)
      (system windows).init labels)
    (hrun : (system windows).run (system windows).init labels = some s) :
    WithinServer key phase s := by
  have hinit : Served key phase (system windows).init := by
    refine ⟨Pacing.inv_init (fun w hw => (hrules w hw).1) (fun w hw => (hrules w hw).2.2.ge), rfl,
      ?_, ?_⟩
    · intro call hcall
      cases hcall
    · intro w hw _ k
      have hlimit := (hrules w (Limiter.mem_of_mem_ofWindows hw)).2.1
      change 0 ≤ w.limit
      omega
  refine (System.run_invariant ?_ labels hinit hlabels hrun).within
  intro s l s' hserved ⟨hfits, hunsplit⟩ hstep
  exact hserved.step hfits hunsplit hstep

/-- Two orders in ten seconds. -/
def twoOrders : Window ℚ := ⟨.orders, .second, 10, 2, 10, 0, none⟩

/-- An order at 0 and one at 9. -/
def apart : List PacingLabel :=
  [.acquire 1 true, .acquire 1 true, .pass 0 0, .pass 1 9]

theorem fits_twoOrders {s : ServedPacing} (h : s.pacing.windows = [twoOrders]) :
    s.Fits twoOrders.key (.acquire 1 true) := by
  refine ⟨by decide, fun w hw _ amount hamount => ?_⟩
  rw [h] at hw
  obtain rfl := List.mem_singleton.1 hw
  obtain rfl := Option.some.inj hamount
  decide

theorem run_withinServer_apart :
    ∃ s, (system [twoOrders]).run (system [twoOrders]).init apart = some s ∧
      s.arrived.length = 2 ∧ WithinServer twoOrders.key 0 s := by
  have hruns : ((system [twoOrders]).run (system [twoOrders]).init apart).map
      (fun s => s.arrived.length) = some 2 := by
    decide +kernel
  obtain ⟨s, hs, hlength⟩ := Option.map_eq_some_iff.1 hruns
  have hguarded : (system [twoOrders]).Guarded
      (fun s l => s.Fits twoOrders.key l ∧ s.Unsplit twoOrders.key 0 l)
      (system [twoOrders]).init apart := by
    refine System.guarded_cons ⟨fits_twoOrders rfl, trivial⟩ rfl <|
      System.guarded_cons ⟨fits_twoOrders rfl, trivial⟩ rfl <|
      System.guarded_cons ⟨trivial, ?_⟩ rfl ⟨⟨trivial, ?_⟩, fun _ _ => trivial⟩
    · intro call w w' _ _ _ _ _ x hx
      cases hx
    · -- at 9 the window of the first order is still open
      intro call w w' _ _ hw _ hroll x hx _ _
      obtain rfl := List.mem_singleton.1 hw
      obtain rfl := List.mem_singleton.1 hx
      have hopen : ({ twoOrders with used := 1, windowStart := some 0 } : Window ℚ).roll 9 =
          .ok { twoOrders with used := 1, windowStart := some 0 } := by
        have hbefore : ¬ (10 : ℚ) ≤ 9 - 0 := by norm_num
        exact if_neg hbefore
      obtain rfl := Except.ok.inj (hopen.symm.trans hroll)
      rfl
  exact ⟨s, hs, hlength, run_withinServer (by decide +kernel) hguarded hs⟩

/-- Orders at 0, 9, 10 and 10: the client's second window begins at 10. -/
def burst : List PacingLabel :=
  [.acquire 1 true, .acquire 1 true, .acquire 1 true, .acquire 1 true,
    .pass 0 0, .pass 1 9, .pass 2 10, .pass 3 10]

/-- A server window from 5 to 15 is charged three of the orders. -/
theorem not_run_withinServer_burst :
    ∃ s, (system [twoOrders]).run (system [twoOrders]).init burst = some s ∧
      admittedIn twoOrders.key 5 10 0 s.arrived = 3 ∧ ¬ WithinServer twoOrders.key 5 s := by
  have hruns : ((system [twoOrders]).run (system [twoOrders]).init burst).map (fun s =>
      (s.pacing.windows, admittedIn twoOrders.key 5 10 0 s.arrived)) =
      some ([{ twoOrders with used := 2, windowStart := some 10 }], 3) := by
    decide +kernel
  obtain ⟨s, hs, heq⟩ := Option.map_eq_some_iff.1 hruns
  obtain ⟨hwindows, hsum⟩ := Prod.mk.inj heq
  refine ⟨s, hs, hsum, fun hwithin => ?_⟩
  have hmem : ({ twoOrders with used := 2, windowStart := some 10 } : Window ℚ) ∈
      s.pacing.windows := by
    rw [hwindows]
    exact List.mem_singleton_self _
  have hle := hwithin _ hmem rfl 0
  change admittedIn twoOrders.key 5 10 0 s.arrived ≤ 2 at hle
  omega

end ServedPacing

end BinanceTh
