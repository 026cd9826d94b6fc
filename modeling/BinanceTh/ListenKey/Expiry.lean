import BinanceTh.ListenKey.Shutdown
import Mathlib.Tactic.Linarith

/-!
# The age of a key

The exchange forgets a listenKey some time after it has created or last extended it. The keepalive
loop sleeps, and sends a PUT for each key that was held when it woke up; meanwhile replies of
`create` replace the keys. Here the manager has a clock, and its sleep and its requests have longest
times. A held key that the exchange has extended whenever a PUT came is never older than one period
of the loop and three requests, and each PUT in a row that did not extend it adds a period
(`LeasedManager.run_age`). So it is alive as long as the exchange's time is longer than that
(`LeasedManager.run_alive`).
-/

namespace BinanceTh

open Transition

/-- The times, in seconds. -/
structure Lease where
  /-- The sleep of the keepalive loop, and how much longer it may take. -/
  interval : ℚ
  late : ℚ
  /-- The longest time of a request with its retries. -/
  latency : ℚ
  /-- How long a key lives after it was created or extended. -/
  validity : ℚ
  interval_nonneg : 0 ≤ interval := by norm_num
  late_nonneg : 0 ≤ late := by norm_num
  latency_nonneg : 0 ≤ latency := by norm_num

namespace Lease

/-- The longest time of the keepalive loop from one wake-up to the next, with two keys. -/
def period (lease : Lease) : ℚ := lease.interval + lease.late + 2 * lease.latency

/-- How old a key gets at most while this many PUTs in a row do not extend it. -/
def age (lease : Lease) (missed : ℕ) : ℚ := 3 * lease.latency + (missed + 1) * lease.period

end Lease

/-- The manager, its clock, and what the exchange has done. -/
structure LeasedManager where
  base : ClosableManager
  now : ℚ
  /-- When the sleep or the PUT of the keepalive loop has begun. -/
  since : ℚ
  /-- When the keepalive loop last woke up. -/
  woke : ℚ
  /-- The key of the PUT in progress, as long as the exchange has not extended it. -/
  due : Option String
  /-- When the exchange last created or extended a key. -/
  renewed : String → ℚ
  /-- The PUTs for a key since then that are over. -/
  missed : String → ℕ

inductive LeasedManagerLabel where
  /-- Time passes. -/
  | pass (t : ℚ)
  /-- A step of the manager. If it stores a reply, the keys were created at `created`. -/
  | manager (l : ClosableManagerLabel) (created : ℚ)
  /-- The exchange extends the key of the PUT in progress. -/
  | extend

namespace LeasedManager

def new : LeasedManager := ⟨.new, 0, 0, 0, none, fun _ => 0, fun _ => 0⟩

/-- When the sleep or the PUT of the keepalive loop is over at the latest. -/
def deadline (lease : Lease) (s : LeasedManager) : Option ℚ :=
  match s.base.keepalive with
  | .sleeping => some (s.since + lease.interval + lease.late)
  | .extending _ => some (s.since + lease.latency)
  | _ => none

/-- The exchange has created or extended these keys. -/
def renew (s : LeasedManager) (keys : List String) (t : ℚ) : LeasedManager :=
  { s with
    renewed := fun key => if key ∈ keys then max (s.renewed key) t else s.renewed key
    missed := fun key => if key ∈ keys then 0 else s.missed key }

/-- A PUT is over. -/
def miss (s : LeasedManager) : LeasedManager :=
  { s with missed := fun key => if s.due = some key then s.missed key + 1 else s.missed key }

/-- The keepalive loop wakes up, and sends a PUT for its first key. -/
def wakeUp (s : LeasedManager) (base : ClosableManager) : LeasedManager :=
  { s with base, since := s.now, woke := s.now, due := s.base.held.head? }

/-- The keepalive loop goes on to its next key or to its sleep. -/
def goOn (s : LeasedManager) (rest : List String) (base : ClosableManager) : LeasedManager :=
  { s.miss with base, since := s.now, due := rest.head? }

/-- A reply is stored; the first one starts the keepalive loop. -/
def store (s : LeasedManager) (keys : ListenKeys) (created : ℚ) (base : ClosableManager) :
    LeasedManager :=
  { s.renew keys.values created with
    base
    since := if s.base.keepalive = .absent then s.now else s.since }

def stores : ClosableManagerLabel → Option ListenKeys
  | .manager l => l.stores
  | _ => none

/-- After a step of the manager. -/
def follow (s : LeasedManager) (created : ℚ) (base : ClosableManager) (l : ClosableManagerLabel) :
    LeasedManager :=
  match l, s.base.keepalive, stores l with
  | .slept, _, _ => s.wakeUp base
  | .extended, .extending rest, _ => s.goOn rest base
  | _, _, some keys => s.store keys created base
  | _, _, none => { s with base }

def step (lease : Lease) (apiKey : Option String) (s : LeasedManager) :
    LeasedManagerLabel → Option LeasedManager
  | .pass t =>
    if s.now ≤ t ∧ ∀ d ∈ s.deadline lease, t ≤ d then some { s with now := t } else none
  | .manager l created =>
    if (stores l).isSome → created ≤ s.now ∧ s.now ≤ created + lease.latency then
      (s.base.step apiKey l).map fun base => s.follow created base l
    else none
  | .extend =>
    match s.due with
    | some key =>
      if s.now < s.renewed key + lease.validity then some { s.renew [key] s.now with due := none }
      else none
    | none => none

def system (lease : Lease) (apiKey : Option String) : System LeasedManager LeasedManagerLabel where
  init := new
  step s l := s.step lease apiKey l

/-- The exchange still knows the key. -/
def Alive (lease : Lease) (s : LeasedManager) (key : String) : Prop :=
  s.now < s.renewed key + lease.validity

/-- The keys that the exchange has not extended since the loop woke up, and is to be asked for. -/
def pending (s : LeasedManager) (rest : List String) : List String := s.due.toList ++ rest

/-- How old the keys are where the keepalive loop stands. -/
inductive Stage (lease : Lease) (s : LeasedManager) : Prop where
  /-- No key was stored yet. -/
  | absent : s.base.keepalive = .absent → s.due = none → s.base.held = [] → Stage lease s
  | sleeping : s.base.keepalive = .sleeping → s.due = none → s.since ≤ s.now →
      s.now ≤ s.since + lease.interval + lease.late →
      (∀ key ∈ s.base.held,
        s.since ≤ s.renewed key + (3 * lease.latency + s.missed key * lease.period)) →
      Stage lease s
  | extending (rest : List String) : s.base.keepalive = .extending rest → s.woke ≤ s.since →
      s.since ≤ s.now → s.now ≤ s.since + lease.latency →
      s.since + (rest.length + 1) * lease.latency ≤ s.woke + 2 * lease.latency →
      (∀ key ∈ s.base.held, s.woke ≤ s.renewed key + (lease.latency + s.missed key * lease.period) +
        if key ∈ s.pending rest then lease.period else 0) →
      Stage lease s

variable {lease : Lease} {apiKey : Option String} {s s' : LeasedManager} {l : LeasedManagerLabel}
  {ls : List LeasedManagerLabel} {key : String}

theorem period_nonneg : 0 ≤ lease.period := by
  unfold Lease.period
  linarith [lease.interval_nonneg, lease.late_nonneg, lease.latency_nonneg]

theorem owed_nonneg {p : Prop} [Decidable p] : 0 ≤ if p then lease.period else 0 := by
  split
  · exact period_nonneg
  · exact le_rfl

theorem owed_le {p : Prop} [Decidable p] : (if p then lease.period else 0) ≤ lease.period := by
  split
  · exact le_rfl
  · exact period_nonneg

theorem Stage.of_sleeping (h : s.Stage lease) (hsleeping : s.base.keepalive = .sleeping) :
    s.now ≤ s.since + lease.interval + lease.late ∧ ∀ key ∈ s.base.held,
      s.since ≤ s.renewed key + (3 * lease.latency + s.missed key * lease.period) := by
  cases h with
  | sleeping _ _ _ hnow hage => exact ⟨hnow, hage⟩
  | absent heq | extending _ heq =>
    rw [heq] at hsleeping
    cases hsleeping

theorem Stage.of_extending {rest : List String} (h : s.Stage lease)
    (hextending : s.base.keepalive = .extending rest) :
    s.woke ≤ s.since ∧ s.since ≤ s.now ∧ s.now ≤ s.since + lease.latency ∧
      s.since + (rest.length + 1) * lease.latency ≤ s.woke + 2 * lease.latency ∧
      ∀ key ∈ s.base.held, s.woke ≤ s.renewed key +
        (lease.latency + s.missed key * lease.period) +
          if key ∈ s.pending rest then lease.period else 0 := by
  cases h with
  | extending rest' heq hwoke hsince hnow hrest hage =>
    obtain rfl : rest' = rest := Keepalive.extending.inj (heq.symm.trans hextending)
    exact ⟨hwoke, hsince, hnow, hrest, hage⟩
  | absent heq | sleeping heq =>
    rw [heq] at hextending
    cases hextending

/-- Only a PUT in progress has a key to extend. -/
theorem Stage.extending_of_due (h : s.Stage lease) (hdue : s.due = some key) :
    ∃ rest, s.base.keepalive = .extending rest := by
  cases h with
  | extending rest heq => exact ⟨rest, heq⟩
  | absent _ hnone | sleeping _ hnone =>
    rw [hnone] at hdue
    cases hdue

theorem Stage.age_le (h : s.Stage lease) (hkey : key ∈ s.base.held) :
    s.now ≤ s.renewed key + lease.age (s.missed key) := by
  have hlatency : 0 ≤ lease.latency := lease.latency_nonneg
  have hperiod : lease.period = lease.interval + lease.late + 2 * lease.latency := rfl
  unfold Lease.age
  cases h with
  | absent _ _ hheld =>
    rw [hheld] at hkey
    cases hkey
  | sleeping _ _ _ hnow hage =>
    have hkeyage := hage key hkey
    linarith
  | extending rest _ _ _ hnow hsince hage =>
    have hkeyage := hage key hkey
    have hrest : 0 ≤ (rest.length : ℚ) * lease.latency :=
      mul_nonneg rest.length.cast_nonneg hlatency
    have hpending : (if key ∈ s.pending rest then lease.period else 0) ≤ lease.period := owed_le
    linarith

/-! ## The steps -/

theorem Stage.pass {t : ℚ} (h : s.Stage lease) (hle : s.now ≤ t)
    (hdeadline : ∀ d ∈ s.deadline lease, t ≤ d) : Stage lease { s with now := t } := by
  cases h with
  | absent hkeepalive hdue hheld => exact .absent hkeepalive hdue hheld
  | sleeping hkeepalive hdue hsince _ hage =>
    refine .sleeping hkeepalive hdue (hsince.trans hle) (hdeadline _ ?_) hage
    rw [deadline, hkeepalive]
    rfl
  | extending rest hkeepalive hwoke hsince _ hrest hage =>
    refine .extending rest hkeepalive hwoke (hsince.trans hle) (hdeadline _ ?_) hrest hage
    rw [deadline, hkeepalive]
    rfl

/-- A key that was created or extended is as old as that. -/
theorem renewed_renew {keys : List String} {t : ℚ} (hkey : key ∈ keys) :
    t ≤ (s.renew keys t).renewed key ∧ (s.renew keys t).missed key = 0 :=
  ⟨(le_max_right _ _).trans (if_pos hkey).ge, if_pos hkey⟩

theorem renew_of_not_mem {keys : List String} {t : ℚ} (hkey : key ∉ keys) :
    (s.renew keys t).renewed key = s.renewed key ∧ (s.renew keys t).missed key = s.missed key :=
  ⟨if_neg hkey, if_neg hkey⟩

theorem Stage.extend (h : s.Stage lease) (hdue : s.due = some key) :
    Stage lease { s.renew [key] s.now with due := none } := by
  obtain ⟨rest, hextending⟩ := h.extending_of_due hdue
  obtain ⟨hwoke, hsince, hnow, hrest, hage⟩ := h.of_extending hextending
  refine .extending rest hextending hwoke hsince hnow hrest fun key' hkey' => ?_
  have hlatency : 0 ≤ lease.latency := lease.latency_nonneg
  have hpending : pending { s.renew [key] s.now with due := none } rest = rest := rfl
  rw [hpending]
  change s.woke ≤ (s.renew [key] s.now).renewed key' +
    (lease.latency + (s.renew [key] s.now).missed key' * lease.period) + _
  by_cases heq : key' ∈ [key]
  · obtain ⟨hrenewed, hmissed⟩ := renewed_renew (s := s) (t := s.now) heq
    have hextra : 0 ≤ if key' ∈ rest then lease.period else 0 := owed_nonneg
    rw [hmissed]
    push_cast
    linarith
  · obtain ⟨hrenewed, hmissed⟩ := renew_of_not_mem (s := s) (t := s.now) heq
    have hkeyage := hage key' hkey'
    have hmem : key' ∈ s.pending rest ↔ key' ∈ rest := by
      unfold pending
      rw [hdue, Option.toList_some, List.mem_append, or_iff_right heq]
    rw [if_congr hmem rfl rfl] at hkeyage
    rwa [hrenewed, hmissed]

theorem length_held_le (s : ClosableManager) : s.held.length ≤ 2 :=
  List.length_filterMap_le _ [SymbolType.global, SymbolType.site]

/-- The keepalive loop wakes up. -/
theorem Stage.slept (h : s.Stage lease) (hsleeping : s.base.keepalive = .sleeping)
    (hopen : s.base.closing = false) :
    Stage lease (s.wakeUp (s.base.extend s.base.held)) := by
  have hlatency : 0 ≤ lease.latency := lease.latency_nonneg
  have hperiod : lease.period = lease.interval + lease.late + 2 * lease.latency := rfl
  have hlength : s.base.held.length ≤ 2 := length_held_le s.base
  obtain ⟨hnow, hage⟩ := h.of_sleeping hsleeping
  unfold wakeUp ClosableManager.extend
  cases hkeys : s.base.held with
  | nil =>
    refine .sleeping (by simp [hopen]) rfl le_rfl ?_ fun key hkey => ?_
    · change s.now ≤ s.now + lease.interval + lease.late
      linarith [lease.interval_nonneg, lease.late_nonneg]
    · have hkey : key ∈ s.base.held := hkey
      rw [hkeys] at hkey
      cases hkey
  | cons first rest =>
    refine .extending rest rfl le_rfl le_rfl ?_ ?_ fun key hkey => ?_
    · change s.now ≤ s.now + lease.latency
      linarith
    · change s.now + (rest.length + 1) * lease.latency ≤ s.now + 2 * lease.latency
      rw [hkeys, List.length_cons] at hlength
      have hlength : (rest.length : ℚ) + 1 ≤ 2 := by exact_mod_cast hlength
      linarith [mul_le_mul_of_nonneg_right hlength hlatency]
    · have hkey : key ∈ s.base.held := hkey
      have hkeyage := hage key hkey
      change s.now ≤ s.renewed key + (lease.latency + s.missed key * lease.period) +
        if key ∈ first :: rest then lease.period else 0
      rw [if_pos (hkeys ▸ hkey)]
      linarith

/-- The keys after a PUT: one that has not extended its key makes up for the period of a key that
was to come. -/
theorem owed_after_put {rest : List String} (hage : s.woke ≤ s.renewed key +
      (lease.latency + s.missed key * lease.period) +
        if key ∈ s.pending rest then lease.period else 0) :
    s.woke ≤ s.renewed key + (lease.latency + s.miss.missed key * lease.period) +
      if key ∈ rest then lease.period else 0 := by
  have hextra : 0 ≤ if key ∈ rest then lease.period else 0 := owed_nonneg
  by_cases hdue : s.due = some key
  · have hcount : s.miss.missed key = s.missed key + 1 := if_pos hdue
    have hpending : key ∈ s.pending rest := by
      unfold pending
      rw [hdue]
      exact List.mem_append_left _ (List.mem_singleton_self key)
    rw [if_pos hpending] at hage
    rw [hcount]
    push_cast
    linarith
  · have hcount : s.miss.missed key = s.missed key := if_neg hdue
    have hmem : key ∈ s.pending rest ↔ key ∈ rest := by
      unfold pending
      rw [List.mem_append, Option.mem_toList, or_iff_right hdue]
    rw [if_congr hmem rfl rfl] at hage
    rwa [hcount]

/-- A PUT is over. -/
theorem Stage.extended {rest : List String} (h : s.Stage lease)
    (hextending : s.base.keepalive = .extending rest) (hopen : s.base.closing = false) :
    Stage lease (s.goOn rest (s.base.extend rest)) := by
  have hlatency : 0 ≤ lease.latency := lease.latency_nonneg
  obtain ⟨hwoke, hsince, hnow, hrest, hage⟩ := h.of_extending hextending
  have hmissed (key : String) (hkey : key ∈ s.base.held) : s.woke ≤ s.renewed key +
      (lease.latency + s.miss.missed key * lease.period) +
        if key ∈ rest then lease.period else 0 := owed_after_put (hage key hkey)
  unfold goOn ClosableManager.extend
  cases rest with
  | nil =>
    refine .sleeping (by simp [hopen]) rfl le_rfl ?_ fun key hkey => ?_
    · change s.now ≤ s.now + lease.interval + lease.late
      linarith [lease.interval_nonneg, lease.late_nonneg]
    · have hkeyage := hmissed key hkey
      rw [if_neg List.not_mem_nil] at hkeyage
      change s.now ≤ s.renewed key + (3 * lease.latency + s.miss.missed key * lease.period)
      rw [List.length_nil, Nat.cast_zero] at hrest
      linarith
  | cons next rest =>
    rw [List.length_cons] at hrest
    push_cast at hrest
    refine .extending rest rfl (hwoke.trans hsince) le_rfl ?_ ?_ fun key hkey => hmissed key hkey
    · change s.now ≤ s.now + lease.latency
      linarith
    · change s.now + (rest.length + 1) * lease.latency ≤ s.woke + 2 * lease.latency
      linarith

/-- A reply is stored. -/
theorem Stage.stored {created : ℚ} {keys : ListenKeys} {m : ListenKeyManager} (h : s.Stage lease)
    (hkeys : m.keys = keys) (hopen : s.base.closing = false)
    (hcreated : s.now ≤ created + lease.latency) :
    Stage lease (s.store keys created (s.base.follow m (some keys))) := by
  have hlatency : 0 ≤ lease.latency := lease.latency_nonneg
  have hnew (key : String) (hkey : key ∈ m.keys.values) :
      s.now ≤ (s.renew keys.values created).renewed key + lease.latency ∧
        (s.renew keys.values created).missed key = 0 := by
    obtain ⟨hrenewed, hmissed⟩ := renewed_renew (s := s) (t := created) (hkeys ▸ hkey)
    exact ⟨by linarith, hmissed⟩
  cases h with
  | absent habsent hdue _ =>
    unfold store ClosableManager.follow
    rw [habsent, hopen]
    refine .sleeping rfl hdue le_rfl ?_ fun key hkey => ?_
    · change s.now ≤ s.now + lease.interval + lease.late
      linarith [lease.interval_nonneg, lease.late_nonneg]
    · obtain ⟨hrenewed, hmissed⟩ := hnew key hkey
      change s.now ≤ (s.renew keys.values created).renewed key + (3 * lease.latency +
        (s.renew keys.values created).missed key * lease.period)
      rw [hmissed, Nat.cast_zero]
      linarith
  | sleeping hsleeping hdue hsince hnow _ =>
    unfold store ClosableManager.follow
    rw [hsleeping]
    refine .sleeping rfl hdue hsince hnow fun key hkey => ?_
    obtain ⟨hrenewed, hmissed⟩ := hnew key hkey
    change s.since ≤ (s.renew keys.values created).renewed key + (3 * lease.latency +
      (s.renew keys.values created).missed key * lease.period)
    rw [hmissed, Nat.cast_zero]
    linarith
  | extending rest hextending hwoke hsince hnow hrest _ =>
    unfold store ClosableManager.follow
    rw [hextending]
    refine .extending rest rfl hwoke hsince hnow hrest fun key hkey => ?_
    obtain ⟨hrenewed, hmissed⟩ := hnew key hkey
    have hextra : 0 ≤ if key ∈ s.pending rest then lease.period else 0 := owed_nonneg
    change s.woke ≤ (s.renew keys.values created).renewed key + (lease.latency +
      (s.renew keys.values created).missed key * lease.period) +
        if key ∈ s.pending rest then lease.period else 0
    rw [hmissed, Nat.cast_zero]
    linarith

/-- A step that leaves the keys and the keepalive loop alone. -/
theorem Stage.unchanged {base : ClosableManager} (h : s.Stage lease)
    (hkeys : base.manager.keys = s.base.manager.keys)
    (hkeepalive : base.keepalive = s.base.keepalive) : Stage lease { s with base } := by
  have hheld : base.held = s.base.held := congrArg ListenKeys.values hkeys
  cases h with
  | absent habsent hdue hnil => exact .absent (hkeepalive.trans habsent) hdue (hheld.trans hnil)
  | sleeping hsleeping hdue hsince hnow hage =>
    exact .sleeping (hkeepalive.trans hsleeping) hdue hsince hnow fun key hkey =>
      hage key (hheld ▸ hkey)
  | extending rest hextending hwoke hsince hnow hrest hage =>
    exact .extending rest (hkeepalive.trans hextending) hwoke hsince hnow hrest fun key hkey =>
      hage key (hheld ▸ hkey)

/-- A DELETE is submitted, or there is none to submit. -/
theorem delete_eq (base : ClosableManager) (keys : List String) :
    ∃ deleted, (base.delete keys).1 = { base with deleted } := by
  cases keys with
  | nil => exact ⟨base.deleted, rfl⟩
  | cons key rest => exact ⟨base.deleted ++ [key], rfl⟩

theorem closing_take (base : ClosableManager) : base.take.1.closing = base.closing := by
  unfold ClosableManager.take
  obtain ⟨deleted, hdelete⟩ := delete_eq { base with manager.keys := fun _ => none } base.held
  rw [hdelete]

theorem closing_close (base : ClosableManager) : base.close.closing = true := by
  change base.enter.1.closing = true
  unfold ClosableManager.enter
  dsimp only
  split
  · rfl
  · rfl
  · rw [closing_take]

theorem Stage.keepalive_ne (h : s.Stage lease) :
    s.base.keepalive ≠ .cancelled ∧ s.base.keepalive ≠ .ended := by
  cases h with
  | absent heq | sleeping heq | extending _ heq => simp [heq]

/-- What the invariant says: until the manager is closed, no key is too old. -/
def Inv (lease : Lease) (s : LeasedManager) : Prop := s.base.closing = false → s.Stage lease

/-- A caller of `create` goes on, and may store a reply. -/
theorem inv_create {base : ClosableManager} {l : ListenKeyLabel} {created : ℚ} (h : s.Inv lease)
    (hcreated : l.stores.isSome → s.now ≤ created + lease.latency)
    (hstep : s.base.step apiKey (.manager l) = some base) :
    (s.follow created base (.manager l)).Inv lease := by
  obtain ⟨m, hm, rfl⟩ := Option.map_eq_some_iff.1 hstep
  have hkeys := ListenKeyManager.keys_step hm
  unfold follow
  dsimp only [stores]
  cases hstores : l.stores with
  | none =>
    rw [hstores] at hkeys
    exact fun hopen => (h hopen).unchanged hkeys rfl
  | some keys =>
    rw [hstores] at hkeys
    refine fun hopen => (h hopen).stored hkeys hopen (hcreated ?_)
    simp [hstores]

/-- The sleep of the keepalive loop is over. -/
theorem inv_slept {base : ClosableManager} {created : ℚ} (h : s.Inv lease)
    (hstep : s.base.step apiKey .slept = some base) : (s.follow created base .slept).Inv lease := by
  obtain ⟨hsleeping, hstep⟩ := Option.ite_none_right_eq_some.1 hstep
  obtain rfl := Option.some.inj hstep
  change (s.wakeUp _).Inv lease
  split
  · next hclosing => exact fun hopen => Bool.noConfusion (hclosing.symm.trans hopen)
  · next hclosing =>
    have hopen : s.base.closing = false := Bool.eq_false_of_not_eq_true hclosing
    exact fun _ => (h hopen).slept hsleeping hopen

/-- A PUT of the keepalive loop is over. -/
theorem inv_extended {base : ClosableManager} {created : ℚ} (h : s.Inv lease)
    (hstep : s.base.step apiKey .extended = some base) :
    (s.follow created base .extended).Inv lease := by
  simp only [ClosableManager.step] at hstep
  split at hstep
  · next rest hextending =>
    obtain rfl := Option.some.inj hstep
    have hfollow : s.follow created (s.base.extend rest) .extended =
        s.goOn rest (s.base.extend rest) := by
      unfold follow
      rw [hextending]
    rw [hfollow]
    intro hclosed
    have hopen : s.base.closing = false := by
      obtain ⟨keepalive, -, heq⟩ := s.base.extend_eq rest
      have hclosed : (s.base.extend rest).closing = false := hclosed
      rwa [heq] at hclosed
    exact (h hopen).extended hextending hopen
  · cases hstep

theorem inv_deleted {base : ClosableManager} {i : ℕ} {created : ℚ} (h : s.Inv lease)
    (hstep : s.base.step apiKey (.deleted i) = some base) :
    (s.follow created base (.deleted i)).Inv lease := by
  simp only [ClosableManager.step] at hstep
  split at hstep
  · next rest hi =>
    obtain rfl := Option.some.inj hstep
    obtain ⟨deleted, hdelete⟩ := delete_eq s.base rest
    have hkeys : (s.base.delete rest).1.manager.keys = s.base.manager.keys := by rw [hdelete]
    have hkeepalive : (s.base.delete rest).1.keepalive = s.base.keepalive := by rw [hdelete]
    intro hopen
    have hopen : (s.base.delete rest).1.closing = false := hopen
    rw [hdelete] at hopen
    exact (h hopen).unchanged hkeys hkeepalive
  · cases hstep

theorem inv_manager {base : ClosableManager} {l : ClosableManagerLabel} {created : ℚ}
    (h : s.Inv lease) (hcreated : (stores l).isSome → s.now ≤ created + lease.latency)
    (hstep : s.base.step apiKey l = some base) : (s.follow created base l).Inv lease := by
  cases l with
  | manager l => exact inv_create h hcreated hstep
  | slept => exact inv_slept h hstep
  | extended => exact inv_extended h hstep
  | keepaliveEnded =>
    obtain ⟨hcancelled, hstep⟩ := Option.ite_none_right_eq_some.1 hstep
    obtain rfl := Option.some.inj hstep
    exact fun hopen => absurd hcancelled (h hopen).keepalive_ne.1
  | close =>
    obtain rfl := Option.some.inj hstep
    intro hopen
    have hclosing : s.base.close.closing = true := closing_close s.base
    exact Bool.noConfusion (hclosing.symm.trans hopen)
  | joined i =>
    obtain ⟨⟨-, hended⟩, hstep⟩ := Option.ite_none_right_eq_some.1 hstep
    obtain rfl := Option.some.inj hstep
    intro hopen
    have hopen : s.base.take.1.closing = false := hopen
    rw [closing_take] at hopen
    exact absurd hended (h hopen).keepalive_ne.2
  | deleted i => exact inv_deleted h hstep

/-- **One step.** -/
theorem inv_step (h : s.Inv lease) (hstep : s.step lease apiKey l = some s') : s'.Inv lease := by
  cases l with
  | pass t =>
    obtain ⟨⟨hle, hdeadline⟩, hstep⟩ := Option.ite_none_right_eq_some.1 hstep
    obtain rfl := Option.some.inj hstep
    exact fun hopen => (h hopen).pass hle hdeadline
  | manager l created =>
    obtain ⟨hcreated, hstep⟩ := Option.ite_none_right_eq_some.1 hstep
    obtain ⟨base, hbase, rfl⟩ := Option.map_eq_some_iff.1 hstep
    exact inv_manager h (fun hstores => (hcreated hstores).2) hbase
  | extend =>
    simp only [step] at hstep
    split at hstep
    · next key hdue =>
      obtain ⟨-, hstep⟩ := Option.ite_none_right_eq_some.1 hstep
      obtain rfl := Option.some.inj hstep
      exact fun hopen => (h hopen).extend hdue
    · cases hstep

/-- **The age of a held key**, in every run: one period and three requests, and a period more for
each PUT in a row that did not extend it. -/
theorem run_age (hrun : (system lease apiKey).run new ls = some s) (hopen : s.base.closing = false)
    (hkey : key ∈ s.base.held) : s.now ≤ s.renewed key + lease.age (s.missed key) := by
  have hinv : s.Inv lease := by
    refine System.run_invariant (M := system lease apiKey) (C := fun _ _ => True) ?_ ls ?_
      (System.guarded_of_forall ls (fun _ _ => trivial) _) hrun
    · exact fun s l s' h _ hstep => inv_step h hstep
    · exact fun _ => .absent rfl rfl rfl
  exact (hinv hopen).age_le hkey

/-- **A held key is alive** in every run, if the exchange keeps keys for longer than its age. -/
theorem run_alive (hrun : (system lease apiKey).run new ls = some s)
    (hopen : s.base.closing = false) (hkey : key ∈ s.base.held) :
    s.now ≤ s.renewed key + lease.age (s.missed key) ∧
      (lease.age (s.missed key) < lease.validity → s.Alive lease key) := by
  have hage := run_age hrun hopen hkey
  exact ⟨hage, fun hvalid => lt_of_le_of_lt hage (by linarith)⟩

/-- The default interval, and half an hour. -/
def halfHour : Lease where
  interval := 1200
  late := 0
  latency := 10
  validity := 1800

/-- Each key is asked for once; only the first one is extended. -/
def oneExtended : List LeasedManagerLabel :=
  [.manager (.manager .create) 0, .manager (.manager (.begin 0)) 0, .pass 10,
    .manager (.manager (.reply 0 ListenKeyManager.listenKeyReply)) 0, .pass 1210, .manager .slept 0,
    .extend, .pass 1220, .manager .extended 0, .pass 1230, .manager .extended 0, .pass 2430]

/-- At the end the first key is alive, and the other one is not: one PUT that does not extend it is
one too many. -/
theorem run_alive_oneExtended :
    ∃ s, (system halfHour (some "key")).run new oneExtended = some s ∧
      s.now ≤ s.renewed "site-key" + halfHour.age 1 ∧ s.Alive halfHour "global-key" ∧
      s.missed "site-key" = 1 ∧ ¬ s.Alive halfHour "site-key" := by
  have hany : ((system halfHour (some "key")).run new oneExtended).any (fun s =>
      s.base.closing = false ∧ "global-key" ∈ s.base.held ∧ "site-key" ∈ s.base.held ∧
        halfHour.age (s.missed "global-key") < halfHour.validity ∧ s.missed "site-key" = 1 ∧
        s.renewed "site-key" + halfHour.validity ≤ s.now) = true := by
    decide +kernel
  obtain ⟨s, hrun, hend⟩ := (Option.any_eq_true _ _).1 hany
  obtain ⟨hopen, hkey, hother, hvalid, hmissed, hexpired⟩ := of_decide_eq_true hend
  have hage := (run_alive hrun hopen hother).1
  rw [hmissed] at hage
  exact ⟨s, hrun, hage, (run_alive hrun hopen hkey).2 hvalid, hmissed, not_lt.2 hexpired⟩

end LeasedManager

end BinanceTh
