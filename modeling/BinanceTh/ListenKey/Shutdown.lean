import BinanceTh.ListenKey

/-!
# The end of the listenKey manager

`close` of `RestListenKeyManager` and its keepalive loop, beside the calls of `create`. A call of
`close` sets `_closing`, awaits the cancelled keepalive task, takes the keys and submits a DELETE for
each. What `_do_create` stores after that, it keeps; and a key that a reply replaces while `close`
waits is not deleted. Without such a store, and without two calls of `close` at a time, nothing is
left once `close` has returned (`ClosableManager.run_closed`).
-/

namespace BinanceTh

open Tasks Transition Pydantic

/-- `_keepalive_task`. It leaves its slot when it is cancelled, and none follows it. -/
inductive Keepalive where
  /-- None was made. -/
  | absent
  | sleeping
  /-- In the PUT of a key; `rest` are the keys still to come. -/
  | extending (rest : List String)
  | cancelled
  | ended
  deriving DecidableEq

def Keepalive.running : Keepalive → Bool
  | .absent | .ended => false
  | _ => true

/-- Where a call of `close` stands. -/
inductive ClosePhase where
  /-- It awaits the cancelled keepalive task. -/
  | awaiting
  /-- In the DELETE of a key; `rest` are the keys still to come. -/
  | deleting (rest : List String)
  | returned
  deriving DecidableEq

/-- The keys that a call has taken and not submitted. -/
def ClosePhase.rest : ClosePhase → List String
  | .deleting rest => rest
  | _ => []

/-- A call that has submitted all it will. -/
def ClosePhase.submitted : ClosePhase → Bool
  | .awaiting => false
  | .deleting rest => rest.isEmpty
  | .returned => true

structure ClosableManager where
  manager : ListenKeyManager
  closing : Bool
  keepalive : Keepalive
  closes : List ClosePhase
  /-- The keys that a DELETE was submitted for. -/
  deleted : List String
  /-- Every key that was current at the first call of `close` or later. -/
  seen : List String

inductive ClosableManagerLabel where
  | manager (l : ListenKeyLabel)
  /-- The keepalive loop's sleep is over. -/
  | slept
  /-- A PUT of the keepalive loop is over. -/
  | extended
  /-- The keepalive task gets its `CancelledError`. -/
  | keepaliveEnded
  | close
  /-- The `i`-th call of `close`: the keepalive task has ended. -/
  | joined (i : ℕ)
  /-- The `i`-th call of `close`: a DELETE is over. -/
  | deleted (i : ℕ)

namespace ClosableManager

def new : ClosableManager := ⟨.new, false, .absent, [], [], []⟩

/-- The current keys, which `keepalive` sends a PUT for. -/
def held (s : ClosableManager) : List String := s.manager.keys.values

/-- After a step of `create` or `_do_create`; a stored reply starts the keepalive loop. -/
def follow (s : ClosableManager) (manager : ListenKeyManager) :
    Option ListenKeys → ClosableManager
  | none => { s with manager }
  | some keys =>
    { s with
      manager
      keepalive := if s.keepalive = .absent && !s.closing then .sleeping else s.keepalive
      seen := if s.closing then s.seen ++ keys.values else s.seen }

/-- The rest of `keepalive`, and the top of the loop. -/
def extend (s : ClosableManager) (keys : List String) : ClosableManager :=
  match keys with
  | [] => { s with keepalive := if s.closing then .ended else .sleeping }
  | _ :: rest => { s with keepalive := .extending rest }

/-- The rest of `close`, with these keys to delete. -/
def delete (s : ClosableManager) (keys : List String) : ClosableManager × ClosePhase :=
  match keys with
  | [] => (s, .returned)
  | key :: rest => ({ s with deleted := s.deleted ++ [key] }, .deleting rest)

/-- `close` after the await of the keepalive task. -/
def take (s : ClosableManager) : ClosableManager × ClosePhase :=
  delete { s with manager.keys := fun _ => none } s.held

/-- `close` up to its first await. -/
def enter (s : ClosableManager) : ClosableManager × ClosePhase :=
  let s' := { s with closing := true, seen := if s.closing then s.seen else s.held }
  match s.keepalive with
  | .sleeping | .extending _ => ({ s' with keepalive := .cancelled }, .awaiting)
  | _ => s'.take

def close (s : ClosableManager) : ClosableManager :=
  { s.enter.1 with closes := s.closes ++ [s.enter.2] }

/-- A call of `close` that goes on. -/
def resume (s : ClosableManager) (i : ℕ) (next : ClosableManager × ClosePhase) : ClosableManager :=
  { next.1 with closes := s.closes.set i next.2 }

def step (apiKey : Option String) (s : ClosableManager) :
    ClosableManagerLabel → Option ClosableManager
  | .manager l => (s.manager.step apiKey l).map fun manager => s.follow manager l.stores
  | .slept =>
    if s.keepalive = .sleeping then
      some (if s.closing then { s with keepalive := .ended } else s.extend s.held)
    else none
  | .extended =>
    match s.keepalive with
    | .extending rest => some (s.extend rest)
    | _ => none
  | .keepaliveEnded =>
    if s.keepalive = .cancelled then some { s with keepalive := .ended } else none
  | .close => some s.close
  | .joined i =>
    if s.closes[i]? = some .awaiting ∧ s.keepalive = .ended then some (s.resume i s.take) else none
  | .deleted i =>
    match s.closes[i]? with
    | some (.deleting rest) => some (s.resume i (s.delete rest))
    | _ => none

def system (apiKey : Option String) : System ClosableManager ClosableManagerLabel where
  init := new
  step s l := s.step apiKey l

/-- Every call of `create` has finished. -/
def Quiet (s : ClosableManager) : Prop := ∀ call ∈ s.manager.calls, call.result.isSome = true

/-- Once a call of `close` has returned and no `create` is pending, no key is held, no keepalive
task runs, and each key that was current since has been deleted. -/
def Closed (s : ClosableManager) : Prop :=
  .returned ∈ s.closes → s.Quiet →
    (∀ symbolType, s.manager.keyFor symbolType = none) ∧ s.keepalive.running = false ∧
      ∀ key ∈ s.seen, key ∈ s.deleted

/-- A store while the manager is closing: a call of `close` is still to take what it stores, and
each current key is among it. -/
def Keeps (s : ClosableManager) (keys : ListenKeys) : Prop :=
  (∀ key ∈ keys.values, .awaiting ∈ s.closes) ∧ ∀ key ∈ s.held, key ∈ keys.values

/-- No key is stored too late or lost, and no call of `close` overlaps another that still has
something to do. -/
def Orderly (s : ClosableManager) : ClosableManagerLabel → Prop
  | .manager l => ∀ keys ∈ l.stores, s.closing = true → s.Keeps keys
  | .close => ∀ call ∈ s.closes, call.submitted = true
  | _ => True

/-- How far the closing is. -/
inductive Stage (s : ClosableManager) : Prop where
  /-- No call of `close` yet. -/
  | before : s.closing = false → s.closes = [] → s.keepalive ≠ .cancelled → Stage s
  /-- The first call awaits the keepalive task. -/
  | waiting : s.closing = true → s.closes = [.awaiting] →
      (s.keepalive = .cancelled ∨ s.keepalive = .ended) →
      (∀ key ∈ s.seen, key ∈ s.held) → Stage s
  /-- The first call has taken the keys; the others had nothing to do. -/
  | taken (first : ClosePhase) (others : List ClosePhase) : s.closing = true →
      s.closes = first :: others → first ≠ .awaiting → (∀ call ∈ others, call = .returned) →
      (others ≠ [] → first.rest = []) → (∀ symbolType, s.manager.keys symbolType = none) →
      s.keepalive.running = false → (∀ key ∈ s.seen, key ∈ s.deleted ∨ key ∈ first.rest) → Stage s

variable {apiKey : Option String} {s s' : ClosableManager} {l : ClosableManagerLabel}
  {ls : List ClosableManagerLabel}

theorem held_eq_nil (h : ∀ symbolType, s.manager.keys symbolType = none) : s.held = [] := by
  refine List.eq_nil_iff_forall_not_mem.2 fun key hkey => ?_
  obtain ⟨symbolType, hkey⟩ := ListenKeys.mem_values.1 hkey
  rw [h symbolType] at hkey
  cases hkey

theorem take_of_held_nil (h : s.held = []) :
    s.take = ({ s with manager.keys := fun _ => none }, .returned) := by
  unfold take
  rw [h]
  rfl

/-! ## The steps -/

/-- Once the manager is closing, a stored reply does not start the keepalive loop. -/
theorem follow_of_closing (hclosing : s.closing = true) (m : ListenKeyManager) (keys : ListenKeys) :
    (s.follow m (some keys)).keepalive = s.keepalive ∧
      (s.follow m (some keys)).seen = s.seen ++ keys.values := by
  constructor
  · refine if_neg ?_
    simp [hclosing]
  · exact if_pos hclosing

/-- A step that leaves the keys alone. -/
theorem Stage.unstored {m : ListenKeyManager} (h : s.Stage) (hkeys : m.keys = s.manager.keys) :
    (s.follow m none).Stage := by
  cases h with
  | before hclosing hcloses hkeepalive => exact .before hclosing hcloses hkeepalive
  | waiting hclosing hcloses hkeepalive hseen =>
    refine .waiting hclosing hcloses hkeepalive fun key hkey => ?_
    change key ∈ m.keys.values
    rw [hkeys]
    exact hseen key hkey
  | taken first others hclosing hcloses hfirst hothers hrest hnone hkeepalive hseen =>
    refine .taken first others hclosing hcloses hfirst hothers hrest ?_ hkeepalive hseen
    change ∀ symbolType, m.keys symbolType = none
    rwa [hkeys]

/-- A step that stores a reply. -/
theorem Stage.stored {m : ListenKeyManager} {keys : ListenKeys} (h : s.Stage)
    (hkeeps : s.closing = true → s.Keeps keys) (hkeys : m.keys = keys) :
    (s.follow m (some keys)).Stage := by
  cases h with
  | before hclosing hcloses hkeepalive =>
    refine .before hclosing hcloses ?_
    change (if _ then _ else s.keepalive) ≠ _
    split
    · simp
    · exact hkeepalive
  | waiting hclosing hcloses hkeepalive hseen =>
    obtain ⟨-, hheld⟩ := hkeeps hclosing
    obtain ⟨hrunning, hseen'⟩ := follow_of_closing hclosing m keys
    refine .waiting hclosing hcloses (by rwa [hrunning]) ?_
    intro key hkey
    change key ∈ m.keys.values
    rw [hseen'] at hkey
    rw [hkeys]
    exact (List.mem_append.1 hkey).elim (fun hold => hheld key (hseen key hold)) id
  | taken first others hclosing hcloses hfirst hothers hrest hnone hkeepalive hseen =>
    obtain ⟨hnew, -⟩ := hkeeps hclosing
    obtain ⟨hrunning, hseen'⟩ := follow_of_closing hclosing m keys
    -- nobody would take a new key
    have hempty : keys.values = [] := by
      refine List.eq_nil_iff_forall_not_mem.2 fun key hkey => ?_
      have hawaiting := hnew key hkey
      rw [hcloses] at hawaiting
      rcases List.mem_cons.1 hawaiting with heq | hmem
      · exact hfirst heq.symm
      · have hno := hothers _ hmem
        cases hno
    refine .taken first others hclosing hcloses hfirst hothers hrest ?_ (by rwa [hrunning]) ?_
    · intro symbolType
      change m.keys symbolType = none
      rw [hkeys]
      by_contra hsome
      obtain ⟨key, hkey⟩ := Option.ne_none_iff_exists'.1 hsome
      have hmem := ListenKeys.mem_values.2 ⟨symbolType, hkey⟩
      rw [hempty] at hmem
      cases hmem
    · rw [hseen', hempty, List.append_nil]
      exact hseen

theorem Stage.manager {m : ListenKeyManager} {l : ListenKeyLabel} (h : s.Stage)
    (horderly : s.Orderly (.manager l)) (hstep : s.manager.step apiKey l = some m) :
    (s.follow m l.stores).Stage := by
  have hkeys := ListenKeyManager.keys_step hstep
  cases hstores : l.stores with
  | none =>
    rw [hstores] at hkeys
    exact h.unstored hkeys
  | some keys =>
    rw [hstores] at hkeys
    exact h.stored (horderly keys hstores) hkeys

/-- The first call takes the keys, which are all that was seen. -/
theorem stage_take (hclosing : s.closing = true) (hkeepalive : s.keepalive.running = false)
    (hseen : ∀ key ∈ s.seen, key ∈ s.held) :
    Stage { s.take.1 with closes := [s.take.2] } := by
  unfold take delete
  cases hheld : s.held with
  | nil =>
    rw [hheld] at hseen
    refine .taken .returned [] hclosing rfl (by simp) (by simp) (fun _ => rfl) (fun _ => rfl)
      hkeepalive fun key hkey => ?_
    exact absurd (hseen key hkey) List.not_mem_nil
  | cons head rest =>
    rw [hheld] at hseen
    refine .taken (.deleting rest) [] hclosing rfl (by simp) (by simp) (by simp) (fun _ => rfl)
      hkeepalive fun key hkey => ?_
    rcases List.mem_cons.1 (hseen key hkey) with rfl | hrest
    · exact .inl (List.mem_append_right _ (List.mem_singleton_self key))
    · exact .inr hrest

theorem Stage.close (h : s.Stage) (horderly : s.Orderly .close) : s.close.Stage := by
  cases h with
  | before hclosing hcloses hkeepalive =>
    have hseen : (if s.closing then s.seen else s.held) = s.held := by
      rw [hclosing]
      exact if_neg Bool.false_ne_true
    have hone (phase : ClosePhase) : s.closes ++ [phase] = [phase] := by
      rw [hcloses, List.nil_append]
    unfold ClosableManager.close
    rw [hone]
    unfold enter
    dsimp only
    rw [hseen]
    cases hkeep : s.keepalive with
    | sleeping | extending => exact .waiting rfl rfl (.inl rfl) fun key hkey => hkey
    | absent | ended => exact stage_take rfl rfl fun key hkey => hkey
    | cancelled => exact absurd hkeep hkeepalive
  | waiting hclosing hcloses =>
    have hno := horderly .awaiting (by rw [hcloses]; exact List.mem_singleton_self _)
    cases hno
  | taken first others hclosing hcloses hfirst hothers hrest hnone hkeepalive hseen =>
    have hsubmitted : first.submitted = true :=
      horderly first (by rw [hcloses]; exact List.mem_cons_self)
    have hrest' : first.rest = [] := by
      cases first with
      | awaiting => rfl
      | deleting rest => exact List.isEmpty_iff.1 hsubmitted
      | returned => rfl
    -- a later call finds nothing to do
    have hseen' : (if s.closing then s.seen else s.held) = s.seen := if_pos hclosing
    have htake := take_of_held_nil (s := { s with closing := true }) (held_eq_nil hnone)
    have henter : s.enter =
        ({ s with closing := true, manager.keys := fun _ => none }, .returned) := by
      unfold enter
      dsimp only
      rw [hseen']
      cases hkeep : s.keepalive with
      | sleeping | extending | cancelled =>
        rw [hkeep] at hkeepalive
        cases hkeepalive
      | absent | ended =>
        rw [hkeep] at htake
        exact htake
    unfold ClosableManager.close
    rw [henter]
    refine .taken first (others ++ [.returned]) rfl ?_ hfirst ?_ (fun _ => hrest') (fun _ => rfl)
      hkeepalive hseen
    · rw [hcloses, List.cons_append]
    · intro call hcall
      rcases List.mem_append.1 hcall with hold | hnew
      · exact hothers call hold
      · exact List.mem_singleton.1 hnew

theorem Stage.joined {i : ℕ} (h : s.Stage) (hi : s.closes[i]? = some .awaiting)
    (hended : s.keepalive = .ended) : (s.resume i s.take).Stage := by
  cases h with
  | before _ hcloses =>
    rw [hcloses] at hi
    cases hi
  | waiting hclosing hcloses hkeepalive hseen =>
    have hzero : i = 0 := by
      rw [hcloses] at hi
      exact Nat.lt_one_iff.1 (List.getElem?_eq_some_iff.1 hi).1
    subst hzero
    unfold resume
    rw [hcloses]
    exact stage_take hclosing (by rw [hended]; rfl) hseen
  | taken first others _ hcloses hfirst hothers =>
    rw [hcloses] at hi
    rcases List.mem_cons.1 (List.mem_of_getElem? hi) with heq | hmem
    · exact absurd heq.symm hfirst
    · have hno := hothers _ hmem
      cases hno

theorem Stage.deleted {i : ℕ} {rest : List String} (h : s.Stage)
    (hi : s.closes[i]? = some (.deleting rest)) : (s.resume i (s.delete rest)).Stage := by
  cases h with
  | before _ hcloses =>
    rw [hcloses] at hi
    cases hi
  | waiting _ hcloses =>
    rw [hcloses] at hi
    cases List.mem_singleton.1 (List.mem_of_getElem? hi)
  | taken first others hclosing hcloses hfirst hothers hrest hnone hkeepalive hseen =>
    rw [hcloses] at hi
    cases i with
    | succ i =>
      have hno := hothers _ (List.mem_of_getElem? hi)
      cases hno
    | zero =>
      obtain rfl := Option.some.inj hi
      unfold resume ClosableManager.delete
      rw [hcloses]
      cases rest with
      | nil =>
        exact .taken .returned others hclosing rfl (by simp) hothers (fun _ => rfl) hnone hkeepalive
          hseen
      | cons head rest =>
        refine .taken (.deleting rest) others hclosing rfl (by simp) hothers (fun hne => ?_) hnone
          hkeepalive fun key hkey => ?_
        · cases hrest hne
        · rcases hseen key hkey with hdeleted | hmem
          · exact .inl (List.mem_append_left _ hdeleted)
          · rcases List.mem_cons.1 hmem with rfl | hmem
            · exact .inl (List.mem_append_right _ (List.mem_singleton_self key))
            · exact .inr hmem

/-- A step of the keepalive loop, which runs before the first call of `close` only. -/
theorem Stage.keepalive {keepalive : Keepalive} (h : s.Stage) (hrunning : s.keepalive.running = true)
    (hne : s.keepalive ≠ .cancelled) (hnot : keepalive ≠ .cancelled) :
    Stage { s with keepalive } := by
  cases h with
  | before hclosing hcloses => exact .before hclosing hcloses hnot
  | waiting _ _ hkeepalive =>
    rcases hkeepalive with heq | heq
    · exact absurd heq hne
    · rw [heq] at hrunning
      cases hrunning
  | taken _ _ _ _ _ _ _ _ hkeepalive =>
    rw [hrunning] at hkeepalive
    cases hkeepalive

theorem extend_eq (s : ClosableManager) (keys : List String) :
    ∃ keepalive, keepalive ≠ .cancelled ∧ s.extend keys = { s with keepalive } := by
  unfold extend
  cases keys with
  | nil =>
    refine ⟨_, ?_, rfl⟩
    split <;> simp
  | cons key rest => exact ⟨.extending rest, by simp, rfl⟩

/-- **One step.** -/
theorem stage_step (h : s.Stage) (horderly : s.Orderly l) (hstep : s.step apiKey l = some s') :
    s'.Stage := by
  cases l with
  | manager l =>
    obtain ⟨m, hm, rfl⟩ := Option.map_eq_some_iff.1 hstep
    exact h.manager horderly hm
  | slept =>
    obtain ⟨hsleeping, hstep⟩ := Option.ite_none_right_eq_some.1 hstep
    obtain rfl := Option.some.inj hstep
    have hrunning : s.keepalive.running = true := by rw [hsleeping]; rfl
    have hne : s.keepalive ≠ .cancelled := by simp [hsleeping]
    split
    · exact h.keepalive hrunning hne (by simp)
    · obtain ⟨keepalive, hnot, heq⟩ := s.extend_eq s.held
      rw [heq]
      exact h.keepalive hrunning hne hnot
  | extended =>
    simp only [step] at hstep
    split at hstep
    · next rest hextending =>
      obtain rfl := Option.some.inj hstep
      obtain ⟨keepalive, hnot, heq⟩ := s.extend_eq rest
      rw [heq]
      exact h.keepalive (by rw [hextending]; rfl) (by simp [hextending]) hnot
    · cases hstep
  | keepaliveEnded =>
    obtain ⟨hcancelled, hstep⟩ := Option.ite_none_right_eq_some.1 hstep
    obtain rfl := Option.some.inj hstep
    cases h with
    | before _ _ hne => exact absurd hcancelled hne
    | waiting hclosing hcloses _ hseen => exact .waiting hclosing hcloses (.inr rfl) hseen
    | taken _ _ _ _ _ _ _ _ hkeepalive =>
      rw [hcancelled] at hkeepalive
      cases hkeepalive
  | close =>
    obtain rfl := Option.some.inj hstep
    exact h.close horderly
  | joined i =>
    obtain ⟨⟨hi, hended⟩, hstep⟩ := Option.ite_none_right_eq_some.1 hstep
    obtain rfl := Option.some.inj hstep
    exact h.joined hi hended
  | deleted i =>
    simp only [step] at hstep
    split at hstep
    · next rest hi =>
      obtain rfl := Option.some.inj hstep
      exact h.deleted hi
    · cases hstep

/-! ## The runs -/

theorem Stage.closed (h : s.Stage) : s.Closed := by
  intro hreturned _
  cases h with
  | before _ hcloses =>
    rw [hcloses] at hreturned
    cases hreturned
  | waiting _ hcloses =>
    rw [hcloses] at hreturned
    cases List.mem_singleton.1 hreturned
  | taken first others _ hcloses _ _ hrest hnone hkeepalive hseen =>
    have hdone : first.rest = [] := by
      rw [hcloses] at hreturned
      rcases List.mem_cons.1 hreturned with heq | hmem
      · rw [← heq]
        rfl
      · exact hrest (List.ne_nil_of_mem hmem)
    refine ⟨hnone, hkeepalive, fun key hkey => (hseen key hkey).resolve_right ?_⟩
    rw [hdone]
    exact List.not_mem_nil

/-- **The end of the manager.** In every run in which nothing is stored too late or lost and no two
calls of `close` overlap, a call of `close` that has returned leaves nothing behind. -/
theorem run_closed (horderly : (system apiKey).Guarded Orderly new ls)
    (hrun : (system apiKey).run new ls = some s) : s.Closed := by
  have hstage : s.Stage := by
    refine System.run_invariant (M := system apiKey) (C := Orderly) ?_ ls
      (.before rfl rfl (by simp [new])) horderly hrun
    intro s l s' h horderly hstep
    exact stage_step h horderly hstep
  exact hstage.closed

/-- The keys are created, kept alive once, and deleted. -/
def closedOnce : List ClosableManagerLabel :=
  [.manager .create, .manager (.begin 0), .manager (.reply 0 ListenKeyManager.listenKeyReply),
    .manager (.wake 0), .slept, .extended, .close, .keepaliveEnded, .joined 0, .deleted 0, .deleted 0]

theorem run_closed_once :
    ∃ s, (system (some "key")).run new closedOnce = some s ∧ .returned ∈ s.closes ∧ s.Quiet ∧
      s.deleted = ["global-key", "site-key"] ∧ s.Closed := by
  have horderly : (system (some "key")).Guarded Orderly new closedOnce := by
    refine System.guarded_cons (fun _ hkeys => ?_) rfl <|
      System.guarded_cons (fun _ hkeys => ?_) rfl <|
      System.guarded_cons (fun _ _ hclosing => ?_) rfl <|
      System.guarded_cons (fun _ hkeys => ?_) rfl <|
      System.guarded_cons trivial rfl <| System.guarded_cons trivial rfl <|
      System.guarded_cons (fun call hcall => ?_) rfl <| System.guarded_cons trivial rfl <|
      System.guarded_cons trivial rfl <| System.guarded_cons trivial rfl <|
      System.guarded_cons trivial rfl trivial
    · cases hkeys
    · cases hkeys
    · cases hclosing
    · cases hkeys
    · cases hcall
  obtain ⟨s, hrun, hreturned, hquiet, hdeleted⟩ : ∃ s,
      (system (some "key")).run new closedOnce = some s ∧ .returned ∈ s.closes ∧ s.Quiet ∧
        s.deleted = ["global-key", "site-key"] := by
    refine ⟨_, rfl, List.mem_singleton_self _, fun call hcall => ?_, rfl⟩
    rw [List.mem_singleton.1 hcall]
    rfl
  exact ⟨s, hrun, hreturned, hquiet, hdeleted, run_closed horderly hrun⟩

/-- The POST of a `create` is in flight when `close` is called. -/
theorem not_run_closed_inFlight :
    ¬ ∀ ls s, (system (some "key")).run new ls = some s → s.Closed := by
  intro h
  obtain ⟨hnone, -, -⟩ := h [.manager .create, .manager (.begin 0), .close,
    .manager (.reply 0 ListenKeyManager.listenKeyReply), .manager (.wake 0)] _ rfl
    (List.mem_singleton_self _) (fun call hcall => by rw [List.mem_singleton.1 hcall]; rfl)
  cases hnone .global

end ClosableManager

end BinanceTh
