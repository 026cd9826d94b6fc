import Mathlib.Data.List.Induction
import Mathlib.Order.Lattice

/-!
# Versioned records

A record is known by its states, each with a version; a state may be final, which ends the record.
`absorb` is one step of a replica that keeps what is not final: it drops a state older than the one
it has, and forgets the record at a final one. A replica that has forgotten a record cannot tell an
old state from a new one, so that absorbing states gives the latest only if the last of them is the
latest, or if what is there already is (`foldl_absorb`). In any order an active latest state stays
(`foldl_absorb_of_mem`), and a record is forgotten for good where all its states are final
(`foldl_absorb_of_final`).
-/

namespace Versioned

/-- How a state is read: its version, and whether it is final. -/
structure Reading (V T : Type) where
  version : V → T
  isFinal : V → Bool

namespace Reading

variable {V T : Type} (R : Reading V T)

/-- What a replica keeps of a state. -/
def keep (v : V) : Option V := if R.isFinal v then none else some v

theorem keep_eq_some_iff {v w : V} : R.keep v = some w ↔ R.isFinal v = false ∧ w = v := by
  unfold keep
  cases R.isFinal v with
  | true => exact iff_of_false nofun fun h => Bool.noConfusion h.1
  | false =>
    simp only [Bool.false_eq_true, ↓reduceIte, Option.some.injEq, true_and]
    exact eq_comm

variable [LinearOrder T]

/-- One step of a replica. -/
def absorb (known : Option V) (v : V) : Option V :=
  match known with
  | some p => if R.version v < R.version p then some p else R.keep v
  | none => R.keep v

/-- `latest` is the newest state of the record, and the only one of its version. -/
structure IsLatest (R : Reading V T) (latest v : V) : Prop where
  le : R.version v ≤ R.version latest
  eq_of_eq : R.version v = R.version latest → v = latest

variable {R} {known : Option V} {v latest : V}

theorem IsLatest.refl : R.IsLatest v v := ⟨le_rfl, fun _ => rfl⟩

theorem IsLatest.of_lt {new : V} (h : R.IsLatest latest v)
    (hlt : R.version latest < R.version new) : R.IsLatest new v :=
  ⟨h.le.trans hlt.le, fun heq => absurd heq (h.le.trans_lt hlt).ne⟩

theorem absorb_of_le (h : ∀ p, known = some p → R.version p ≤ R.version v) :
    R.absorb known v = R.keep v := by
  cases known with
  | none => rfl
  | some p =>
    have hle := h p rfl
    exact if_neg (not_lt.2 hle)

theorem absorb_of_lt {p : V} (h : R.version v < R.version p) : R.absorb (some p) v = some p :=
  if_pos h

/-- What is there afterwards was there before, where it is newer, or is the new state. -/
theorem absorb_cases {p : V} (h : R.absorb known v = some p) :
    known = some p ∧ R.version v < R.version p ∨ R.isFinal v = false ∧ p = v := by
  cases known with
  | none => exact .inr (R.keep_eq_some_iff.1 h)
  | some q =>
    by_cases hlt : R.version v < R.version q
    · rw [absorb_of_lt hlt] at h
      obtain rfl := Option.some.inj h
      exact .inl ⟨rfl, hlt⟩
    · rw [absorb, if_neg hlt] at h
      exact .inr (R.keep_eq_some_iff.1 h)

/-- A replica never knows a state newer than the latest. -/
theorem version_le_of_absorb (hknown : ∀ p, known = some p → R.version p ≤ R.version latest)
    (hv : R.version v ≤ R.version latest) :
    ∀ p, R.absorb known v = some p → R.version p ≤ R.version latest := by
  intro p hp
  cases known with
  | none =>
    obtain ⟨-, rfl⟩ := R.keep_eq_some_iff.1 hp
    exact hv
  | some q =>
    by_cases hlt : R.version v < R.version q
    · rw [absorb_of_lt hlt] at hp
      obtain rfl := Option.some.inj hp
      exact hknown q rfl
    · rw [absorb, if_neg hlt] at hp
      obtain ⟨-, rfl⟩ := R.keep_eq_some_iff.1 hp
      exact hv

theorem version_le_of_foldl {vs : List V}
    (hknown : ∀ p, known = some p → R.version p ≤ R.version latest)
    (hvs : ∀ v ∈ vs, R.IsLatest latest v) :
    ∀ p, vs.foldl R.absorb known = some p → R.version p ≤ R.version latest := by
  induction vs generalizing known with
  | nil => exact hknown
  | cons v vs ih =>
    have hv := hvs v List.mem_cons_self
    exact ih (version_le_of_absorb hknown hv.le) fun w hw => hvs w (List.mem_cons_of_mem v hw)

/-- What is known is the latest state already: older ones change nothing. -/
theorem foldl_absorb_of_active {vs : List V} (hactive : R.isFinal latest = false)
    (hvs : ∀ v ∈ vs, R.IsLatest latest v) : vs.foldl R.absorb (some latest) = some latest := by
  induction vs with
  | nil => rfl
  | cons v vs ih =>
    have hv := hvs v List.mem_cons_self
    have hstep : R.absorb (some latest) v = some latest := by
      rcases hv.le.lt_or_eq with hlt | heq
      · exact absorb_of_lt hlt
      · obtain rfl := hv.eq_of_eq heq
        rw [absorb_of_le fun p hp => by rw [Option.some.inj hp]]
        exact R.keep_eq_some_iff.2 ⟨hactive, rfl⟩
    rw [List.foldl_cons, hstep]
    exact ih fun w hw => hvs w (List.mem_cons_of_mem v hw)

/-- **Absorbing states over a snapshot** gives the latest one, if the last of them is the latest. -/
theorem foldl_absorb {vs : List V} (hvs : ∀ v ∈ vs, R.IsLatest latest v)
    (hlast : ∀ v ∈ vs.getLast?, v = latest) :
    vs.foldl R.absorb (R.keep latest) = R.keep latest := by
  cases hfinal : R.isFinal latest with
  | false =>
    have hkeep : R.keep latest = some latest := R.keep_eq_some_iff.2 ⟨hfinal, rfl⟩
    rw [hkeep]
    exact foldl_absorb_of_active hfinal hvs
  | true =>
    have hkeep : R.keep latest = none := if_pos hfinal
    rw [hkeep]
    cases vs using List.reverseRecOn with
    | nil => rfl
    | append_singleton vs v =>
      have hv : v = latest := hlast v (by rw [List.getLast?_concat]; rfl)
      have hknown : ∀ p, vs.foldl R.absorb none = some p → R.version p ≤ R.version latest :=
        version_le_of_foldl nofun fun w hw => hvs w (List.mem_append_left _ hw)
      rw [List.foldl_append, List.foldl_cons, List.foldl_nil, hv, absorb_of_le hknown, hkeep]

/-! ## States in any order -/

/-- Whatever is known, a state that is not final leaves one. -/
theorem isSome_absorb_of_active (h : R.isFinal v = false) : (R.absorb known v).isSome = true := by
  have hkeep : R.keep v = some v := R.keep_eq_some_iff.2 ⟨h, rfl⟩
  cases known with
  | none => rw [absorb, hkeep, Option.isSome_some]
  | some p =>
    unfold absorb
    dsimp only
    split
    · rfl
    · rw [hkeep, Option.isSome_some]

theorem mem_of_foldl_absorb {vs : List V} {p : V} (h : vs.foldl R.absorb known = some p) :
    known = some p ∨ p ∈ vs := by
  induction vs generalizing known with
  | nil => exact .inl h
  | cons v vs ih =>
    rcases ih h with habsorb | hmem
    · by_cases hold : known = some p
      · exact .inl hold
      · have hkeep : R.keep v = some p := by
          cases known with
          | none => exact habsorb
          | some q =>
            by_cases hlt : R.version v < R.version q
            · exact absurd ((absorb_of_lt hlt).symm.trans habsorb) hold
            · rwa [absorb, if_neg hlt] at habsorb
        obtain ⟨-, rfl⟩ := R.keep_eq_some_iff.1 hkeep
        exact .inr List.mem_cons_self
    · exact .inr (List.mem_cons_of_mem v hmem)

/-- An active latest state that is among the states, in any place and any number of times. -/
theorem foldl_absorb_of_mem {vs : List V} (hactive : R.isFinal latest = false)
    (hknown : ∀ p, known = some p → R.version p ≤ R.version latest)
    (hvs : ∀ v ∈ vs, R.IsLatest latest v) (hmem : latest ∈ vs) :
    vs.foldl R.absorb known = some latest := by
  obtain ⟨before, after, rfl⟩ := List.append_of_mem hmem
  have hbefore : ∀ p, before.foldl R.absorb known = some p → R.version p ≤ R.version latest :=
    version_le_of_foldl hknown fun v hv => hvs v (List.mem_append_left _ hv)
  have hafter : ∀ v ∈ after, R.IsLatest latest v := fun v hv =>
    hvs v (List.mem_append_right _ (List.mem_cons_of_mem _ hv))
  have hkeep : R.keep latest = some latest := R.keep_eq_some_iff.2 ⟨hactive, rfl⟩
  rw [List.foldl_append, List.foldl_cons, absorb_of_le hbefore, hkeep]
  exact foldl_absorb_of_active hactive hafter

theorem foldl_absorb_of_lt {vs : List V} {p : V} (hvs : ∀ v ∈ vs, R.version v < R.version p) :
    vs.foldl R.absorb (some p) = some p := by
  induction vs with
  | nil => rfl
  | cons v vs ih =>
    rw [List.foldl_cons, absorb_of_lt (hvs v List.mem_cons_self)]
    exact ih fun w hw => hvs w (List.mem_cons_of_mem v hw)

/-- Where all states are final, nothing is left iff one is as new as what was known. -/
theorem foldl_absorb_of_final {vs : List V} (hvs : ∀ v ∈ vs, R.isFinal v = true) :
    vs.foldl R.absorb known = none ↔
      ∀ p, known = some p → ∃ v ∈ vs, R.version p ≤ R.version v := by
  have hnone : ∀ ws : List V, (∀ v ∈ ws, R.isFinal v = true) → ws.foldl R.absorb none = none := by
    intro ws hws
    refine Option.eq_none_iff_forall_ne_some.2 fun p hp => ?_
    induction ws with
    | nil => cases hp
    | cons w ws ih =>
      rw [List.foldl_cons, absorb, keep, if_pos (hws w List.mem_cons_self)] at hp
      exact ih (fun v hv => hws v (List.mem_cons_of_mem w hv)) hp
  cases known with
  | none => exact iff_of_true (hnone vs hvs) fun p hp => by cases hp
  | some p =>
    simp only [Option.some.injEq, forall_eq']
    constructor
    · intro h
      by_contra hall
      have hlt : ∀ v ∈ vs, R.version v < R.version p := fun v hv =>
        lt_of_not_ge fun hle => hall ⟨v, hv, hle⟩
      rw [foldl_absorb_of_lt hlt] at h
      cases h
    · rintro ⟨v, hv, hle⟩
      induction vs with
      | nil => cases hv
      | cons w vs ih =>
        have hrest : ∀ u ∈ vs, R.isFinal u = true := fun u hu => hvs u (List.mem_cons_of_mem w hu)
        rw [List.foldl_cons]
        by_cases hlt : R.version w < R.version p
        · rw [absorb_of_lt hlt]
          refine ih hrest ((List.mem_cons.1 hv).resolve_left ?_)
          rintro rfl
          exact absurd hlt (not_lt.2 hle)
        · rw [absorb, if_neg hlt, keep, if_pos (hvs w List.mem_cons_self)]
          exact hnone vs hrest

end Reading

end Versioned
