import BinanceTh.Lib.Replica
import Mathlib.Data.List.Perm.Subperm

/-!
# The best entries of a map

The `n` best entries of a map, best first (`Ranks`), are one list (`Ranks.unique`). A replica that
only has keys it is right about knows them exactly when they are among these keys (`ranks_iff`). It
does so as soon as it has `n` keys of a range that it is right about, and that goes on to the best
(`Ranks.of_range`).
-/

namespace Replica

variable {K V : Type} {noWorse : K → K → Prop} {content m : K → Option V} {A B : Set K} {n : ℕ}
  {l l' : List (K × V)}

/-- The `n` best entries, best first; all of them if there are fewer. -/
structure Ranks (noWorse : K → K → Prop) (content : K → Option V) (n : ℕ) (l : List (K × V)) :
    Prop where
  sorted : l.Pairwise fun e e' => noWorse e.1 e'.1 ∧ e.1 ≠ e'.1
  listed : ∀ e ∈ l, content e.1 = some e.2
  length_le : l.length ≤ n
  rest : ∀ k, content k ≠ none → k ∈ l.map Prod.fst ∨ l.length = n ∧ ∀ e ∈ l, noWorse e.1 k

/-- Of more distinct elements than a list has, one is not in it. -/
theorem exists_notMem_of_length_lt {α : Type} {xs ys : List α} (hxs : xs.Nodup)
    (hlt : ys.length < xs.length) : ∃ x ∈ xs, x ∉ ys := by
  by_contra hall
  have hsubset : xs ⊆ ys := fun x hx => by
    by_contra hx'
    exact hall ⟨x, hx, hx'⟩
  exact absurd (hxs.subperm hsubset).length_le (not_le.2 hlt)

theorem Ranks.nodup (h : Ranks noWorse content n l) : (l.map Prod.fst).Nodup :=
  List.pairwise_map.2 (h.sorted.imp And.right)

theorem Ranks.ne_none (h : Ranks noWorse content n l) {k : K} (hk : k ∈ l.map Prod.fst) :
    content k ≠ none := by
  obtain ⟨e, he, rfl⟩ := List.mem_map.1 hk
  rw [h.listed e he]
  exact Option.some_ne_none _

/-- A key of one ranking is one of the other. -/
theorem Ranks.key_mem (h : Ranks noWorse content n l) (h' : Ranks noWorse content n l')
    (hanti : ∀ k k', noWorse k k' → noWorse k' k → k = k') {k : K} (hk : k ∈ l.map Prod.fst) :
    k ∈ l'.map Prod.fst := by
  by_contra hk'
  obtain ⟨hlength, hbetter⟩ := (h'.rest k (h.ne_none hk)).resolve_left hk'
  -- the other one is full, so it has a key that this one has not
  obtain ⟨k', hmem, hnot⟩ : ∃ k' ∈ k :: l'.map Prod.fst, k' ∉ l.map Prod.fst := by
    refine exists_notMem_of_length_lt (List.nodup_cons.2 ⟨hk', h'.nodup⟩) ?_
    have hle := h.length_le
    rw [List.length_map, List.length_cons, List.length_map]
    omega
  rcases List.mem_cons.1 hmem with rfl | hmem
  · exact hnot hk
  · obtain ⟨-, hbetter'⟩ := (h.rest k' (h'.ne_none hmem)).resolve_left hnot
    obtain ⟨e, he, heq⟩ := List.mem_map.1 hk
    obtain ⟨e', he', heq'⟩ := List.mem_map.1 hmem
    have hle := hbetter' e he
    have hle' := hbetter e' he'
    rw [heq] at hle
    rw [heq'] at hle'
    exact hk' (hanti k k' hle hle' ▸ hmem)

/-- **The best entries are one list.** -/
theorem Ranks.unique (h : Ranks noWorse content n l) (h' : Ranks noWorse content n l')
    (hanti : ∀ k k', noWorse k k' → noWorse k' k → k = k') : l = l' := by
  have hsubset {l₁ l₂ : List (K × V)} (h₁ : Ranks noWorse content n l₁)
      (h₂ : Ranks noWorse content n l₂) : l₁ ⊆ l₂ := by
    intro e he
    obtain ⟨e', he', hkey⟩ := List.mem_map.1 (h₁.key_mem h₂ hanti (List.mem_map_of_mem he))
    have hvalue : e'.2 = e.2 := by
      have hcontent := h₂.listed e' he'
      rw [hkey, h₁.listed e he] at hcontent
      exact (Option.some.inj hcontent).symm
    rwa [← Prod.ext hkey hvalue]
  have hperm : l.Perm l' :=
    (h.nodup.of_map.subperm (hsubset h h')).antisymm (h'.nodup.of_map.subperm (hsubset h' h))
  exact hperm.eq_of_pairwise
    (fun e e' _ _ hle hle' => absurd (hanti _ _ hle.1 hle'.1) hle.2) h.sorted h'.sorted

/-- A ranking of the whole that only has keys of `A` is the replica's. -/
theorem Ranks.replica (h : Ranks noWorse content n l) (hm : ∀ k ∈ A, m k = content k)
    (hA : ∀ k, m k ≠ none → k ∈ A) (hl : ∀ e ∈ l, e.1 ∈ A) : Ranks noWorse m n l where
  sorted := h.sorted
  listed e he := by rw [hm e.1 (hl e he), h.listed e he]
  length_le := h.length_le
  rest k hk := h.rest k (by rwa [← hm k (hA k hk)])

/-- **The best entries of a replica** that only has keys of `A` and is right about them are the true
ones exactly when the true ones are at keys of `A`. -/
theorem ranks_iff (hanti : ∀ k k', noWorse k k' → noWorse k' k → k = k')
    (hm : ∀ k ∈ A, m k = content k) (hA : ∀ k, m k ≠ none → k ∈ A) (hl : Ranks noWorse m n l) :
    Ranks noWorse content n l ↔ ∃ l', Ranks noWorse content n l' ∧ ∀ e ∈ l', e.1 ∈ A := by
  constructor
  · intro h
    refine ⟨l, h, fun e he => hA e.1 ?_⟩
    rw [hl.listed e he]
    exact Option.some_ne_none _
  · rintro ⟨l', hl', hkeys⟩
    rwa [hl.unique (hl'.replica hm hA hkeys) hanti]

/-- **A range that goes on to the best.** A replica that is right about the range, and has `n` keys
of it, knows the `n` best entries. -/
theorem Ranks.of_range (htotal : ∀ k k', noWorse k k' ∨ noWorse k' k)
    (hclosed : ∀ k ∈ B, ∀ k', noWorse k' k → k' ∈ B) (hm : ∀ k ∈ B, m k = content k)
    {ks : List K} (hks : ks.Nodup) (hlength : n ≤ ks.length) (hmem : ∀ k ∈ ks, k ∈ B ∧ m k ≠ none)
    (hl : Ranks noWorse m n l) :
    Ranks noWorse content n l := by
  -- the list is full, and none of its entries is worse than all keys of the range
  have hfull : l.length = n := by
    refine le_antisymm hl.length_le ?_
    by_contra hlt
    obtain ⟨k, hk, hnot⟩ : ∃ k ∈ ks, k ∉ l.map Prod.fst :=
      exists_notMem_of_length_lt hks (by rw [List.length_map]; omega)
    have hrest := ((hl.rest k (hmem k hk).2).resolve_left hnot).1
    omega
  have hrange : ∀ e ∈ l, e.1 ∈ B := by
    intro e he
    by_contra hout
    -- so some key of the range is not in the list, and the entry is no worse than it
    obtain ⟨k, hk, hnot⟩ : ∃ k ∈ e.1 :: ks, k ∉ l.map Prod.fst := by
      refine exists_notMem_of_length_lt
        (List.nodup_cons.2 ⟨fun hin => hout (hmem e.1 hin).1, hks⟩) ?_
      rw [List.length_map, List.length_cons]
      omega
    rcases List.mem_cons.1 hk with rfl | hk
    · exact hnot (List.mem_map_of_mem he)
    · obtain ⟨hB, hne⟩ := hmem k hk
      exact hout (hclosed k hB e.1 (((hl.rest k hne).resolve_left hnot).2 e he))
  refine ⟨hl.sorted, fun e he => ?_, hl.length_le, fun k hk => ?_⟩
  · rw [← hm e.1 (hrange e he), hl.listed e he]
  · by_cases hB : k ∈ B
    · exact hl.rest k (by rwa [hm k hB])
    · refine .inr ⟨hfull, fun e he => ?_⟩
      rcases htotal e.1 k with hle | hle
      · exact hle
      · exact absurd (hclosed e.1 (hrange e he) k hle) hB

end Replica
