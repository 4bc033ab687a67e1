import Mathlib.Order.Preorder.Finite
import EntityGraph.Proofs.Linkage

/-!
# Rings of relationships

A ring is a closed walk through relationships, each of which leads back to the owner of the one
before it, while every other step is a link. The names along a ring alternate, so linking the other
steps instead gives relationships whose inverses have the same names.

Two ways to pair the members of a finite set that agree nowhere give such a walk: it follows one of
them and the other in turns, and never meets an end.
-/

namespace EntityGraph

section Pairing

variable {α : Type} {D : Set α} {P : α → α → Prop} {M N : α → α}

/-- The members of a set are paired, and of each pair one points to the other. -/
structure IsPairing (D : Set α) (P : α → α → Prop) (M : α → α) : Prop where
  mem : ∀ k ∈ D, M k ∈ D
  back : ∀ k ∈ D, M (M k) = k
  points : ∀ k ∈ D, P k (M k) ∨ P (M k) k

/-- The walk from a member that follows two pairings in turns. -/
def walk (M N : α → α) (k : α) : ℕ → α
  | 0 => k
  | i + 1 => if i % 2 = 0 then M (walk M N k i) else N (walk M N k i)

/-- One step of a walk. -/
theorem walk_succ (M N : α → α) (k : α) (i : ℕ) :
    walk M N k (i + 1) = if i % 2 = 0 then M (walk M N k i) else N (walk M N k i) := rfl

/-- A step from an even place follows the first pairing. -/
theorem walk_odd (M N : α → α) (k : α) (i : ℕ) :
    walk M N k (2 * i + 1) = M (walk M N k (2 * i)) := by
  rw [walk_succ, if_pos (by omega)]

private theorem walk_even (M N : α → α) (k : α) (i : ℕ) :
    walk M N k (2 * i + 2) = N (walk M N k (2 * i + 1)) := by
  rw [walk_succ, if_neg (by omega)]

section Walk

variable (hM : IsPairing D P M) (hN : IsPairing D P N) {k : α} (hk : k ∈ D)

include hM hN hk

/-- A walk from a member of the set stays in it. -/
theorem walk_mem (i : ℕ) : walk M N k i ∈ D := by
  induction i with
  | zero => exact hk
  | succ i ih =>
    rw [walk_succ]
    split
    · exact hM.mem _ ih
    · exact hN.mem _ ih

/-- Where two pairings agree nowhere, a walk does not turn back. -/
theorem walk_add_two_ne (apart : ∀ k ∈ D, M k ≠ N k) (i : ℕ) :
    walk M N k (i + 2) ≠ walk M N k i := by
  have here := walk_mem hM hN hk i
  have next := walk_mem hM hN hk (i + 1)
  intro h
  obtain ⟨j, rfl | rfl⟩ : ∃ j, i = 2 * j ∨ i = 2 * j + 1 := ⟨i / 2, by omega⟩
  · rw [walk_even, walk_odd] at h
    exact apart _ (hM.mem _ here) ((hM.back _ here).trans h.symm)
  · rw [show 2 * j + 1 + 2 = 2 * (j + 1) + 1 by omega, walk_odd, Nat.mul_add_one, walk_even] at h
    exact apart _ (hN.mem _ here) (h.trans (hN.back _ here).symm)

/-- Where the first step of a walk is pointed back along and the pairings agree nowhere, every step
is. -/
theorem walk_points (functional : ∀ k i j, P k i → P k j → i = j)
    (apart : ∀ k ∈ D, M k ≠ N k) (start : P (M k) k) (i : ℕ) :
    P (walk M N k (i + 1)) (walk M N k i) := by
  induction i with
  | zero => exact start
  | succ i ih =>
    have onward := walk_add_two_ne hM hN hk apart i
    have next := walk_mem hM hN hk (i + 1)
    have step : P (walk M N k (i + 1)) (walk M N k (i + 2)) ∨
        P (walk M N k (i + 2)) (walk M N k (i + 1)) := by
      rw [walk_succ M N k (i + 1)]
      split
      · exact hM.points _ next
      · exact hN.points _ next
    exact step.resolve_left fun h ↦ onward (functional _ _ _ h ih)

/-- A walk along a finite set on which two pairings agree nowhere returns to where it began, after
an even number of steps. -/
theorem exists_walk_closed (finite : D.Finite) (functional : ∀ k i j, P k i → P k j → i = j)
    (apart : ∀ k ∈ D, M k ≠ N k) (start : P (M k) k) :
    ∃ n, 0 < n ∧ ∀ i, walk M N k (i + 2 * n) = walk M N k i := by
  -- Two even places hold one member. Pointing back leads from there to the beginning, and from the
  -- beginning the walk goes on as it began.
  obtain ⟨a, b, hab, heq⟩ := Set.Finite.exists_lt_map_eq_of_forall_mem
    (fun n : ℕ ↦ walk_mem hM hN hk (2 * n)) finite
  have points := walk_points hM hN hk functional apart start
  have backward : ∀ m i j, walk M N k (i + m) = walk M N k (j + m) →
      walk M N k i = walk M N k j := by
    intro m
    induction m with
    | zero => exact fun i j h ↦ h
    | succ m ih =>
      intro i j h
      apply ih
      exact functional _ _ _ (points (i + m)) (h ▸ points (j + m))
  obtain ⟨n, rfl⟩ := Nat.exists_eq_add_of_lt hab
  have home : walk M N k (2 * (n + 1)) = k := by
    have places : 2 * (a + n + 1) = 2 * (n + 1) + 2 * a := by omega
    exact (backward (2 * a) 0 (2 * (n + 1)) (by rw [Nat.zero_add, heq, places])).symm
  refine ⟨n + 1, Nat.succ_pos n, fun i ↦ ?_⟩
  induction i with
  | zero => rw [Nat.zero_add, home, walk]
  | succ i ih =>
    rw [show i + 1 + 2 * (n + 1) = i + 2 * (n + 1) + 1 by omega, walk_succ, walk_succ, ih,
      Nat.add_mul_mod_self_left]

end Walk

end Pairing

/-- A closed walk of `2 * n` steps through relationships of a graph. It never turns back, each
relationship on it leads to the owner of the one before it, names alternate, and every other step is
a link. -/
structure Graph.IsRing (g : Graph) (n : ℕ) (x : ℕ → Relationship) : Prop where
  positive : 0 < n
  mem : ∀ i, x i ∈ g.relationships
  closed : ∀ i, x (i + 2 * n) = x i
  onward : ∀ i, x (i + 2) ≠ x i
  leads : ∀ i, (x (i + 1)).destination = (x i).entity
  named : ∀ i, (x (i + 2)).name = (x i).name
  linked : ∀ i, (x (2 * i)).inverse = some (x (2 * i + 1)).key

/-- A relationship lies on a ring of a graph. -/
def Graph.OnRing (g : Graph) (r : Relationship) : Prop := ∃ n x i, g.IsRing n x ∧ x i = r

end EntityGraph
