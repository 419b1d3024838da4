import Mathlib.Logic.Function.Iterate
import Mathlib.Logic.Function.Basic

/-!
# 親への写像で表した森

各節点に親を一つ与える写像 `p : α → α` で森を表す。`p r = r` の節点が根で、`x` から親を
たどって着く根が `x` の根（`IsRootOf`）。

* 親をたどるたびに真に増える階数が上から抑えられていれば（`Ranked`）、どの節点からも
  `N + 1` 回で根に着く（`Ranked.isRootOf_iterate`）。
* 節点の親を祖父に付け替えても（path halving、`halve`）、階数も各節点の根も変わらない。
* 根 `v` を別の根 `u` の下に付けると（`link`）、`v` に着いていた節点だけが `u` に着く。
-/

namespace Infra.Forest

variable {α : Type*}

/-- `r` は `x` から親をたどって着く根。 -/
def IsRootOf (p : α → α) (x r : α) : Prop := p r = r ∧ ∃ k, p^[k] x = r

/-- 親をたどると真に増え、`N` を超えない階数。 -/
structure Ranked (p : α → α) (rank : α → Nat) (N : Nat) : Prop where
  lt_parent : ∀ x, p x ≠ x → rank x < rank (p x)
  le_bound : ∀ x, rank x ≤ N

section Roots

variable {p : α → α}

theorem isRootOf_self {r : α} (h : p r = r) : IsRootOf p r r := ⟨h, 0, rfl⟩

/-- 根は一つに決まる。根に着いた後は動かないので、遅く着く方も同じ根にいる。 -/
theorem IsRootOf.unique {x r r' : α} (h : IsRootOf p x r) (h' : IsRootOf p x r') : r = r' := by
  obtain ⟨hr, j, hj⟩ := h
  obtain ⟨hr', k, hk⟩ := h'
  rcases Nat.le_total j k with hjk | hkj
  · rw [← hk, ← Nat.sub_add_cancel hjk, Function.iterate_add_apply, hj,
      Function.iterate_fixed hr]
  · rw [← hj, ← Nat.sub_add_cancel hkj, Function.iterate_add_apply, hk,
      Function.iterate_fixed hr']

theorem IsRootOf.of_parent {x r : α} (h : IsRootOf p (p x) r) : IsRootOf p x r := by
  obtain ⟨hr, k, hk⟩ := h
  exact ⟨hr, k + 1, by rw [Function.iterate_succ_apply, hk]⟩

theorem IsRootOf.parent {x r : α} (h : IsRootOf p x r) : IsRootOf p (p x) r := by
  obtain ⟨hr, k, hk⟩ := h
  rcases k with _ | k
  · rw [Function.iterate_zero_apply] at hk
    subst hk
    rw [hr]
    exact isRootOf_self hr
  · exact ⟨hr, k, by rw [← Function.iterate_succ_apply, hk]⟩

end Roots

/-! ## 階数のある森 -/

section Ranked

variable {p : α → α} {rank : α → Nat} {N : Nat}

/-- `k` 回たどってまだ根でなければ、階数は `k` 以上。 -/
theorem Ranked.root_or_le (h : Ranked p rank N) (x : α) (k : Nat) :
    p (p^[k] x) = p^[k] x ∨ k ≤ rank (p^[k] x) := by
  induction k with
  | zero => exact Or.inr (Nat.zero_le _)
  | succ k ih =>
    rw [Function.iterate_succ_apply']
    rcases ih with hroot | hle
    · rw [hroot]
      exact Or.inl hroot
    · by_cases hroot : p (p^[k] x) = p^[k] x
      · rw [hroot]
        exact Or.inl hroot
      · exact Or.inr (Nat.lt_of_le_of_lt hle (h.lt_parent _ hroot))

/-- `N + 1` 回たどれば根にいる。 -/
theorem Ranked.isRootOf_iterate (h : Ranked p rank N) (x : α) : IsRootOf p x (p^[N + 1] x) := by
  refine ⟨?_, N + 1, rfl⟩
  rcases h.root_or_le x (N + 1) with hroot | hle
  · exact hroot
  · exact absurd (Nat.le_trans hle (h.le_bound _)) (Nat.not_succ_le_self N)

theorem Ranked.iterate_eq (h : Ranked p rank N) {x r : α} (hx : IsRootOf p x r) :
    p^[N + 1] x = r :=
  (h.isRootOf_iterate x).unique hx

/-- 根でない節点の祖父の階数は、その節点より大きい。 -/
theorem Ranked.lt_grandparent (h : Ranked p rank N) {x : α} (hx : p x ≠ x) :
    rank x < rank (p (p x)) := by
  have h1 := h.lt_parent x hx
  by_cases hp : p (p x) = p x
  · rw [hp]
    exact h1
  · exact Nat.lt_trans h1 (h.lt_parent _ hp)

theorem Ranked.mono {N' : Nat} (h : Ranked p rank N) (hN : N ≤ N') : Ranked p rank N' :=
  ⟨h.lt_parent, fun x => Nat.le_trans (h.le_bound x) hN⟩

end Ranked

/-! ## path halving -/

section Halve

variable [DecidableEq α] {p : α → α} {rank : α → Nat} {N : Nat}

/-- `a` の親を祖父に付け替える。 -/
def halve (p : α → α) (a : α) : α → α := Function.update p a (p (p a))

theorem halve_root {r : α} (a : α) (h : p r = r) : halve p a r = r := by
  unfold halve
  by_cases hr : r = a
  · subst hr
    rw [Function.update_self, h, h]
  · rw [Function.update_of_ne hr, h]

theorem Ranked.halve (h : Ranked p rank N) (a : α) : Ranked (halve p a) rank N := by
  refine ⟨fun x hx => ?_, h.le_bound⟩
  by_cases hxa : x = a
  · subst hxa
    have hroot : p x ≠ x := fun hr => hx (halve_root x hr)
    rw [Forest.halve, Function.update_self]
    exact h.lt_grandparent hroot
  · rw [Forest.halve, Function.update_of_ne hxa] at hx ⊢
    exact h.lt_parent x hx

/-- 付け替えても根の集合は変わらない。 -/
theorem Ranked.halve_eq_self_iff (h : Ranked p rank N) (a x : α) :
    Forest.halve p a x = x ↔ p x = x := by
  by_cases hxa : x = a
  · subst hxa
    refine ⟨fun hx => ?_, halve_root x⟩
    by_contra hne
    have hlt := h.lt_grandparent hne
    rw [Forest.halve, Function.update_self] at hx
    rw [hx] at hlt
    exact Nat.lt_irrefl _ hlt
  · rw [Forest.halve, Function.update_of_ne hxa]

/-- 付け替えても、どの節点の根も変わらない。`a` からは祖父を経て同じ根に着く。 -/
theorem IsRootOf.halve {x r : α} (a : α) (h : IsRootOf p x r) : IsRootOf (halve p a) x r := by
  obtain ⟨hr, k, hk⟩ := h
  induction k using Nat.strongRecOn generalizing x with
  | ind k ih =>
    by_cases hxa : x = a
    · subst hxa
      rcases k with _ | _ | k
      · rw [Function.iterate_zero_apply] at hk
        subst hk
        exact isRootOf_self (halve_root x hr)
      · -- 親が根：祖父もその根
        rw [Function.iterate_one] at hk
        have hq : Forest.halve p x x = r := by
          rw [Forest.halve, Function.update_self, hk, hr]
        exact IsRootOf.of_parent (by rw [hq]; exact isRootOf_self (halve_root x hr))
      · have hk' : p^[k] (p (p x)) = r := by
          rw [← Function.iterate_succ_apply, ← Function.iterate_succ_apply]
          exact hk
        have hq : Forest.halve p x x = p (p x) := by rw [Forest.halve, Function.update_self]
        exact IsRootOf.of_parent (by rw [hq]; exact ih k (by omega) hk')
    · have hq : Forest.halve p a x = p x := by rw [Forest.halve, Function.update_of_ne hxa]
      rcases k with _ | k
      · rw [Function.iterate_zero_apply] at hk
        subst hk
        exact isRootOf_self (halve_root a hr)
      · refine IsRootOf.of_parent ?_
        rw [hq]
        exact ih k (by omega) (by rwa [← Function.iterate_succ_apply])

end Halve

/-! ## 根をつなぐ -/

section Link

variable [DecidableEq α] {p : α → α}

/-- 根 `v` の親を `u` にする。 -/
def link (p : α → α) (v u : α) : α → α := Function.update p v u

/-- つないだ後、`v` に着いていた節点は `u` に着き、他の節点の根は変わらない。 -/
theorem IsRootOf.link {u v x r : α} (hu : p u = u) (hv : p v = v) (huv : u ≠ v)
    (h : IsRootOf p x r) : IsRootOf (link p v u) x (if r = v then u else r) := by
  have hu' : Forest.link p v u u = u := by rw [Forest.link, Function.update_of_ne huv, hu]
  have hvu : IsRootOf (Forest.link p v u) v u := by
    have hv' : Forest.link p v u v = u := by rw [Forest.link, Function.update_self]
    exact IsRootOf.of_parent (by rw [hv']; exact isRootOf_self hu')
  obtain ⟨hr, k, hk⟩ := h
  induction k generalizing x with
  | zero =>
    rw [Function.iterate_zero_apply] at hk
    subst hk
    by_cases hxv : x = v
    · rw [if_pos hxv, hxv]
      exact hvu
    · rw [if_neg hxv]
      exact isRootOf_self (by rw [Forest.link, Function.update_of_ne hxv, hr])
  | succ k ih =>
    by_cases hxv : x = v
    · -- `x` は根 `v` そのもの
      subst hxv
      rw [Function.iterate_fixed hv] at hk
      rw [if_pos hk.symm]
      exact hvu
    · have hx : Forest.link p v u x = p x := by rw [Forest.link, Function.update_of_ne hxv]
      exact IsRootOf.of_parent (by rw [hx]; exact ih (by rwa [← Function.iterate_succ_apply]))

theorem link_eq_self_iff {u v : α} (huv : u ≠ v) (x : α) :
    link p v u x = x ↔ p x = x ∧ x ≠ v := by
  by_cases hxv : x = v
  · subst hxv
    rw [Forest.link, Function.update_self]
    exact ⟨fun h => absurd h huv, fun h => absurd rfl h.2⟩
  · rw [Forest.link, Function.update_of_ne hxv]
    exact ⟨fun h => ⟨h, hxv⟩, fun h => h.1⟩

/-- 根 `u` の階数を二つの階数の和にすれば、つないだ森にも階数がある。 -/
theorem Ranked.link {rank : α → Nat} {N : Nat} {u v : α} (h : Ranked p rank N) (hu : p u = u)
    (huv : u ≠ v) (hpos : 0 < rank u) (hN : rank u + rank v ≤ N) :
    Ranked (link p v u) (Function.update rank u (rank u + rank v)) N := by
  constructor
  · intro x hx
    by_cases hxv : x = v
    · subst hxv
      rw [Forest.link, Function.update_self, Function.update_self,
        Function.update_of_ne (Ne.symm huv)]
      omega
    · rw [Forest.link, Function.update_of_ne hxv] at hx ⊢
      have hxu : x ≠ u := fun hxu => hx (by rw [hxu, hu])
      have hlt := h.lt_parent x hx
      rw [Function.update_of_ne hxu]
      by_cases hpu : p x = u
      · rw [hpu, Function.update_self]
        rw [hpu] at hlt
        omega
      · rw [Function.update_of_ne hpu]
        exact hlt
  · intro x
    by_cases hxu : x = u
    · rw [hxu, Function.update_self]
      exact hN
    · rw [Function.update_of_ne hxu]
      exact h.le_bound x

end Link

end Infra.Forest
