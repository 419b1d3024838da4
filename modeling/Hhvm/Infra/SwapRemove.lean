import Mathlib.Data.List.Perm.Basic
import Mathlib.Logic.Function.Basic

/-!
# 末尾との入れ替えによる削除

配列 `f` の先頭 `n` 個 `[f 0, …, f (n-1)]` から `i` 番目を消すのに、末尾の `f (n-1)` を `i` に
書いて `n` を一つ減らす、という操作の列としての意味。順は変わるが、要素は消したもの一つを除いて
並べ替えで保たれる。
-/

namespace Infra.SwapRemove

variable {α : Type}

/-- 先頭 `m` 個を並べた列で、`i` への書き込みは `List.set` になる（`i ≥ m` なら何も変えない）。 -/
theorem map_range_update (f : Nat → α) (m i : Nat) (a : α) :
    (List.range m).map (Function.update f i a) = ((List.range m).map f).set i a := by
  apply List.ext_getElem (by simp)
  intro j h₁ h₂
  simp only [List.getElem_map, List.getElem_range, List.getElem_set, Function.update_apply]
  by_cases hji : j = i
  · simp [hji]
  · rw [if_neg hji, if_neg (Ne.symm hji)]

/-- 末尾を `i` に移して一つ縮めた列に消した `f i` を足すと、もとの列の並べ替えになる。 -/
theorem swapRemove_perm (f : Nat → α) {n i : Nat} (hi : i < n) :
    List.Perm ((List.range (n - 1)).map (Function.update f i (f (n - 1))) ++ [f i])
      ((List.range n).map f) := by
  obtain ⟨m, rfl⟩ : ∃ m, n = m + 1 := ⟨n - 1, by omega⟩
  rw [Nat.add_sub_cancel, List.range_succ, List.map_append, List.map_singleton,
    map_range_update]
  rcases Nat.lt_succ_iff_lt_or_eq.mp hi with hlt | rfl
  · -- `i` は末尾より前：`set` した列と `getD_set_perm_cons` の形に並べ替える
    have key := List.getD_set_perm_cons ((List.range m).map f) i (f m)
    rw [show ((List.range m).map f)[i]?.getD (f m) = f i by simp [hlt]] at key
    exact (List.perm_append_singleton _ _).trans (key.trans (List.perm_append_singleton _ _).symm)
  · simp [List.set_eq_of_length_le]

/-- 先頭 `n` 個の列を、`k` の前と `[k, n)` に分ける。 -/
theorem map_range_eq_append (f : Nat → α) {k n : Nat} (hk : k ≤ n) :
    (List.range n).map f = (List.range k).map f ++ (List.range' k (n - k)).map f := by
  have hsplit := @List.range'_append_1 0 k (n - k)
  rw [Nat.zero_add, Nat.add_sub_cancel' hk] at hsplit
  rw [List.range_eq_range', List.range_eq_range', ← hsplit, List.map_append]

/-- `swapRemove_perm` を区間 `[k, n)` に限ったもの：`k` より前は書き換えない。 -/
theorem swapRemove_perm_range' (f : Nat → α) {k n i : Nat} (hk : k ≤ i) (hi : i < n) :
    List.Perm ((List.range' k (n - 1 - k)).map (Function.update f i (f (n - 1))) ++ [f i])
      ((List.range' k (n - k)).map f) := by
  have hp := swapRemove_perm f hi
  rw [map_range_eq_append _ (show k ≤ n - 1 by omega), map_range_eq_append f (show k ≤ n by omega)]
    at hp
  have hpre : (List.range k).map (Function.update f i (f (n - 1))) = (List.range k).map f :=
    List.map_congr_left fun j hj =>
      Function.update_of_ne (by have := List.mem_range.mp hj; omega) _ _
  rw [hpre, List.append_assoc, List.perm_append_left_iff] at hp
  exact hp

/-- 鍵の重ならない列 `l` で、`l'` に鍵 `k` の要素を足すと `l` の並べ替えになるなら、`l'` は
`l` から鍵 `k` の要素を除いたものの並べ替え。 -/
theorem perm_filter_of_perm_append {key : α → Nat} {l l' : List α} {a : α}
    (hp : List.Perm (l' ++ [a]) l) (hnd : (l.map key).Nodup) :
    List.Perm l' (l.filter (fun b => key b ≠ key a)) := by
  have hnd' : ((l' ++ [a]).map key).Nodup := (hp.map key).nodup_iff.mpr hnd
  have hout : ∀ b ∈ l', key b ≠ key a := by
    intro b hb hba
    rw [List.map_append, List.nodup_append] at hnd'
    exact hnd'.2.2 (key b) (List.mem_map_of_mem hb) (key a) (by simp) hba
  have hl' : l'.filter (fun b => key b ≠ key a) = l' :=
    List.filter_eq_self.mpr fun b hb => by simpa using hout b hb
  have hf := hp.filter (fun b => key b ≠ key a)
  rw [List.filter_append, hl'] at hf
  simpa using hf

end Infra.SwapRemove
