import Hhvm.Array.Properties.HashIndex
import Hhvm.Infra.OrderedMap

/-!
# 生きている要素の列と挿入順の写像

`HashTable` の要素の列から tombstone（`none`）を除いた列は、key が重ならなければ挿入順の写像
（`Infra.OrderedMap`）である。要素の列の書き換え（値の書き換え、tombstone 化）が写像の上で何に
あたるかをここで示す。`VanillaDict` と `MonotypeDict` の抽象化はどちらもこれを使う。
-/

namespace Hhvm

open Infra Infra.OrderedMap

namespace HashTable

variable {K V : Type}

theorem filterMap_id_cons_none (l : List (Option (K × V))) :
    (none :: l).filterMap id = l.filterMap id := rfl

theorem filterMap_id_cons_some (y : K × V) (l : List (Option (K × V))) :
    (some y :: l).filterMap id = y :: l.filterMap id := rfl

theorem liveOf_cons_zero (x : Option (K × V)) (l : List (Option (K × V))) :
    liveOf (x :: l) 0 = x := by
  cases x <;> rfl

theorem liveOf_cons_succ (x : Option (K × V)) (l : List (Option (K × V))) (i : Nat) :
    liveOf (x :: l) (i + 1) = liveOf l i := rfl

theorem mem_filterMap_of_liveOf {l : List (Option (K × V))} {i : Nat} {e : K × V}
    (h : liveOf l i = some e) : e ∈ l.filterMap id := by
  have hi := lt_length_of_liveOf h
  have hget : l[i] = some e := by simpa [liveOf, hi] using h
  exact List.mem_filterMap.mpr ⟨some e, by rw [← hget]; exact List.getElem_mem hi, rfl⟩

theorem exists_liveOf_of_mem {l : List (Option (K × V))} {e : K × V} (h : e ∈ l.filterMap id) :
    ∃ i, liveOf l i = some e := by
  obtain ⟨x, hx, hxe⟩ := List.mem_filterMap.mp h
  obtain ⟨i, hi, rfl⟩ := List.getElem_of_mem hx
  exact ⟨i, by simp only [liveOf, List.getElem?_eq_getElem hi, Option.bind_some]; exact hxe⟩

variable [DecidableEq K]

omit [DecidableEq K] in
/-- key が重ならなければ、同じ key の生きている要素は同じ位置にある。 -/
theorem liveOf_inj {l : List (Option (K × V))} (hnd : (keys (l.filterMap id)).Nodup) :
    ∀ {i j : Nat} {e e' : K × V}, liveOf l i = some e → liveOf l j = some e' → e.1 = e'.1 →
      i = j := by
  induction l with
  | nil => intro i j e e' hi; simp [liveOf] at hi
  | cons x l ih =>
    intro i j e e' hi hj hk
    -- 先頭が生きていれば、その key は残りに現れない
    have hhead : ∀ {e₀ : K × V} {n : Nat} {e₁ : K × V}, x = some e₀ → liveOf l n = some e₁ →
        e₀.1 ≠ e₁.1 := by
      intro e₀ n e₁ hx hn heq
      subst hx
      rw [filterMap_id_cons_some, keys_cons, List.nodup_cons] at hnd
      exact hnd.1 (heq ▸ List.mem_map.mpr ⟨e₁, mem_filterMap_of_liveOf hn, rfl⟩)
    have htail : (keys (l.filterMap id)).Nodup := by
      cases x with
      | none => rwa [filterMap_id_cons_none] at hnd
      | some y =>
        rw [filterMap_id_cons_some, keys_cons, List.nodup_cons] at hnd
        exact hnd.2
    cases i with
    | zero =>
      cases j with
      | zero => rfl
      | succ j =>
        rw [liveOf_cons_zero] at hi
        rw [liveOf_cons_succ] at hj
        exact absurd hk (hhead hi hj)
    | succ i =>
      cases j with
      | zero =>
        rw [liveOf_cons_succ] at hi
        rw [liveOf_cons_zero] at hj
        exact absurd hk.symm (hhead hj hi)
      | succ j =>
        rw [liveOf_cons_succ] at hi hj
        rw [ih htail hi hj hk]

/-- 生きている要素を tombstone にすると、`abs` からその key の組だけが消える。 -/
theorem filterMap_set_none {l : List (Option (K × V))} (hnd : (keys (l.filterMap id)).Nodup) :
    ∀ {i : Nat} {e : K × V}, liveOf l i = some e →
      (l.set i none).filterMap id = OrderedMap.erase (l.filterMap id) e.1 := by
  induction l with
  | nil => intro i e h; simp [liveOf] at h
  | cons x l ih =>
    intro i e h
    cases i with
    | zero =>
      rw [liveOf_cons_zero] at h
      subst h
      rw [filterMap_id_cons_some, keys_cons, List.nodup_cons] at hnd
      rw [List.set_cons_zero, filterMap_id_cons_none, filterMap_id_cons_some, erase_cons_self,
        erase_of_not_mem hnd.1]
    | succ i =>
      rw [liveOf_cons_succ] at h
      cases x with
      | none =>
        rw [filterMap_id_cons_none] at hnd
        rw [List.set_cons_succ, filterMap_id_cons_none, filterMap_id_cons_none]
        exact ih hnd h
      | some y =>
        rw [filterMap_id_cons_some, keys_cons, List.nodup_cons] at hnd
        have hne : y.1 ≠ e.1 := fun he =>
          hnd.1 (he ▸ List.mem_map.mpr ⟨e, mem_filterMap_of_liveOf h, rfl⟩)
        rw [List.set_cons_succ, filterMap_id_cons_some, filterMap_id_cons_some,
          erase_cons_of_ne hne, ih hnd.2 h]

/-- 生きている要素の値を書き換えると、`abs` でもその key の値だけが変わる。 -/
theorem filterMap_set_some {l : List (Option (K × V))} (hnd : (keys (l.filterMap id)).Nodup) (v : V) :
    ∀ {i : Nat} {e : K × V}, liveOf l i = some e →
      (l.set i (some (e.1, v))).filterMap id
        = (l.filterMap id).map (fun p => if p.1 = e.1 then (e.1, v) else p) := by
  induction l with
  | nil => intro i e h; simp [liveOf] at h
  | cons x l ih =>
    intro i e h
    cases i with
    | zero =>
      rw [liveOf_cons_zero] at h
      subst h
      rw [filterMap_id_cons_some, keys_cons, List.nodup_cons] at hnd
      rw [List.set_cons_zero, filterMap_id_cons_some, filterMap_id_cons_some, List.map_cons,
        if_pos rfl, map_replace_of_not_mem hnd.1]
    | succ i =>
      rw [liveOf_cons_succ] at h
      cases x with
      | none =>
        rw [filterMap_id_cons_none] at hnd
        rw [List.set_cons_succ, filterMap_id_cons_none, filterMap_id_cons_none]
        exact ih hnd h
      | some y =>
        rw [filterMap_id_cons_some, keys_cons, List.nodup_cons] at hnd
        have hne : y.1 ≠ e.1 := fun he =>
          hnd.1 (he ▸ List.mem_map.mpr ⟨e, mem_filterMap_of_liveOf h, rfl⟩)
        rw [List.set_cons_succ, filterMap_id_cons_some, filterMap_id_cons_some, List.map_cons,
          if_neg hne, ih hnd.2 h]

omit [DecidableEq K] in
/-- 生きている要素の値を書き換えても、`abs` の key の列は変わらない。 -/
theorem keys_filterMap_set_some (v : V) :
    ∀ {l : List (Option (K × V))} {i : Nat} {e : K × V}, liveOf l i = some e →
      keys ((l.set i (some (e.1, v))).filterMap id) = keys (l.filterMap id)
  | [], _, _, h => by simp [liveOf] at h
  | x :: l, 0, e, h => by
    rw [liveOf_cons_zero] at h
    subst h
    rw [List.set_cons_zero, filterMap_id_cons_some, filterMap_id_cons_some, keys_cons, keys_cons]
  | x :: l, i + 1, e, h => by
    rw [liveOf_cons_succ] at h
    rw [List.set_cons_succ]
    cases x with
    | none => rw [filterMap_id_cons_none, filterMap_id_cons_none, keys_filterMap_set_some v h]
    | some y =>
      rw [filterMap_id_cons_some, filterMap_id_cons_some, keys_cons, keys_cons,
        keys_filterMap_set_some v h]


end HashTable

end Hhvm
