import Mathlib

/-!
# 整列した列の探索

鍵 `key` について狭義に増える列での二つの探索。

* `sortWith`：`std::sort`。比較が鍵の `<` で、鍵が要素ごとに異なれば、鍵について狭義に
  増える列を返す（`sortWith_pairwise`）。
* `lowerBound`・`binarySearch`：`std::lower_bound`・`std::binary_search`。比較 `comp` が鍵の
  `<` であれば、探す値と同じ鍵の要素があるときに限り `true` を返す（`binarySearch_iff`）。
* `firstCommon`：二つの列を小さい方から同時に進み、最初に一致した要素を返す。両方にある要素の
  うち鍵の最も小さいものを返し、共通の要素が無ければ `none`（`firstCommon_some`、
  `firstCommon_none`）。二つの列の間で鍵が同じなら同じ要素であることを仮定する。
-/

namespace Infra.SortedSearch

variable {α β : Type} [LinearOrder β] {key : α → β}

/-! ## 整列した列の添字 -/

/-- 狭義に増える列では、前の添字の要素ほど鍵が小さい。 -/
theorem key_lt_of_lt {l : List α} (hs : l.Pairwise (fun a b => key a < key b)) {i j : Nat}
    {x y : α} (hx : l[i]? = some x) (hy : l[j]? = some y) (hij : i < j) : key x < key y := by
  obtain ⟨hi, rfl⟩ := List.getElem?_eq_some_iff.mp hx
  obtain ⟨hj, rfl⟩ := List.getElem?_eq_some_iff.mp hy
  exact List.pairwise_iff_getElem.mp hs i j hi hj hij

theorem key_le_of_le {l : List α} (hs : l.Pairwise (fun a b => key a < key b)) {i j : Nat}
    {x y : α} (hx : l[i]? = some x) (hy : l[j]? = some y) (hij : i ≤ j) : key x ≤ key y := by
  rcases Nat.lt_or_eq_of_le hij with hlt | rfl
  · exact le_of_lt (key_lt_of_lt hs hx hy hlt)
  · rw [hx] at hy
    rw [Option.some.inj hy]

/-! ## 並べ替え -/

/-- `std::sort`：比較 `comp` で並べ替える。後ろの要素が前の要素より `comp` で小さくならない。 -/
def sortWith (comp : α → α → Bool) (l : List α) : List α :=
  l.mergeSort (fun x y => !comp y x)

theorem mem_sortWith {comp : α → α → Bool} {l : List α} {x : α} :
    x ∈ sortWith comp l ↔ x ∈ l :=
  (List.mergeSort_perm l _).mem_iff

/-- **並べ替えた列は鍵について狭義に増える。** 鍵が同じ要素は同じ要素であることを仮定する。 -/
theorem sortWith_pairwise {comp : α → α → Bool} (hcomp : ∀ x y, comp x y = true ↔ key x < key y)
    {l : List α} (hnd : l.Nodup) (hinj : ∀ x ∈ l, ∀ y ∈ l, key x = key y → x = y) :
    (sortWith comp l).Pairwise (fun a b => key a < key b) := by
  -- `!comp y x` は鍵の `≤` なので、`mergeSort` の結果は鍵について弱く増える
  have hle : ∀ x y, (!comp y x) = true ↔ key x ≤ key y := by
    intro x y
    rw [Bool.not_eq_true', ← Bool.not_eq_true, hcomp, not_lt]
  have hsorted := List.pairwise_mergeSort
    (fun a b c hab hbc => (hle a c).mpr (le_trans ((hle a b).mp hab) ((hle b c).mp hbc)))
    (fun a b => by
      rcases le_total (key a) (key b) with h | h
      · rw [(hle a b).mpr h, Bool.true_or]
      · rw [(hle b a).mpr h, Bool.or_true])
    l
  have hnd' : (sortWith comp l).Nodup := (List.mergeSort_perm l _).nodup_iff.mpr hnd
  refine (hsorted.and hnd').imp_of_mem (fun {a b} ha hb ⟨hab, hne⟩ => ?_)
  refine lt_of_le_of_ne ((hle a b).mp hab) (fun heq => hne ?_)
  exact hinj a (mem_sortWith.mp ha) b (mem_sortWith.mp hb) heq

/-! ## 二分探索 -/

/-- `std::lower_bound`：`[first, first + count)` を半分ずつ狭め、`comp x v` が成り立たない
最初の位置を返す。 -/
def lowerBound (comp : α → α → Bool) (l : List α) (v : α) (first count : Nat) : Nat :=
  if count = 0 then first
  else
    match l[first + count / 2]? with
    | some x =>
      if comp x v then lowerBound comp l v (first + count / 2 + 1) (count - (count / 2 + 1))
      else lowerBound comp l v first (count / 2)
    | none => first
termination_by count
decreasing_by all_goals omega

/-- `std::binary_search`：下限の位置に `comp v x` の成り立たない要素があるか。 -/
def binarySearch (comp : α → α → Bool) (l : List α) (v : α) : Bool :=
  match l[lowerBound comp l v 0 l.length]? with
  | some x => !comp v x
  | none => false

variable {comp : α → α → Bool}

/-- **下限の位置。** 窓の左は `v` より鍵が小さく、窓の右は `v` 以上という不変条件のもとで、
返す位置の左はすべて `v` より小さく、右（その位置を含む）はすべて `v` 以上である。 -/
theorem lowerBound_spec (hcomp : ∀ x y, comp x y = true ↔ key x < key y)
    {l : List α} (hs : l.Pairwise (fun a b => key a < key b)) (v : α) (first count : Nat)
    (hwin : first + count ≤ l.length)
    (hleft : ∀ i x, l[i]? = some x → i < first → key x < key v)
    (hright : ∀ i x, l[i]? = some x → first + count ≤ i → key v ≤ key x) :
    lowerBound comp l v first count ≤ l.length ∧
      (∀ i x, l[i]? = some x → i < lowerBound comp l v first count → key x < key v) ∧
      (∀ i x, l[i]? = some x → lowerBound comp l v first count ≤ i → key v ≤ key x) := by
  fun_induction lowerBound comp l v first count with
  | case1 first =>
    exact ⟨by omega, hleft, fun i x hx hi => hright i x hx (by omega)⟩
  | case2 first count hc x hx hlt ih =>
    -- 中央の要素は `v` より小さいので、中央までを左に移す
    have hxv := (hcomp x v).mp hlt
    refine ih (by omega) (fun i y hy hi => ?_) (fun i y hy hi => hright i y hy (by omega))
    rcases Nat.lt_or_ge i first with hi' | hi'
    · exact hleft i y hy hi'
    · exact lt_of_le_of_lt (key_le_of_le hs hy hx (by omega)) hxv
  | case3 first count hc x hx hlt ih =>
    -- 中央の要素は `v` 以上なので、中央から右を窓の外に出す
    have hvx : key v ≤ key x := not_lt.mp (fun h => hlt ((hcomp x v).mpr h))
    refine ih (by omega) hleft (fun i y hy hi => ?_)
    exact le_trans hvx (key_le_of_le hs hx hy (by omega))
  | case4 first count hc hnone =>
    have : first + count / 2 < l.length := by omega
    rw [List.getElem?_eq_getElem this] at hnone
    cases hnone

/-- **二分探索の答え。** 狭義に増える列に、`v` と同じ鍵の要素があるときに限り `true`。 -/
theorem binarySearch_iff (hcomp : ∀ x y, comp x y = true ↔ key x < key y)
    {l : List α} (hs : l.Pairwise (fun a b => key a < key b)) (v : α) :
    binarySearch comp l v = true ↔ ∃ y ∈ l, key y = key v := by
  obtain ⟨hlen, hleft, hright⟩ := lowerBound_spec hcomp hs v 0 l.length (by omega)
    (fun _ _ _ h => absurd h (Nat.not_lt_zero _)) (fun i _ hx h => absurd hx (by
      rw [List.getElem?_eq_none (by omega)]; simp))
  unfold binarySearch
  constructor
  · intro h
    split at h
    · next x hx =>
      -- 下限の要素は `v` 以上で、`comp v x` が成り立たないので `v` 以下
      have hge := hright _ x hx (Nat.le_refl _)
      have hle : key x ≤ key v := not_lt.mp (fun hlt => by simp [(hcomp v x).mpr hlt] at h)
      exact ⟨x, List.mem_of_getElem? hx, le_antisymm hle hge⟩
    · cases h
  · rintro ⟨y, hy, hyv⟩
    obtain ⟨j, hj, rfl⟩ := List.getElem_of_mem hy
    have hyj : l[j]? = some l[j] := List.getElem?_eq_getElem hj
    -- `y` は `v` より小さくないので、下限の位置は `y` の位置より左にある
    have hrj : lowerBound comp l v 0 l.length ≤ j := by
      by_contra hlt
      exact absurd (hleft j _ hyj (by omega)) (by rw [hyv]; exact lt_irrefl _)
    have hr : lowerBound comp l v 0 l.length < l.length := by omega
    rw [List.getElem?_eq_getElem hr]
    have hxv := le_antisymm (hyv ▸ key_le_of_le hs (List.getElem?_eq_getElem hr) hyj hrj)
      (hright _ _ (List.getElem?_eq_getElem hr) (Nat.le_refl _))
    simp only [Bool.not_eq_eq_eq_not, Bool.not_true]
    rw [Bool.eq_false_iff]
    intro hc
    exact absurd ((hcomp v _).mp hc) (by rw [hxv]; exact lt_irrefl _)

/-! ## 最初の共通の要素 -/

/-- 二つの列を同時に進む：先頭が同じならそれを返し、そうでなければ `lt` で小さい方を進める。 -/
def firstCommon [DecidableEq α] (lt : α → α → Bool) : List α → List α → Option α
  | x :: xs, y :: ys =>
    if x = y then some x
    else if lt x y then firstCommon lt xs (y :: ys)
    else firstCommon lt (x :: xs) ys
  | _, _ => none

variable {lt : α → α → Bool}

/-- 二つの列の前提：どちらも鍵について狭義に増え、二つの列の間で鍵が同じなら同じ要素。 -/
structure Merged (key : α → β) (xs ys : List α) : Prop where
  left : xs.Pairwise (fun a b => key a < key b)
  right : ys.Pairwise (fun a b => key a < key b)
  inj : ∀ x ∈ xs, ∀ y ∈ ys, key x = key y → x = y

theorem Merged.tail_left {x : α} {xs ys : List α} (h : Merged key (x :: xs) ys) :
    Merged key xs ys :=
  ⟨(List.pairwise_cons.mp h.left).2, h.right,
    fun a ha b hb => h.inj a (List.mem_cons_of_mem x ha) b hb⟩

theorem Merged.tail_right {y : α} {xs ys : List α} (h : Merged key xs (y :: ys)) :
    Merged key xs ys :=
  ⟨h.left, (List.pairwise_cons.mp h.right).2,
    fun a ha b hb => h.inj a ha b (List.mem_cons_of_mem y hb)⟩

/-- 先頭の鍵が小さい方の先頭は、もう一方の列に無い。 -/
theorem not_mem_of_key_lt {x y : α} {ys : List α} (hy : (y :: ys).Pairwise (fun a b => key a < key b))
    (hxy : x ≠ y) (hlt : key x < key y) : x ∉ y :: ys := by
  intro hx
  rcases List.mem_cons.mp hx with rfl | hx
  · exact hxy rfl
  · exact lt_asymm hlt ((List.pairwise_cons.mp hy).1 x hx)

variable [DecidableEq α]

/-- **一致した要素は、共通の要素のうち鍵の最も小さいもの。** -/
theorem firstCommon_some (hlt : ∀ x y, lt x y = true ↔ key x < key y) {xs ys : List α}
    (h : Merged key xs ys) {c : α} (hc : firstCommon lt xs ys = some c) :
    c ∈ xs ∧ c ∈ ys ∧ ∀ d ∈ xs, d ∈ ys → key c ≤ key d := by
  fun_induction firstCommon lt xs ys with
  | case1 xs y ys =>
    cases hc
    refine ⟨List.mem_cons_self, List.mem_cons_self, fun d hd _ => ?_⟩
    rcases List.mem_cons.mp hd with rfl | hd
    · exact le_refl _
    · exact le_of_lt ((List.pairwise_cons.mp h.left).1 d hd)
  | case2 x xs y ys hxy hxy' ih =>
    -- `x` の鍵は `y` より小さいので、`x` は右の列に無い
    obtain ⟨hcx, hcy, hmin⟩ := ih h.tail_left hc
    have hx := not_mem_of_key_lt h.right hxy ((hlt x y).mp hxy')
    refine ⟨List.mem_cons_of_mem x hcx, hcy, fun d hd hdy => ?_⟩
    rcases List.mem_cons.mp hd with rfl | hd
    · exact absurd hdy hx
    · exact hmin d hd hdy
  | case3 x xs y ys hxy hxy' ih =>
    -- 鍵が同じなら同じ要素なので、`y` の鍵は `x` より小さく、`y` は左の列に無い
    have hyx : key y < key x := by
      rcases lt_trichotomy (key x) (key y) with h' | h' | h'
      · exact absurd ((hlt x y).mpr h') hxy'
      · exact absurd (h.inj x List.mem_cons_self y List.mem_cons_self h') hxy
      · exact h'
    obtain ⟨hcx, hcy, hmin⟩ := ih h.tail_right hc
    have hy := not_mem_of_key_lt h.left (Ne.symm hxy) hyx
    refine ⟨hcx, List.mem_cons_of_mem y hcy, fun d hd hdy => ?_⟩
    rcases List.mem_cons.mp hdy with rfl | hdy
    · exact absurd hd hy
    · exact hmin d hd hdy
  | case4 => cases hc

/-- **共通の要素が無いときに限り `none`。** -/
theorem firstCommon_none (hlt : ∀ x y, lt x y = true ↔ key x < key y) {xs ys : List α}
    (h : Merged key xs ys) (hc : firstCommon lt xs ys = none) : ∀ d ∈ xs, d ∉ ys := by
  fun_induction firstCommon lt xs ys with
  | case1 => cases hc
  | case2 x xs y ys hxy hxy' ih =>
    have hx := not_mem_of_key_lt h.right hxy ((hlt x y).mp hxy')
    intro d hd hdy
    rcases List.mem_cons.mp hd with rfl | hd
    · exact hx hdy
    · exact ih h.tail_left hc d hd hdy
  | case3 x xs y ys hxy hxy' ih =>
    have hyx : key y < key x := by
      rcases lt_trichotomy (key x) (key y) with h' | h' | h'
      · exact absurd ((hlt x y).mpr h') hxy'
      · exact absurd (h.inj x List.mem_cons_self y List.mem_cons_self h') hxy
      · exact h'
    have hy := not_mem_of_key_lt h.left (Ne.symm hxy) hyx
    intro d hd hdy
    rcases List.mem_cons.mp hdy with rfl | hdy
    · exact hy hd
    · exact ih h.tail_right hc d hd hdy
  | case4 xs ys hne =>
    intro d hd hdy
    match xs, ys, hd, hdy with
    | _ :: _, _ :: _, _, _ => exact hne _ _ _ _ rfl rfl

/-! ## 条件を満たす最大の数

`Nat.findGreatest` は上から下へ探す。二つの探索が範囲 `(0, a]` で同じ条件を見て、`(a, b]` では
後者の条件が成り立たなければ、結果は同じ。 -/

theorem findGreatest_eq_of_iff {P Q : Nat → Prop} [DecidablePred P] [DecidablePred Q] {a b : Nat}
    (hab : a ≤ b) (hPQ : ∀ n, 0 < n → n ≤ a → (P n ↔ Q n)) (hQ : ∀ n, a < n → n ≤ b → ¬Q n) :
    Nat.findGreatest P a = Nat.findGreatest Q b := by
  have hle := Nat.findGreatest_le (P := P) a
  symm
  rw [Nat.findGreatest_eq_iff]
  refine ⟨hle.trans hab, fun h0 => ?_, fun n hlt hn => ?_⟩
  · exact (hPQ _ (Nat.pos_of_ne_zero h0) hle).mp (Nat.findGreatest_of_ne_zero rfl h0)
  · by_cases hna : n ≤ a
    · exact fun hq => Nat.findGreatest_is_greatest hlt hna ((hPQ n (by omega) hna).mpr hq)
    · exact hQ n (by omega) hn

end Infra.SortedSearch
