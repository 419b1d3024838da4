import Hhvm.Array.Bespoke.Layout

/-!
# 配置の階層の演算と親の辺

`FinalizeHierarchy` の後の比較の演算子が、親の辺でたどれること（`Reach`）と一致することを
示す。

* `le_iff_reach`：`a <= b` は `b` が `a` からたどれるときに限り成り立つ。
* `join_reach`・`join_minimal`：`a | b` は共通の祖先で、その下に別の共通の祖先は無い。
  最小の共通の祖先があればそれを返し（`join_eq_of_least`）、共通の祖先が無ければ `none`
  （`not_reached()`）になる（`join_eq_none_iff`）。
* `meet_reach`・`meet_maximal`・`meet_eq_of_greatest`・`meet_eq_none_iff`：`a & b` について同じ。

鍵は作られた順の番号 `topoIndex` である。親は前に作られているので、辺をたどるたびに番号は
小さくなり（`Reach.topoIndex_le`）、表の中の配置では番号が配置を決める（`topoIndex_inj`）。
祖先の列は番号の降順、子孫の列は昇順に狭義に並ぶので、二分探索と同時に進む探索の補題が使える。
-/

namespace Hhvm

namespace Bespoke

namespace Hierarchy

open Relation Infra.Walk Infra.SortedSearch

variable {H : Hierarchy}

/-- 親の辺でたどれる：`b` は `a` 自身か `a` の祖先。 -/
def Reach (H : Hierarchy) (a b : LayoutIndex) : Prop := ReflTransGen (Edge H.parentsOf) a b

/-! ## 表と作られた順の番号 -/

theorem mem_indices_iff {i : LayoutIndex} : i ∈ H.indices ↔ ∃ l ∈ H.layouts, l.index = i :=
  List.mem_map

theorem fromIndex_eq_some_iff {i : LayoutIndex} {l : Layout} :
    H.fromIndex i = some l ↔ l ∈ H.layouts ∧ l.index = i := by
  constructor
  · intro h
    exact ⟨List.mem_of_find?_eq_some h, by simpa using List.find?_some h⟩
  · rintro ⟨hl, rfl⟩
    -- 同じ添字の配置は一つしかないので、`find?` が最初に見つけるのは `l`
    cases hf : H.fromIndex l.index with
    | none =>
      rw [fromIndex, List.find?_eq_none] at hf
      exact absurd (hf l hl) (by simp)
    | some l' =>
      have hl' := List.mem_of_find?_eq_some hf
      have hidx : l'.index = l.index := by simpa using List.find?_some hf
      rw [List.inj_on_of_nodup_map H.index_nodup hl' hl hidx]

theorem mem_parentsOf_iff {i p : LayoutIndex} :
    p ∈ H.parentsOf i ↔ ∃ l ∈ H.layouts, l.index = i ∧ p ∈ l.parents := by
  unfold parentsOf
  cases hf : H.fromIndex i with
  | none =>
    simp only [Option.map_none, Option.getD_none, List.not_mem_nil, false_iff]
    rintro ⟨l, hl, rfl, _⟩
    rw [fromIndex_eq_some_iff.mpr ⟨hl, rfl⟩] at hf
    cases hf
  | some l =>
    obtain ⟨hl, rfl⟩ := fromIndex_eq_some_iff.mp hf
    simp only [Option.map_some, Option.getD_some]
    constructor
    · exact fun hp => ⟨l, hl, rfl, hp⟩
    · rintro ⟨l', hl', hidx, hp⟩
      rwa [← List.inj_on_of_nodup_map H.index_nodup hl' hl hidx]

/-- 並びの `k` 番目の配置の番号は `k`。 -/
theorem topoIndex_getElem (k : Nat) (hk : k < H.layouts.length) :
    H.topoIndex H.layouts[k].index = k := by
  unfold topoIndex
  rw [List.findIdx_eq hk]
  refine ⟨by simp, fun j hj => ?_⟩
  -- 前の配置の添字は、添字が重複しないので `k` 番目と異なる
  have hne : H.layouts[j].index ≠ H.layouts[k].index := by
    intro heq
    have hk' : k < (H.layouts.map Layout.index).length := by simpa using hk
    have hj' : j < (H.layouts.map Layout.index).length := by simp; omega
    have hmap : (H.layouts.map Layout.index)[j] = (H.layouts.map Layout.index)[k] := by
      simpa using heq
    have := (List.Nodup.getElem_inj_iff H.index_nodup).mp hmap
    omega
  simpa using hne

theorem topoIndex_lt_length_iff {i : LayoutIndex} :
    H.topoIndex i < H.layouts.length ↔ i ∈ H.indices := by
  rw [topoIndex, List.findIdx_lt_length, mem_indices_iff]
  simp

/-- **表の中の配置は番号で決まる。** -/
theorem topoIndex_inj {i j : LayoutIndex} (hi : i ∈ H.indices)
    (h : H.topoIndex i = H.topoIndex j) : i = j := by
  obtain ⟨k, hk, rfl⟩ := List.getElem_of_mem hi
  have hk' : k < H.layouts.length := by simpa [indices] using hk
  have hik : H.topoIndex H.indices[k] = k := by
    simpa [indices] using topoIndex_getElem k hk'
  -- `j` の番号も並びの中にあるので、`j` は表にあり、同じ位置の配置の添字である
  have hj : j ∈ H.indices := topoIndex_lt_length_iff.mp (by omega)
  obtain ⟨k', hk'', rfl⟩ := List.getElem_of_mem hj
  have hjk : H.topoIndex H.indices[k'] = k' := by
    simpa [indices] using topoIndex_getElem k' (by simpa [indices] using hk'')
  have : k = k' := by omega
  subst this
  rfl

/-- **親は前に作られている。** -/
theorem topoIndex_lt_of_mem_parentsOf {i p : LayoutIndex} (hp : p ∈ H.parentsOf i) :
    H.topoIndex p < H.topoIndex i := by
  obtain ⟨l, hl, rfl, hpl⟩ := mem_parentsOf_iff.mp hp
  obtain ⟨k, hk, rfl⟩ := List.getElem_of_mem hl
  have hbefore := H.parents_before k hk p hpl
  -- 親は並びの `k` より前のどこか `j` にある
  obtain ⟨l', hl', rfl⟩ := List.mem_map.mp hbefore
  obtain ⟨j, hj, rfl⟩ := List.mem_take_iff_getElem.mp hl'
  rw [topoIndex_getElem, topoIndex_getElem]
  omega

theorem mem_indices_of_mem_parentsOf {i p : LayoutIndex} (hp : p ∈ H.parentsOf i) :
    i ∈ H.indices ∧ p ∈ H.indices := by
  refine ⟨?_, ?_⟩
  · obtain ⟨l, hl, rfl, _⟩ := mem_parentsOf_iff.mp hp
    exact mem_indices_iff.mpr ⟨l, hl, rfl⟩
  · apply topoIndex_lt_length_iff.mp
    have hi := topoIndex_lt_of_mem_parentsOf hp
    have : H.topoIndex i ≤ H.layouts.length := List.findIdx_le_length
    omega

/-! ## 子の辺 -/

/-- `FinalizeHierarchy` が集める子は、親の辺を逆にたどったもの。 -/
theorem mem_childrenOf_iff {p c : LayoutIndex} : c ∈ H.childrenOf p ↔ p ∈ H.parentsOf c := by
  rw [childrenOf, mem_parentsOf_iff]
  constructor
  · intro h
    obtain ⟨l, hl, rfl⟩ := List.mem_map.mp h
    obtain ⟨hl, hp⟩ := List.mem_filter.mp hl
    exact ⟨l, hl, rfl, by simpa using hp⟩
  · rintro ⟨l, hl, rfl, hp⟩
    exact List.mem_map.mpr ⟨l, List.mem_filter.mpr ⟨hl, by simpa using hp⟩, rfl⟩

theorem edge_childrenOf : Edge H.childrenOf = Function.swap (Edge H.parentsOf) :=
  funext fun _ => funext fun _ => propext mem_childrenOf_iff

/-! ## たどれる配置 -/

/-- **辺をたどるたびに番号は小さくなる。** -/
theorem Reach.topoIndex_le {a b : LayoutIndex} (h : H.Reach a b) :
    H.topoIndex b ≤ H.topoIndex a := by
  induction h with
  | refl => exact Nat.le_refl _
  | tail _ hbc ih => exact Nat.le_of_lt (lt_of_lt_of_le (topoIndex_lt_of_mem_parentsOf hbc) ih)

/-- 表の配置からたどれるのは表の配置。 -/
theorem Reach.mem_indices {a b : LayoutIndex} (h : H.Reach a b) (ha : a ∈ H.indices) :
    b ∈ H.indices := by
  induction h with
  | refl => exact ha
  | tail _ hbc _ => exact (mem_indices_of_mem_parentsOf hbc).2

/-- 表の配置にたどり着くのは表の配置：表に無い配置は親を持たない。 -/
theorem Reach.mem_indices_left {a b : LayoutIndex} (h : H.Reach a b) (hb : b ∈ H.indices) :
    a ∈ H.indices := by
  rcases h.cases_head with rfl | ⟨c, hac, _⟩
  · exact hb
  · exact (mem_indices_of_mem_parentsOf hac).1

/-- 最初の辺で場合を分ける。 -/
theorem reach_iff {a d : LayoutIndex} :
    H.Reach a d ↔ d = a ∨ ∃ p ∈ H.parentsOf a, H.Reach p d := by
  constructor
  · intro h
    rcases h.cases_head with rfl | ⟨p, hp, hpd⟩
    · exact .inl rfl
    · exact .inr ⟨p, hp, hpd⟩
  · rintro (rfl | ⟨p, hp, hpd⟩)
    · exact .refl
    · exact .head hp hpd

/-- 番号の同じ二つの配置の間でたどれるなら、同じ配置。 -/
theorem Reach.eq_of_topoIndex_le {a b : LayoutIndex} (h : H.Reach a b) (ha : a ∈ H.indices)
    (hle : H.topoIndex a ≤ H.topoIndex b) : a = b :=
  topoIndex_inj ha (Nat.le_antisymm hle h.topoIndex_le)

/-! ## 祖先と子孫の列 -/

theorem mem_ancestors_iff {a b : LayoutIndex} :
    b ∈ (finalizeHierarchy H).ancestors a ↔ H.Reach a b := by
  simp only [finalizeHierarchy, mem_sortWith, computeAncestors]
  exact mem_walk_iff a b

theorem mem_descendants_iff {a d : LayoutIndex} :
    d ∈ (finalizeHierarchy H).descendants a ↔ H.Reach d a := by
  simp only [finalizeHierarchy, mem_sortWith, computeDescendants]
  rw [mem_walk_iff, edge_childrenOf]
  exact reflTransGen_swap

theorem ancestorOrdering_iff (x y : LayoutIndex) :
    H.ancestorOrdering x y = true ↔
      OrderDual.toDual (H.topoIndex x) < OrderDual.toDual (H.topoIndex y) := by
  simp [ancestorOrdering]

theorem descendantOrdering_iff (x y : LayoutIndex) :
    H.descendantOrdering x y = true ↔ H.topoIndex x < H.topoIndex y := by
  simp [descendantOrdering]

/-- 祖先の列は番号の降順に狭義に並ぶ。 -/
theorem ancestors_pairwise {a : LayoutIndex} (ha : a ∈ H.indices) :
    ((finalizeHierarchy H).ancestors a).Pairwise
      (fun x y => OrderDual.toDual (H.topoIndex x) < OrderDual.toDual (H.topoIndex y)) := by
  refine sortWith_pairwise ancestorOrdering_iff (walk_nodup _ List.nodup_nil) ?_
  intro x hx y _ hxy
  have hx' : H.Reach a x := (mem_walk_iff a x).mp hx
  exact topoIndex_inj (hx'.mem_indices ha) hxy

/-- 子孫の列は番号の昇順に狭義に並ぶ。 -/
theorem descendants_pairwise {a : LayoutIndex} (ha : a ∈ H.indices) :
    ((finalizeHierarchy H).descendants a).Pairwise
      (fun x y => H.topoIndex x < H.topoIndex y) := by
  refine sortWith_pairwise descendantOrdering_iff (walk_nodup _ List.nodup_nil) ?_
  intro x hx y _ hxy
  have hx' : H.Reach x a := mem_descendants_iff.mp (mem_sortWith.mpr hx)
  exact topoIndex_inj (hx'.mem_indices_left ha) hxy

/-- 二つの祖先の列は同時に進む探索の前提を満たす。 -/
theorem ancestors_merged {a b : LayoutIndex} (ha : a ∈ H.indices) (hb : b ∈ H.indices) :
    Merged (fun x => OrderDual.toDual (H.topoIndex x))
      ((finalizeHierarchy H).ancestors a) ((finalizeHierarchy H).ancestors b) where
  left := ancestors_pairwise ha
  right := ancestors_pairwise hb
  inj _ hx _ _ hxy := topoIndex_inj ((mem_ancestors_iff.mp hx).mem_indices ha) hxy

theorem descendants_merged {a b : LayoutIndex} (ha : a ∈ H.indices) (hb : b ∈ H.indices) :
    Merged H.topoIndex
      ((finalizeHierarchy H).descendants a) ((finalizeHierarchy H).descendants b) where
  left := descendants_pairwise ha
  right := descendants_pairwise hb
  inj _ hx _ _ hxy := topoIndex_inj ((mem_descendants_iff.mp hx).mem_indices_left ha) hxy

/-! ## 比較の演算子 -/

/-- **`a <= b` は `b` が `a` からたどれるときに限り成り立つ。** -/
theorem le_iff_reach {a : LayoutIndex} (ha : a ∈ H.indices) (b : LayoutIndex) :
    H.le a b = true ↔ H.Reach a b := by
  rw [le, binarySearch_iff ancestorOrdering_iff (ancestors_pairwise ha)]
  constructor
  · rintro ⟨y, hy, hyb⟩
    -- 祖先 `y` は表にあるので、番号が同じ `b` は `y` そのもの
    have hreach := mem_ancestors_iff.mp hy
    rwa [← topoIndex_inj (hreach.mem_indices ha) (OrderDual.toDual.injective hyb)]
  · intro h
    exact ⟨b, mem_ancestors_iff.mpr h, rfl⟩

/-- `a | b` は共通の祖先で、共通の祖先のうち番号の最も大きいもの。 -/
theorem join_reach {a b c : LayoutIndex} (ha : a ∈ H.indices) (hb : b ∈ H.indices)
    (h : H.join a b = some c) :
    H.Reach a c ∧ H.Reach b c ∧ ∀ d, H.Reach a d → H.Reach b d → H.topoIndex d ≤ H.topoIndex c := by
  obtain ⟨hca, hcb, hmin⟩ := firstCommon_some ancestorOrdering_iff (ancestors_merged ha hb) h
  refine ⟨mem_ancestors_iff.mp hca, mem_ancestors_iff.mp hcb, fun d hd hd' => ?_⟩
  exact OrderDual.toDual_le_toDual.mp (hmin d (mem_ancestors_iff.mpr hd) (mem_ancestors_iff.mpr hd'))

/-- **`a | b` の下に別の共通の祖先は無い。** -/
theorem join_minimal {a b c : LayoutIndex} (ha : a ∈ H.indices) (hb : b ∈ H.indices)
    (h : H.join a b = some c) {d : LayoutIndex} (hd : H.Reach a d) (hd' : H.Reach b d)
    (hdc : H.Reach d c) : d = c := by
  obtain ⟨_, _, hmax⟩ := join_reach ha hb h
  exact hdc.eq_of_topoIndex_le (hd.mem_indices ha) (hmax d hd hd')

/-- 共通の祖先が無いときに限り、`a | b` は `not_reached()` に落ちる。 -/
theorem join_eq_none_iff {a b : LayoutIndex} (ha : a ∈ H.indices) (hb : b ∈ H.indices) :
    H.join a b = none ↔ ¬∃ d, H.Reach a d ∧ H.Reach b d := by
  constructor
  · rintro h ⟨d, hd, hd'⟩
    exact firstCommon_none ancestorOrdering_iff (ancestors_merged ha hb) h d
      (mem_ancestors_iff.mpr hd) (mem_ancestors_iff.mpr hd')
  · intro h
    cases hj : H.join a b with
    | none => rfl
    | some c =>
      obtain ⟨hac, hbc, _⟩ := join_reach ha hb hj
      exact absurd ⟨c, hac, hbc⟩ h

/-- **最小の共通の祖先があれば、`a | b` はそれを返す。** -/
theorem join_eq_of_least {a b l : LayoutIndex} (ha : a ∈ H.indices) (hb : b ∈ H.indices)
    (hla : H.Reach a l) (hlb : H.Reach b l)
    (hleast : ∀ d, H.Reach a d → H.Reach b d → H.Reach l d) : H.join a b = some l := by
  cases hj : H.join a b with
  | none => exact absurd ⟨l, hla, hlb⟩ ((join_eq_none_iff ha hb).mp hj)
  | some c =>
    obtain ⟨hac, hbc, _⟩ := join_reach ha hb hj
    rw [join_minimal ha hb hj hla hlb (hleast c hac hbc)]

/-- `a & b` は共通の子孫で、共通の子孫のうち番号の最も小さいもの。 -/
theorem meet_reach {a b c : LayoutIndex} (ha : a ∈ H.indices) (hb : b ∈ H.indices)
    (h : H.meet a b = some c) :
    H.Reach c a ∧ H.Reach c b ∧ ∀ d, H.Reach d a → H.Reach d b → H.topoIndex c ≤ H.topoIndex d := by
  obtain ⟨hca, hcb, hmin⟩ := firstCommon_some descendantOrdering_iff (descendants_merged ha hb) h
  refine ⟨mem_descendants_iff.mp hca, mem_descendants_iff.mp hcb, fun d hd hd' => ?_⟩
  exact hmin d (mem_descendants_iff.mpr hd) (mem_descendants_iff.mpr hd')

/-- **`a & b` の上に別の共通の子孫は無い。** -/
theorem meet_maximal {a b c : LayoutIndex} (ha : a ∈ H.indices) (hb : b ∈ H.indices)
    (h : H.meet a b = some c) {d : LayoutIndex} (hd : H.Reach d a) (hd' : H.Reach d b)
    (hcd : H.Reach c d) : d = c := by
  obtain ⟨hc, _, hmin⟩ := meet_reach ha hb h
  exact (hcd.eq_of_topoIndex_le (hc.mem_indices_left ha) (hmin d hd hd')).symm

/-- **共通の子孫が無いときに限り、`a & b` は `nullptr`。** -/
theorem meet_eq_none_iff {a b : LayoutIndex} (ha : a ∈ H.indices) (hb : b ∈ H.indices) :
    H.meet a b = none ↔ ¬∃ d, H.Reach d a ∧ H.Reach d b := by
  constructor
  · rintro h ⟨d, hd, hd'⟩
    exact firstCommon_none descendantOrdering_iff (descendants_merged ha hb) h d
      (mem_descendants_iff.mpr hd) (mem_descendants_iff.mpr hd')
  · intro h
    cases hm : H.meet a b with
    | none => rfl
    | some c =>
      obtain ⟨hca, hcb, _⟩ := meet_reach ha hb hm
      exact absurd ⟨c, hca, hcb⟩ h

/-- **最大の共通の子孫があれば、`a & b` はそれを返す。** -/
theorem meet_eq_of_greatest {a b g : LayoutIndex} (ha : a ∈ H.indices) (hb : b ∈ H.indices)
    (hga : H.Reach g a) (hgb : H.Reach g b)
    (hgreatest : ∀ d, H.Reach d a → H.Reach d b → H.Reach d g) : H.meet a b = some g := by
  cases hm : H.meet a b with
  | none => exact absurd ⟨g, hga, hgb⟩ ((meet_eq_none_iff ha hb).mp hm)
  | some c =>
    obtain ⟨hca, hcb, _⟩ := meet_reach ha hb hm
    rw [meet_maximal ha hb hm hga hgb (hgreatest c hca hcb)]

end Hierarchy

end Bespoke

end Hhvm
