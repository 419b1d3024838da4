import Hhvm.Util.UnionFind
import Hhvm.Infra.Forest

/-!
# `UnionFind` の不変条件

`parentOf nodes` を親への写像とする森として `UnionFind` を読む。

* `Wf nodes`：親は範囲内で、大きさ `size` は親をたどると真に増える階数（`Infra.Forest.Ranked`）。
  根の大きさはその木の節点の数。
* `find` は燃料を使い切らずに根を返し、付け替えた後も各節点の根と大きさは変わらない
  （`find_spec`）。
* `Inv`：さらに `indices` が挿入した節点を番号 `0, 1, ...` に対応させ、二つの節点の根が同じことと、
  併合した対が生成する同値関係でつながることが同じ。
-/

namespace Hhvm.UnionFind

open Infra.Forest Infra.Partition

variable {T : Type} [DecidableEq T]

/-! ## 節点の列の操作 -/

section Nodes

theorem parentOf_of_lt {nodes : List Node} {j : Nat} (h : j < nodes.length) :
    parentOf nodes j = nodes[j].parent := by
  rw [parentOf, List.getElem?_eq_getElem h]
  rfl

theorem parentOf_of_le {nodes : List Node} {j : Nat} (h : nodes.length ≤ j) : parentOf nodes j = j := by
  rw [parentOf, List.getElem?_eq_none h]
  rfl

theorem sizeAt_of_le {nodes : List Node} {j : Nat} (h : nodes.length ≤ j) : sizeAt nodes j = 0 := by
  rw [sizeAt, List.getElem?_eq_none h]
  rfl

@[simp] theorem length_setParent (nodes : List Node) (j q : Nat) :
    (setParent nodes j q).length = nodes.length :=
  List.length_modify _ _ _

@[simp] theorem length_addSize (nodes : List Node) (j d : Nat) :
    (addSize nodes j d).length = nodes.length :=
  List.length_modify _ _ _

theorem parentOf_setParent {nodes : List Node} {j : Nat} (h : j < nodes.length) (q : Nat) :
    parentOf (setParent nodes j q) = Function.update (parentOf nodes) j q := by
  funext i
  by_cases hij : i = j
  · subst hij
    rw [Function.update_self]
    simp [parentOf, setParent, List.getElem?_eq_getElem h]
  · rw [Function.update_of_ne hij, parentOf, parentOf, setParent, List.getElem?_modify]
    cases nodes[i]? with
    | none => rfl
    | some nd => simp [Ne.symm hij]

theorem sizeAt_setParent (nodes : List Node) (j q : Nat) : sizeAt (setParent nodes j q) = sizeAt nodes := by
  funext i
  rw [sizeAt, sizeAt, setParent, List.getElem?_modify]
  cases nodes[i]? with
  | none => rfl
  | some nd => by_cases hij : j = i <;> simp [hij]

theorem parentOf_addSize (nodes : List Node) (j d : Nat) : parentOf (addSize nodes j d) = parentOf nodes := by
  funext i
  rw [parentOf, parentOf, addSize, List.getElem?_modify]
  cases nodes[i]? with
  | none => rfl
  | some nd => by_cases hij : j = i <;> simp [hij]

theorem sizeAt_addSize {nodes : List Node} {j : Nat} (h : j < nodes.length) (d : Nat) :
    sizeAt (addSize nodes j d) = Function.update (sizeAt nodes) j (sizeAt nodes j + d) := by
  funext i
  by_cases hij : i = j
  · subst hij
    rw [Function.update_self]
    simp [sizeAt, addSize, List.getElem?_eq_getElem h]
  · rw [Function.update_of_ne hij, sizeAt, sizeAt, addSize, List.getElem?_modify]
    cases nodes[i]? with
    | none => rfl
    | some nd => simp [Ne.symm hij]

/-- 新しい節点は自分が親なので、親への写像は変わらない。 -/
theorem parentOf_append_root (nodes : List Node) :
    parentOf (nodes ++ [⟨nodes.length, 1⟩]) = parentOf nodes := by
  funext i
  rcases Nat.lt_trichotomy i nodes.length with hi | hi | hi
  · rw [parentOf, parentOf, List.getElem?_append_left hi]
  · subst hi
    rw [parentOf_of_le (Nat.le_refl _), parentOf, List.getElem?_append_right (Nat.le_refl _),
      Nat.sub_self]
    rfl
  · rw [parentOf_of_le (by rw [List.length_append, List.length_singleton]; omega),
      parentOf_of_le (Nat.le_of_lt hi)]

theorem sizeAt_append_root (nodes : List Node) :
    sizeAt (nodes ++ [⟨nodes.length, 1⟩]) = Function.update (sizeAt nodes) nodes.length 1 := by
  funext i
  rcases Nat.lt_trichotomy i nodes.length with hi | hi | hi
  · rw [Function.update_of_ne (Nat.ne_of_lt hi), sizeAt, sizeAt, List.getElem?_append_left hi]
  · subst hi
    rw [Function.update_self, sizeAt, List.getElem?_append_right (Nat.le_refl _), Nat.sub_self]
    rfl
  · rw [Function.update_of_ne (Nat.ne_of_gt hi),
      sizeAt_of_le (by rw [List.length_append, List.length_singleton]; omega),
      sizeAt_of_le (Nat.le_of_lt hi)]

end Nodes

/-! ## 森 -/

/-- 節点 `j` の根：親を `nodes.size() + 1` 回たどった先。 -/
def rootOf (nodes : List Node) (j : Nat) : Nat := (parentOf nodes)^[nodes.length + 1] j

/-- 根 `r` の木の節点の数。 -/
def treeSize (nodes : List Node) (r : Nat) : Nat :=
  (List.range nodes.length).countP fun i => rootOf nodes i = r

/-- 節点の列の不変条件：親は範囲内、大きさは親へ真に増え、根の大きさは木の節点の数。 -/
structure Wf (nodes : List Node) : Prop where
  parent_lt : ∀ i < nodes.length, parentOf nodes i < nodes.length
  ranked : Ranked (parentOf nodes) (sizeAt nodes) nodes.length
  size_pos : ∀ i < nodes.length, 0 < sizeAt nodes i
  root_size : ∀ r < nodes.length, parentOf nodes r = r → sizeAt nodes r = treeSize nodes r

section Wf

variable {nodes : List Node}

theorem Wf.isRootOf (h : Wf nodes) (j : Nat) : IsRootOf (parentOf nodes) j (rootOf nodes j) :=
  h.ranked.isRootOf_iterate j

theorem Wf.rootOf_eq (h : Wf nodes) {j r : Nat} (hj : IsRootOf (parentOf nodes) j r) :
    rootOf nodes j = r :=
  h.ranked.iterate_eq hj

theorem Wf.parentOf_rootOf (h : Wf nodes) (j : Nat) :
    parentOf nodes (rootOf nodes j) = rootOf nodes j :=
  (h.isRootOf j).1

theorem Wf.iterate_lt (h : Wf nodes) {j : Nat} (hj : j < nodes.length) (k : Nat) :
    (parentOf nodes)^[k] j < nodes.length := by
  induction k with
  | zero => exact hj
  | succ k ih =>
    rw [Function.iterate_succ_apply']
    exact h.parent_lt _ ih

theorem Wf.rootOf_lt (h : Wf nodes) {j : Nat} (hj : j < nodes.length) : rootOf nodes j < nodes.length :=
  h.iterate_lt hj _

/-- 根は自分が根の節点。 -/
theorem Wf.rootOf_eq_self_iff (h : Wf nodes) (j : Nat) : rootOf nodes j = j ↔ parentOf nodes j = j := by
  constructor
  · intro hj
    have := h.parentOf_rootOf j
    rwa [hj] at this
  · intro hj
    exact h.rootOf_eq (isRootOf_self hj)

theorem Wf.rootOf_rootOf (h : Wf nodes) (j : Nat) : rootOf nodes (rootOf nodes j) = rootOf nodes j :=
  (h.rootOf_eq_self_iff _).mpr (h.parentOf_rootOf j)

end Wf

/-- `nodes'` は `nodes` の親を付け替えただけの森：長さも、各節点の根も、大きさも同じ。 -/
structure Compressed (nodes nodes' : List Node) : Prop where
  wf : Wf nodes'
  length_eq : nodes'.length = nodes.length
  rootOf_eq : rootOf nodes' = rootOf nodes
  sizeAt_eq : sizeAt nodes' = sizeAt nodes

theorem Compressed.refl {nodes : List Node} (h : Wf nodes) : Compressed nodes nodes :=
  ⟨h, rfl, rfl, rfl⟩

theorem Compressed.trans {a b c : List Node} (hab : Compressed a b) (hbc : Compressed b c) :
    Compressed a c :=
  ⟨hbc.wf, hbc.length_eq.trans hab.length_eq, hbc.rootOf_eq.trans hab.rootOf_eq,
    hbc.sizeAt_eq.trans hab.sizeAt_eq⟩

/-- `nodes[index].parent = grandparent` は森を保つ。 -/
theorem Wf.halve {nodes : List Node} (h : Wf nodes) {i : Nat} (hi : i < nodes.length) :
    Compressed nodes (setParent nodes i (parentOf nodes (parentOf nodes i))) := by
  set nodes' := setParent nodes i (parentOf nodes (parentOf nodes i))
  have hp : parentOf nodes' = Infra.Forest.halve (parentOf nodes) i := parentOf_setParent hi _
  have hs : sizeAt nodes' = sizeAt nodes := sizeAt_setParent _ _ _
  have hl : nodes'.length = nodes.length := length_setParent _ _ _
  have hranked : Ranked (parentOf nodes') (sizeAt nodes') nodes'.length := by
    rw [hp, hs, hl]
    exact h.ranked.halve i
  have hroot : rootOf nodes' = rootOf nodes := by
    funext j
    refine hranked.iterate_eq ?_
    rw [hp]
    exact (h.isRootOf j).halve i
  refine ⟨⟨fun j hj => ?_, hranked, ?_, fun r hr hroot' => ?_⟩, hl, hroot, hs⟩
  · rw [hl] at hj ⊢
    rw [hp, Infra.Forest.halve]
    by_cases hji : j = i
    · rw [hji, Function.update_self]
      exact h.parent_lt _ (h.parent_lt _ hi)
    · rw [Function.update_of_ne hji]
      exact h.parent_lt _ hj
  · rw [hs, hl]
    exact h.size_pos
  · rw [hl] at hr
    rw [hp, h.ranked.halve_eq_self_iff] at hroot'
    rw [hs, h.root_size r hr hroot', treeSize, treeSize, hroot, hl]

/-- `find` の loop は燃料が足りれば根を返す。燃料は一周ごとに一つ、大きさは少なくとも一つ増える。 -/
theorem findLoop_spec : ∀ (fuel : Nat) (nodes : List Node) (index : Nat), Wf nodes →
    index < nodes.length → nodes.length < sizeAt nodes index + fuel →
    ∃ nodes', findLoop fuel nodes index = some (nodes', rootOf nodes index) ∧ Compressed nodes nodes' := by
  intro fuel
  induction fuel with
  | zero =>
    intro nodes index h _ hfuel
    exact absurd (h.ranked.le_bound index) (by omega)
  | succ fuel ih =>
    intro nodes index h hi hfuel
    rw [findLoop]
    by_cases hroot : parentOf nodes index = index
    · rw [if_neg (not_not.mpr hroot), h.rootOf_eq (isRootOf_self hroot)]
      exact ⟨nodes, rfl, Compressed.refl h⟩
    · -- 祖父へ進む：付け替えた森でも祖父の根は同じ
      rw [if_pos hroot]
      have hc := h.halve hi
      have hgp : parentOf nodes (parentOf nodes index) < nodes.length :=
        h.parent_lt _ (h.parent_lt _ hi)
      have hlt := h.ranked.lt_grandparent hroot
      obtain ⟨nodes'', hrun, hc'⟩ := ih _ _ hc.wf (by rw [hc.length_eq]; exact hgp)
        (by rw [hc.length_eq, hc.sizeAt_eq]; omega)
      refine ⟨nodes'', ?_, hc.trans hc'⟩
      rw [hrun, hc.rootOf_eq, h.rootOf_eq (h.isRootOf index).parent.parent]

theorem countP_or_of_disjoint {l : List Nat} {p q : Nat → Bool} (h : ∀ x ∈ l, ¬(p x ∧ q x)) :
    l.countP (fun x => p x || q x) = l.countP p + l.countP q := by
  induction l with
  | nil => rfl
  | cons x l ih =>
    have hx := h x List.mem_cons_self
    rw [List.countP_cons, List.countP_cons, List.countP_cons,
      ih fun y hy => h y (List.mem_cons_of_mem _ hy)]
    cases hp : p x <;> cases hq : q x <;> simp_all <;> omega

/-- 根 `v` を根 `u` の下に付け、`u` の大きさに `v` の大きさを足す。`v` の木にいた節点の根が `u` になる。 -/
theorem Wf.link {nodes : List Node} (h : Wf nodes) {u v : Nat} (hu : u < nodes.length)
    (hv : v < nodes.length) (hru : parentOf nodes u = u) (hrv : parentOf nodes v = v) (huv : u ≠ v) :
    let nodes' := addSize (setParent nodes v u) u (sizeAt (setParent nodes v u) v)
    Wf nodes' ∧ nodes'.length = nodes.length ∧
      ∀ j, rootOf nodes' j = if rootOf nodes j = v then u else rootOf nodes j := by
  intro nodes'
  have hp : parentOf nodes' = Infra.Forest.link (parentOf nodes) v u := by
    rw [parentOf_addSize, parentOf_setParent hv]
    rfl
  have hs : sizeAt nodes' = Function.update (sizeAt nodes) u (sizeAt nodes u + sizeAt nodes v) := by
    show sizeAt (addSize _ u _) = _
    rw [sizeAt_addSize (by rw [length_setParent]; exact hu), sizeAt_setParent]
  have hl : nodes'.length = nodes.length := by
    show (addSize _ u _).length = _
    rw [length_addSize, length_setParent]
  -- 二つの木は重ならないので、大きさの和は節点の数を超えない
  have hdisj : ∀ i ∈ List.range nodes.length,
      ¬(decide (rootOf nodes i = u) = true ∧ decide (rootOf nodes i = v) = true) := by
    intro i _ hi
    simp only [decide_eq_true_eq] at hi
    exact huv (hi.1.symm.trans hi.2)
  have hsum : sizeAt nodes u + sizeAt nodes v ≤ nodes.length := by
    rw [h.root_size u hu hru, h.root_size v hv hrv, treeSize, treeSize, ← countP_or_of_disjoint hdisj]
    exact (List.countP_le_length).trans (by rw [List.length_range])
  have hranked : Ranked (parentOf nodes') (sizeAt nodes') nodes'.length := by
    rw [hp, hs, hl]
    exact h.ranked.link hru huv (h.size_pos u hu) hsum
  have hroot : ∀ j, rootOf nodes' j = if rootOf nodes j = v then u else rootOf nodes j := fun j =>
    hranked.iterate_eq (by rw [hp]; exact (h.isRootOf j).link hru hrv huv)
  have htree : ∀ r, treeSize nodes' r = (List.range nodes.length).countP
      fun i => (if rootOf nodes i = v then u else rootOf nodes i) = r := by
    intro r
    rw [treeSize, hl]
    exact List.countP_congr fun i _ => by rw [hroot]
  refine ⟨⟨fun j hj => ?_, hranked, fun j hj => ?_, fun r hr hroot' => ?_⟩, hl, hroot⟩
  · rw [hl] at hj ⊢
    rw [hp, Infra.Forest.link]
    by_cases hjv : j = v
    · rw [hjv, Function.update_self]
      exact hu
    · rw [Function.update_of_ne hjv]
      exact h.parent_lt j hj
  · rw [hl] at hj
    rw [hs]
    by_cases hju : j = u
    · rw [hju, Function.update_self]
      have := h.size_pos u hu
      omega
    · rw [Function.update_of_ne hju]
      exact h.size_pos j hj
  · rw [hl] at hr
    rw [hp, link_eq_self_iff huv] at hroot'
    obtain ⟨hrr, hrv'⟩ := hroot'
    rw [hs, htree]
    by_cases hru' : r = u
    · -- 付けた先の根：二つの木を合わせた大きさ
      subst hru'
      rw [Function.update_self, h.root_size r hr hru, h.root_size v hv hrv, treeSize, treeSize,
        ← countP_or_of_disjoint hdisj]
      refine List.countP_congr fun i _ => ?_
      by_cases hi : rootOf nodes i = v <;> simp [hi]
    · -- ほかの根の木は変わらない
      rw [Function.update_of_ne hru', h.root_size r hr hrr, treeSize]
      refine List.countP_congr fun i _ => ?_
      by_cases hi : rootOf nodes i = v
      · simp [hi, Ne.symm hru', Ne.symm hrv']
      · simp [hi]

/-- 新しい節点を根として積む。古い節点の根は変わらない。 -/
theorem Wf.appendRoot {nodes : List Node} (h : Wf nodes) :
    Wf (nodes ++ [⟨nodes.length, 1⟩]) ∧ rootOf (nodes ++ [⟨nodes.length, 1⟩]) = rootOf nodes := by
  set n := nodes.length
  have hp := parentOf_append_root nodes
  have hs := sizeAt_append_root nodes
  have hl : (nodes ++ [(⟨n, 1⟩ : Node)]).length = n + 1 := by rw [List.length_append, List.length_singleton]
  -- 根でない節点は古い節点で、その親も古い節点
  have hold : ∀ x, parentOf nodes x ≠ x → x < n ∧ parentOf nodes x < n := fun x hx =>
    have hxn : x < n := by
      by_contra hxn
      exact hx (parentOf_of_le (Nat.le_of_not_lt hxn))
    ⟨hxn, h.parent_lt x hxn⟩
  have hranked : Ranked (parentOf (nodes ++ [(⟨n, 1⟩ : Node)])) (sizeAt (nodes ++ [(⟨n, 1⟩ : Node)]))
      (nodes ++ [(⟨n, 1⟩ : Node)]).length := by
    rw [hp, hs, hl]
    constructor
    · intro x hx
      obtain ⟨hxn, hpn⟩ := hold x hx
      rw [Function.update_of_ne (Nat.ne_of_lt hxn), Function.update_of_ne (Nat.ne_of_lt hpn)]
      exact h.ranked.lt_parent x hx
    · intro x
      by_cases hx : x = n
      · rw [hx, Function.update_self]
        omega
      · rw [Function.update_of_ne hx]
        exact Nat.le_succ_of_le (h.ranked.le_bound x)
  have hroot : rootOf (nodes ++ [(⟨n, 1⟩ : Node)]) = rootOf nodes := by
    funext j
    refine hranked.iterate_eq ?_
    rw [hp]
    exact h.isRootOf j
  have hrootn : rootOf nodes n = n := h.rootOf_eq (isRootOf_self (parentOf_of_le (Nat.le_refl n)))
  refine ⟨⟨fun j hj => ?_, hranked, fun j hj => ?_, fun r hr hrr => ?_⟩, hroot⟩
  · rw [hl] at hj ⊢
    rw [hp]
    rcases Nat.lt_or_ge j n with hj' | hj'
    · exact Nat.lt_succ_of_lt (h.parent_lt j hj')
    · rw [parentOf_of_le hj']
      exact hj
  · rw [hl] at hj
    rw [hs]
    by_cases hjn : j = n
    · rw [hjn, Function.update_self]
      exact Nat.one_pos
    · rw [Function.update_of_ne hjn]
      exact h.size_pos j (by omega)
  · -- 新しい木は新しい節点だけ。古い木に新しい節点は入らない
    rw [hl] at hr
    rw [hp] at hrr
    rw [hs, treeSize, hroot, hl, List.range_succ, List.countP_append, List.countP_singleton, hrootn]
    have hold_roots : ∀ i ∈ List.range n, rootOf nodes i ≠ n := fun i hi =>
      Nat.ne_of_lt (h.rootOf_lt (List.mem_range.mp hi))
    by_cases hrn : r = n
    · subst hrn
      rw [Function.update_self, List.countP_eq_zero.mpr (fun i hi => by simpa using hold_roots i hi)]
      simp
    · rw [Function.update_of_ne hrn, h.root_size r (by omega) hrr, treeSize]
      simp [Ne.symm hrn]
      rfl

/-- `merge` の後半：二つの根のどちらかがもう一方の下に付き、その木の節点の根が付け替わる。 -/
theorem Wf.linkRoots {nodes : List Node} (h : Wf nodes) {index1 index2 : Nat}
    (h1 : index1 < nodes.length) (h2 : index2 < nodes.length) (hr1 : parentOf nodes index1 = index1)
    (hr2 : parentOf nodes index2 = index2) :
    Wf (linkRoots nodes index1 index2) ∧ (linkRoots nodes index1 index2).length = nodes.length ∧
      ∃ u v, ((u = index1 ∧ v = index2) ∨ (u = index2 ∧ v = index1)) ∧
        ∀ j, rootOf (linkRoots nodes index1 index2) j =
          if rootOf nodes j = v then u else rootOf nodes j := by
  unfold UnionFind.linkRoots
  by_cases heq : index1 = index2
  · -- 同じ根：何も変えない
    rw [if_pos heq]
    refine ⟨h, rfl, index1, index2, Or.inl ⟨rfl, rfl⟩, fun j => ?_⟩
    split
    · rename_i hj
      rw [hj, heq]
    · rfl
  · rw [if_neg heq]
    by_cases hlt : sizeAt nodes index1 < sizeAt nodes index2
    · -- `index1` の木が小さい：`index1` を `index2` の下に付ける
      rw [if_pos hlt]
      obtain ⟨hwf, hl, hroot⟩ := h.link h2 h1 hr2 hr1 (Ne.symm heq)
      exact ⟨hwf, hl, index2, index1, Or.inr ⟨rfl, rfl⟩, hroot⟩
    · rw [if_neg hlt]
      obtain ⟨hwf, hl, hroot⟩ := h.link h1 h2 hr1 hr2 heq
      exact ⟨hwf, hl, index1, index2, Or.inl ⟨rfl, rfl⟩, hroot⟩

/-- `find(index)` は根を返し、森の形のほかは変えない。 -/
theorem find_spec {nodes : List Node} (h : Wf nodes) {index : Nat} (hi : index < nodes.length) :
    ∃ nodes', find nodes index = some (nodes', rootOf nodes index) ∧ Compressed nodes nodes' :=
  findLoop_spec _ _ _ h hi (by omega)

/-! ## 節点と番号 -/

section Indices

theorem lookup_of_mem {l : List (T × Nat)} (hnd : (l.map Prod.fst).Nodup) {x : T} {i : Nat}
    (h : (x, i) ∈ l) : l.lookup x = some i := by
  induction l with
  | nil => exact absurd h List.not_mem_nil
  | cons p l ih =>
    obtain ⟨k, j⟩ := p
    rw [List.map_cons, List.nodup_cons] at hnd
    rcases List.mem_cons.mp h with hhd | hmem
    · rw [Prod.mk.injEq] at hhd
      rw [hhd.1, hhd.2, List.lookup_cons_self]
    · -- 先頭の鍵は `x` ではない
      have hxk : (x == k) = false :=
        beq_eq_false_iff_ne.mpr fun hxk => hnd.1 (List.mem_map.mpr ⟨(x, i), hmem, hxk⟩)
      rw [List.lookup_cons, hxk]
      exact ih hnd.2 hmem

theorem lookup_eq_none {l : List (T × Nat)} {x : T} (h : x ∉ l.map Prod.fst) : l.lookup x = none := by
  refine List.lookup_eq_none_iff.mpr fun p hp => ?_
  have hne : x ≠ p.1 := fun hx => h (hx ▸ List.mem_map_of_mem hp)
  simpa using hne

/-- 節点の番号。`indices.at(node)`。 -/
def indexOf (uf : UnionFind T) (x : T) : Nat := (uf.indices.lookup x).getD 0

end Indices

/-! ## 不変条件 -/

/-- 挿入した節点の列 `xs` と併合した対の列 `ms` に対する `UnionFind` の不変条件。 -/
structure Inv (uf : UnionFind T) (xs : List T) (ms : List (T × T)) : Prop where
  wf : Wf uf.nodes
  keys : uf.indices.map Prod.fst = xs
  vals : uf.indices.map Prod.snd = List.range uf.nodes.length
  nodup : xs.Nodup
  merged : ∀ p ∈ ms, p.1 ∈ xs ∧ p.2 ∈ xs
  represents : Represents xs (fun x => rootOf uf.nodes (indexOf uf x)) (Conn ms)

section Inv

variable {uf : UnionFind T} {xs : List T} {ms : List (T × T)}

theorem Inv.mem_indices (h : Inv uf xs ms) {p : T × Nat} (hp : p ∈ uf.indices) :
    uf.indices.lookup p.1 = some p.2 ∧ p.2 < uf.nodes.length := by
  have hnd : (uf.indices.map Prod.fst).Nodup := h.keys ▸ h.nodup
  refine ⟨lookup_of_mem hnd hp, ?_⟩
  have := List.mem_map_of_mem (f := Prod.snd) hp
  rw [h.vals, List.mem_range] at this
  exact this

/-- 挿入した節点は `indices` にあり、その番号は範囲内。 -/
theorem Inv.lookup (h : Inv uf xs ms) {x : T} (hx : x ∈ xs) :
    uf.indices.lookup x = some (indexOf uf x) ∧ indexOf uf x < uf.nodes.length := by
  rw [← h.keys] at hx
  obtain ⟨p, hp, rfl⟩ := List.mem_map.mp hx
  obtain ⟨hl, hlt⟩ := h.mem_indices hp
  rw [indexOf, hl]
  exact ⟨rfl, hlt⟩

/-- 親を付け替えただけなら不変条件は保たれる。 -/
theorem Inv.compressed (h : Inv uf xs ms) {nodes' : List Node} (hc : Compressed uf.nodes nodes') :
    Inv { uf with nodes := nodes' } xs ms where
  wf := hc.wf
  keys := h.keys
  vals := by rw [hc.length_eq]; exact h.vals
  nodup := h.nodup
  merged := h.merged
  represents := by
    show Represents xs (fun x => rootOf nodes' (indexOf uf x)) (Conn ms)
    rw [hc.rootOf_eq]
    exact h.represents

/-- 空の `UnionFind`。 -/
theorem Inv.empty : Inv (⟨[], []⟩ : UnionFind T) [] [] where
  wf := ⟨fun _ hi => absurd hi (Nat.not_lt_zero _),
    ⟨fun x hx => absurd (parentOf_of_le (Nat.zero_le x)) hx,
      fun x => by rw [sizeAt_of_le (Nat.zero_le x)]; exact Nat.le_refl 0⟩,
    fun _ hi => absurd hi (Nat.not_lt_zero _), fun _ hi => absurd hi (Nat.not_lt_zero _)⟩
  keys := rfl
  vals := rfl
  nodup := List.nodup_nil
  merged := fun _ hp => absurd hp List.not_mem_nil
  represents := fun _ hx => absurd hx List.not_mem_nil

/-- `insert` は新しい節点を自分だけの類にする。 -/
theorem Inv.insert (h : Inv uf xs ms) {x : T} (hx : x ∉ xs) : Inv (uf.insert x).1 (xs ++ [x]) ms := by
  have hnone : uf.indices.lookup x = none := lookup_eq_none (by rw [h.keys]; exact hx)
  have heq : (uf.insert x).1 =
      ⟨uf.nodes ++ [⟨uf.nodes.length, 1⟩], uf.indices ++ [(x, uf.nodes.length)]⟩ := by
    simp only [UnionFind.insert, hnone]
  rw [heq]
  obtain ⟨hwf, hroot⟩ := h.wf.appendRoot
  -- 古い節点の番号は変わらず、新しい節点の番号は `nodes.size()`
  have hidx : ∀ y ∈ xs, indexOf ⟨uf.nodes ++ [⟨uf.nodes.length, 1⟩],
      uf.indices ++ [(x, uf.nodes.length)]⟩ y = indexOf uf y := by
    intro y hy
    rw [indexOf, indexOf, List.lookup_append, (h.lookup hy).1]
    rfl
  have hidxx : indexOf ⟨uf.nodes ++ [⟨uf.nodes.length, 1⟩],
      uf.indices ++ [(x, uf.nodes.length)]⟩ x = uf.nodes.length := by
    rw [indexOf, List.lookup_append, hnone, List.lookup_cons_self]
    rfl
  refine ⟨hwf, ?_, ?_, ?_, ?_, ?_⟩
  · rw [List.map_append, h.keys]
    rfl
  · rw [List.map_append, h.vals, List.length_append, List.length_singleton, List.range_succ]
    rfl
  · exact List.Nodup.append h.nodup (List.nodup_singleton x)
      (fun _ ha hb => hx (List.mem_singleton.mp hb ▸ ha))
  · exact fun p hp => ⟨List.mem_append_left _ (h.merged p hp).1,
      List.mem_append_left _ (h.merged p hp).2⟩
  · refine h.represents.insert h.merged hx (fun y hy => ?_) (fun y hy => ?_)
    · show rootOf (uf.nodes ++ [⟨uf.nodes.length, 1⟩]) _ = _
      rw [hroot, hidx y hy]
    · show rootOf (uf.nodes ++ [⟨uf.nodes.length, 1⟩]) _ ≠ _
      rw [hroot, hidxx, h.wf.rootOf_eq (isRootOf_self (parentOf_of_le (Nat.le_refl _)))]
      exact Nat.ne_of_gt (h.wf.rootOf_lt (h.lookup hy).2)

/-- `merge` は挿入した二つの節点について失敗せず、その対を足した同値関係の類を作る。 -/
theorem Inv.merge (h : Inv uf xs ms) {a b : T} (ha : a ∈ xs) (hb : b ∈ xs) :
    ∃ uf', uf.merge a b = some uf' ∧ Inv uf' xs (ms ++ [(a, b)]) := by
  have hmerged : ∀ p ∈ ms ++ [(a, b)], p.1 ∈ xs ∧ p.2 ∈ xs := by
    intro p hp
    rcases List.mem_append.mp hp with hp | hp
    · exact h.merged p hp
    · rw [List.mem_singleton.mp hp]
      exact ⟨ha, hb⟩
  by_cases hab : a = b
  · -- `node1 == node2`：何もしない
    subst hab
    refine ⟨uf, by rw [UnionFind.merge, if_pos rfl], ?_⟩
    exact { h with merged := hmerged, represents := h.represents.merge_same h.merged rfl }
  · obtain ⟨hla, hia⟩ := h.lookup ha
    obtain ⟨hlb, hib⟩ := h.lookup hb
    obtain ⟨n1, hf1, hc1⟩ := find_spec h.wf hia
    obtain ⟨n2, hf2, hc2⟩ := find_spec hc1.wf (by rw [hc1.length_eq]; exact hib)
    have hc := hc1.trans hc2
    rw [hc1.rootOf_eq] at hf2
    have hmerge : uf.merge a b = some { uf with nodes :=
        (linkRoots n2 (rootOf uf.nodes (indexOf uf a)) (rootOf uf.nodes (indexOf uf b))) } := by
      rw [UnionFind.merge, if_neg hab]
      simp only [hla, hf1, hlb, hf2, Option.bind_eq_bind, Option.bind_some, Option.pure_def]
    refine ⟨_, hmerge, ?_⟩
    -- 二つの根は付け替えた後の森でも根
    have hroot : ∀ {y}, y ∈ xs → rootOf uf.nodes (indexOf uf y) < n2.length ∧
        parentOf n2 (rootOf uf.nodes (indexOf uf y)) = rootOf uf.nodes (indexOf uf y) := by
      intro y hy
      rw [← hc.rootOf_eq]
      exact ⟨hc.wf.rootOf_lt (by rw [hc.length_eq]; exact (h.lookup hy).2), hc.wf.parentOf_rootOf _⟩
    obtain ⟨hwf, hl, u, v, huv, hlink⟩ :=
      hc.wf.linkRoots (hroot ha).1 (hroot hb).1 (hroot ha).2 (hroot hb).2
    refine ⟨hwf, h.keys, ?_, h.nodup, hmerged, ?_⟩
    · show uf.indices.map Prod.snd = List.range (linkRoots n2 _ _).length
      rw [hl, hc.length_eq]
      exact h.vals
    · refine h.represents.merge h.merged ha hb huv fun y => ?_
      show rootOf (linkRoots n2 _ _) (indexOf uf y) = _
      rw [hlink, hc.rootOf_eq]

/-- `countGroups()` は同値類の数：根は木ごとに一つで、根の集合は挿入した節点の根の集合。 -/
theorem Inv.countGroups (h : Inv uf xs ms) : uf.countGroups = classCount (Conn ms) xs := by
  rw [← h.represents.card_image (Conn.equivalence ms)]
  have hcount : uf.countGroups =
      ((List.range uf.nodes.length).filter fun i => rootOf uf.nodes i = i).length := by
    rw [UnionFind.countGroups, List.countP_eq_length_filter]
    simp only [h.wf.rootOf_eq_self_iff]
  have himage : ((List.range uf.nodes.length).filter fun i => rootOf uf.nodes i = i).toFinset =
      xs.toFinset.image fun x => rootOf uf.nodes (indexOf uf x) := by
    ext r
    simp only [List.mem_toFinset, List.mem_filter, List.mem_range, Finset.mem_image,
      decide_eq_true_eq]
    constructor
    · -- 根 `r` は、番号 `r` の節点の根
      rintro ⟨hr, hrr⟩
      rw [← List.mem_range, ← h.vals] at hr
      obtain ⟨p, hp, rfl⟩ := List.mem_map.mp hr
      refine ⟨p.1, h.keys ▸ List.mem_map_of_mem hp, ?_⟩
      rw [indexOf, (h.mem_indices hp).1]
      exact hrr
    · rintro ⟨x, hx, rfl⟩
      exact ⟨h.wf.rootOf_lt (h.lookup hx).2, h.wf.rootOf_rootOf _⟩
  rw [hcount, ← List.toFinset_card_of_nodup (List.nodup_range.filter _), himage]

end Inv

omit [DecidableEq T] in
/-- `forEachGroup` の loop：各節点をその根の組に入れる。`find` は森の形しか変えない。 -/
theorem forEachGroupLoop_spec (key : T → Nat) :
    ∀ (order : List (T × Nat)) (nodes : List Node) (groups : List (Nat × List T)), Wf nodes →
      (∀ p ∈ order, p.2 < nodes.length ∧ rootOf nodes p.2 = key p.1) →
      ∃ nodes', forEachGroupLoop order nodes groups =
          some (nodes', order.foldl (fun gs p => push gs (key p.1) p.1) groups) ∧
        Compressed nodes nodes' := by
  intro order
  induction order with
  | nil =>
    intro nodes groups h _
    exact ⟨nodes, rfl, Compressed.refl h⟩
  | cons p rest ih =>
    obtain ⟨node, index⟩ := p
    intro nodes groups h hord
    obtain ⟨hi, hkey⟩ := hord _ List.mem_cons_self
    have hkey' : rootOf nodes index = key node := hkey
    obtain ⟨n1, hf, hc⟩ := find_spec h hi
    obtain ⟨n2, hrun, hc'⟩ := ih n1 (push groups (key node) node) hc.wf fun q hq => by
      rw [hc.length_eq, hc.rootOf_eq]
      exact hord q (List.mem_cons_of_mem _ hq)
    refine ⟨n2, ?_, hc.trans hc'⟩
    rw [forEachGroupLoop, hf]
    simp only [Option.bind_eq_bind, Option.bind_some]
    rw [hkey', hrun, List.foldl_cons]

/-- `forEachGroup` は同値類ごとに一度、その類の節点を並べて `f` を呼ぶ。 -/
theorem Inv.forEachGroup {uf : UnionFind T} {xs : List T} {ms : List (T × T)} (h : Inv uf xs ms)
    {order : List (T × Nat)} (horder : order.Perm uf.indices) :
    ∃ uf' out, uf.forEachGroup order = some (uf', out) ∧ Inv uf' xs ms ∧ Listing (Conn ms) xs out := by
  have hord : ∀ p ∈ order, p.2 < uf.nodes.length ∧
      rootOf uf.nodes p.2 = rootOf uf.nodes (indexOf uf p.1) := by
    intro p hp
    obtain ⟨hl, hlt⟩ := h.mem_indices (horder.mem_iff.mp hp)
    rw [indexOf, hl]
    exact ⟨hlt, rfl⟩
  set key := fun x => rootOf uf.nodes (indexOf uf x)
  obtain ⟨nodes', hrun, hc⟩ := forEachGroupLoop_spec key order uf.nodes [] h.wf hord
  refine ⟨{ uf with nodes := nodes' }, (order.foldl (fun gs p => push gs (key p.1) p.1) []).map Prod.snd,
    ?_, h.compressed hc, ?_⟩
  · rw [UnionFind.forEachGroup, hrun]
    rfl
  · -- 巡った節点の列は挿入した節点の並べ替え
    have hperm : (order.map Prod.fst).Perm xs := h.keys ▸ horder.map Prod.fst
    have hl := listing_group key h.represents hperm
    rw [group, List.foldl_map] at hl
    exact hl

/-! ## 操作の列 -/

/-- 空の状態から、新しい節点の `insert`、挿入した節点の `merge`、`forEachGroup` を重ねて着く状態。
`xs` は挿入した節点、`ms` は併合した対。 -/
inductive Reachable : UnionFind T → List T → List (T × T) → Prop
  | empty : Reachable ⟨[], []⟩ [] []
  | insert {uf : UnionFind T} {xs ms} {x : T} :
      Reachable uf xs ms → x ∉ xs → Reachable (uf.insert x).1 (xs ++ [x]) ms
  | merge {uf uf' : UnionFind T} {xs ms} {a b : T} :
      Reachable uf xs ms → a ∈ xs → b ∈ xs → uf.merge a b = some uf' →
        Reachable uf' xs (ms ++ [(a, b)])
  | forEachGroup {uf uf' : UnionFind T} {xs ms} {order : List (T × Nat)} {out : List (List T)} :
      Reachable uf xs ms → order.Perm uf.indices → uf.forEachGroup order = some (uf', out) →
        Reachable uf' xs ms

theorem Reachable.inv {uf : UnionFind T} {xs : List T} {ms : List (T × T)}
    (h : Reachable uf xs ms) : Inv uf xs ms := by
  induction h with
  | empty => exact Inv.empty
  | insert _ hx ih => exact ih.insert hx
  | merge _ ha hb hm ih =>
    obtain ⟨uf'', hm', hinv⟩ := ih.merge ha hb
    rw [hm] at hm'
    rw [Option.some_inj.mp hm']
    exact hinv
  | forEachGroup _ horder hf ih =>
    obtain ⟨uf'', out', hf', hinv, -⟩ := ih.forEachGroup horder
    rw [hf] at hf'
    rw [(Prod.mk.inj (Option.some_inj.mp hf')).1]
    exact hinv

/-- 到達可能な状態で `UnionFind` が満たすこと。

* 親をたどればどの節点も根に着き（森）、`find` は燃料を使い切らずにその根を返す。
* 挿入した二つの節点の根が同じことと、併合した対でつながることが同じ。
* `countGroups()` は同値類の数。
* 根の `size` はその木の節点の数。
* 挿入した二つの節点の `merge` は失敗しない。
* `forEachGroup` は、`indices` をどの順に巡っても、同値類ごとに一度その類の節点で `f` を呼ぶ。 -/
def PartitionSpec (uf : UnionFind T) (xs : List T) (ms : List (T × T)) : Prop :=
  (∀ i < uf.nodes.length, IsRootOf (parentOf uf.nodes) i (rootOf uf.nodes i) ∧
      ∃ nodes', find uf.nodes i = some (nodes', rootOf uf.nodes i)) ∧
    (∀ a ∈ xs, ∀ b ∈ xs, rootOf uf.nodes (indexOf uf a) = rootOf uf.nodes (indexOf uf b) ↔
      Conn ms a b) ∧
    uf.countGroups = classCount (Conn ms) xs ∧
    (∀ r < uf.nodes.length, parentOf uf.nodes r = r → sizeAt uf.nodes r = treeSize uf.nodes r) ∧
    (∀ a ∈ xs, ∀ b ∈ xs, ∃ uf', uf.merge a b = some uf') ∧
    ∀ order : List (T × Nat), order.Perm uf.indices →
      ∃ uf' out, uf.forEachGroup order = some (uf', out) ∧ Listing (Conn ms) xs out

theorem unionFind_maintains_partition {uf : UnionFind T} {xs : List T} {ms : List (T × T)}
    (h : Reachable uf xs ms) : PartitionSpec uf xs ms := by
  have hinv := h.inv
  refine ⟨fun i hi => ⟨hinv.wf.isRootOf i, ?_⟩, hinv.represents, hinv.countGroups,
    hinv.wf.root_size, fun a ha b hb => ?_, fun order horder => ?_⟩
  · obtain ⟨nodes', hf, -⟩ := find_spec hinv.wf hi
    exact ⟨nodes', hf⟩
  · obtain ⟨uf', hm, -⟩ := hinv.merge ha hb
    exact ⟨uf', hm⟩
  · obtain ⟨uf', out, hf, -, hl⟩ := hinv.forEachGroup horder
    exact ⟨uf', out, hf, hl⟩

/-- 二つ挿入して併合した状態。 -/
theorem unionFind_maintains_partition_merged :
    PartitionSpec (⟨[⟨0, 2⟩, ⟨0, 1⟩], [(0, 0), (1, 1)]⟩ : UnionFind Nat) ([] ++ [0] ++ [1])
      ([] ++ [(0, 1)]) :=
  unionFind_maintains_partition
    (Reachable.merge (Reachable.insert (Reachable.insert Reachable.empty (by decide)) (by decide))
      (by decide) (by decide) rfl)

end Hhvm.UnionFind
