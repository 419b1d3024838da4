import Hhvm.Util.Properties.RadixMapInsert

/-!
# `RadixMap` の `get`、`erase`、`clear`

`get` と `erase` は根から `ptr` の key の路を下る。路の上の slot はどれも `ptr` の key を受け持ち、
ほかの slot のブロックは `ptr` から始まらないので、その slot のブロックを `ptr` で引くのと同じ
（`getSlot_eq`）。`erase` はその路の leaf を一つ空にするので、ブロックの列から `ptr` で始まる
ものを除いたものになる（`eraseSlot_blocks`）。根の範囲の外の `ptr` から始まるブロックはない
（`not_mem_of_upper_ne`）ので、検査で抜ける枝も同じ答え。
-/

namespace Hhvm.RadixMap

open Infra.Word64 Infra.Intervals

variable {LgAlign LgRadix : Nat}

/-! ## 定義の式

`get`、`erase`、`clear` と二つの loop を開くのはここだけで、後の証明はこれらを引く。 -/

theorem getSlot_leaf (ptr k scale size : Nat) :
    getSlot LgAlign LgRadix ptr k scale (.leaf size) =
      if lower LgAlign ptr scale = 0 then size else 0 := rfl

theorem getSlot_child (ptr k scale : Nat) (c : Node) :
    getSlot LgAlign LgRadix ptr k scale (.child c) =
      getSlot LgAlign LgRadix ptr k (scale - LgRadix) (c (index LgRadix k (scale - LgRadix))) := rfl

theorem eraseSlot_leaf (ptr k scale size : Nat) :
    eraseSlot LgAlign LgRadix ptr k scale (.leaf size) =
      if lower LgAlign ptr scale = 0 then (.empty, size) else (.leaf size, 0) := rfl

theorem eraseSlot_child (ptr k scale : Nat) (c : Node) :
    eraseSlot LgAlign LgRadix ptr k scale (.child c) =
      (.child (Function.update c (index LgRadix k (scale - LgRadix))
        (eraseSlot LgAlign LgRadix ptr k (scale - LgRadix) (c (index LgRadix k (scale - LgRadix)))).1),
        (eraseSlot LgAlign LgRadix ptr k (scale - LgRadix) (c (index LgRadix k (scale - LgRadix)))).2) :=
  rfl

section Root

variable {m : RadixMap LgAlign LgRadix} {n : Node}

theorem get_of_none (hn : m.root = none) (ptr : Nat) : m.get ptr = 0 := by
  obtain ⟨root, p, s⟩ := m
  subst hn
  exact ite_self 0

theorem get_of_some (hn : m.root = some n) (ptr : Nat) :
    m.get ptr = if upper LgRadix (toKey LgAlign ptr) m.rootScale = m.rootPrefix then
      getSlot LgAlign LgRadix ptr (toKey LgAlign ptr) m.rootScale
        (n (index LgRadix (toKey LgAlign ptr) m.rootScale)) else 0 := by
  obtain ⟨root, p, s⟩ := m
  subst hn
  rfl

theorem erase_of_none (hn : m.root = none) (ptr : Nat) : m.erase ptr = (m, 0) := by
  obtain ⟨root, p, s⟩ := m
  subst hn
  exact ite_self _

theorem erase_of_some (hn : m.root = some n) (ptr : Nat) :
    m.erase ptr = if upper LgRadix (toKey LgAlign ptr) m.rootScale = m.rootPrefix then
      ({ m with root := some (Function.update n (index LgRadix (toKey LgAlign ptr) m.rootScale)
          (eraseSlot LgAlign LgRadix ptr (toKey LgAlign ptr) m.rootScale
            (n (index LgRadix (toKey LgAlign ptr) m.rootScale))).1) },
        (eraseSlot LgAlign LgRadix ptr (toKey LgAlign ptr) m.rootScale
          (n (index LgRadix (toKey LgAlign ptr) m.rootScale))).2)
    else (m, 0) := by
  obtain ⟨root, p, s⟩ := m
  subst hn
  rfl

theorem clear_of_none (hn : m.root = none) : m.clear = m := by
  obtain ⟨root, p, s⟩ := m
  subst hn
  rfl

theorem clear_of_some (hn : m.root = some n) : m.clear = init := by
  obtain ⟨root, p, s⟩ := m
  subst hn
  rfl

/-- 根を `n'` にした木のブロック。 -/
theorem blocks_with_root (n' : Node) :
    ({ m with root := some n' } : RadixMap LgAlign LgRadix).blocks =
      (Slot.child n').blocks LgAlign LgRadix (m.rootScale + LgRadix) m.rootPrefix := rfl

end Root

/-- slot の先頭にそろった番地は、key が slot の範囲にあれば slot の先頭そのもの。 -/
theorem mod_eq_zero_iff {ptr base scale : Nat} (hdvd : 2 ^ scale ∣ base)
    (h1 : base ≤ ptr / 2 ^ LgAlign) (h2 : ptr / 2 ^ LgAlign < base + 2 ^ scale) :
    ptr % 2 ^ (scale + LgAlign) = 0 ↔ ptr = base * 2 ^ LgAlign := by
  obtain ⟨c, rfl⟩ := hdvd
  have hS := Nat.two_pow_pos scale
  have hA := Nat.two_pow_pos LgAlign
  rw [Nat.pow_add]
  constructor
  · intro h
    obtain ⟨q, rfl⟩ := Nat.dvd_of_mod_eq_zero h
    -- `ptr / Align = 2 ^ scale * q` が `[2 ^ scale * c, 2 ^ scale * (c + 1))` にあるので `q = c`
    have hdiv : 2 ^ scale * 2 ^ LgAlign * q / 2 ^ LgAlign = 2 ^ scale * q := by
      rw [Nat.mul_right_comm, Nat.mul_div_cancel _ hA]
    rw [hdiv] at h1 h2
    have hcq : c ≤ q := Nat.le_of_mul_le_mul_left h1 hS
    have hqc : q < c + 1 := Nat.lt_of_mul_lt_mul_left (by rw [Nat.mul_add, Nat.mul_one]; exact h2)
    rw [show q = c by omega, Nat.mul_right_comm]
  · rintro rfl
    rw [Nat.mul_right_comm]
    exact Nat.mul_mod_right _ _

/-- 根の範囲の外の key を持つポインタから始まるブロックはない。 -/
theorem not_mem_of_upper_ne {KB : Nat} {m : RadixMap LgAlign LgRadix} (h : Inv KB m) {ptr : Nat}
    (hptr : ptr < 2 ^ 64) (hu : upper LgRadix (toKey LgAlign ptr) m.rootScale ≠ m.rootPrefix) :
    ∀ b ∈ m.blocks, b.1 ≠ ptr := by
  intro b hb hbp
  cases hn : m.root with
  | none => rw [blocks_of_none hn] at hb; cases hb
  | some n =>
    rw [blocks_of_some hn] at hb
    obtain ⟨b1, b2, -⟩ := Slot.mem_blocks (h.root_wf n hn) hb
    rw [hbp] at b1 b2
    refine hu ((upper_eq_iff LgRadix ?_ (h.prefix_dvd n hn)).mpr ?_)
    · rw [toKey_eq]
      exact lt_of_le_of_lt (Nat.div_le_self _ _) hptr
    · rw [toKey_eq]
      exact key_range_iff.mpr ⟨b1, b2⟩

/-! ## `get` -/

/-- **`get` の loop。** WF な slot の範囲に `ptr` の key があれば、`getSlot` は、その slot の
ブロックを `ptr` で引いた大きさ（なければ 0）。 -/
theorem getSlot_eq {ptr k : Nat} (hk : k = ptr / 2 ^ LgAlign) {s : Slot} :
    ∀ {scale base : Nat}, s.WF LgAlign LgRadix scale → 2 ^ scale ∣ base →
      base ≤ k → k < base + 2 ^ scale →
      getSlot LgAlign LgRadix ptr k scale s =
        ((s.blocks LgAlign LgRadix scale base).lookup ptr).getD 0 := by
  subst hk
  induction s with
  | empty => intros; rfl
  | leaf size =>
    intro scale base _ hdvd h1 h2
    rw [getSlot_leaf, lower_eq, Slot.blocks_leaf, List.lookup_singleton]
    by_cases hp : ptr = base * 2 ^ LgAlign
    · rw [if_pos ((mod_eq_zero_iff hdvd h1 h2).mpr hp), if_pos (beq_iff_eq.mpr hp)]
      rfl
    · rw [if_neg (fun h => hp ((mod_eq_zero_iff hdvd h1 h2).mp h)),
        if_neg (fun h => hp (beq_iff_eq.mp h))]
      rfl
  | child c ih =>
    intro scale base hwf hdvd h1 h2
    -- `ptr` の key は、一つ下の段の `i` 番目の slot にあり、ほかの slot のブロックは `ptr` から
    -- 始まらない
    obtain ⟨hi, hdvd', hlo, hhi⟩ := child_slot_bounds hwf.1 hdvd h1 h2
    rw [getSlot_child, index_eq, Slot.blocks_child, lookup_flatMap_range hi
      fun j hj hji => Slot.child_blocks_ne hwf hdvd h1 h2 hj hji]
    exact ih _ (hwf.2 _ hi) hdvd' hlo hhi

/-- 根の node を引くのは、根を段 `rootScale + LgRadix` の slot と見て引くこと。 -/
theorem getSlot_root (ptr k scale : Nat) (n : Node) :
    getSlot LgAlign LgRadix ptr k scale (n (index LgRadix k scale)) =
      getSlot LgAlign LgRadix ptr k (scale + LgRadix) (.child n) := by
  rw [getSlot_child, Nat.add_sub_cancel]

/-- **`get` は、木のブロックを `ptr` で引いた大きさ（なければ 0）。** -/
theorem get_eq_lookup {KB : Nat} {m : RadixMap LgAlign LgRadix} (h : Inv KB m) {ptr : Nat}
    (hptr : ptr < 2 ^ 64) : m.get ptr = (m.blocks.lookup ptr).getD 0 := by
  cases hn : m.root with
  | none =>
    rw [get_of_none hn, blocks_of_none hn]
    rfl
  | some n =>
    by_cases hu : upper LgRadix (toKey LgAlign ptr) m.rootScale = m.rootPrefix
    · have hk : toKey LgAlign ptr < 2 ^ 64 := by
        rw [toKey_eq]
        exact lt_of_le_of_lt (Nat.div_le_self _ _) hptr
      obtain ⟨h1, h2⟩ := (upper_eq_iff LgRadix hk (h.prefix_dvd n hn)).mp hu
      rw [get_of_some hn, if_pos hu, getSlot_root,
        getSlot_eq (toKey_eq LgAlign ptr) (h.root_wf n hn) (h.prefix_dvd n hn) h1 h2, blocks_of_some hn]
    · -- 根の範囲の外：どのブロックも `ptr` からは始まらない
      have hnone : m.blocks.lookup ptr = none :=
        List.lookup_eq_none_iff.mpr fun b hb => bne_iff_ne.mpr (not_mem_of_upper_ne h hptr hu b hb).symm
      rw [get_of_some hn, if_neg hu, hnone]
      rfl

/-- `TEST(RadixMap, insert_destroy)` の二段の木：段 4 の根の slot 0 と 1 の下の node に、番地 0 と
64 から大きさ 4 のブロック。 -/
def insertDestroy : RadixMap 2 4 := ((init : RadixMap 2 4).insert 0 4).insert 64 4

theorem inv_insertDestroy : Inv 8 insertDestroy :=
  ((inv_init 8).insert (by decide) (by decide) (insertOk_init (by decide) (by decide) (by decide)
    (by decide))).insert (by decide) (by decide) ⟨by decide, by decide, by decide, by decide, by decide⟩

/-- 二段の木で：64 は根から子の node へ下りてブロックの大きさ 4 を返す。ブロックの中の 66、空の
slot の 128、根の範囲の外の `2 ^ 20` は 0 を返す。どれも木のブロックを引いた値。 -/
theorem get_lookup_insert_destroy :
    insertDestroy.rootScale = 4 ∧ insertDestroy.blocks = [(0, 4), (64, 4)] ∧
      [64, 66, 128, 2 ^ 20].map insertDestroy.get = [4, 0, 0, 0] ∧
      ∀ ptr ∈ [64, 66, 128, 2 ^ 20],
        insertDestroy.get ptr = (insertDestroy.blocks.lookup ptr).getD 0 :=
  ⟨rfl, by decide, by decide, fun ptr hp => get_eq_lookup inv_insertDestroy (by simp at hp; omega)⟩

/-! ## `erase` -/

/-- `erase` の loop が返す大きさは `get` の loop と同じ。 -/
theorem eraseSlot_snd (ptr k : Nat) (s : Slot) :
    ∀ scale, (eraseSlot LgAlign LgRadix ptr k scale s).2 = getSlot LgAlign LgRadix ptr k scale s := by
  induction s with
  | empty => intro; rfl
  | leaf size =>
    intro scale
    rw [eraseSlot_leaf, getSlot_leaf]
    split <;> rfl
  | child c ih =>
    intro scale
    rw [eraseSlot_child, getSlot_child]
    exact ih _ _

/-- `erase` の loop は slot の WF を保つ。 -/
theorem eraseSlot_wf (ptr k : Nat) {s : Slot} :
    ∀ {scale}, s.WF LgAlign LgRadix scale →
      (eraseSlot LgAlign LgRadix ptr k scale s).1.WF LgAlign LgRadix scale := by
  induction s with
  | empty => intros; trivial
  | leaf size =>
    intro scale hwf
    rw [eraseSlot_leaf]
    split
    · trivial
    · exact hwf
  | child c ih =>
    intro scale hwf
    refine ⟨hwf.1, fun j hj => ?_⟩
    by_cases hji : j = index LgRadix k (scale - LgRadix)
    · subst hji
      rw [Function.update_self]
      exact ih _ (hwf.2 _ hj)
    · rw [Function.update_of_ne hji]
      exact hwf.2 j hj

/-- **`erase` の loop。** WF な slot の範囲に `ptr` の key があれば、`eraseSlot` の後の slot の
ブロックは、前のブロックから `ptr` で始まるものを除いたもの。 -/
theorem eraseSlot_blocks {ptr k : Nat} (hk : k = ptr / 2 ^ LgAlign) {s : Slot} :
    ∀ {scale base : Nat}, s.WF LgAlign LgRadix scale → 2 ^ scale ∣ base →
      base ≤ k → k < base + 2 ^ scale →
      (eraseSlot LgAlign LgRadix ptr k scale s).1.blocks LgAlign LgRadix scale base =
        (s.blocks LgAlign LgRadix scale base).filter (fun b => b.1 != ptr) := by
  subst hk
  induction s with
  | empty => intros; rfl
  | leaf size =>
    intro scale base _ hdvd h1 h2
    rw [eraseSlot_leaf, lower_eq]
    by_cases hp : ptr = base * 2 ^ LgAlign
    · rw [if_pos ((mod_eq_zero_iff hdvd h1 h2).mpr hp), Slot.blocks_leaf, Slot.blocks_empty,
        List.filter_singleton, hp, bne_self_eq_false, cond_false]
    · rw [if_neg (fun h => hp ((mod_eq_zero_iff hdvd h1 h2).mp h)), Slot.blocks_leaf,
        List.filter_singleton, bne_iff_ne.mpr (Ne.symm hp), cond_true]
  | child c ih =>
    intro scale base hwf hdvd h1 h2
    obtain ⟨hi, hdvd', hlo, hhi⟩ := child_slot_bounds hwf.1 hdvd h1 h2
    rw [eraseSlot_child, index_eq, Slot.blocks_child, Slot.blocks_child, List.filter_flatMap]
    refine List.flatMap_congr fun j hj => ?_
    rw [List.mem_range] at hj
    by_cases hji : j = ptr / 2 ^ LgAlign / 2 ^ (scale - LgRadix) % 2 ^ LgRadix
    · -- `ptr` の key の slot：その先で消す
      subst hji
      rw [Function.update_self]
      exact ih _ (hwf.2 _ hi) hdvd' hlo hhi
    · -- ほかの slot：変わらず、`ptr` から始まるブロックもない
      rw [Function.update_of_ne hji]
      exact (List.filter_eq_self.mpr fun b hb =>
        bne_iff_ne.mpr (Slot.child_blocks_ne hwf hdvd h1 h2 hj hji b hb)).symm

/-- 根の node で消すのは、根を段 `rootScale + LgRadix` の slot と見て消すこと。 -/
theorem eraseSlot_root (ptr k scale : Nat) (n : Node) :
    eraseSlot LgAlign LgRadix ptr k (scale + LgRadix) (.child n) =
      (.child (Function.update n (index LgRadix k scale)
        (eraseSlot LgAlign LgRadix ptr k scale (n (index LgRadix k scale))).1),
        (eraseSlot LgAlign LgRadix ptr k scale (n (index LgRadix k scale))).2) := by
  rw [eraseSlot_child, Nat.add_sub_cancel]

/-- `erase` が返す大きさは `get` の答え。 -/
theorem erase_snd (m : RadixMap LgAlign LgRadix) (ptr : Nat) : (m.erase ptr).2 = m.get ptr := by
  cases hn : m.root with
  | none => rw [erase_of_none hn, get_of_none hn]
  | some n =>
    by_cases hu : upper LgRadix (toKey LgAlign ptr) m.rootScale = m.rootPrefix
    · rw [erase_of_some hn, get_of_some hn, if_pos hu, if_pos hu]
      exact eraseSlot_snd _ _ _ _
    · rw [erase_of_some hn, get_of_some hn, if_neg hu, if_neg hu]

/-- **`erase` の後のブロックは、前のブロックから `ptr` で始まるものを除いたもの。** -/
theorem erase_blocks {KB : Nat} {m : RadixMap LgAlign LgRadix} (h : Inv KB m) {ptr : Nat}
    (hptr : ptr < 2 ^ 64) : (m.erase ptr).1.blocks = m.blocks.filter (fun b => b.1 != ptr) := by
  cases hn : m.root with
  | none =>
    rw [erase_of_none hn, blocks_of_none hn]
    rfl
  | some n =>
    by_cases hu : upper LgRadix (toKey LgAlign ptr) m.rootScale = m.rootPrefix
    · have hk : toKey LgAlign ptr < 2 ^ 64 := by
        rw [toKey_eq]
        exact lt_of_le_of_lt (Nat.div_le_self _ _) hptr
      obtain ⟨h1, h2⟩ := (upper_eq_iff LgRadix hk (h.prefix_dvd n hn)).mp hu
      rw [erase_of_some hn, if_pos hu, blocks_with_root, blocks_of_some hn]
      rw [← eraseSlot_blocks (toKey_eq LgAlign ptr) (h.root_wf n hn) (h.prefix_dvd n hn) h1 h2,
        eraseSlot_root]
    · rw [erase_of_some hn, if_neg hu]
      exact (List.filter_eq_self.mpr fun b hb =>
        bne_iff_ne.mpr (not_mem_of_upper_ne h hptr hu b hb)).symm

/-- **`erase` は不変条件を保つ。** -/
theorem Inv.erase {KB : Nat} {m : RadixMap LgAlign LgRadix} (h : Inv KB m) {ptr : Nat}
    (hptr : ptr < 2 ^ 64) : Inv KB (m.erase ptr).1 := by
  have hb := erase_blocks h hptr
  cases hn : m.root with
  | none =>
    rw [erase_of_none hn]
    exact h
  | some n =>
    by_cases hu : upper LgRadix (toKey LgAlign ptr) m.rootScale = m.rootPrefix
    · rw [erase_of_some hn, if_pos hu] at hb ⊢
      dsimp only at hb ⊢
      exact {
        none_root := fun h' => by cases h'
        scale_dvd := h.scale_dvd
        root_wf := fun n' hn' => by
          cases hn'
          have hwf := eraseSlot_wf ptr (toKey LgAlign ptr) (h.root_wf n hn)
          rwa [eraseSlot_root] at hwf
        prefix_dvd := fun _ _ => h.prefix_dvd n hn
        prefix_lt := fun _ _ => h.prefix_lt n hn
        scale_le := h.scale_le
        sep := by rw [hb]; exact h.sep.filter _
        bound := fun b hb' => by
          rw [hb] at hb'
          exact h.bound b (List.mem_of_mem_filter hb') }
    · rw [erase_of_some hn, if_neg hu]
      exact h

/-! ## `clear` -/

/-- `clear` の後にブロックはない。 -/
theorem clear_blocks (m : RadixMap LgAlign LgRadix) : m.clear.blocks = [] := by
  cases hn : m.root with
  | none => rw [clear_of_none hn, blocks_of_none hn]
  | some n =>
    rw [clear_of_some hn]
    rfl

/-- `clear` は不変条件を保つ。 -/
theorem Inv.clear {KB : Nat} {m : RadixMap LgAlign LgRadix} (h : Inv KB m) : Inv KB m.clear := by
  cases hn : m.root with
  | none =>
    rw [clear_of_none hn]
    exact h
  | some n =>
    rw [clear_of_some hn]
    exact inv_init KB

end Hhvm.RadixMap
