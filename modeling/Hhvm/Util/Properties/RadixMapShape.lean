import Hhvm.Util.RadixMap
import Hhvm.Infra.Intervals

/-!
# `RadixMap` の木の形

木の中身を、slot ごとにブロック `(ptr, size)` を番地の順に並べた列で見る（`Slot.blocks`）。
`scale` の段の slot は key `base` から `2 ^ scale` 個を受け持ち、子の node の `i` 番目の slot は
key `base + i * 2 ^ (scale - LgRadix)` から。根の node は、段 `rootScale + LgRadix` で key
`rootPrefix` からの slot の子と見る（`RadixMap.blocks`）。

* `Slot.WF`：leaf の大きさは、その slot の大きさ（`2 ^ (scale + LgAlign)` 番地）の正の倍数。子を
  持つのは `LgRadix ≤ scale` の段だけ。
* WF な slot のブロックは、その slot の受け持つ番地から始まる（`Slot.mem_blocks`）。
* `Placed m s scale base`：木の中で `(scale, base)` の位置にある slot。木全体のブロックのうち、その
  範囲から始まるものは、その slot のブロックちょうど。子へ下っても保たれる（`Placed.child`）。
  `get`、`erase`、`iterate`、`find` が根から下る路は、どれもこの `Placed` の列。
-/

namespace Hhvm.RadixMap

open Infra.Word64 Infra.Intervals

/-! ## key のビットを算術に -/

section Arith

variable (LgAlign LgRadix : Nat)

@[simp] theorem radix_eq : radix LgRadix = 2 ^ LgRadix := Nat.one_shiftLeft _

@[simp] theorem slotSize_eq (scale : Nat) : slotSize scale = 2 ^ scale := Nat.one_shiftLeft _

@[simp] theorem toKey_eq (ptr : Nat) : toKey LgAlign ptr = ptr / 2 ^ LgAlign :=
  Nat.shiftRight_eq_div_pow _ _

@[simp] theorem index_eq (k scale : Nat) : index LgRadix k scale = k / 2 ^ scale % 2 ^ LgRadix := by
  rw [index, radix_eq, shiftRight_and_eq]

@[simp] theorem lower_eq (ptr scale : Nat) :
    lower LgAlign ptr scale = ptr % 2 ^ (scale + LgAlign) := by
  rw [lower, Nat.one_shiftLeft, Nat.and_two_pow_sub_one_eq_mod]

@[simp] theorem emptyPrefix_eq : emptyPrefix = 2 ^ 64 - 1 := by
  rw [emptyPrefix, bnot, Nat.zero_xor]

theorem upper_eq {k : Nat} (hk : k < 2 ^ 64) (scale : Nat) :
    upper LgRadix k scale = k / 2 ^ (scale + LgRadix) * 2 ^ (scale + LgRadix) := by
  rw [upper, slotSize_eq, and_bnot_eq hk]

theorem upper_le {k : Nat} (hk : k < 2 ^ 64) (scale : Nat) : upper LgRadix k scale ≤ k := by
  rw [upper_eq LgRadix hk]
  exact Nat.div_mul_le_self _ _

/-- `upper(k, scale)` が `2 ^ (scale + LgRadix)` の倍数 `p` に等しいのは、`k` が `p` からの
`2 ^ (scale + LgRadix)` 個の範囲にあるとき。 -/
theorem upper_eq_iff {k p scale : Nat} (hk : k < 2 ^ 64) (hp : 2 ^ (scale + LgRadix) ∣ p) :
    upper LgRadix k scale = p ↔ p ≤ k ∧ k < p + 2 ^ (scale + LgRadix) := by
  rw [upper_eq LgRadix hk]
  obtain ⟨c, rfl⟩ := hp
  have hpos := Nat.two_pow_pos (scale + LgRadix)
  generalize 2 ^ (scale + LgRadix) = P at hpos ⊢
  constructor
  · intro h
    have h1 := Nat.div_mul_le_self k P
    have h2 := Nat.lt_mul_div_succ k hpos
    rw [Nat.mul_add, Nat.mul_one, Nat.mul_comm P (k / P), h] at h2
    rw [h] at h1
    exact ⟨h1, h2⟩
  · rintro ⟨h1, h2⟩
    rw [Nat.div_eq_of_lt_le (by rw [Nat.mul_comm]; exact h1)
      (by rw [Nat.add_mul, Nat.one_mul, Nat.mul_comm]; exact h2), Nat.mul_comm]

end Arith

/-! ## slot のブロック -/

section Shape

variable (LgAlign LgRadix : Nat)

/-- `scale` の段の slot（key `base` から `2 ^ scale` 個）にあるブロック `(ptr, size)` を番地の順に。
leaf のブロックは slot の先頭から始まる。 -/
def Slot.blocks : Nat → Nat → Slot → List (Nat × Nat)
  | _, base, .leaf size => [(base * 2 ^ LgAlign, size)]
  | scale, base, .child c => (List.range (2 ^ LgRadix)).flatMap fun i =>
      Slot.blocks (scale - LgRadix) (base + i * 2 ^ (scale - LgRadix)) (c i)
  | _, _, .empty => []

/-- slot の形の条件。leaf の大きさは slot の大きさ（`2 ^ (scale + LgAlign)` 番地）の正の倍数で、
子を持つのは `LgRadix ≤ scale` の段だけ。 -/
def Slot.WF : Nat → Slot → Prop
  | scale, .leaf size => 0 < size ∧ 2 ^ (scale + LgAlign) ∣ size
  | scale, .child c => LgRadix ≤ scale ∧ ∀ i < 2 ^ LgRadix, Slot.WF (scale - LgRadix) (c i)
  | _, .empty => True

variable {LgAlign LgRadix}

@[simp] theorem Slot.blocks_leaf (scale base size : Nat) :
    (Slot.leaf size).blocks LgAlign LgRadix scale base = [(base * 2 ^ LgAlign, size)] := rfl

@[simp] theorem Slot.blocks_empty (scale base : Nat) :
    Slot.empty.blocks LgAlign LgRadix scale base = [] := rfl

theorem Slot.blocks_child (c : Node) (scale base : Nat) :
    (Slot.child c).blocks LgAlign LgRadix scale base =
      (List.range (2 ^ LgRadix)).flatMap fun i =>
        (c i).blocks LgAlign LgRadix (scale - LgRadix) (base + i * 2 ^ (scale - LgRadix)) := rfl

/-- key が `[lo, hi)` にあることと、番地が `[lo * Align, hi * Align)` にあることは同じ。 -/
theorem key_range_iff {ptr lo hi : Nat} :
    lo ≤ ptr / 2 ^ LgAlign ∧ ptr / 2 ^ LgAlign < hi ↔
      lo * 2 ^ LgAlign ≤ ptr ∧ ptr < hi * 2 ^ LgAlign :=
  and_congr (Nat.le_div_iff_mul_le (Nat.two_pow_pos _)) (Nat.div_lt_iff_lt_mul (Nat.two_pow_pos _))

/-- 段 `scale` の slot（key `base` から）の範囲にある key `k` は、子の node の
`k / 2 ^ (scale - LgRadix) % 2 ^ LgRadix` 番目の slot の範囲にある。 -/
theorem child_slot_bounds {k scale base : Nat} (hR : LgRadix ≤ scale) (hdvd : 2 ^ scale ∣ base)
    (h1 : base ≤ k) (h2 : k < base + 2 ^ scale) :
    k / 2 ^ (scale - LgRadix) % 2 ^ LgRadix < 2 ^ LgRadix ∧
      2 ^ (scale - LgRadix) ∣ base + k / 2 ^ (scale - LgRadix) % 2 ^ LgRadix * 2 ^ (scale - LgRadix) ∧
      base + k / 2 ^ (scale - LgRadix) % 2 ^ LgRadix * 2 ^ (scale - LgRadix) ≤ k ∧
      k < base + k / 2 ^ (scale - LgRadix) % 2 ^ LgRadix * 2 ^ (scale - LgRadix) +
        2 ^ (scale - LgRadix) := by
  have hsc : scale - LgRadix + LgRadix = scale := Nat.sub_add_cancel hR
  obtain ⟨-, hlo, hhi⟩ := digit_bounds (t := scale - LgRadix) (r := LgRadix)
    (by rw [hsc]; exact hdvd) h1 (by rw [hsc]; exact h2)
  rw [Nat.add_mul, Nat.one_mul, ← Nat.add_assoc] at hhi
  exact ⟨Nat.mod_lt _ (Nat.two_pow_pos _),
    Nat.dvd_add (Nat.dvd_trans (Nat.pow_dvd_pow 2 (Nat.sub_le _ _)) hdvd) (Nat.dvd_mul_left _ _),
    hlo, hhi⟩

/-- slot がすべて空の node の下にブロックはない。 -/
@[simp] theorem Slot.blocks_makeNode (scale base : Nat) :
    (Slot.child makeNode).blocks LgAlign LgRadix scale base = [] :=
  List.flatMap_eq_nil_iff.mpr fun _ _ => rfl

/-- 子の node の `i` 番目の slot を `s'` に替えた slot のブロックは、`s'` のブロックと、ほかの子の
slot のブロック。 -/
theorem Slot.mem_blocks_update {c : Node} {i : Nat} (hi : i < 2 ^ LgRadix) (s' : Slot)
    (scale base : Nat) {b : Nat × Nat} :
    b ∈ (Slot.child (Function.update c i s')).blocks LgAlign LgRadix scale base ↔
      b ∈ s'.blocks LgAlign LgRadix (scale - LgRadix) (base + i * 2 ^ (scale - LgRadix)) ∨
        ∃ j < 2 ^ LgRadix, j ≠ i ∧
          b ∈ (c j).blocks LgAlign LgRadix (scale - LgRadix) (base + j * 2 ^ (scale - LgRadix)) := by
  rw [Slot.blocks_child, List.mem_flatMap]
  constructor
  · rintro ⟨j, hj, hb⟩
    rw [List.mem_range] at hj
    by_cases hji : j = i
    · subst hji
      rw [Function.update_self] at hb
      exact .inl hb
    · rw [Function.update_of_ne hji] at hb
      exact .inr ⟨j, hj, hji, hb⟩
  · rintro (hb | ⟨j, hj, hji, hb⟩)
    · exact ⟨i, List.mem_range.mpr hi, by rw [Function.update_self]; exact hb⟩
    · exact ⟨j, List.mem_range.mpr hj, by rw [Function.update_of_ne hji]; exact hb⟩

/-- 子へ下ると、段の `scale / LgRadix` は一つ減る。 -/
theorem div_sub_radix {scale : Nat} (hR : 0 < LgRadix) (hRs : LgRadix ≤ scale) :
    scale / LgRadix = (scale - LgRadix) / LgRadix + 1 := by
  rw [← Nat.add_div_right _ hR, Nat.sub_add_cancel hRs]

/-- 子の `i` 番目の slot の範囲は、親の slot の範囲に入る。 -/
theorem child_range_le {scale i : Nat} (hR : LgRadix ≤ scale) (hi : i < 2 ^ LgRadix) :
    (i + 1) * 2 ^ (scale - LgRadix) ≤ 2 ^ scale := by
  calc (i + 1) * 2 ^ (scale - LgRadix) ≤ 2 ^ LgRadix * 2 ^ (scale - LgRadix) :=
        Nat.mul_le_mul_right _ hi
    _ = 2 ^ scale := by rw [← Nat.pow_add, Nat.add_sub_cancel' hR]

/-- **WF な slot のブロックは、その slot の受け持つ番地から始まる。** 始まりと大きさは
`Align` の倍数で、大きさは正。 -/
theorem Slot.mem_blocks {s : Slot} :
    ∀ {scale base : Nat}, s.WF LgAlign LgRadix scale →
      ∀ {b : Nat × Nat}, b ∈ s.blocks LgAlign LgRadix scale base →
        base * 2 ^ LgAlign ≤ b.1 ∧ b.1 < (base + 2 ^ scale) * 2 ^ LgAlign ∧
          2 ^ LgAlign ∣ b.1 ∧ 0 < b.2 ∧ 2 ^ LgAlign ∣ b.2 := by
  induction s with
  | empty => intro _ _ _ b hb; cases hb
  | leaf size =>
    intro scale base hwf b hb
    rw [Slot.blocks_leaf, List.mem_singleton] at hb
    subst hb
    have hA := Nat.two_pow_pos LgAlign
    have hs := Nat.two_pow_pos scale
    refine ⟨le_refl _, ?_, Nat.dvd_mul_left _ _, hwf.1,
      Nat.dvd_trans (Nat.pow_dvd_pow 2 (Nat.le_add_left _ _)) hwf.2⟩
    rw [Nat.add_mul]
    exact Nat.lt_add_of_pos_right (Nat.mul_pos hs hA)
  | child c ih =>
    intro scale base hwf b hb
    rw [Slot.blocks_child, List.mem_flatMap] at hb
    obtain ⟨i, hi, hb⟩ := hb
    rw [List.mem_range] at hi
    obtain ⟨h1, h2, h3⟩ := ih i (hwf.2 i hi) hb
    -- 子の slot の範囲は親の slot の範囲に入る
    have hle := child_range_le hwf.1 hi
    refine ⟨le_trans (Nat.mul_le_mul_right _ (Nat.le_add_right _ _)) h1, ?_, h3⟩
    refine lt_of_lt_of_le h2 (Nat.mul_le_mul_right _ ?_)
    rw [Nat.add_assoc, ← Nat.succ_mul]
    exact Nat.add_le_add_left hle _

/-- 同じ親の別の子の slot の範囲は重ならない。 -/
theorem not_startsIn_of_ne {base P A i j x : Nat} (hij : j ≠ i)
    (h1 : (base + j * P) * A ≤ x) (h2 : x < (base + j * P + P) * A) :
    ¬((base + i * P) * A ≤ x ∧ x < (base + i * P + P) * A) := by
  rintro ⟨h3, h4⟩
  rcases Nat.lt_or_gt_of_ne hij with hji | hji
  · -- `j < i`：`j` 番目の範囲は `i` 番目の始まりまでに終わる
    have : (base + j * P + P) * A ≤ (base + i * P) * A := by
      refine Nat.mul_le_mul_right _ ?_
      rw [Nat.add_assoc, ← Nat.succ_mul]
      exact Nat.add_le_add_left (Nat.mul_le_mul_right _ hji) _
    omega
  · have : (base + i * P + P) * A ≤ (base + j * P) * A := by
      refine Nat.mul_le_mul_right _ ?_
      rw [Nat.add_assoc, ← Nat.succ_mul]
      exact Nat.add_le_add_left (Nat.mul_le_mul_right _ hji) _
    omega

/-- slot の範囲にあるポインタ `ptr` から始まるブロックは、子の node のうち `ptr` の key の slot の
ほかにはない。 -/
theorem Slot.child_blocks_ne {c : Node} {scale base ptr j : Nat}
    (hwf : (Slot.child c).WF LgAlign LgRadix scale) (hdvd : 2 ^ scale ∣ base)
    (h1 : base ≤ ptr / 2 ^ LgAlign) (h2 : ptr / 2 ^ LgAlign < base + 2 ^ scale) (hj : j < 2 ^ LgRadix)
    (hji : j ≠ ptr / 2 ^ LgAlign / 2 ^ (scale - LgRadix) % 2 ^ LgRadix) :
    ∀ b ∈ (c j).blocks LgAlign LgRadix (scale - LgRadix) (base + j * 2 ^ (scale - LgRadix)),
      b.1 ≠ ptr := by
  intro b hb hbp
  obtain ⟨-, -, hlo, hhi⟩ := child_slot_bounds hwf.1 hdvd h1 h2
  obtain ⟨b1, b2, -⟩ := Slot.mem_blocks (hwf.2 j hj) hb
  rw [hbp] at b1 b2
  exact not_startsIn_of_ne hji b1 b2 (key_range_iff.mp ⟨hlo, hhi⟩)

/-- **WF な slot のブロックは、始まりの狭義の昇順に並ぶ。** 前の子の slot のブロックは、後の子の
slot の範囲より前に始まる。 -/
theorem Slot.blocks_sorted {s : Slot} :
    ∀ {scale base : Nat}, s.WF LgAlign LgRadix scale →
      (s.blocks LgAlign LgRadix scale base).Pairwise (fun a b => a.1 < b.1) := by
  induction s with
  | empty => intros; exact List.Pairwise.nil
  | leaf size => intros; exact List.pairwise_singleton _ _
  | child c ih =>
    intro scale base hwf
    rw [Slot.blocks_child, List.pairwise_flatMap]
    refine ⟨fun i hi => ih i (hwf.2 i (List.mem_range.mp hi)), ?_⟩
    refine List.pairwise_lt_range.imp_of_mem fun {i j} hi hj hij a ha b hb => ?_
    have ha' := Slot.mem_blocks (hwf.2 i (List.mem_range.mp hi)) ha
    have hb' := Slot.mem_blocks (hwf.2 j (List.mem_range.mp hj)) hb
    -- `i` 番目の slot の範囲は `j` 番目の slot の始まりまでに終わる
    have hij' : (base + i * 2 ^ (scale - LgRadix) + 2 ^ (scale - LgRadix)) * 2 ^ LgAlign ≤
        (base + j * 2 ^ (scale - LgRadix)) * 2 ^ LgAlign := by
      refine Nat.mul_le_mul_right _ ?_
      rw [Nat.add_assoc, ← Nat.succ_mul]
      exact Nat.add_le_add_left (Nat.mul_le_mul_right _ hij) _
    omega

end Shape

/-! ## 木の中の位置 -/

section Tree

variable {LgAlign LgRadix : Nat}

/-- 木にあるブロックを番地の順に。根の node は、段 `rootScale + LgRadix`、key `rootPrefix` からの
slot の子と見る。 -/
def blocks (m : RadixMap LgAlign LgRadix) : List (Nat × Nat) :=
  match m.root with
  | some n => (Slot.child n).blocks LgAlign LgRadix (m.rootScale + LgRadix) m.rootPrefix
  | none => []

theorem blocks_of_none {m : RadixMap LgAlign LgRadix} (hn : m.root = none) : m.blocks = [] := by
  obtain ⟨root, p, s⟩ := m
  subst hn
  rfl

theorem blocks_of_some {m : RadixMap LgAlign LgRadix} {n : Node} (hn : m.root = some n) :
    m.blocks = (Slot.child n).blocks LgAlign LgRadix (m.rootScale + LgRadix) m.rootPrefix := by
  obtain ⟨root, p, s⟩ := m
  subst hn
  rfl

/-- 木の中で、段 `scale`、key `base` からの位置にある slot `s`。木全体のブロックのうち、その範囲
から始まるものは `s` のブロックちょうど。 -/
structure Placed (m : RadixMap LgAlign LgRadix) (s : Slot) (scale base : Nat) : Prop where
  wf : s.WF LgAlign LgRadix scale
  dvd : 2 ^ scale ∣ base
  blocks_eq : m.blocks.filter (startsIn (base * 2 ^ LgAlign) ((base + 2 ^ scale) * 2 ^ LgAlign)) =
    s.blocks LgAlign LgRadix scale base

/-- 根の slot は、WF で `rootPrefix` が揃っていれば木の中の位置にある。 -/
theorem placed_root {m : RadixMap LgAlign LgRadix} {n : Node} (hn : m.root = some n)
    (hwf : (Slot.child n).WF LgAlign LgRadix (m.rootScale + LgRadix))
    (hdvd : 2 ^ (m.rootScale + LgRadix) ∣ m.rootPrefix) :
    Placed m (.child n) (m.rootScale + LgRadix) m.rootPrefix where
  wf := hwf
  dvd := hdvd
  blocks_eq := by
    rw [blocks_of_some hn]
    refine List.filter_eq_self.mpr fun b hb => ?_
    obtain ⟨h1, h2, -⟩ := Slot.mem_blocks hwf hb
    simpa using ⟨h1, h2⟩

/-- **子へ下っても木の中の位置にある。** 子の `i` 番目の slot の範囲から始まるブロックは、
その slot のものだけ（ほかの子の slot のブロックは、それぞれの範囲から始まる）。 -/
theorem Placed.child {m : RadixMap LgAlign LgRadix} {c : Node} {scale base : Nat}
    (h : Placed m (.child c) scale base) {i : Nat} (hi : i < 2 ^ LgRadix) :
    Placed m (c i) (scale - LgRadix) (base + i * 2 ^ (scale - LgRadix)) where
  wf := h.wf.2 i hi
  dvd := Nat.dvd_add (Nat.dvd_trans (Nat.pow_dvd_pow 2 (Nat.sub_le _ _)) h.dvd)
    (Nat.dvd_mul_left _ _)
  blocks_eq := by
    have hle := child_range_le h.wf.1 hi
    -- 子の範囲は親の範囲に入る
    have hsub : ∀ b : Nat × Nat,
        startsIn ((base + i * 2 ^ (scale - LgRadix)) * 2 ^ LgAlign)
          ((base + i * 2 ^ (scale - LgRadix) + 2 ^ (scale - LgRadix)) * 2 ^ LgAlign) b = true →
        startsIn (base * 2 ^ LgAlign) ((base + 2 ^ scale) * 2 ^ LgAlign) b = true := by
      intro b hb
      rw [startsIn_iff] at hb ⊢
      refine ⟨le_trans (Nat.mul_le_mul_right _ (Nat.le_add_right _ _)) hb.1,
        lt_of_lt_of_le hb.2 (Nat.mul_le_mul_right _ ?_)⟩
      rw [Nat.add_assoc, ← Nat.succ_mul]
      exact Nat.add_le_add_left hle _
    calc m.blocks.filter (startsIn ((base + i * 2 ^ (scale - LgRadix)) * 2 ^ LgAlign)
          ((base + i * 2 ^ (scale - LgRadix) + 2 ^ (scale - LgRadix)) * 2 ^ LgAlign))
        = (m.blocks.filter (startsIn (base * 2 ^ LgAlign) ((base + 2 ^ scale) * 2 ^ LgAlign))).filter
            (startsIn ((base + i * 2 ^ (scale - LgRadix)) * 2 ^ LgAlign)
              ((base + i * 2 ^ (scale - LgRadix) + 2 ^ (scale - LgRadix)) * 2 ^ LgAlign)) := by
          rw [List.filter_filter]
          refine List.filter_congr fun b _ => ?_
          cases hq : startsIn ((base + i * 2 ^ (scale - LgRadix)) * 2 ^ LgAlign)
            ((base + i * 2 ^ (scale - LgRadix) + 2 ^ (scale - LgRadix)) * 2 ^ LgAlign) b
          · simp
          · simp [hsub b hq]
      _ = (List.range (2 ^ LgRadix)).flatMap fun j =>
            ((c j).blocks LgAlign LgRadix (scale - LgRadix)
              (base + j * 2 ^ (scale - LgRadix))).filter
              (startsIn ((base + i * 2 ^ (scale - LgRadix)) * 2 ^ LgAlign)
                ((base + i * 2 ^ (scale - LgRadix) + 2 ^ (scale - LgRadix)) * 2 ^ LgAlign)) := by
          rw [h.blocks_eq, Slot.blocks_child, List.filter_flatMap]
      _ = ((c i).blocks LgAlign LgRadix (scale - LgRadix)
              (base + i * 2 ^ (scale - LgRadix))).filter
              (startsIn ((base + i * 2 ^ (scale - LgRadix)) * 2 ^ LgAlign)
                ((base + i * 2 ^ (scale - LgRadix) + 2 ^ (scale - LgRadix)) * 2 ^ LgAlign)) := by
          -- ほかの子の slot のブロックは、`i` 番目の範囲から始まらない
          refine flatMap_range_eq_of_ne hi fun j hj hji => List.filter_eq_nil_iff.mpr fun b hb => ?_
          obtain ⟨h1, h2, -⟩ := Slot.mem_blocks (h.wf.2 j hj) hb
          simpa using not_startsIn_of_ne hji h1 h2
      _ = (c i).blocks LgAlign LgRadix (scale - LgRadix) (base + i * 2 ^ (scale - LgRadix)) := by
          refine List.filter_eq_self.mpr fun b hb => ?_
          obtain ⟨h1, h2, -⟩ := Slot.mem_blocks (h.wf.2 i hi) hb
          simpa using ⟨h1, h2⟩

/-- 段 `scale + LgRadix` の node の `i` 番目の slot は、段 `scale`、key `base + i * 2 ^ scale` の位置に
ある。 -/
theorem Placed.slot {m : RadixMap LgAlign LgRadix} {n : Node} {scale base : Nat}
    (h : Placed m (.child n) (scale + LgRadix) base) {i : Nat} (hi : i < 2 ^ LgRadix) :
    Placed m (n i) scale (base + i * 2 ^ scale) := by
  have := h.child hi
  rwa [Nat.add_sub_cancel] at this

/-- 木の中の位置にある slot のブロックは、木のブロック。 -/
theorem Placed.mem {m : RadixMap LgAlign LgRadix} {s : Slot} {scale base : Nat}
    (h : Placed m s scale base) {b : Nat × Nat} (hb : b ∈ s.blocks LgAlign LgRadix scale base) :
    b ∈ m.blocks := by
  rw [← h.blocks_eq] at hb
  exact List.mem_of_mem_filter hb

/-- **`RadixMap` の不変条件。** key は `2 ^ KB` 未満とする。 -/
structure Inv (KB : Nat) (m : RadixMap LgAlign LgRadix) : Prop where
  /-- 木が空なら `EmptyPrefix` と段 0（`get` などの `assert`）。 -/
  none_root : m.root = none → m.rootPrefix = emptyPrefix ∧ m.rootScale = 0
  /-- 根の段は `LgRadix` の倍数。 -/
  scale_dvd : LgRadix ∣ m.rootScale
  /-- 根の slot は WF。 -/
  root_wf : ∀ n, m.root = some n → (Slot.child n).WF LgAlign LgRadix (m.rootScale + LgRadix)
  /-- `rootPrefix` は根の範囲の先頭。 -/
  prefix_dvd : ∀ n, m.root = some n → 2 ^ (m.rootScale + LgRadix) ∣ m.rootPrefix
  /-- `rootPrefix` は key の上のビットを切り捨てたものなので、key と同じく `2 ^ KB` 未満。 -/
  prefix_lt : ∀ n, m.root = some n → m.rootPrefix < 2 ^ KB
  /-- 根の段は `KB` を超えない。 -/
  scale_le : m.rootScale ≤ KB
  /-- ブロックは重ならない。 -/
  sep : Sep m.blocks
  /-- ブロックは番地 `2 ^ (KB + LgAlign)` までに終わる。 -/
  bound : ∀ b ∈ m.blocks, b.1 + b.2 ≤ 2 ^ (KB + LgAlign)

/-- 初めの状態は不変条件を満たす。 -/
theorem inv_init (KB : Nat) : Inv KB (init : RadixMap LgAlign LgRadix) where
  none_root := fun _ => ⟨rfl, rfl⟩
  scale_dvd := Nat.dvd_zero _
  root_wf := fun _ h => by cases h
  prefix_dvd := fun _ h => by cases h
  prefix_lt := fun _ h => by cases h
  scale_le := Nat.zero_le _
  sep := sep_nil
  bound := fun _ h => by cases h

/-- 根の slot は木の中の位置にある。 -/
theorem Inv.placed {KB : Nat} {m : RadixMap LgAlign LgRadix} (h : Inv KB m) {n : Node}
    (hn : m.root = some n) : Placed m (.child n) (m.rootScale + LgRadix) m.rootPrefix :=
  placed_root hn (h.root_wf n hn) (h.prefix_dvd n hn)

/-- 根の範囲は `2 ^ (KB + LgRadix)` に収まる。 -/
theorem Inv.range_le {KB : Nat} {m : RadixMap LgAlign LgRadix} (h : Inv KB m) {n : Node}
    (hn : m.root = some n) : m.rootPrefix + 2 ^ (m.rootScale + LgRadix) ≤ 2 ^ (KB + LgRadix) := by
  obtain ⟨c, hc⟩ := h.prefix_dvd n hn
  -- `2 ^ (KB + LgRadix) = 2 ^ (rootScale + LgRadix) * d` で、`rootPrefix` はその `c` 個分
  obtain ⟨d, hd⟩ : 2 ^ (m.rootScale + LgRadix) ∣ 2 ^ (KB + LgRadix) :=
    Nat.pow_dvd_pow 2 (Nat.add_le_add_right h.scale_le _)
  have hlt : m.rootPrefix < 2 ^ (KB + LgRadix) :=
    lt_of_lt_of_le (h.prefix_lt n hn) (Nat.pow_le_pow_right (by decide) (Nat.le_add_right _ _))
  rw [hc, hd] at hlt ⊢
  have hcd : c < d := Nat.lt_of_mul_lt_mul_left hlt
  calc 2 ^ (m.rootScale + LgRadix) * c + 2 ^ (m.rootScale + LgRadix)
      = 2 ^ (m.rootScale + LgRadix) * (c + 1) := by rw [Nat.mul_add, Nat.mul_one]
    _ ≤ 2 ^ (m.rootScale + LgRadix) * d := Nat.mul_le_mul_left _ hcd

/-- 木のブロックは根の範囲から始まる。 -/
theorem Inv.start_range {KB : Nat} {m : RadixMap LgAlign LgRadix} (h : Inv KB m) {n : Node}
    (hn : m.root = some n) {b : Nat × Nat} (hb : b ∈ m.blocks) :
    m.rootPrefix * 2 ^ LgAlign ≤ b.1 ∧
      b.1 < (m.rootPrefix + 2 ^ (m.rootScale + LgRadix)) * 2 ^ LgAlign := by
  rw [blocks_of_some hn] at hb
  obtain ⟨h1, h2, -⟩ := Slot.mem_blocks (h.root_wf n hn) hb
  exact ⟨h1, h2⟩

/-- 木のブロックの始まりは `Align` の倍数。 -/
theorem Inv.dvd_start {KB : Nat} {m : RadixMap LgAlign LgRadix} (h : Inv KB m) {b : Nat × Nat}
    (hb : b ∈ m.blocks) : 2 ^ LgAlign ∣ b.1 := by
  cases hn : m.root with
  | none => rw [blocks_of_none hn] at hb; cases hb
  | some n =>
    rw [blocks_of_some hn] at hb
    exact (Slot.mem_blocks (h.root_wf n hn) hb).2.2.1

/-- 木のブロックは始まりの狭義の昇順に並ぶ。 -/
theorem Inv.sorted {KB : Nat} {m : RadixMap LgAlign LgRadix} (h : Inv KB m) :
    m.blocks.Pairwise (fun a b => a.1 < b.1) := by
  cases hn : m.root with
  | none => rw [blocks_of_none hn]; exact List.Pairwise.nil
  | some n =>
    rw [blocks_of_some hn]
    exact Slot.blocks_sorted (h.root_wf n hn)

/-- 木のブロックの大きさは正。 -/
theorem Inv.pos {KB : Nat} {m : RadixMap LgAlign LgRadix} (h : Inv KB m) :
    ∀ b ∈ m.blocks, 0 < b.2 := by
  intro b hb
  cases hn : m.root with
  | none => rw [blocks_of_none hn] at hb; cases hb
  | some n =>
    rw [blocks_of_some hn] at hb
    exact (Slot.mem_blocks (h.root_wf n hn) hb).2.2.2.1

end Tree

end Hhvm.RadixMap
