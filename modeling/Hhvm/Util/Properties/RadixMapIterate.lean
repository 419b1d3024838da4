import Hhvm.Util.Properties.RadixMapOps

/-!
# `RadixMap` の `iterate`

`iterate` の内側の loop は根から `k` の路を下り、node の slot を前へ見ていく。外側の loop は、
内側の loop が node の端から出るたびに、そこまで進んだ `k` で根からやり直す。

内側の loop の状態（`IterState`）：今の node は木の中の位置にあり、`k` は `i` 番目の slot の中で、
どのブロックの内側にもない（`NotInside`）。slot の種類ごとに一歩を述べ（`IterState.leaf`、
`IterState.child`、`IterState.empty`）、それを fuel の帰納法でつなぐと、loop が `out` に足すのは
木のブロックのうち `[k, k')` から始まるものちょうど（`iterNode_spec`）。

* leaf なら、`k` は内側にないのでその slot の先頭で、ブロックの終わりへ進む。
* 空の slot からは何も始まらないので、次の slot の先頭へ進んでも何も落とさない。
* 子へは `k` のまま下る。段は `LgRadix` ずつ下がるので、fuel は段ごとに slot の数と一回で足りる。

外側の loop は `k` が狭義に増えるので止まり、終わったとき `out` は木のブロック全体
（`iterate_eq_blocks`）。
-/

namespace Hhvm.RadixMap

open Infra.Word64 Infra.Intervals

variable {LgAlign LgRadix : Nat}

/-- key `k` の番地は、どのブロックの内側にもない。 -/
def NotInside (m : RadixMap LgAlign LgRadix) (k : Nat) : Prop :=
  ∀ b ∈ m.blocks, ¬(b.1 < k * 2 ^ LgAlign ∧ k * 2 ^ LgAlign < b.1 + b.2)

/-- `iterate` の内側の loop の状態。 -/
structure IterState (m : RadixMap LgAlign LgRadix) (n : Node) (scale nb i k : Nat) : Prop where
  /-- `n` は段 `scale` の slot を持つ node で、木の中で key `nb` からの位置にある。 -/
  placed : Placed m (.child n) (scale + LgRadix) nb
  /-- node の範囲は 63 ビットに収まる（次の slot の先頭を `size_t` で求められる）。 -/
  range_le : nb + 2 ^ (scale + LgRadix) ≤ 2 ^ 63
  /-- `k` は `i` 番目の slot の先頭以降。 -/
  slot_le : nb + i * 2 ^ scale ≤ k
  /-- `i < Radix` なら、`k` は `i` 番目の slot の中。 -/
  lt_slot : i < 2 ^ LgRadix → k < nb + (i + 1) * 2 ^ scale
  /-- `k` はどのブロックの内側にもない。 -/
  outside : NotInside m k

section Step

variable {KB : Nat} {m : RadixMap LgAlign LgRadix} {n : Node} {scale nb i k : Nat}

/-- `i < Radix` なら、`i` 番目の slot は node の範囲に入る。 -/
theorem slot_end_le (hi : i < 2 ^ LgRadix) : nb + (i + 1) * 2 ^ scale ≤ nb + 2 ^ (scale + LgRadix) := by
  rw [Nat.pow_add, Nat.mul_comm (2 ^ scale)]
  exact Nat.add_le_add_left (Nat.mul_le_mul_right _ hi) _

/-- **leaf の slot での一歩。** `k` はその slot の先頭で、ブロック `(k * Align, size)` は木にあり、
大きさは slot の `u` 個分（`u ≥ 1`）。ブロックの終わりへ進んだ状態も `IterState`。 -/
theorem IterState.leaf (h : Inv KB m) (hst : IterState m n scale nb i k) (hi : i < 2 ^ LgRadix)
    {size : Nat} (hni : n i = .leaf size) :
    (k * 2 ^ LgAlign, size) ∈ m.blocks ∧ 0 < size / 2 ^ (scale + LgAlign) ∧
      size / 2 ^ LgAlign * 2 ^ LgAlign = size ∧
      IterState m n scale nb (i + size / 2 ^ (scale + LgAlign)) (k + size / 2 ^ LgAlign) := by
  have hp := hst.placed.slot hi
  rw [hni] at hp
  obtain ⟨hpos, u, hu⟩ := hp.wf
  have hmem : ((nb + i * 2 ^ scale) * 2 ^ LgAlign, size) ∈ m.blocks :=
    hp.mem (List.mem_singleton_self _)
  have hA := Nat.two_pow_pos LgAlign
  -- 大きさは `u * 2 ^ scale` 個の key
  have hsz : size = u * 2 ^ scale * 2 ^ LgAlign := by
    rw [hu, Nat.pow_add, Nat.mul_comm, Nat.mul_assoc]
  have hdiv : size / 2 ^ LgAlign = u * 2 ^ scale := by
    rw [hsz, Nat.mul_div_cancel _ hA]
  have hu' : size / 2 ^ (scale + LgAlign) = u := by
    rw [hu, Nat.mul_div_cancel_left _ (Nat.two_pow_pos _)]
  have hu0 : 0 < u := by
    rw [hsz] at hpos
    exact Nat.pos_of_mul_pos_right (Nat.pos_of_mul_pos_right hpos)
  -- `k` はブロックの内側にないので、slot の先頭
  have hk : k = nb + i * 2 ^ scale := by
    by_contra hne
    apply hst.outside _ hmem
    have hlt : nb + i * 2 ^ scale < k := lt_of_le_of_ne hst.slot_le (Ne.symm hne)
    have h1 := Nat.mul_lt_mul_of_pos_right hlt hA
    have h2 : k * 2 ^ LgAlign < (nb + i * 2 ^ scale) * 2 ^ LgAlign + 2 ^ scale * 2 ^ LgAlign := by
      rw [← Nat.add_mul, Nat.add_assoc, ← Nat.add_one_mul]
      exact Nat.mul_lt_mul_of_pos_right (hst.lt_slot hi) hA
    have h3 : 2 ^ scale * 2 ^ LgAlign ≤ size := by
      rw [hsz, Nat.mul_assoc]
      exact Nat.le_mul_of_pos_left _ hu0
    exact ⟨h1, by omega⟩
  subst hk
  refine ⟨hmem, hu' ▸ hu0, Nat.div_mul_cancel (Dvd.intro_left _ hsz.symm),
    ⟨hst.placed, hst.range_le, ?_, ?_, ?_⟩⟩
  · rw [hu', hdiv, Nat.add_mul, Nat.add_assoc]
  · intro _
    rw [hu', hdiv, Nat.add_mul, Nat.add_mul, Nat.one_mul]
    have := Nat.two_pow_pos scale
    omega
  · -- ブロックの終わりは、どのブロックの内側にもない
    intro b hb
    have := Sep.not_inside_end h.sep h.pos hmem b hb
    rwa [hdiv, Nat.add_mul, ← hsz]

/-- **子の slot での一歩。** 子の node へ `k` のまま下り、`index(k, scale - LgRadix)` 番目の slot
から続ける。子を持つのは `LgRadix ≤ scale` の段だけ。 -/
theorem IterState.child (hst : IterState m n scale nb i k) (hi : i < 2 ^ LgRadix) {c : Node}
    (hni : n i = .child c) :
    LgRadix ≤ scale ∧
      IterState m c (scale - LgRadix) (nb + i * 2 ^ scale) (k / 2 ^ (scale - LgRadix) % 2 ^ LgRadix)
        k := by
  have hp := hst.placed.slot hi
  rw [hni] at hp
  have hR : LgRadix ≤ scale := hp.wf.1
  have hsc : scale - LgRadix + LgRadix = scale := Nat.sub_add_cancel hR
  obtain ⟨-, -, hlo, hhi⟩ := child_slot_bounds hR hp.dvd hst.slot_le
    (by rw [Nat.add_assoc, ← Nat.add_one_mul]; exact hst.lt_slot hi)
  refine ⟨hR, ⟨by rw [hsc]; exact hp, ?_, hlo, fun _ => ?_, hst.outside⟩⟩
  · rw [hsc, Nat.add_assoc, ← Nat.add_one_mul]
    exact le_trans (slot_end_le hi) hst.range_le
  · rwa [Nat.add_one_mul, ← Nat.add_assoc]

/-- **空の slot での一歩。** 次の slot の先頭 `nb + (i + 1) * 2 ^ scale` へ進む。その間から始まる
ブロックはない。 -/
theorem IterState.empty (hst : IterState m n scale nb i k) (hi : i < 2 ^ LgRadix)
    (hni : n i = .empty) :
    (k + slotSize scale) &&& bnot (slotSize scale - 1) = nb + (i + 1) * 2 ^ scale ∧
      m.blocks.filter (startsIn (k * 2 ^ LgAlign) ((nb + (i + 1) * 2 ^ scale) * 2 ^ LgAlign)) = [] ∧
      IterState m n scale nb (i + 1) (nb + (i + 1) * 2 ^ scale) := by
  have hp := hst.placed.slot hi
  rw [hni] at hp
  have hnil := hp.blocks_eq
  rw [Slot.blocks_empty] at hnil
  have hend : nb + i * 2 ^ scale + 2 ^ scale = nb + (i + 1) * 2 ^ scale := by
    rw [Nat.add_one_mul, Nat.add_assoc]
  have hlt := hst.lt_slot hi
  have hle := le_trans (slot_end_le hi) hst.range_le
  refine ⟨?_, filter_startsIn_eq_nil_of_le hnil (Nat.mul_le_mul_right _ hst.slot_le)
    (by rw [hend]), ⟨hst.placed, hst.range_le, le_refl _, fun _ => ?_, ?_⟩⟩
  · -- `k + 2 ^ scale` は 64 ビットに収まり、切り下げると次の slot の先頭
    have h64 : k + 2 ^ scale < 2 ^ 64 := by
      have : 2 ^ scale ≤ 2 ^ 63 :=
        le_trans (Nat.pow_le_pow_right (by decide) (Nat.le_add_right _ _))
          (le_trans (Nat.le_add_left _ _) hst.range_le)
      have : (2 : Nat) ^ 64 = 2 ^ 63 + 2 ^ 63 := by decide
      omega
    rw [slotSize_eq, and_bnot_eq h64, ← hend]
    exact div_mul_eq_of_range (Nat.dvd_add hp.dvd (Nat.dvd_refl _))
      (by have := hst.slot_le; omega) (by omega)
  · rw [Nat.add_mul (i + 1), Nat.one_mul]
    have := Nat.two_pow_pos scale
    omega
  · -- 次の slot の先頭の内側にあるブロックは、この slot から始まるか、`k` の内側にある
    rintro b hb ⟨h1, h2⟩
    by_cases hs : (nb + i * 2 ^ scale) * 2 ^ LgAlign ≤ b.1
    · have := List.filter_eq_nil_iff.mp hnil b hb
      rw [startsIn_iff, hend] at this
      exact this ⟨hs, h1⟩
    · apply hst.outside b hb
      have h3 := Nat.mul_le_mul_right (2 ^ LgAlign) hst.slot_le
      have h4 := Nat.mul_lt_mul_of_pos_right hlt (Nat.two_pow_pos LgAlign)
      omega

end Step

/-! ## 内側の loop -/

/-- **`iterate` の内側の loop。** `IterState` から始めれば、loop は `out` に、木のブロックのうち
`[k, k')` から始まるものを順に足して、`k'` で終わる。`i < Radix` なら `k` は狭義に進み、`k'` も
どのブロックの内側にもない。fuel は、今の段で残る slot の数と、下の段ごとに slot の数と一回。 -/
theorem iterNode_spec (hR : 0 < LgRadix) {KB : Nat} {m : RadixMap LgAlign LgRadix} (h : Inv KB m) :
    ∀ fuel (n : Node) (scale nb i k : Nat) (out : List (Nat × Nat)), IterState m n scale nb i k →
      2 ^ LgRadix - i + scale / LgRadix * (2 ^ LgRadix + 1) ≤ fuel →
      ∃ k', iterNode LgAlign LgRadix fuel n scale i k out =
          (out ++ m.blocks.filter (startsIn (k * 2 ^ LgAlign) (k' * 2 ^ LgAlign)), k') ∧
        k ≤ k' ∧ (i < 2 ^ LgRadix → k < k') ∧ NotInside m k'
  | 0, n, scale, nb, i, k, out, hst, hf => by
    refine ⟨k, ?_, le_refl _, fun hi => absurd hf (by omega), hst.outside⟩
    rw [iterNode, filter_startsIn_self_eq_nil, List.append_nil]
  | fuel + 1, n, scale, nb, i, k, out, hst, hf => by
    rw [iterNode]
    split
    · rename_i hi
      rw [radix_eq] at hi
      split
      · -- leaf：ブロックを `out` に足して、その終わりへ
        rename_i size hni
        obtain ⟨hmem, hu, hdiv, hst'⟩ := hst.leaf h hi hni
        obtain ⟨k', heq, hle, -, hout⟩ := iterNode_spec hR h fuel n scale nb _ _
          (out ++ [(k <<< LgAlign, size)]) hst' (by omega)
        have hlt : k < k + size / 2 ^ LgAlign := by
          have hpos : 0 < size := h.pos _ hmem
          have : 0 < size / 2 ^ LgAlign := Nat.pos_of_ne_zero fun h0 => by
            rw [h0, Nat.zero_mul] at hdiv
            omega
          omega
        refine ⟨k', ?_, by omega, fun _ => by omega, hout⟩
        rw [Nat.shiftRight_eq_div_pow, Nat.shiftRight_eq_div_pow, heq, Nat.shiftLeft_eq,
          Sep.filter_startsIn_append h.sep (Nat.mul_le_mul_right _ (Nat.le_of_lt hlt))
            (Nat.mul_le_mul_right _ hle), Nat.add_mul, hdiv,
          Sep.filter_startsIn_self h.sep h.pos hmem, List.append_assoc, List.singleton_append]
      · -- 子：`k` のまま下る
        rename_i c hni
        obtain ⟨hRs, hst'⟩ := hst.child hi hni
        have hq := div_sub_radix hR hRs
        obtain ⟨k', heq, hle, hlt, hout⟩ := iterNode_spec hR h fuel c (scale - LgRadix) _ _ k out
          hst' (by rw [hq, Nat.add_mul, Nat.one_mul] at hf; omega)
        refine ⟨k', ?_, hle, fun _ => hlt (Nat.mod_lt _ (Nat.two_pow_pos _)), hout⟩
        rw [index_eq, heq]
      · -- 空：次の slot の先頭へ
        rename_i hni
        obtain ⟨hround, hnil, hst'⟩ := hst.empty hi hni
        obtain ⟨k', heq, hle, -, hout⟩ := iterNode_spec hR h fuel n scale nb (i + 1) _ out hst'
          (by omega)
        have hk := hst.lt_slot hi
        refine ⟨k', ?_, by omega, fun _ => by omega, hout⟩
        rw [hround, heq, Sep.filter_startsIn_append h.sep (Nat.mul_le_mul_right _ (Nat.le_of_lt hk))
          (Nat.mul_le_mul_right _ hle), hnil, List.nil_append]
    · -- node の端：loop を抜ける
      rename_i hi
      rw [radix_eq] at hi
      refine ⟨k, ?_, le_refl _, fun hi' => absurd hi' hi, hst.outside⟩
      rw [filter_startsIn_self_eq_nil, List.append_nil]

/-! ## 外側の loop -/

section Outer

variable {KB : Nat} {m : RadixMap LgAlign LgRadix} {n : Node}

/-- 根の範囲の終わり以降の `k` までに始まるブロックは、木のブロック全体。 -/
theorem filter_root_eq (h : Inv KB m) (hn : m.root = some n) {k : Nat}
    (hk : m.rootPrefix + 2 ^ (m.rootScale + LgRadix) ≤ k) :
    m.blocks.filter (startsIn (m.rootPrefix * 2 ^ LgAlign) (k * 2 ^ LgAlign)) = m.blocks :=
  List.filter_eq_self.mpr fun b hb => by
    obtain ⟨h1, h2⟩ := h.start_range hn hb
    have := Nat.mul_le_mul_right (2 ^ LgAlign) hk
    simp only [startsIn_iff]
    omega

/-- 根の範囲の先頭は、どのブロックの内側にもない（ブロックはそこから後に始まる）。 -/
theorem notInside_root (h : Inv KB m) (hn : m.root = some n) : NotInside m m.rootPrefix :=
  fun _ hb hin => Nat.not_lt.mpr (h.start_range hn hb).1 hin.1

/-- **`iterate` の外側の loop。** `out` が木のブロックのうち `[rootPrefix, k)` から始まるもので、
`k` がどのブロックの内側にもなければ、loop の終わりの `out` は木のブロック全体。内側の loop は
`k` を狭義に進めるので、fuel は根の範囲の残りの key の数で足りる。 -/
theorem iterRoot_spec (hR : 0 < LgRadix) (hKB : KB + LgRadix < 64) (h : Inv KB m)
    (hn : m.root = some n) :
    ∀ fuel k (out : List (Nat × Nat)), m.rootPrefix ≤ k → NotInside m k →
      out = m.blocks.filter (startsIn (m.rootPrefix * 2 ^ LgAlign) (k * 2 ^ LgAlign)) →
      m.rootPrefix + 2 ^ (m.rootScale + LgRadix) - k ≤ fuel →
      iterRoot LgAlign LgRadix n m.rootScale (m.rootPrefix + slotSize (m.rootScale + LgRadix))
        fuel k out = m.blocks
  | 0, k, out, _, _, hout, hf => by
    rw [iterRoot, hout, filter_root_eq h hn (by omega)]
  | fuel + 1, k, out, hk, hin, hout, hf => by
    rw [iterRoot]
    split
    · rename_i hke
      rw [slotSize_eq] at hke
      -- 根から `k` の路を下る内側の loop の状態
      have hp := h.placed hn
      obtain ⟨hi, -, hlo, hhi⟩ := child_slot_bounds (Nat.le_add_left _ _) hp.dvd hk hke
      rw [Nat.add_sub_cancel] at hi hlo hhi
      have hst : IterState m n m.rootScale m.rootPrefix
          (k / 2 ^ m.rootScale % 2 ^ LgRadix) k :=
        ⟨hp, le_trans (h.range_le hn) (Nat.pow_le_pow_right (by decide) (by omega)), hlo,
          fun _ => by rwa [Nat.add_one_mul, ← Nat.add_assoc], hin⟩
      -- 内側の loop の fuel `(rootScale + 1) * (Radix + 1)` は足りる
      have hfuel : 2 ^ LgRadix - k / 2 ^ m.rootScale % 2 ^ LgRadix +
          m.rootScale / LgRadix * (2 ^ LgRadix + 1) ≤ innerFuel LgRadix m.rootScale := by
        have := Nat.mul_le_mul_right (2 ^ LgRadix + 1) (Nat.div_le_self m.rootScale LgRadix)
        rw [innerFuel, radix_eq, Nat.add_one_mul]
        omega
      obtain ⟨k', heq, -, hlt, hout'⟩ := iterNode_spec hR h _ n _ _ _ k out hst hfuel
      rw [index_eq, heq]
      exact iterRoot_spec hR hKB h hn fuel k'
        (out ++ m.blocks.filter (startsIn (k * 2 ^ LgAlign) (k' * 2 ^ LgAlign))) (by omega) hout'
        (by rw [hout, ← Sep.filter_startsIn_append h.sep (Nat.mul_le_mul_right _ hk)
          (Nat.mul_le_mul_right _ (Nat.le_of_lt (hlt hi)))]) (by have := hlt hi; omega)
    · rename_i hke
      rw [slotSize_eq] at hke
      rw [hout, filter_root_eq h hn (by omega)]

end Outer

/-- **`iterate` は、木のブロックを番地の順にすべて渡す。** -/
theorem iterate_eq_blocks (hR : 0 < LgRadix) {KB : Nat} (hKB : KB + LgRadix < 64)
    {m : RadixMap LgAlign LgRadix} (h : Inv KB m) :
    m.iterate = m.blocks ∧ m.blocks.Pairwise (fun a b => a.1 < b.1) := by
  refine ⟨?_, h.sorted⟩
  cases hn : m.root with
  | none =>
    simp only [iterate, hn]
    rw [blocks_of_none hn]
  | some n =>
    simp only [iterate, hn]
    exact iterRoot_spec hR hKB h hn _ _ _ (le_refl _) (notInside_root h hn)
      (filter_startsIn_self_eq_nil _ _).symm (by rw [slotSize_eq]; omega)

/-- `TEST(RadixMap, insert_destroy)` の二段の木：`iterate` は二つのブロックを番地の順に渡す。 -/
theorem iterate_blocks_insert_destroy :
    insertDestroy.iterate = [(0, 4), (64, 4)] ∧ insertDestroy.iterate = insertDestroy.blocks ∧
      insertDestroy.blocks.Pairwise (fun a b => a.1 < b.1) :=
  ⟨by decide, iterate_eq_blocks (by decide) (by decide) inv_insertDestroy⟩

end Hhvm.RadixMap
