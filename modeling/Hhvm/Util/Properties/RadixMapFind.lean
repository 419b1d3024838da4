import Hhvm.Util.Properties.RadixMapOps

/-!
# `RadixMap` の `find`

`find(ptr)` は `k = min(toKey(ptr), end)` から key を後ろへたどり、最初に出会う leaf のブロックが
`ptr` を含むかを見る。内側の loop は根から `k` の路を下り、空の slot では一つ前の slot の最後の
key へ戻る。node の先頭より前へ出たら、外側の loop がその key で根からやり直す。

内側の loop の状態（`FindState`）：今の node は木の中の位置にあり、`k` は `i` 番目の slot の中で
`ptr` の key 以下、`(k, ptr]` から始まるブロックはない。leaf に着いたら、その slot の先頭から
始まるブロックが `ptr` 以前で一番近いブロックなので、`ptr` を含むブロックはそれか、ない
（`Sep.containing_of_last`）。node の先頭から出たら、その node の先頭 `lo` から `ptr` までに始まる
ブロックはない（`FindOut`）。外側の loop は `lo - 1` から続け、`lo` が根の範囲の先頭なら
（`size_t` で `0 - 1` に回っても）根の範囲の検査で止まる（`find_eq_containing`）。
-/

namespace Hhvm.RadixMap

open Infra.Word64 Infra.Intervals

variable {LgAlign LgRadix : Nat}

/-- `find` の内側の loop の状態。 -/
structure FindState (m : RadixMap LgAlign LgRadix) (ptr : Nat) (n : Node) (scale nb i k : Nat) :
    Prop where
  /-- `n` は段 `scale` の slot を持つ node で、木の中で key `nb` からの位置にある。 -/
  placed : Placed m (.child n) (scale + LgRadix) nb
  /-- node の範囲は 63 ビットに収まる。 -/
  range_le : nb + 2 ^ (scale + LgRadix) ≤ 2 ^ 63
  /-- node は根の範囲の中にある。 -/
  prefix_le : m.rootPrefix ≤ nb
  /-- `i` は slot の番号。 -/
  slot_lt : i < 2 ^ LgRadix
  /-- `k` は `i` 番目の slot の中。 -/
  slot_le : nb + i * 2 ^ scale ≤ k
  lt_slot : k < nb + (i + 1) * 2 ^ scale
  /-- `k` は `ptr` の key 以下。 -/
  key_le : k * 2 ^ LgAlign ≤ ptr
  /-- `(k, ptr]` から始まるブロックはない。 -/
  scanned : ∀ b ∈ m.blocks, k * 2 ^ LgAlign < b.1 → ptr < b.1

/-- `find` の内側の loop の結果（`k` から始めたとき）。答えを返すならそれは `ptr` を含むブロック
（なければ `(0, 0)`）。node の先頭から出たなら、返す key は根の範囲の中の `lo ≤ k` の一つ前で、
`[lo, ptr]` から始まるブロックはない。 -/
structure FindOut (m : RadixMap LgAlign LgRadix) (ptr k : Nat) (r : Option (Nat × Nat) × Nat) :
    Prop where
  found : ∀ res, r.1 = some res → res = (containing m.blocks ptr).getD (0, 0)
  exit : r.1 = none → ∃ lo, m.rootPrefix ≤ lo ∧ lo ≤ k ∧ r.2 = (lo + (2 ^ 64 - 1)) % 2 ^ 64 ∧
    ∀ b ∈ m.blocks, lo * 2 ^ LgAlign ≤ b.1 → ptr < b.1

/-- `k` から出た結果は、`k` より後の key から出た結果でもある。 -/
theorem FindOut.mono {m : RadixMap LgAlign LgRadix} {ptr k k' : Nat}
    {r : Option (Nat × Nat) × Nat} (h : FindOut m ptr k r) (hk : k ≤ k') : FindOut m ptr k' r where
  found := h.found
  exit := fun hr => by
    obtain ⟨lo, h1, h2, h3, h4⟩ := h.exit hr
    exact ⟨lo, h1, le_trans h2 hk, h3, h4⟩

/-- `Align` の倍数 `x` が `k * Align` より後なら、`(k + 1) * Align` 以降。 -/
theorem succ_mul_le_of_dvd {x k : Nat} (hx : 2 ^ LgAlign ∣ x) (h : k * 2 ^ LgAlign < x) :
    (k + 1) * 2 ^ LgAlign ≤ x := by
  obtain ⟨q, rfl⟩ := hx
  rw [Nat.mul_comm] at h ⊢
  exact Nat.mul_le_mul_left _ (Nat.lt_of_mul_lt_mul_left h)

/-- `i` が負なら、内側の loop はすぐ抜ける。 -/
theorem findNode_neg (needle : Nat) {i : Int} (hi : i < 0) :
    ∀ fuel (n : Node) (scale k : Nat), findNode LgAlign LgRadix needle fuel n scale i k = (none, k)
  | 0, _, _, _ => rfl
  | _ + 1, _, _, _ => by
    rw [findNode, if_neg (by omega)]

section Step

variable {KB : Nat} {m : RadixMap LgAlign LgRadix} {ptr : Nat} {n : Node} {scale nb i k : Nat}

theorem FindState.key_lt (hst : FindState m ptr n scale nb i k) : k < 2 ^ 64 := by
  have h1 := hst.lt_slot
  have h2 : nb + (i + 1) * 2 ^ scale ≤ nb + 2 ^ (scale + LgRadix) := by
    rw [Nat.pow_add, Nat.mul_comm (2 ^ scale)]
    exact Nat.add_le_add_left (Nat.mul_le_mul_right _ hst.slot_lt) _
  have h3 := hst.range_le
  have : (2 : Nat) ^ 63 < 2 ^ 64 := by decide
  omega

/-- slot の先頭への切り下げ `k & ~(slot_size(scale) - 1)`。 -/
theorem FindState.round (hst : FindState m ptr n scale nb i k) :
    k &&& bnot (slotSize scale - 1) = nb + i * 2 ^ scale := by
  rw [slotSize_eq, and_bnot_eq hst.key_lt]
  exact div_mul_eq_of_range (hst.placed.slot hst.slot_lt).dvd hst.slot_le
    (by rw [Nat.add_assoc, ← Nat.add_one_mul]; exact hst.lt_slot)

/-- `i` 番目の slot から始まるブロックのほかに、`(slot の先頭, ptr]` から始まるブロックはない。 -/
theorem FindState.scanned_slot (hst : FindState m ptr n scale nb i k) {b : Nat × Nat}
    (hb : b ∈ m.blocks) (hlt : (nb + i * 2 ^ scale) * 2 ^ LgAlign ≤ b.1) :
    b ∈ (n i).blocks LgAlign LgRadix scale (nb + i * 2 ^ scale) ∨ ptr < b.1 := by
  by_cases hk : b.1 ≤ k * 2 ^ LgAlign
  · -- `b` はこの slot の範囲から始まる
    left
    have hp := hst.placed.slot hst.slot_lt
    rw [← hp.blocks_eq, List.mem_filter, startsIn_iff]
    refine ⟨hb, hlt, lt_of_le_of_lt hk (Nat.mul_lt_mul_of_pos_right ?_ (Nat.two_pow_pos _))⟩
    rw [Nat.add_assoc, ← Nat.add_one_mul]
    exact hst.lt_slot
  · exact .inr (hst.scanned b hb (Nat.lt_of_not_le hk))

/-- **leaf の slot で答える。** slot の先頭から始まるブロックが `ptr` 以前で一番近いブロックなので、
`needle ≥ k + size / Align` の比べ方で、`ptr` を含むブロック（なければ `(0, 0)`）を返す。 -/
theorem FindState.leaf (h : Inv KB m) (hst : FindState m ptr n scale nb i k) {size : Nat}
    (hni : n i = .leaf size) :
    (if toKey LgAlign ptr ≥ nb + i * 2 ^ scale + (size >>> LgAlign) then ((0 : Nat), (0 : Nat))
      else ((nb + i * 2 ^ scale) <<< LgAlign, size)) = (containing m.blocks ptr).getD (0, 0) := by
  have hp := hst.placed.slot hst.slot_lt
  rw [hni] at hp
  have hmem := hp.mem (List.mem_singleton_self _)
  have hA := Nat.two_pow_pos LgAlign
  have hdvd : 2 ^ LgAlign ∣ size :=
    Nat.dvd_trans (Nat.pow_dvd_pow 2 (Nat.le_add_left _ _)) hp.wf.2
  -- `(slot の先頭, ptr]` から始まるブロックはない
  have hnext : ∀ b ∈ m.blocks, (nb + i * 2 ^ scale) * 2 ^ LgAlign < b.1 → ptr < b.1 := by
    intro b hb hlt
    rcases hst.scanned_slot hb (Nat.le_of_lt hlt) with hb' | hb'
    · rw [hni, Slot.blocks_leaf, List.mem_singleton] at hb'
      rw [hb'] at hlt
      exact absurd hlt (Nat.lt_irrefl _)
    · exact hb'
  have hpx : (nb + i * 2 ^ scale) * 2 ^ LgAlign ≤ ptr :=
    le_trans (Nat.mul_le_mul_right _ hst.slot_le) hst.key_le
  rw [Sep.containing_of_last h.sep h.pos hmem hpx hnext, toKey_eq, Nat.shiftRight_eq_div_pow,
    Nat.shiftLeft_eq]
  -- `needle ≥ k + size / Align` は `ptr` がブロックの終わり以降にあること
  have hiff : nb + i * 2 ^ scale + size / 2 ^ LgAlign ≤ ptr / 2 ^ LgAlign ↔
      ¬ptr < (nb + i * 2 ^ scale) * 2 ^ LgAlign + size := by
    rw [Nat.le_div_iff_mul_le hA, Nat.add_mul, Nat.div_mul_cancel hdvd]
    omega
  by_cases hx : ptr < (nb + i * 2 ^ scale) * 2 ^ LgAlign + size
  · rw [if_neg (fun h' => hiff.mp h' hx), if_pos hx]
    rfl
  · rw [if_pos (hiff.mpr hx), if_neg hx]
    rfl

/-- **子の slot での一歩。** 子の node へ `k` のまま下る。 -/
theorem FindState.child (hst : FindState m ptr n scale nb i k) {c : Node}
    (hni : n i = .child c) :
    LgRadix ≤ scale ∧ FindState m ptr c (scale - LgRadix) (nb + i * 2 ^ scale)
      (k / 2 ^ (scale - LgRadix) % 2 ^ LgRadix) k := by
  have hp := hst.placed.slot hst.slot_lt
  rw [hni] at hp
  have hR : LgRadix ≤ scale := hp.wf.1
  have hsc : scale - LgRadix + LgRadix = scale := Nat.sub_add_cancel hR
  have hend : nb + i * 2 ^ scale + 2 ^ scale = nb + (i + 1) * 2 ^ scale := by
    rw [Nat.add_one_mul, Nat.add_assoc]
  obtain ⟨hi, -, hlo, hhi⟩ := child_slot_bounds hR hp.dvd hst.slot_le (by rw [hend]; exact hst.lt_slot)
  refine ⟨hR, by rw [hsc]; exact hp, ?_, le_trans hst.prefix_le (Nat.le_add_right _ _), hi, hlo,
    by rwa [Nat.add_one_mul, ← Nat.add_assoc], hst.key_le, hst.scanned⟩
  rw [hsc, hend]
  refine le_trans (Nat.add_le_add_left ?_ _) hst.range_le
  rw [Nat.pow_add, Nat.mul_comm (2 ^ scale)]
  exact Nat.mul_le_mul_right _ hst.slot_lt

/-- **空の slot での一歩。** `k` は slot の先頭の一つ前（`size_t` で）へ戻る。slot の先頭から `ptr`
までに始まるブロックはなく、`i > 0` なら一つ前の slot の最後の key で `FindState` が続く。 -/
theorem FindState.empty (h : Inv KB m) (hst : FindState m ptr n scale nb i k)
    (hni : n i = .empty) :
    ((k &&& bnot (slotSize scale - 1)) + (2 ^ 64 - 1)) % 2 ^ 64 =
        (nb + i * 2 ^ scale + (2 ^ 64 - 1)) % 2 ^ 64 ∧
      (∀ b ∈ m.blocks, (nb + i * 2 ^ scale) * 2 ^ LgAlign ≤ b.1 → ptr < b.1) ∧
      (0 < i → FindState m ptr n scale nb (i - 1) (nb + i * 2 ^ scale - 1)) := by
  have hlo : ∀ b ∈ m.blocks, (nb + i * 2 ^ scale) * 2 ^ LgAlign ≤ b.1 → ptr < b.1 := by
    intro b hb hle
    rcases hst.scanned_slot hb hle with hb' | hb'
    · rw [hni, Slot.blocks_empty] at hb'
      cases hb'
    · exact hb'
  refine ⟨by rw [hst.round], hlo, fun hi => ⟨hst.placed, hst.range_le, hst.prefix_le,
    by have := hst.slot_lt; omega, ?_, ?_, ?_, ?_⟩⟩
  · -- 一つ前の slot の最後の key
    rw [Nat.sub_one_mul]
    have := Nat.two_pow_pos scale
    have : 2 ^ scale ≤ i * 2 ^ scale := Nat.le_mul_of_pos_left _ hi
    omega
  · rw [Nat.sub_add_cancel hi]
    have := Nat.two_pow_pos scale
    have : 2 ^ scale ≤ i * 2 ^ scale := Nat.le_mul_of_pos_left _ hi
    omega
  · refine le_trans (Nat.mul_le_mul_right _ ?_) hst.key_le
    have := hst.slot_le
    omega
  · -- `(slot の先頭 - 1, ptr]` から始まるブロックは、`Align` の倍数なので slot の先頭以降
    intro b hb hlt
    have hpos : 0 < nb + i * 2 ^ scale := by
      have := Nat.le_mul_of_pos_left (2 ^ scale) hi
      have := Nat.two_pow_pos scale
      omega
    have := succ_mul_le_of_dvd (h.dvd_start hb) hlt
    rw [Nat.sub_add_cancel hpos] at this
    exact hlo b hb this

end Step

/-! ## 内側の loop -/

/-- **`find` の内側の loop。** `FindState` から始めれば、loop の結果は `FindOut`。fuel は、今の段で
残る slot の数と、下の段ごとに slot の数と一回。 -/
theorem findNode_spec (hR : 0 < LgRadix) {KB : Nat} {m : RadixMap LgAlign LgRadix} (h : Inv KB m)
    {ptr : Nat} :
    ∀ fuel (n : Node) (scale nb i k : Nat), FindState m ptr n scale nb i k →
      i + 1 + scale / LgRadix * (2 ^ LgRadix + 1) ≤ fuel →
      FindOut m ptr k (findNode LgAlign LgRadix (toKey LgAlign ptr) fuel n scale i k)
  | 0, _, _, _, _, _, _, hf => absurd hf (by omega)
  | fuel + 1, n, scale, nb, i, k, hst, hf => by
    rw [findNode, if_pos (by omega), Int.toNat_natCast]
    split
    · -- leaf：答える
      rename_i size hni
      rw [hst.round]
      refine ⟨fun res hres => ?_, fun hr => ?_⟩
      · rw [← Option.some.inj hres]
        exact hst.leaf h hni
      · cases hr
    · -- 子：`k` のまま下る
      rename_i c hni
      obtain ⟨hRs, hst'⟩ := hst.child hni
      have hq := div_sub_radix hR hRs
      rw [index_eq]
      exact findNode_spec hR h fuel c _ _ _ k hst'
        (by have := hst'.slot_lt; rw [hq, Nat.add_mul, Nat.one_mul] at hf; omega)
    · -- 空：一つ前の slot の最後の key へ
      rename_i hni
      obtain ⟨hk', hlo, hnext⟩ := hst.empty h hni
      rw [hk']
      by_cases hi : i = 0
      · -- 先頭の slot から出る：`lo` は node の先頭
        subst hi
        rw [findNode_neg _ (by omega)]
        refine ⟨fun res hres => absurd hres (by simp), fun _ => ⟨nb, hst.prefix_le, ?_, ?_, ?_⟩⟩
        · have := hst.slot_le
          omega
        · rw [Nat.zero_mul, Nat.add_zero]
        · simpa using hlo
      · have hi' : 0 < i := Nat.pos_of_ne_zero hi
        have hpos : 0 < nb + i * 2 ^ scale := by
          have := Nat.le_mul_of_pos_left (2 ^ scale) hi'
          have := Nat.two_pow_pos scale
          omega
        have hst' := hnext hi'
        rw [add_pred_mod_of_pos hpos (by have := hst.key_lt; have := hst.slot_le; omega),
          show (i : Int) - 1 = ((i - 1 : Nat) : Int) by omega]
        exact (findNode_spec hR h fuel n scale nb (i - 1) _ hst' (by omega)).mono
          (by have := hst.slot_le; omega)

/-! ## 外側の loop -/

section Outer

variable {KB : Nat} {m : RadixMap LgAlign LgRadix} {n : Node} {ptr : Nat}

/-- 根の範囲の外から始めた、または抜けた `find` の答えは `(0, 0)`：`ptr` 以前に始まるブロックは
ない。 -/
theorem containing_eq_zero (hnone : ∀ b ∈ m.blocks, ptr < b.1) :
    (containing m.blocks ptr).getD (0, 0) = (0, 0) := by
  rw [containing_eq_none hnone]
  rfl

/-- **`find` の外側の loop。** `k` が根の範囲にあれば、`k` は `ptr` の key 以下で `(k, ptr]` から
始まるブロックはなく、範囲の外なら `ptr` 以前に始まるブロックはない。内側の loop が抜けるたびに
`k` は狭義に減るので、fuel は範囲の先頭からの key の数で足りる。 -/
theorem findRoot_spec (hR : 0 < LgRadix) (hKB : KB + LgRadix < 64) (h : Inv KB m)
    (hn : m.root = some n) :
    ∀ fuel k, k < 2 ^ 64 →
      (m.rootPrefix ≤ k → k < m.rootPrefix + 2 ^ (m.rootScale + LgRadix) →
        k * 2 ^ LgAlign ≤ ptr ∧ (∀ b ∈ m.blocks, k * 2 ^ LgAlign < b.1 → ptr < b.1) ∧
          k + 1 - m.rootPrefix ≤ fuel) →
      (¬(m.rootPrefix ≤ k ∧ k < m.rootPrefix + 2 ^ (m.rootScale + LgRadix)) →
        ∀ b ∈ m.blocks, ptr < b.1) →
      findRoot LgAlign LgRadix n m.rootScale m.rootPrefix (toKey LgAlign ptr) fuel k =
        (containing m.blocks ptr).getD (0, 0) := by
  have hrange := h.range_le hn
  have h63 : 2 ^ (KB + LgRadix) ≤ 2 ^ 63 := Nat.pow_le_pow_right (by decide) (by omega)
  have h64 : (2 : Nat) ^ 63 < 2 ^ 64 := by decide
  intro fuel
  induction fuel with
  | zero =>
    intro k _ hin hout
    -- fuel がなければ `k` は根の範囲の外
    have hr : ¬(m.rootPrefix ≤ k ∧ k < m.rootPrefix + 2 ^ (m.rootScale + LgRadix)) := fun hr => by
      have := (hin hr.1 hr.2).2.2
      omega
    rw [findRoot, containing_eq_zero (hout hr)]
  | succ fuel ih =>
    intro k hk hin hout
    rw [findRoot]
    by_cases hr : m.rootPrefix ≤ k ∧ k < m.rootPrefix + 2 ^ (m.rootScale + LgRadix)
    · have hu := (upper_eq_iff LgRadix hk (h.prefix_dvd n hn)).mpr hr
      rw [if_pos hu]
      obtain ⟨hkey, hscan, hf⟩ := hin hr.1 hr.2
      -- 根から `k` の路を下る内側の loop の状態
      have hp := h.placed hn
      obtain ⟨hi, -, hlo, hhi⟩ := child_slot_bounds (Nat.le_add_left _ _) hp.dvd hr.1 hr.2
      rw [Nat.add_sub_cancel] at hi hlo hhi
      have hst : FindState m ptr n m.rootScale m.rootPrefix (k / 2 ^ m.rootScale % 2 ^ LgRadix) k :=
        ⟨hp, le_trans hrange h63, le_refl _, hi, hlo, by rwa [Nat.add_one_mul, ← Nat.add_assoc],
          hkey, hscan⟩
      have hfuel : k / 2 ^ m.rootScale % 2 ^ LgRadix + 1 + m.rootScale / LgRadix * (2 ^ LgRadix + 1) ≤
          innerFuel LgRadix m.rootScale := by
        have := Nat.mul_le_mul_right (2 ^ LgRadix + 1) (Nat.div_le_self m.rootScale LgRadix)
        rw [innerFuel, radix_eq, Nat.add_one_mul]
        omega
      have hres := findNode_spec hR h _ n _ _ _ k hst hfuel
      rw [index_eq]
      generalize findNode LgAlign LgRadix (toKey LgAlign ptr) (innerFuel LgRadix m.rootScale) n
        m.rootScale ((k / 2 ^ m.rootScale % 2 ^ LgRadix : Nat) : Int) k = r at hres ⊢
      obtain ⟨o, k'⟩ := r
      cases o with
      | some res => exact hres.found res rfl
      | none =>
        -- node の先頭 `lo` から出た：`lo - 1` で続ける
        obtain ⟨lo, hlo1, hlo2, hk', hscan'⟩ := hres.exit rfl
        dsimp only at hk' ⊢
        by_cases hlp : m.rootPrefix < lo
        · rw [add_pred_mod_of_pos (by omega) (by omega)] at hk'
          subst hk'
          refine ih (lo - 1) (by omega) (fun _ _ => ⟨?_, fun b hb hlt => ?_, by omega⟩) (fun hc => ?_)
          · exact le_trans (Nat.mul_le_mul_right _ (by omega)) hkey
          · have := succ_mul_le_of_dvd (h.dvd_start hb) hlt
            rw [Nat.sub_add_cancel (by omega)] at this
            exact hscan' b hb this
          · omega
        · -- 根の範囲の先頭から出た：`ptr` 以前に始まるブロックはない
          have hlo' : lo = m.rootPrefix := by omega
          subst hlo'
          have hnone : ∀ b ∈ m.blocks, ptr < b.1 := fun b hb => hscan' b hb (h.start_range hn hb).1
          have hk'lt : k' < 2 ^ 64 := by rw [hk']; exact Nat.mod_lt _ (by decide)
          refine ih k' hk'lt (fun h1 h2 => ?_) (fun _ => hnone)
          -- 一つ前の key は根の範囲の外（`rootPrefix = 0` なら `size_t` で回って `2 ^ 64 - 1`）
          exfalso
          by_cases hp0 : m.rootPrefix = 0
          · rw [hp0, Nat.zero_add, Nat.mod_eq_of_lt (by decide)] at hk'
            omega
          · rw [add_pred_mod_of_pos (by omega) (by omega)] at hk'
            omega
    · rw [if_neg fun hu => hr ((upper_eq_iff LgRadix hk (h.prefix_dvd n hn)).mp hu),
        containing_eq_zero (hout hr)]

end Outer

/-- **`find(ptr)` は、`ptr` を含むブロックを返す。なければ `(0, 0)`。** -/
theorem find_eq_containing (hR : 0 < LgRadix) {KB : Nat} (hKB : KB + LgRadix < 64)
    {m : RadixMap LgAlign LgRadix} (h : Inv KB m) (ptr : Nat) :
    m.find ptr = (containing m.blocks ptr).getD (0, 0) := by
  cases hn : m.root with
  | none =>
    simp only [find, hn]
    rw [blocks_of_none hn]
    rfl
  | some n =>
    have hrange := h.range_le hn
    have h63 : 2 ^ (KB + LgRadix) ≤ 2 ^ 63 := Nat.pow_le_pow_right (by decide) (by omega)
    have h64 : (2 : Nat) ^ 63 < 2 ^ 64 := by decide
    have hA := Nat.two_pow_pos LgAlign
    have hS := Nat.two_pow_pos (m.rootScale + LgRadix)
    simp only [find, hn, slotSize_eq, toKey_eq]
    rw [Nat.mod_eq_of_lt (by omega)]
    -- `ptr` の key の次の key からは、`ptr` より後
    have hnext : ptr < (ptr / 2 ^ LgAlign + 1) * 2 ^ LgAlign := by
      rw [Nat.add_one_mul]
      exact Nat.lt_div_mul_add hA
    rw [← toKey_eq]
    refine findRoot_spec hR hKB h hn _ _ (by rw [toKey_eq]; omega)
      (fun h1 h2 => ⟨?_, ?_, by rw [toKey_eq] at h1 h2 ⊢; omega⟩) (fun hout b hb => ?_)
    · rw [toKey_eq]
      exact le_trans (Nat.mul_le_mul_right _ (Nat.min_le_left _ _)) (Nat.div_mul_le_self _ _)
    · intro b hb hlt
      rw [toKey_eq] at hlt
      have := succ_mul_le_of_dvd (h.dvd_start hb) hlt
      by_cases hmin : ptr / 2 ^ LgAlign ≤ m.rootPrefix + 2 ^ (m.rootScale + LgRadix) - 1
      · rw [Nat.min_eq_left hmin] at this
        omega
      · -- `end` の次からは、ブロックは始まらない
        rw [Nat.min_eq_right (by omega), Nat.sub_add_cancel (by omega)] at this
        exact absurd (h.start_range hn hb).2 (Nat.not_lt.mpr this)
    · -- `ptr` の key が根の範囲の先頭より前
      rw [toKey_eq] at hout
      have hlt : ptr / 2 ^ LgAlign < m.rootPrefix := by
        by_contra hc
        exact hout ⟨by omega, by omega⟩
      have : (ptr / 2 ^ LgAlign + 1) * 2 ^ LgAlign ≤ m.rootPrefix * 2 ^ LgAlign :=
        Nat.mul_le_mul_right _ hlt
      have := (h.start_range hn hb).1
      omega

/-- `TEST(RadixMap, insert_destroy)` の二つのブロックの、後のブロックの中の番地。 -/
theorem find_containing_insert_destroy :
    (((init : RadixMap 2 4).insert 0 4).insert 64 4).find 66 =
      (containing (((init : RadixMap 2 4).insert 0 4).insert 64 4).blocks 66).getD (0, 0) :=
  find_eq_containing (by decide) (by decide) inv_insertDestroy 66

end Hhvm.RadixMap
