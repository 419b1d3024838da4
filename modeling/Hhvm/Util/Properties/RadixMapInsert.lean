import Hhvm.Util.Properties.RadixMapShape

/-!
# `RadixMap` の `insert`

`insert(ptr, size)` は、`[ptr, ptr + size)` が既にあるブロックと重ならず、番地が `Align` に
そろっているという前提（`InsertOk`）のもとで、木のブロックに `(ptr, size)` を一つ足す。

1. `max_scale` は key と `size / Align` の両方を割る一番大きい `2 ^ s` の `s`
   （`InsertOk.maxScale`）。ブロックはこの段に leaf として置ける。
2. 最初の loop（`deepen`）は、根の上に node を足すたびに不変条件とブロックを保ち
   （`Inv.grow`、`grow_blocks`）、`LgRadix ≥ 1` なので `KB` の段までに止まる。止まったとき、
   `k` は根の範囲にあり、根の段は `max_scale` より上（`deepen_spec`）。
3. 二つ目の loop（`insertSlot`）は `k` の路を下り、`max_scale` 以下の段の slot を leaf にする。
   その slot の子の木にブロックはない（あれば新しいブロックと重なる）ので、ブロックは一つ
   増えるだけ（`insertSlot_mem`）。途中に leaf があることも、同じ理由で起きない。
-/

namespace Hhvm.RadixMap

open Infra.Word64 Infra.Intervals

variable {LgAlign LgRadix : Nat}

/-- `insert(ptr, size)` の前提（`assert` と、関数の注釈にある「重ならない」）。 -/
structure InsertOk (KB : Nat) (m : RadixMap LgAlign LgRadix) (ptr size : Nat) : Prop where
  /-- `uintptr_t(ptr) % Align == 0`。 -/
  ptr_dvd : 2 ^ LgAlign ∣ ptr
  /-- `size % Align == 0`。 -/
  size_dvd : 2 ^ LgAlign ∣ size
  /-- `size >= Align`（`Align` の倍数なので、正であることと同じ）。 -/
  size_pos : 0 < size
  /-- ブロックは番地 `2 ^ (KB + LgAlign)` までに終わる。 -/
  bound : ptr + size ≤ 2 ^ (KB + LgAlign)
  /-- 既にあるブロックと重ならない。 -/
  disjoint : ∀ b ∈ m.blocks, b.1 + b.2 ≤ ptr ∨ ptr + size ≤ b.1

theorem blocks_init : (init : RadixMap LgAlign LgRadix).blocks = [] := rfl

/-- 空の木への `insert` の前提は、番地と大きさの条件だけ。 -/
theorem insertOk_init {KB ptr size : Nat} (hp : 2 ^ LgAlign ∣ ptr) (hs : 2 ^ LgAlign ∣ size)
    (hpos : 0 < size) (hb : ptr + size ≤ 2 ^ (KB + LgAlign)) :
    InsertOk KB (init : RadixMap LgAlign LgRadix) ptr size :=
  ⟨hp, hs, hpos, hb, fun _ hb' => by rw [blocks_init] at hb'; cases hb'⟩

/-! ## `max_scale` -/

section MaxScale

variable {KB : Nat} {m : RadixMap LgAlign LgRadix} {ptr size : Nat}

/-- key は `2 ^ KB` 未満。 -/
theorem InsertOk.key_lt (h : InsertOk KB m ptr size) : ptr / 2 ^ LgAlign < 2 ^ KB := by
  rw [Nat.div_lt_iff_lt_mul (Nat.two_pow_pos _), ← Nat.pow_add]
  have := h.bound
  have := h.size_pos
  omega

/-- `size / Align` は正で `2 ^ KB` 以下。 -/
theorem InsertOk.units_bounds (h : InsertOk KB m ptr size) :
    0 < size / 2 ^ LgAlign ∧ size / 2 ^ LgAlign ≤ 2 ^ KB := by
  obtain ⟨z, hz⟩ := h.size_dvd
  have hA := Nat.two_pow_pos LgAlign
  have hb := h.bound
  have hpos := h.size_pos
  rw [hz, Nat.mul_div_cancel_left _ hA]
  rw [hz] at hb hpos
  refine ⟨Nat.pos_of_mul_pos_left hpos, ?_⟩
  -- `2 ^ LgAlign * z ≤ 2 ^ (KB + LgAlign) = 2 ^ LgAlign * 2 ^ KB`
  rw [Nat.pow_add, Nat.mul_comm (2 ^ KB)] at hb
  exact Nat.le_of_mul_le_mul_left (by omega) hA

/-- **`max_scale` の性質。** `2 ^ max_scale` は key と `size / Align` を割り（ブロックはその段の
slot の先頭から始まり、大きさはその slot の倍数）、`max_scale ≤ KB`。 -/
theorem InsertOk.maxScale (h : InsertOk KB m ptr size) (hKB : KB < 64) {ms : Nat}
    (hms : ffs (toKey LgAlign ptr ||| size >>> LgAlign) - 1 = ms) :
    2 ^ ms ∣ ptr / 2 ^ LgAlign ∧ 2 ^ (ms + LgAlign) ∣ size ∧ ms ≤ KB := by
  obtain ⟨hz0, hzle⟩ := h.units_bounds
  have h64 : 2 ^ KB < 2 ^ 64 := Nat.pow_lt_pow_right (by decide) hKB
  have hk : ptr / 2 ^ LgAlign < 2 ^ 64 := lt_trans h.key_lt h64
  have hz : size / 2 ^ LgAlign < 2 ^ 64 := lt_of_le_of_lt hzle h64
  rw [toKey_eq, Nat.shiftRight_eq_div_pow] at hms
  -- `x = k ||| (size / Align)` は 0 でなく、64 ビットに収まる
  have hx0 : ptr / 2 ^ LgAlign ||| size / 2 ^ LgAlign ≠ 0 :=
    fun h0 => Nat.pos_iff_ne_zero.mp hz0 (Nat.or_eq_zero_iff.mp h0).2
  obtain ⟨hdk, hdz⟩ := (two_pow_dvd_or_iff _ _ _).mp
    ((le_ffs_sub_one_iff hx0 (Nat.or_lt_two_pow hk hz) ms).mp (le_of_eq hms.symm))
  refine ⟨hdk, ?_, ?_⟩
  · rw [← Nat.div_mul_cancel h.size_dvd, Nat.pow_add]
    exact Nat.mul_dvd_mul_right hdz _
  · -- `2 ^ ms ≤ size / Align ≤ 2 ^ KB`
    have := Nat.le_of_dvd hz0 hdz
    exact (Nat.pow_le_pow_iff_right (by decide)).mp (le_trans this hzle)

end MaxScale

/-! ## 最初の loop -/

/-- `m_root_scale` を上げる loop は、`LgRadix` の倍数を保ったまま、`max_scale` を初めて超える段
まで上げる。`max_scale ≤ KB` なら `KB` を超えない。 -/
theorem raiseScale_spec (hR : 0 < LgRadix) {KB ms : Nat} (hms : ms ≤ KB) :
    ∀ fuel scale, ms < scale + fuel → LgRadix ∣ scale → scale ≤ KB →
      LgRadix ∣ raiseScale LgRadix ms fuel scale ∧ raiseScale LgRadix ms fuel scale ≤ KB ∧
        ms < raiseScale LgRadix ms fuel scale + LgRadix
  | 0, scale, hf, hd, hle => by
    rw [raiseScale]
    exact ⟨hd, hle, by omega⟩
  | fuel + 1, scale, hf, hd, hle => by
    rw [raiseScale]
    split
    · exact raiseScale_spec hR hms fuel (scale + LgRadix) (by omega)
        (Nat.dvd_add hd (Nat.dvd_refl _)) (by omega)
    · exact ⟨hd, hle, by omega⟩

/-- `upper(p, scale)` と `index(p, scale)` から `p` が戻る（`p` が `2 ^ scale` の倍数のとき）。 -/
theorem upper_add_index {p scale : Nat} (hp : p < 2 ^ 64) (hdvd : 2 ^ scale ∣ p) :
    upper LgRadix p scale + index LgRadix p scale * 2 ^ scale = p := by
  obtain ⟨c, rfl⟩ := hdvd
  have hs := Nat.two_pow_pos scale
  rw [upper_eq LgRadix hp, index_eq, Nat.mul_div_cancel_left _ hs, Nat.pow_add,
    ← Nat.div_div_eq_div_mul, Nat.mul_div_cancel_left _ hs]
  -- `2 ^ scale * (c / 2 ^ R * 2 ^ R + c % 2 ^ R) = 2 ^ scale * c`
  conv => rhs; rw [← Nat.div_add_mod c (2 ^ LgRadix)]
  rw [Nat.mul_add, Nat.mul_comm (2 ^ LgRadix) (c / 2 ^ LgRadix), Nat.mul_comm (c % 2 ^ LgRadix)]
  ac_rfl

@[simp] theorem grow_root (m : RadixMap LgAlign LgRadix) (r : Node) :
    (m.grow r).root =
      some (Function.update makeNode (index LgRadix m.rootPrefix (m.rootScale + LgRadix)) (.child r)) :=
  rfl

@[simp] theorem grow_rootPrefix (m : RadixMap LgAlign LgRadix) (r : Node) :
    (m.grow r).rootPrefix = upper LgRadix m.rootPrefix (m.rootScale + LgRadix) := rfl

@[simp] theorem grow_rootScale (m : RadixMap LgAlign LgRadix) (r : Node) :
    (m.grow r).rootScale = m.rootScale + LgRadix := rfl

/-- 根の上に node を足しても、木のブロックは変わらない。 -/
theorem grow_blocks {m : RadixMap LgAlign LgRadix} {r : Node} (hr : m.root = some r)
    (hp : m.rootPrefix < 2 ^ 64) (hdvd : 2 ^ (m.rootScale + LgRadix) ∣ m.rootPrefix) :
    (m.grow r).blocks = m.blocks := by
  have hj := Nat.mod_lt (m.rootPrefix / 2 ^ (m.rootScale + LgRadix)) (Nat.two_pow_pos LgRadix)
  rw [blocks_of_some (grow_root m r), blocks_of_some hr, grow_rootScale, grow_rootPrefix,
    Slot.blocks_child, Nat.add_sub_cancel]
  -- 古い根を置いた slot のほかは空
  rw [flatMap_range_eq_of_ne (i := index LgRadix m.rootPrefix (m.rootScale + LgRadix))
    (by rw [index_eq]; exact hj) fun j _ hji => by
      rw [Function.update_of_ne hji]
      rfl, Function.update_self, upper_add_index hp hdvd]

/-- **根の上に node を足しても不変条件は保たれる。** 足すのは、`k` が根の範囲にないか、
`rootScale + LgRadix ≤ max_scale` のときなので、新しい段も `KB` を超えない。 -/
theorem Inv.grow {KB : Nat} {m : RadixMap LgAlign LgRadix} (h : Inv KB m) {r : Node}
    (hr : m.root = some r) (hKB : KB < 64) {k ms : Nat} (hk : k < 2 ^ KB) (hms : ms ≤ KB)
    (hc : upper LgRadix k m.rootScale ≠ m.rootPrefix ∨ m.rootScale + LgRadix ≤ ms) :
    Inv KB (m.grow r) := by
  have h64 : 2 ^ KB < 2 ^ 64 := Nat.pow_lt_pow_right (by decide) hKB
  have hp64 : m.rootPrefix < 2 ^ 64 := lt_trans (h.prefix_lt r hr) h64
  -- 新しい段 `rootScale + LgRadix` も `KB` 以下
  have hsc : m.rootScale + LgRadix ≤ KB := by
    rcases hc with hu | hle
    · by_contra hlt
      apply hu
      -- 根の範囲が `2 ^ KB` 個より広ければ、`rootPrefix = 0` で `k` はその中にある
      have hKB' : 2 ^ KB ≤ 2 ^ (m.rootScale + LgRadix) :=
        Nat.pow_le_pow_right (by decide) (by omega)
      have hp0 : m.rootPrefix = 0 :=
        Nat.eq_zero_of_dvd_of_lt (h.prefix_dvd r hr) (lt_of_lt_of_le (h.prefix_lt r hr) hKB')
      rw [upper_eq_iff LgRadix (lt_trans hk h64) (h.prefix_dvd r hr), hp0]
      omega
    · omega
  have hblocks := grow_blocks hr hp64 (h.prefix_dvd r hr)
  refine {
    none_root := fun h' => by cases h'
    scale_dvd := Nat.dvd_add h.scale_dvd (Nat.dvd_refl _)
    root_wf := fun n hn => ?_
    prefix_dvd := fun _ _ => ?_
    prefix_lt := fun _ _ => ?_
    scale_le := hsc
    sep := by rw [hblocks]; exact h.sep
    bound := by rw [hblocks]; exact h.bound }
  · cases hn
    refine ⟨Nat.le_add_left _ _, fun j _ => ?_⟩
    rw [Nat.add_sub_cancel]
    by_cases hj : j = index LgRadix m.rootPrefix (m.rootScale + LgRadix)
    · subst hj
      rw [Function.update_self]
      exact h.root_wf r hr
    · rw [Function.update_of_ne hj]
      trivial
  · rw [grow_rootPrefix, grow_rootScale, upper_eq LgRadix hp64]
    exact Nat.dvd_mul_left _ _
  · rw [grow_rootPrefix, upper_eq LgRadix hp64]
    exact lt_of_le_of_lt (Nat.div_mul_le_self _ _) (h.prefix_lt r hr)

/-- `deepen` の後の木：不変条件を満たし、ブロックは前と同じで、根があり、key `k` は根の範囲に
あり、根の段は `max_scale` より上。 -/
structure Deepened (KB k ms : Nat) (m m' : RadixMap LgAlign LgRadix) : Prop where
  inv : Inv KB m'
  blocks_eq : m'.blocks = m.blocks
  root_some : ∃ n, m'.root = some n
  prefix_le : m'.rootPrefix ≤ k
  lt_prefix : k < m'.rootPrefix + 2 ^ (m'.rootScale + LgRadix)
  ms_lt : ms < m'.rootScale + LgRadix

/-- **`insert` の最初の loop。** 根の段は loop のたびに `LgRadix` 上がり、`KB` を超えないので、
`KB` より多い fuel があれば loop は条件が偽になって止まる（木が空なら根を作って止まる）。 -/
theorem deepen_spec (hR : 0 < LgRadix) {KB : Nat} (hKB : KB < 64) {k ms : Nat} (hk : k < 2 ^ KB)
    (hms : ms ≤ KB) :
    ∀ fuel (m : RadixMap LgAlign LgRadix), Inv KB m → KB < m.rootScale + fuel →
      Deepened KB k ms m (deepen k ms fuel m)
  | 0, m, h, hf => absurd h.scale_le (by omega)
  | fuel + 1, m, h, hf => by
    have h64 : 2 ^ KB < 2 ^ 64 := Nat.pow_lt_pow_right (by decide) hKB
    have hk64 : k < 2 ^ 64 := lt_trans hk h64
    rw [deepen]
    split
    · rename_i hc
      cases hr : m.root with
      | none =>
        -- 木が空：根を作り、`max_scale` を超える段まで上げる
        obtain ⟨-, hs⟩ := h.none_root hr
        dsimp only
        obtain ⟨hd, hle, hlt⟩ := raiseScale_spec hR hms 64 m.rootScale (by omega)
          (by rw [hs]; exact Nat.dvd_zero _) (by omega)
        generalize raiseScale LgRadix ms 64 m.rootScale = s at hd hle hlt
        have hdvd : 2 ^ (s + LgRadix) ∣ upper LgRadix k s := by
          rw [upper_eq LgRadix hk64]
          exact Nat.dvd_mul_left _ _
        obtain ⟨h1, h2⟩ := (upper_eq_iff LgRadix hk64 hdvd).mp rfl
        have hnil : (⟨some makeNode, upper LgRadix k s, s⟩ : RadixMap LgAlign LgRadix).blocks = [] :=
          Slot.blocks_makeNode _ _
        refine ⟨{
          none_root := fun h' => by cases h'
          scale_dvd := hd
          root_wf := fun n hn => by
            cases hn
            exact ⟨Nat.le_add_left _ _, fun _ _ => trivial⟩
          prefix_dvd := fun _ _ => hdvd
          prefix_lt := fun _ _ => lt_of_le_of_lt (upper_le LgRadix hk64 s) hk
          scale_le := hle
          sep := by rw [hnil]; exact sep_nil
          bound := by rw [hnil]; intro b hb; cases hb }, ?_, ⟨_, rfl⟩, h1, h2, hlt⟩
        rw [hnil, blocks_of_none hr]
      | some r =>
        -- 根の上に node を足して続ける
        have hD := deepen_spec hR hKB hk hms fuel (m.grow r) (h.grow hr hKB hk hms hc)
          (by rw [grow_rootScale]; omega)
        exact { hD with
          blocks_eq := hD.blocks_eq.trans (grow_blocks hr (lt_trans (h.prefix_lt r hr) h64)
            (h.prefix_dvd r hr)) }
    · -- 止まる：`k` は根の範囲にあり、根の段は `max_scale` より上
      rename_i hc
      rw [not_or, not_not, Nat.not_le] at hc
      cases hr : m.root with
      | none =>
        -- 空の木の `EmptyPrefix` は、どの key の上のビットにもならない
        obtain ⟨hp, -⟩ := h.none_root hr
        have := upper_le LgRadix hk64 m.rootScale
        rw [hc.1, hp, emptyPrefix_eq] at this
        omega
      | some r =>
        obtain ⟨h1, h2⟩ := (upper_eq_iff LgRadix hk64 (h.prefix_dvd r hr)).mp hc.1
        exact ⟨h, rfl, ⟨r, hr⟩, h1, h2, hc.2⟩

/-! ## 二つ目の loop -/

theorem insertSlot_succ (k size ms fuel scale : Nat) (s : Slot) :
    insertSlot LgRadix k size ms (fuel + 1) scale s =
      if scale ≤ ms then .leaf size
      else .child (Function.update s.childOrNew (index LgRadix k (scale - LgRadix))
        (insertSlot LgRadix k size ms fuel (scale - LgRadix)
          (s.childOrNew (index LgRadix k (scale - LgRadix))))) := rfl

/-- `n->child(i)` の node（null なら新しい node）の slot は WF。 -/
theorem Slot.childOrNew_wf {s : Slot} {scale : Nat} (hwf : s.WF LgAlign LgRadix scale) :
    ∀ j < 2 ^ LgRadix, (s.childOrNew j).WF LgAlign LgRadix (scale - LgRadix) := by
  cases s with
  | child c => exact hwf.2
  | empty => intros; trivial
  | leaf _ => intros; trivial

/-- leaf でない slot のブロックは、`childOrNew` の node のブロックと同じ。 -/
theorem Slot.blocks_childOrNew {s : Slot} (hs : ∀ z, s ≠ .leaf z) (scale base : Nat) :
    (Slot.child s.childOrNew).blocks LgAlign LgRadix scale base =
      s.blocks LgAlign LgRadix scale base := by
  cases s with
  | child c => rfl
  | empty => exact Slot.blocks_makeNode _ _
  | leaf z => exact absurd rfl (hs z)

/-- `insert` の二つ目の loop は slot の WF を保つ。leaf は `max_scale` 以下の段に置くので、大きさは
その slot の倍数。 -/
theorem insertSlot_wf (hR : 0 < LgRadix) {k size ms : Nat} (hsz : 0 < size)
    (hdvd : 2 ^ (ms + LgAlign) ∣ size) :
    ∀ fuel scale (s : Slot), LgRadix ∣ scale → s.WF LgAlign LgRadix scale →
      (insertSlot LgRadix k size ms fuel scale s).WF LgAlign LgRadix scale
  | 0, _, _, _, hwf => hwf
  | fuel + 1, scale, s, hsc, hwf => by
    rw [insertSlot_succ]
    split
    · rename_i hle
      exact ⟨hsz, Nat.dvd_trans (Nat.pow_dvd_pow 2 (Nat.add_le_add_right hle _)) hdvd⟩
    · rename_i hlt
      -- `max_scale` より上の段は正で `LgRadix` の倍数なので、`LgRadix` 以上
      have hRs : LgRadix ≤ scale := Nat.le_of_dvd (by omega) hsc
      refine ⟨hRs, fun j hj => ?_⟩
      by_cases hji : j = index LgRadix k (scale - LgRadix)
      · rw [hji, Function.update_self]
        exact insertSlot_wf hR hsz hdvd fuel _ _ (Nat.dvd_sub hsc (Nat.dvd_refl _))
          (Slot.childOrNew_wf hwf _ (by rw [index_eq]; exact Nat.mod_lt _ (Nat.two_pow_pos _)))
      · rw [Function.update_of_ne hji]
        exact Slot.childOrNew_wf hwf j hj

/-- **`insert` の二つ目の loop。** 新しいブロック `(ptr, size)` が slot のブロックと重ならなければ、
`insertSlot` の後の slot のブロックは、前のブロックと `(ptr, size)`。fuel は下る段の数より多い。 -/
theorem insertSlot_mem (hR : 0 < LgRadix) {ptr size ms : Nat} (hp : 2 ^ LgAlign ∣ ptr)
    (hsz : 0 < size) (hdvd : 2 ^ (ms + LgAlign) ∣ size) (hkms : 2 ^ ms ∣ ptr / 2 ^ LgAlign) :
    ∀ fuel scale base (s : Slot), LgRadix ∣ scale → scale / LgRadix < fuel →
      s.WF LgAlign LgRadix scale → 2 ^ scale ∣ base →
      base ≤ ptr / 2 ^ LgAlign → ptr / 2 ^ LgAlign < base + 2 ^ scale →
      (∀ b ∈ s.blocks LgAlign LgRadix scale base, b.1 + b.2 ≤ ptr ∨ ptr + size ≤ b.1) →
      ∀ b, b ∈ (insertSlot LgRadix (ptr / 2 ^ LgAlign) size ms fuel scale s).blocks
          LgAlign LgRadix scale base ↔
        b ∈ s.blocks LgAlign LgRadix scale base ∨ b = (ptr, size)
  | 0, _, _, _, _, hf, _, _, _, _, _ => absurd hf (Nat.not_lt_zero _)
  | fuel + 1, scale, base, s, hsc, hf, hwf, hbase, h1, h2, hdis => by
    have hptr : ptr / 2 ^ LgAlign * 2 ^ LgAlign = ptr := Nat.div_mul_cancel hp
    obtain ⟨p1, p2⟩ := key_range_iff.mp ⟨h1, h2⟩
    rw [insertSlot_succ]
    split
    · rename_i hle
      -- leaf を置く slot の先頭は `ptr` の key
      have hbk : base = ptr / 2 ^ LgAlign := by
        have hd : 2 ^ scale ∣ ptr / 2 ^ LgAlign - base :=
          Nat.dvd_sub (Nat.dvd_trans (Nat.pow_dvd_pow 2 hle) hkms) hbase
        have := Nat.eq_zero_of_dvd_of_lt hd (by omega)
        omega
      have hslot : 2 ^ scale * 2 ^ LgAlign ≤ size := by
        rw [← Nat.pow_add]
        exact Nat.le_of_dvd hsz (Nat.dvd_trans (Nat.pow_dvd_pow 2 (by omega)) hdvd)
      -- この slot にあったブロックは新しいブロックの中から始まるので、ない
      have hnone : ∀ b ∈ s.blocks LgAlign LgRadix scale base, False := by
        intro b hb
        obtain ⟨b1, b2, -, bpos, -⟩ := Slot.mem_blocks hwf hb
        rw [hbk, hptr] at b1
        rw [hbk, Nat.add_mul, hptr] at b2
        rcases hdis b hb with h | h <;> omega
      have hstart : base * 2 ^ LgAlign = ptr := by rw [hbk, hptr]
      intro b
      rw [Slot.blocks_leaf, List.mem_singleton, hstart]
      exact ⟨.inr, fun hb => hb.elim (fun hb => (hnone b hb).elim) id⟩
    · rename_i hlt
      have hRs : LgRadix ≤ scale := Nat.le_of_dvd (by omega) hsc
      -- 路の上に leaf はない：あれば、その slot の先頭からのブロックが `ptr` を含む
      have hleaf : ∀ z, s ≠ .leaf z := by
        rintro z rfl
        have hz : 2 ^ scale * 2 ^ LgAlign ≤ z := by
          rw [← Nat.pow_add]
          exact Nat.le_of_dvd hwf.1 hwf.2
        rw [Nat.add_mul] at p2
        rcases hdis _ (List.mem_singleton_self _) with h | h
        · dsimp only at h
          omega
        · dsimp only at h
          omega
      obtain ⟨hi, hdvd', hlo, hhi⟩ := child_slot_bounds hRs hbase h1 h2
      have hf' : (scale - LgRadix) / LgRadix < fuel := by
        rw [Nat.div_lt_iff_lt_mul hR] at hf ⊢
        rw [Nat.succ_mul] at hf
        omega
      -- 子の node の `ptr` の key の slot と、ほかの slot に分ける
      have horig := fun b => @Slot.mem_blocks_update LgAlign LgRadix s.childOrNew _ hi
        (s.childOrNew (ptr / 2 ^ LgAlign / 2 ^ (scale - LgRadix) % 2 ^ LgRadix)) scale base b
      simp only [Function.update_eq_self, Slot.blocks_childOrNew hleaf] at horig
      have ih := insertSlot_mem hR hp hsz hdvd hkms fuel _ _ _ (Nat.dvd_sub hsc (Nat.dvd_refl _)) hf'
        (Slot.childOrNew_wf hwf _ hi) hdvd' hlo hhi fun b hb => hdis b ((horig b).mpr (.inl hb))
      intro b
      rw [index_eq, Slot.mem_blocks_update hi, ih, horig]
      exact or_right_comm

/-- 根の node に入れるのは、根を段 `rootScale + LgRadix` の slot と見て入れること。 -/
theorem insertSlot_root {k size ms fuel scale : Nat} (n : Node) (hms : ms < scale + LgRadix) :
    insertSlot LgRadix k size ms (fuel + 1) (scale + LgRadix) (.child n) =
      .child (Function.update n (index LgRadix k scale)
        (insertSlot LgRadix k size ms fuel scale (n (index LgRadix k scale)))) := by
  rw [insertSlot_succ, if_neg (by omega), Nat.add_sub_cancel]
  rfl

/-! ## `insert` -/

section Insert

variable {KB : Nat} {m : RadixMap LgAlign LgRadix} {ptr size : Nat}

/-- `insert` は、`deepen` の後の木の根の node の、key の slot に `insertSlot` で入れる。 -/
theorem insert_deepened (hR : 0 < LgRadix) (hKB : KB < 64) (h : Inv KB m)
    (hok : InsertOk KB m ptr size) :
    ∃ ms m' n, 2 ^ ms ∣ ptr / 2 ^ LgAlign ∧ 2 ^ (ms + LgAlign) ∣ size ∧
      Deepened KB (toKey LgAlign ptr) ms m m' ∧ m'.root = some n ∧
      m.insert ptr size = { m' with root := some (Function.update n
        (index LgRadix (toKey LgAlign ptr) m'.rootScale)
        (insertSlot LgRadix (toKey LgAlign ptr) size ms (m'.rootScale + 1) m'.rootScale
          (n (index LgRadix (toKey LgAlign ptr) m'.rootScale)))) } := by
  obtain ⟨hkms, hdvd, hmsKB⟩ := hok.maxScale hKB rfl
  have hD := deepen_spec (k := toKey LgAlign ptr) hR hKB (by rw [toKey_eq]; exact hok.key_lt)
    hmsKB 64 m h
    (by have := h.scale_le; omega)
  obtain ⟨n, hn⟩ := hD.root_some
  refine ⟨_, _, n, hkms, hdvd, hD, hn, ?_⟩
  simp only [RadixMap.insert, hn]

/-- `insert` の後の木のブロックは、`deepen` の後の根の slot に `insertSlot` で入れたもののブロック。 -/
theorem insert_blocks_eq {ms : Nat} {m' : RadixMap LgAlign LgRadix} {n : Node}
    (hms : ms < m'.rootScale + LgRadix) :
    ({ m' with root := some (Function.update n (index LgRadix (toKey LgAlign ptr) m'.rootScale)
        (insertSlot LgRadix (toKey LgAlign ptr) size ms (m'.rootScale + 1) m'.rootScale
          (n (index LgRadix (toKey LgAlign ptr) m'.rootScale)))) } :
        RadixMap LgAlign LgRadix).blocks =
      (insertSlot LgRadix (toKey LgAlign ptr) size ms (m'.rootScale + 2) (m'.rootScale + LgRadix)
        (.child n)).blocks LgAlign LgRadix (m'.rootScale + LgRadix) m'.rootPrefix := by
  rw [insertSlot_root n hms]
  rfl

/-- 根の段 `rootScale + LgRadix` から下る段の数は、`insert` の fuel `rootScale + 2` より少ない。 -/
theorem root_fuel (hR : 0 < LgRadix) (scale : Nat) :
    (scale + LgRadix) / LgRadix < scale + 2 := by
  have : scale ≤ scale * LgRadix := Nat.le_mul_of_pos_right _ hR
  rw [Nat.div_lt_iff_lt_mul hR, Nat.add_mul]
  omega

/-- **`insert` は木のブロックに `(ptr, size)` を一つ足す。** -/
theorem insert_mem (hR : 0 < LgRadix) (hKB : KB < 64) (h : Inv KB m)
    (hok : InsertOk KB m ptr size) (b : Nat × Nat) :
    b ∈ (m.insert ptr size).blocks ↔ b ∈ m.blocks ∨ b = (ptr, size) := by
  obtain ⟨ms, m', n, hkms, hdvd, hD, hn, heq⟩ := insert_deepened hR hKB h hok
  have h1 := hD.prefix_le
  have h2 := hD.lt_prefix
  rw [toKey_eq] at h1 h2
  rw [heq, insert_blocks_eq hD.ms_lt, toKey_eq, ← hD.blocks_eq, blocks_of_some hn]
  exact insertSlot_mem hR hok.ptr_dvd hok.size_pos hdvd hkms _ _ _ _
    (Nat.dvd_add hD.inv.scale_dvd (Nat.dvd_refl _)) (root_fuel hR _) (hD.inv.root_wf n hn)
    (hD.inv.prefix_dvd n hn) h1 h2
    (fun b hb => hok.disjoint b (by rw [← hD.blocks_eq, blocks_of_some hn]; exact hb)) b

/-- **`insert` は不変条件を保つ。** -/
theorem Inv.insert (hR : 0 < LgRadix) (hKB : KB < 64) (h : Inv KB m)
    (hok : InsertOk KB m ptr size) : Inv KB (m.insert ptr size) := by
  have hmem := insert_mem hR hKB h hok
  obtain ⟨ms, m', n, -, hdvd, hD, hn, heq⟩ := insert_deepened hR hKB h hok
  have hwf := insertSlot_wf (k := toKey LgAlign ptr) hR hok.size_pos hdvd (m'.rootScale + 2) _ _
    (Nat.dvd_add hD.inv.scale_dvd (Nat.dvd_refl _)) (hD.inv.root_wf n hn)
  rw [insertSlot_root n hD.ms_lt] at hwf
  have hsorted : (m.insert ptr size).blocks.Pairwise (fun a b => a.1 < b.1) := by
    rw [heq, insert_blocks_eq hD.ms_lt, insertSlot_root n hD.ms_lt]
    exact Slot.blocks_sorted hwf
  rw [heq] at hmem hsorted ⊢
  refine {
    none_root := fun h' => by cases h'
    scale_dvd := hD.inv.scale_dvd
    root_wf := fun n' hn' => by cases hn'; exact hwf
    prefix_dvd := fun _ _ => hD.inv.prefix_dvd n hn
    prefix_lt := fun _ _ => hD.inv.prefix_lt n hn
    scale_le := hD.inv.scale_le
    sep := Sep.of_sorted hsorted fun a ha b hb hab => ?_
    bound := fun b hb => ?_ }
  · -- 古いブロックどうしは `Sep`、新しいブロックとは `disjoint`
    rcases (hmem a).mp ha with ha | rfl <;> rcases (hmem b).mp hb with hb | rfl
    · exact Sep.le_of_fst_lt h.sep h.pos ha hb hab
    · rcases hok.disjoint a ha with h' | h' <;> dsimp only at hab ⊢ <;> omega
    · have := h.pos b hb
      rcases hok.disjoint b hb with h' | h' <;> dsimp only at hab ⊢ <;> omega
    · exact absurd hab (Nat.lt_irrefl _)
  · rcases (hmem b).mp hb with hb | rfl
    · exact h.bound b hb
    · exact hok.bound

/-- **`insert` の後のブロックは、前のブロックの列の、始まりの位置に `(ptr, size)` を入れたもの。** -/
theorem insert_blocks (hR : 0 < LgRadix) (hKB : KB < 64) (h : Inv KB m)
    (hok : InsertOk KB m ptr size) :
    (m.insert ptr size).blocks = insertSorted m.blocks (ptr, size) := by
  -- 既にあるブロックは `ptr` からは始まらない（重なるので）
  have hne : ∀ a ∈ m.blocks, a.1 ≠ ptr := by
    intro a ha hap
    have := h.pos a ha
    have := hok.size_pos
    rcases hok.disjoint a ha with h' | h' <;> omega
  exact eq_of_sorted_of_mem_iff (h.insert hR hKB hok).sorted (sorted_insertSorted h.sorted _)
    fun b => (insert_mem hR hKB h hok b).trans (mem_insertSorted hne b).symm

end Insert

end Hhvm.RadixMap
