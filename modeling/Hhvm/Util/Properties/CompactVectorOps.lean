import Hhvm.Util.Properties.CompactVector

/-!
# `CompactVector` の各操作と `Wf`

引数が外の値（`Val.val`）か別の vector の要素なら、各操作は失敗せず、`Wf` を保ったまま表す列を
`std::vector` の同じ操作の通りに変える。大きさは `2^31` 未満とする（`grow` の `m_capacity * 2` が
`uint32_t` に入るように）。

証明はどれも同じ形をしている。操作を段に分け、段ごとにループの補題（`moveElems_ok` など）で
block の各場所の中身を求め、最後に `Wf.inPlace`（同じ block の中だけ変えた）、`Wf.moveTo`
（新しい block に移した）、`Wf.release`（block を解放した）のどれかで `Wf` に戻す。列の側の
`j` 番目は、`getElem?_concat_eq` などの補題で場所ごとの場合分けと同じ形にしておく。
-/

namespace Hhvm.CompactVector

open Infra.Lifetime Infra.Except

variable {α : Type}

/-! ## 列の `j` 番目 -/

section Lists

/-- 末尾に足した列の `j` 番目。 -/
theorem getElem?_concat_eq (l : List α) (x : α) (j : Nat) :
    (l ++ [x])[j]? = if j = l.length then some x else l[j]? := by
  by_cases hj : j = l.length
  · subst hj
    rw [if_pos rfl, List.getElem?_concat_length]
  · rw [if_neg hj]
    by_cases hlt : j < l.length
    · rw [List.getElem?_append_left hlt]
    · rw [List.getElem?_eq_none (by simp only [List.length_append, List.length_singleton]; omega),
        List.getElem?_eq_none (by omega)]

/-- 最後を落とした列の `j` 番目。 -/
theorem getElem?_dropLast_eq (l : List α) (j : Nat) :
    l.dropLast[j]? = if j = l.length - 1 then none else l[j]? := by
  rw [List.getElem?_dropLast]
  by_cases hj : j = l.length - 1
  · rw [if_pos hj, if_neg (by omega)]
  · rw [if_neg hj]
    by_cases hlt : j < l.length - 1
    · rw [if_pos hlt]
    · rw [if_neg hlt, List.getElem?_eq_none (by omega)]

/-- `i` 番目を除いた列の `j` 番目。 -/
theorem getElem?_eraseIdx_eq (l : List α) (i j : Nat) :
    (l.eraseIdx i)[j]? = if j < i then l[j]? else l[j + 1]? := by
  by_cases hj : j < i
  · rw [if_pos hj, List.getElem?_eraseIdx_of_lt hj]
  · rw [if_neg hj, List.getElem?_eraseIdx_of_ge (by omega)]

/-- `[i, k)` を除いた列の `j` 番目。 -/
theorem getElem?_take_append_drop (l : List α) {i k : Nat} (hi : i ≤ l.length) (j : Nat) :
    (l.take i ++ l.drop k)[j]? = if j < i then l[j]? else l[j - i + k]? := by
  have htake : (l.take i).length = i := by rw [List.length_take, Nat.min_eq_left hi]
  by_cases hj : j < i
  · rw [if_pos hj, List.getElem?_append_left (by omega), List.getElem?_take_of_lt hj]
  · rw [if_neg hj, List.getElem?_append_right (by omega), htake, List.getElem?_drop]
    congr 1
    omega

/-- `p` の前に `ys` を挟んだ列の `j` 番目。 -/
theorem getElem?_insertAt (l ys : List α) {p : Nat} (hp : p ≤ l.length) (j : Nat) :
    (l.take p ++ ys ++ l.drop p)[j]? =
      if j < p then l[j]? else if j < p + ys.length then ys[j - p]? else l[j - ys.length]? := by
  have htake : (l.take p).length = p := by rw [List.length_take, Nat.min_eq_left hp]
  by_cases hj : j < p
  · rw [if_pos hj, List.append_assoc, List.getElem?_append_left (by omega),
      List.getElem?_take_of_lt hj]
  · rw [if_neg hj, List.append_assoc, List.getElem?_append_right (by omega), htake]
    by_cases hy : j < p + ys.length
    · rw [if_pos hy, List.getElem?_append_left (by omega)]
    · rw [if_neg hy, List.getElem?_append_right (by omega), List.getElem?_drop]
      congr 1
      omega

end Lists

/-! ## 容量 -/

section Capacity

variable {s : St α} {A : Nat → List α} {v n : Nat}

/-- `m_len` と `m_capacity` の `uint32_t` の演算は、`2^32` を越えなければ `Nat` の演算。 -/
theorem toNat_add_one {a : UInt32} (h : a.toNat + 1 < 2 ^ 32) : (a + 1).toNat = a.toNat + 1 := by
  rw [UInt32.toNat_add, UInt32.toNat_one, Nat.mod_eq_of_lt h]

theorem toNat_sub_one {a : UInt32} (h : 1 ≤ a.toNat) : (a - 1).toNat = a.toNat - 1 := by
  rw [UInt32.toNat_sub_of_le _ _ (by rw [UInt32.le_iff_toNat_le, UInt32.toNat_one]; exact h),
    UInt32.toNat_one]

theorem toNat_add_ofNat {a : UInt32} {k : Nat} (h : a.toNat + k < 2 ^ 32) :
    (a + UInt32.ofNat k).toNat = a.toNat + k := by
  rw [UInt32.toNat_add, UInt32.toNat_ofNat', Nat.mod_eq_of_lt (show k < 2 ^ 32 by omega),
    Nat.mod_eq_of_lt h]

theorem toNat_sub_ofNat {a : UInt32} {k : Nat} (h : k ≤ a.toNat) :
    (a - UInt32.ofNat k).toNat = a.toNat - k := by
  have hk : k < 2 ^ 32 := Nat.lt_of_le_of_lt h a.toNat_lt
  have hle : UInt32.ofNat k ≤ a := by
    rw [UInt32.le_iff_toNat_le, UInt32.toNat_ofNat', Nat.mod_eq_of_lt hk]
    exact h
  rw [UInt32.toNat_sub_of_le _ _ hle, UInt32.toNat_ofNat', Nat.mod_eq_of_lt hk]

theorem toNat_ofNat_of_lt (h : n < 2 ^ 32) : (UInt32.ofNat n).toNat = n := by
  rw [UInt32.toNat_ofNat', Nat.mod_eq_of_lt h]

/-- `size() <= capacity()`：`m_data` がなければどちらも `0`。 -/
theorem Wf.size_le_capacity (hw : Wf s A) (v : Nat) : (A v).length ≤ s.capacity v := by
  cases hb : s.data v with
  | none => rw [hw.nil hb, List.length_nil]; exact Nat.zero_le _
  | some b => rw [capacity_of_some hb]; exact (hw.blockRepr hb).len_le

/-- 容量が `0` でなければ `m_data` がある。 -/
theorem exists_block_of_lt {k : Nat} (h : k < s.capacity v) : ∃ b, s.data v = some b := by
  cases hb : s.data v with
  | none =>
    simp only [St.capacity, hb] at h
    exact absurd h (Nat.not_lt_zero _)
  | some b => exact ⟨b, rfl⟩

/-- **`reserve_impl(n)` は `Wf` を保つ。** 列は変わらず、`v` は容量 `n` の新しい block
`s.heap.next` に移る。 -/
theorem reserve_impl_wf (hw : Wf s A) (hn : (A v).length ≤ n) (hlt : n < 2 ^ 32) :
    ∃ s', reserve_impl v n s = .ok s' ∧ Wf s' A ∧ s'.data v = some s.heap.next ∧
      s'.capacity v = n ∧ ∀ w, w ≠ v → s'.data w = s.data w := by
  have hcap := toNat_ofNat_of_lt hlt
  cases hb : s.data v with
  | none =>
    have hnil := hw.nil hb
    -- 新しい block は空で、`v` の列も空
    have hrepr : BlockRepr (s.heap.alloc n).1 ⟨0, UInt32.ofNat n⟩ s.heap.next (A v) :=
      ⟨by rw [alloc_blocks, if_pos rfl], by rw [alloc_next]; omega,
        by rw [alloc_blocks, if_pos rfl]; exact hcap.symm, by rw [hnil]; rfl,
        by rw [hnil, hcap]; exact Nat.zero_le _,
        fun j => by rw [alloc_blocks, if_pos rfl, hnil]; rfl⟩
    refine ⟨_, ?_, hw.moveTo (alloc_next n) (fun b' hbn _ => by rw [alloc_blocks, if_neg hbn])
      (fun b' h => by rw [hb] at h; cases h) hrepr, Function.update_self _ _ _, ?_,
      fun w hwv => Function.update_of_ne hwv _ _⟩
    · simp only [reserve_impl, hb, alloc_snd]
      rfl
    · simp only [St.capacity, Function.update_self]
      exact hcap
  | some b =>
    have R := hw.blockRepr hb
    obtain ⟨heap, hres, hnext, hdead, hlive, hsize, hcells, hframe⟩ := reserve_impl_some hb R hn
    have hrepr : BlockRepr heap ⟨(s.hdr b).m_len, UInt32.ofNat n⟩ s.heap.next (A v) :=
      ⟨hlive, by omega, by rw [hsize]; exact hcap.symm, R.len_eq, by rw [hcap]; exact hn, hcells⟩
    refine ⟨_, hres, hw.moveTo hnext (fun b' hbn hbv => hframe b' (fun h => hbv (h ▸ hb)) hbn)
      (fun b' h => by rw [hb, Option.some.injEq] at h; rw [← h]; exact hdead) hrepr,
      Function.update_self _ _ _, ?_, fun w hwv => Function.update_of_ne hwv _ _⟩
    simp only [St.capacity, Function.update_self]
    exact hcap

end Capacity

/-! ## 末尾 -/

section Back

variable {s : St α} {A : Nat → List α} {v b : Nat}

/-- 空きのある vector の `|A v|` 番目に `x` を構築し、`m_len` を一つ増やす。 -/
theorem construct_back (hw : Wf s A) (hb : s.data v = some b)
    (hroom : (A v).length < (s.hdr b).m_capacity.toNat) (x : α) :
    s.heap.construct b (A v).length x = .ok (s.heap.setCell b (A v).length (some x)) ∧
      Wf ⟨s.heap.setCell b (A v).length (some x),
        Function.update s.hdr b ⟨(s.hdr b).m_len + 1, (s.hdr b).m_capacity⟩, s.data⟩
        (Function.update A v (A v ++ [x])) := by
  have R := hw.blockRepr hb
  have hlen : ((s.hdr b).m_len + 1).toNat = (A v).length + 1 := by
    have := (s.hdr b).m_capacity.toNat_lt
    have := R.len_eq
    rw [toNat_add_one (by omega), R.len_eq]
  refine ⟨construct_eq x R.live (by rw [R.size_eq]; exact hroom) (R.cells_ge (Nat.le_refl _)),
    hw.inPlace hb rfl (fun b' hb' => setCell_blocks_ne _ hb') ⟨?_, R.lt_next, ?_, ?_, ?_, ?_⟩⟩
  · rw [setCell_live]
    exact R.live
  · rw [setCell_size]
    exact R.size_eq
  · rw [hlen, List.length_append, List.length_singleton]
  · rw [List.length_append, List.length_singleton]
    exact hroom
  · intro j
    rw [setCell_cells_self, getElem?_concat_eq, R.cells_eq]

/-- 空きがあれば、`push_back(val)` は `val` の値 `x` を末尾に足す。`val` は外の値でも、ほかの
vector の要素でもよい（どちらも読むまで変わらない）。 -/
theorem push_back_room (hw : Wf s A) (hroom : (A v).length < s.capacity v) {val : Val α} {x : α}
    (hx : s.heap.load val = .ok x) :
    ∃ s', push_back v val s = .ok s' ∧ Wf s' (Function.update A v (A v ++ [x])) ∧
      s'.data = s.data ∧ s'.capacity v = s.capacity v := by
  obtain ⟨b, hb⟩ := exists_block_of_lt hroom
  obtain ⟨hc, hwf⟩ := construct_back hw hb (by rw [← capacity_of_some hb]; exact hroom) x
  refine ⟨_, ?_, hwf, rfl, ?_⟩
  · rw [push_back, hw.size_eq, if_neg (Nat.ne_of_lt hroom)]
    simp only [pure_eq, ok_bind, hb, St.setLen, hx, hc]
    rfl
  · simp only [St.capacity, hb, Function.update_self]

/-- **`push_back(x)` は `Wf` を保ち、`x` を末尾に足す。** 一杯なら `grow()` で容量を倍に
（空なら `initial_capacity` に）してから。容量 `0` の block は倍にしても `0` なので除く
（`push_back_zero`）。 -/
theorem push_back_wf (hw : Wf s A) (hlen : (A v).length < 2 ^ 31)
    (hcap : ∀ b, s.data v = some b → 0 < (s.hdr b).m_capacity.toNat) (x : α) :
    ∃ s', push_back v (.val x) s = .ok s' ∧ Wf s' (Function.update A v (A v ++ [x])) ∧
      ∀ w, w ≠ v → s'.data w = s.data w := by
  rcases Nat.lt_or_ge (A v).length (s.capacity v) with hroom | hge
  · obtain ⟨s', hp, hwf, hd, -⟩ := push_back_room hw hroom (show s.heap.load (.val x) = .ok x from rfl)
    exact ⟨s', hp, hwf, fun w _ => by rw [hd]⟩
  · have hfull : (A v).length = s.capacity v := Nat.le_antisymm (hw.size_le_capacity v) hge
    -- `grow()` の新しい容量は、今の長さより大きく `uint32_t` に入る
    obtain ⟨n, hgrow, hn, hlt⟩ : ∃ n, grow v s = reserve_impl v n s ∧ (A v).length < n ∧
        n < 2 ^ 32 := by
      cases hb : s.data v with
      | none =>
        refine ⟨initial_capacity, by simp only [grow, hb], ?_, by decide⟩
        rw [hw.nil hb, List.length_nil]
        decide
      | some b =>
        have hpos := hcap b hb
        rw [capacity_of_some hb] at hfull
        exact ⟨(s.hdr b).m_capacity.toNat * 2, by simp only [grow, hb], by omega, by omega⟩
    obtain ⟨s₁, hres, hw₁, hd₁, hcap₁, hoth₁⟩ := reserve_impl_wf hw (Nat.le_of_lt hn) hlt
    obtain ⟨hc, hwf⟩ := construct_back hw₁ hd₁ (by rw [← capacity_of_some hd₁, hcap₁]; exact hn) x
    refine ⟨_, ?_, hwf, hoth₁⟩
    rw [push_back, hw.size_eq, if_pos hfull, hgrow, hres, ok_bind]
    simp only [hd₁, St.setLen, Heap.load, ok_bind, hc, pure_eq]
    rfl

/-- **`pop_back()` は `Wf` を保ち、最後の要素を除く**（空なら何もしない）。 -/
theorem pop_back_wf (hw : Wf s A) (v : Nat) :
    ∃ s', pop_back v s = .ok s' ∧ Wf s' (Function.update A v (A v).dropLast) ∧ s'.data = s.data := by
  cases hb : s.data v with
  | none =>
    have hnil := hw.nil hb
    refine ⟨s, by simp only [pop_back, hb]; rfl, ?_, rfl⟩
    rw [hnil, List.dropLast_nil, ← hnil, Function.update_eq_self]
    exact hw
  | some b =>
    have R := hw.blockRepr hb
    by_cases hpos : 0 < (s.hdr b).m_len.toNat
    · -- 最後の要素を破棄する
      have hlen : (s.hdr b).m_len.toNat = (A v).length := R.len_eq
      have hx := R.cells_lt (show (A v).length - 1 < (A v).length by omega)
      have hd := destroy_eq R.live (by rw [R.size_eq]; have := R.len_le; omega) hx
      refine ⟨⟨s.heap.setCell b ((A v).length - 1) none,
        Function.update s.hdr b ⟨(s.hdr b).m_len - 1, (s.hdr b).m_capacity⟩, s.data⟩, ?_,
        hw.inPlace hb rfl (fun b' hb' => setCell_blocks_ne _ hb') ⟨?_, R.lt_next, ?_, ?_, ?_,
        ?_⟩, rfl⟩
      · simp only [pop_back, hb, if_pos hpos]
        rw [hlen, hd, ok_bind]
        rfl
      · rw [setCell_live]
        exact R.live
      · rw [setCell_size]
        exact R.size_eq
      · rw [toNat_sub_one hpos, List.length_dropLast, hlen]
      · rw [List.length_dropLast]
        show (A v).length - 1 ≤ (s.hdr b).m_capacity.toNat
        have := R.len_le
        omega
      · intro j
        rw [setCell_cells_self, getElem?_dropLast_eq, R.cells_eq]
    · have hnil : A v = [] := List.eq_nil_of_length_eq_zero (by rw [← R.len_eq]; omega)
      refine ⟨s, by simp only [pop_back, hb, if_neg hpos]; rfl, ?_, rfl⟩
      rw [hnil, List.dropLast_nil, ← hnil, Function.update_eq_self]
      exact hw

end Back

/-! ## 削除と解放 -/

section Erase

variable {s : St α} {A : Nat → List α} {v b : Nat}

/-- 要素のある vector には `m_data` がある。 -/
theorem Wf.exists_block (hw : Wf s A) {i : Nat} (hi : i < (A v).length) : ∃ b, s.data v = some b := by
  cases hb : s.data v with
  | none =>
    rw [hw.nil hb, List.length_nil] at hi
    exact absurd hi (Nat.not_lt_zero _)
  | some b => exact ⟨b, rfl⟩

/-- **`erase(elm)` は `Wf` を保ち、`i` 番目を除く。** -/
theorem erase_wf (hw : Wf s A) {i : Nat} (hi : i < (A v).length) :
    ∃ s', erase v i s = .ok s' ∧ Wf s' (Function.update A v ((A v).eraseIdx i)) ∧ s'.data = s.data := by
  obtain ⟨b, hb⟩ := hw.exists_block hi
  have R := hw.blockRepr hb
  have hlen : (s.hdr b).m_len.toNat = (A v).length := R.len_eq
  have hle := R.len_le
  -- `[i+1, len)` を一つ前へムーブ代入する
  obtain ⟨h₁, hmv, hsh, hcell, hoth⟩ := @moveAssign_ok α b ((A v).length - (i + 1)) i (i + 1) s.heap
    (Nat.lt_succ_self i) R.live (by rw [R.size_eq]; omega)
    (fun j _ hj => by rw [R.cells_lt (by omega)]; rfl)
  -- 最後の場所はまだ生きている
  have hy : (h₁.blocks b).cells ((A v).length - 1) = some (A v)[(A v).length - 1] := by
    rw [hcell, if_neg (by omega), R.cells_lt]
  have hd := destroy_eq (by rw [(hsh.2 b).1]; exact R.live) (by rw [(hsh.2 b).2, R.size_eq]; omega) hy
  refine ⟨⟨h₁.setCell b ((A v).length - 1) none,
    Function.update s.hdr b ⟨(s.hdr b).m_len - 1, (s.hdr b).m_capacity⟩, s.data⟩, ?_,
    hw.inPlace hb (by rw [setCell_next]; exact hsh.1)
      (fun b' hb' => by rw [setCell_blocks_ne _ hb']; exact hsh.blocks_eq (hoth b' hb'))
      ⟨?_, ?_, ?_, ?_, ?_, ?_⟩, rfl⟩
  · simp only [erase, hb]
    rw [hlen, hmv, ok_bind, hd, ok_bind]
    rfl
  · rw [setCell_live, (hsh.2 b).1]
    exact R.live
  · rw [setCell_next, hsh.1]
    exact R.lt_next
  · rw [setCell_size, (hsh.2 b).2]
    exact R.size_eq
  · rw [toNat_sub_one (by omega), List.length_eraseIdx_of_lt hi, hlen]
  · show ((A v).eraseIdx i).length ≤ (s.hdr b).m_capacity.toNat
    rw [List.length_eraseIdx_of_lt hi]
    omega
  · intro j
    rw [setCell_cells_self, hcell, getElem?_eraseIdx_eq, R.cells_eq, R.cells_eq]
    -- 場所 `j` は最後、`i` より前、ずらした範囲、その外のどれか
    by_cases hj : j = (A v).length - 1
    · rw [if_pos hj, if_neg (show ¬j < i by omega), List.getElem?_eq_none (by omega)]
    · rw [if_neg hj]
      by_cases hlo : j < i
      · rw [if_neg (show ¬(i ≤ j ∧ j < i + ((A v).length - (i + 1))) by omega), if_pos hlo]
      · rw [if_neg hlo]
        by_cases hmid : j < (A v).length - 1
        · rw [if_pos (show i ≤ j ∧ j < i + ((A v).length - (i + 1)) by omega),
            show j - i + (i + 1) = j + 1 by omega]
        · rw [if_neg (show ¬(i ≤ j ∧ j < i + ((A v).length - (i + 1))) by omega),
            List.getElem?_eq_none (by omega), List.getElem?_eq_none (by omega)]

/-- **`erase(elm1, elm2)` は `Wf` を保ち、`[i₁, i₂)` を除く。** -/
theorem erase_range_wf (hw : Wf s A) {i₁ i₂ : Nat} (h₁₂ : i₁ ≤ i₂) (h₂ : i₂ ≤ (A v).length) :
    ∃ s', erase_range v i₁ i₂ s = .ok s' ∧
      Wf s' (Function.update A v ((A v).take i₁ ++ (A v).drop i₂)) ∧ s'.data = s.data := by
  by_cases heq : i₁ = i₂
  · -- 何も除かない
    refine ⟨s, by rw [erase_range, if_pos heq]; rfl, ?_, rfl⟩
    rw [heq, List.take_append_drop, Function.update_eq_self]
    exact hw
  · obtain ⟨b, hb⟩ := hw.exists_block (show i₁ < (A v).length by omega)
    have R := hw.blockRepr hb
    have hlen : (s.hdr b).m_len.toNat = (A v).length := R.len_eq
    have hle := R.len_le
    -- `[i₂, len)` を `i₁` へムーブ代入する
    obtain ⟨h₁, hmv, hsh₁, hcell₁, hoth₁⟩ := @moveAssign_ok α b ((A v).length - i₂) i₁ i₂ s.heap
      (by omega) R.live (by rw [R.size_eq]; omega)
      (fun j _ hj => by rw [R.cells_lt (by omega)]; rfl)
    -- 残った `[i₁ + (len - i₂), len)` を破棄する
    obtain ⟨h₂, hde, hsh₂, hcell₂, hoth₂⟩ := @destroyElems_ok α b (i₂ - i₁) (i₁ + ((A v).length - i₂)) h₁
      (by rw [(hsh₁.2 b).1]; exact R.live) (by rw [(hsh₁.2 b).2, R.size_eq]; omega)
      (fun j hj hj' => by rw [hcell₁, if_neg (by omega), R.cells_lt (by omega)]; rfl)
    refine ⟨⟨h₂, Function.update s.hdr b ⟨(s.hdr b).m_len - UInt32.ofNat (i₂ - i₁), (s.hdr b).m_capacity⟩,
      s.data⟩, ?_,
      hw.inPlace hb (hsh₂.1.trans hsh₁.1)
        (fun b' hb' => by rw [hsh₂.blocks_eq (hoth₂ b' hb'), hsh₁.blocks_eq (hoth₁ b' hb')])
        ⟨?_, ?_, ?_, ?_, ?_, ?_⟩, rfl⟩
    · simp only [erase_range, if_neg heq, hb]
      rw [hlen, hmv, ok_bind]
      simp only [St.withHeap, St.setLen, hde, ok_bind]
      rfl
    · rw [(hsh₂.2 b).1, (hsh₁.2 b).1]
      exact R.live
    · rw [hsh₂.1, hsh₁.1]
      exact R.lt_next
    · rw [(hsh₂.2 b).2, (hsh₁.2 b).2]
      exact R.size_eq
    · rw [toNat_sub_ofNat (by omega), List.length_append, List.length_take, List.length_drop, hlen]
      omega
    · show ((A v).take i₁ ++ (A v).drop i₂).length ≤ (s.hdr b).m_capacity.toNat
      rw [List.length_append, List.length_take, List.length_drop]
      omega
    · intro j
      rw [hcell₂, hcell₁, getElem?_take_append_drop _ (by omega), R.cells_eq, R.cells_eq]
      -- 場所 `j` は `i₁` より前、詰めた範囲、破棄した範囲、その外のどれか
      by_cases hlo : j < i₁
      · rw [if_neg (show ¬(i₁ + ((A v).length - i₂) ≤ j ∧ j < i₁ + ((A v).length - i₂) + (i₂ - i₁)) by omega),
          if_neg (show ¬(i₁ ≤ j ∧ j < i₁ + ((A v).length - i₂)) by omega), if_pos hlo]
      · rw [if_neg hlo]
        by_cases hmid : j < i₁ + ((A v).length - i₂)
        · rw [if_neg (show ¬(i₁ + ((A v).length - i₂) ≤ j ∧ j < i₁ + ((A v).length - i₂) + (i₂ - i₁)) by omega),
            if_pos (show i₁ ≤ j ∧ j < i₁ + ((A v).length - i₂) by omega)]
        · by_cases hdead : j < (A v).length
          · rw [if_pos (show i₁ + ((A v).length - i₂) ≤ j ∧ j < i₁ + ((A v).length - i₂) + (i₂ - i₁) by omega),
              List.getElem?_eq_none (by omega)]
          · rw [if_neg (show ¬(i₁ + ((A v).length - i₂) ≤ j ∧ j < i₁ + ((A v).length - i₂) + (i₂ - i₁)) by omega),
              if_neg (show ¬(i₁ ≤ j ∧ j < i₁ + ((A v).length - i₂)) by omega),
              List.getElem?_eq_none (by omega), List.getElem?_eq_none (by omega)]

/-- **`clear()` は `Wf` を保ち、要素を破棄して block を解放する。** -/
theorem clear_wf (hw : Wf s A) (v : Nat) :
    ∃ s', clear v s = .ok s' ∧ Wf s' (Function.update A v []) ∧
      s'.data = Function.update s.data v none := by
  cases hb : s.data v with
  | none =>
    have hnil := hw.nil hb
    refine ⟨s, by simp only [clear, hb]; rfl, ?_, ?_⟩
    · rw [← hnil, Function.update_eq_self]
      exact hw
    · rw [← hb, Function.update_eq_self]
  | some b =>
    have R := hw.blockRepr hb
    have hlen : (s.hdr b).m_len.toNat = (A v).length := R.len_eq
    obtain ⟨h₁, hde, hsh, hcell, hoth⟩ := @destroyElems_ok α b (A v).length 0 s.heap R.live
      (by rw [R.size_eq, Nat.zero_add]; exact R.len_le) (fun j _ hj => by rw [R.cells_lt (by omega)]; rfl)
    -- 破棄した後の block は空
    have hempty : ∀ j < (s.hdr b).m_capacity.toNat, (h₁.blocks b).cells j = none := by
      intro j _
      rw [hcell]
      split
      · rfl
      · exact R.cells_ge (by omega)
    have hd := dealloc_eq (by rw [(hsh.2 b).1]; exact R.live) (by rw [(hsh.2 b).2]; exact R.size_eq) hempty
    refine ⟨_, ?_, @Wf.release α s A v b hw hb ⟨Function.update h₁.blocks b
      ⟨false, (h₁.blocks b).size, (h₁.blocks b).cells⟩, h₁.next⟩ hsh.1
      (fun b' hb' => by simp only [Function.update_of_ne hb']; exact hsh.blocks_eq (hoth b' hb'))
      (by simp only [Function.update_self]), rfl⟩
    simp only [clear, hb]
    rw [hlen, hde, ok_bind, hd, ok_bind]
    rfl

/-- **`reserve(n)` は `Wf` を保つ**（`n < 2^32` なら）。 -/
theorem reserve_wf (hw : Wf s A) {n : Nat} (hlt : n < 2 ^ 32) :
    ∃ s', reserve v n s = .ok s' ∧ Wf s' A ∧ ∀ w, w ≠ v → s'.data w = s.data w := by
  by_cases hgt : n > s.capacity v
  · obtain ⟨s', hres, hw', -, -, hoth⟩ := reserve_impl_wf hw
      (Nat.le_of_lt (Nat.lt_of_le_of_lt (hw.size_le_capacity v) hgt)) hlt
    exact ⟨s', by rw [reserve, if_pos hgt, hres], hw', hoth⟩
  · exact ⟨s, by rw [reserve, if_neg hgt]; rfl, hw, fun _ _ => rfl⟩

/-- **`shrink_to_fit()` は `Wf` を保つ。** 空なら block を解放し、そうでなければ長さちょうどの
block に移る。 -/
theorem shrink_to_fit_wf (hw : Wf s A) (v : Nat) :
    ∃ s', shrink_to_fit v s = .ok s' ∧ Wf s' A ∧ ∀ w, w ≠ v → s'.data w = s.data w := by
  cases hb : s.data v with
  | none => exact ⟨s, by simp only [shrink_to_fit, hb]; rfl, hw, fun _ _ => rfl⟩
  | some b =>
    have R := hw.blockRepr hb
    by_cases hfit : (s.hdr b).m_capacity = (s.hdr b).m_len
    · exact ⟨s, by simp only [shrink_to_fit, hb, if_pos hfit]; rfl, hw, fun _ _ => rfl⟩
    · by_cases hzero : (s.hdr b).m_len = 0
      · -- 空なら `clear()`
        have hnil : A v = [] := by
          apply List.eq_nil_of_length_eq_zero
          rw [← R.len_eq, hzero]
          rfl
        obtain ⟨s', hc, hw', hd'⟩ := clear_wf hw v
        refine ⟨s', by simp only [shrink_to_fit, hb, if_neg hfit, if_pos hzero]; exact hc, ?_,
          fun w hwv => by rw [hd', Function.update_of_ne hwv]⟩
        rw [← hnil, Function.update_eq_self] at hw'
        exact hw'
      · obtain ⟨s', hres, hw', -, -, hoth⟩ := reserve_impl_wf (v := v) hw (Nat.le_refl _)
          (by have := (s.hdr b).m_capacity.toNat_lt; have := R.len_le; omega)
        refine ⟨s', ?_, hw', hoth⟩
        simp only [shrink_to_fit, hb, if_neg hfit, if_neg hzero]
        rw [R.len_eq]
        exact hres

end Erase

/-! ## 挿入 -/

section Insert

variable {s : St α} {A : Nat → List α} {v b : Nat}

/-- 空きのある block で `[p, len)` を `num` だけ上へずらすと、`[p, p+num)` が空く。 -/
theorem shift_ok (hw : Wf s A) (hb : s.data v = some b) {p num : Nat} (hp : p ≤ (A v).length)
    (hnum : 0 < num) (hroom : (A v).length + num ≤ (s.hdr b).m_capacity.toNat) :
    ∃ h₂, shiftUp b num p ((A v).length - p) s.heap = .ok h₂ ∧ s.heap.SameShape h₂ ∧
      (∀ b', b' ≠ b → (h₂.blocks b').cells = (s.heap.blocks b').cells) ∧
      ∀ j, (h₂.blocks b).cells j =
        if j < p then (A v)[j]? else if j < p + num then none else (A v)[j - num]? := by
  have R := hw.blockRepr hb
  obtain ⟨h₂, hsu, hsh, hcell, hoth⟩ := @shiftUp_ok α b num p hnum ((A v).length - p) s.heap R.live
    (by rw [R.size_eq]; omega) (fun j _ hj => by rw [R.cells_lt (by omega)]; rfl)
    (fun j hj _ => R.cells_ge (by omega))
  refine ⟨h₂, hsu, hsh, hoth, fun j => ?_⟩
  rw [hcell, R.cells_eq, R.cells_eq]
  -- 場所 `j` は `p` より前、空けた範囲、ずらした先、その外のどれか
  by_cases hlo : j < p
  · rw [if_neg (show ¬(p + num ≤ j ∧ j < p + ((A v).length - p) + num) by omega),
      if_neg (show ¬(p ≤ j ∧ j < p + ((A v).length - p)) by omega), if_pos hlo]
  · rw [if_neg hlo]
    by_cases hgap : j < p + num
    · rw [if_neg (show ¬(p + num ≤ j ∧ j < p + ((A v).length - p) + num) by omega), if_pos hgap]
      by_cases hin : j < (A v).length
      · rw [if_pos (show p ≤ j ∧ j < p + ((A v).length - p) by omega)]
      · rw [if_neg (show ¬(p ≤ j ∧ j < p + ((A v).length - p)) by omega),
          List.getElem?_eq_none (by omega)]
    · rw [if_neg hgap]
      by_cases hup : j < (A v).length + num
      · rw [if_pos (show p + num ≤ j ∧ j < p + ((A v).length - p) + num by omega)]
      · rw [if_neg (show ¬(p + num ≤ j ∧ j < p + ((A v).length - p) + num) by omega),
          if_neg (show ¬(p ≤ j ∧ j < p + ((A v).length - p)) by omega),
          List.getElem?_eq_none (by omega), List.getElem?_eq_none (by omega)]

/-- `insert_elems(before, num)`：足りなければ容量を広げ（`v` は大きい block に移る）、`[p, len)` を
`num` だけ上へずらす。空いた `[p, p+num)` には何もない。 -/
theorem insert_elems_ok (hw : Wf s A) {p num : Nat} (hp : p ≤ (A v).length) (hnum : 0 < num)
    (hlen : (A v).length + num < 2 ^ 31) :
    ∃ s₁ b h₂, Wf s₁ A ∧ s₁.data v = some b ∧ (∀ w, w ≠ v → s₁.data w = s.data w) ∧
      (A v).length + num ≤ (s₁.hdr b).m_capacity.toNat ∧
      insert_elems v p num s =
        .ok ((s₁.setLen b ((s₁.hdr b).m_len + UInt32.ofNat num)).withHeap h₂, p) ∧
      s₁.heap.SameShape h₂ ∧ (∀ b', b' ≠ b → (h₂.blocks b').cells = (s₁.heap.blocks b').cells) ∧
      ∀ j, (h₂.blocks b).cells j =
        if j < p then (A v)[j]? else if j < p + num then none else (A v)[j - num]? := by
  by_cases hgrow : (A v).length + num > s.capacity v
  · -- 容量を倍か、`max (sz + num) initial_capacity` に広げる
    have hcap := hw.size_le_capacity v
    have hnew : (A v).length + num ≤ (if (A v).length + num > s.capacity v * 2 then
          max ((A v).length + num) initial_capacity else s.capacity v * 2) ∧
        (if (A v).length + num > s.capacity v * 2 then
          max ((A v).length + num) initial_capacity else s.capacity v * 2) < 2 ^ 32 := by
      unfold initial_capacity
      split <;> omega
    obtain ⟨s₁, hres, hw₁, hd₁, hc₁, hoth₁⟩ := reserve_impl_wf (v := v) hw (by omega) hnew.2
    have hroom : (A v).length + num ≤ (s₁.hdr s.heap.next).m_capacity.toNat := by
      rw [← capacity_of_some hd₁, hc₁]
      exact hnew.1
    obtain ⟨h₂, hsu, hsh, hoth, hcell⟩ := shift_ok hw₁ hd₁ hp hnum hroom
    refine ⟨s₁, _, h₂, hw₁, hd₁, hoth₁, hroom, ?_, hsh, hoth, hcell⟩
    -- 空なら `before` は `elems()` そのもの
    have hpos : (if (A v).length ≠ 0 then p else 0) = p := by
      split
      · rfl
      · omega
    have hres' : reserve v (if (A v).length + num > s.capacity v * 2 then
        max ((A v).length + num) initial_capacity else s.capacity v * 2) s = .ok s₁ := by
      rw [reserve, if_pos (by omega)]
      exact hres
    rw [insert_elems, if_neg (Nat.pos_iff_ne_zero.mp hnum), hw.size_eq, if_pos hgrow]
    simp only [hres', hpos, ok_bind, pure_eq, hd₁, hw₁.size_eq, St.setLen, hsu]
  · have hroom : (A v).length + num ≤ s.capacity v := by omega
    obtain ⟨b, hb⟩ := exists_block_of_lt (show 0 < s.capacity v by omega)
    rw [capacity_of_some hb] at hroom
    obtain ⟨h₂, hsu, hsh, hoth, hcell⟩ := shift_ok hw hb hp hnum hroom
    refine ⟨s, b, h₂, hw, hb, fun _ _ => rfl, hroom, ?_, hsh, hoth, hcell⟩
    rw [insert_elems, if_neg (Nat.pos_iff_ne_zero.mp hnum), hw.size_eq, if_neg hgrow, pure_eq, ok_bind]
    simp only [hb, hw.size_eq, St.setLen, hsu, ok_bind, pure_eq]

/-- **`insert(p, num, x)` は `Wf` を保ち、`p` の前に `x` を `num` 個挟む。** `insert(p, x)` は
`num = 1`。 -/
theorem insert_impl_wf (hw : Wf s A) {p num : Nat} (hp : p ≤ (A v).length)
    (hlen : (A v).length + num < 2 ^ 31) (x : α) :
    ∃ s', insert_impl v p num (.val x) s = .ok (s', p) ∧
      Wf s' (Function.update A v ((A v).take p ++ List.replicate num x ++ (A v).drop p)) ∧
      ∀ w, w ≠ v → s'.data w = s.data w := by
  rcases Nat.eq_zero_or_pos num with rfl | hnum
  · -- 何も挿入しない
    refine ⟨s, ?_, ?_, fun _ _ => rfl⟩
    · cases hb : s.data v with
      | none => simp only [insert_impl, insert_elems, ↓reduceIte, pure_eq, ok_bind, hb]
      | some b =>
        simp only [insert_impl, insert_elems, ↓reduceIte, pure_eq, ok_bind, hb, constructDown]
        rfl
    · rw [List.replicate_zero, List.append_nil, List.take_append_drop, Function.update_eq_self]
      exact hw
  · obtain ⟨s₁, b, h₂, hw₁, hb, hoth₁, hroom, hins, hsh, hoth, hcell⟩ := insert_elems_ok hw hp hnum hlen
    have R := hw₁.blockRepr hb
    obtain ⟨h₃, hcd, hsh₃, hcell₃, hoth₃⟩ := @constructDown_ok α b p x num h₂
      (by rw [(hsh.2 b).1]; exact R.live) (by rw [(hsh.2 b).2, R.size_eq]; omega)
      (fun j hj hj' => by rw [hcell, if_neg (by omega), if_pos hj'])
    refine ⟨⟨h₃, Function.update s₁.hdr b ⟨(s₁.hdr b).m_len + UInt32.ofNat num, (s₁.hdr b).m_capacity⟩,
      s₁.data⟩, ?_,
      hw₁.inPlace hb (hsh₃.1.trans hsh.1)
        (fun b' hb' => by rw [hsh₃.blocks_eq (hoth₃ b' hb'), hsh.blocks_eq (hoth b' hb')])
        ⟨?_, ?_, ?_, ?_, ?_, ?_⟩, hoth₁⟩
    · rw [insert_impl, hins, ok_bind]
      simp only [St.withHeap, St.setLen, hb, hcd, ok_bind, pure_eq]
    · rw [(hsh₃.2 b).1, (hsh.2 b).1]
      exact R.live
    · rw [hsh₃.1, hsh.1]
      exact R.lt_next
    · rw [(hsh₃.2 b).2, (hsh.2 b).2]
      exact R.size_eq
    · rw [toNat_add_ofNat (by rw [R.len_eq]; omega), R.len_eq, List.length_append, List.length_append,
        List.length_take, List.length_replicate, List.length_drop]
      omega
    · show ((A v).take p ++ List.replicate num x ++ (A v).drop p).length ≤ (s₁.hdr b).m_capacity.toNat
      rw [List.length_append, List.length_append, List.length_take, List.length_replicate,
        List.length_drop]
      omega
    · intro j
      rw [hcell₃, hcell, getElem?_insertAt _ _ hp, List.length_replicate]
      by_cases hlo : j < p
      · rw [if_neg (show ¬(p ≤ j ∧ j < p + num) by omega), if_pos hlo, if_pos hlo]
      · by_cases hgap : j < p + num
        · rw [if_pos (show p ≤ j ∧ j < p + num by omega), if_neg hlo, if_pos hgap,
            List.getElem?_replicate, if_pos (by omega)]
        · rw [if_neg (show ¬(p ≤ j ∧ j < p + num) by omega), if_neg hlo, if_neg hgap, if_neg hlo,
            if_neg hgap]

/-- **`insert(p, i1, i2)` は `Wf` を保ち、`p` の前に別の容れ物の値 `xs` を挟む。** -/
theorem insert_range_wf (hw : Wf s A) {p : Nat} (hp : p ≤ (A v).length) (xs : List α)
    (hlen : (A v).length + xs.length < 2 ^ 31) :
    ∃ s', insert_range v p xs s = .ok (s', p) ∧
      Wf s' (Function.update A v ((A v).take p ++ xs ++ (A v).drop p)) ∧
      ∀ w, w ≠ v → s'.data w = s.data w := by
  cases xs with
  | nil =>
    refine ⟨s, ?_, ?_, fun _ _ => rfl⟩
    · cases hb : s.data v with
      | none => simp only [insert_range, List.length_nil, insert_elems, ↓reduceIte, pure_eq, ok_bind, hb]
      | some b =>
        simp only [insert_range, List.length_nil, insert_elems, ↓reduceIte, pure_eq, ok_bind, hb,
          constructList]
        rfl
    · rw [List.append_nil, List.take_append_drop, Function.update_eq_self]
      exact hw
  | cons y ys =>
    obtain ⟨s₁, b, h₂, hw₁, hb, hoth₁, hroom, hins, hsh, hoth, hcell⟩ :=
      insert_elems_ok hw hp (List.length_pos_of_ne_nil (List.cons_ne_nil y ys)) hlen
    have R := hw₁.blockRepr hb
    obtain ⟨h₃, hcl, hsh₃, hcell₃, hoth₃⟩ := @constructList_ok α b (y :: ys) p h₂
      (by rw [(hsh.2 b).1]; exact R.live) (by rw [(hsh.2 b).2, R.size_eq]; omega)
      (fun j hj hj' => by rw [hcell, if_neg (by omega), if_pos hj'])
    refine ⟨⟨h₃, Function.update s₁.hdr b
      ⟨(s₁.hdr b).m_len + UInt32.ofNat (y :: ys).length, (s₁.hdr b).m_capacity⟩, s₁.data⟩, ?_,
      hw₁.inPlace hb (hsh₃.1.trans hsh.1)
        (fun b' hb' => by rw [hsh₃.blocks_eq (hoth₃ b' hb'), hsh.blocks_eq (hoth b' hb')])
        ⟨?_, ?_, ?_, ?_, ?_, ?_⟩, hoth₁⟩
    · rw [insert_range, hins, ok_bind]
      simp only [St.withHeap, St.setLen, hb, hcl, ok_bind, pure_eq]
    · rw [(hsh₃.2 b).1, (hsh.2 b).1]
      exact R.live
    · rw [hsh₃.1, hsh.1]
      exact R.lt_next
    · rw [(hsh₃.2 b).2, (hsh.2 b).2]
      exact R.size_eq
    · rw [toNat_add_ofNat (by rw [R.len_eq]; omega), R.len_eq, List.length_append, List.length_append,
        List.length_take, List.length_drop]
      omega
    · show ((A v).take p ++ (y :: ys) ++ (A v).drop p).length ≤ (s₁.hdr b).m_capacity.toNat
      rw [List.length_append, List.length_append, List.length_take, List.length_drop]
      omega
    · intro j
      rw [hcell₃, hcell, getElem?_insertAt _ _ hp]
      by_cases hlo : j < p
      · rw [if_neg (show ¬(p ≤ j ∧ j < p + (y :: ys).length) by omega), if_pos hlo, if_pos hlo]
      · by_cases hgap : j < p + (y :: ys).length
        · rw [if_pos (show p ≤ j ∧ j < p + (y :: ys).length by omega), if_neg hlo, if_pos hgap]
        · rw [if_neg (show ¬(p ≤ j ∧ j < p + (y :: ys).length) by omega), if_neg hlo, if_neg hgap,
            if_neg hlo, if_neg hgap]

end Insert

/-! ## 大きさを変える -/

section Resize

variable {s : St α} {A : Nat → List α} {v : Nat}

/-- `while (m_len < n) push_back(x)`：容量 `n` の vector を `x` で長さ `n` まで埋める。 -/
theorem pushWhile_ok {n : Nat} (x : α) : ∀ (fuel : Nat) (s : St α) (A : Nat → List α), Wf s A →
    s.capacity v = n → (A v).length ≤ n → n - (A v).length ≤ fuel →
    ∃ s', pushWhile v n (.val x) fuel s = .ok s' ∧
      Wf s' (Function.update A v (A v ++ List.replicate (n - (A v).length) x)) ∧ s'.data = s.data
  | 0, s, A, hw, _, _, hfuel => by
    refine ⟨s, rfl, ?_, rfl⟩
    rw [show n - (A v).length = 0 by omega, List.replicate_zero, List.append_nil,
      Function.update_eq_self]
    exact hw
  | fuel + 1, s, A, hw, hcap, hle, hfuel => by
    by_cases hlt : (A v).length < n
    · -- 一つ足して残りを埋める
      obtain ⟨s₁, hp, hw₁, hd₁, hc₁⟩ := push_back_room (v := v) hw (by omega)
        (show s.heap.load (.val x) = .ok x from rfl)
      obtain ⟨s', hpw, hw', hd'⟩ := pushWhile_ok x fuel s₁ _ hw₁ (by rw [hc₁, hcap])
        (by rw [Function.update_self, List.length_append, List.length_singleton]; omega)
        (by rw [Function.update_self, List.length_append, List.length_singleton]; omega)
      refine ⟨s', ?_, ?_, hd'.trans hd₁⟩
      · rw [pushWhile, if_pos (by rw [hw.size_eq]; exact hlt), hp, ok_bind]
        exact hpw
      · rw [Function.update_self, Function.update_idem, List.append_assoc, List.singleton_append,
          List.length_append, List.length_singleton, ← List.replicate_succ,
          show n - ((A v).length + 1) + 1 = n - (A v).length by omega] at hw'
        exact hw'
    · refine ⟨s, by rw [pushWhile, if_neg (by rw [hw.size_eq]; exact hlt)]; rfl, ?_, rfl⟩
      rw [show n - (A v).length = 0 by omega, List.replicate_zero, List.append_nil,
        Function.update_eq_self]
      exact hw

/-- **`resize(n, x)` は `Wf` を保ち、`std::vector::resize` の通りに列を切るか `x` で延ばす。**
`resize(n)` は `x = T{}`。 -/
theorem resize_wf (hw : Wf s A) {n : Nat} (hn : n < 2 ^ 31) (x : α) :
    ∃ s', resize v n (.val x) s = .ok s' ∧
      Wf s' (Function.update A v (if n ≤ (A v).length then (A v).take n
        else A v ++ List.replicate (n - (A v).length) x)) ∧
      ∀ w, w ≠ v → s'.data w = s.data w := by
  rcases Nat.lt_trichotomy n (A v).length with hlt | heq | hgt
  · -- `m_len = n` として後ろを破棄する
    obtain ⟨b, hb⟩ := hw.exists_block hlt
    have R := hw.blockRepr hb
    have hle := R.len_le
    obtain ⟨h₁, hde, hsh, hcell, hoth⟩ := @destroyElems_ok α b ((A v).length - n) n s.heap R.live
      (by rw [R.size_eq]; omega) (fun j hj hj' => by rw [R.cells_lt (by omega)]; rfl)
    refine ⟨⟨h₁, Function.update s.hdr b ⟨UInt32.ofNat n, (s.hdr b).m_capacity⟩, s.data⟩, ?_, ?_,
      fun _ _ => rfl⟩
    · rw [resize, resize_helper, hw.size_eq, if_neg (Nat.ne_of_lt hlt), if_neg (by omega)]
      simp only [hb, St.setLen, St.withHeap, hde, ok_bind, pure_eq, ↓reduceIte]
    · rw [if_pos (Nat.le_of_lt hlt)]
      refine hw.inPlace hb hsh.1 (fun b' hb' => hsh.blocks_eq (hoth b' hb'))
        ⟨?_, ?_, ?_, ?_, ?_, fun j => ?_⟩
      · rw [(hsh.2 b).1]
        exact R.live
      · rw [hsh.1]
        exact R.lt_next
      · rw [(hsh.2 b).2]
        exact R.size_eq
      · rw [toNat_ofNat_of_lt (by omega), List.length_take, Nat.min_eq_left (Nat.le_of_lt hlt)]
      · show ((A v).take n).length ≤ (s.hdr b).m_capacity.toNat
        rw [List.length_take]
        omega
      · rw [hcell, List.getElem?_take, R.cells_eq]
        by_cases hj : j < n
        · rw [if_neg (show ¬(n ≤ j ∧ j < n + ((A v).length - n)) by omega), if_pos hj]
        · rw [if_neg hj]
          by_cases hin : j < (A v).length
          · rw [if_pos (show n ≤ j ∧ j < n + ((A v).length - n) by omega)]
          · rw [if_neg (show ¬(n ≤ j ∧ j < n + ((A v).length - n)) by omega),
              List.getElem?_eq_none (by omega)]
  · -- 同じ長さなら何もしない
    refine ⟨s, ?_, ?_, fun _ _ => rfl⟩
    · rw [resize, resize_helper, hw.size_eq, if_pos heq]
      rfl
    · rw [if_pos (Nat.le_of_eq heq), heq, List.take_length, Function.update_eq_self]
      exact hw
  · -- `reserve_impl(n)` の後、`x` で埋める
    obtain ⟨s₁, hres, hw₁, -, hc₁, hoth₁⟩ := reserve_impl_wf hw (Nat.le_of_lt hgt) (by omega)
    obtain ⟨s', hpw, hw', hd'⟩ := pushWhile_ok x n s₁ A hw₁ hc₁ (Nat.le_of_lt hgt) (Nat.sub_le _ _)
    refine ⟨s', ?_, ?_, fun w hwv => by rw [hd', hoth₁ w hwv]⟩
    · rw [resize, resize_helper, hw.size_eq, if_neg (Nat.ne_of_gt hgt), if_pos hgt, hres]
      simp only [ok_bind, pure_eq, Bool.false_eq_true, ↓reduceIte]
      exact hpw
    · rw [if_neg (by omega)]
      exact hw'

end Resize

/-! ## 構築、代入、入れ替え -/

section Assign

variable {s : St α} {A : Nat → List α} {v : Nat}

/-- `m_data` が null の vector の `m_data` を null にしても同じ状態。 -/
theorem setData_of_none (hv : s.data v = none) : s.setData v none = s := by
  rw [St.setData, ← hv, Function.update_eq_self]

/-- `push_back(other[i])` を `n` 回：別の vector `o` の `[i, i+n)` を末尾に足す。 -/
theorem pushElems_ok {o ob : Nat} (hvo : v ≠ o) : ∀ (n i : Nat) (s : St α) (A : Nat → List α),
    Wf s A → s.data o = some ob → i + n = (A o).length → (A v).length + n ≤ s.capacity v →
    ∃ s', pushElems v ob i n s = .ok s' ∧ Wf s' (Function.update A v (A v ++ (A o).drop i)) ∧
      s'.data = s.data
  | 0, i, s, A, hw, _, hi, _ => by
    refine ⟨s, rfl, ?_, rfl⟩
    rw [List.drop_eq_nil_of_le (by omega), List.append_nil, Function.update_eq_self]
    exact hw
  | n + 1, i, s, A, hw, hob, hi, hroom => by
    -- `other[i]` は `o` の block から読む。`v` の block に構築しても変わらない
    have hx := hw.load_ref hob (show i < (A o).length by omega)
    obtain ⟨s₁, hp, hw₁, hd₁, hc₁⟩ := push_back_room (v := v) hw (by omega) hx
    obtain ⟨s', hpe, hw', hd'⟩ := pushElems_ok hvo n (i + 1) s₁ _ hw₁ (by rw [hd₁]; exact hob)
      (by rw [Function.update_of_ne (Ne.symm hvo)]; omega)
      (by rw [Function.update_self, hc₁, List.length_append, List.length_singleton]; omega)
    refine ⟨s', ?_, ?_, hd'.trans hd₁⟩
    · rw [pushElems, hp, ok_bind]
      exact hpe
    · rw [Function.update_self, Function.update_of_ne (Ne.symm hvo), Function.update_idem,
        List.append_assoc, List.singleton_append, ← List.drop_eq_getElem_cons] at hw'
      exact hw'

/-- `assign(other)`：空の `v` に `o` の要素を写す。 -/
theorem assign_wf (hw : Wf s A) {o : Nat} (hv : s.data v = none) (hvo : v ≠ o)
    (hlen : (A o).length < 2 ^ 32) :
    ∃ s', assign v o s = .ok s' ∧ Wf s' (Function.update A v (A o)) ∧
      ∀ w, w ≠ v → s'.data w = s.data w := by
  have hnil := hw.nil hv
  cases hob : s.data o with
  | none =>
    refine ⟨s, by simp only [assign, hob]; rfl, ?_, fun _ _ => rfl⟩
    rw [hw.nil hob, ← hnil, Function.update_eq_self]
    exact hw
  | some ob =>
    have R := hw.blockRepr hob
    by_cases hz : (s.hdr ob).m_len.toNat = 0
    · have hnil' : A o = [] := List.eq_nil_of_length_eq_zero (by rw [← R.len_eq, hz])
      refine ⟨s, by simp only [assign, hob, if_pos hz]; rfl, ?_, fun _ _ => rfl⟩
      rw [hnil', ← hnil, Function.update_eq_self]
      exact hw
    · -- `reserve_impl(other.m_len)` の後、一つずつ `push_back(other[i])`
      obtain ⟨s₁, hres, hw₁, -, hc₁, hoth₁⟩ := reserve_impl_wf (n := (A o).length) hw
        (by rw [hnil, List.length_nil]; exact Nat.zero_le _) hlen
      have hob₁ : s₁.data o = some ob := by rw [hoth₁ o (Ne.symm hvo)]; exact hob
      obtain ⟨s', hpe, hw', hd'⟩ := pushElems_ok hvo (A o).length 0 s₁ A hw₁ hob₁ (Nat.zero_add _)
        (by rw [hc₁, hnil, List.length_nil, Nat.zero_add])
      refine ⟨s', ?_, ?_, fun w hwv => by rw [hd', hoth₁ w hwv]⟩
      · simp only [assign, hob, if_neg hz]
        rw [R.len_eq, hres, ok_bind, (hw₁.blockRepr hob₁).len_eq]
        exact hpe
      · rw [hnil, List.nil_append, List.drop_zero] at hw'
        exact hw'

/-- **コピー構築は `Wf` を保ち、`o` の列を写す。** -/
theorem copy_construct_wf (hw : Wf s A) {o : Nat} (hv : s.data v = none) (hvo : v ≠ o)
    (hlen : (A o).length < 2 ^ 32) :
    ∃ s', copy_construct v o s = .ok s' ∧ Wf s' (Function.update A v (A o)) ∧
      ∀ w, w ≠ v → s'.data w = s.data w := by
  rw [copy_construct, setData_of_none hv]
  exact assign_wf hw hv hvo hlen

/-- **コピー代入は `Wf` を保ち、`o` の列を写す**（自分自身なら何もしない）。 -/
theorem copy_assign_wf (hw : Wf s A) (o : Nat) (hlen : (A o).length < 2 ^ 32) :
    ∃ s', copy_assign v o s = .ok s' ∧ Wf s' (Function.update A v (A o)) ∧
      ∀ w, w ≠ v → s'.data w = s.data w := by
  by_cases hvo : v = o
  · subst hvo
    refine ⟨s, by rw [copy_assign, if_pos rfl]; rfl, ?_, fun _ _ => rfl⟩
    rw [Function.update_eq_self]
    exact hw
  · -- `clear()` の後 `assign(other)`
    obtain ⟨s₁, hc, hw₁, hd₁⟩ := clear_wf hw v
    obtain ⟨s', ha, hw', hoth'⟩ := assign_wf hw₁ (by rw [hd₁, Function.update_self]) hvo
      (by rw [Function.update_of_ne (Ne.symm hvo)]; exact hlen)
    refine ⟨s', ?_, ?_, fun w hwv => by rw [hoth' w hwv, hd₁, Function.update_of_ne hwv]⟩
    · rw [copy_assign, if_neg hvo, hc, ok_bind]
      exact ha
    · rw [Function.update_idem, Function.update_of_ne (Ne.symm hvo)] at hw'
      exact hw'

/-- vector の番号を付け替えても `Wf`。 -/
theorem Wf.perm (hw : Wf s A) (σ : Equiv.Perm Nat) : Wf ⟨s.heap, s.hdr, s.data ∘ σ⟩ (A ∘ σ) :=
  ⟨fun w => hw.repr (σ w), fun w₁ w₂ c h₁ h₂ => σ.injective (hw.inj _ _ c h₁ h₂), fun b hl => by
    obtain ⟨w, hbw⟩ := hw.owned b hl
    exact ⟨σ.symm w, by show s.data (σ (σ.symm w)) = some b; rw [Equiv.apply_symm_apply]; exact hbw⟩⟩

/-- **`swap` と `operator=(CompactVector&&)` は `Wf` を保ち、二つの列を入れ替える。** -/
theorem swap_wf (hw : Wf s A) (v o : Nat) :
    Wf (swap v o s) (Function.update (Function.update A v (A o)) o (A v)) := by
  have h := hw.perm (Equiv.swap o v)
  rw [Equiv.comp_swap_eq_update, Equiv.comp_swap_eq_update] at h
  exact h

/-- **ムーブ構築は `Wf` を保ち、`o` の列を `v` に移して `o` を空にする。** -/
theorem move_construct_wf (hw : Wf s A) {o : Nat} (hv : s.data v = none) :
    Wf (move_construct v o s) (Function.update (Function.update A v (A o)) o []) := by
  have h := swap_wf hw v o
  rw [hw.nil hv] at h
  unfold swap at h
  rw [St.setData, St.setData, hv] at h
  exact h

/-- 空きのある vector に `xs` を順に `push_back` する。 -/
theorem foldlM_push_ok : ∀ (xs : List α) (s : St α) (A : Nat → List α), Wf s A →
    (A v).length + xs.length ≤ s.capacity v →
    ∃ s', xs.foldlM (fun s x => push_back v (.val x) s) s = .ok s' ∧
      Wf s' (Function.update A v (A v ++ xs)) ∧ s'.data = s.data
  | [], s, A, hw, _ => ⟨s, rfl, by rw [List.append_nil, Function.update_eq_self]; exact hw, rfl⟩
  | x :: xs, s, A, hw, hroom => by
    rw [List.length_cons] at hroom
    obtain ⟨s₁, hp, hw₁, hd₁, hc₁⟩ := push_back_room (v := v) hw (by omega)
      (show s.heap.load (.val x) = .ok x from rfl)
    obtain ⟨s', hf, hw', hd'⟩ := foldlM_push_ok xs s₁ _ hw₁
      (by rw [Function.update_self, hc₁, List.length_append, List.length_singleton]; omega)
    refine ⟨s', ?_, ?_, hd'.trans hd₁⟩
    · rw [List.foldlM_cons, hp, ok_bind]
      exact hf
    · rw [Function.update_self, Function.update_idem, List.append_assoc, List.singleton_append] at hw'
      exact hw'

/-- **`initializer_list` からの構築は `Wf` を保ち、その列を表す。** 空の列なら容量 `0` の block を
割り当てる。 -/
theorem init_list_wf (hw : Wf s A) (hv : s.data v = none) {xs : List α} (hlen : xs.length < 2 ^ 32) :
    ∃ s', init_list v xs s = .ok s' ∧ Wf s' (Function.update A v xs) ∧
      ∀ w, w ≠ v → s'.data w = s.data w := by
  have hnil := hw.nil hv
  obtain ⟨s₁, hres, hw₁, -, hc₁, hoth₁⟩ := reserve_impl_wf (n := xs.length) hw
    (by rw [hnil, List.length_nil]; exact Nat.zero_le _) hlen
  obtain ⟨s', hf, hw', hd'⟩ := foldlM_push_ok xs s₁ A hw₁
    (by rw [hnil, hc₁, List.length_nil, Nat.zero_add])
  refine ⟨s', ?_, ?_, fun w hwv => by rw [hd', hoth₁ w hwv]⟩
  · rw [init_list, setData_of_none hv, hres, ok_bind]
    exact hf
  · rw [hnil, List.nil_append] at hw'
    exact hw'

/-- **`CompactVector(n, x)` は `Wf` を保ち、`x` を `n` 個並べた列を表す。** -/
theorem size_construct_wf (hw : Wf s A) (hv : s.data v = none) {n : Nat} (hn : n < 2 ^ 31) (x : α) :
    ∃ s', size_construct v n (.val x) s = .ok s' ∧ Wf s' (Function.update A v (List.replicate n x)) ∧
      ∀ w, w ≠ v → s'.data w = s.data w := by
  obtain ⟨s', hr, hw', hoth⟩ := resize_wf (v := v) hw hn x
  refine ⟨s', by rw [size_construct, setData_of_none hv]; exact hr, ?_, hoth⟩
  rw [hw.nil hv, List.length_nil, Nat.sub_zero, List.nil_append] at hw'
  by_cases hz : n ≤ 0
  · rw [if_pos hz, List.take_nil] at hw'
    rw [show n = 0 by omega, List.replicate_zero]
    exact hw'
  · rw [if_neg hz] at hw'
    exact hw'

end Assign

end Hhvm.CompactVector
