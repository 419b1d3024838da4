import Hhvm.Util.CompactVector

/-!
# `CompactVector` と `std::vector`

要素の引数が外の値なら、`CompactVector` の操作の列は `std::vector` の操作の列と同じ要素の列を
作り、どの object も構築してから一度だけ破棄し、破棄したものや解放した block を読まず、block は
割り当てた大きさで解放する（`Wf`）。ただし大きさは `2^31` 未満とする。

引数が同じ vector の要素への参照のときは違う。`std::vector` は `v.push_back(v[0])` や
`v.insert(p, v[i])` を許すが、

* `push_back` は容量が一杯なら `grow()` で古い block を解放してから引数を読む
  （`push_back_ref_at_capacity`）、
* `insert` は引数の要素を上へずらして破棄してから読む（`insert_ref_after`）。

また `reserve_impl` は `uint32_t` に入らない容量を剰余で header に書くので、`clear` は割り当てた
のと違う大きさで block を解放する（`reserve_clear_size_mismatch`）。

## 証明の順

ループごとに、一回で `.ok` を返すことと、各場所の中身を場合分けで書いたもの（`moveElems_ok` など）。
それを各操作が `Wf` を保つことにまとめ、操作の列について帰納法。
-/

namespace Hhvm.CompactVector

open Infra.Lifetime Infra.Except

variable {α : Type}

/-! ## ループ -/

section Loops

/-- 古い block の `[i, i+n)` の要素を、空いた新しい block の同じ場所へムーブする。 -/
theorem moveElems_ok {ob nb : Nat} (hne : ob ≠ nb) : ∀ (n i : Nat) (h : Heap α),
    (h.blocks ob).live = true → (h.blocks nb).live = true →
    i + n ≤ (h.blocks ob).size → i + n ≤ (h.blocks nb).size →
    (∀ j, i ≤ j → j < i + n → ((h.blocks ob).cells j).isSome) →
    (∀ j, i ≤ j → j < i + n → (h.blocks nb).cells j = none) →
    ∃ h', moveElems ob nb i n h = .ok h' ∧ h.SameShape h' ∧
      (∀ j, (h'.blocks ob).cells j = if i ≤ j ∧ j < i + n then none else (h.blocks ob).cells j) ∧
      (∀ j, (h'.blocks nb).cells j =
        if i ≤ j ∧ j < i + n then (h.blocks ob).cells j else (h.blocks nb).cells j) ∧
      (∀ b, b ≠ ob → b ≠ nb → (h'.blocks b).cells = (h.blocks b).cells)
  | 0, i, h, _, _, _, _, _, _ =>
    ⟨h, rfl, .refl h, fun j => by rw [if_neg (by omega)], fun j => by rw [if_neg (by omega)],
      fun _ _ _ => rfl⟩
  | n + 1, i, h, hlo, hln, hso, hsn, hsrc, hdst => by
    obtain ⟨x, hx⟩ := Option.isSome_iff_exists.mp (hsrc i (Nat.le_refl i) (by omega))
    have hr := read_eq hlo (by omega) hx
    have hc := construct_eq x hln (by omega) (hdst i (Nat.le_refl i) (by omega))
    -- 新しい block に構築しても、古い block の `i` 番目はそのまま
    have hx₁ : ((h.setCell nb i (some x)).blocks ob).cells i = some x := by
      rw [setCell_blocks_ne _ hne]
      exact hx
    have hd := destroy_eq (h := h.setCell nb i (some x)) (by rw [setCell_live]; exact hlo)
      (by rw [setCell_size]; omega) hx₁
    let h₂ := (h.setCell nb i (some x)).setCell ob i none
    have hsh₂ : h.SameShape h₂ := (Heap.SameShape.setCell _ _ _ _).trans (Heap.SameShape.setCell _ _ _ _)
    have hob : ∀ j, (h₂.blocks ob).cells j = if j = i then none else (h.blocks ob).cells j := by
      intro j
      simp only [h₂, setCell_cells_self, setCell_blocks_ne _ hne]
    have hnb : ∀ j, (h₂.blocks nb).cells j = if j = i then some x else (h.blocks nb).cells j := by
      intro j
      simp only [h₂, setCell_blocks_ne _ (Ne.symm hne), setCell_cells_self]
    obtain ⟨h', he, hsh, hob', hnb', hoth'⟩ := moveElems_ok hne n (i + 1) h₂
      (by rw [(hsh₂.2 ob).1]; exact hlo) (by rw [(hsh₂.2 nb).1]; exact hln)
      (by rw [(hsh₂.2 ob).2]; omega) (by rw [(hsh₂.2 nb).2]; omega)
      (fun j hj hj' => by rw [hob, if_neg (by omega)]; exact hsrc j (by omega) (by omega))
      (fun j hj hj' => by rw [hnb, if_neg (by omega)]; exact hdst j (by omega) (by omega))
    refine ⟨h', ?_, hsh₂.trans hsh, fun j => ?_, fun j => ?_, fun b hb hb' => ?_⟩
    · rw [moveElems, hr, ok_bind, hc, ok_bind, hd, ok_bind]
      exact he
    · rw [hob', hob]
      by_cases hj : j = i
      · subst hj
        simp
      · by_cases hr : i + 1 ≤ j ∧ j < i + 1 + n
        · rw [if_pos hr, if_pos (by omega)]
        · rw [if_neg hr, if_neg hj, if_neg (by omega)]
    · rw [hnb', hob, hnb]
      by_cases hj : j = i
      · subst hj
        rw [if_neg (by omega), if_pos rfl, if_pos (by omega), hx]
      · by_cases hr : i + 1 ≤ j ∧ j < i + 1 + n
        · rw [if_pos hr, if_neg hj, if_pos (by omega)]
        · rw [if_neg hr, if_neg hj, if_neg (by omega)]
    · rw [hoth' b hb hb']
      simp only [h₂, setCell_blocks_ne _ hb, setCell_blocks_ne _ hb']

/-- `[i, i+n)` の要素を破棄する。 -/
theorem destroyElems_ok {b : Nat} : ∀ (n i : Nat) (h : Heap α),
    (h.blocks b).live = true → i + n ≤ (h.blocks b).size →
    (∀ j, i ≤ j → j < i + n → ((h.blocks b).cells j).isSome) →
    ∃ h', destroyElems b i n h = .ok h' ∧ h.SameShape h' ∧
      (∀ j, (h'.blocks b).cells j = if i ≤ j ∧ j < i + n then none else (h.blocks b).cells j) ∧
      (∀ b', b' ≠ b → (h'.blocks b').cells = (h.blocks b').cells)
  | 0, i, h, _, _, _ => ⟨h, rfl, .refl h, fun j => by rw [if_neg (by omega)], fun _ _ => rfl⟩
  | n + 1, i, h, hl, hs, hsome => by
    obtain ⟨x, hx⟩ := Option.isSome_iff_exists.mp (hsome i (Nat.le_refl i) (by omega))
    have hd := destroy_eq hl (by omega) hx
    let h₁ := h.setCell b i none
    have hsh₁ : h.SameShape h₁ := Heap.SameShape.setCell _ _ _ _
    have hc₁ : ∀ j, (h₁.blocks b).cells j = if j = i then none else (h.blocks b).cells j :=
      fun j => setCell_cells_self _ j
    obtain ⟨h', he, hsh, hcell, hoth⟩ := destroyElems_ok n (i + 1) h₁
      (by rw [(hsh₁.2 b).1]; exact hl) (by rw [(hsh₁.2 b).2]; omega)
      (fun j hj hj' => by rw [hc₁, if_neg (by omega)]; exact hsome j (by omega) (by omega))
    refine ⟨h', ?_, hsh₁.trans hsh, fun j => ?_, fun b' hb' => ?_⟩
    · rw [destroyElems, hd, ok_bind]
      exact he
    · rw [hcell, hc₁]
      by_cases hj : j = i
      · subst hj
        rw [if_neg (by omega), if_pos rfl, if_pos (by omega)]
      · by_cases hr : i + 1 ≤ j ∧ j < i + 1 + n
        · rw [if_pos hr, if_pos (by omega)]
        · rw [if_neg hr, if_neg hj, if_neg (by omega)]
    · rw [hoth b' hb']
      simp only [h₁, setCell_blocks_ne _ hb']

/-- `[src, src+n)` を下の `[dst, dst+n)` へムーブ代入する（`dst < src` なので、読むのは書き換える
前の値）。 -/
theorem moveAssign_ok {b : Nat} : ∀ (n dst src : Nat) (h : Heap α), dst < src →
    (h.blocks b).live = true → src + n ≤ (h.blocks b).size →
    (∀ j, dst ≤ j → j < src + n → ((h.blocks b).cells j).isSome) →
    ∃ h', moveAssign b dst src n h = .ok h' ∧ h.SameShape h' ∧
      (∀ j, (h'.blocks b).cells j =
        if dst ≤ j ∧ j < dst + n then (h.blocks b).cells (j - dst + src) else (h.blocks b).cells j) ∧
      (∀ b', b' ≠ b → (h'.blocks b').cells = (h.blocks b').cells)
  | 0, dst, src, h, _, _, _, _ => ⟨h, rfl, .refl h, fun j => by rw [if_neg (by omega)], fun _ _ => rfl⟩
  | n + 1, dst, src, h, hlt, hl, hs, hsome => by
    obtain ⟨x, hx⟩ := Option.isSome_iff_exists.mp (hsome src (by omega) (by omega))
    obtain ⟨y, hy⟩ := Option.isSome_iff_exists.mp (hsome dst (Nat.le_refl dst) (by omega))
    have hr := read_eq hl (by omega) hx
    have ha := assign_eq x hl (by omega) hy
    let h₁ := h.setCell b dst (some x)
    have hsh₁ : h.SameShape h₁ := Heap.SameShape.setCell _ _ _ _
    have hc₁ : ∀ j, (h₁.blocks b).cells j = if j = dst then some x else (h.blocks b).cells j :=
      fun j => setCell_cells_self _ j
    obtain ⟨h', he, hsh, hcell, hoth⟩ := moveAssign_ok n (dst + 1) (src + 1) h₁ (by omega)
      (by rw [(hsh₁.2 b).1]; exact hl) (by rw [(hsh₁.2 b).2]; omega)
      (fun j hj hj' => by
        rw [hc₁]
        split
        · rfl
        · exact hsome j (by omega) (by omega))
    refine ⟨h', ?_, hsh₁.trans hsh, fun j => ?_, fun b' hb' => ?_⟩
    · rw [moveAssign, hr, ok_bind, ha, ok_bind]
      exact he
    · rw [hcell, hc₁, hc₁]
      by_cases hj : j = dst
      · subst hj
        rw [if_neg (by omega), if_pos rfl, if_pos (by omega), Nat.sub_self, Nat.zero_add, hx]
      · by_cases hr : dst + 1 ≤ j ∧ j < dst + 1 + n
        · rw [if_pos hr, if_neg (by omega), if_pos (by omega),
            show j - (dst + 1) + (src + 1) = j - dst + src by omega]
        · rw [if_neg hr, if_neg hj, if_neg (by omega)]
    · rw [hoth b' hb']
      simp only [h₁, setCell_blocks_ne _ hb']

/-- `[before, before+n)` を上から順に `num` だけ上へムーブし、元の場所を破棄する。 -/
theorem shiftUp_ok {b num before : Nat} (hnum : 0 < num) : ∀ (n : Nat) (h : Heap α),
    (h.blocks b).live = true → before + n + num ≤ (h.blocks b).size →
    (∀ j, before ≤ j → j < before + n → ((h.blocks b).cells j).isSome) →
    (∀ j, before + n ≤ j → j < before + n + num → (h.blocks b).cells j = none) →
    ∃ h', shiftUp b num before n h = .ok h' ∧ h.SameShape h' ∧
      (∀ j, (h'.blocks b).cells j =
        if before + num ≤ j ∧ j < before + n + num then (h.blocks b).cells (j - num)
        else if before ≤ j ∧ j < before + n then none else (h.blocks b).cells j) ∧
      (∀ b', b' ≠ b → (h'.blocks b').cells = (h.blocks b').cells)
  | 0, h, _, _, _, hnone => ⟨h, rfl, .refl h, fun j => by
      rw [if_neg (by omega), if_neg (by omega)], fun _ _ => rfl⟩
  | n + 1, h, hl, hs, hsome, hnone => by
    obtain ⟨x, hx⟩ := Option.isSome_iff_exists.mp (hsome (before + n) (by omega) (by omega))
    have hr := read_eq hl (by omega) hx
    have hc := construct_eq x hl (by omega) (hnone (before + n + num) (by omega) (by omega))
    let h₁ := h.setCell b (before + n + num) (some x)
    have hx₁ : (h₁.blocks b).cells (before + n) = some x := by
      rw [setCell_cells_self, if_neg (by omega)]
      exact hx
    have hd := destroy_eq (h := h₁) (by rw [setCell_live]; exact hl) (by rw [setCell_size]; omega) hx₁
    let h₂ := h₁.setCell b (before + n) none
    have hsh₂ : h.SameShape h₂ := (Heap.SameShape.setCell _ _ _ _).trans (Heap.SameShape.setCell _ _ _ _)
    have hc₂ : ∀ j, (h₂.blocks b).cells j =
        if j = before + n then none else if j = before + n + num then some x else (h.blocks b).cells j := by
      intro j
      simp only [h₂, h₁, setCell_cells_self]
    obtain ⟨h', he, hsh, hcell, hoth⟩ := @shiftUp_ok b num before hnum n h₂
      (by rw [(hsh₂.2 b).1]; exact hl) (by rw [(hsh₂.2 b).2]; omega)
      (fun j hj hj' => by rw [hc₂, if_neg (by omega), if_neg (by omega)]; exact hsome j hj (by omega))
      (fun j hj hj' => by
        rw [hc₂]
        split
        · rfl
        · rw [if_neg (by omega)]
          exact hnone j (by omega) (by omega))
    refine ⟨h', ?_, hsh₂.trans hsh, fun j => ?_, fun b' hb' => ?_⟩
    · rw [shiftUp, hr, ok_bind, hc, ok_bind, hd, ok_bind]
      exact he
    · rw [hcell, hc₂, hc₂]
      -- 場所 `j` が上の範囲、今回の行き先、下の範囲、今回空いた場所、その外のどれか
      by_cases hup : before + num ≤ j ∧ j < before + n + num
      · rw [if_pos hup, if_pos (show before + num ≤ j ∧ j < before + (n + 1) + num by omega),
          if_neg (show j - num ≠ before + n by omega), if_neg (show j - num ≠ before + n + num by omega)]
      · rw [if_neg hup]
        by_cases htop : j = before + n + num
        · subst htop
          rw [if_pos (show before + num ≤ before + n + num ∧ before + n + num < before + (n + 1) + num by omega),
            if_neg (show ¬(before ≤ before + n + num ∧ before + n + num < before + n) by omega),
            if_neg (show before + n + num ≠ before + n by omega), if_pos rfl, Nat.add_sub_cancel, hx]
        · rw [if_neg (show ¬(before + num ≤ j ∧ j < before + (n + 1) + num) by omega), if_neg htop]
          by_cases hlow : before ≤ j ∧ j < before + n
          · rw [if_pos hlow, if_pos (show before ≤ j ∧ j < before + (n + 1) by omega)]
          · rw [if_neg hlow]
            by_cases hgap : j = before + n
            · rw [if_pos hgap, if_pos (show before ≤ j ∧ j < before + (n + 1) by omega)]
            · rw [if_neg hgap, if_neg (show ¬(before ≤ j ∧ j < before + (n + 1)) by omega)]
    · rw [hoth b' hb']
      simp only [h₂, h₁, setCell_blocks_ne _ hb']

/-- 空いた `[e, e+n)` に外の値 `x` を構築する。 -/
theorem constructDown_ok {b e : Nat} (x : α) : ∀ (n : Nat) (h : Heap α),
    (h.blocks b).live = true → e + n ≤ (h.blocks b).size →
    (∀ j, e ≤ j → j < e + n → (h.blocks b).cells j = none) →
    ∃ h', constructDown b e (.val x) n h = .ok h' ∧ h.SameShape h' ∧
      (∀ j, (h'.blocks b).cells j = if e ≤ j ∧ j < e + n then some x else (h.blocks b).cells j) ∧
      (∀ b', b' ≠ b → (h'.blocks b').cells = (h.blocks b').cells)
  | 0, h, _, _, _ => ⟨h, rfl, .refl h, fun j => by rw [if_neg (by omega)], fun _ _ => rfl⟩
  | n + 1, h, hl, hs, hnone => by
    have hc := construct_eq x hl (by omega) (hnone (e + n) (by omega) (by omega))
    let h₁ := h.setCell b (e + n) (some x)
    have hsh₁ : h.SameShape h₁ := Heap.SameShape.setCell _ _ _ _
    have hc₁ : ∀ j, (h₁.blocks b).cells j = if j = e + n then some x else (h.blocks b).cells j :=
      fun j => setCell_cells_self _ j
    obtain ⟨h', he, hsh, hcell, hoth⟩ := @constructDown_ok b e x n h₁
      (by rw [(hsh₁.2 b).1]; exact hl) (by rw [(hsh₁.2 b).2]; omega)
      (fun j hj hj' => by rw [hc₁, if_neg (by omega)]; exact hnone j hj (by omega))
    refine ⟨h', ?_, hsh₁.trans hsh, fun j => ?_, fun b' hb' => ?_⟩
    · rw [constructDown, Heap.load, ok_bind, hc, ok_bind]
      exact he
    · rw [hcell, hc₁]
      by_cases hr : e ≤ j ∧ j < e + n
      · rw [if_pos hr, if_pos (by omega)]
      · rw [if_neg hr]
        by_cases hj : j = e + n
        · rw [if_pos hj, if_pos (by omega)]
        · rw [if_neg hj, if_neg (by omega)]
    · rw [hoth b' hb']
      simp only [h₁, setCell_blocks_ne _ hb']

/-- 空いた `[i, i+|xs|)` に `xs` を順に構築する。 -/
theorem constructList_ok {b : Nat} : ∀ (xs : List α) (i : Nat) (h : Heap α),
    (h.blocks b).live = true → i + xs.length ≤ (h.blocks b).size →
    (∀ j, i ≤ j → j < i + xs.length → (h.blocks b).cells j = none) →
    ∃ h', constructList b i xs h = .ok h' ∧ h.SameShape h' ∧
      (∀ j, (h'.blocks b).cells j =
        if i ≤ j ∧ j < i + xs.length then xs[j - i]? else (h.blocks b).cells j) ∧
      (∀ b', b' ≠ b → (h'.blocks b').cells = (h.blocks b').cells)
  | [], i, h, _, _, _ => ⟨h, rfl, .refl h, fun j => by
      rw [List.length_nil, if_neg (by omega)], fun _ _ => rfl⟩
  | x :: xs, i, h, hl, hs, hnone => by
    rw [List.length_cons] at hs hnone
    have hc := construct_eq x hl (by omega) (hnone i (Nat.le_refl i) (by omega))
    let h₁ := h.setCell b i (some x)
    have hsh₁ : h.SameShape h₁ := Heap.SameShape.setCell _ _ _ _
    have hc₁ : ∀ j, (h₁.blocks b).cells j = if j = i then some x else (h.blocks b).cells j :=
      fun j => setCell_cells_self _ j
    obtain ⟨h', he, hsh, hcell, hoth⟩ := constructList_ok xs (i + 1) h₁
      (by rw [(hsh₁.2 b).1]; exact hl) (by rw [(hsh₁.2 b).2]; omega)
      (fun j hj hj' => by rw [hc₁, if_neg (by omega)]; exact hnone j (by omega) (by omega))
    refine ⟨h', ?_, hsh₁.trans hsh, fun j => ?_, fun b' hb' => ?_⟩
    · rw [constructList, hc, ok_bind]
      exact he
    · rw [hcell, hc₁, List.length_cons]
      by_cases hj : j = i
      · subst hj
        rw [if_neg (by omega), if_pos rfl, if_pos (by omega), Nat.sub_self, List.getElem?_cons_zero]
      · by_cases hr : i + 1 ≤ j ∧ j < i + 1 + xs.length
        · rw [if_pos hr, if_pos (by omega), show j - i = j - (i + 1) + 1 by omega,
            List.getElem?_cons_succ]
        · rw [if_neg hr, if_neg hj, if_neg (by omega)]
    · rw [hoth b' hb']
      simp only [h₁, setCell_blocks_ne _ hb']

end Loops

/-! ## 表現 -/

section Repr

/-- block `b` と header `hd` が要素の列 `l` を表す：block は生きていて大きさは `m_capacity`、
`m_len` は `l` の長さで、先頭の `|l|` 個の場所に `l` があり、その先は空。 -/
structure BlockRepr (h : Heap α) (hd : Header) (b : Nat) (l : List α) : Prop where
  live : (h.blocks b).live = true
  lt_next : b < h.next
  size_eq : (h.blocks b).size = hd.m_capacity.toNat
  len_eq : hd.m_len.toNat = l.length
  len_le : l.length ≤ hd.m_capacity.toNat
  cells_eq : ∀ j, (h.blocks b).cells j = l[j]?

/-- `m_data` が `d` の vector が `l` を表す。null は空の列。 -/
def Repr (s : St α) : Option Nat → List α → Prop
  | none, l => l = []
  | some b, l => BlockRepr s.heap (s.hdr b) b l

/-- 状態 `s` が vector ごとの要素の列 `A` を表す。別々の vector は block を共有せず、生きている
block はどれかの vector のもの（解放し忘れた block はない）。 -/
structure Wf (s : St α) (A : Nat → List α) : Prop where
  repr : ∀ v, Repr s (s.data v) (A v)
  inj : ∀ v w b, s.data v = some b → s.data w = some b → v = w
  owned : ∀ b, (s.heap.blocks b).live = true → ∃ v, s.data v = some b

variable {s : St α} {A : Nat → List α} {v b : Nat}

theorem Wf.blockRepr (hw : Wf s A) (hb : s.data v = some b) : BlockRepr s.heap (s.hdr b) b (A v) := by
  have h := hw.repr v
  rw [hb] at h
  exact h

theorem Wf.nil (hw : Wf s A) (hb : s.data v = none) : A v = [] := by
  have h := hw.repr v
  rw [hb] at h
  exact h

theorem size_of_some (hb : s.data v = some b) : s.size v = (s.hdr b).m_len.toNat := by
  simp only [St.size, hb]

theorem capacity_of_some (hb : s.data v = some b) : s.capacity v = (s.hdr b).m_capacity.toNat := by
  simp only [St.capacity, hb]

/-- `size()` は表す列の長さ。 -/
theorem Wf.size_eq (hw : Wf s A) (v : Nat) : s.size v = (A v).length := by
  cases hb : s.data v with
  | none => simp only [St.size, hb, hw.nil hb, List.length_nil]
  | some b => rw [size_of_some hb, (hw.blockRepr hb).len_eq]

/-- `v[i]`：表す列の `i` 番目を読む。 -/
theorem Wf.load_ref (hw : Wf s A) (hb : s.data v = some b) {i : Nat} (hi : i < (A v).length) :
    s.heap.load (.ref b i) = .ok (A v)[i] := by
  have R := hw.blockRepr hb
  exact read_eq R.live (by rw [R.size_eq]; exact Nat.lt_of_lt_of_le hi R.len_le)
    (by rw [R.cells_eq, List.getElem?_eq_getElem hi])

theorem BlockRepr.cells_lt {h : Heap α} {hd : Header} {l : List α} (R : BlockRepr h hd b l) {j : Nat}
    (hj : j < l.length) : (h.blocks b).cells j = some l[j] := by
  rw [R.cells_eq, List.getElem?_eq_getElem hj]

theorem BlockRepr.cells_ge {h : Heap α} {hd : Header} {l : List α} (R : BlockRepr h hd b l) {j : Nat}
    (hj : l.length ≤ j) : (h.blocks b).cells j = none := by
  rw [R.cells_eq, List.getElem?_eq_none hj]

/-- block が変わらず番号だけ進んだ heap でも、同じ列を表す。 -/
theorem BlockRepr.congr {h h' : Heap α} {hd : Header} {l : List α} (R : BlockRepr h hd b l)
    (hb : h'.blocks b = h.blocks b) (hnext : h.next ≤ h'.next) : BlockRepr h' hd b l :=
  ⟨by rw [hb]; exact R.live, Nat.lt_of_lt_of_le R.lt_next hnext, by rw [hb]; exact R.size_eq,
    R.len_eq, R.len_le, fun j => by rw [hb]; exact R.cells_eq j⟩

/-- 別の vector の block は違う。 -/
theorem Wf.block_ne (hw : Wf s A) {w b' : Nat} (hb : s.data v = some b) (hb' : s.data w = some b')
    (hwv : w ≠ v) : b' ≠ b := by
  rintro rfl
  exact hwv (hw.inj w v b' hb' hb)

/-- vector `v` の block `b` の中だけを変え、header を `hd` にした状態は、`v` を `l` に変えた列を表す。 -/
theorem Wf.inPlace (hw : Wf s A) (hb : s.data v = some b) {h' : Heap α} {hd : Header} {l : List α}
    (hnext : h'.next = s.heap.next) (hframe : ∀ b', b' ≠ b → h'.blocks b' = s.heap.blocks b')
    (hrepr : BlockRepr h' hd b l) :
    Wf ⟨h', Function.update s.hdr b hd, s.data⟩ (Function.update A v l) := by
  refine ⟨fun w => ?_, hw.inj, fun b' hl => ?_⟩
  · show Repr _ (s.data w) _
    by_cases hwv : w = v
    · subst hwv
      rw [hb, Function.update_self]
      show BlockRepr h' (Function.update s.hdr b hd b) b l
      rw [Function.update_self]
      exact hrepr
    · rw [Function.update_of_ne hwv]
      cases hbw : s.data w with
      | none => exact hw.nil hbw
      | some b' =>
        have hne := hw.block_ne hb hbw hwv
        show BlockRepr h' (Function.update s.hdr b hd b') b' (A w)
        rw [Function.update_of_ne hne]
        exact (hw.blockRepr hbw).congr (hframe b' hne) (Nat.le_of_eq hnext.symm)
  · by_cases hbb : b' = b
    · exact ⟨v, hbb ▸ hb⟩
    · rw [hframe b' hbb] at hl
      exact hw.owned b' hl

/-- vector `v` を新しい block `s.heap.next` に移し（古い block は解放し）、header を `hd` にした
状態も同じ列を表す。 -/
theorem Wf.moveTo (hw : Wf s A) {h' : Heap α} {hd : Header} (hnext : h'.next = s.heap.next + 1)
    (hframe : ∀ b', b' ≠ s.heap.next → s.data v ≠ some b' → h'.blocks b' = s.heap.blocks b')
    (hold : ∀ b', s.data v = some b' → (h'.blocks b').live = false)
    (hrepr : BlockRepr h' hd s.heap.next (A v)) :
    Wf ⟨h', Function.update s.hdr s.heap.next hd, Function.update s.data v (some s.heap.next)⟩ A := by
  -- ほかの vector の block は新しい番号より前で、`v` の block でもない
  have hother : ∀ w b', w ≠ v → s.data w = some b' → b' ≠ s.heap.next ∧ s.data v ≠ some b' :=
    fun w b' hwv hbw => ⟨Nat.ne_of_lt (hw.blockRepr hbw).lt_next, fun hbv => hwv (hw.inj w v b' hbw hbv)⟩
  refine ⟨fun w => ?_, fun w₁ w₂ c h₁ h₂ => ?_, fun b' hl => ?_⟩
  · show Repr _ (Function.update s.data v (some s.heap.next) w) _
    by_cases hwv : w = v
    · subst hwv
      rw [Function.update_self]
      show BlockRepr h' (Function.update s.hdr s.heap.next hd s.heap.next) s.heap.next (A w)
      rw [Function.update_self]
      exact hrepr
    · rw [Function.update_of_ne hwv]
      cases hbw : s.data w with
      | none => exact hw.nil hbw
      | some b' =>
        obtain ⟨hne, hnv⟩ := hother w b' hwv hbw
        show BlockRepr h' (Function.update s.hdr s.heap.next hd b') b' (A w)
        rw [Function.update_of_ne hne]
        exact (hw.blockRepr hbw).congr (hframe b' hne hnv) (by omega)
  · simp only at h₁ h₂
    by_cases hw₁ : w₁ = v <;> by_cases hw₂ : w₂ = v
    · rw [hw₁, hw₂]
    · rw [hw₁, Function.update_self, Option.some.injEq] at h₁
      rw [Function.update_of_ne hw₂, ← h₁] at h₂
      exact absurd rfl (hother w₂ _ hw₂ h₂).1
    · rw [hw₂, Function.update_self, Option.some.injEq] at h₂
      rw [Function.update_of_ne hw₁, ← h₂] at h₁
      exact absurd rfl (hother w₁ _ hw₁ h₁).1
    · rw [Function.update_of_ne hw₁] at h₁
      rw [Function.update_of_ne hw₂] at h₂
      exact hw.inj w₁ w₂ c h₁ h₂
  · by_cases hbn : b' = s.heap.next
    · exact ⟨v, by rw [hbn]; exact Function.update_self _ _ _⟩
    · by_cases hbv : s.data v = some b'
      · rw [hold b' hbv] at hl
        exact absurd hl Bool.false_ne_true
      · rw [hframe b' hbn hbv] at hl
        obtain ⟨w, hbw⟩ := hw.owned b' hl
        have hwv : w ≠ v := by
          rintro rfl
          exact hbv hbw
        exact ⟨w, (Function.update_of_ne hwv _ _).trans hbw⟩

/-- vector `v` の block `b` を解放し、`m_data` を null にした状態は、`v` を空にした列を表す。 -/
theorem Wf.release (hw : Wf s A) (hb : s.data v = some b) {h' : Heap α}
    (hnext : h'.next = s.heap.next) (hframe : ∀ b', b' ≠ b → h'.blocks b' = s.heap.blocks b')
    (hdead : (h'.blocks b).live = false) :
    Wf ⟨h', s.hdr, Function.update s.data v none⟩ (Function.update A v []) := by
  refine ⟨fun w => ?_, fun w₁ w₂ c h₁ h₂ => ?_, fun b' hl => ?_⟩
  · show Repr _ (Function.update s.data v none w) _
    by_cases hwv : w = v
    · subst hwv
      rw [Function.update_self, Function.update_self]
      rfl
    · rw [Function.update_of_ne hwv, Function.update_of_ne hwv]
      cases hbw : s.data w with
      | none => exact hw.nil hbw
      | some b' =>
        exact (hw.blockRepr hbw).congr (hframe b' (hw.block_ne hb hbw hwv)) (Nat.le_of_eq hnext.symm)
  · simp only at h₁ h₂
    by_cases hw₁ : w₁ = v
    · rw [hw₁, Function.update_self] at h₁
      exact absurd h₁ nofun
    · by_cases hw₂ : w₂ = v
      · rw [hw₂, Function.update_self] at h₂
        exact absurd h₂ nofun
      · rw [Function.update_of_ne hw₁] at h₁
        rw [Function.update_of_ne hw₂] at h₂
        exact hw.inj w₁ w₂ c h₁ h₂
  · by_cases hbb : b' = b
    · rw [hbb, hdead] at hl
      exact absurd hl Bool.false_ne_true
    · rw [hframe b' hbb] at hl
      obtain ⟨w, hbw⟩ := hw.owned b' hl
      have hwv : w ≠ v := by
        rintro rfl
        exact hbb (Option.some.inj (hbw.symm.trans hb))
      exact ⟨w, (Function.update_of_ne hwv _ _).trans hbw⟩

end Repr

/-! ## 容量 -/

section Capacity

variable {s : St α} {v b n : Nat} {l : List α}

/-- 要素のある vector の `reserve_impl(n)`：新しい block `s.heap.next` に要素を移し、古い block を
解放する。ほかの block は変わらない。 -/
theorem reserve_impl_some (hb : s.data v = some b) (R : BlockRepr s.heap (s.hdr b) b l)
    (hn : l.length ≤ n) :
    ∃ heap : Heap α, reserve_impl v n s =
        .ok ⟨heap, Function.update s.hdr s.heap.next ⟨(s.hdr b).m_len, UInt32.ofNat n⟩,
          Function.update s.data v (some s.heap.next)⟩ ∧
      heap.next = s.heap.next + 1 ∧ (heap.blocks b).live = false ∧
      (heap.blocks s.heap.next).live = true ∧ (heap.blocks s.heap.next).size = n ∧
      (∀ j, (heap.blocks s.heap.next).cells j = l[j]?) ∧
      (∀ b', b' ≠ b → b' ≠ s.heap.next → heap.blocks b' = s.heap.blocks b') := by
  have hbn : b ≠ s.heap.next := Nat.ne_of_lt R.lt_next
  let h₁ := (s.heap.alloc n).1
  have hb₁ : h₁.blocks b = s.heap.blocks b := by rw [alloc_blocks, if_neg hbn]
  have hn₁ : h₁.blocks s.heap.next = ⟨true, n, fun _ => none⟩ := by rw [alloc_blocks, if_pos rfl]
  obtain ⟨h₂, hmv, hsh, hold, hnew, hoth⟩ := moveElems_ok hbn (s.hdr b).m_len.toNat 0 h₁
    (by rw [hb₁]; exact R.live) (by rw [hn₁])
    (by rw [hb₁, R.size_eq, R.len_eq, Nat.zero_add]; exact R.len_le)
    (by rw [hn₁, R.len_eq, Nat.zero_add]; exact hn)
    (fun j _ hj => by
      rw [hb₁, R.cells_eq, List.getElem?_eq_getElem (by rw [← R.len_eq]; omega)]
      rfl)
    (fun j _ _ => by rw [hn₁])
  -- 移した後の古い block は空
  have hempty : ∀ j < (s.hdr b).m_capacity.toNat, (h₂.blocks b).cells j = none := by
    intro j _
    rw [hold, hb₁, R.cells_eq]
    split
    · rfl
    · exact List.getElem?_eq_none (by rw [← R.len_eq]; omega)
  have hd := dealloc_eq (h := h₂) (b := b) (by rw [(hsh.2 b).1, hb₁]; exact R.live)
    (by rw [(hsh.2 b).2, hb₁, R.size_eq]) hempty
  refine ⟨⟨Function.update h₂.blocks b ⟨false, (h₂.blocks b).size, (h₂.blocks b).cells⟩, h₂.next⟩,
    ?_, ?_, ?_, ?_, ?_, ?_, ?_⟩
  · rw [reserve_impl]
    simp only [hb, alloc_snd]
    rw [show (s.heap.alloc n).1 = h₁ from rfl, hmv, ok_bind, hd, ok_bind, pure_eq]
  · exact hsh.1
  · simp
  · simp [Function.update_of_ne hbn.symm, (hsh.2 _).1, hn₁]
  · simp [Function.update_of_ne hbn.symm, (hsh.2 _).2, hn₁]
  · intro j
    simp only [Function.update_of_ne hbn.symm, hnew, hn₁, hb₁, R.cells_eq]
    split
    · rfl
    · exact (List.getElem?_eq_none (by rw [← R.len_eq]; omega)).symm
  · intro b' hb' hbn'
    simp only [Function.update_of_ne hb', hsh.blocks_eq (hoth b' hb' hbn')]
    rw [alloc_blocks, if_neg hbn']

end Capacity

/-! ## 同じ vector の要素を引数にしたとき -/

section Aliasing

variable {s : St α} {A : Nat → List α} {v b : Nat}

theorem push_back_ref_at_capacity (hw : Wf s A) (hb : s.data v = some b)
    (hfull : (A v).length = s.capacity v) {i : Nat} (hi : i < (A v).length) :
    s.heap.load (.ref b i) = .ok (A v)[i] ∧ push_back v (.ref b i) s = .error .notAllocated := by
  have R := hw.blockRepr hb
  obtain ⟨heap, hres, -, hdead, -⟩ := reserve_impl_some hb R (n := (s.hdr b).m_capacity.toNat * 2)
    (by have := R.len_le; omega)
  refine ⟨hw.load_ref hb hi, ?_⟩
  rw [push_back, hw.size_eq, if_pos hfull]
  simp only [grow, hb, hres, ok_bind, St.setLen, Function.update_self, Heap.load,
    read_of_not_live hdead, error_bind]

/-- 要素 `1, 2, 3, 4` で一杯の vector `0`（block `0`）だけがある状態。 -/
def fullFour : St Nat :=
  ⟨⟨fun b => if b = 0 then ⟨true, 4, fun j => [1, 2, 3, 4][j]?⟩ else ⟨false, 0, fun _ => none⟩, 1⟩,
    fun _ => ⟨4, 4⟩, fun v => if v = 0 then some 0 else none⟩

theorem wf_fullFour : Wf fullFour (fun v => if v = 0 then [1, 2, 3, 4] else []) := by
  refine ⟨fun v => ?_, fun v w b hv hw => ?_, fun b hb => ⟨0, ?_⟩⟩
  · by_cases hv : v = 0
    · subst hv
      exact ⟨rfl, Nat.one_pos, rfl, rfl, by decide, fun j => rfl⟩
    · simp only [fullFour, hv, if_false, Repr]
  · simp only [fullFour] at hv hw
    split at hv <;> split at hw <;> simp_all
  · simp only [fullFour] at hb ⊢
    split at hb
    · simp_all
    · simp at hb

theorem push_back_ref_at_capacity_fullFour :
    fullFour.heap.load (.ref 0 0) = .ok 1 ∧ push_back 0 (.ref 0 0) fullFour = .error .notAllocated :=
  push_back_ref_at_capacity (v := 0) (b := 0) (i := 0) wf_fullFour rfl rfl (by decide)

/-- `v.insert(p, v[p])`：空きがあれば `[p, end)` を上へずらし、`p` 番目を破棄してから引数を読む。 -/
theorem insert_ref_self (hw : Wf s A) (hb : s.data v = some b) {p : Nat}
    (hp : p < (A v).length) (hroom : (A v).length < s.capacity v) :
    s.heap.load (.ref b p) = .ok (A v)[p] ∧ insert_impl v p 1 (.ref b p) s = .error .deadObject := by
  have R := hw.blockRepr hb
  have hcap := capacity_of_some hb
  obtain ⟨h', hsu, hsh, hcell, -⟩ := @shiftUp_ok α b 1 p Nat.one_pos ((A v).length - p) s.heap R.live
    (by rw [R.size_eq]; omega)
    (fun j _ hj => by
      rw [R.cells_eq, List.getElem?_eq_getElem (by omega)]
      rfl)
    (fun j hj _ => by rw [R.cells_eq]; exact List.getElem?_eq_none (by omega))
  -- 引数の場所 `p` はずらした後には空
  have hp' : (h'.blocks b).cells p = none := by
    rw [hcell, if_neg (by omega), if_pos (by omega)]
  have hread : h'.read b p = .error .deadObject :=
    read_of_none (by rw [(hsh.2 b).1]; exact R.live) (by rw [(hsh.2 b).2, R.size_eq]; omega) hp'
  refine ⟨hw.load_ref hb hp, ?_⟩
  rw [insert_impl, insert_elems, if_neg Nat.one_ne_zero, hw.size_eq, if_neg (by omega)]
  simp only [pure_eq, ok_bind, hb, hw.size_eq, St.setLen, hsu, St.withHeap, constructDown,
    Heap.load, Nat.add_zero, hread, error_bind]

end Aliasing

/-! ## 容量の剰余 -/

/-- `uint32_t` に入らない容量の `reserve` は header に剰余を書くので、`clear` は割り当てたのと
違う大きさで block を解放する。 -/
theorem reserve_clear_size_mismatch (s : St α) {v n : Nat} (hv : s.data v = none) (hn : 2 ^ 32 ≤ n) :
    (reserve v n s >>= clear v) = .error .sizeMismatch := by
  have hcap : s.capacity v = 0 := by simp only [St.capacity, hv]
  have hsize : (UInt32.ofNat n).toNat ≠ n := by
    rw [UInt32.toNat_ofNat']
    have := Nat.mod_lt n (show 0 < 2 ^ 32 by decide)
    omega
  rw [reserve, if_pos (by omega)]
  -- 割り当てたのは `n` 要素の block
  have hl : ((s.heap.alloc n).1.blocks s.heap.next).live = true := by rw [alloc_blocks, if_pos rfl]
  have hs : ((s.heap.alloc n).1.blocks s.heap.next).size ≠ (UInt32.ofNat n).toNat := by
    rw [alloc_blocks, if_pos rfl]
    exact hsize.symm
  simp only [reserve_impl, hv, alloc_snd, pure_eq, ok_bind, clear, Function.update_self,
    UInt32.toNat_zero, destroyElems, dealloc_of_size_ne hl hs, error_bind]

/-- **容量 `0` の block を持つ vector への `push_back` は、要素を block の外に構築する。**
`grow()` は `0 * 2 = 0` 要素の block に取り替えるだけなので、空きはできない。 -/
theorem push_back_zero (hw : Wf s A) (hb : s.data v = some b) (hc : (s.hdr b).m_capacity.toNat = 0)
    (x : α) : push_back v (.val x) s = .error .outOfBounds := by
  have R := hw.blockRepr hb
  have hlen : (A v).length = 0 := by
    have := R.len_le
    omega
  obtain ⟨heap, hres, -, -, hlive, hsize, -, -⟩ := reserve_impl_some hb R (n := 0) (by omega)
  have hfull : s.size v = s.capacity v := by rw [hw.size_eq, capacity_of_some hb, hlen, hc]
  have hgrow : grow v s = reserve_impl v 0 s := by simp only [grow, hb, hc, Nat.zero_mul]
  -- 取り替えた block `s.heap.next` も大きさ `0` で、その `0` 番目に構築する
  rw [push_back, if_pos hfull, hgrow, hres, ok_bind]
  simp only [Function.update_self, St.setLen, Heap.load, ok_bind, hw.size_eq, hlen]
  rw [construct_of_le x hlive (by rw [hsize])]
  rfl

/-- 空の `initializer_list` からの構築は容量 `0` の block を割り当て、`push_back` の `grow()` は
`0 * 2 = 0` 要素の block に取り替えるだけなので、要素を block の外に構築する。 -/
theorem init_list_nil_push_back (s : St α) (v : Nat) (x : α) :
    (init_list v [] s >>= push_back v (.val x)) = .error .outOfBounds := by
  let h₁ := (s.heap.alloc 0).1
  let h₂ := (h₁.alloc 0).1
  -- `grow()` の取り替えた block も `0` 要素
  have hl₁ : (h₁.blocks s.heap.next).live = true := by rw [alloc_blocks, if_pos rfl]
  have hs₁ : (h₁.blocks s.heap.next).size = 0 := by rw [alloc_blocks, if_pos rfl]
  have hl₂ : (h₂.blocks h₁.next).live = true := by rw [alloc_blocks, if_pos rfl]
  have hs₂ : (h₂.blocks h₁.next).size = 0 := by rw [alloc_blocks, if_pos rfl]
  have hbn : s.heap.next ≠ h₁.next := by rw [alloc_next]; omega
  have hd := dealloc_eq (h := h₂) (b := s.heap.next) (n := 0)
    (by rw [alloc_blocks, if_neg hbn]; exact hl₁) (by rw [alloc_blocks, if_neg hbn]; exact hs₁) nofun
  simp only [init_list, reserve_impl, St.setData, Function.update_self, alloc_snd, List.foldlM,
    pure_eq, ok_bind, push_back, St.size, St.capacity, grow, List.length_nil, UInt32.toNat_ofNat',
    Nat.zero_mod, UInt32.toNat_zero, Nat.zero_mul, if_true, moveElems, St.setLen]
  rw [show ((s.heap.alloc 0).1.alloc 0).1 = h₂ from rfl, hd, ok_bind]
  simp only [Function.update_self, Heap.load, ok_bind]
  have hne : (s.heap.alloc 0).1.next ≠ s.heap.next := hbn.symm
  rw [construct_of_le x (by simp only [Function.update_of_ne hne]; exact hl₂)
    (by simp only [Function.update_of_ne hne]; exact Nat.le_of_eq hs₂)]
  rfl

end Hhvm.CompactVector
