import Hhvm.Array.Properties.DictIndex
import Hhvm.Array.Properties.Iteration

/-!
# `VanillaDict` の操作と挿入順の写像

`Valid` な dict では、各操作が抽象の状態 `abs` の上で `Infra.OrderedMap` の操作として
振る舞い、結果もまた `Valid` である。

* `update` は `set`、`updateSkipConflict` は `setIfAbsent`、`erase` と `Remove*Move` は `erase`
* `nextInsert` は key `m_nextKI` の組を末尾に足す（その key が無いときに限る）
* `Grow`、`prepareForInsert`、`compact(false)`、`CopyReserve` は `abs` を変えない
* `PopMove` は最後の組を取り除き、その値を返す

探索のループは `Valid` な dict では必ず止まる（`Fault.diverge` にならない）。
失敗しうるのは `Grow` の `InsertCheckUnbalanced` だけで、そのときは `unbalanced` を返す。
-/

namespace Hhvm

open Infra Infra.Probe Infra.OrderedMap HashTableCommon HashTable

namespace VanillaDict

variable {S α : Type} {H : Hasher S} {o : Options} {d d' : VanillaDict S α}

/-! ## 要素を一つ足す -/

theorem abs_of_elms_append {e : Key S × α} (h : d'.elms = d.elms ++ [some e]) :
    abs d' = abs d ++ [e] := by
  rw [abs, abs, h, List.filterMap_append]
  rfl

@[simp] theorem abs_allocElm (d : VanillaDict S α) (p : Nat) (e : Key S × α) (n : Int64) :
    abs ⟨d.allocElm p e, n⟩ = abs d ++ [e] :=
  abs_of_elms_append rfl

section Alloc

variable [DecidableEq S]

/-- 無い key の組を末尾に足した配列は、索引が正しければ `Valid` である。 -/
theorem Valid.of_append (hv : Valid H d) (hw : d'.toHashTable.WF (elmProbe H))
    (hs : d'.scale < MaxScale) {k : Key S} {v : α} (hk : k ∉ keys (abs d))
    (habs : abs d' = abs d ++ [(k, v)]) : Valid H d' :=
  ⟨hw, by rw [habs, ← set_of_not_mem hk]; exact nodup_set hv.keys_nodup k v, hs⟩

/-- `findImpl` が外れたマスに足す（`insert`、`MakeDict`、`MakeDictNatural`）。 -/
theorem Valid.alloc_of_miss (hv : Valid H d) (hfull : d.used < Capacity d.scale) {k : Key S}
    (hk : k ∉ keys (abs d)) {p : Nat} (hf : d.findKey H k = some (.miss p)) (v : α) (n : Int64) :
    Valid H ⟨d.allocElm p (k, v), n⟩ ∧ abs ⟨d.allocElm p (k, v), n⟩ = abs d ++ [(k, v)] :=
  ⟨hv.of_append (wf_alloc_of_findKey_miss hv.wf hv.scale_lt hfull hf v) hv.scale_lt hk
    (abs_allocElm d p (k, v) n), abs_allocElm d p (k, v) n⟩

omit [DecidableEq S] in
/-- 索引が正しければ `findForNewInsert` は必ず空きのマスを返す。key は比べない。 -/
theorem findForNewInsert_exists (hw : d.toHashTable.WF (elmProbe H)) (h0 : UInt32) :
    ∃ p, findForNewInsert d.hashTab d.mask h0 = some p := by
  obtain ⟨m, -, hloop, -, -⟩ := hw.newInsert h0
  refine ⟨probeSeq (numSlots d.scale) h0.toNat m, ?_⟩
  unfold findForNewInsert
  rw [show d.mask = Mask d.scale from rfl, hloop]
  rfl

/-- `findForNewInsert` のマスに足す（`nextInsert`、`MakeStructDict`）。key が無いことは
呼ぶ側が保証する。 -/
theorem Valid.newInsert (hv : Valid H d) (hfull : d.used < Capacity d.scale) {k : Key S}
    (hk : k ∉ keys (abs d)) :
    ∃ p, findForNewInsert d.hashTab d.mask (k.hash H) = some p ∧ ∀ (v : α) (n : Int64),
      Valid H ⟨d.allocElm p (k, v), n⟩ ∧ abs ⟨d.allocElm p (k, v), n⟩ = abs d ++ [(k, v)] := by
  obtain ⟨p, hf⟩ := findForNewInsert_exists hv.wf (k.hash H)
  refine ⟨p, hf, fun v n => ⟨?_, abs_allocElm d p (k, v) n⟩⟩
  exact hv.of_append (wf_alloc_of_newInsert hv.wf hv.scale_lt hfull hf v) hv.scale_lt hk
    (abs_allocElm d p (k, v) n)

end Alloc

/-! ## `insert` と `update` -/

section Insert

variable [DecidableEq S] {k : Key S}

/-- key があれば、`insert` はその位置を返し、配列を変えない。 -/
theorem Valid.insert_of_mem (hv : Valid H d) (hk : k ∈ keys (abs d)) (v : α) :
    ∃ pos v₀, liveOf d.elms pos = some (k, v₀) ∧ d.insert H k v = .ok (true, pos, d) := by
  obtain ⟨⟨k', v₀⟩, hmem, rfl⟩ := List.mem_map.mp hk
  obtain ⟨i, hi⟩ := exists_liveOf_of_mem hmem
  obtain ⟨j, -, -, hf⟩ := hv.findKey_hit hi
  refine ⟨i, v₀, hi, ?_⟩
  unfold insert
  rw [hf]

/-- key が無ければ、`insert` は末尾に新しい組を足す。 -/
theorem Valid.insert_of_not_mem (hv : Valid H d) (hfull : d.used < Capacity d.scale)
    (hk : k ∉ keys (abs d)) (v : α) :
    ∃ d', d.insert H k v = .ok (false, d.used, d') ∧ Valid H d' ∧ abs d' = abs d ++ [(k, v)] ∧
      d'.scale = d.scale := by
  obtain ⟨n, -, -, -, hf⟩ := hv.findKey_miss hk
  unfold insert
  rw [hf]
  refine ⟨_, rfl, ?_, ?_, rfl⟩
  · exact (hv.alloc_of_miss hfull hk hf v _).1
  · exact (hv.alloc_of_miss hfull hk hf v _).2

/-- 生きている要素の値を書き換えると、`abs` ではその key への `set` になる。 -/
theorem Valid.setVal_of_live (hv : Valid H d) {pos : Nat} {v₀ : α}
    (he : liveOf d.elms pos = some (k, v₀)) (v : α) :
    Valid H (d.setVal pos v) ∧ abs (d.setVal pos v) = set (abs d) k v := by
  have hmem : k ∈ keys (abs d) := List.mem_map.mpr ⟨(k, v₀), mem_filterMap_of_liveOf he, rfl⟩
  have he' : d.elmAt pos = some (k, v₀) := by rw [elmAt_eq_liveOf]; exact he
  have habs : abs (d.setVal pos v) = set (abs d) k v := by
    rw [setVal_eq_of_elmAt he', set_of_mem hmem]
    exact filterMap_set_some hv.keys_nodup v he
  refine ⟨⟨wf_setVal hv.wf pos v, ?_, ?_⟩, habs⟩
  · rw [habs]
    exact nodup_set hv.keys_nodup k v
  · rw [setVal_scale]
    exact hv.scale_lt

/-- **`update` は `set` である。** あればその場で値を書き換え、無ければ末尾に足す。 -/
theorem Valid.update (hv : Valid H d) (hfull : d.used < Capacity d.scale) (k : Key S) (v : α) :
    ∃ d', d.update H k v = .ok d' ∧ Valid H d' ∧ abs d' = set (abs d) k v ∧ d'.scale = d.scale := by
  by_cases hk : k ∈ keys (abs d)
  · obtain ⟨pos, v₀, he, hins⟩ := hv.insert_of_mem hk v
    obtain ⟨hv', habs⟩ := hv.setVal_of_live he v
    refine ⟨d.setVal pos v, ?_, hv', habs, setVal_scale d pos v⟩
    unfold VanillaDict.update
    rw [hins]
    rfl
  · obtain ⟨d₁, hins, hv₁, habs, hs⟩ := hv.insert_of_not_mem hfull hk v
    refine ⟨d₁, ?_, hv₁, by rw [habs, set_of_not_mem hk], hs⟩
    unfold VanillaDict.update
    rw [hins]
    rfl

/-- **`updateSkipConflict` は `setIfAbsent` である。** あれば何もしない。 -/
theorem Valid.updateSkipConflict (hv : Valid H d) (hfull : d.used < Capacity d.scale) (k : Key S)
    (v : α) :
    ∃ d', d.updateSkipConflict H k v = .ok d' ∧ Valid H d' ∧ abs d' = setIfAbsent (abs d) k v ∧
      d'.scale = d.scale := by
  by_cases hk : k ∈ keys (abs d)
  · obtain ⟨pos, v₀, -, hins⟩ := hv.insert_of_mem hk v
    refine ⟨d, ?_, hv, (setIfAbsent_of_mem hk v).symm, rfl⟩
    unfold VanillaDict.updateSkipConflict
    rw [hins]
    rfl
  · obtain ⟨d₁, hins, hv₁, habs, hs⟩ := hv.insert_of_not_mem hfull hk v
    refine ⟨d₁, ?_, hv₁, by rw [habs, setIfAbsent_of_not_mem hk], hs⟩
    unfold VanillaDict.updateSkipConflict
    rw [hins]
    rfl

/-- key `m_nextKI` が無ければ、`nextInsert` はその組を末尾に足す。 -/
theorem Valid.nextInsert (hv : Valid H d) (hfull : d.used < Capacity d.scale)
    (hk : Key.int d.nextKI ∉ keys (abs d)) (v : α) :
    ∃ d', d.nextInsert H v = .ok d' ∧ Valid H d' ∧ abs d' = abs d ++ [(.int d.nextKI, v)] ∧
      d'.nextKI = d.nextKI + 1 ∧ d'.scale = d.scale := by
  obtain ⟨p, hf, hnew⟩ := hv.newInsert hfull hk
  obtain ⟨hv', habs⟩ := hnew v (d.nextKI + 1)
  refine ⟨_, ?_, hv', habs, rfl, rfl⟩
  unfold VanillaDict.nextInsert
  dsimp only
  rw [show H.int d.nextKI = (Key.int d.nextKI).hash H from rfl, hf]

omit [DecidableEq S] in
/-- `nextInsert` は key `m_nextKI` の組を末尾に足す。key を比べないので、その key が既に
あっても足す。 -/
theorem nextInsert_exists (hw : d.toHashTable.WF (elmProbe H)) (v : α) :
    ∃ d', d.nextInsert H v = .ok d' ∧ abs d' = abs d ++ [(.int d.nextKI, v)] ∧
      d'.nextKI = d.nextKI + 1 := by
  obtain ⟨p, hf⟩ := findForNewInsert_exists hw (H.int d.nextKI)
  refine ⟨_, ?_, abs_allocElm d p _ _, rfl⟩
  unfold VanillaDict.nextInsert
  dsimp only
  rw [hf]

end Insert

/-! ## 作り直す -/

theorem Grow_of_reinsert {s : Nat} {table : Nat → Slot}
    (h : reinsert (elmProbe H) (Mask s) (if d.used ≥ 2000 then some o.maxArrayChain else none) 0
      d.elms initHash = .ok table) :
    d.Grow H o s = .ok { d with scale := s, hashTab := table } := by
  unfold Grow
  dsimp only
  rw [h]
  rfl

theorem Grow_of_unbalanced {s n : Nat}
    (h : reinsert (elmProbe H) (Mask s) (if d.used ≥ 2000 then some o.maxArrayChain else none) 0
      d.elms initHash = .error (.unbalanced n)) :
    d.Grow H o s = .error (.unbalanced n) := by
  unfold Grow
  dsimp only
  rw [h]
  rfl

/-- `Grow` は、新しい表に要素が入りきるなら、止まるか `InsertCheckUnbalanced` で失敗する。 -/
theorem Grow_ok_or_unbalanced {s k : Nat} (hk : s = 2 ^ k) (hcap : d.used ≤ Capacity s) :
    (∃ d', d.Grow H o s = .ok d') ∨ ∃ n, d.Grow H o s = .error (.unbalanced n) := by
  have hr : (∃ table, reinsert (elmProbe H) (Mask s)
        (if d.used ≥ 2000 then some o.maxArrayChain else none) 0 d.elms initHash = .ok table) ∨
      ∃ n, reinsert (elmProbe H) (Mask s)
        (if d.used ≥ 2000 then some o.maxArrayChain else none) 0 d.elms initHash
        = .error (.unbalanced n) :=
    reinsert_ok_or_unbalanced hk hcap _
  rcases hr with ⟨table, hr⟩ | ⟨n, hr⟩
  · exact Or.inl ⟨_, Grow_of_reinsert hr⟩
  · exact Or.inr ⟨n, Grow_of_unbalanced hr⟩

/-- 索引が正しければ、`prepareForInsert` は返るか、`Grow` の `InsertCheckUnbalanced` で止まる。 -/
theorem prepareForInsert_ok_or_unbalanced (hw : d.toHashTable.WF (elmProbe H)) :
    (∃ p, d.prepareForInsert H o = .ok p) ∨ ∃ n, d.prepareForInsert H o = .error (.unbalanced n) := by
  unfold prepareForInsert
  by_cases hfull : d.isFull = true
  · rw [if_pos hfull]
    obtain ⟨k, hk⟩ := hw.scale_pow
    have hcap : d.used ≤ Capacity (d.scale * 2) := by
      rw [used_eq_of_isFull hfull, Capacity, Capacity]
      omega
    exact Grow_ok_or_unbalanced (show d.scale * 2 = 2 ^ (k + 1) by rw [hk, Nat.pow_succ]) hcap
  · rw [if_neg hfull]
    exact Or.inl ⟨d, rfl⟩

/-- `prepareForInsert` は `abs` を変えず、空きを作る。 -/
theorem Valid.of_prepareForInsert (hv : Valid H d) {p : VanillaDict S α}
    (h : d.prepareForInsert H o = .ok p) (hs : p.scale < MaxScale) :
    Valid H p ∧ abs p = abs d ∧ p.used < Capacity p.scale ∧ p.scale = d.prepareScale ∧
      p.nextKI = d.nextKI := by
  obtain ⟨hw, hfull, hsp, he, hn⟩ := prepareForInsert_wf hv.wf h
  have habs : abs p = abs d := by rw [abs, abs, he]
  exact ⟨⟨hw, habs ▸ hv.keys_nodup, hs⟩, habs, hfull, hsp, hn⟩

/-- `Grow(old, newScale)` は、新しい表に要素が入りきるなら `abs` を変えない。 -/
theorem Valid.Grow (hv : Valid H d) {s k : Nat} (hk : s = 2 ^ k) (hcap : d.used ≤ Capacity s)
    (hs : s < MaxScale) :
    (∃ d', d.Grow H o s = .ok d' ∧ Valid H d' ∧ abs d' = abs d ∧ d'.nextKI = d.nextKI) ∨
      ∃ n, d.Grow H o s = .error (.unbalanced n) := by
  rcases Grow_ok_or_unbalanced hk hcap with ⟨d', h⟩ | ⟨n, h⟩
  · obtain ⟨hw, hs', he, hn⟩ := Grow_wf hv.wf hk hcap h
    have habs : abs d' = abs d := by rw [abs, abs, he]
    exact Or.inl ⟨d', h, ⟨hw, habs ▸ hv.keys_nodup, hs' ▸ hs⟩, habs, hn⟩
  · exact Or.inr ⟨n, h⟩

/-- `compact(false)` は `abs` も `m_nextKI` も変えない。 -/
theorem Valid.compact (hv : Valid H d) :
    ∃ d', d.compact H false = .ok d' ∧ Valid H d' ∧ abs d' = abs d ∧ d'.scale = d.scale ∧
      d'.nextKI = d.nextKI := by
  obtain ⟨d', h⟩ := compact_exists hv.wf false
  obtain ⟨hw, hs, -⟩ := compact_wf hv.wf false h
  obtain ⟨he, hn⟩ := compact_false_elms hv.wf h
  have habs : abs d' = abs d := by
    rw [abs, he]
    exact filterMap_id_map_some _
  exact ⟨d', h, ⟨hw, habs ▸ hv.keys_nodup, hs ▸ hv.scale_lt⟩, habs, hs, hn⟩

/-- `CopyReserve` は `abs` も `m_nextKI` も変えず、大きさ `expectedSize` の表を作る。 -/
theorem Valid.CopyReserve (hv : Valid H d) {n : Nat} (hn : d.size ≤ n)
    (hs : computeScaleFromSize n < MaxScale) :
    ∃ d', d.CopyReserve H n = .ok d' ∧ Valid H d' ∧ abs d' = abs d ∧
      d'.scale = computeScaleFromSize n ∧ d'.used = d.size ∧ d'.nextKI = d.nextKI := by
  obtain ⟨d', h⟩ := CopyReserve_exists hv.wf hn hs
  obtain ⟨hw, hs', hu, habs, hn'⟩ := CopyReserve_wf hv.wf hn hs h
  exact ⟨d', h, ⟨hw, habs ▸ hv.keys_nodup, hs' ▸ hs⟩, habs, hs', hu, hn'⟩

/-! ## 消す -/

/-- `updateNextKI(k, false)` が `m_nextKI` を変えるのは `k = INT64_MAX` のときだけである。 -/
theorem updateNextKI_nextKI (d : VanillaDict S α) (k : Int64) :
    (d.updateNextKI k false).nextKI = d.nextKI ∨
      (d.updateNextKI k false).nextKI = 0x7fffffffffffffff ∧ k = 0x7fffffffffffffff := by
  unfold VanillaDict.updateNextKI
  split
  next h =>
    obtain ⟨-, -, hk | hb⟩ := h
    · exact Or.inr ⟨hk, hk⟩
    · exact absurd hb Bool.false_ne_true
  next => exact Or.inl rfl

theorem Valid.updateNextKI (hv : Valid H d) (k : Int64) (b : Bool) :
    Valid H (d.updateNextKI k b) ∧ abs (d.updateNextKI k b) = abs d := by
  have hu := updateNextKI_toHashTable d k b
  have habs : abs (d.updateNextKI k b) = abs d := by rw [abs, abs, ← hu]
  refine ⟨⟨?_, habs ▸ hv.keys_nodup, ?_⟩, habs⟩
  · rw [hu]; exact hv.wf
  · show (d.updateNextKI k b).toHashTable.scale < _
    rw [hu]; exact hv.scale_lt

section Remove

variable [DecidableEq S]

/-- **`erase` は `OrderedMap.erase` である。** 当たった key の組だけが消え、残りの順序は変わらない。
`m_size <= m_used / 2` なら `compact` が走るが、`abs` には表れない。 -/
theorem Valid.erase_of_hit (hv : Valid H d) {k : Key S} {p i : Nat}
    (hf : d.findKey H k = some (.hit p i)) :
    ∃ d', d.erase H p i = .ok d' ∧ Valid H d' ∧ abs d' = OrderedMap.erase (abs d) k ∧
      d'.scale = d.scale ∧ d'.nextKI = d.nextKI := by
  obtain ⟨hp, hslot, -⟩ := hv.wf.slot_of_hit hf
  obtain ⟨e, he, hh⟩ := liveOf_of_hit hv.wf hf
  have hek : e.1 = k := (hitKey_iff H k e).mp hh
  -- `eraseNoCompact` の直後の配列
  have habs₁ : abs ({ d with toHashTable := d.eraseNoCompact p i } : VanillaDict S α)
      = OrderedMap.erase (abs d) k := by
    rw [← hek]
    exact filterMap_set_none hv.keys_nodup he
  have hv₁ : Valid H ({ d with toHashTable := d.eraseNoCompact p i } : VanillaDict S α) :=
    ⟨hv.wf.eraseNoCompact hp hslot, by rw [habs₁]; exact nodup_erase hv.keys_nodup k, hv.scale_lt⟩
  unfold VanillaDict.erase
  dsimp only
  split
  · obtain ⟨d', hc, hv', habs', hs', hn'⟩ := hv₁.compact
    exact ⟨d', hc, hv', habs'.trans habs₁, hs', hn'⟩
  · exact ⟨_, rfl, hv₁, habs₁, rfl, rfl⟩

/-- 探索が外れれば、key は `abs` に無い。 -/
theorem Valid.not_mem_of_miss (hv : Valid H d) {k : Key S} {p : Nat}
    (hf : d.findKey H k = some (.miss p)) : k ∉ keys (abs d) := by
  intro hk
  obtain ⟨⟨k', v₀⟩, hmem, rfl⟩ := List.mem_map.mp hk
  obtain ⟨i, hi⟩ := exists_liveOf_of_mem hmem
  obtain ⟨j, -, -, hf'⟩ := hv.findKey_hit hi
  rw [hf] at hf'
  cases hf'

/-- 探索は必ず止まる。 -/
theorem Valid.findKey_isSome (hv : Valid H d) (k : Key S) :
    (∃ p, d.findKey H k = some (.miss p) ∧ k ∉ keys (abs d)) ∨
      ∃ p i, d.findKey H k = some (.hit p i) := by
  by_cases hk : k ∈ keys (abs d)
  · obtain ⟨⟨k', v₀⟩, hmem, rfl⟩ := List.mem_map.mp hk
    obtain ⟨i, hi⟩ := exists_liveOf_of_mem hmem
    obtain ⟨j, -, -, hf⟩ := hv.findKey_hit hi
    exact Or.inr ⟨j, i, hf⟩
  · obtain ⟨n, -, -, -, hf⟩ := hv.findKey_miss hk
    exact Or.inl ⟨_, hf, hk⟩

/-- **`RemoveIntMove` は `OrderedMap.erase` である。** -/
theorem Valid.RemoveIntMove (hv : Valid H d) (k : Int64) :
    ∃ d', d.RemoveIntMove H k = .ok d' ∧ Valid H d' ∧ abs d' = OrderedMap.erase (abs d) (.int k) ∧
      d'.scale = d.scale ∧
      (d'.nextKI = d.nextKI ∨ d'.nextKI = 0x7fffffffffffffff ∧ k = 0x7fffffffffffffff) := by
  unfold VanillaDict.RemoveIntMove
  rcases hv.findKey_isSome (.int k) with ⟨p, hf, hk⟩ | ⟨p, i, hf⟩
  · rw [hf]
    exact ⟨d, rfl, hv, (erase_of_not_mem hk).symm, rfl, Or.inl rfl⟩
  · rw [hf]
    obtain ⟨hv₁, habs₁⟩ := hv.updateNextKI k false
    have hf₁ : (d.updateNextKI k false).findKey H (.int k) = some (.hit p i) := by
      unfold findKey
      rw [updateNextKI_toHashTable]
      exact hf
    obtain ⟨d', he, hv', habs', hs', hn'⟩ := hv₁.erase_of_hit hf₁
    refine ⟨d', he, hv', by rw [habs', habs₁], ?_, by rw [hn']; exact updateNextKI_nextKI d k⟩
    rw [hs']
    show (d.updateNextKI k false).toHashTable.scale = _
    rw [updateNextKI_toHashTable]

/-- **`RemoveStrMove` は `OrderedMap.erase` である。** -/
theorem Valid.RemoveStrMove (hv : Valid H d) (k : S) :
    ∃ d', d.RemoveStrMove H k = .ok d' ∧ Valid H d' ∧ abs d' = OrderedMap.erase (abs d) (.str k) ∧
      d'.scale = d.scale ∧ d'.nextKI = d.nextKI := by
  unfold VanillaDict.RemoveStrMove
  rcases hv.findKey_isSome (.str k) with ⟨p, hf, hk⟩ | ⟨p, i, hf⟩
  · rw [hf]
    exact ⟨d, rfl, hv, (erase_of_not_mem hk).symm, rfl, rfl⟩
  · rw [hf]
    exact hv.erase_of_hit hf

/-- **`PopMove` は最後の組を取り除き、その値を返す。** 空なら `Uninit`（`none`）。 -/
theorem Valid.PopMove (hv : Valid H d) :
    ∃ d' r, d.PopMove H = .ok (d', r) ∧ Valid H d' ∧ abs d' = (abs d).dropLast ∧
      r = (abs d).getLast?.map Prod.snd ∧ d'.scale = d.scale ∧
      (d'.nextKI = d.nextKI ∨
        d'.nextKI = 0x7fffffffffffffff ∧ Key.int 0x7fffffffffffffff ∉ keys (abs d')) := by
  have hsize : d.size = (abs d).length := by rw [hv.wf.size_eq, countLive_eq_length]; rfl
  have hlast : d.elmAt d.IterLast = (abs d).getLast? := elmAt_IterLast d.toHashTable
  unfold VanillaDict.PopMove
  by_cases h0 : d.size = 0
  · have hnil : abs d = [] := List.eq_nil_of_length_eq_zero (hsize ▸ h0)
    rw [if_pos h0]
    exact ⟨d, none, rfl, hv, by rw [hnil]; rfl, by rw [hnil]; rfl, rfl, Or.inl rfl⟩
  · rw [if_neg h0, hlast]
    cases hl : (abs d).getLast? with
    | none =>
      rw [List.getLast?_eq_none_iff] at hl
      rw [hl] at hsize
      exact absurd hsize h0
    | some e =>
      obtain ⟨k, v⟩ := e
      have hdrop := erase_eq_dropLast hv.keys_nodup hl
      cases k with
      | str s =>
        obtain ⟨d', hr, hv', habs', hs', hn'⟩ := hv.RemoveStrMove s
        exact ⟨d', some v, Except.bind_eq_ok.mpr ⟨d', hr, rfl⟩, hv', by rw [habs', hdrop], rfl, hs',
          Or.inl hn'⟩
      | int i =>
        obtain ⟨d', hr, hv', habs', hs', hn'⟩ := hv.RemoveIntMove i
        refine ⟨d', some v, Except.bind_eq_ok.mpr ⟨d', hr, rfl⟩, hv', by rw [habs', hdrop], rfl, hs',
          ?_⟩
        -- `nextKI` が変わるのは消した key が `INT64_MAX` のときだけで、それはもう無い
        rcases hn' with hn' | ⟨hn', hi⟩
        · exact Or.inl hn'
        · refine Or.inr ⟨hn', ?_⟩
          rw [habs', ← hi]
          exact not_mem_keys_erase _ _

end Remove

/-! ## `Set*Move` と `AppendMove` -/

/-- `prepareForInsert` の後の表が `2 ^ 31` マス以下なら、その配列は `Valid` で空きがある。 -/
theorem Valid.prepare (hv : Valid H d) (hs : d.prepareScale < MaxScale) {p : VanillaDict S α}
    (hp : d.prepareForInsert H o = .ok p) :
    Valid H p ∧ abs p = abs d ∧ p.used < Capacity p.scale ∧ p.scale = d.prepareScale ∧
      p.nextKI = d.nextKI :=
  hv.of_prepareForInsert hp ((prepareForInsert_wf hv.wf hp).2.2.1 ▸ hs)

section Set

variable [DecidableEq S]

/-- **`SetIntMove` / `SetStrMove` は `set` である。** 失敗しうるのは `Grow` の
`InsertCheckUnbalanced` だけである。 -/
theorem Valid.SetMove (hv : Valid H d) (hs : d.prepareScale < MaxScale) (k : Key S) (v : α) :
    (∃ d', d.SetMove H o k v = .ok d' ∧ Valid H d' ∧ abs d' = set (abs d) k v ∧
        d'.scale = d.prepareScale) ∨
      ∃ n, d.SetMove H o k v = .error (.unbalanced n) := by
  unfold VanillaDict.SetMove
  rcases prepareForInsert_ok_or_unbalanced (o := o) hv.wf with ⟨p, hp⟩ | ⟨n, hp⟩
  · obtain ⟨hvp, habs, hfull, hsp, -⟩ := hv.prepare hs hp
    obtain ⟨d', hu, hv', habs', hs'⟩ := hvp.update hfull k v
    exact Or.inl ⟨d', Except.bind_eq_ok.mpr ⟨p, hp, hu⟩, hv', by rw [habs', habs], hs'.trans hsp⟩
  · exact Or.inr ⟨n, Except.bind_eq_error.mpr (Or.inl hp)⟩

/-- **`Set*MoveSkipConflict` は `setIfAbsent` である。** -/
theorem Valid.SetMoveSkipConflict (hv : Valid H d) (hs : d.prepareScale < MaxScale) (k : Key S)
    (v : α) :
    (∃ d', d.SetMoveSkipConflict H o k v = .ok d' ∧ Valid H d' ∧
        abs d' = setIfAbsent (abs d) k v ∧ d'.scale = d.prepareScale) ∨
      ∃ n, d.SetMoveSkipConflict H o k v = .error (.unbalanced n) := by
  unfold VanillaDict.SetMoveSkipConflict
  rcases prepareForInsert_ok_or_unbalanced (o := o) hv.wf with ⟨p, hp⟩ | ⟨n, hp⟩
  · obtain ⟨hvp, habs, hfull, hsp, -⟩ := hv.prepare hs hp
    obtain ⟨d', hu, hv', habs', hs'⟩ := hvp.updateSkipConflict hfull k v
    exact Or.inl ⟨d', Except.bind_eq_ok.mpr ⟨p, hp, hu⟩, hv', by rw [habs', habs], hs'.trans hsp⟩
  · exact Or.inr ⟨n, Except.bind_eq_error.mpr (Or.inl hp)⟩

omit [DecidableEq S] in
/-- `m_nextKI < 0` なら `AppendMove` は警告を出して配列をそのまま返す。 -/
theorem AppendMove_of_neg (hneg : d.nextKI < 0) (v : α) : ∃ rs, d.AppendMove H o v = .ok (d, rs) := by
  unfold VanillaDict.AppendMove
  dsimp only
  rw [if_pos hneg]
  exact ⟨_, rfl⟩

/-- **`AppendMove` は key `m_nextKI` の組を末尾に足す**（その key が無いとき）。 -/
theorem Valid.AppendMove_of_nonneg (hv : Valid H d) (hneg : ¬d.nextKI < 0)
    (hk : Key.int d.nextKI ∉ keys (abs d)) (hs : d.prepareScale < MaxScale) (v : α) :
    (∃ d' rs, d.AppendMove H o v = .ok (d', rs) ∧ Valid H d' ∧
        abs d' = abs d ++ [(.int d.nextKI, v)] ∧ d'.nextKI = d.nextKI + 1 ∧
        d'.scale = d.prepareScale) ∨
      ∃ n, d.AppendMove H o v = .error (.unbalanced n) := by
  unfold VanillaDict.AppendMove
  dsimp only
  rw [if_neg hneg]
  rcases prepareForInsert_ok_or_unbalanced (o := o) hv.wf with ⟨p, hp⟩ | ⟨n, hp⟩
  · obtain ⟨hvp, habs, hfull, hsp, hnp⟩ := hv.prepare hs hp
    obtain ⟨d', hni, hv', habs', hn', hs'⟩ := hvp.nextInsert hfull (by rw [habs, hnp]; exact hk) v
    refine Or.inl ⟨d', _, Except.bind_eq_ok.mpr ⟨p, hp, Except.bind_eq_ok.mpr ⟨d', hni, rfl⟩⟩,
      hv', ?_, by rw [hn', hnp], hs'.trans hsp⟩
    rw [habs', habs, hnp]
  · exact Or.inr ⟨n, Except.bind_eq_error.mpr (Or.inl hp)⟩

end Set

/-! ## 作る -/

theorem Valid.MakeReserveDict {n : Nat} (hs : computeScaleFromSize n < MaxScale) :
    Valid H (MakeReserveDict n : VanillaDict S α) ∧ abs (MakeReserveDict n : VanillaDict S α) = [] :=
  ⟨⟨MakeReserveDict_wf n, List.nodup_nil, hs⟩, rfl⟩

section Make

variable [DecidableEq S]

/-- `MakeDict` のループが最後まで進めば、組は渡された順に並ぶ。 -/
theorem makeDictLoop_spec : ∀ (kvs : List (Key S × α)) (d d' : VanillaDict S α),
    Valid H d → d.used + kvs.length ≤ Capacity d.scale → makeDictLoop H d kvs = .ok (some d') →
      Valid H d' ∧ abs d' = abs d ++ kvs ∧ d'.nextKI = d.nextKI
  | [], d, d', hv, _, h => by
    cases h
    exact ⟨hv, (List.append_nil _).symm, rfl⟩
  | (k, v) :: rest, d, d', hv, hcap, h => by
    rw [List.length_cons] at hcap
    unfold makeDictLoop at h
    split at h
    · cases h
    · cases h
    · next p hf =>
      obtain ⟨hv₁, habs₁⟩ := hv.alloc_of_miss (by omega) (hv.not_mem_of_miss hf) hf v d.nextKI
      have hcap₁ : (d.allocElm p (k, v)).used + rest.length ≤ Capacity d.scale := by
        rw [used_allocElm]
        omega
      obtain ⟨hv', habs', hn'⟩ := makeDictLoop_spec rest ⟨d.allocElm p (k, v), d.nextKI⟩ d' hv₁ hcap₁ h
      refine ⟨hv', ?_, hn'⟩
      rw [habs', habs₁, List.append_assoc]
      rfl

/-- `MakeDict` が配列を返したなら、それは `Valid` で、組を渡された順に並べたものである。
`m_nextKI` は 0 である。 -/
theorem Valid.MakeDict {kvs : List (Key S × α)} (h : MakeDict H kvs = .ok (some d))
    (hs : d.scale < MaxScale) : Valid H d ∧ abs d = kvs ∧ d.nextKI = 0 := by
  unfold VanillaDict.MakeDict at h
  -- `MakeDict` は `MakeReserveDict(size)` と同じ空の配列から始める
  have hs₀ : d.scale = computeScaleFromSize kvs.length := (makeDictLoop_shape kvs _ d h).1
  rw [hs₀] at hs
  have hv₀ : Valid H (VanillaDict.MakeReserveDict kvs.length : VanillaDict S α) := (Valid.MakeReserveDict hs).1
  have hcap : (VanillaDict.MakeReserveDict kvs.length : VanillaDict S α).used + kvs.length
      ≤ Capacity (computeScaleFromSize kvs.length) := by
    show 0 + kvs.length ≤ _
    rw [Nat.zero_add]
    exact computeScaleFromSize_capacity hs
  obtain ⟨hv, habs, hn⟩ := makeDictLoop_spec kvs _ d hv₀ hcap h
  exact ⟨hv, habs, hn⟩

/-- `2 ^ 63` 未満の添字は `Int64.ofNat` で別々の int key になる。 -/
theorem ofNat_ne_of_lt {i j : Nat} (hj : j < i) (hi : i < 2 ^ 63) :
    Int64.ofNat j ≠ Int64.ofNat i := by
  intro h
  have h' := congrArg Int64.toInt h
  rw [Int64.toInt_ofNat_of_lt (by omega), Int64.toInt_ofNat_of_lt hi] at h'
  omega

/-- `2 ^ 31` マス以下の表に入る要素の数は `2 ^ 63` より小さい。 -/
theorem lt_two_pow_63 {n s : Nat} (hn : n ≤ Capacity s) (hs : s < MaxScale) : n < 2 ^ 63 := by
  rw [MaxScale_eq] at hs
  unfold Capacity at hn
  omega

/-- `MakeDictNatural` のループ：key `i, i + 1, …` はまだ無いので、組を順に末尾に足す。 -/
theorem naturalLoop_spec : ∀ (vals : List α) (i : Nat) (d : VanillaDict S α),
    Valid H d → d.used + vals.length ≤ Capacity d.scale →
      keys (abs d) = (List.range i).map (fun j => Key.int (Int64.ofNat j)) →
      i + vals.length < 2 ^ 63 →
      ∃ d', naturalLoop H d i vals = .ok d' ∧ Valid H d' ∧
        abs d' = abs d ++ vals.mapIdx (fun j v => (Key.int (Int64.ofNat (i + j)), v)) ∧
        d'.nextKI = d.nextKI
  | [], _, d, hv, _, _, _ => ⟨d, rfl, hv, (List.append_nil _).symm, rfl⟩
  | v :: vals, i, d, hv, hcap, hkeys, hlt => by
    rw [List.length_cons] at hcap hlt
    have hk : Key.int (Int64.ofNat i) ∉ keys (abs d) := by
      rw [hkeys]
      intro hmem
      obtain ⟨j, hj, hji⟩ := List.mem_map.mp hmem
      exact ofNat_ne_of_lt (List.mem_range.mp hj) (by omega) (Key.int.inj hji)
    obtain ⟨p, hf⟩ : ∃ p, d.findKey H (.int (Int64.ofNat i)) = some (.miss p) :=
      let ⟨_, _, _, _, hf⟩ := hv.findKey_miss hk
      ⟨_, hf⟩
    obtain ⟨hv₁, habs₁⟩ := hv.alloc_of_miss (by omega) hk hf v d.nextKI
    have hcap₁ : (d.allocElm p (.int (Int64.ofNat i), v)).used + vals.length ≤ Capacity d.scale := by
      rw [used_allocElm]
      omega
    have hkeys₁ : keys (abs (⟨d.allocElm p (.int (Int64.ofNat i), v), d.nextKI⟩ : VanillaDict S α))
        = (List.range (i + 1)).map (fun j => Key.int (Int64.ofNat j)) := by
      rw [habs₁, keys_append, hkeys, List.range_succ, List.map_append]
      rfl
    obtain ⟨d', hl, hv', habs', hn'⟩ := naturalLoop_spec vals (i + 1) _ hv₁ hcap₁ hkeys₁ (by omega)
    refine ⟨d', ?_, hv', ?_, hn'⟩
    · unfold naturalLoop
      rw [hf]
      exact hl
    · rw [habs', habs₁, List.append_assoc, List.mapIdx_cons, List.singleton_append]
      simp only [Nat.add_zero]
      congr 3
      funext j w
      rw [Nat.add_assoc, Nat.add_comm 1 j]

/-- **`MakeDictNatural` は key `0, 1, …, n - 1` に値を順に並べた `Valid` な配列を作る。**
`m_nextKI` は `n` である。 -/
theorem Valid.MakeDictNatural {vals : List α} (hs : computeScaleFromSize vals.length < MaxScale) :
    ∃ d, MakeDictNatural H vals = .ok d ∧ Valid H d ∧
      abs d = vals.mapIdx (fun j v => (Key.int (Int64.ofNat j), v)) ∧
      d.nextKI = Int64.ofNat vals.length := by
  -- 初めの配列は `MakeReserveDict(n)` の表に `m_nextKI = n` を付けたもの
  have hv₀ : Valid H (⟨(VanillaDict.MakeReserveDict vals.length : VanillaDict S α).toHashTable,
      Int64.ofNat vals.length⟩ : VanillaDict S α) :=
    ⟨MakeReserveDict_wf vals.length, List.nodup_nil, hs⟩
  have hcap : vals.length ≤ Capacity (computeScaleFromSize vals.length) :=
    computeScaleFromSize_capacity hs
  have hlt : vals.length < 2 ^ 63 := lt_two_pow_63 hcap hs
  obtain ⟨d, hl, hv, habs, hn⟩ :=
    naturalLoop_spec vals 0 _ hv₀ (by show 0 + _ ≤ _; rw [Nat.zero_add]; exact hcap) rfl (by omega)
  refine ⟨d, hl, hv, ?_, hn⟩
  rw [habs]
  simp only [Nat.zero_add]
  rfl

omit [DecidableEq S] in
theorem map_fst_zip_sublist {β : Type} :
    ∀ (l₁ : List S) (l₂ : List β), ((l₁.zip l₂).map Prod.fst).Sublist l₁
  | [], _ => List.Sublist.slnil
  | _ :: _, [] => List.nil_sublist _
  | a :: as, _ :: bs => (map_fst_zip_sublist as bs).cons_cons a

/-- `MakeStructDict` のループ：key が重ならなければ、組を順に末尾に足す。 -/
theorem structLoop_spec : ∀ (kvs : List (S × α)) (d : VanillaDict S α),
    Valid H d → d.used + kvs.length ≤ Capacity d.scale → (kvs.map Prod.fst).Nodup →
      (∀ k ∈ kvs.map Prod.fst, Key.str k ∉ keys (abs d)) →
      ∃ d', structLoop H d kvs = .ok d' ∧ Valid H d' ∧
        abs d' = abs d ++ kvs.map (fun kv => (Key.str kv.1, kv.2)) ∧ d'.nextKI = d.nextKI
  | [], d, hv, _, _, _ => ⟨d, rfl, hv, (List.append_nil _).symm, rfl⟩
  | (k, v) :: rest, d, hv, hcap, hnd, hfresh => by
    rw [List.length_cons] at hcap
    rw [List.map_cons, List.nodup_cons] at hnd
    have hk : Key.str k ∉ keys (abs d) := hfresh k List.mem_cons_self
    obtain ⟨p, hf, hnew⟩ := hv.newInsert (by omega) hk
    obtain ⟨hv₁, habs₁⟩ := hnew v d.nextKI
    have hcap₁ : (d.allocElm p (.str k, v)).used + rest.length ≤ Capacity d.scale := by
      rw [used_allocElm]
      omega
    have hfresh₁ : ∀ k' ∈ rest.map Prod.fst,
        Key.str k' ∉ keys (abs (⟨d.allocElm p (.str k, v), d.nextKI⟩ : VanillaDict S α)) := by
      intro k' hk' hmem
      rw [habs₁, keys_append, List.mem_append] at hmem
      rcases hmem with hmem | hmem
      · exact hfresh k' (List.mem_cons_of_mem _ hk') hmem
      · have hkk : k' = k := by simpa using hmem
        exact hnd.1 (hkk ▸ hk')
    obtain ⟨d', hl, hv', habs', hn'⟩ :=
      structLoop_spec rest ⟨d.allocElm p (.str k, v), d.nextKI⟩ hv₁ hcap₁ hnd.2 hfresh₁
    refine ⟨d', ?_, hv', ?_, hn'⟩
    · unfold structLoop
      rw [show H.str k = (Key.str k).hash H from rfl, hf]
      exact hl
    · rw [habs', habs₁, List.append_assoc]
      rfl

/-- **`MakeStructDict` は、key が重ならなければ `Valid` な配列を作る。** 組は key の順に、
値は stack から逆順に取られる。 -/
theorem Valid.MakeStructDict {keys : List S} (hnd : keys.Nodup)
    (hs : computeScaleFromSize keys.length < MaxScale) (values : List α) :
    ∃ d, MakeStructDict H keys values = .ok d ∧ Valid H d ∧
      abs d = (keys.zip values.reverse).map (fun kv => (Key.str kv.1, kv.2)) ∧ d.nextKI = 0 := by
  have hv₀ : Valid H (VanillaDict.MakeReserveDict keys.length : VanillaDict S α) := (Valid.MakeReserveDict hs).1
  have hcap : (VanillaDict.MakeReserveDict keys.length : VanillaDict S α).used + (keys.zip values.reverse).length
      ≤ Capacity (computeScaleFromSize keys.length) := by
    show 0 + _ ≤ _
    rw [Nat.zero_add, List.length_zip]
    exact le_trans (min_le_left _ _) (computeScaleFromSize_capacity hs)
  obtain ⟨d, hl, hv, habs, hn⟩ := structLoop_spec _ _ hv₀ hcap
    (hnd.sublist (map_fst_zip_sublist keys values.reverse)) (fun _ _ h => by cases h)
  exact ⟨d, hl, hv, habs, hn⟩

end Make

end VanillaDict

end Hhvm
