import Hhvm.Array.Properties.DictLookup
import Hhvm.Infra.Except

/-!
# `VanillaDict` の操作は索引を保つ

`VanillaDict` の各操作が、返した配列で `HashTable.WF` を保つこと。key が重なっているか
どうかには触れない：探索が返したマスに書く限り索引は壊れない。ただし要素に書く hash
（int key では `STRHASH_MSB` が立つ）と探索の hash が同じマスから始まるよう、書き込む表は
`2 ^ 31` マス以下（`m_scale < MaxScale`）とする。

操作ごとに二つの補題を置く。`_shape` は何も仮定せずに表の大きさと要素の数を述べ、
`_wf` は索引の保存を述べる。呼ぶ側は前者で大きさの仮定を運び、後者で索引を運ぶ。
-/

namespace Hhvm

open Infra Infra.Probe HashTableCommon HashTable

namespace VanillaDict

variable {S α : Type} {H : Hasher S} {o : Options} {d d' : VanillaDict S α}

/-! ## 書き込みの単位 -/

/-- 要素に書かれる hash と探索の hash は、`MaxScale` より小さい表で同じマスから始まる。 -/
theorem elmProbe_mod (hw : d.toHashTable.WF (elmProbe H)) (hs : d.scale < MaxScale)
    (k : Key S) (v : α) :
    (elmProbe H (k, v)).toNat % numSlots d.scale = (k.hash H).toNat % numSlots d.scale := by
  obtain ⟨j, hj⟩ := hw.scale_pow
  exact probe_mod_hash H hj hs k

variable [DecidableEq S] in
theorem wf_alloc_of_findKey_miss (hw : d.toHashTable.WF (elmProbe H)) (hs : d.scale < MaxScale)
    (hfull : d.used < Capacity d.scale) {k : Key S} {p : Nat}
    (hf : d.findKey H k = some (.miss p)) (v : α) :
    (d.allocElm p (k, v)).WF (elmProbe H) :=
  hw.allocElm_of_miss hfull hf (elmProbe_mod hw hs k v)

theorem wf_alloc_of_newInsert (hw : d.toHashTable.WF (elmProbe H)) (hs : d.scale < MaxScale)
    (hfull : d.used < Capacity d.scale) {k : Key S} {p : Nat}
    (hf : findForNewInsert d.hashTab d.mask (k.hash H) = some p) (v : α) :
    (d.allocElm p (k, v)).WF (elmProbe H) :=
  hw.allocElm_of_newInsert hfull hf (elmProbe_mod hw hs k v)

theorem used_allocElm (d : VanillaDict S α) (p : Nat) (e : Key S × α) :
    (d.allocElm p e).used = d.used + 1 := by
  simp [used]

/-! ## 値の書き換え -/

theorem setVal_eq_of_elmAt {pos : Nat} {k : Key S} {v₀ : α} (he : d.elmAt pos = some (k, v₀))
    (v : α) : d.setVal pos v = { d with toHashTable := d.setElm pos (k, v) } := by
  simp only [setVal, he]

theorem setVal_eq_self {pos : Nat} (he : d.elmAt pos = none) (v : α) : d.setVal pos v = d := by
  simp only [setVal, he]

@[simp] theorem setVal_scale (d : VanillaDict S α) (pos : Nat) (v : α) :
    (d.setVal pos v).scale = d.scale := by
  unfold setVal; split <;> rfl

@[simp] theorem setVal_used (d : VanillaDict S α) (pos : Nat) (v : α) :
    (d.setVal pos v).used = d.used := by
  unfold setVal
  split
  · exact List.length_set
  · rfl

@[simp] theorem setVal_nextKI (d : VanillaDict S α) (pos : Nat) (v : α) :
    (d.setVal pos v).nextKI = d.nextKI := by
  unfold setVal; split <;> rfl

/-- 値を書き換えても key と hash は変わらないので、どの位置でも索引は保たれる。 -/
theorem wf_setVal (hw : d.toHashTable.WF (elmProbe H)) (pos : Nat) (v : α) :
    (d.setVal pos v).toHashTable.WF (elmProbe H) := by
  cases he : d.elmAt pos with
  | none => rw [setVal_eq_self he]; exact hw
  | some e =>
    obtain ⟨k, v₀⟩ := e
    have hl : liveOf d.elms pos = some (k, v₀) := by rwa [elmAt_eq_liveOf] at he
    rw [setVal_eq_of_elmAt he]
    exact hw.setElm hl rfl

/-! ## 足す -/

section Insert

variable [DecidableEq S] {k : Key S} {v : α}

theorem insert_shape {b : Bool} {pos : Nat} (h : d.insert H k v = .ok (b, pos, d')) :
    d'.scale = d.scale ∧ d'.used ≤ d.used + 1 := by
  unfold insert at h
  cases hf : d.findKey H k with
  | none => rw [hf] at h; cases h
  | some r =>
    rw [hf] at h
    cases r with
    | hit j i => cases h; exact ⟨rfl, Nat.le_succ _⟩
    | miss p => cases h; exact ⟨rfl, le_of_eq (used_allocElm d p (k, v))⟩

/-- `insert` が返す配列は索引を保つ。 -/
theorem insert_wf (hw : d.toHashTable.WF (elmProbe H)) (hs : d.scale < MaxScale)
    (hfull : d.used < Capacity d.scale) {b : Bool} {pos : Nat}
    (h : d.insert H k v = .ok (b, pos, d')) : d'.toHashTable.WF (elmProbe H) := by
  unfold insert at h
  cases hf : d.findKey H k with
  | none => rw [hf] at h; cases h
  | some r =>
    rw [hf] at h
    cases r with
    | hit j i => cases h; exact hw
    | miss p => cases h; exact wf_alloc_of_findKey_miss hw hs hfull hf v

theorem update_shape (h : d.update H k v = .ok d') : d'.scale = d.scale ∧ d'.used ≤ d.used + 1 := by
  unfold update at h
  obtain ⟨⟨b, pos, d₁⟩, hins, hd⟩ := Except.bind_eq_ok.mp h
  obtain ⟨hs₁, hu₁⟩ := insert_shape hins
  cases hd
  split
  · exact ⟨by rw [setVal_scale, hs₁], by rw [setVal_used]; exact hu₁⟩
  · exact ⟨hs₁, hu₁⟩

theorem update_wf (hw : d.toHashTable.WF (elmProbe H)) (hs : d.scale < MaxScale)
    (hfull : d.used < Capacity d.scale) (h : d.update H k v = .ok d') :
    d'.toHashTable.WF (elmProbe H) := by
  unfold update at h
  obtain ⟨⟨b, pos, d₁⟩, hins, hd⟩ := Except.bind_eq_ok.mp h
  have hw₁ := insert_wf hw hs hfull hins
  cases hd
  split
  · exact wf_setVal hw₁ pos v
  · exact hw₁

theorem updateSkipConflict_shape (h : d.updateSkipConflict H k v = .ok d') :
    d'.scale = d.scale ∧ d'.used ≤ d.used + 1 := by
  unfold updateSkipConflict at h
  obtain ⟨⟨b, pos, d₁⟩, hins, hd⟩ := Except.bind_eq_ok.mp h
  cases hd
  exact insert_shape hins

theorem updateSkipConflict_wf (hw : d.toHashTable.WF (elmProbe H)) (hs : d.scale < MaxScale)
    (hfull : d.used < Capacity d.scale) (h : d.updateSkipConflict H k v = .ok d') :
    d'.toHashTable.WF (elmProbe H) := by
  unfold updateSkipConflict at h
  obtain ⟨⟨b, pos, d₁⟩, hins, hd⟩ := Except.bind_eq_ok.mp h
  cases hd
  exact insert_wf hw hs hfull hins

omit [DecidableEq S] in
/-- `nextInsert` は `findForNewInsert` のマスに key `m_nextKI` の要素を足す。 -/
theorem nextInsert_ok (h : d.nextInsert H v = .ok d') :
    ∃ p, findForNewInsert d.hashTab d.mask (H.int d.nextKI) = some p ∧
      d' = { d with toHashTable := d.allocElm p (.int d.nextKI, v), nextKI := d.nextKI + 1 } := by
  unfold nextInsert at h
  dsimp only at h
  cases hf : findForNewInsert d.hashTab d.mask (H.int d.nextKI) with
  | none => rw [hf] at h; cases h
  | some p => rw [hf] at h; cases h; exact ⟨p, rfl, rfl⟩

omit [DecidableEq S] in
theorem nextInsert_shape (h : d.nextInsert H v = .ok d') :
    d'.scale = d.scale ∧ d'.used = d.used + 1 := by
  obtain ⟨p, -, rfl⟩ := nextInsert_ok h
  exact ⟨rfl, used_allocElm d p _⟩

omit [DecidableEq S] in
theorem nextInsert_wf (hw : d.toHashTable.WF (elmProbe H)) (hs : d.scale < MaxScale)
    (hfull : d.used < Capacity d.scale) (h : d.nextInsert H v = .ok d') :
    d'.toHashTable.WF (elmProbe H) := by
  obtain ⟨p, hf, rfl⟩ := nextInsert_ok h
  exact wf_alloc_of_newInsert (k := .int d.nextKI) hw hs hfull hf v

end Insert

/-! ## 作り直す -/

/-- `Grow` は要素の列をそのまま、新しい大きさの表に入れ直す。 -/
theorem Grow_ok {s : Nat} (h : d.Grow H o s = .ok d') :
    ∃ table, reinsert (elmProbe H) (Mask s) (if d.used ≥ 2000 then some o.maxArrayChain else none)
        0 d.elms initHash = .ok table ∧ d' = { d with scale := s, hashTab := table } := by
  unfold Grow at h
  obtain ⟨table, hr, hd⟩ := Except.bind_eq_ok.mp h
  cases hd
  exact ⟨table, hr, rfl⟩

theorem Grow_wf (hw : d.toHashTable.WF (elmProbe H)) {s k : Nat} (hk : s = 2 ^ k)
    (hcap : d.used ≤ Capacity s) (h : d.Grow H o s = .ok d') :
    d'.toHashTable.WF (elmProbe H) ∧ d'.scale = s ∧ d'.elms = d.elms ∧ d'.nextKI = d.nextKI := by
  obtain ⟨table, hr, rfl⟩ := Grow_ok h
  exact ⟨hw.of_reinsert_elms hk hcap hr, rfl, rfl, rfl⟩

/-- `prepareForInsert` の後の `m_scale`：満杯なら二倍。 -/
def prepareScale (d : VanillaDict S α) : Nat := if d.isFull then d.scale * 2 else d.scale

/-- **`prepareForInsert` の後には空きがある。** 要素の列と `m_nextKI` は変わらない。 -/
theorem prepareForInsert_wf (hw : d.toHashTable.WF (elmProbe H)) {p : VanillaDict S α}
    (h : d.prepareForInsert H o = .ok p) :
    p.toHashTable.WF (elmProbe H) ∧ p.used < Capacity p.scale ∧ p.scale = d.prepareScale ∧
      p.elms = d.elms ∧ p.nextKI = d.nextKI := by
  obtain ⟨k, hk⟩ := hw.scale_pow
  have hpos : 0 < d.scale := by rw [hk]; exact Nat.two_pow_pos k
  unfold prepareForInsert at h
  by_cases hfull : d.isFull = true
  · rw [if_pos hfull] at h
    have hu := used_eq_of_isFull hfull
    have hk' : d.scale * 2 = 2 ^ (k + 1) := by rw [hk, Nat.pow_succ]
    obtain ⟨hw', hs', he', hn'⟩ := Grow_wf hw hk' (by rw [hu, Capacity, Capacity]; omega) h
    refine ⟨hw', ?_, by rw [hs', prepareScale, if_pos hfull], he', hn'⟩
    show p.elms.length < _
    rw [he', hs']
    show d.used < _
    rw [hu, Capacity, Capacity]
    omega
  · rw [if_neg hfull] at h
    cases h
    exact ⟨hw, lt_of_le_of_ne hw.used_le (used_ne_of_not_isFull hfull),
      by rw [prepareScale, if_neg hfull], rfl, rfl⟩

/-! ### `compact` -/

theorem compactLoop_eq_take :
    ∀ (n : Nat) (l : List (Option (Key S × α))), compactLoop n l = (l.filterMap id).take n
  | 0, _ => by rw [compactLoop, List.take_zero]
  | _ + 1, [] => rfl
  | n + 1, none :: rest => by rw [compactLoop, compactLoop_eq_take (n + 1) rest]; rfl
  | n + 1, some e :: rest => by rw [compactLoop, compactLoop_eq_take n rest]; rfl

/-- `m_size` 個を取れば、生きている要素がちょうど全部取れる。 -/
theorem compactLoop_size (hw : d.toHashTable.WF (elmProbe H)) :
    compactLoop d.size d.elms = abs d := by
  rw [compactLoop_eq_take, hw.size_eq, countLive_eq_length, List.take_length]
  rfl

theorem renumberLoop_length :
    ∀ (n : Int64) (l : List (Key S × α)), (renumberLoop n l).1.length = l.length
  | _, [] => rfl
  | n, (.int _, _) :: rest => by
    simp only [renumberLoop, List.length_cons, renumberLoop_length (n + 1) rest]
  | n, (.str _, _) :: rest => by
    simp only [renumberLoop, List.length_cons, renumberLoop_length n rest]

/-- `compact` が詰め直す要素の列。`renumber` なら int key を振り直す。 -/
theorem compact_ok {r : Bool} (h : d.compact H r = .ok d') :
    ∃ R : List (Key S × α) × Int64,
      R = (if r then renumberLoop 0 (compactLoop d.size d.elms)
        else (compactLoop d.size d.elms, d.nextKI)) ∧
      ∃ table, reinsert (elmProbe H) (Mask d.scale) none 0 (R.1.map some) initHash = .ok table ∧
        d' = { d with elms := R.1.map some, hashTab := table, nextKI := R.2 } := by
  unfold compact at h
  dsimp only at h
  obtain ⟨table, hr, hd⟩ := Except.bind_eq_ok.mp h
  cases hd
  exact ⟨_, rfl, table, hr, rfl⟩

/-- 詰め直した列の長さは `m_size` である。 -/
theorem compact_live_length (hw : d.toHashTable.WF (elmProbe H)) (r : Bool) :
    (if r then renumberLoop 0 (compactLoop d.size d.elms)
      else (compactLoop d.size d.elms, d.nextKI)).1.length = d.size := by
  have hc : (compactLoop d.size d.elms).length = d.size := by
    rw [compactLoop_size hw, abs, ← countLive_eq_length, ← hw.size_eq]
  cases r
  · exact hc
  · exact (renumberLoop_length 0 _).trans hc

theorem compact_live_capacity (hw : d.toHashTable.WF (elmProbe H)) (r : Bool) :
    ((if r then renumberLoop 0 (compactLoop d.size d.elms)
      else (compactLoop d.size d.elms, d.nextKI)).1.map some).length ≤ Capacity d.scale := by
  rw [List.length_map, compact_live_length hw r]
  exact hw.size_le_capacity

theorem compact_wf (hw : d.toHashTable.WF (elmProbe H)) (r : Bool) (h : d.compact H r = .ok d') :
    d'.toHashTable.WF (elmProbe H) ∧ d'.scale = d.scale ∧ d'.used = d.size := by
  obtain ⟨k, hk⟩ := hw.scale_pow
  obtain ⟨R, hR, table, hr, rfl⟩ := compact_ok h
  have hlen : R.1.length = d.size := by rw [hR]; exact compact_live_length hw r
  have hw' := WF_of_reinsert hk (by rw [hR]; exact compact_live_capacity hw r) hr
  rw [countLive_map_some, hlen] at hw'
  exact ⟨hw', rfl, by rw [← hlen]; exact List.length_map _⟩

/-- `compact(false)` は生きている要素の列も `m_nextKI` も変えない。 -/
theorem compact_false_elms (hw : d.toHashTable.WF (elmProbe H)) (h : d.compact H false = .ok d') :
    d'.elms = (abs d).map some ∧ d'.nextKI = d.nextKI := by
  obtain ⟨R, hR, table, -, rfl⟩ := compact_ok h
  subst hR
  exact ⟨by rw [if_neg Bool.false_ne_true, compactLoop_size hw], by rw [if_neg Bool.false_ne_true]⟩

/-- 索引が正しければ、`compact` は必ず返る。 -/
theorem compact_exists (hw : d.toHashTable.WF (elmProbe H)) (r : Bool) :
    ∃ d', d.compact H r = .ok d' := by
  obtain ⟨k, hk⟩ := hw.scale_pow
  have hex : ∃ table, reinsert (elmProbe H) (Mask d.scale) none 0
      ((if r then renumberLoop 0 (compactLoop d.size d.elms)
        else (compactLoop d.size d.elms, d.nextKI)).1.map some) initHash = .ok table :=
    reinsert_ok hk (compact_live_capacity hw r)
  obtain ⟨table, hr⟩ := hex
  unfold compact
  dsimp only
  rw [show d.mask = Mask d.scale from rfl, hr]
  exact ⟨_, rfl⟩

/-! ## 消す -/

@[simp] theorem updateNextKI_toHashTable (d : VanillaDict S α) (k : Int64) (b : Bool) :
    (d.updateNextKI k b).toHashTable = d.toHashTable := by
  unfold updateNextKI; split <;> rfl

/-- `erase` は、当たったマスとその要素を消し、半分以上が tombstone なら詰め直す。 -/
theorem erase_wf (hw : d.toHashTable.WF (elmProbe H)) {p i : Nat} (hp : p < numSlots d.scale)
    (hslot : d.hashTab p = .pos i) (h : d.erase H p i = .ok d') :
    d'.toHashTable.WF (elmProbe H) ∧ d'.scale = d.scale := by
  have hw₁ := hw.eraseNoCompact hp hslot
  unfold erase at h
  dsimp only at h
  split at h
  · obtain ⟨hw', hs', -⟩ := compact_wf hw₁ false h
    exact ⟨hw', hs'⟩
  · cases h
    exact ⟨hw₁, rfl⟩

section Remove

variable [DecidableEq S]

theorem RemoveIntMove_wf (hw : d.toHashTable.WF (elmProbe H)) {k : Int64}
    (h : d.RemoveIntMove H k = .ok d') : d'.toHashTable.WF (elmProbe H) ∧ d'.scale = d.scale := by
  unfold RemoveIntMove at h
  cases hf : d.findKey H (.int k) with
  | none => rw [hf] at h; cases h
  | some r =>
    rw [hf] at h
    cases r with
    | miss p => cases h; exact ⟨hw, rfl⟩
    | hit p i =>
      obtain ⟨hp, hslot, -⟩ := hw.slot_of_hit hf
      have hu := updateNextKI_toHashTable d k false
      obtain ⟨hw', hs'⟩ := erase_wf (d := d.updateNextKI k false) (by rw [hu]; exact hw)
        (by rw [hu]; exact hp) (by rw [hu]; exact hslot) h
      exact ⟨hw', by rw [hs', ← hu]⟩

theorem RemoveStrMove_wf (hw : d.toHashTable.WF (elmProbe H)) {k : S}
    (h : d.RemoveStrMove H k = .ok d') : d'.toHashTable.WF (elmProbe H) ∧ d'.scale = d.scale := by
  unfold RemoveStrMove at h
  cases hf : d.findKey H (.str k) with
  | none => rw [hf] at h; cases h
  | some r =>
    rw [hf] at h
    cases r with
    | miss p => cases h; exact ⟨hw, rfl⟩
    | hit p i =>
      obtain ⟨hp, hslot, -⟩ := hw.slot_of_hit hf
      exact erase_wf hw hp hslot h

theorem PopMove_wf (hw : d.toHashTable.WF (elmProbe H)) {r : Option α}
    (h : d.PopMove H = .ok (d', r)) : d'.toHashTable.WF (elmProbe H) ∧ d'.scale = d.scale := by
  unfold PopMove at h
  split at h
  · cases h; exact ⟨hw, rfl⟩
  · split at h
    · cases h; exact ⟨hw, rfl⟩
    · obtain ⟨d₁, h₁, hd⟩ := Except.bind_eq_ok.mp h
      cases hd
      exact RemoveStrMove_wf hw h₁
    · obtain ⟨d₁, h₁, hd⟩ := Except.bind_eq_ok.mp h
      cases hd
      exact RemoveIntMove_wf hw h₁

end Remove

/-! ## `Set*Move` と `AppendMove` -/

section Set

variable [DecidableEq S] {k : Key S} {v : α}

theorem SetMove_wf (hw : d.toHashTable.WF (elmProbe H)) (h : d.SetMove H o k v = .ok d')
    (hs : d'.scale < MaxScale) : d'.toHashTable.WF (elmProbe H) ∧ d'.scale = d.prepareScale := by
  unfold SetMove at h
  obtain ⟨p, hp, hu⟩ := Except.bind_eq_ok.mp h
  obtain ⟨hwp, hfull, hsp, -, -⟩ := prepareForInsert_wf hw hp
  obtain ⟨hsu, -⟩ := update_shape hu
  exact ⟨update_wf hwp (hsu ▸ hs) hfull hu, hsu.trans hsp⟩

theorem SetMoveSkipConflict_wf (hw : d.toHashTable.WF (elmProbe H))
    (h : d.SetMoveSkipConflict H o k v = .ok d') (hs : d'.scale < MaxScale) :
    d'.toHashTable.WF (elmProbe H) ∧ d'.scale = d.prepareScale := by
  unfold SetMoveSkipConflict at h
  obtain ⟨p, hp, hu⟩ := Except.bind_eq_ok.mp h
  obtain ⟨hwp, hfull, hsp, -, -⟩ := prepareForInsert_wf hw hp
  obtain ⟨hsu, -⟩ := updateSkipConflict_shape hu
  exact ⟨updateSkipConflict_wf hwp (hsu ▸ hs) hfull hu, hsu.trans hsp⟩

omit [DecidableEq S] in
/-- `AppendMove` は、`m_nextKI < 0` なら配列をそのまま返し、そうでなければ
`prepareForInsert` の後に `nextInsert` する。 -/
theorem AppendMove_cases {rs : List Raised} (h : d.AppendMove H o v = .ok (d', rs)) :
    (d.nextKI < 0 ∧ d' = d) ∨
      (¬d.nextKI < 0 ∧ ∃ p, d.prepareForInsert H o = .ok p ∧ p.nextInsert H v = .ok d') := by
  unfold AppendMove at h
  dsimp only at h
  split at h
  · next hneg =>
    cases h
    exact Or.inl ⟨hneg, rfl⟩
  · next hneg =>
    obtain ⟨p, hp, h₂⟩ := Except.bind_eq_ok.mp h
    obtain ⟨r, hr, hd⟩ := Except.bind_eq_ok.mp h₂
    cases hd
    exact Or.inr ⟨hneg, p, hp, hr⟩

omit [DecidableEq S] in
theorem AppendMove_wf (hw : d.toHashTable.WF (elmProbe H)) {rs : List Raised}
    (h : d.AppendMove H o v = .ok (d', rs)) (hs : d'.scale < MaxScale) :
    d'.toHashTable.WF (elmProbe H) := by
  rcases AppendMove_cases h with ⟨-, rfl⟩ | ⟨-, p, hp, hr⟩
  · exact hw
  · obtain ⟨hwp, hfull, -, -, -⟩ := prepareForInsert_wf hw hp
    obtain ⟨hsr, -⟩ := nextInsert_shape hr
    exact nextInsert_wf hwp (hsr ▸ hs) hfull hr

end Set

/-! ## `CopyReserve` と `Merge` -/

theorem CopyReserve_ok {n : Nat} (h : d.CopyReserve H n = .ok d') :
    ∃ table, reinsert (elmProbe H) (Mask (computeScaleFromSize n)) none 0
        ((d.elms.filterMap id).map some) initHash = .ok table ∧
      d' = ⟨⟨computeScaleFromSize n, d.size, (d.elms.filterMap id).map some, table⟩, d.nextKI⟩ := by
  unfold CopyReserve at h
  dsimp only at h
  obtain ⟨table, hr, hd⟩ := Except.bind_eq_ok.mp h
  cases hd
  exact ⟨table, hr, rfl⟩

/-- `CopyReserve` は tombstone を除いて写し、大きさ `expectedSize` の表に入れ直す。 -/
theorem CopyReserve_wf (hw : d.toHashTable.WF (elmProbe H)) {n : Nat} (hn : d.size ≤ n)
    (hs : computeScaleFromSize n < MaxScale) (h : d.CopyReserve H n = .ok d') :
    d'.toHashTable.WF (elmProbe H) ∧ d'.scale = computeScaleFromSize n ∧ d'.used = d.size ∧
      abs d' = abs d ∧ d'.nextKI = d.nextKI := by
  obtain ⟨k, hk⟩ := computeScaleFromSize_pow n
  obtain ⟨table, hr, rfl⟩ := CopyReserve_ok h
  have hcap : d.size ≤ Capacity (computeScaleFromSize n) :=
    le_trans hn (computeScaleFromSize_capacity hs)
  exact ⟨hw.of_reinsert_live hk hcap hr, rfl, hw.live_length, filterMap_id_map_some _, rfl⟩

theorem CopyReserve_exists (hw : d.toHashTable.WF (elmProbe H)) {n : Nat} (hn : d.size ≤ n)
    (hs : computeScaleFromSize n < MaxScale) : ∃ d', d.CopyReserve H n = .ok d' := by
  obtain ⟨k, hk⟩ := computeScaleFromSize_pow n
  have hex : ∃ table, reinsert (elmProbe H) (Mask (computeScaleFromSize n)) none 0
      ((d.elms.filterMap id).map some) initHash = .ok table :=
    reinsert_ok hk (by rw [hw.live_length]; exact le_trans hn (computeScaleFromSize_capacity hs))
  obtain ⟨table, hr⟩ := hex
  unfold CopyReserve
  dsimp only
  rw [hr]
  exact ⟨_, rfl⟩

section Merge

variable [DecidableEq S]

theorem mergeElem_shape {r r' : VanillaDict S α} {kv : Key S × α}
    (h : r.mergeElem H kv = .ok r') : r'.scale = r.scale ∧ r'.used ≤ r.used + 1 := by
  unfold mergeElem at h
  split at h
  · obtain ⟨hs, hu⟩ := nextInsert_shape h
    exact ⟨hs, le_of_eq hu⟩
  · exact update_shape h

theorem mergeElem_wf {r r' : VanillaDict S α} {kv : Key S × α} (hw : r.toHashTable.WF (elmProbe H))
    (hs : r.scale < MaxScale) (hfull : r.used < Capacity r.scale) (h : r.mergeElem H kv = .ok r') :
    r'.toHashTable.WF (elmProbe H) := by
  unfold mergeElem at h
  split at h
  · exact nextInsert_wf hw hs hfull h
  · exact update_wf hw hs hfull h

/-- `Merge` のループは `m_scale` を変えず、一歩に高々一つ要素を足す。 -/
theorem mergeFold_shape : ∀ (elems : List (Key S × α)) (r r' : VanillaDict S α),
    elems.foldlM (mergeElem H) r = .ok r' → r'.scale = r.scale ∧ r'.used ≤ r.used + elems.length
  | [], r, r', h => by
    cases h
    exact ⟨rfl, Nat.le_add_right _ _⟩
  | kv :: rest, r, r', h => by
    rw [List.foldlM_cons] at h
    obtain ⟨r₁, h₁, hrest⟩ := Except.bind_eq_ok.mp h
    obtain ⟨hs₁, hu₁⟩ := mergeElem_shape h₁
    obtain ⟨hs₂, hu₂⟩ := mergeFold_shape rest r₁ r' hrest
    refine ⟨hs₂.trans hs₁, ?_⟩
    rw [List.length_cons]
    omega

/-- 容量が残りの要素の分だけ空いていれば、`Merge` のループは索引を保つ。 -/
theorem mergeFold_wf : ∀ (elems : List (Key S × α)) (r r' : VanillaDict S α),
    r.toHashTable.WF (elmProbe H) → r.scale < MaxScale → r.used + elems.length ≤ Capacity r.scale →
      elems.foldlM (mergeElem H) r = .ok r' → r'.toHashTable.WF (elmProbe H)
  | [], r, r', hw, _, _, h => by
    cases h
    exact hw
  | kv :: rest, r, r', hw, hs, hcap, h => by
    rw [List.foldlM_cons] at h
    obtain ⟨r₁, h₁, hrest⟩ := Except.bind_eq_ok.mp h
    obtain ⟨hs₁, hu₁⟩ := mergeElem_shape h₁
    rw [List.length_cons] at hcap
    have hw₁ := mergeElem_wf hw hs (by omega) h₁
    exact mergeFold_wf rest r₁ r' hw₁ (by rw [hs₁]; exact hs) (by rw [hs₁]; omega) hrest

theorem Merge_shape {elems : List (Key S × α)} (h : d.Merge H elems = .ok d') :
    d'.scale = computeScaleFromSize (d.size + elems.length) := by
  unfold Merge at h
  obtain ⟨ret, hret, hfold⟩ := Except.bind_eq_ok.mp h
  obtain ⟨table, -, rfl⟩ := CopyReserve_ok hret
  exact (mergeFold_shape elems _ d' hfold).1

theorem Merge_wf (hw : d.toHashTable.WF (elmProbe H)) {elems : List (Key S × α)}
    (h : d.Merge H elems = .ok d') (hs : d'.scale < MaxScale) : d'.toHashTable.WF (elmProbe H) := by
  have hs' := Merge_shape h ▸ hs
  unfold Merge at h
  obtain ⟨ret, hret, hfold⟩ := Except.bind_eq_ok.mp h
  obtain ⟨hw₁, hs₁, hu₁, -, -⟩ := CopyReserve_wf hw (Nat.le_add_right _ _) hs' hret
  refine mergeFold_wf elems ret d' hw₁ (by rw [hs₁]; exact hs') ?_ hfold
  rw [hs₁, hu₁]
  exact computeScaleFromSize_capacity hs'

end Merge

/-! ## 作る -/

/-- 作ったばかりの空の配列の索引は正しい。 -/
theorem MakeReserveDict_wf (n : Nat) :
    (MakeReserveDict n : VanillaDict S α).toHashTable.WF (elmProbe H) := by
  obtain ⟨k, hk⟩ := computeScaleFromSize_pow n
  exact WF.init _ hk

section MakeDict

variable [DecidableEq S]

theorem makeDictLoop_shape : ∀ (kvs : List (Key S × α)) (d d' : VanillaDict S α),
    makeDictLoop H d kvs = .ok (some d') → d'.scale = d.scale ∧ d'.used ≤ d.used + kvs.length
  | [], d, d', h => by
    cases h
    exact ⟨rfl, Nat.le_add_right _ _⟩
  | (k, v) :: rest, d, d', h => by
    unfold makeDictLoop at h
    split at h
    · cases h
    · cases h
    · next p hf =>
      obtain ⟨hs, hu⟩ := makeDictLoop_shape rest _ d' h
      change d'.used ≤ (d.allocElm p (k, v)).used + rest.length at hu
      rw [used_allocElm] at hu
      refine ⟨hs, ?_⟩
      rw [List.length_cons]
      omega

theorem makeDictLoop_wf : ∀ (kvs : List (Key S × α)) (d d' : VanillaDict S α),
    d.toHashTable.WF (elmProbe H) → d.scale < MaxScale → d.used + kvs.length ≤ Capacity d.scale →
      makeDictLoop H d kvs = .ok (some d') → d'.toHashTable.WF (elmProbe H)
  | [], d, d', hw, _, _, h => by
    cases h
    exact hw
  | (k, v) :: rest, d, d', hw, hs, hcap, h => by
    rw [List.length_cons] at hcap
    unfold makeDictLoop at h
    split at h
    · cases h
    · cases h
    · next p hf =>
      have hw₁ := wf_alloc_of_findKey_miss hw hs (by omega) hf v
      refine makeDictLoop_wf rest { d with toHashTable := d.allocElm p (k, v) } d' hw₁ hs ?_ h
      change (d.allocElm p (k, v)).used + rest.length ≤ Capacity d.scale
      rw [used_allocElm]
      omega

/-- `MakeDict` が返した配列の索引は正しい（key の重なりで `nullptr` を返すときは何も作らない）。 -/
theorem MakeDict_wf {kvs : List (Key S × α)} (h : MakeDict H kvs = .ok (some d'))
    (hs : d'.scale < MaxScale) : d'.toHashTable.WF (elmProbe H) := by
  obtain ⟨k, hk⟩ := computeScaleFromSize_pow kvs.length
  unfold MakeDict at h
  have hs₀ := (makeDictLoop_shape kvs _ d' h).1
  rw [hs₀] at hs
  refine makeDictLoop_wf kvs _ d' (WF.init _ hk) hs ?_ h
  show 0 + kvs.length ≤ Capacity (computeScaleFromSize kvs.length)
  rw [Nat.zero_add]
  exact computeScaleFromSize_capacity hs

end MakeDict

theorem structLoop_shape : ∀ (kvs : List (S × α)) (d d' : VanillaDict S α),
    structLoop H d kvs = .ok d' → d'.scale = d.scale
  | [], d, d', h => by
    cases h
    rfl
  | (k, v) :: rest, d, d', h => by
    unfold structLoop at h
    split at h
    · cases h
    · next p hf => exact structLoop_shape rest { d with toHashTable := d.allocElm p (.str k, v) } d' h

theorem structLoop_wf : ∀ (kvs : List (S × α)) (d d' : VanillaDict S α),
    d.toHashTable.WF (elmProbe H) → d.scale < MaxScale → d.used + kvs.length ≤ Capacity d.scale →
      structLoop H d kvs = .ok d' → d'.toHashTable.WF (elmProbe H)
  | [], d, d', hw, _, _, h => by
    cases h
    exact hw
  | (k, v) :: rest, d, d', hw, hs, hcap, h => by
    rw [List.length_cons] at hcap
    unfold structLoop at h
    split at h
    · cases h
    · next p hf =>
      have hw₁ := wf_alloc_of_newInsert (k := .str k) hw hs (by omega) hf v
      refine structLoop_wf rest { d with toHashTable := d.allocElm p (.str k, v) } d' hw₁ hs ?_ h
      change (d.allocElm p (.str k, v)).used + rest.length ≤ Capacity d.scale
      rw [used_allocElm]
      omega

/-- `MakeStructDict` が返した配列の索引は正しい。key の重なりには触れない。 -/
theorem MakeStructDict_wf {keys : List S} {values : List α}
    (h : MakeStructDict H keys values = .ok d') (hs : d'.scale < MaxScale) :
    d'.toHashTable.WF (elmProbe H) := by
  obtain ⟨k, hk⟩ := computeScaleFromSize_pow keys.length
  unfold MakeStructDict at h
  have hs₀ := structLoop_shape _ _ d' h
  rw [hs₀] at hs
  refine structLoop_wf _ _ d' (WF.init _ hk) hs ?_ h
  show 0 + (keys.zip values.reverse).length ≤ Capacity (computeScaleFromSize keys.length)
  rw [Nat.zero_add, List.length_zip]
  exact le_trans (min_le_left _ _) (computeScaleFromSize_capacity hs)

end VanillaDict

end Hhvm
