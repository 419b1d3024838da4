import Hhvm.Array.VanillaKeyset
import Hhvm.Array.Properties.DictLookup
import Hhvm.Infra.Except

/-!
# `VanillaKeyset` の操作は索引を保つ

dict と同じ表現の不変量 `HashTable.WF` を keyset の各操作が保つこと。書き込みの単位
（`findImpl` が外れたマスへの追加、当たったマスの消去、`findForNewInsert` による作り直し）は
`HashTable` の補題を使い、要素に書く hash と探索の hash が同じマスから始まること
（`VanillaDict.probe_mod_hash`）を `m_scale < MaxScale` の下で与える。

最後に keyset を変える操作 `KeysetOp` と、作る関数から届く keyset（`Reachable`）を置き、
届く keyset が `WF` を満たすことを示す（`Reachable.wf`）。
-/

namespace Hhvm

open Infra HashTableCommon HashTable

namespace VanillaKeyset

variable {S : Type} [DecidableEq S] {H : Hasher S} {t t' : VanillaKeyset S}

omit [DecidableEq S] in
/-- 要素に書かれる hash と探索の hash は、`MaxScale` より小さい表で同じマスから始まる。 -/
theorem elmProbe_mod (hw : t.toHashTable.WF (elmProbe H)) (hs : t.scale < MaxScale) (k : Key S) :
    (elmProbe H k).toNat % numSlots t.scale = (k.hash H).toNat % numSlots t.scale := by
  obtain ⟨j, hj⟩ := hw.scale_pow
  exact VanillaDict.probe_mod_hash H hj hs k

/-! ## 足す -/

theorem insert_shape {k : Key S} (h : t.insert H k = .ok t') :
    t'.scale = t.scale ∧ t'.used ≤ t.used + 1 := by
  unfold insert at h
  split at h
  · cases h
  · cases h
    exact ⟨rfl, Nat.le_succ _⟩
  · cases h
    exact ⟨rfl, by simp [used]⟩

theorem insert_wf (hw : t.toHashTable.WF (elmProbe H)) (hs : t.scale < MaxScale)
    (hfull : t.used < Capacity t.scale) {k : Key S} (h : t.insert H k = .ok t') :
    t'.toHashTable.WF (elmProbe H) := by
  unfold insert at h
  split at h
  · cases h
  · cases h
    exact hw
  · next p hf =>
    cases h
    exact hw.allocElm_of_miss hfull hf (elmProbe_mod hw hs k)

/-! ## 表を作り直す -/

omit [DecidableEq S] in
theorem grow_ok (h : t.grow H = .ok t') :
    ∃ table, reinsert (elmProbe H) (Mask (t.scale * 2)) none 0 t.elms initHash = .ok table ∧
      t' = ⟨{ t.toHashTable with scale := t.scale * 2, hashTab := table }⟩ := by
  unfold grow at h
  obtain ⟨table, hr, ht⟩ := Except.bind_eq_ok.mp h
  cases ht
  exact ⟨table, hr, rfl⟩

omit [DecidableEq S] in
theorem grow_wf (hw : t.toHashTable.WF (elmProbe H)) (hcap : t.used ≤ Capacity (t.scale * 2))
    (h : t.grow H = .ok t') :
    t'.toHashTable.WF (elmProbe H) ∧ t'.scale = t.scale * 2 ∧ t'.elms = t.elms := by
  obtain ⟨k, hk⟩ := hw.scale_pow
  obtain ⟨table, hr, rfl⟩ := grow_ok h
  have hk' : t.scale * 2 = 2 ^ (k + 1) := by rw [hk, Nat.pow_succ]
  exact ⟨hw.of_reinsert_elms hk' hcap hr, rfl, rfl⟩

omit [DecidableEq S] in
/-- `prepareForInsert` の後には空きがある。 -/
theorem prepareForInsert_wf (hw : t.toHashTable.WF (elmProbe H)) {p : VanillaKeyset S}
    (h : t.prepareForInsert H = .ok p) :
    p.toHashTable.WF (elmProbe H) ∧ p.used < Capacity p.scale := by
  unfold prepareForInsert at h
  split at h
  · next hfull =>
    -- 満杯なら `m_used = 3 * m_scale < 6 * m_scale`
    have hu := used_eq_of_isFull hfull
    obtain ⟨k, hk⟩ := hw.scale_pow
    have hpos : 0 < t.scale := by rw [hk]; exact Nat.two_pow_pos k
    obtain ⟨hw', hs', he⟩ := grow_wf hw (by rw [hu, Capacity, Capacity]; omega) h
    refine ⟨hw', ?_⟩
    show p.elms.length < Capacity p.scale
    rw [he, hs']
    show t.used < _
    rw [hu, Capacity, Capacity]
    omega
  · next hfull =>
    cases h
    exact ⟨hw, lt_of_le_of_ne hw.used_le (used_ne_of_not_isFull hfull)⟩

omit [DecidableEq S] in
theorem compact_ok (h : t.compact H = .ok t') :
    ∃ table, reinsert (elmProbe H) (Mask t.scale) none 0 ((t.elms.filterMap id).map some)
        initHash = .ok table ∧
      t' = ⟨{ t.toHashTable with elms := (t.elms.filterMap id).map some, hashTab := table }⟩ := by
  unfold compact at h
  dsimp only at h
  obtain ⟨table, hr, ht⟩ := Except.bind_eq_ok.mp h
  cases ht
  exact ⟨table, hr, rfl⟩

omit [DecidableEq S] in
/-- `compact` は生きている要素を前に詰め、その位置で表を作り直す。 -/
theorem compact_wf (hw : t.toHashTable.WF (elmProbe H)) (h : t.compact H = .ok t') :
    t'.toHashTable.WF (elmProbe H) ∧ t'.scale = t.scale := by
  obtain ⟨k, hk⟩ := hw.scale_pow
  obtain ⟨table, hr, rfl⟩ := compact_ok h
  exact ⟨hw.of_reinsert_live hk hw.size_le_capacity hr, rfl⟩

/-! ## 消す -/

omit [DecidableEq S] in
/-- `erase` は当たったマスとその要素を消し、半分以上が tombstone なら詰め直す。 -/
theorem erase_wf (hw : t.toHashTable.WF (elmProbe H)) {p i : Nat} (hp : p < numSlots t.scale)
    (hslot : t.hashTab p = .pos i) (h : t.erase H p i = .ok t') :
    t'.toHashTable.WF (elmProbe H) ∧ t'.scale = t.scale := by
  have hw₁ := hw.eraseNoCompact hp hslot
  unfold erase at h
  dsimp only at h
  split at h
  · exact compact_wf (t := ⟨t.eraseNoCompact p i⟩) hw₁ h
  · cases h
    exact ⟨hw₁, rfl⟩

theorem RemoveImpl_wf (hw : t.toHashTable.WF (elmProbe H)) {k : Key S}
    (h : t.RemoveImpl H k = .ok t') : t'.toHashTable.WF (elmProbe H) ∧ t'.scale = t.scale := by
  unfold RemoveImpl at h
  split at h
  · cases h
  · cases h
    exact ⟨hw, rfl⟩
  · next p i hf =>
    obtain ⟨hp, hslot, -⟩ := hw.slot_of_hit hf
    exact erase_wf hw hp hslot h

/-- `PopMove` は最後の要素を、書かれた hash で見つけたマスから消す。 -/
theorem PopMove_wf (hw : t.toHashTable.WF (elmProbe H)) {r : Option (Key S)}
    (h : t.PopMove H = .ok (t', r)) : t'.toHashTable.WF (elmProbe H) ∧ t'.scale = t.scale := by
  unfold PopMove at h
  split at h
  · cases h
    exact ⟨hw, rfl⟩
  · split at h
    · cases h
      exact ⟨hw, rfl⟩
    · split at h
      · cases h
      · cases h
      · next p i hf =>
        obtain ⟨t₁, h₁, ht⟩ := Except.bind_eq_ok.mp h
        cases ht
        obtain ⟨hp, hslot, -⟩ := hw.slot_of_hit hf
        exact erase_wf hw hp hslot h₁

/-- `AppendImpl`（`AppendMove`、`AddToSet`）：`prepareForInsert` が空きを作り、`insert` が足す。 -/
theorem AppendImpl_wf (hw : t.toHashTable.WF (elmProbe H)) {k : Key S}
    (h : t.AppendImpl H k = .ok t') (hs : t'.scale < MaxScale) : t'.toHashTable.WF (elmProbe H) := by
  unfold AppendImpl at h
  obtain ⟨p, hp, hi⟩ := Except.bind_eq_ok.mp h
  obtain ⟨hwp, hfull⟩ := prepareForInsert_wf hw hp
  have hsp : p.scale < MaxScale := (insert_shape hi).1 ▸ hs
  exact insert_wf hwp hsp hfull hi

/-! ## 作る -/

omit [DecidableEq S] in
theorem MakeReserveSet_wf (n : Nat) : (MakeReserveSet n : VanillaKeyset S).toHashTable.WF (elmProbe H) := by
  obtain ⟨k, hk⟩ := computeScaleFromSize_pow n
  exact WF.init _ hk

theorem insertFold_scale : ∀ (vals : List (Key S)) (t t' : VanillaKeyset S),
    vals.foldlM (insert H) t = .ok t' → t'.scale = t.scale
  | [], t, t', h => by
    cases h
    rfl
  | k :: rest, t, t', h => by
    rw [List.foldlM_cons] at h
    obtain ⟨t₁, h₁, hrest⟩ := Except.bind_eq_ok.mp h
    rw [insertFold_scale rest t₁ t' hrest, (insert_shape h₁).1]

/-- `MakeSet` のループ：`insert` を重ねても容量を越えない。 -/
theorem insertFold_wf : ∀ (vals : List (Key S)) (t t' : VanillaKeyset S),
    t.toHashTable.WF (elmProbe H) → t.scale < MaxScale → t.used + vals.length ≤ Capacity t.scale →
      vals.foldlM (insert H) t = .ok t' → t'.toHashTable.WF (elmProbe H)
  | [], t, t', hw, _, _, h => by
    cases h
    exact hw
  | k :: rest, t, t', hw, hs, hcap, h => by
    rw [List.foldlM_cons] at h
    obtain ⟨t₁, h₁, hrest⟩ := Except.bind_eq_ok.mp h
    rw [List.length_cons] at hcap
    obtain ⟨hs₁, hu₁⟩ := insert_shape h₁
    exact insertFold_wf rest t₁ t' (insert_wf hw hs (by omega) h₁) (hs₁ ▸ hs)
      (by rw [hs₁]; omega) hrest

theorem MakeSet_wf {values : List (Key S)} (h : MakeSet H values = .ok t')
    (hs : t'.scale < MaxScale) : t'.toHashTable.WF (elmProbe H) := by
  unfold MakeSet at h
  have hs₀ : computeScaleFromSize values.length < MaxScale := by
    rw [insertFold_scale _ _ _ h] at hs
    exact hs
  refine insertFold_wf _ _ t' (MakeReserveSet_wf _) hs₀ ?_ h
  show 0 + values.reverse.length ≤ _
  rw [Nat.zero_add, List.length_reverse]
  exact computeScaleFromSize_capacity hs₀

/-! ## 届く keyset -/

/-- keyset を変える操作。`AddToSet` と `AppendMove` はどちらも `AppendImpl` である。 -/
inductive KeysetOp (S : Type) where
  | AppendMove (k : Key S)
  | AddToSet (k : Key S)
  | RemoveIntMove (k : Int64)
  | RemoveStrMove (k : S)
  | PopMove
  | Copy
  | MakeUncounted
  | prepareForInsert
  | compact

variable (H) in
/-- 操作を `VanillaKeyset` の関数で走らせる。`PopMove` の値は捨てる。 -/
def run (t : VanillaKeyset S) : KeysetOp S → Except Fault (VanillaKeyset S)
  | .AppendMove k => t.AppendMove H k
  | .AddToSet k => t.AddToSet H k
  | .RemoveIntMove k => t.RemoveIntMove H k
  | .RemoveStrMove k => t.RemoveStrMove H k
  | .PopMove => Prod.fst <$> t.PopMove H
  | .Copy => .ok t.Copy
  | .MakeUncounted => .ok t.MakeUncounted
  | .prepareForInsert => t.prepareForInsert H
  | .compact => t.compact H

/-- 一歩：結果の表が `2 ^ 31` マス以下なら索引は保たれる。 -/
theorem run_wf (hw : t.toHashTable.WF (elmProbe H)) {op : KeysetOp S} (h : t.run H op = .ok t')
    (hs : t'.scale < MaxScale) : t'.toHashTable.WF (elmProbe H) := by
  cases op with
  | AppendMove k => exact AppendImpl_wf hw h hs
  | AddToSet k => exact AppendImpl_wf hw h hs
  | RemoveIntMove k => exact (RemoveImpl_wf hw h).1
  | RemoveStrMove k => exact (RemoveImpl_wf hw h).1
  | PopMove =>
    obtain ⟨⟨t₁, r⟩, h₁, rfl⟩ := Except.map_eq_ok.mp h
    exact (PopMove_wf hw h₁).1
  | Copy =>
    cases h
    exact hw
  | MakeUncounted =>
    cases h
    exact hw
  | prepareForInsert => exact (prepareForInsert_wf hw h).1
  | compact => exact (compact_wf hw h).1

/-- 作る関数から操作を重ねて届く keyset。表は `2 ^ 31` マス以下にとどまる。 -/
inductive Reachable (H : Hasher S) : VanillaKeyset S → Prop where
  | ofReserve {n : Nat} (hs : computeScaleFromSize n < MaxScale) : Reachable H (MakeReserveSet n)
  | ofSet {values : List (Key S)} {t : VanillaKeyset S} (h : MakeSet H values = .ok t)
      (hs : t.scale < MaxScale) : Reachable H t
  | step {t t' : VanillaKeyset S} {op : KeysetOp S} (hr : Reachable H t) (h : t.run H op = .ok t')
      (hs : t'.scale < MaxScale) : Reachable H t'

/-- 届く keyset は索引の不変量を満たす。 -/
theorem Reachable.wf (hr : Reachable H t) : t.toHashTable.WF (elmProbe H) := by
  induction hr with
  | ofReserve _ => exact MakeReserveSet_wf _
  | ofSet h hs => exact MakeSet_wf h hs
  | step _ h hs ih => exact run_wf ih h hs

end VanillaKeyset

end Hhvm
