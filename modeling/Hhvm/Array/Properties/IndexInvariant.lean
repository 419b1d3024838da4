import Hhvm.Array.Properties.DictRefinement
import Hhvm.Array.Properties.KeysetIndex

/-!
# `VanillaDict` と `VanillaKeyset` の索引の不変量

`HashTable<ArrayType, Elm>` の表現の不変量 `HashTable.WF` は、dict と keyset のどちらでも、
作る関数から操作を重ねて届く配列で成り立つ。dict については key の重なりに触れないので、
`MakeDict` の結果をすべて、`compact(true)`（`Renumber`）と `MakeUncounted` も含めて扱う。

前提は表が `2 ^ 31` マス以下にとどまること（`scale < MaxScale`）である。`MaxScale` では
`uint32_t` の `HashSize(m_scale)` が 0 に巡り、確保される hash 表にはマスがない
（`MakeReserveSet_no_empty_slot`）。
-/

namespace Hhvm

open Infra Infra.Probe HashTableCommon HashTable

namespace VanillaDict

variable {S α : Type} [DecidableEq S] {H : Hasher S} {o : Options} {d d' : VanillaDict S α}

/-- 一歩：結果の表が `2 ^ 31` マス以下なら、どの操作も索引を保つ。 -/
theorem run_wf (hw : d.toHashTable.WF (elmProbe H)) {op : DictOp S α} (hp : d.Pre op)
    (h : d.run H o op = .ok d') (hs : d'.scale < MaxScale) : d'.toHashTable.WF (elmProbe H) := by
  cases op with
  | SetIntMove k v => exact (SetMove_wf hw h hs).1
  | SetStrMove k v => exact (SetMove_wf hw h hs).1
  | SetIntInPlace k v => exact (SetMove_wf hw h hs).1
  | SetStrInPlace k v => exact (SetMove_wf hw h hs).1
  | SetIntMoveSkipConflict k v => exact (SetMoveSkipConflict_wf hw h hs).1
  | SetStrMoveSkipConflict k v => exact (SetMoveSkipConflict_wf hw h hs).1
  | RemoveIntMove k => exact (RemoveIntMove_wf hw h).1
  | RemoveStrMove k => exact (RemoveStrMove_wf hw h).1
  | AppendMove v =>
    obtain ⟨⟨d₁, rs⟩, h₁, rfl⟩ := Except.map_eq_ok.mp h
    exact AppendMove_wf hw h₁ hs
  | PopMove =>
    obtain ⟨⟨d₁, r⟩, h₁, rfl⟩ := Except.map_eq_ok.mp h
    exact (PopMove_wf hw h₁).1
  | Merge elems => exact Merge_wf hw h hs
  | Copy =>
    cases h
    exact hw
  | Grow s =>
    obtain ⟨⟨k, hk⟩, hcap⟩ := hp
    exact (Grow_wf hw hk hcap h).1
  | prepareForInsert => exact (prepareForInsert_wf hw h).1
  | compact => exact (compact_wf hw false h).1
  | CopyReserve n =>
    -- `CopyReserve` の表の大きさは `computeScaleFromSize(expectedSize)`
    have hs' : computeScaleFromSize n < MaxScale := by
      obtain ⟨table, -, rfl⟩ := CopyReserve_ok h
      exact hs
    exact (CopyReserve_wf hw hp hs' h).1

/-- 作る関数から操作を重ねて届く dict。表は `2 ^ 31` マス以下にとどまる。key の重なりは問わない。 -/
inductive IndexReachable (H : Hasher S) (o : Options) : VanillaDict S α → Prop where
  | ofReserve {n : Nat} (hs : computeScaleFromSize n < MaxScale) :
      IndexReachable H o (MakeReserveDict n)
  | ofNatural {vals : List α} {d : VanillaDict S α}
      (hs : computeScaleFromSize vals.length < MaxScale) (h : MakeDictNatural H vals = .ok d) :
      IndexReachable H o d
  | ofStruct {ks : List S} {values : List α} {d : VanillaDict S α}
      (h : MakeStructDict H ks values = .ok d) (hs : d.scale < MaxScale) : IndexReachable H o d
  | ofDict {kvs : List (Key S × α)} {d : VanillaDict S α} (h : MakeDict H kvs = .ok (some d))
      (hs : d.scale < MaxScale) : IndexReachable H o d
  | step {d d' : VanillaDict S α} {op : DictOp S α} (hr : IndexReachable H o d) (hp : d.Pre op)
      (h : d.run H o op = .ok d') (hs : d'.scale < MaxScale) : IndexReachable H o d'
  | renumber {d d' : VanillaDict S α} (hr : IndexReachable H o d) (h : d.compact H true = .ok d') :
      IndexReachable H o d'
  | uncounted {d : VanillaDict S α} (hr : IndexReachable H o d) : IndexReachable H o d.MakeUncounted

/-- 届く dict は索引の不変量を満たす。 -/
theorem IndexReachable.wf (hr : IndexReachable H o d) : d.toHashTable.WF (elmProbe H) := by
  induction hr with
  | ofReserve _ => exact MakeReserveDict_wf _
  | ofNatural hs h =>
    -- `MakeDictNatural` の key は重ならず、`findForInsertUpdate` は必ず外れる
    obtain ⟨d₀, h₀, hv, -⟩ := Valid.MakeDictNatural (H := H) hs
    rw [h] at h₀
    cases h₀
    exact hv.wf
  | ofStruct h hs => exact MakeStructDict_wf h hs
  | ofDict h hs => exact MakeDict_wf h hs
  | step _ hp h hs ih => exact run_wf ih hp h hs
  | renumber _ h ih => exact (compact_wf ih true h).1
  | uncounted _ ih => exact ih

end VanillaDict

variable {S α : Type} [DecidableEq S] {H : Hasher S} {o : Options}

/-- **索引の不変量。** 表が `2 ^ 31` マス以下にとどまるかぎり、届く `VanillaDict` と
`VanillaKeyset` は `HashTable.WF` を満たす。 -/
theorem hashIndex_invariant :
    (∀ d : VanillaDict S α, VanillaDict.IndexReachable H o d →
      d.toHashTable.WF (VanillaDict.elmProbe H)) ∧
    ∀ t : VanillaKeyset S, VanillaKeyset.Reachable H t →
      t.toHashTable.WF (VanillaKeyset.elmProbe H) :=
  ⟨fun _ hr => hr.wf, fun _ hr => hr.wf⟩

namespace VanillaKeyset

variable {S : Type}

/-- **`MaxScale` の keyset には `Empty` のマスがない。** `n` が `Capacity(2 ^ 29)` を越えると表は
`MaxScale` になり、`uint32_t` の `HashSize(m_scale)` は 0 である。確保される hash 表はマスを持たず、
不変量の「`Empty` のマスが残る」は成り立たない。`MakeReserveSet` の最後の
`assertx(ad->checkInvariants())` は `HashSize(m_scale) == nextPowTwo(capacity())` で落ちる。 -/
theorem MakeReserveSet_no_empty_slot (n : Nat) (h : Capacity (2 ^ 29) < n) :
    (MakeReserveSet n : VanillaKeyset S).scale = MaxScale ∧
      HashSize (MakeReserveSet n : VanillaKeyset S).scale = 0 ∧
      (¬∃ j < HashSize (MakeReserveSet n : VanillaKeyset S).scale,
        (MakeReserveSet n : VanillaKeyset S).hashTab j = .empty) ∧
      (MakeReserveSet n : VanillaKeyset S).checkInvariants = false := by
  have hs : (MakeReserveSet n : VanillaKeyset S).scale = MaxScale := computeScaleFromSize_of_lt h
  have hz : HashSize (MakeReserveSet n : VanillaKeyset S).scale = 0 := hs ▸ HashSize_MaxScale
  refine ⟨hs, hz, ?_, checkInvariants_of_scale_eq_MaxScale hs⟩
  rintro ⟨j, hj, -⟩
  omega

theorem MakeReserveSet_no_empty_slot_MaxSize :
    Capacity (2 ^ 29) < MaxSize ∧
      (MakeReserveSet MaxSize : VanillaKeyset String).scale = MaxScale ∧
      HashSize (MakeReserveSet MaxSize : VanillaKeyset String).scale = 0 ∧
      (¬∃ j < HashSize (MakeReserveSet MaxSize : VanillaKeyset String).scale,
        (MakeReserveSet MaxSize : VanillaKeyset String).hashTab j = .empty) ∧
      (MakeReserveSet MaxSize : VanillaKeyset String).checkInvariants = false :=
  ⟨by decide, MakeReserveSet_no_empty_slot MaxSize (by decide)⟩

end VanillaKeyset

end Hhvm
