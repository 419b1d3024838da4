import Hhvm.Array.Properties.MonotypeIndex
import Hhvm.Array.Properties.DictRefinement

/-!
# bespoke の dict と `VanillaDict` の食い違い

bespoke の layout は、同じ操作に対して vanilla の dict と同じ結果を返すように作られている。
ここでは二つの点でそれが成り立たないことを示す。

* `EmptyMonotypeDict::ElemStr` は `throwOnMissing` を見ずに `throwOOBArrayKeyException` を投げる。
  vanilla の dict（`ElemUDictPre`）と `EmptyMonotypeDict::ElemInt` は、`throwOnMissing` が偽なら
  `immutable_null_base` を返す（`ElemStr_empty_eq_vanilla_iff`、`ElemInt_empty_eq_vanilla`）。
* `MonotypeDict::appendImpl` は `m_nextKI` を持たず、生きている int key の最大に 1 を足した key に
  足す。これは vanilla の `AppendMove` が HAC の notice で比べる `maxIntKey + 1` に等しい
  （`appendImpl_key`）。消した int key より後ろに足す vanilla とは、`m_nextKI` が
  `maxIntKey + 1` と違うときに食い違う（`appendKey_eq_iff`）。
-/

namespace Hhvm

namespace Bespoke

open Infra.OrderedMap HashTableCommon HashTable VanillaDict

/-! ## 次の int key -/

/-- `appendImpl` のループの一歩は、`maxIntKey` のループの一歩に 1 を足したもの。
`m = INT64_MAX` ならどちらも `INT64_MIN` のまま動かない。 -/
theorem nextKI_step {m k : Int64} (hm : -1 ≤ m) :
    (if k ≥ m + 1 ∧ m + 1 ≥ 0 then k + 1 else m + 1) = max m k + 1 := by
  rw [show max m k = if m ≤ k then k else m from rfl]
  have hmaxv : (0x7fffffffffffffff : Int64).toInt = 2 ^ 63 - 1 := by decide
  by_cases hmax : m = 0x7fffffffffffffff
  · -- `m + 1` は `INT64_MIN` に回る。`k ≤ INT64_MAX` なので `max` は `m` のまま
    subst hmax
    have hneg : ¬((0x7fffffffffffffff : Int64) + 1 ≥ 0) := by decide
    rw [if_neg fun h => hneg h.2]
    by_cases hk : (0x7fffffffffffffff : Int64) ≤ k
    · have hle : k ≤ 0x7fffffffffffffff := by
        rw [Int64.le_iff_toInt_le]
        have := k.toInt_lt
        omega
      rw [if_pos hk, Int64.le_antisymm hle hk]
    · rw [if_neg hk]
  · have hlt := Int64.lt_iff_toInt_lt.mp (int64_lt_max hmax)
    have hm1 : (m + 1).toInt = m.toInt + 1 := int64_toInt_add_one (by omega)
    have hm0 : -1 ≤ m.toInt := by simpa using Int64.le_iff_toInt_le.mp hm
    have hpos : m + 1 ≥ 0 := by
      rw [ge_iff_le, Int64.le_iff_toInt_le, hm1]
      simp only [Int64.toInt_zero]
      omega
    by_cases hkm : m.toInt < k.toInt
    · -- `k > m`：どちらも `k + 1`
      have hc : k ≥ m + 1 := by
        rw [ge_iff_le, Int64.le_iff_toInt_le, hm1]
        omega
      rw [if_pos ⟨hc, hpos⟩, if_pos (Int64.le_iff_toInt_le.mpr (by omega))]
    · -- `k ≤ m`：どちらも `m + 1`（`m ≤ k` なら `k = m`）
      have hc : ¬k ≥ m + 1 := by
        rw [ge_iff_le, Int64.le_iff_toInt_le, hm1]
        omega
      rw [if_neg fun h => hc h.1]
      by_cases hmk : m ≤ k
      · have heq : k = m :=
          Int64.toInt_inj.mp (by have := Int64.le_iff_toInt_le.mp hmk; omega)
        rw [if_pos hmk, heq]
      · rw [if_neg hmk]

variable {S α T : Type} (H : Hasher S)

/-- `appendImpl` のループは、同じ key の列の `maxIntKey` に 1 を足したものを返す。
帰納法は列についてで、`nextKI = max + 1` と `-1 ≤ max` を運ぶ。 -/
theorem nextKILoop_eq_maxIntKey :
    ∀ (l : List (Nat × Int64 × α)) (m : Int64), -1 ≤ m →
      MonotypeDict.nextKILoop (intKeys H) l (m + 1) =
        maxIntKey (l.map fun e => some ((Key.int e.2.1 : Key S), e.2.2)) m + 1
  | [], _, _ => rfl
  | (_, k, _) :: rest, m, hm => by
    have hm' : -1 ≤ max m k := by
      rw [show max m k = if m ≤ k then k else m from rfl]
      split
      · exact Int64.le_trans hm ‹m ≤ k›
      · exact hm
    show MonotypeDict.nextKILoop (intKeys H) rest (if k ≥ m + 1 ∧ m + 1 ≥ 0 then k + 1 else m + 1) =
      maxIntKey (rest.map fun e => some ((Key.int e.2.1 : Key S), e.2.2)) (max m k) + 1
    rw [nextKI_step hm]
    exact nextKILoop_eq_maxIntKey rest (max m k) hm'

/-- `maxIntKey` は tombstone を飛ばすので、生きている要素だけの列で求めても同じ。 -/
theorem maxIntKey_filterMap :
    ∀ (elms : List (Option (Key S × α))) (m : Int64),
      maxIntKey elms m = maxIntKey ((elms.filterMap id).map some) m
  | [], _ => rfl
  | none :: rest, m => maxIntKey_filterMap rest m
  | some (.int _, _) :: rest, _ => maxIntKey_filterMap rest _
  | some (.str _, _) :: rest, m => maxIntKey_filterMap rest m

/-- `MonotypeDict<int64_t>::appendImpl` が足す key は、走査で見える列の `maxIntKey + 1`
（vanilla の `AppendMove` が HAC の notice で `m_nextKI` と比べる値）である。 -/
theorem appendImpl_key (mad : MonotypeDict Int64 α T) :
    MonotypeDict.nextKILoop (intKeys H) mad.liveElms 0 =
      maxIntKey ((mad.abs (intKeys H)).map some) (-1) + 1 := by
  have h := nextKILoop_eq_maxIntKey H mad.liveElms (-1) (Int64.le_refl _)
  rw [show (-1 : Int64) + 1 = 0 by decide] at h
  rw [h, MonotypeDict.abs_eq_liveElms, List.map_map]
  rfl

/-- 同じ列を見せる `MonotypeDict<int64_t>` と `VanillaDict` で append の key が一致するのは、
vanilla の `m_nextKI` が `maxIntKey + 1` に等しいとき、すなわち vanilla が HAC の notice を
出さないときに限る。 -/
theorem appendKey_eq_iff (mad : MonotypeDict Int64 α T) (d : VanillaDict S α)
    (h : mad.abs (intKeys H) = VanillaDict.abs d) :
    MonotypeDict.nextKILoop (intKeys H) mad.liveElms 0 = d.nextKI ↔
      maxIntKey d.elms (-1) + 1 = d.nextKI := by
  rw [appendImpl_key, h, VanillaDict.abs, ← maxIntKey_filterMap]

/-! ## `Elem` -/

variable [DecidableEq S] {d : VanillaDict S α}

/-- vanilla の dict に無い key の `Elem` は、D なら投げ、U なら `immutable_null_base`。 -/
theorem ElemDictPre_of_not_mem (hv : Valid H d) {k : Key S} (hk : k ∉ keys (VanillaDict.abs d))
    (t : Bool) :
    MonoDict.ElemDictPre H d k t = .ok (if t then .throwOOB k else .nullBase) := by
  obtain ⟨_, -, -, -, hf⟩ := hv.findKey_miss hk
  have hl : d.LvalSilent H k = .ok none := by rw [LvalSilent, hf]
  rw [MonoDict.ElemDictPre, hl]
  rfl

/-- 空の dict では、`EmptyMonotypeDict::ElemInt` は vanilla と同じ結果を返す。 -/
theorem ElemInt_empty_eq_vanilla (hv : Valid H d) (he : VanillaDict.abs d = []) (k : Int64)
    (t : Bool) :
    (MonoDict.empty : MonoDict S α T).ElemInt H k t =
      (MonoDict.vanilla d : MonoDict S α T).ElemInt H k t := by
  have hk : Key.int k ∉ keys (VanillaDict.abs d) := by simp [he]
  rw [MonoDict.ElemInt, MonoDict.ElemInt, ElemDictPre_of_not_mem H hv hk]

/-- 空の dict では、`EmptyMonotypeDict::ElemStr` が vanilla と同じ結果を返すのは
`throwOnMissing` のときだけである。 -/
theorem ElemStr_empty_eq_vanilla_iff (hv : Valid H d) (he : VanillaDict.abs d = []) (k : S)
    (t : Bool) :
    (MonoDict.empty : MonoDict S α T).ElemStr H k t =
      (MonoDict.vanilla d : MonoDict S α T).ElemStr H k t ↔ t = true := by
  have hk : Key.str k ∉ keys (VanillaDict.abs d) := by simp [he]
  rw [MonoDict.ElemStr, MonoDict.ElemStr, ElemDictPre_of_not_mem H hv hk]
  cases t <;> simp

/-! ## 食い違う入力 -/

/-- 空の dict を `EmptyMonotypeDict` で持つか `VanillaDict` で持つかで、観測できる結果が変わる。
`unset($d[k][...])` が使う U の `ElemStr` は、`EmptyMonotypeDict` では
`throwOOBArrayKeyException` を投げ、vanilla では `immutable_null_base` を返す。
`$d[5] = 10; unset($d[5]); $d[] = 11;` では、`EmptyMonotypeDict` から始めた配列は
`MonotypeDict<int64_t>` になって key 0 に足し、vanilla は `m_nextKI = 6` に足す。 -/
theorem EmptyMonotypeDict_diverges_from_vanilla :
    (∀ k : String,
      (MonoDict.empty : MonoDict String Nat Unit).ElemStr stringHasher k false =
          .ok (.throwOOB (.str k)) ∧
        (MonoDict.vanilla (MakeReserveDict 0) : MonoDict String Nat Unit).ElemStr stringHasher k
          false = .ok .nullBase) ∧
    ((((MonoDict.empty : MonoDict String Nat Unit).SetIntMove stringHasher ⟨0, false⟩
        (fun _ => ()) 5 10 >>= fun d => d.RemoveIntMove stringHasher 5) >>= fun d =>
        d.AppendMove stringHasher ⟨0, false⟩ (fun _ => ()) 11).map fun r => r.1.abs stringHasher) =
      .ok [(.int 0, 11)] ∧
    ((((MonoDict.vanilla (MakeReserveDict 0) : MonoDict String Nat Unit).SetIntMove stringHasher
        ⟨0, false⟩ (fun _ => ()) 5 10 >>= fun d => d.RemoveIntMove stringHasher 5) >>= fun d =>
        d.AppendMove stringHasher ⟨0, false⟩ (fun _ => ()) 11).map fun r => r.1.abs stringHasher) =
      .ok [(.int 6, 11)] := by
  have hv := Valid.MakeReserveDict (S := String) (α := Nat) (H := stringHasher) (n := 0) (by decide)
  refine ⟨fun k => ⟨rfl, ?_⟩, by decide, by decide⟩
  have hk : Key.str k ∉ keys (VanillaDict.abs (MakeReserveDict 0 : VanillaDict String Nat)) := by
    rw [hv.2]
    simp
  exact ElemDictPre_of_not_mem stringHasher hv.1 hk false

end Bespoke

end Hhvm
