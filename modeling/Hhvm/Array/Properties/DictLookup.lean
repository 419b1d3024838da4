import Hhvm.Array.VanillaDict
import Hhvm.Array.Properties.Rehash
import Hhvm.Array.Properties.LiveMap

/-!
# `VanillaDict` の探索

抽象の状態 `abs`（生きている要素を位置の順に並べた key と値の組の列）と、
表現の不変量 `Valid` を定める。`Valid` な dict では、探索（`NvGetInt`、`NvGetStr`、
`ExistsInt`、`ExistsStr`）は `abs` の上の `get?` と同じ答えを返す。

`Valid` は hash 表が `2 ^ 31` マス以下（`m_scale < MaxScale`）であることを含む。
int key の要素に書かれる hash には `STRHASH_MSB` が立つが、探索は立てない hash で始まる。
二つが同じマスから探索を始めるのは、この bit が mask の外にあるときだけである
（`probe_mod_hash`）。
-/

namespace Hhvm

open Infra Infra.Probe Infra.OrderedMap HashTableCommon HashTable

namespace VanillaDict

variable {S α : Type} [DecidableEq S] (H : Hasher S)

/-- 抽象の状態：生きている要素を位置の順に並べたもの。 -/
def abs (d : VanillaDict S α) : List (Key S × α) := d.elms.filterMap id

/-- **`VanillaDict` の表現の不変量。** -/
structure Valid (d : VanillaDict S α) : Prop where
  /-- `HashTable` の索引の不変量。 -/
  wf : d.toHashTable.WF (elmProbe H)
  /-- 生きている要素の key は互いに異なる。 -/
  keys_nodup : (keys (abs d)).Nodup
  /-- hash 表は `2 ^ 31` マス以下。 -/
  scale_lt : d.scale < MaxScale

/-! ## hash -/

theorem MaxScale_eq : MaxScale = 2 ^ 30 := by decide

omit [DecidableEq S] in
/-- hash 表が `2 ^ 31` マス以下なら、要素に書かれた hash と探索に使う hash は同じマスから始まる。 -/
theorem probe_mod_hash {scale j : Nat} (hj : scale = 2 ^ j) (hs : scale < MaxScale) (k : Key S) :
    (k.probe H).toNat % numSlots scale = (k.hash H).toNat % numSlots scale := by
  cases k with
  | int k =>
    have hN : numSlots scale = 2 ^ (j + 2) := numSlots_eq_pow hj
    have hj30 : j < 30 := by
      rw [hj, MaxScale_eq] at hs
      exact (Nat.pow_lt_pow_iff_right (by decide)).mp hs
    rw [Key.probe, Key.hash, UInt32.toNat_or, show STRHASH_MSB.toNat = 2 ^ 31 from rfl, hN,
      or_two_pow_mod (by omega)]
  | str s => rfl

theorem hitKey_iff (k : Key S) (e : Key S × α) : hitKey H k e = true ↔ e.1 = k := by
  obtain ⟨k', v⟩ := e
  cases k with
  | int ki =>
    cases k' with
    | int k => simp [hitKey, hitIntKey]
    | str s => simp [hitKey, hitIntKey]
  | str ks =>
    cases k' with
    | int k => simp [hitKey, hitStrKey]
    | str s =>
      simp only [hitKey, hitStrKey, Bool.and_eq_true, beq_iff_eq, Key.str.injEq]
      constructor
      · exact fun h => h.2
      · intro h
        subst h
        exact ⟨rfl, rfl⟩

/-! ## 探索の正しさ -/

variable {H} {d : VanillaDict S α}

/-- key のある要素は、その位置を指すマスで見つかる。 -/
theorem Valid.findKey_hit (hv : Valid H d) {i : Nat} {e : Key S × α}
    (he : liveOf d.elms i = some e) :
    ∃ j, j < numSlots d.scale ∧ d.hashTab j = .pos i ∧ d.findKey H e.1 = some (.hit j i) := by
  obtain ⟨k, hk⟩ := hv.wf.scale_pow
  refine hv.wf.findImpl_hit (hitKey H e.1) (e.1.hash H) he ((hitKey_iff H _ _).mpr rfl) ?_ ?_
  · intro i' e' he' hh
    exact liveOf_inj hv.keys_nodup he' he ((hitKey_iff H _ _).mp hh)
  · exact probe_mod_hash H hk hv.scale_lt e.1

/-- key の無い探索は、探索列で最初の `Empty` のマスで止まる。 -/
theorem Valid.findKey_miss (hv : Valid H d) {k : Key S} (hk : k ∉ keys (abs d)) :
    ∃ n, n < numSlots d.scale ∧
      d.hashTab (probeSeq (numSlots d.scale) (k.hash H).toNat n) = .empty ∧
      (∀ m, m < n → d.hashTab (probeSeq (numSlots d.scale) (k.hash H).toNat m) ≠ .empty) ∧
      d.findKey H k = some (.miss (probeSeq (numSlots d.scale) (k.hash H).toNat n)) := by
  refine hv.wf.findImpl_miss (hitKey H k) (k.hash H) ?_
  intro i e he
  cases hh : hitKey H k e with
  | false => rfl
  | true =>
    exfalso
    apply hk
    rw [← (hitKey_iff H k e).mp hh]
    exact List.mem_map.mpr ⟨e, mem_filterMap_of_liveOf he, rfl⟩

/-- **`NvGetInt` / `NvGetStr` は `abs` での key の値を返す。** 無ければ `Uninit`（`none`）。 -/
theorem Valid.NvGet_eq (hv : Valid H d) (k : Key S) : d.NvGet H k = .ok (get? (abs d) k) := by
  by_cases hk : k ∈ keys (abs d)
  · obtain ⟨e, hmem, rfl⟩ := List.mem_map.mp hk
    obtain ⟨i, hi⟩ := exists_liveOf_of_mem hmem
    obtain ⟨j, _, _, hfind⟩ := hv.findKey_hit hi
    rw [NvGet, hfind, get?_of_mem hv.keys_nodup (show (e.1, e.2) ∈ abs d from hmem)]
    simp [elmAt_eq_liveOf, hi]
  · obtain ⟨n, _, _, _, hfind⟩ := hv.findKey_miss hk
    rw [NvGet, hfind, (get?_eq_none_iff _ _).mpr hk]

theorem Valid.NvGetInt_eq (hv : Valid H d) (k : Int64) :
    d.NvGetInt H k = .ok (get? (abs d) (.int k)) := hv.NvGet_eq (.int k)

theorem Valid.NvGetStr_eq (hv : Valid H d) (k : S) :
    d.NvGetStr H k = .ok (get? (abs d) (.str k)) := hv.NvGet_eq (.str k)

/-- `ExistsInt` は key が `abs` にあるかを返す。 -/
theorem Valid.ExistsInt_eq (hv : Valid H d) (k : Int64) :
    d.ExistsInt H k = .ok (decide (Key.int k ∈ keys (abs d))) := by
  by_cases hk : Key.int k ∈ keys (abs d)
  · obtain ⟨e, hmem, he⟩ := List.mem_map.mp hk
    obtain ⟨i, hi⟩ := exists_liveOf_of_mem hmem
    obtain ⟨j, _, _, hfind⟩ := hv.findKey_hit hi
    rw [he] at hfind
    rw [ExistsInt, hfind, decide_eq_true hk]
  · obtain ⟨n, _, _, _, hfind⟩ := hv.findKey_miss hk
    rw [ExistsInt, hfind, decide_eq_false hk]

/-- `ExistsStr` は key が `abs` にあるかを返す。 -/
theorem Valid.ExistsStr_eq (hv : Valid H d) (k : S) :
    d.ExistsStr H k = .ok (decide (Key.str k ∈ keys (abs d))) := by
  rw [ExistsStr, hv.NvGetStr_eq]
  by_cases hk : Key.str k ∈ keys (abs d)
  · obtain ⟨v, hv'⟩ := Option.ne_none_iff_exists'.mp (mt (get?_eq_none_iff _ _).mp (not_not.mpr hk))
    rw [hv', decide_eq_true hk]
    rfl
  · rw [(get?_eq_none_iff _ _).mpr hk, decide_eq_false hk]
    rfl

end VanillaDict

end Hhvm
