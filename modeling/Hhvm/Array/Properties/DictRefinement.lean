import Hhvm.Array.Properties.NextKI
import Hhvm.Array.Properties.Iteration
import Hhvm.Util.Hash

/-!
# `VanillaDict` は挿入順の写像を実装する

配列を変える操作 `DictOp`、それを `VanillaDict` の関数で走らせる `run`、挿入順の写像
（`Infra.OrderedMap`）の上での意味 `DictOp.spec` を置く。作る関数から操作を重ねて届く配列
（`Reachable`）について

* `Valid` と `NextKIInv` が保たれ（`Reachable.valid`）
* 探索（`NvGetInt`、`NvGetStr`、`ExistsInt`、`ExistsStr`）と走査（`IterBegin` / `IterAdvance`、
  `IterLast` / `IterRewind`）は `abs` を読み
* どの操作も `abs` の上で `spec` のとおりに動く（失敗するのは `InsertCheckUnbalanced` だけ）

ことを示す（`Reachable.implementsOrderedMap`）。一歩の証明は操作ごとの補題
（`Valid.SetMove_refines` …）を `run_refines` で束ねたもので、全体はその帰納法である。

前提は二つある。表が `2 ^ 31` マス以下にとどまること（`scale < MaxScale`）：`MaxScale` では
`uint32_t` の `HashSize` が 0 に巡り、作った配列がもう `checkInvariants` を通らない
（`MakeReserveDict_fails_checkInvariants`）。もう一つは `MakeDict` の結果が `NextKIInv` を
満たすこと：`MakeDict` は `m_nextKI` を 0 にするので、int key があると append が key を重ねる。
-/

namespace Hhvm

open Infra Infra.OrderedMap HashTableCommon HashTable

variable {S α : Type} [DecidableEq S]

/-! ## 操作とその意味 -/

/-- 配列を変える操作。`Set*InPlace` と `Set*Move` は同じく `prepareForInsert` と `update` で、
`Copy` は同じ中身の配列を返す。 -/
inductive DictOp (S α : Type) where
  | SetIntMove (k : Int64) (v : α)
  | SetStrMove (k : S) (v : α)
  | SetIntInPlace (k : Int64) (v : α)
  | SetStrInPlace (k : S) (v : α)
  | SetIntMoveSkipConflict (k : Int64) (v : α)
  | SetStrMoveSkipConflict (k : S) (v : α)
  | RemoveIntMove (k : Int64)
  | RemoveStrMove (k : S)
  | AppendMove (v : α)
  | PopMove
  | Merge (elems : List (Key S × α))
  | Copy
  | Grow (newScale : Nat)
  | prepareForInsert
  | compact
  | CopyReserve (n : Nat)

namespace DictOp

/-- 操作の、挿入順の写像の上での意味。`n` は次の int key（`m_nextKI`）。 -/
def spec (m : List (Key S × α)) (n : Int64) : DictOp S α → List (Key S × α)
  | .SetIntMove k v | .SetIntInPlace k v => set m (.int k) v
  | .SetStrMove k v | .SetStrInPlace k v => set m (.str k) v
  | .SetIntMoveSkipConflict k v => setIfAbsent m (.int k) v
  | .SetStrMoveSkipConflict k v => setIfAbsent m (.str k) v
  | .RemoveIntMove k => erase m (.int k)
  | .RemoveStrMove k => erase m (.str k)
  | .AppendMove v => if n < 0 then m else m ++ [(.int n, v)]
  | .PopMove => m.dropLast
  | .Merge elems => VanillaDict.mergeSpec m n elems
  | .Copy | .Grow _ | .prepareForInsert | .compact | .CopyReserve _ => m

end DictOp

namespace VanillaDict

variable (H : Hasher S) (o : Options)

/-- 操作を `VanillaDict` の関数で走らせる。`AppendMove` の notice と `PopMove` の値は捨てる。 -/
def run (d : VanillaDict S α) : DictOp S α → Except Fault (VanillaDict S α)
  | .SetIntMove k v => d.SetIntMove H o k v
  | .SetStrMove k v => d.SetStrMove H o k v
  | .SetIntInPlace k v => d.SetIntInPlace H o k v
  | .SetStrInPlace k v => d.SetStrInPlace H o k v
  | .SetIntMoveSkipConflict k v => d.SetIntMoveSkipConflict H o k v
  | .SetStrMoveSkipConflict k v => d.SetStrMoveSkipConflict H o k v
  | .RemoveIntMove k => d.RemoveIntMove H k
  | .RemoveStrMove k => d.RemoveStrMove H k
  | .AppendMove v => Prod.fst <$> d.AppendMove H o v
  | .PopMove => Prod.fst <$> d.PopMove H
  | .Merge elems => d.Merge H elems
  | .Copy => .ok d.Copy
  | .Grow s => d.Grow H o s
  | .prepareForInsert => d.prepareForInsert H o
  | .compact => d.compact H false
  | .CopyReserve n => d.CopyReserve H n

/-- 操作を順に走らせる。 -/
def runOps (d : VanillaDict S α) (ops : List (DictOp S α)) : Except Fault (VanillaDict S α) :=
  ops.foldlM (run H o) d

variable {H o}

/-- 操作の後の表の大きさ（`m_scale`）。 -/
def newScale (d : VanillaDict S α) : DictOp S α → Nat
  | .SetIntMove .. | .SetStrMove .. | .SetIntInPlace .. | .SetStrInPlace ..
  | .SetIntMoveSkipConflict .. | .SetStrMoveSkipConflict .. | .prepareForInsert => d.prepareScale
  | .AppendMove _ => if d.nextKI < 0 then d.scale else d.prepareScale
  | .Merge elems => computeScaleFromSize (d.size + elems.length)
  | .Grow s => s
  | .CopyReserve n => computeScaleFromSize n
  | .RemoveIntMove _ | .RemoveStrMove _ | .PopMove | .Copy | .compact => d.scale

/-- 呼ぶ側が保証する前提。`Grow` の `newScale` は二の冪で要素が入りきり、`CopyReserve` の
`expectedSize` は `m_size` 以上、`Merge` の `nextInsert` は `m_nextKI >= 0` を仮定する。 -/
def Pre (d : VanillaDict S α) : DictOp S α → Prop
  | .Merge elems => MergeFits d elems
  | .Grow s => (∃ k, s = 2 ^ k) ∧ d.used ≤ Capacity s
  | .CopyReserve n => d.size ≤ n
  | _ => True

/-! ## 一歩 -/

/-- 一歩の結果 `r` が抽象の結果 `m` を実装すること：`Valid` と `NextKIInv` を保ち `abs` が
`m` になるか、`InsertCheckUnbalanced` で失敗する。 -/
def StepRefines (H : Hasher S) (r : Except Fault (VanillaDict S α)) (m : List (Key S × α)) :
    Prop :=
  (∃ d', r = .ok d' ∧ Valid H d' ∧ NextKIInv d' ∧ abs d' = m) ∨
    ∃ n, r = .error (.unbalanced n)

section Step

variable {d : VanillaDict S α}

theorem Valid.SetMove_refines (hv : Valid H d) (hi : NextKIInv d) (hs : d.prepareScale < MaxScale)
    (k : Key S) (v : α) : StepRefines H (d.SetMove H o k v) (set (abs d) k v) := by
  rcases hv.SetMove (o := o) hs k v with ⟨d', h, hv', habs, -⟩ | ⟨n, h⟩
  · exact Or.inl ⟨d', h, hv', hi.SetMove hv.wf h, habs⟩
  · exact Or.inr ⟨n, h⟩

theorem Valid.SetMoveSkipConflict_refines (hv : Valid H d) (hi : NextKIInv d)
    (hs : d.prepareScale < MaxScale) (k : Key S) (v : α) :
    StepRefines H (d.SetMoveSkipConflict H o k v) (setIfAbsent (abs d) k v) := by
  rcases hv.SetMoveSkipConflict (o := o) hs k v with ⟨d', h, hv', habs, -⟩ | ⟨n, h⟩
  · exact Or.inl ⟨d', h, hv', hi.SetMoveSkipConflict hv.wf h, habs⟩
  · exact Or.inr ⟨n, h⟩

theorem Valid.RemoveIntMove_refines (hv : Valid H d) (hi : NextKIInv d) (k : Int64) :
    StepRefines H (d.RemoveIntMove H k) (OrderedMap.erase (abs d) (.int k)) := by
  obtain ⟨d', h, hv', habs, -, -⟩ := hv.RemoveIntMove k
  exact Or.inl ⟨d', h, hv', hi.RemoveIntMove hv h, habs⟩

theorem Valid.RemoveStrMove_refines (hv : Valid H d) (hi : NextKIInv d) (k : S) :
    StepRefines H (d.RemoveStrMove H k) (OrderedMap.erase (abs d) (.str k)) := by
  obtain ⟨d', h, hv', habs, -, -⟩ := hv.RemoveStrMove k
  exact Or.inl ⟨d', h, hv', hi.RemoveStrMove hv h, habs⟩

/-- `AppendMove`：不変量が key `m_nextKI` の無いことを与える。 -/
theorem Valid.AppendMove_refines (hv : Valid H d) (hi : NextKIInv d)
    (hs : (if d.nextKI < 0 then d.scale else d.prepareScale) < MaxScale) (v : α) :
    StepRefines H (Prod.fst <$> d.AppendMove H o v)
      (if d.nextKI < 0 then abs d else abs d ++ [(.int d.nextKI, v)]) := by
  by_cases hneg : d.nextKI < 0
  · obtain ⟨rs, h⟩ := AppendMove_of_neg (H := H) (o := o) hneg v
    rw [if_pos hneg, h]
    exact Or.inl ⟨d, rfl, hv, hi, rfl⟩
  · rw [if_neg hneg] at hs ⊢
    have hk : Key.int d.nextKI ∉ keys (abs d) := NextFree.not_mem hi (Int64.not_lt.mp hneg)
    rcases hv.AppendMove_of_nonneg (o := o) hneg hk hs v with ⟨d', rs, h, hv', habs, -, -⟩ | ⟨n, h⟩
    · rw [h]
      exact Or.inl ⟨d', rfl, hv', hi.AppendMove hv.wf h, habs⟩
    · rw [h]
      exact Or.inr ⟨n, rfl⟩

theorem Valid.PopMove_refines (hv : Valid H d) (hi : NextKIInv d) :
    StepRefines H (Prod.fst <$> d.PopMove H) (abs d).dropLast := by
  obtain ⟨d', r, h, hv', habs, -, -, -⟩ := hv.PopMove
  rw [h]
  exact Or.inl ⟨d', rfl, hv', hi.PopMove hv h, habs⟩

theorem Valid.Merge_refines (hv : Valid H d) (hi : NextKIInv d) {elems : List (Key S × α)}
    (hfit : MergeFits d elems) (hs : computeScaleFromSize (d.size + elems.length) < MaxScale) :
    StepRefines H (d.Merge H elems) (mergeSpec (abs d) d.nextKI elems) := by
  obtain ⟨d', h, hv', hi', habs, -⟩ := hv.Merge hi hfit hs
  exact Or.inl ⟨d', h, hv', hi', habs⟩

omit [DecidableEq S] in
theorem Valid.Grow_refines (hv : Valid H d) (hi : NextKIInv d) {s k : Nat} (hk : s = 2 ^ k)
    (hcap : d.used ≤ Capacity s) (hs : s < MaxScale) : StepRefines H (d.Grow H o s) (abs d) := by
  rcases hv.Grow (o := o) hk hcap hs with ⟨d', h, hv', habs, hn⟩ | ⟨n, h⟩
  · exact Or.inl ⟨d', h, hv', hi.of_abs habs hn, habs⟩
  · exact Or.inr ⟨n, h⟩

omit [DecidableEq S] in
theorem Valid.prepareForInsert_refines (hv : Valid H d) (hi : NextKIInv d)
    (hs : d.prepareScale < MaxScale) : StepRefines H (d.prepareForInsert H o) (abs d) := by
  rcases prepareForInsert_ok_or_unbalanced (o := o) hv.wf with ⟨p, hp⟩ | ⟨n, hp⟩
  · obtain ⟨hvp, habs, -, -, hn⟩ := hv.prepare hs hp
    exact Or.inl ⟨p, hp, hvp, hi.of_abs habs hn, habs⟩
  · exact Or.inr ⟨n, hp⟩

omit [DecidableEq S] in
theorem Valid.compact_refines (hv : Valid H d) (hi : NextKIInv d) :
    StepRefines H (d.compact H false) (abs d) := by
  obtain ⟨d', h, hv', habs, -, hn⟩ := hv.compact
  exact Or.inl ⟨d', h, hv', hi.of_abs habs hn, habs⟩

omit [DecidableEq S] in
theorem Valid.CopyReserve_refines (hv : Valid H d) (hi : NextKIInv d) {n : Nat} (hn : d.size ≤ n)
    (hs : computeScaleFromSize n < MaxScale) : StepRefines H (d.CopyReserve H n) (abs d) := by
  obtain ⟨d', h, hv', habs, -, -, hn'⟩ := hv.CopyReserve hn hs
  exact Or.inl ⟨d', h, hv', hi.of_abs habs hn', habs⟩

/-- **一歩の模倣。** `Valid` で不変量を満たす配列に前提を満たす操作を施すと、結果は `spec`
どおりの `Valid` な配列か、`InsertCheckUnbalanced` の失敗である。 -/
theorem run_refines (hv : Valid H d) (hi : NextKIInv d) {op : DictOp S α} (hp : d.Pre op)
    (hs : d.newScale op < MaxScale) : StepRefines H (d.run H o op) (op.spec (abs d) d.nextKI) := by
  cases op with
  | SetIntMove k v => exact hv.SetMove_refines hi hs (.int k) v
  | SetStrMove k v => exact hv.SetMove_refines hi hs (.str k) v
  | SetIntInPlace k v => exact hv.SetMove_refines hi hs (.int k) v
  | SetStrInPlace k v => exact hv.SetMove_refines hi hs (.str k) v
  | SetIntMoveSkipConflict k v => exact hv.SetMoveSkipConflict_refines hi hs (.int k) v
  | SetStrMoveSkipConflict k v => exact hv.SetMoveSkipConflict_refines hi hs (.str k) v
  | RemoveIntMove k => exact hv.RemoveIntMove_refines hi k
  | RemoveStrMove k => exact hv.RemoveStrMove_refines hi k
  | AppendMove v => exact hv.AppendMove_refines hi hs v
  | PopMove => exact hv.PopMove_refines hi
  | Merge elems => exact hv.Merge_refines hi hp hs
  | Copy => exact Or.inl ⟨d, rfl, hv, hi, rfl⟩
  | Grow s =>
    obtain ⟨⟨k, hk⟩, hcap⟩ := hp
    exact hv.Grow_refines hi hk hcap hs
  | prepareForInsert => exact hv.prepareForInsert_refines hi hs
  | compact => exact hv.compact_refines hi
  | CopyReserve n => exact hv.CopyReserve_refines hi hp hs

end Step

/-! ## 届く配列 -/

/-- 作る関数から操作を重ねて届く配列。表は `2 ^ 31` マス以下にとどまり、`MakeDict` の結果は
`m_nextKI` の不変量を満たすものに限る。 -/
inductive Reachable (H : Hasher S) (o : Options) : VanillaDict S α → Prop where
  | ofReserve {n : Nat} (hs : computeScaleFromSize n < MaxScale) :
      Reachable H o (MakeReserveDict n)
  | ofNatural {vals : List α} {d : VanillaDict S α}
      (hs : computeScaleFromSize vals.length < MaxScale) (h : MakeDictNatural H vals = .ok d) :
      Reachable H o d
  | ofStruct {ks : List S} {values : List α} {d : VanillaDict S α} (hnd : ks.Nodup)
      (hs : computeScaleFromSize ks.length < MaxScale) (h : MakeStructDict H ks values = .ok d) :
      Reachable H o d
  | ofDict {kvs : List (Key S × α)} {d : VanillaDict S α} (h : MakeDict H kvs = .ok (some d))
      (hs : d.scale < MaxScale) (hi : NextKIInv d) : Reachable H o d
  | step {d d' : VanillaDict S α} {op : DictOp S α} (hr : Reachable H o d) (hp : d.Pre op)
      (hs : d.newScale op < MaxScale) (h : d.run H o op = .ok d') : Reachable H o d'

variable {d : VanillaDict S α}

/-- 届く配列は `Valid` で、`m_nextKI` の不変量を満たす。 -/
theorem Reachable.valid (hr : Reachable H o d) : Valid H d ∧ NextKIInv d := by
  induction hr with
  | ofReserve hs => exact ⟨(Valid.MakeReserveDict hs).1, nextKIInv_MakeReserveDict _⟩
  | ofNatural hs h =>
    obtain ⟨d₀, h₀, hv, -⟩ := Valid.MakeDictNatural (H := H) hs
    rw [h] at h₀
    cases h₀
    exact ⟨hv, nextKIInv_MakeDictNatural hs h⟩
  | ofStruct hnd hs h =>
    obtain ⟨d₀, h₀, hv, -⟩ := Valid.MakeStructDict (H := H) hnd hs _
    rw [h] at h₀
    cases h₀
    exact ⟨hv, nextKIInv_MakeStructDict hnd hs _ h⟩
  | ofDict h hs hi => exact ⟨(Valid.MakeDict h hs).1, hi⟩
  | step _ hp hs h ih =>
    -- 一歩の模倣の結果は、実際に走らせた結果と同じ配列である
    rcases run_refines (o := o) ih.1 ih.2 hp hs with ⟨d₁, h₁, hv₁, hi₁, -⟩ | ⟨n, h₁⟩
    · rw [h] at h₁
      cases h₁
      exact ⟨hv₁, hi₁⟩
    · rw [h] at h₁
      cases h₁

/-- `d` が挿入順の写像 `abs d` を実装していること。 -/
structure ImplementsOrderedMap (H : Hasher S) (o : Options) (d : VanillaDict S α) : Prop where
  /-- key は重ならない。 -/
  keys_nodup : (keys (abs d)).Nodup
  /-- `NvGetInt` / `NvGetStr` は key に結び付いた値を、無ければ `Uninit` を返す。 -/
  get_int : ∀ k, d.NvGetInt H k = .ok (get? (abs d) (.int k))
  get_str : ∀ k, d.NvGetStr H k = .ok (get? (abs d) (.str k))
  /-- `ExistsInt` / `ExistsStr` は key があるかを返す。 -/
  exists_int : ∀ k, d.ExistsInt H k = .ok (decide (Key.int k ∈ keys (abs d)))
  exists_str : ∀ k, d.ExistsStr H k = .ok (decide (Key.str k ∈ keys (abs d)))
  /-- `IterBegin` から `IterAdvance` で進むと `abs d` を順に、`IterLast` から `IterRewind` で
  戻ると逆順に読む。 -/
  iter_forward : d.iterForward (d.used + 1) d.IterBegin = abs d
  iter_backward : d.iterBackward (d.used + 1) d.IterLast = (abs d).reverse
  /-- どの操作も `abs d` の上で `spec` のとおりに動くか、`InsertCheckUnbalanced` で失敗する。 -/
  step : ∀ op, d.Pre op → d.newScale op < MaxScale →
    (∃ d', d.run H o op = .ok d' ∧ abs d' = op.spec (abs d) d.nextKI) ∨
      ∃ n, d.run H o op = .error (.unbalanced n)

/-- **届く `VanillaDict` は挿入順の写像を実装する。** -/
theorem Reachable.implementsOrderedMap (hr : Reachable H o d) : ImplementsOrderedMap H o d := by
  obtain ⟨hv, hi⟩ := hr.valid
  refine ⟨hv.keys_nodup, hv.NvGetInt_eq, hv.NvGetStr_eq, hv.ExistsInt_eq, hv.ExistsStr_eq,
    iterForward_IterBegin _, iterBackward_IterLast _, ?_⟩
  intro op hp hs
  rcases run_refines (o := o) hv hi hp hs with ⟨d', h, -, -, habs⟩ | ⟨n, h⟩
  · exact Or.inl ⟨d', h, habs⟩
  · exact Or.inr ⟨n, h⟩

/-! ## 具体的な hash 関数で -/

/-- `hash_int64_fallback` を int key の hash に使う `Hasher`。文字列の hash は `strHash`。 -/
def fallbackHasher (strHash : S → UInt32) : Hasher S :=
  ⟨fun k => (hashInt64Fallback k.toUInt64).toUInt32, strHash⟩

/-- 文字列の hash を `STRHASH_MASK` で 31 bit に落とした `Hasher`。 -/
def stringHasher : Hasher String := fallbackHasher fun s => s.hash.toUInt32 &&& 0x7fffffff

omit [DecidableEq S] in
/-- **`MaxScale` の表を作ると `checkInvariants` が通らない。** `n` が `Capacity(2 ^ 29)` を越えると
`computeScaleFromSize(n)` は `MaxScale` を返し、`uint32_t` の `HashSize(MaxScale)` は 0 に巡る。
`computeAllocBytes` は hash 表の場所をとらず、`MakeReserveDict` の最後の
`assertx(ad->checkInvariants())` が `HashSize(m_scale) == nextPowTwo(capacity())` で落ちる。 -/
theorem MakeReserveDict_fails_checkInvariants (n : Nat) (h : Capacity (2 ^ 29) < n) :
    (MakeReserveDict n : VanillaDict S α).scale = MaxScale ∧
      HashSize (MakeReserveDict n : VanillaDict S α).scale = 0 ∧
      (MakeReserveDict n : VanillaDict S α).checkInvariants = false := by
  have hs : (MakeReserveDict n : VanillaDict S α).scale = MaxScale := computeScaleFromSize_of_lt h
  exact ⟨hs, hs ▸ HashSize_MaxScale, checkInvariants_of_scale_eq_MaxScale hs⟩

theorem MakeReserveDict_fails_checkInvariants_MaxSize :
    Capacity (2 ^ 29) < MaxSize ∧
      (MakeReserveDict MaxSize : VanillaDict String Nat).scale = MaxScale ∧
      HashSize (MakeReserveDict MaxSize : VanillaDict String Nat).scale = 0 ∧
      (MakeReserveDict MaxSize : VanillaDict String Nat).checkInvariants = false :=
  ⟨by decide, MakeReserveDict_fails_checkInvariants MaxSize (by decide)⟩

end VanillaDict

end Hhvm
