import Hhvm.Array.Properties.MonotypeIndex
import Hhvm.Array.Properties.LiveMap
import Hhvm.Array.Properties.Iteration
import Hhvm.Array.Properties.DictRefinement

/-!
# `MonotypeDict` は挿入順の写像を実装する

`MonotypeDict` の要素の列から tombstone を除いた列（`liveMap`）は、key の型 `K` の上の挿入順の
写像である。走査で見える列 `abs` は、その key を `GetPosKey`（`toKey`）で配列の key に写した
もの（`mapKeys`）である。

証明は二段に分かれる。

1. `K` の上で：`find<Result>` の当たり外れは `liveMap` の key の有無であり、`setImpl` と
   `removeImpl` は `liveMap` の `set` と `erase` である。`prepareForInsert` と
   `compactIfNeeded` は `liveMap` を変えない。
2. 配列の key の上で：生きている要素の key はどれも `coerceKey` で得られたもの（`Valid`）なので、
   `toKey` は key を取り違えない。`OrderedMap` の `mapKeys` の補題で 1 を写す。

`coerceKey` が `none` を返す key（int key の `MonotypeDict` の `INT64_MIN` と文字列 key、
文字列 key の `MonotypeDict` の int key）は、`abs` に無い。`setImpl` はそれを escalate する。
-/

namespace Hhvm

namespace Bespoke

open Infra Infra.OrderedMap HashTableCommon HashTable

variable {S K α T : Type}

/-! ## key -/

namespace MonoKey

/-- `coerceKey` で得た key は、`GetPosKey` で元の配列の key に戻る。 -/
def Lawful (M : MonoKey S K) : Prop :=
  ∀ k kk, M.coerce k = some kk → M.toKey kk = k

theorem intKeys_lawful (H : Hasher S) : (intKeys H).Lawful := by
  intro k kk h
  cases k with
  | int k =>
    simp only [coerce, intKeys] at h
    split at h
    · cases h
    · cases h
      rfl
  | str s => cases h

theorem strKeys_lawful (H : Hasher S) : (strKeys H).Lawful := by
  intro k kk h
  cases k with
  | int k => cases h
  | str s =>
    cases h
    rfl

end MonoKey

namespace MonotypeDict

/-! ## 抽象の状態 -/

/-- 生きている要素の列：`K` の上の挿入順の写像。 -/
def liveMap (mad : MonotypeDict K α T) : List (K × α) := mad.slots.filterMap id

theorem abs_eq_mapKeys [DecidableEq K] (M : MonoKey S K) (mad : MonotypeDict K α T) :
    mad.abs M = mapKeys M.toKey mad.liveMap := rfl

/-- **`MonotypeDict` の表現の不変量。** 索引の不変量に加えて、生きている要素の key は互いに
異なり、どれも `coerceKey` で得られたものである。 -/
structure Valid (M : MonoKey S K) (mad : MonotypeDict K α T) : Prop where
  inv : Inv M mad
  keys_nodup : (keys mad.liveMap).Nodup
  /-- tombstone の key（`INT64_MIN`）は生きている要素に現れない。 -/
  coerce_toKey : ∀ kk ∈ keys mad.liveMap, M.coerce (M.toKey kk) = some kk

variable {M : MonoKey S K} {mad : MonotypeDict K α T}

/-- `liveMap` を変えない変更は、`Inv` を保てば `Valid` を保つ。 -/
theorem Valid.of_liveMap {mad' : MonotypeDict K α T} (hv : Valid M mad) (hI : Inv M mad')
    (h : mad'.liveMap = mad.liveMap) : Valid M mad' :=
  ⟨hI, h ▸ hv.keys_nodup, h ▸ hv.coerce_toKey⟩

/-- `coerceKey` が同じ key を返す生きている key は、その key そのものである。 -/
theorem Valid.eq_of_coerce (hv : Valid M mad) {k : Key S} {kk kk' : K}
    (hk : M.coerce k = some kk) (hkk' : kk' ∈ keys mad.liveMap) (heq : M.toKey kk' = k) :
    kk' = kk := by
  have h := hv.coerce_toKey kk' hkk'
  rw [heq, hk] at h
  exact (Option.some.inj h).symm

/-- `toKey` は、`coerceKey` で得た key と生きている key を取り違えない。 -/
theorem Valid.toKey_sep (hv : Valid M mad) (hM : M.Lawful) {k : Key S} {kk : K}
    (hk : M.coerce k = some kk) :
    ∀ p ∈ mad.liveMap, M.toKey p.1 = M.toKey kk → p.1 = kk := by
  intro p hp heq
  rw [hM k kk hk] at heq
  exact hv.eq_of_coerce hk (List.mem_map_of_mem hp) heq

/-- `coerceKey` で表せない key は `abs` に無い。 -/
theorem Valid.not_mem_of_coerce_none [DecidableEq K] (hv : Valid M mad) {k : Key S}
    (hk : M.coerce k = none) : k ∉ keys (mad.abs M) := by
  intro hmem
  rw [abs_eq_mapKeys, keys_mapKeys] at hmem
  obtain ⟨kk, hkk, heq⟩ := List.mem_map.mp hmem
  have h := hv.coerce_toKey kk hkk
  rw [heq, hk] at h
  cases h

/-- `abs` の key は互いに異なる。 -/
theorem Valid.keys_abs_nodup [DecidableEq K] (hv : Valid M mad) : (keys (mad.abs M)).Nodup := by
  rw [abs_eq_mapKeys]
  refine nodup_keys_mapKeys (fun p hp q hq heq => ?_) hv.keys_nodup
  have hp' := hv.coerce_toKey p.1 (List.mem_map_of_mem hp)
  have hq' := hv.coerce_toKey q.1 (List.mem_map_of_mem hq)
  rw [heq, hq'] at hp'
  exact (Option.some.inj hp').symm

/-- 最後の生きている要素：`IterLast` の位置の要素は `liveMap` の最後の組である。 -/
theorem Valid.elm_IterLast (hv : Valid M mad) :
    mad.slots[mad.IterLast]?.bind id = mad.liveMap.getLast? := by
  have h := liveOf_prevElm mad.slots mad.slots.length (le_refl _)
  rw [List.take_length] at h
  have hu : mad.used = mad.slots.length := by rw [slots_length, hv.inv.length_eq]
  show liveOf mad.slots (prevElm mad.slots mad.used) = _
  rw [hu]
  exact h

/-- 空の配列の `liveMap` は空。 -/
theorem Valid.liveMap_eq_nil (hv : Valid M mad) (h0 : mad.size = 0) : mad.liveMap = [] := by
  have hs : mad.size = countLive mad.slots := hv.inv.wf.size_eq
  rw [countLive_eq_length, h0] at hs
  exact List.eq_nil_of_length_eq_zero hs.symm

/-! ## 走査 -/

section Iter

/-- 位置 `pos` で `GetPosKey` と `GetPosVal` が読む組。 -/
def posPair (M : MonoKey S K) (mad : MonotypeDict K α T) (pos : Nat) : Option (Key S × α) := do
  let k ← mad.GetPosKey M pos
  let v ← mad.GetPosVal pos
  pure (k, v)

/-- 位置 `pos` から `IterAdvance` で `IterEnd` まで進み、読んだ組を並べる。 -/
def iterForward (M : MonoKey S K) (mad : MonotypeDict K α T) : Nat → Nat → List (Key S × α)
  | 0, _ => []
  | fuel + 1, pos =>
    if pos < mad.IterEnd then
      (mad.posPair M pos).toList ++ mad.iterForward M fuel (mad.IterAdvance pos)
    else []

/-- 位置 `pos` から `IterRewind` で `IterEnd` まで戻り、読んだ組を並べる。 -/
def iterBackward (M : MonoKey S K) (mad : MonotypeDict K α T) : Nat → Nat → List (Key S × α)
  | 0, _ => []
  | fuel + 1, pos =>
    if pos < mad.IterEnd then
      (mad.posPair M pos).toList ++ mad.iterBackward M fuel (mad.IterRewind pos)
    else []

/-- `GetPosKey` と `GetPosVal` は `view` の同じ位置の要素を読む。 -/
theorem posPair_eq (M : MonoKey S K) (mad : MonotypeDict K α T) (pos : Nat) :
    mad.posPair M pos = (mad.view.elmAt pos).map fun e => (M.toKey e.1, e.2) := by
  unfold posPair GetPosKey GetPosVal
  rw [HashTable.elmAt, view_elms]
  cases mad.slots[pos]?.bind id <;> rfl

theorem Inv.IterEnd_eq (hI : Inv M mad) : mad.IterEnd = mad.view.used := by
  rw [view_used, hI.length_eq]
  rfl

/-- 前向きの走査は、`view` の走査の key を `toKey` で写したもの。`IterAdvance` は `view` の
`IterAdvance` と同じ位置へ進む。 -/
theorem Inv.iterForward_eq_view (hI : Inv M mad) : ∀ fuel pos,
    mad.iterForward M fuel pos = (mad.view.iterForward fuel pos).map fun e => (M.toKey e.1, e.2)
  | 0, _ => rfl
  | fuel + 1, pos => by
    have hadv : mad.IterAdvance pos = mad.view.IterAdvance pos :=
      (HashTable.IterAdvance_eq mad.view pos).symm
    rw [iterForward, HashTable.iterForward, hI.IterEnd_eq]
    split
    · rw [List.map_append, posPair_eq, Option.toList_map, hadv, Inv.iterForward_eq_view hI fuel]
    · rfl

/-- 後ろ向きの走査も同じ。`IterRewind` は終端の扱いだけが `view` と違うが、走査は終端の前で
止まる。 -/
theorem Inv.iterBackward_eq_view (hI : Inv M mad) : ∀ fuel pos,
    mad.iterBackward M fuel pos = (mad.view.iterBackward fuel pos).map fun e => (M.toKey e.1, e.2)
  | 0, _ => rfl
  | fuel + 1, pos => by
    rw [iterBackward, HashTable.iterBackward, hI.IterEnd_eq]
    split
    · next hp =>
      have hrew : mad.IterRewind pos = mad.view.IterRewind pos :=
        (HashTable.IterRewind_of_lt mad.view hp).symm
      rw [List.map_append, posPair_eq, Option.toList_map, hrew, Inv.iterBackward_eq_view hI fuel]
    · rfl

/-- **`IterBegin` から `IterEnd` までの走査は `abs` を順に読む。** -/
theorem Inv.iterForward_IterBegin (hI : Inv M mad) :
    mad.iterForward M (mad.used + 1) mad.IterBegin = mad.abs M := by
  have hu : mad.used = mad.view.used := hI.IterEnd_eq
  rw [hI.iterForward_eq_view, hu]
  exact congrArg (List.map _) (HashTable.iterForward_IterBegin mad.view)

/-- **`IterLast` から `IterEnd` までの逆向きの走査は `abs` を逆の順に読む。** -/
theorem Inv.iterBackward_IterLast (hI : Inv M mad) :
    mad.iterBackward M (mad.used + 1) mad.IterLast = (mad.abs M).reverse := by
  have hu : mad.used = mad.view.used := hI.IterEnd_eq
  have hlast : mad.IterLast = mad.view.IterLast := by
    show prevElm mad.slots mad.used = prevElm mad.slots mad.view.used
    rw [← hu]
  rw [hI.iterBackward_eq_view, hlast, hu, HashTable.iterBackward_IterLast, List.map_reverse]
  rfl

end Iter

/-! ## `K` の上の写像：探索 -/

section Find

variable [DecidableEq K]

/-- 探索が当たった位置には、その key の生きている要素がある。 -/
theorem liveOf_of_find_hit (hI : Inv M mad) {mode : FindMode} {kk : K} {hash : UInt32}
    {i index : Nat} (h : mad.find mode (some kk) hash = some (.hit i index)) :
    ∃ v, mad.elms[index]? = some (some kk, v) ∧ liveOf mad.slots index = some (kk, v) := by
  obtain ⟨-, -, v, he⟩ := find_hit hI h
  exact ⟨v, he, by simp [liveOf, slots, List.getElem?_map, he]⟩

/-- **外れた key は無い。** key が重ならなければ、`getHash(key)` から探して外れた key は
`liveMap` に無い。 -/
theorem Valid.not_mem_of_find_miss (hv : Valid M mad) {mode : FindMode} (hm : mode ≠ .add)
    {kk : K} {i delta first : Nat}
    (h : mad.find mode (some kk) (M.getHash kk) = some (.miss i delta first)) :
    kk ∉ keys mad.liveMap := by
  intro hmem
  obtain ⟨e, he, rfl⟩ := List.mem_map.mp hmem
  obtain ⟨p, hp⟩ := exists_liveOf_of_mem he
  have hhit : hitOf mode (some e.1) e = true := by simp [hitOf, hm]
  -- 同じ key の要素は位置 `p` の一つだけなので、探索はそこで当たる
  have huniq : ∀ p' e', liveOf mad.view.elms p' = some e' → hitOf mode (some e.1) e' = true →
      p' = p := by
    intro p' e' hp' hh
    have hk : e'.1 = e.1 := by
      simp only [hitOf, decide_eq_true_eq] at hh
      exact (Option.some.inj hh.2).symm
    exact liveOf_inj hv.keys_nodup hp' hp hk
  obtain ⟨j, -, -, hf⟩ := hv.inv.wf.findImpl_hit (hitOf mode (some e.1)) (M.getHash e.1) hp hhit
    huniq rfl
  rw [← find_map_toFound mad (Or.inr (by simp)), h] at hf
  cases hf

/-- `getImpl` は `liveMap` の値を返す。 -/
theorem Valid.getImpl_some (hv : Valid M mad) (kk : K) :
    mad.getImpl M (some kk) = .ok (get? mad.liveMap kk) := by
  have hs : (mad.find .get (some kk) (M.getHash kk)).isSome :=
    find_isSome hv.inv (Or.inr (by simp)) _
  obtain ⟨r, hr⟩ := Option.isSome_iff_exists.mp hs
  unfold getImpl
  dsimp only
  rw [hr]
  cases r with
  | hit i index =>
    dsimp only
    obtain ⟨v, he, hl⟩ := liveOf_of_find_hit hv.inv hr
    rw [get?_of_mem hv.keys_nodup (mem_filterMap_of_liveOf hl), he]
    rfl
  | miss i delta first =>
    rw [(get?_eq_none_iff _ _).mpr (hv.not_mem_of_find_miss (by decide) hr)]

variable [DecidableEq S]

/-- **探索は `abs` を読む。** `coerceKey` で表せない key は無い key として扱われる。 -/
theorem Valid.getImpl_coerce (hv : Valid M mad) (hM : M.Lawful) (k : Key S) :
    mad.getImpl M (M.coerce k) = .ok (get? (mad.abs M) k) := by
  cases hk : M.coerce k with
  | none =>
    rw [(get?_eq_none_iff _ _).mpr (hv.not_mem_of_coerce_none hk)]
    rfl
  | some kk =>
    rw [hv.getImpl_some, abs_eq_mapKeys, ← hM k kk hk, get?_mapKeys (hv.toKey_sep hM hk)]

theorem Valid.NvGetInt_eq (hv : Valid M mad) (hM : M.Lawful) (k : Int64) :
    mad.NvGetInt M k = .ok (get? (mad.abs M) (.int k)) :=
  hv.getImpl_coerce hM (.int k)

theorem Valid.NvGetStr_eq (hv : Valid M mad) (hM : M.Lawful) (k : S) :
    mad.NvGetStr M k = .ok (get? (mad.abs M) (.str k)) :=
  hv.getImpl_coerce hM (.str k)

end Find

/-! ## `K` の上の写像：書く操作 -/

section Write

variable [DecidableEq K]

/-- `prepareForInsert` は要素の列を変えない。 -/
theorem liveMap_of_prepareForInsert {o : Options} (hI : Inv M mad) {result : MonotypeDict K α T}
    (h : mad.prepareForInsert M o = .ok result) :
    Inv M result ∧ result.used < result.numElms ∧ result.liveMap = mad.liveMap := by
  obtain ⟨hR, hroom, heq⟩ := prepareForInsert_inv hI h
  refine ⟨hR, hroom, ?_⟩
  rw [heq]
  rfl

omit [DecidableEq K] in
/-- 前に詰めても `liveMap` は変わらない。 -/
theorem liveMap_compact (mad : MonotypeDict K α T) {mad' : MonotypeDict K α T}
    (h : mad'.elms = mad.liveElms.map fun (_, k, v) => (some k, v)) :
    mad'.liveMap = mad.liveMap := by
  show (mad'.elms.map slotOf).filterMap id = (mad.elms.map slotOf).filterMap id
  rw [h, slots_compact, filterMap_id_map_some, filterMap_slotOf mad.elms 0]
  rfl

/-- `compactIfNeeded` は止まらず、`liveMap` を変えない。 -/
theorem compactIfNeeded_liveMap (hI : Inv M mad) :
    ∃ mad', compactIfNeeded M mad = .ok mad' ∧ Inv M mad' ∧ mad'.liveMap = mad.liveMap := by
  obtain ⟨mad', h, hI', he | he⟩ := compactIfNeeded_spec hI
  · refine ⟨mad', h, hI', ?_⟩
    show (mad'.elms.map slotOf).filterMap id = (mad.elms.map slotOf).filterMap id
    rw [he]
  · exact ⟨mad', h, hI', liveMap_compact mad he⟩

/-- **`setImpl` が escalate しなければ、`liveMap` の `set` である。** -/
theorem Valid.setImpl_liveMap [DecidableEq S] [DecidableEq T] {typeOf : α → T} {H : Hasher S}
    {o : Options} (hv : Valid M mad) {kk : K} {k : Key S} {v : α} {mad' : MonotypeDict K α T}
    (h : mad.setImpl M typeOf H o (some kk) k v = .ok (.inl mad')) :
    Inv M mad' ∧ mad'.liveMap = set mad.liveMap kk v := by
  refine ⟨setImpl_inv hv.inv h, ?_⟩
  obtain ⟨kk', result, hkk, -, hprep, hcase⟩ := setImpl_cases h
  cases hkk
  obtain ⟨hR, -, hlive⟩ := liveMap_of_prepareForInsert hv.inv hprep
  have hvR : Valid M result := hv.of_liveMap hR hlive
  rw [← hlive]
  rcases hcase with ⟨i, index, hf, rfl⟩ | ⟨i, delta, first, hf, rfl⟩
  · -- 当たった：その key の値だけが変わる
    obtain ⟨v₀, he, hl⟩ := liveOf_of_find_hit hR hf
    have hset := filterMap_set_some hvR.keys_nodup v hl
    have hmem : kk ∈ keys result.liveMap := List.mem_map_of_mem (mem_filterMap_of_liveOf hl)
    show ((result.elms.modify index fun e => (e.1, v)).map slotOf).filterMap id = _
    rw [slots_modify_val he, ← slots_eq, set_of_mem hmem]
    simp only at hset
    exact hset
  · -- 外れた：末尾に足す
    have hnot := hvR.not_mem_of_find_miss (by decide) hf
    show ((result.elms ++ [(some kk, v)]).map slotOf).filterMap id = _
    rw [List.map_append, List.filterMap_append, set_of_not_mem hnot]
    rfl

/-- **`removeImpl` は止まらず、`liveMap` の `erase` である。** -/
theorem Valid.removeImpl_liveMap (hv : Valid M mad) (kk : K) :
    ∃ mad', mad.removeImpl M (some kk) = .ok mad' ∧ Inv M mad' ∧
      mad'.liveMap = erase mad.liveMap kk := by
  have hs : (mad.find .remove (some kk) (M.getHash kk)).isSome :=
    find_isSome hv.inv (Or.inr (by simp)) _
  obtain ⟨r, hr⟩ := Option.isSome_iff_exists.mp hs
  cases r with
  | hit i index =>
    obtain ⟨hi, hslot, -⟩ := find_hit hv.inv hr
    obtain ⟨v₀, -, hl⟩ := liveOf_of_find_hit hv.inv hr
    obtain ⟨mad', hc, hI', hlm⟩ := compactIfNeeded_liveMap (hv.inv.erase hi hslot)
    refine ⟨mad', ?_, hI', ?_⟩
    · unfold removeImpl
      dsimp only
      rw [hr]
      exact hc
    · rw [hlm]
      show ((mad.elms.modify index fun e => (none, e.2)).map slotOf).filterMap id = _
      rw [slots_modify_tomb, ← slots_eq, filterMap_set_none hv.keys_nodup hl]
      rfl
  | miss i delta first =>
    refine ⟨mad, ?_, hv.inv, (erase_of_not_mem (hv.not_mem_of_find_miss (by decide) hr)).symm⟩
    unfold removeImpl
    dsimp only
    rw [hr]

/-- `set` の後も `Valid`：新しい key は `coerceKey` で得たものである。 -/
theorem Valid.of_set (hv : Valid M mad) (hM : M.Lawful) {k : Key S} {kk : K}
    (hk : M.coerce k = some kk) {mad' : MonotypeDict K α T} (hI : Inv M mad') {v : α}
    (h : mad'.liveMap = set mad.liveMap kk v) : Valid M mad' := by
  refine ⟨hI, h ▸ nodup_set hv.keys_nodup kk v, ?_⟩
  intro kk' hkk'
  rw [h, keys_set] at hkk'
  split at hkk'
  · exact hv.coerce_toKey kk' hkk'
  · rcases List.mem_append.mp hkk' with hm | hm
    · exact hv.coerce_toKey kk' hm
    · rw [List.mem_singleton.mp hm, hM k kk hk]
      exact hk

/-- `erase` の後も `Valid`。 -/
theorem Valid.of_erase (hv : Valid M mad) {mad' : MonotypeDict K α T} (hI : Inv M mad') {kk : K}
    (h : mad'.liveMap = erase mad.liveMap kk) : Valid M mad' :=
  ⟨hI, h ▸ nodup_erase hv.keys_nodup kk,
    fun kk' hkk' => hv.coerce_toKey kk' ((keys_erase_sublist _ _).subset (h ▸ hkk'))⟩

end Write

/-! ## 配列の key の上の写像 -/

section Refines

variable [DecidableEq S] [DecidableEq K] [DecidableEq T] {typeOf : α → T} {H : Hasher S}
  {o : Options}

/-- 一歩の結果 `r` が抽象の結果 `m` を実装すること：`MonotypeDict` のまま `Valid` で `abs` が `m`
になるか、`resize` の `unbalanced` で止まるか、escalate する（その結果 `esc`）。 -/
def StepRefines (M : MonoKey S K) (r esc : Except Fault (MonotypeDict K α T ⊕ VanillaDict S α))
    (m : List (Key S × α)) : Prop :=
  (∃ mad', r = .ok (.inl mad') ∧ Valid M mad' ∧ mad'.abs M = m) ∨
    (∃ n, r = .error (.unbalanced n)) ∨ r = esc

/-- **`setImpl` は `abs` の `set` を実装する。** 表せない key と型の違う値は escalate する。 -/
theorem Valid.setImpl_refines (hv : Valid M mad) (hM : M.Lawful) (k : Key S) (v : α) :
    StepRefines M (mad.setImpl M typeOf H o (M.coerce k) k v) (mad.escalateSet M H o k v)
      (set (mad.abs M) k v) := by
  cases hk : M.coerce k with
  | none => exact Or.inr (Or.inr rfl)
  | some kk =>
    by_cases hty : mad.type = typeOf v
    · rcases prepareForInsert_ok_or_unbalanced (o := o) hv.inv with ⟨result, hprep⟩ | ⟨n, hprep⟩
      · obtain ⟨hR, -, -⟩ := prepareForInsert_inv hv.inv hprep
        have hs : (result.find .update (some kk) (M.getHash kk)).isSome :=
          find_isSome hR (Or.inr (by simp)) _
        obtain ⟨r, hr⟩ := Option.isSome_iff_exists.mp hs
        -- `find<Update>` は必ず返るので、`setImpl` は `MonotypeDict` のまま終わる
        have hok : ∃ mad', mad.setImpl M typeOf H o (some kk) k v = .ok (.inl mad') := by
          unfold setImpl
          dsimp only
          rw [if_pos hty, hprep]
          dsimp only [bind, Except.bind]
          rw [hr]
          cases r <;> exact ⟨_, rfl⟩
        obtain ⟨mad', h⟩ := hok
        obtain ⟨hI', hlm⟩ := hv.setImpl_liveMap h
        refine Or.inl ⟨mad', h, hv.of_set hM hk hI' hlm, ?_⟩
        rw [abs_eq_mapKeys, abs_eq_mapKeys, hlm, ← hM k kk hk,
          set_mapKeys (hv.toKey_sep hM hk)]
      · refine Or.inr (Or.inl ⟨n, ?_⟩)
        unfold setImpl
        dsimp only
        rw [if_pos hty, hprep]
        rfl
    · refine Or.inr (Or.inr ?_)
      unfold setImpl
      dsimp only
      rw [if_neg hty]

omit [DecidableEq T] in
/-- **`removeImpl` は `abs` の `erase` を実装する。** 止まらない。 -/
theorem Valid.removeImpl_refines (hv : Valid M mad) (hM : M.Lawful) (k : Key S) :
    ∃ mad', mad.removeImpl M (M.coerce k) = .ok mad' ∧ Valid M mad' ∧
      mad'.abs M = erase (mad.abs M) k := by
  cases hk : M.coerce k with
  | none => exact ⟨mad, rfl, hv, (erase_of_not_mem (hv.not_mem_of_coerce_none hk)).symm⟩
  | some kk =>
    obtain ⟨mad', h, hI', hlm⟩ := hv.removeImpl_liveMap kk
    refine ⟨mad', h, hv.of_erase hI' hlm, ?_⟩
    rw [abs_eq_mapKeys, abs_eq_mapKeys, hlm, ← hM k kk hk, erase_mapKeys (hv.toKey_sep hM hk)]

/-- **`AppendMove` は次の key `nextKILoop` で `abs` の `set` を実装する。** 次の key が負
（int key が `INT64_MAX` に達した）なら何もせず警告を出す。 -/
theorem Valid.AppendMove_refines (hv : Valid M mad) (hM : M.Lawful) (v : α) :
    StepRefines M (Prod.fst <$> mad.AppendMove M typeOf H o v)
      (mad.escalateSet M H o (.int (nextKILoop M mad.liveElms 0)) v)
      (if nextKILoop M mad.liveElms 0 < 0 then mad.abs M
        else set (mad.abs M) (.int (nextKILoop M mad.liveElms 0)) v) := by
  unfold AppendMove
  dsimp only
  split
  · exact Or.inl ⟨mad, rfl, hv, rfl⟩
  · -- 警告の列を落とすと `SetIntMove` の結果そのもの
    have hfst : ∀ x : Except Fault (MonotypeDict K α T ⊕ VanillaDict S α),
        Prod.fst <$> (x >>= fun r => Except.ok (r, ([] : List Raised))) = x := by
      intro x
      cases x <;> rfl
    rw [hfst]
    exact hv.setImpl_refines hM (.int _) v

omit [DecidableEq T] in
/-- **`PopMove` は `abs` の最後の組を除き、その値を返す。** 止まらない。 -/
theorem Valid.PopMove_refines (hv : Valid M mad) (hM : M.Lawful) :
    ∃ mad' r, mad.PopMove M = .ok (mad', r) ∧ Valid M mad' ∧
      mad'.abs M = (mad.abs M).dropLast ∧ r = (mad.abs M).getLast?.map Prod.snd := by
  unfold PopMove
  split
  · next h0 =>
    have hnil := hv.liveMap_eq_nil h0
    refine ⟨mad, none, rfl, hv, ?_, ?_⟩ <;> rw [abs_eq_mapKeys, hnil] <;> rfl
  · next h0 =>
    rw [hv.elm_IterLast]
    cases hlast : mad.liveMap.getLast? with
    | none =>
      exfalso
      have hs : mad.size = countLive mad.slots := hv.inv.wf.size_eq
      rw [countLive_eq_length] at hs
      exact h0 (by rw [hs]; exact List.length_eq_zero_iff.mpr (List.getLast?_eq_none_iff.mp hlast))
    | some e =>
      obtain ⟨k, v⟩ := e
      dsimp only
      -- 最後の組の key は生きているので、`coerceKey` でそのまま引ける
      have hmem : (k, v) ∈ mad.liveMap := List.mem_of_getLast? hlast
      have hk : M.coerce (M.toKey k) = some k := hv.coerce_toKey k (List.mem_map_of_mem hmem)
      obtain ⟨mad', h, hv', habs⟩ := hv.removeImpl_refines hM (M.toKey k)
      rw [hk] at h
      have habsLast : (mad.abs M).getLast? = some (M.toKey k, v) := by
        rw [abs_eq_mapKeys, mapKeys, List.getLast?_map, hlast]
        rfl
      refine ⟨mad', some v, ?_, hv', ?_, ?_⟩
      · -- key の種類ごとに `RemoveIntMove` か `RemoveStrMove`：どちらも `removeImpl`
        split
        · next i heq =>
          show (do let r ← mad.removeImpl M (M.coerce (.int i)); .ok (r, some v)) = _
          rw [← heq, hk, h]
          rfl
        · next s heq =>
          show (do let r ← mad.removeImpl M (M.coerce (.str s)); .ok (r, some v)) = _
          rw [← heq, hk, h]
          rfl
      · rw [habs, erase_eq_dropLast hv.keys_abs_nodup habsLast]
      · rw [habsLast]
        rfl

end Refines

/-! ## 届く配列 -/

section Reachable

variable [DecidableEq S] [DecidableEq K] [DecidableEq T] {typeOf : α → T} {H : Hasher S}
  {o : Options}

omit [DecidableEq S] [DecidableEq K] [DecidableEq T] in
/-- 空の配列は `Valid`。 -/
theorem Valid.MakeReserve (M : MonoKey S K) (capacity : Nat) (dt : T) :
    Valid M (MakeReserve capacity dt : MonotypeDict K α T) :=
  ⟨Inv.MakeReserve M capacity dt, List.nodup_nil, fun _ h => absurd h List.not_mem_nil⟩

omit [DecidableEq S] [DecidableEq K] [DecidableEq T] in
/-- 一歩が `MonotypeDict` のまま終わったなら、それは `Valid` で、`abs` は抽象の結果である。 -/
theorem StepRefines.of_inl {r esc : Except Fault (MonotypeDict K α T ⊕ VanillaDict S α)}
    {m : List (Key S × α)} (hr : StepRefines M r esc m) (hesc : ∀ x, esc ≠ .ok (.inl x))
    {mad' : MonotypeDict K α T} (h : r = .ok (.inl mad')) : Valid M mad' ∧ mad'.abs M = m := by
  subst h
  rcases hr with ⟨mad'', heq, hv', habs⟩ | ⟨n, heq⟩ | heq
  · cases heq
    exact ⟨hv', habs⟩
  · cases heq
  · exact absurd heq.symm (hesc mad')

/-- escalate しない `setImpl` は `abs` の `set` である。 -/
theorem Valid.setImpl_inl (hv : Valid M mad) (hM : M.Lawful) (k : Key S) {v : α}
    {mad' : MonotypeDict K α T}
    (h : mad.setImpl M typeOf H o (M.coerce k) k v = .ok (.inl mad')) :
    Valid M mad' ∧ mad'.abs M = set (mad.abs M) k v :=
  (hv.setImpl_refines hM k v).of_inl (escalateSet_ne_inl M H o mad k v) h

omit [DecidableEq T] in
/-- `removeImpl` の結果は `Valid` で、`abs` は `erase` である。 -/
theorem Valid.removeImpl_ok (hv : Valid M mad) (hM : M.Lawful) (k : Key S)
    {mad' : MonotypeDict K α T} (h : mad.removeImpl M (M.coerce k) = .ok mad') :
    Valid M mad' ∧ mad'.abs M = erase (mad.abs M) k := by
  obtain ⟨mad'', h', hv', habs⟩ := hv.removeImpl_refines hM k
  rw [h] at h'
  cases h'
  exact ⟨hv', habs⟩

/-- `MakeFromVanilla` の畳み込みは、`abs` に組を順に `set` する。 -/
theorem makeFromVanilla_fold_refines (hM : M.Lawful) :
    ∀ (kvs : List (Key S × α)) (acc mad : MonotypeDict K α T), Valid M acc →
      kvs.foldlM
        (fun (result : MonotypeDict K α T) kv => do
          let next ← match kv.1 with
            | .str s => result.SetStrMove M typeOf H o s kv.2
            | .int i => result.SetIntMove M typeOf H o i kv.2
          match next with
          | .inl r => .ok r
          | .inr _ => .error .assertFailed) acc = .ok mad →
      Valid M mad ∧ mad.abs M = kvs.foldl (fun m p => set m p.1 p.2) (acc.abs M) := by
  intro kvs
  induction kvs with
  | nil =>
    intro acc mad hv h
    cases h
    exact ⟨hv, rfl⟩
  | cons kv rest ih =>
    intro acc mad hv h
    rw [List.foldlM_cons] at h
    obtain ⟨acc', hstep, h⟩ := Except.bind_eq_ok.mp h
    -- 一歩は escalate しない `setImpl`：`abs` に一つ `set` する
    obtain ⟨hv', habs⟩ := hv.setImpl_inl hM kv.1 (makeFromVanilla_step hstep)
    rw [List.foldl_cons, ← habs]
    exact ih acc' mad hv' h

/-- **`MakeFromVanilla` は vanilla の dict と同じ写像を作る。** vanilla の dict の key が互いに
異なれば、`abs` は vanilla の走査の列そのものである。 -/
theorem MakeFromVanilla_refines (hM : M.Lawful) {ad : VanillaDict S α} {dt : T}
    (h : MakeFromVanilla M typeOf H o ad dt = .ok mad) (hnd : (keys (ad.elms.filterMap id)).Nodup) :
    Valid M mad ∧ mad.abs M = ad.elms.filterMap id := by
  obtain ⟨hv, habs⟩ := makeFromVanilla_fold_refines hM _ _ _ (Valid.MakeReserve M ad.size dt) h
  have h0 : (MakeReserve ad.size dt : MonotypeDict K α T).abs M = [] := rfl
  refine ⟨hv, ?_⟩
  rw [habs, h0, foldl_set_eq_append _ [] (by simpa using hnd), List.nil_append]

/-- **届く `MonotypeDict` は `Valid`。** -/
theorem Reachable.valid (hM : M.Lawful) (hr : Reachable M typeOf H o mad) : Valid M mad := by
  induction hr with
  | ofReserve capacity dt => exact Valid.MakeReserve M capacity dt
  | ofVanilla h =>
    exact (makeFromVanilla_fold_refines hM _ _ _ (Valid.MakeReserve M _ _) h).1
  | setInt _ h ih => exact (ih.setImpl_inl hM (.int _) h).1
  | setStr _ h ih => exact (ih.setImpl_inl hM (.str _) h).1
  | removeInt _ h ih => exact (ih.removeImpl_ok hM (.int _) h).1
  | removeStr _ h ih => exact (ih.removeImpl_ok hM (.str _) h).1
  | append _ h ih =>
    exact ((ih.AppendMove_refines hM _).of_inl (escalateSet_ne_inl M H o _ _ _)
      (congrArg (Prod.fst <$> ·) h)).1
  | pop _ h ih =>
    obtain ⟨mad', r, h', hv', -⟩ := ih.PopMove_refines hM
    rw [h] at h'
    cases h'
    exact hv'

/-- `mad` が挿入順の写像 `abs` を実装していること。書く操作は、escalate するか、`resize` の
`unbalanced` で止まることもある。 -/
structure RefinesOrderedMap (M : MonoKey S K) (typeOf : α → T) (H : Hasher S) (o : Options)
    (mad : MonotypeDict K α T) : Prop where
  /-- key は重ならず、`coerceKey` で表せない key は無い。 -/
  keys_nodup : (keys (mad.abs M)).Nodup
  coerce_none : ∀ k, M.coerce k = none → k ∉ keys (mad.abs M)
  /-- `NvGetInt` / `NvGetStr` は key に結び付いた値を、無ければ `Uninit` を返す。 -/
  get_int : ∀ k, mad.NvGetInt M k = .ok (get? (mad.abs M) (.int k))
  get_str : ∀ k, mad.NvGetStr M k = .ok (get? (mad.abs M) (.str k))
  /-- `IterBegin` から `IterAdvance` で進むと `abs` を順に、`IterLast` から `IterRewind` で
  戻ると逆順に読む。 -/
  iter_forward : mad.iterForward M (mad.used + 1) mad.IterBegin = mad.abs M
  iter_backward : mad.iterBackward M (mad.used + 1) mad.IterLast = (mad.abs M).reverse
  /-- `SetIntMove` / `SetStrMove` は `set`。 -/
  set_int : ∀ k v, StepRefines M (mad.SetIntMove M typeOf H o k v)
    (mad.escalateSet M H o (.int k) v) (set (mad.abs M) (.int k) v)
  set_str : ∀ k v, StepRefines M (mad.SetStrMove M typeOf H o k v)
    (mad.escalateSet M H o (.str k) v) (set (mad.abs M) (.str k) v)
  /-- `RemoveIntMove` / `RemoveStrMove` は `erase` で、止まらない。 -/
  remove_int : ∀ k, ∃ mad', mad.RemoveIntMove M k = .ok mad' ∧ Valid M mad' ∧
    mad'.abs M = erase (mad.abs M) (.int k)
  remove_str : ∀ k, ∃ mad', mad.RemoveStrMove M k = .ok mad' ∧ Valid M mad' ∧
    mad'.abs M = erase (mad.abs M) (.str k)
  /-- `AppendMove` は生きている int key の最大値の次で `set` する。 -/
  append : ∀ v, StepRefines M (Prod.fst <$> mad.AppendMove M typeOf H o v)
    (mad.escalateSet M H o (.int (nextKILoop M mad.liveElms 0)) v)
    (if nextKILoop M mad.liveElms 0 < 0 then mad.abs M
      else set (mad.abs M) (.int (nextKILoop M mad.liveElms 0)) v)
  /-- `PopMove` は最後の組を除き、その値を返す。 -/
  pop : ∃ mad' r, mad.PopMove M = .ok (mad', r) ∧ Valid M mad' ∧
    mad'.abs M = (mad.abs M).dropLast ∧ r = (mad.abs M).getLast?.map Prod.snd

/-- `Valid` な `MonotypeDict` は挿入順の写像を実装する。 -/
theorem Valid.refinesOrderedMap (hv : Valid M mad) (hM : M.Lawful) :
    RefinesOrderedMap M typeOf H o mad :=
  ⟨hv.keys_abs_nodup, fun _ hk => hv.not_mem_of_coerce_none hk, hv.NvGetInt_eq hM,
    hv.NvGetStr_eq hM, hv.inv.iterForward_IterBegin, hv.inv.iterBackward_IterLast,
    fun k v => hv.setImpl_refines hM (.int k) v, fun k v => hv.setImpl_refines hM (.str k) v,
    fun k => hv.removeImpl_refines hM (.int k), fun k => hv.removeImpl_refines hM (.str k),
    hv.AppendMove_refines hM, hv.PopMove_refines hM⟩

/-- **届く `MonotypeDict` は挿入順の写像を実装する。** int key と文字列 key の `MonotypeDict`
（`intKeys`、`strKeys`）はどちらも `Lawful` である。 -/
theorem Reachable.refinesOrderedMap (hM : M.Lawful) (hr : Reachable M typeOf H o mad) :
    RefinesOrderedMap M typeOf H o mad :=
  (hr.valid hM).refinesOrderedMap hM

/-- **`MonotypeDict` は挿入順の写像を実装する。** `coerceKey` で得た key が `GetPosKey` で元に戻る
とき（int key と文字列 key の `MonotypeDict`）：`MakeFromVanilla` は、key の重ならない vanilla の dict
の走査の列をそのまま `abs` に持つ配列を作り、作る関数から操作を重ねて届く配列はどれも、読む操作が
`abs` を引き、書く操作が `abs` の上の `set`・`erase` になる（escalate か `unbalanced` で止まることも
ある）。 -/
theorem monotypeDict_implements_orderedMap (hM : M.Lawful) :
    (∀ {ad : VanillaDict S α} {dt : T} {mad : MonotypeDict K α T},
      MakeFromVanilla M typeOf H o ad dt = .ok mad → (keys (ad.elms.filterMap id)).Nodup →
      Valid M mad ∧ mad.abs M = ad.elms.filterMap id) ∧
    ∀ {mad : MonotypeDict K α T}, Reachable M typeOf H o mad → RefinesOrderedMap M typeOf H o mad :=
  ⟨fun h hnd => MakeFromVanilla_refines hM h hnd, fun hr => hr.refinesOrderedMap hM⟩

end Reachable

/-- vanilla の `[10, 20]` から作った int key の `MonotypeDict`：走査の列は vanilla と同じで、`NvGetInt`
は key 1 の値 20 を返す。 -/
theorem monotypeDict_implements_orderedMap_natural :
    ∃ mad : MonotypeDict Int64 Nat Unit,
      ((VanillaDict.MakeDictNatural VanillaDict.stringHasher [10, 20]).bind fun ad =>
        MakeFromVanilla (intKeys VanillaDict.stringHasher) (fun _ => ()) VanillaDict.stringHasher
          ⟨100, false⟩ ad ()) = .ok mad ∧
      mad.abs (intKeys VanillaDict.stringHasher) = [(.int 0, 10), (.int 1, 20)] ∧
      RefinesOrderedMap (intKeys VanillaDict.stringHasher) (fun _ => ()) VanillaDict.stringHasher
        ⟨100, false⟩ mad ∧
      mad.NvGetInt (intKeys VanillaDict.stringHasher) 1 = .ok (some 20) := by
  obtain ⟨mad, h⟩ : ∃ mad, ((VanillaDict.MakeDictNatural VanillaDict.stringHasher [10, 20]).bind
      fun ad => MakeFromVanilla (intKeys VanillaDict.stringHasher) (fun _ => ())
        VanillaDict.stringHasher ⟨100, false⟩ ad ()) = .ok mad := ⟨_, rfl⟩
  have hM := MonoKey.intKeys_lawful VanillaDict.stringHasher
  have habs := ((monotypeDict_implements_orderedMap hM).1 h (by decide)).2
  have href := (monotypeDict_implements_orderedMap hM).2 (Reachable.ofVanilla h)
  refine ⟨mad, h, habs, href, ?_⟩
  rw [href.get_int, habs]
  rfl

end MonotypeDict

end Bespoke

end Hhvm
