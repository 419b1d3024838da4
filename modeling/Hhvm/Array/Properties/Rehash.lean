import Hhvm.Array.Properties.HashIndex

/-!
# 再 hash

`Grow`、`compact`、`CopyReserve` は、空の表に生きている要素を位置の順に
`findForNewInsert`（`m_used >= 2000` の `Grow` では `findForNewInsertWarn`）で入れ直す。
入れ直した表は、要素の列について `WF` になる。上限つきの版だけは
`raise_error("Array is too unbalanced")` で止まることがある。
-/

namespace Hhvm

open Infra.Probe HashTableCommon

namespace HashTable

variable {Elm : Type} {pr : Elm → UInt32}

theorem reinsert_nil (mask : Nat) (limit : Option Nat) (i : Nat) (table : Nat → Slot) :
    reinsert pr mask limit i [] table = .ok table := rfl

theorem reinsert_none (mask : Nat) (limit : Option Nat) (i : Nat) (rest : List (Option Elm))
    (table : Nat → Slot) :
    reinsert pr mask limit i (none :: rest) table = reinsert pr mask limit (i + 1) rest table := rfl

/-- 上限なしの一歩。 -/
theorem reinsert_some_of_find {mask i p : Nat} {e : Elm} {rest : List (Option Elm)}
    {table : Nat → Slot} (h : findForNewInsert table mask (pr e) = some p) :
    reinsert pr mask none i (some e :: rest) table
      = reinsert pr mask none (i + 1) rest (Function.update table p (.pos i)) := by
  simp [reinsert, h, bind, Except.bind]

/-- 上限つきの一歩。歩幅 `n` が上限を超えると止まる。 -/
theorem reinsert_some_of_loop {mask i p n c : Nat} {e : Elm} {rest : List (Option Elm)}
    {table : Nat → Slot}
    (h : newInsertLoop table mask (mask + 1) ((pr e).toNat &&& mask) 1 = some (p, n)) :
    reinsert pr mask (some c) i (some e :: rest) table
      = if n ≤ c then reinsert pr mask (some c) (i + 1) rest (Function.update table p (.pos i))
        else .error (.unbalanced n) := by
  by_cases hc : n ≤ c <;> simp [reinsert, findForNewInsertWarn, h, hc, bind, Except.bind]

/-- **入れ直しのループ。** 途中までの要素 `pre` を索引した表から始めると、残り `rest` を入れ終えた表は
`pre ++ rest` を索引する。上限つきの版は途中で `unbalanced` で止まることがある。 -/
theorem reinsert_spec {scale k : Nat} (hk : scale = 2 ^ k) (limit : Option Nat) :
    ∀ (rest pre : List (Option Elm)) (table : Nat → Slot),
      (pre ++ rest).length ≤ Capacity scale →
      IndexWF pr (numSlots scale) table (liveOf pre) →
      occupied table (numSlots scale) ≤ countLive pre →
      (∃ table', reinsert pr (Mask scale) limit pre.length rest table = .ok table' ∧
          IndexWF pr (numSlots scale) table' (liveOf (pre ++ rest)) ∧
          occupied table' (numSlots scale) ≤ countLive (pre ++ rest)) ∨
        (∃ c n, limit = some c ∧
          reinsert pr (Mask scale) limit pre.length rest table = .error (.unbalanced n)) := by
  intro rest
  induction rest with
  | nil =>
    intro pre table _ hw hocc
    exact Or.inl ⟨table, rfl, by simpa using hw, by simpa using hocc⟩
  | cons x rest ih =>
    intro pre table hlen hw hocc
    cases x with
    | none =>
      -- tombstone は飛ばす。位置だけが一つ進む
      have h := ih (pre ++ [none]) table (by simpa using hlen)
        (by rw [liveOf_append_none]; exact hw)
        (by simpa [countLive] using hocc)
      simpa [reinsert_none] using h
    | some e =>
      have hpos : 0 < scale := by rw [hk]; exact Nat.two_pow_pos k
      have hfree : occupied table (numSlots scale) < numSlots scale := by
        have h1 := countLive_le_length pre
        simp only [List.length_append, List.length_cons] at hlen
        rw [numSlots, Capacity] at *
        omega
      obtain ⟨j, hj, hje⟩ := exists_empty_of_occupied_lt hfree
      have hfree0 : ∃ j, j < numSlots scale ∧ (table j).validPos = false :=
        ⟨j, hj, by rw [hje]; rfl⟩
      obtain ⟨n, hn, hloop, hnot, hpre⟩ := newInsertLoop_spec hk (pr e) hfree0
      have hbefore : ∀ m, m < n → table (probeSeq (numSlots scale) (pr e).toNat m) ≠ .empty := by
        intro m hm he
        have := hpre m hm
        rw [he] at this
        cases this
      -- 一歩進めた後の表は `pre ++ [some e]` を索引する
      have hw' := hw.insert (liveOf_of_length_le (le_refl pre.length)) hn hnot hbefore
      rw [← liveOf_append_some] at hw'
      have hocc' : occupied (Function.update table (probeSeq (numSlots scale) (pr e).toNat n)
          (.pos pre.length)) (numSlots scale) ≤ countLive (pre ++ [some e]) := by
        rw [countLive_append_some]
        exact le_trans (occupied_update_le _ _ _ _) (by omega)
      have hnext := ih (pre ++ [some e]) _ (by simpa using hlen) hw' hocc'
      simp only [List.length_append, List.length_singleton, List.append_assoc,
        List.singleton_append] at hnext
      cases limit with
      | none =>
        have hfind : findForNewInsert table (Mask scale) (pr e)
            = some (probeSeq (numSlots scale) (pr e).toNat n) := by
          simp [findForNewInsert, hloop]
        rw [reinsert_some_of_find hfind]
        exact hnext
      | some c =>
        rw [reinsert_some_of_loop hloop]
        by_cases hc : n + 1 ≤ c
        · rw [if_pos hc]
          exact hnext
        · rw [if_neg hc]
          exact Or.inr ⟨c, n + 1, rfl, rfl⟩

/-- 空の表から、要素の列全体を入れ直す場合。 -/
theorem reinsert_init_spec (pr : Elm → UInt32) {scale k : Nat} (hk : scale = 2 ^ k)
    {elms : List (Option Elm)} (hlen : elms.length ≤ Capacity scale) (limit : Option Nat) :
    (∃ table, reinsert pr (Mask scale) limit 0 elms initHash = .ok table ∧
        IndexWF pr (numSlots scale) table (liveOf elms) ∧
        occupied table (numSlots scale) ≤ countLive elms) ∨
      (∃ c n, limit = some c ∧
        reinsert pr (Mask scale) limit 0 elms initHash = .error (.unbalanced n)) := by
  have hnil : liveOf ([] : List (Option Elm)) = fun _ => none := by
    funext j
    exact liveOf_of_length_le (by simp)
  have hinit : IndexWF pr (numSlots scale) initHash (liveOf ([] : List (Option Elm))) := by
    rw [hnil]
    exact IndexWF.init pr _
  have h := reinsert_spec hk limit elms [] initHash (by simpa using hlen) hinit
    (by rw [occupied_initHash]; exact Nat.zero_le _)
  simpa using h

/-- 入れ直した表は `WF` である。 -/
theorem WF_of_reinsert {scale k : Nat} (hk : scale = 2 ^ k) {elms : List (Option Elm)}
    (hlen : elms.length ≤ Capacity scale) {limit : Option Nat} {table : Nat → Slot}
    (h : reinsert pr (Mask scale) limit 0 elms initHash = .ok table) :
    WF pr ⟨scale, countLive elms, elms, table⟩ := by
  rcases reinsert_init_spec pr hk hlen limit with ⟨table', h', hw, hocc⟩ | ⟨c, n, _, h'⟩
  · rw [h] at h'
    cases h'
    exact ⟨⟨k, hk⟩, hlen, rfl, hw, le_trans hocc (countLive_le_length elms)⟩
  · rw [h] at h'
    cases h'

/-- `m_size` は容量を超えない。 -/
theorem WF.size_le_capacity {t : HashTable Elm} (w : WF pr t) : t.size ≤ Capacity t.scale := by
  rw [w.size_eq]
  exact le_trans (countLive_le_length _) w.used_le

/-- 要素の列をそのまま新しい大きさの表に入れ直した表は `WF` を満たす
（dict の `Grow`、keyset の `grow`）。 -/
theorem WF.of_reinsert_elms {t : HashTable Elm} (w : WF pr t) {scale k : Nat} (hk : scale = 2 ^ k)
    (hcap : t.used ≤ Capacity scale) {limit : Option Nat} {table : Nat → Slot}
    (h : reinsert pr (Mask scale) limit 0 t.elms initHash = .ok table) :
    WF pr ⟨scale, t.size, t.elms, table⟩ := by
  have hw := WF_of_reinsert hk hcap h
  rwa [← w.size_eq] at hw

/-- 生きている要素を前に詰めた列の長さは `m_size` である。 -/
theorem WF.live_length {t : HashTable Elm} (w : WF pr t) :
    ((t.elms.filterMap id).map some).length = t.size := by
  rw [List.length_map, ← countLive_eq_length, ← w.size_eq]

/-- 生きている要素を前に詰めて入れ直した表は `WF` を満たす。`m_size` は変わらない
（keyset の `compact`、dict の `CopyReserve`）。 -/
theorem WF.of_reinsert_live {t : HashTable Elm} (w : WF pr t) {scale k : Nat} (hk : scale = 2 ^ k)
    (hcap : t.size ≤ Capacity scale) {limit : Option Nat} {table : Nat → Slot}
    (h : reinsert pr (Mask scale) limit 0 ((t.elms.filterMap id).map some) initHash = .ok table) :
    WF pr ⟨scale, t.size, (t.elms.filterMap id).map some, table⟩ := by
  have hw := WF_of_reinsert hk (by rw [w.live_length]; exact hcap) h
  rwa [countLive_map_some, ← countLive_eq_length, ← w.size_eq] at hw

/-- 上限なしの入れ直しは必ず終わる。 -/
theorem reinsert_ok {scale k : Nat} (hk : scale = 2 ^ k) {elms : List (Option Elm)}
    (hlen : elms.length ≤ Capacity scale) :
    ∃ table, reinsert pr (Mask scale) none 0 elms initHash = .ok table := by
  rcases reinsert_init_spec pr hk hlen none with ⟨table, h, _, _⟩ | ⟨c, n, hc, _⟩
  · exact ⟨table, h⟩
  · cases hc

/-- 上限つきの入れ直しは、終わるか `unbalanced` で止まるかのどちらかである。 -/
theorem reinsert_ok_or_unbalanced {scale k : Nat} (hk : scale = 2 ^ k) {elms : List (Option Elm)}
    (hlen : elms.length ≤ Capacity scale) (limit : Option Nat) :
    (∃ table, reinsert pr (Mask scale) limit 0 elms initHash = .ok table) ∨
      ∃ n, reinsert pr (Mask scale) limit 0 elms initHash = .error (.unbalanced n) := by
  rcases reinsert_init_spec pr hk hlen limit with ⟨table, h, _, _⟩ | ⟨c, n, _, h⟩
  · exact Or.inl ⟨table, h⟩
  · exact Or.inr ⟨n, h⟩

end HashTable

end Hhvm
