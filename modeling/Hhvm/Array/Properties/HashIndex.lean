import Hhvm.Array.Properties.Probing
import Mathlib.Data.Finset.Card

/-!
# hash 表の索引の不変量

`VanillaDict` と `VanillaKeyset` が共有する `HashTable` の表現の不変量 `WF`。

* 生きている要素は、ちょうど一つのマスから指される。
* そのマスは、要素の hash（`probe()`）の探索列の上で、どの `Empty` よりも手前にある。
* どのマスも tombstone や `m_used` より先の位置を指さない。
* `Empty` でないマスの数は `m_used` 以下であり、`m_used ≤ 3 * m_scale < 4 * m_scale` なので
  `Empty` のマスが必ず残る（探索のループが止まる理由）。

要素の列の各操作（末尾への追加、値の書き換え、tombstone 化）が索引の部分 `IndexWF` を保つことを
一度ずつ示し、表全体の `WF` の保存はそこから組み立てる。
-/

namespace Hhvm

open Infra.Probe HashTableCommon

namespace HashTable

variable {Elm : Type}

/-! ## 要素の列の見え方 -/

/-- 位置 `j` の生きている要素。tombstone と `m_used` より先は `none`。 -/
def liveOf (l : List (Option Elm)) (j : Nat) : Option Elm := l[j]?.bind id

/-- tombstone でない要素の数。 -/
def countLive (l : List (Option Elm)) : Nat := l.countP Option.isSome

theorem elmAt_eq_liveOf (t : HashTable Elm) : t.elmAt = liveOf t.elms := rfl

theorem liveOf_of_length_le {l : List (Option Elm)} {j : Nat} (h : l.length ≤ j) :
    liveOf l j = none := by
  simp [liveOf, List.getElem?_eq_none h]

theorem lt_length_of_liveOf {l : List (Option Elm)} {j : Nat} {e : Elm} (h : liveOf l j = some e) :
    j < l.length := by
  by_contra hj
  rw [liveOf_of_length_le (by omega)] at h
  cases h

theorem liveOf_append_some (l : List (Option Elm)) (e : Elm) :
    liveOf (l ++ [some e]) = Function.update (liveOf l) l.length (some e) := by
  funext j
  by_cases hj : j = l.length
  · subst hj; simp [liveOf]
  · rw [Function.update_of_ne hj]
    rcases Nat.lt_or_gt_of_ne hj with h | h
    · simp [liveOf, List.getElem?_append_left h]
    · rw [liveOf_of_length_le (l := l ++ [some e]) (by simp; omega),
        liveOf_of_length_le (l := l) (by omega)]

theorem liveOf_append_none (l : List (Option Elm)) : liveOf (l ++ [none]) = liveOf l := by
  funext j
  rcases Nat.lt_or_ge j l.length with h | h
  · simp [liveOf, List.getElem?_append_left h]
  · rw [liveOf_of_length_le h]
    rcases Nat.eq_or_lt_of_le h with rfl | h'
    · simp [liveOf]
    · exact liveOf_of_length_le (by simp; omega)

theorem liveOf_set_none (l : List (Option Elm)) (i : Nat) :
    liveOf (l.set i none) = Function.update (liveOf l) i none := by
  funext j
  by_cases hj : j = i
  · subst hj
    by_cases h : j < l.length <;> simp [liveOf, h]
  · rw [Function.update_of_ne hj]
    simp [liveOf, List.getElem?_set_ne (Ne.symm hj)]

theorem liveOf_set_some {l : List (Option Elm)} {i : Nat} (hi : i < l.length) (e : Elm) :
    liveOf (l.set i (some e)) = Function.update (liveOf l) i (some e) := by
  funext j
  by_cases hj : j = i
  · subst hj; simp [liveOf, hi]
  · rw [Function.update_of_ne hj]
    simp [liveOf, List.getElem?_set_ne (Ne.symm hj)]

theorem countLive_le_length (l : List (Option Elm)) : countLive l ≤ l.length :=
  List.countP_le_length

theorem countLive_eq_length (l : List (Option Elm)) : countLive l = (l.filterMap id).length :=
  List.length_filterMap_eq_countP.symm

theorem filterMap_id_map_some (m : List Elm) : (m.map some).filterMap id = m := by
  rw [List.filterMap_map]
  exact List.filterMap_some

theorem countLive_map_some (m : List Elm) : countLive (m.map some) = m.length := by
  rw [countLive_eq_length, filterMap_id_map_some]

theorem countLive_append_some (l : List (Option Elm)) (e : Elm) :
    countLive (l ++ [some e]) = countLive l + 1 := by
  simp [countLive]

theorem countLive_set_none {l : List (Option Elm)} {i : Nat} {e : Elm} (h : liveOf l i = some e) :
    countLive (l.set i none) + 1 = countLive l := by
  have hi := lt_length_of_liveOf h
  have hget : l[i] = some e := by simpa [liveOf, hi] using h
  have hc := List.countP_set (p := Option.isSome) (a := none) hi
  have hpos : 0 < l.countP Option.isSome :=
    List.countP_pos_iff.mpr ⟨some e, by rw [← hget]; exact List.getElem_mem hi, rfl⟩
  simp only [hget, Option.isSome_some, Option.isSome_none, if_true, Bool.false_eq_true,
    if_false] at hc
  unfold countLive
  omega

theorem countLive_set_some {l : List (Option Elm)} {i : Nat} {e : Elm} (h : liveOf l i = some e)
    (e' : Elm) : countLive (l.set i (some e')) = countLive l := by
  have hi := lt_length_of_liveOf h
  have hget : l[i] = some e := by simpa [liveOf, hi] using h
  have hc := List.countP_set (p := Option.isSome) (a := some e') hi
  have hpos : 0 < l.countP Option.isSome :=
    List.countP_pos_iff.mpr ⟨some e, by rw [← hget]; exact List.getElem_mem hi, rfl⟩
  simp only [hget, Option.isSome_some, if_true] at hc
  unfold countLive
  omega

/-! ## 索引の不変量 -/

/-- 要素 `i` が、hash `h` の探索列の上で、どの `Empty` よりも手前のマスから指されている。 -/
def Placed (table : Nat → Slot) (N h i : Nat) : Prop :=
  ∃ n, n < N ∧ table (probeSeq N h n) = .pos i ∧ ∀ m, m < n → table (probeSeq N h m) ≠ .empty

/-- 指されている要素の探索列は、最初のマスから `Empty` ではない。 -/
theorem Placed.first_ne_empty {table : Nat → Slot} {N h i : Nat} (hp : Placed table N h i) :
    table (probeSeq N h 0) ≠ .empty := by
  obtain ⟨n, -, hpos, hbefore⟩ := hp
  rcases Nat.eq_zero_or_pos n with rfl | hn
  · rw [hpos]
    intro h
    cases h
  · exact hbefore 0 hn

/-- 大きさ `N` の hash 表 `table` が、生きている要素 `live` を索引している。 -/
structure IndexWF (pr : Elm → UInt32) (N : Nat) (table : Nat → Slot) (live : Nat → Option Elm) :
    Prop where
  /-- 位置を指すマスの先には生きている要素がある。 -/
  slot_live : ∀ j, j < N → ∀ i, table j = .pos i → (live i).isSome
  /-- 一つの位置を指すマスは一つだけである。 -/
  slot_unique : ∀ j j', j < N → j' < N → ∀ i, table j = .pos i → table j' = .pos i → j = j'
  /-- 生きている要素は、自分の hash の探索列の上、`Empty` より手前のマスから指される。 -/
  placed : ∀ i e, live i = some e → Placed table N (pr e).toNat i

/-- `[0, N)` の中で `Empty` でないマスの数。 -/
def occupied (table : Nat → Slot) (N : Nat) : Nat :=
  ((Finset.range N).filter (fun j => table j ≠ .empty)).card

/-- **`HashTable` の表現の不変量。** `pr` は要素の `probe()`。 -/
structure WF (pr : Elm → UInt32) (t : HashTable Elm) : Prop where
  /-- `m_scale` は 2 の冪。 -/
  scale_pow : ∃ k, t.scale = 2 ^ k
  /-- `m_used <= capacity()`。 -/
  used_le : t.used ≤ Capacity t.scale
  /-- `m_size` は tombstone でない要素の数。 -/
  size_eq : t.size = countLive t.elms
  index : IndexWF pr (numSlots t.scale) t.hashTab (liveOf t.elms)
  /-- `Empty` でないマスは `m_used` 個以下。 -/
  occupied_le : occupied t.hashTab (numSlots t.scale) ≤ t.used

/-! ## マスの数え上げ -/

theorem occupied_initHash (N : Nat) : occupied initHash N = 0 := by
  simp [occupied, initHash]

theorem occupied_update_le (table : Nat → Slot) (N j : Nat) (v : Slot) :
    occupied (Function.update table j v) N ≤ occupied table N + 1 := by
  unfold occupied
  calc _ ≤ (insert j ((Finset.range N).filter (fun x => table x ≠ .empty))).card := by
        apply Finset.card_le_card
        intro x hx
        simp only [Finset.mem_filter, Finset.mem_range, Finset.mem_insert] at hx ⊢
        by_cases hxj : x = j
        · exact Or.inl hxj
        · rw [Function.update_of_ne hxj] at hx
          exact Or.inr hx
    _ ≤ _ := Finset.card_insert_le _ _

/-- `Empty` でないマスを `Empty` でない値に書き換えても、数は変わらない。 -/
theorem occupied_update_of_ne_empty {table : Nat → Slot} {j : Nat} {v : Slot}
    (h1 : table j ≠ .empty) (h2 : v ≠ .empty) (N : Nat) :
    occupied (Function.update table j v) N = occupied table N := by
  unfold occupied
  congr 1
  apply Finset.filter_congr
  intro x _
  by_cases hxj : x = j
  · subst hxj; simp [h1, h2]
  · rw [Function.update_of_ne hxj]

/-- `Empty` でないマスが表の大きさより少なければ、`Empty` のマスがある。 -/
theorem exists_empty_of_occupied_lt {table : Nat → Slot} {N : Nat} (h : occupied table N < N) :
    ∃ j, j < N ∧ table j = .empty := by
  by_contra hno
  push Not at hno
  have hall : (Finset.range N).filter (fun j => table j ≠ .empty) = Finset.range N :=
    Finset.filter_true_of_mem (fun j hj => hno j (Finset.mem_range.mp hj))
  rw [occupied, hall, Finset.card_range] at h
  omega

/-- **`Empty` のマスは必ず残る。** -/
theorem WF.exists_empty {pr : Elm → UInt32} {t : HashTable Elm} (w : WF pr t) :
    ∃ j, j < numSlots t.scale ∧ t.hashTab j = .empty := by
  obtain ⟨k, hk⟩ := w.scale_pow
  apply exists_empty_of_occupied_lt
  have hocc := w.occupied_le
  have hused := w.used_le
  have hpos : 0 < t.scale := by rw [hk]; exact Nat.two_pow_pos k
  rw [numSlots, Capacity] at *
  omega

/-! ## 索引の保存 -/

section Index

variable {pr : Elm → UInt32} {N : Nat} {table : Nat → Slot} {live : Nat → Option Elm}

theorem IndexWF.init (pr : Elm → UInt32) (N : Nat) : IndexWF pr N initHash (fun _ => none) where
  slot_live := fun _ _ _ h => by cases h
  slot_unique := fun _ _ _ _ _ h => by cases h
  placed := fun _ _ h => by cases h

/-- 新しい位置 `i` を、探索列で初めて位置を指していないマスに書く。そのマスより手前に
`Empty` が無ければ、索引は保たれる（`findImpl` の miss と `findForNewInsert` の両方にあたる）。 -/
theorem IndexWF.insert (w : IndexWF pr N table live) {i : Nat} (hi : live i = none) {e : Elm}
    {n : Nat} (hn : n < N) (hfree : (table (probeSeq N (pr e).toNat n)).validPos = false)
    (hbefore : ∀ m, m < n → table (probeSeq N (pr e).toNat m) ≠ .empty) :
    IndexWF pr N (Function.update table (probeSeq N (pr e).toNat n) (.pos i))
      (Function.update live i (some e)) := by
  have hN : 0 < N := by omega
  set j₀ := probeSeq N (pr e).toNat n with hj₀
  have hj₀N : j₀ < N := probeSeq_lt hN _ _
  -- `i` を指すマスはまだ無い
  have hfresh : ∀ j, j < N → table j ≠ .pos i := by
    intro j hj hji
    have := w.slot_live j hj i hji
    rw [hi] at this
    cases this
  -- 他の要素の placed は、書き換えたマスを通らないか、通っても `Empty` でなくなるだけ
  have hother : ∀ j i', table j = .pos i' → Function.update table j₀ (.pos i) j = .pos i' := by
    intro j i' hj
    have hne : j ≠ j₀ := by
      intro h
      rw [← h, hj] at hfree
      cases hfree
    rw [Function.update_of_ne hne, hj]
  have hne_empty : ∀ j, table j ≠ .empty → Function.update table j₀ (.pos i) j ≠ .empty := by
    intro j hj
    by_cases h : j = j₀
    · subst h; simp
    · rw [Function.update_of_ne h]; exact hj
  refine ⟨?_, ?_, ?_⟩
  · intro j hj i' hji'
    by_cases h : j = j₀
    · subst h
      simp only [Function.update_self, Slot.pos.injEq] at hji'
      subst hji'
      simp
    · rw [Function.update_of_ne h] at hji'
      by_cases hii : i' = i
      · subst hii; exact absurd hji' (hfresh j hj)
      · rw [Function.update_of_ne hii]; exact w.slot_live j hj i' hji'
  · intro j j' hj hj' i' h1 h2
    by_cases ha : j = j₀ <;> by_cases hb : j' = j₀
    · rw [ha, hb]
    · subst ha
      simp only [Function.update_self, Slot.pos.injEq] at h1
      subst h1
      rw [Function.update_of_ne hb] at h2
      exact absurd h2 (hfresh j' hj')
    · subst hb
      simp only [Function.update_self, Slot.pos.injEq] at h2
      subst h2
      rw [Function.update_of_ne ha] at h1
      exact absurd h1 (hfresh j hj)
    · rw [Function.update_of_ne ha] at h1
      rw [Function.update_of_ne hb] at h2
      exact w.slot_unique j j' hj hj' i' h1 h2
  · intro i' e' he'
    by_cases hii : i' = i
    · subst hii
      simp only [Function.update_self, Option.some.injEq] at he'
      subst he'
      exact ⟨n, hn, by simp [j₀], fun m hm => hne_empty _ (hbefore m hm)⟩
    · rw [Function.update_of_ne hii] at he'
      obtain ⟨n', hn', hslot, hpre⟩ := w.placed i' e' he'
      exact ⟨n', hn', hother _ _ hslot, fun m hm => hne_empty _ (hpre m hm)⟩

/-- マス `j` が指す要素 `i` を消し、マスを `Tombstone` にする。 -/
theorem IndexWF.erase (w : IndexWF pr N table live) {j i : Nat} (hj : j < N)
    (hji : table j = .pos i) :
    IndexWF pr N (Function.update table j .tombstone) (Function.update live i none) := by
  refine ⟨?_, ?_, ?_⟩
  · intro j' hj' i' hji'
    by_cases h : j' = j
    · subst h; simp at hji'
    · rw [Function.update_of_ne h] at hji'
      have hii : i' ≠ i := by
        intro he
        subst he
        exact h (w.slot_unique j' j hj' hj i' hji' hji)
      rw [Function.update_of_ne hii]
      exact w.slot_live j' hj' i' hji'
  · intro a b ha hb i' h1 h2
    by_cases hja : a = j
    · subst hja; simp at h1
    by_cases hjb : b = j
    · subst hjb; simp at h2
    rw [Function.update_of_ne hja] at h1
    rw [Function.update_of_ne hjb] at h2
    exact w.slot_unique a b ha hb i' h1 h2
  · intro i' e' he'
    by_cases hii : i' = i
    · subst hii; simp at he'
    rw [Function.update_of_ne hii] at he'
    obtain ⟨n, hn, hslot, hpre⟩ := w.placed i' e' he'
    refine ⟨n, hn, ?_, ?_⟩
    · have hne : probeSeq N (pr e').toNat n ≠ j := by
        intro h
        rw [h, hji] at hslot
        exact hii (Slot.pos.inj hslot).symm
      rw [Function.update_of_ne hne, hslot]
    · intro m hm
      by_cases h : probeSeq N (pr e').toNat m = j
      · rw [h]; simp
      · rw [Function.update_of_ne h]; exact hpre m hm

/-- 生きている要素を、同じ hash の要素に書き換える。 -/
theorem IndexWF.set (w : IndexWF pr N table live) {i : Nat} {e e' : Elm} (hi : live i = some e)
    (hpr : pr e' = pr e) : IndexWF pr N table (Function.update live i (some e')) := by
  refine ⟨?_, w.slot_unique, ?_⟩
  · intro j hj i' hji'
    by_cases hii : i' = i
    · subst hii; simp
    · rw [Function.update_of_ne hii]; exact w.slot_live j hj i' hji'
  · intro i' e'' he''
    by_cases hii : i' = i
    · subst hii
      simp only [Function.update_self, Option.some.injEq] at he''
      subst he''
      rw [hpr]
      exact w.placed i' e hi
    · rw [Function.update_of_ne hii] at he''
      exact w.placed i' e'' he''

end Index

/-! ## 表の操作と `WF` -/

section Table

variable {pr : Elm → UInt32} {t : HashTable Elm}

theorem liveOf_used (t : HashTable Elm) : liveOf t.elms t.used = none :=
  liveOf_of_length_le (le_refl _)

/-- `InitHash` した空の表は `WF` である。 -/
theorem WF.init (pr : Elm → UInt32) {scale k : Nat} (hk : scale = 2 ^ k) :
    WF pr ⟨scale, 0, [], initHash⟩ where
  scale_pow := ⟨k, hk⟩
  used_le := Nat.zero_le _
  size_eq := rfl
  index := by
    have hnil : liveOf ([] : List (Option Elm)) = fun _ => none := by
      funext j
      exact liveOf_of_length_le (by simp)
    rw [hnil]
    exact IndexWF.init pr _
  occupied_le := by
    show occupied initHash _ ≤ 0
    rw [occupied_initHash]

/-- `allocElm` は、探索列で初めて位置を指していないマスを使い、その手前に `Empty` が無ければ
`WF` を保つ。 -/
theorem WF.allocElm (w : WF pr t) (hfull : t.used < Capacity t.scale) {e : Elm} {n : Nat}
    (hn : n < numSlots t.scale)
    (hfree : (t.hashTab (probeSeq (numSlots t.scale) (pr e).toNat n)).validPos = false)
    (hbefore : ∀ m, m < n → t.hashTab (probeSeq (numSlots t.scale) (pr e).toNat m) ≠ .empty) :
    WF pr (t.allocElm (probeSeq (numSlots t.scale) (pr e).toNat n) e) where
  scale_pow := w.scale_pow
  used_le := by
    show (t.elms ++ [some e]).length ≤ _
    simp only [List.length_append, List.length_singleton]
    exact hfull
  size_eq := by
    rw [allocElm_size, allocElm_elms, countLive_append_some, w.size_eq]
  index := by
    rw [allocElm_hashTab, allocElm_elms, liveOf_append_some]
    exact w.index.insert (liveOf_used t) hn hfree hbefore
  occupied_le := by
    have h1 := occupied_update_le t.hashTab (numSlots t.scale)
      (probeSeq (numSlots t.scale) (pr e).toNat n) (.pos t.used)
    have h2 := w.occupied_le
    show _ ≤ (t.elms ++ [some e]).length
    simp only [allocElm_hashTab, allocElm_scale, List.length_append, List.length_singleton]
    exact le_trans h1 (by simp only [used] at h2; omega)

/-- `eraseNoCompact` は、要素 `i` を指すマスについて `WF` を保つ。 -/
theorem WF.eraseNoCompact (w : WF pr t) {j i : Nat} (hj : j < numSlots t.scale)
    (hji : t.hashTab j = .pos i) : WF pr (t.eraseNoCompact j i) := by
  obtain ⟨e, he⟩ := Option.isSome_iff_exists.mp (w.index.slot_live j hj i hji)
  refine ⟨w.scale_pow, ?_, ?_, ?_, ?_⟩
  · show (t.elms.set i none).length ≤ _
    rw [List.length_set]; exact w.used_le
  · rw [eraseNoCompact_size, eraseNoCompact_elms, w.size_eq, ← countLive_set_none he]
    rfl
  · rw [eraseNoCompact_hashTab, eraseNoCompact_elms, liveOf_set_none]
    exact w.index.erase hj hji
  · rw [eraseNoCompact_hashTab, eraseNoCompact_scale,
      occupied_update_of_ne_empty (by rw [hji]; simp) (by simp)]
    show _ ≤ (t.elms.set i none).length
    rw [List.length_set]; exact w.occupied_le

/-- 生きている要素を同じ hash の要素に書き換えても `WF` は保たれる。 -/
theorem WF.setElm (w : WF pr t) {i : Nat} {e e' : Elm} (hi : liveOf t.elms i = some e)
    (hpr : pr e' = pr e) : WF pr (t.setElm i e') := by
  have hlt := lt_length_of_liveOf hi
  refine ⟨w.scale_pow, ?_, ?_, ?_, ?_⟩
  · show (t.elms.set i (some e')).length ≤ _
    rw [List.length_set]; exact w.used_le
  · rw [setElm_size, setElm_elms, countLive_set_some hi, w.size_eq]
  · rw [setElm_hashTab, setElm_elms, liveOf_set_some hlt]
    exact w.index.set hi hpr
  · show _ ≤ (t.elms.set i (some e')).length
    rw [List.length_set]; exact w.occupied_le

end Table

/-! ## 探索の結果 -/

section Find

variable {pr : Elm → UInt32} {t : HashTable Elm}

theorem hitAt_eq (t : HashTable Elm) (hit : Elm → Bool) (p : Nat) :
    t.hitAt hit p = ((liveOf t.elms p).map hit).getD false := by
  unfold hitAt liveOf
  rcases t.elms[p]? with _ | _ | e <;> rfl

/-- 探索列の出発点は、剰余が等しい hash どうしで同じである。 -/
theorem probeSeq_congr {N a b : Nat} (h : a % N = b % N) (m : Nat) :
    probeSeq N a m = probeSeq N b m := by
  rw [← probeSeq_mod N a, h, probeSeq_mod]

/-- **key のある要素は見つかる。** `hit` を満たす生きている要素が一つだけで、探索に使う hash が
その要素の `probe()` と剰余で等しければ、`findImpl` はその要素を指すマスで止まる。 -/
theorem WF.findImpl_hit (w : WF pr t) (hit : Elm → Bool) (h0 : UInt32) {i : Nat} {e : Elm}
    (he : liveOf t.elms i = some e) (hhit : hit e = true)
    (huniq : ∀ i' e', liveOf t.elms i' = some e' → hit e' = true → i' = i)
    (hcons : (pr e).toNat % numSlots t.scale = h0.toNat % numSlots t.scale) :
    ∃ j, j < numSlots t.scale ∧ t.hashTab j = .pos i ∧ t.findImpl h0 hit = some (.hit j i) := by
  obtain ⟨k, hk⟩ := w.scale_pow
  have hN := numSlots_eq_pow hk
  obtain ⟨n, hn, hslot, hpre⟩ := w.index.placed i e he
  rw [probeSeq_congr hcons] at hslot
  have hpre' : ∀ m, m < n → t.hashTab (probeSeq (numSlots t.scale) h0.toNat m) ≠ .empty := by
    intro m hm
    rw [← probeSeq_congr hcons]
    exact hpre m hm
  have hlt : ∀ m, probeSeq (numSlots t.scale) h0.toNat m < numSlots t.scale :=
    probeSeq_lt (numSlots_pos hk) _
  refine ⟨_, hlt n, hslot, findImpl_first hk hit h0 hn ?_ ?_⟩
  · -- 手前のマスは `Tombstone` か、別の要素を指す
    intro m hm
    cases hc : t.hashTab (probeSeq (numSlots t.scale) h0.toNat m) with
    | pos i' =>
      have hmiss : t.hitAt hit i' = false := by
        rw [hitAt_eq]
        cases hl : liveOf t.elms i' with
        | none => rfl
        | some e' =>
          cases hh : hit e' with
          | false => simp [hh]
          | true =>
            exfalso
            have hii := huniq i' e' hl hh
            subst hii
            have hj := w.index.slot_unique _ _ (hlt m) (hlt n) i' hc hslot
            rw [hN] at hj hn
            have := probeSeq_injective (by omega) hn hj
            omega
      rw [stopAt_pos hc, hmiss]
      rfl
    | empty => exact absurd hc (hpre' m hm)
    | tombstone => exact stopAt_tombstone hc
  · rw [stopAt_pos hslot, hitAt_eq, he]
    simp [hhit]

/-- `Empty` のマスがあり、`hit` を満たす生きている要素が無ければ、`findImpl` は探索列で最初の
`Empty` のマスで止まる。表の索引が途中までしかできていなくてもよい。 -/
theorem findImpl_miss_of_empty {k : Nat} (hk : t.scale = 2 ^ k) (hit : Elm → Bool) (h0 : UInt32)
    (hex : ∃ j, j < numSlots t.scale ∧ t.hashTab j = .empty)
    (hnone : ∀ i e, liveOf t.elms i = some e → hit e = false) :
    ∃ n, n < numSlots t.scale ∧
      t.hashTab (probeSeq (numSlots t.scale) h0.toNat n) = .empty ∧
      (∀ m, m < n → t.hashTab (probeSeq (numSlots t.scale) h0.toNat m) ≠ .empty) ∧
      t.findImpl h0 hit = some (.miss (probeSeq (numSlots t.scale) h0.toNat n)) := by
  have hN := numSlots_eq_pow hk
  obtain ⟨j, hj, hje⟩ := hex
  rw [hN] at hj
  obtain ⟨t₀, ht₀, ht₀j⟩ := probeSeq_surjective (k + 2) h0.toNat j hj
  have hex : ∃ n, t.hashTab (probeSeq (numSlots t.scale) h0.toNat n) = .empty :=
    ⟨t₀, by rw [hN, ht₀j]; exact hje⟩
  have hmin := Nat.find_min' hex (m := t₀) (by rw [hN, ht₀j]; exact hje)
  have hlt : Nat.find hex < numSlots t.scale := by omega
  have hskip : ∀ m, m < Nat.find hex →
      t.hashTab (probeSeq (numSlots t.scale) h0.toNat m) ≠ .empty :=
    fun m hm => Nat.find_min hex hm
  refine ⟨Nat.find hex, hlt, Nat.find_spec hex, hskip, findImpl_first hk hit h0 hlt ?_ ?_⟩
  · intro m hm
    cases hc : t.hashTab (probeSeq (numSlots t.scale) h0.toNat m) with
    | pos i' =>
      have hmiss : t.hitAt hit i' = false := by
        rw [hitAt_eq]
        cases hl : liveOf t.elms i' with
        | none => rfl
        | some e' => simp [hnone i' e' hl]
      rw [stopAt_pos hc, hmiss]
      rfl
    | empty => exact absurd hc (hskip m hm)
    | tombstone => exact stopAt_tombstone hc
  · exact stopAt_empty (Nat.find_spec hex)

/-- **探索は必ず返る。** `Empty` のマスがあれば、`findImpl` は `numSlots` 回以内に止まる。 -/
theorem findImpl_isSome_of_empty {k : Nat} (hk : t.scale = 2 ^ k) (hit : Elm → Bool) (h0 : UInt32)
    (hex : ∃ j, j < numSlots t.scale ∧ t.hashTab j = .empty) : (t.findImpl h0 hit).isSome := by
  have hN := numSlots_eq_pow hk
  obtain ⟨j, hj, hje⟩ := hex
  rw [hN] at hj
  obtain ⟨t₀, ht₀, ht₀j⟩ := probeSeq_surjective (k + 2) h0.toNat j hj
  -- `Empty` のマスでは必ず止まるので、最初に止まるマスは `t₀` 番目より手前にある
  have hstop₀ : (t.stopAt hit (probeSeq (numSlots t.scale) h0.toNat t₀)).isSome := by
    rw [hN, ht₀j, stopAt_empty hje]; rfl
  have hex' : ∃ n, (t.stopAt hit (probeSeq (numSlots t.scale) h0.toNat n)).isSome := ⟨t₀, hstop₀⟩
  have hmin := Nat.find_min' hex' hstop₀
  obtain ⟨r, hr⟩ := Option.isSome_iff_exists.mp (Nat.find_spec hex')
  have hskip : ∀ m, m < Nat.find hex' →
      t.stopAt hit (probeSeq (numSlots t.scale) h0.toNat m) = none :=
    fun m hm => Option.not_isSome_iff_eq_none.mp (Nat.find_min hex' hm)
  rw [findImpl_first hk hit h0 (by omega) hskip hr]
  rfl

/-- **key の無い要素は見つからない。** `hit` を満たす生きている要素が無ければ、`findImpl` は
探索列で最初の `Empty` のマスで止まる。 -/
theorem WF.findImpl_miss (w : WF pr t) (hit : Elm → Bool) (h0 : UInt32)
    (hnone : ∀ i e, liveOf t.elms i = some e → hit e = false) :
    ∃ n, n < numSlots t.scale ∧
      t.hashTab (probeSeq (numSlots t.scale) h0.toNat n) = .empty ∧
      (∀ m, m < n → t.hashTab (probeSeq (numSlots t.scale) h0.toNat m) ≠ .empty) ∧
      t.findImpl h0 hit = some (.miss (probeSeq (numSlots t.scale) h0.toNat n)) := by
  obtain ⟨k, hk⟩ := w.scale_pow
  exact findImpl_miss_of_empty hk hit h0 w.exists_empty hnone

/-- `findForNewInsert` は、`WF` な表で、探索列の最初の `Empty` か `Tombstone` のマスを返す。 -/
theorem WF.newInsert (w : WF pr t) (h0 : UInt32) :
    ∃ n, n < numSlots t.scale ∧
      newInsertLoop t.hashTab (Mask t.scale) (Mask t.scale + 1) (h0.toNat &&& Mask t.scale) 1
        = some (probeSeq (numSlots t.scale) h0.toNat n, n + 1) ∧
      (t.hashTab (probeSeq (numSlots t.scale) h0.toNat n)).validPos = false ∧
      ∀ m, m < n → t.hashTab (probeSeq (numSlots t.scale) h0.toNat m) ≠ .empty := by
  obtain ⟨k, hk⟩ := w.scale_pow
  obtain ⟨j, hj, hje⟩ := w.exists_empty
  have hfree0 : ∃ j, j < numSlots t.scale ∧ (t.hashTab j).validPos = false :=
    ⟨j, hj, by rw [hje]; rfl⟩
  obtain ⟨n, hn, hloop, hfree, hpre⟩ := newInsertLoop_spec hk h0 hfree0
  refine ⟨n, hn, hloop, hfree, fun m hm hempty => ?_⟩
  have := hpre m hm
  rw [hempty] at this
  cases this

/-! ## 探索の結果を使う書き換え

key が重なっているかどうかに関わらず、探索が返したマスに書く限り `WF` は保たれる。
-/

/-- `findImpl` が `Empty` のマスを返し、要素の hash がそのマスへ導くなら、そこに足してよい。 -/
theorem WF.allocElm_of_miss (w : WF pr t) (hfull : t.used < Capacity t.scale) {hit : Elm → Bool}
    {h0 : UInt32} {p : Nat} (hf : t.findImpl h0 hit = some (.miss p)) {e : Elm}
    (hcons : (pr e).toNat % numSlots t.scale = h0.toNat % numSlots t.scale) :
    WF pr (t.allocElm p e) := by
  obtain ⟨k, hk⟩ := w.scale_pow
  obtain ⟨n, hn, hstop, hskip⟩ := findImpl_spec hk hf
  obtain ⟨rfl, hempty⟩ := stopAt_eq_miss hstop
  rw [← probeSeq_congr hcons] at hempty ⊢
  refine w.allocElm hfull hn (by rw [hempty]; rfl) (fun m hm => ?_)
  rw [probeSeq_congr hcons]
  exact ne_empty_of_stopAt_none (hskip m hm)

/-- `findImpl` が当たったマスは表の中にあり、その位置を指している。 -/
theorem WF.slot_of_hit (w : WF pr t) {hit : Elm → Bool} {h0 : UInt32} {p i : Nat}
    (hf : t.findImpl h0 hit = some (.hit p i)) :
    p < numSlots t.scale ∧ t.hashTab p = .pos i ∧ t.hitAt hit i = true := by
  obtain ⟨k, hk⟩ := w.scale_pow
  obtain ⟨n, -, hstop, -⟩ := findImpl_spec hk hf
  obtain ⟨rfl, hslot, hh⟩ := stopAt_eq_hit hstop
  exact ⟨probeSeq_lt (numSlots_pos hk) _ _, hslot, hh⟩

/-- `findImpl` が当たったマスとその要素を消してよい。 -/
theorem WF.eraseNoCompact_of_hit (w : WF pr t) {hit : Elm → Bool} {h0 : UInt32} {p i : Nat}
    (hf : t.findImpl h0 hit = some (.hit p i)) : WF pr (t.eraseNoCompact p i) := by
  obtain ⟨hp, hslot, -⟩ := w.slot_of_hit hf
  exact w.eraseNoCompact hp hslot

/-- `findForNewInsert` が返すマスに、要素の hash がそこへ導く要素を足してよい。 -/
theorem WF.allocElm_of_newInsert (w : WF pr t) (hfull : t.used < Capacity t.scale) {h0 : UInt32}
    {p : Nat} (hf : findForNewInsert t.hashTab t.mask h0 = some p) {e : Elm}
    (hcons : (pr e).toNat % numSlots t.scale = h0.toNat % numSlots t.scale) :
    WF pr (t.allocElm p e) := by
  obtain ⟨n, hn, hloop, hfree, hbefore⟩ := w.newInsert h0
  have hp : p = probeSeq (numSlots t.scale) h0.toNat n := by
    unfold findForNewInsert at hf
    rw [show t.mask = Mask t.scale from rfl, hloop] at hf
    cases hf
    rfl
  subst hp
  rw [← probeSeq_congr hcons] at hfree ⊢
  refine w.allocElm hfull hn hfree (fun m hm => ?_)
  rw [probeSeq_congr hcons]
  exact hbefore m hm

/-- 探索が当たった位置には、`hit` を満たす生きている要素がある。 -/
theorem liveOf_of_hit (w : WF pr t) {hit : Elm → Bool} {h0 : UInt32} {p i : Nat}
    (hf : t.findImpl h0 hit = some (.hit p i)) : ∃ e, liveOf t.elms i = some e ∧ hit e = true := by
  obtain ⟨-, -, hh⟩ := w.slot_of_hit hf
  rw [hitAt_eq] at hh
  cases hl : liveOf t.elms i with
  | none => rw [hl] at hh; cases hh
  | some e => rw [hl] at hh; exact ⟨e, rfl, hh⟩

end Find

end HashTable

end Hhvm
