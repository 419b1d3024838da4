import Hhvm.Array.Properties.HashIndex

/-!
# 走査

配列の利用者は `IterBegin` から `IterAdvance` で `IterEnd` まで進み、各位置で
`GetPosKey` / `GetPosVal` を読む（逆向きには `IterLast` から `IterRewind`）。
その走査が、生きている要素を位置の順に（逆向きには逆の順に）ちょうど一度ずつ読むことを示す。
tombstone を飛ばすのは `nextElm` と `prevElm` の仕事なので、索引の不変量は要らない。
-/

namespace Hhvm

namespace HashTable

variable {Elm : Type}

/-- 位置 `pos` から `IterAdvance` で `IterEnd` まで進み、読んだ要素を並べる。 -/
def iterForward (t : HashTable Elm) : Nat → Nat → List Elm
  | 0, _ => []
  | fuel + 1, pos =>
    if pos < t.used then (t.elmAt pos).toList ++ t.iterForward fuel (t.IterAdvance pos) else []

/-- 位置 `pos` から `IterRewind` で `IterEnd` まで戻り、読んだ要素を並べる。 -/
def iterBackward (t : HashTable Elm) : Nat → Nat → List Elm
  | 0, _ => []
  | fuel + 1, pos =>
    if pos < t.used then (t.elmAt pos).toList ++ t.iterBackward fuel (t.IterRewind pos) else []

/-! ## `nextElm` -/

/-- `nextElm` は生きている要素の位置か、`m_used` を返す。 -/
theorem nextElm_live_or_end (l : List (Option Elm)) (i : Nat) :
    nextElm l i = l.length ∨ (liveOf l (nextElm l i)).isSome := by
  fun_induction nextElm l i with
  | case1 ei h hs =>
    right
    simpa [liveOf, h] using hs
  | case2 ei h hs ih => exact ih
  | case3 ei h => exact Or.inl rfl

theorem le_nextElm (l : List (Option Elm)) {i : Nat} (hi : i ≤ l.length) : i ≤ nextElm l i := by
  fun_induction nextElm l i with
  | case1 ei h hs => exact le_refl ei
  | case2 ei h hs ih => exact Nat.le_of_succ_le (ih h)
  | case3 ei h => exact hi

/-- tombstone を飛ばしても、その先の生きている要素の列は変わらない。 -/
theorem filterMap_drop_nextElm (l : List (Option Elm)) (i : Nat) :
    (l.drop (nextElm l i)).filterMap id = (l.drop i).filterMap id := by
  fun_induction nextElm l i with
  | case1 ei h hs => rfl
  | case2 ei h hs ih =>
    rw [ih, List.drop_eq_getElem_cons h]
    have hn : l[ei] = none := by simpa using hs
    rw [hn]
    rfl
  | case3 ei h =>
    rw [List.drop_of_length_le (Nat.le_refl _), List.drop_of_length_le (by omega)]

/-- `IterAdvance` は次の位置から `nextElm` を探すのと同じである。 -/
theorem IterAdvance_eq (t : HashTable Elm) (pos : Nat) :
    t.IterAdvance pos = nextElm t.elms (pos + 1) := by
  unfold IterAdvance
  split
  · next hge =>
    rw [nextElm, dif_neg (by unfold used at hge; omega)]
    rfl
  · next hlt =>
    split
    · next hs =>
      have hlt' : pos + 1 < t.elms.length := by unfold used at hlt; omega
      rw [nextElm, dif_pos hlt']
      simp only [List.getElem?_eq_getElem hlt', Option.bind_some, id] at hs
      rw [if_pos hs]
    · next hs =>
      rfl

/-- **前向きの走査。** 生きている要素の位置（または終端）から走査すると、そこから先の
生きている要素がちょうど位置の順に読まれる。 -/
theorem iterForward_eq (t : HashTable Elm) :
    ∀ fuel pos, (pos = t.used ∨ (liveOf t.elms pos).isSome) → t.used < fuel + pos →
      t.iterForward fuel pos = (t.elms.drop pos).filterMap id := by
  intro fuel
  induction fuel with
  | zero =>
    intro pos _ hlt
    rw [iterForward, List.drop_of_length_le (by unfold used at hlt; omega)]
    rfl
  | succ fuel ih =>
    intro pos hpos hlt
    rw [iterForward]
    by_cases hp : pos < t.used
    · -- `pos` は生きている要素の位置
      rw [if_pos hp]
      have hl : (liveOf t.elms pos).isSome := hpos.resolve_left (by omega)
      obtain ⟨e, he⟩ := Option.isSome_iff_exists.mp hl
      have hlen : pos < t.elms.length := hp
      have hget : t.elms[pos] = some e := by simpa [liveOf, hlen] using he
      have hnext := nextElm_live_or_end t.elms (pos + 1)
      have hle := le_nextElm t.elms (show pos + 1 ≤ t.elms.length from hp)
      rw [elmAt_eq_liveOf, he, IterAdvance_eq, ih _ hnext (by unfold used at *; omega),
        filterMap_drop_nextElm, List.drop_eq_getElem_cons hlen, hget]
      rfl
    · rw [if_neg hp, List.drop_of_length_le (by unfold used at hp; omega)]
      rfl

/-- **`IterBegin` から `IterEnd` までの走査は、生きている要素を位置の順に読む。** -/
theorem iterForward_IterBegin (t : HashTable Elm) :
    t.iterForward (t.used + 1) t.IterBegin = t.elms.filterMap id := by
  rw [IterBegin, iterForward_eq t _ _ (nextElm_live_or_end t.elms 0) (by omega),
    filterMap_drop_nextElm, List.drop_zero]

/-! ## `prevElm` -/

theorem prevElm_succ (l : List (Option Elm)) (n : Nat) :
    prevElm l (n + 1) = if (liveOf l n).isSome then n else prevElm l n := rfl

theorem take_succ_filterMap_of_live {l : List (Option Elm)} {n : Nat} {e : Elm}
    (he : liveOf l n = some e) : (l.take (n + 1)).filterMap id = (l.take n).filterMap id ++ [e] := by
  have hn := lt_length_of_liveOf he
  have hget : l[n] = some e := by simpa [liveOf, hn] using he
  rw [List.take_add_one, List.getElem?_eq_getElem hn, hget, List.filterMap_append]
  rfl

theorem take_succ_filterMap_of_dead {l : List (Option Elm)} {n : Nat} (he : liveOf l n = none) :
    (l.take (n + 1)).filterMap id = (l.take n).filterMap id := by
  rw [List.take_add_one, List.filterMap_append]
  cases hn : l[n]? with
  | none => simp
  | some x =>
    have hx : x = none := by simpa [liveOf, hn] using he
    subst hx
    simp

/-- `prevElm l n` の要素は、先頭から `n` 個のうち最後の生きている要素である。 -/
theorem liveOf_prevElm (l : List (Option Elm)) :
    ∀ n, n ≤ l.length → liveOf l (prevElm l n) = ((l.take n).filterMap id).getLast?
  | 0, _ => by
    rw [prevElm, liveOf_of_length_le (le_refl _)]
    rfl
  | n + 1, hn => by
    rw [prevElm_succ]
    cases he : liveOf l n with
    | none =>
      rw [Option.isSome_none, if_neg Bool.false_ne_true, take_succ_filterMap_of_dead he]
      exact liveOf_prevElm l n (by omega)
    | some e =>
      rw [Option.isSome_some, if_pos rfl, he, take_succ_filterMap_of_live he, List.getLast?_concat]

/-- `IterLast` は最後の生きている要素を指す。 -/
theorem elmAt_IterLast (t : HashTable Elm) : t.elmAt t.IterLast = (t.elms.filterMap id).getLast? := by
  rw [elmAt_eq_liveOf, IterLast]
  unfold used
  rw [liveOf_prevElm t.elms _ (le_refl _), List.take_length]

theorem IterRewind_of_lt (t : HashTable Elm) {pos : Nat} (hp : pos < t.used) :
    t.IterRewind pos = prevElm t.elms pos := by
  rw [IterRewind, if_neg (by unfold IterEnd; omega)]

theorem iterBackward_end (t : HashTable Elm) (fuel : Nat) : t.iterBackward fuel t.used = [] := by
  cases fuel with
  | zero => rfl
  | succ fuel => rw [iterBackward, if_neg (lt_irrefl _)]

/-- **後ろ向きの走査。** 先頭から `n` 個のうち最後の生きている要素から戻ると、その `n` 個の
生きている要素が逆の順に読まれる。 -/
theorem iterBackward_prevElm (t : HashTable Elm) :
    ∀ n, n ≤ t.used → ∀ fuel, n ≤ fuel →
      t.iterBackward fuel (prevElm t.elms n) = ((t.elms.take n).filterMap id).reverse
  | 0, _, fuel, _ => by
    rw [prevElm]
    exact iterBackward_end t fuel
  | n + 1, hn, fuel, hf => by
    rw [prevElm_succ]
    cases he : liveOf t.elms n with
    | none =>
      rw [Option.isSome_none, if_neg Bool.false_ne_true, take_succ_filterMap_of_dead he]
      exact iterBackward_prevElm t n (by omega) fuel (by omega)
    | some e =>
      rw [Option.isSome_some, if_pos rfl, take_succ_filterMap_of_live he, List.reverse_append]
      obtain ⟨fuel, rfl⟩ : ∃ f, fuel = f + 1 := ⟨fuel - 1, by omega⟩
      have hlt : n < t.used := by omega
      rw [iterBackward, if_pos hlt, elmAt_eq_liveOf, he, IterRewind_of_lt t hlt,
        iterBackward_prevElm t n (by omega) fuel (by omega)]
      rfl

/-- **`IterLast` から `IterEnd` までの逆向きの走査は、生きている要素を逆の順に読む。** -/
theorem iterBackward_IterLast (t : HashTable Elm) :
    t.iterBackward (t.used + 1) t.IterLast = (t.elms.filterMap id).reverse := by
  rw [IterLast, iterBackward_prevElm t t.used (le_refl _) _ (Nat.le_succ _)]
  unfold used
  rw [List.take_length]

end HashTable

end Hhvm
