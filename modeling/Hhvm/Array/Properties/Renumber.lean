import Hhvm.Array.Properties.DictRefinement

/-!
# `compact` と `Renumber`

`VanillaDict::compact(renumber)` は tombstone を除いて要素を前に詰め、表を作り直す。
`renumber` なら（`VanillaDict::Renumber` が呼ぶ）int key を前から順に `0, 1, 2, …` に
付け替え、`m_nextKI` をその個数にする。

付け替えの仕様 `Renumbered` は列の射影で書く：文字列 key と値は位置ごとにそのままで、
int key だけを順に読むと `0, 1, …, n - 1`。`renumberLoop` をこの形に直す補題を三つ
（`renumberLoop_shape`、`renumberLoop_ints`、`renumberLoop_next`）置き、`compact` の
詰め直し（`compactLoop_size`）と合わせて `compact_preserves_contents` にまとめる。

`m_nextKI` は `int64_t` で、付け替えは 2^64 を法とする `Int64.ofNat`。
-/

namespace Hhvm

open Infra HashTableCommon HashTable

namespace Key

variable {S : Type}

/-- int key ならその値。 -/
def int? : Key S → Option Int64
  | .int k => some k
  | .str _ => none

/-- 文字列 key ならその文字列。int key はどれも `none` に潰れる。 -/
def str? : Key S → Option S
  | .int _ => none
  | .str s => some s

@[simp] theorem int?_int (k : Int64) : (Key.int k : Key S).int? = some k := rfl

@[simp] theorem int?_str (s : S) : (Key.str s).int? = none := rfl

@[simp] theorem str?_int (k : Int64) : (Key.int k : Key S).str? = none := rfl

@[simp] theorem str?_str (s : S) : (Key.str s).str? = some s := rfl

end Key

namespace VanillaDict

variable {S α : Type} {H : Hasher S} {d d' : VanillaDict S α}

/-! ## 付け替えの仕様 -/

/-- `r` は `l` の int key を前から順に `0, 1, 2, …` に付け替えた列。 -/
structure Renumbered (l r : List (Key S × α)) : Prop where
  /-- 位置ごとの文字列 key と値は変わらない（int key の位置も変わらない）。 -/
  shape : r.map (fun e => (e.1.str?, e.2)) = l.map (fun e => (e.1.str?, e.2))
  /-- int key を順に読むと `0, 1, …, intCount l - 1`。 -/
  ints : r.filterMap (fun e => e.1.int?) = (List.range (intCount l)).map Int64.ofNat

@[simp] theorem intCount_nil : intCount ([] : List (Key S × α)) = 0 := rfl

@[simp] theorem intCount_int_cons (k : Int64) (v : α) (l : List (Key S × α)) :
    intCount ((.int k, v) :: l) = intCount l + 1 := by
  simp [intCount, Key.hasIntKey]

@[simp] theorem intCount_str_cons (s : S) (v : α) (l : List (Key S × α)) :
    intCount ((.str s, v) :: l) = intCount l := by
  simp [intCount, Key.hasIntKey]

/-! ## `renumberLoop` -/

/-- 文字列 key と値は位置ごとにそのまま。 -/
theorem renumberLoop_shape : ∀ (n : Int64) (l : List (Key S × α)),
    (renumberLoop n l).1.map (fun e => (e.1.str?, e.2)) = l.map (fun e => (e.1.str?, e.2))
  | _, [] => rfl
  | n, (.int _, v) :: rest => by
    simp only [renumberLoop, List.map_cons, Key.str?_int, renumberLoop_shape (n + 1) rest]
  | n, (.str s, v) :: rest => by
    simp only [renumberLoop, List.map_cons, renumberLoop_shape n rest]

/-- `n` から振った int key は、順に `n, n + 1, …`。 -/
theorem renumberLoop_ints : ∀ (n : Int64) (l : List (Key S × α)),
    (renumberLoop n l).1.filterMap (fun e => e.1.int?) =
      (List.range (intCount l)).map (fun i => n + Int64.ofNat i)
  | _, [] => rfl
  | n, (.int _, v) :: rest => by
    have ih := renumberLoop_ints (n + 1) rest
    simp only [renumberLoop, List.filterMap_cons, Key.int?_int, ih, intCount_int_cons,
      List.range_succ_eq_map, List.map_cons, List.map_map]
    -- 先頭は `n + 0`、残りは `(n + 1) + i = n + (i + 1)`
    congr 1
    · exact (Int64.add_zero n).symm
    · apply List.map_congr_left
      intro i _
      have hsucc : Int64.ofNat (i + 1) = Int64.ofNat i + 1 := Int64.ofNat_add i 1
      simp only [Function.comp, Nat.succ_eq_add_one, hsucc]
      grind
  | n, (.str s, v) :: rest => by
    simp only [renumberLoop, List.filterMap_cons, Key.int?_str, renumberLoop_ints n rest,
      intCount_str_cons]

/-- 返す `m_nextKI` は `n` に int key の個数を足したもの。 -/
theorem renumberLoop_next : ∀ (n : Int64) (l : List (Key S × α)),
    (renumberLoop n l).2 = n + Int64.ofNat (intCount l)
  | n, [] => (Int64.add_zero n).symm
  | n, (.int _, v) :: rest => by
    simp only [renumberLoop, renumberLoop_next (n + 1) rest, intCount_int_cons, Int64.ofNat_add]
    have h1 : Int64.ofNat 1 = 1 := rfl
    rw [h1]
    grind
  | n, (.str s, v) :: rest => by
    simp only [renumberLoop, renumberLoop_next n rest, intCount_str_cons]

/-- `0` から振れば、仕様どおりの付け替え。 -/
theorem renumbered_renumberLoop (l : List (Key S × α)) : Renumbered l (renumberLoop 0 l).1 := by
  refine ⟨renumberLoop_shape 0 l, ?_⟩
  rw [renumberLoop_ints]
  simp only [Int64.zero_add]

/-! ## `compact` -/

/-- `compact(true)` は生きている要素の列を付け替えたものを置き、`m_nextKI` を付け替えの後の値にする。 -/
theorem compact_true_elms (hw : d.toHashTable.WF (elmProbe H)) (h : d.compact H true = .ok d') :
    d'.elms = (renumberLoop 0 (abs d)).1.map some ∧ d'.nextKI = (renumberLoop 0 (abs d)).2 := by
  obtain ⟨R, hR, table, -, rfl⟩ := compact_ok h
  subst hR
  exact ⟨by rw [if_pos rfl, compactLoop_size hw], by rw [if_pos rfl, compactLoop_size hw]⟩

/-- `compact` の後は索引が正しく、`m_size` は変わらず、`m_used = m_size` で tombstone が無い。 -/
theorem compact_compacted (hw : d.toHashTable.WF (elmProbe H)) {r : Bool}
    (h : d.compact H r = .ok d') :
    d'.toHashTable.WF (elmProbe H) ∧ d'.size = d.size ∧ d'.used = d'.size ∧
      d'.elms = (abs d').map some := by
  obtain ⟨hw', -, hu⟩ := compact_wf hw r h
  obtain ⟨R, -, table, -, rfl⟩ := compact_ok h
  refine ⟨hw', rfl, hu, ?_⟩
  show R.1.map some = ((R.1.map some).filterMap id).map some
  rw [filterMap_id_map_some]

/-- `compact(false)` は `abs` を変えず、`compact(true)` は `abs` の int key を `0, 1, …` に付け替えて
`m_nextKI` を int key の個数にする。どちらも必ず返り、`m_used = m_size` で tombstone を残さない。 -/
theorem compact_preserves_contents (hw : d.toHashTable.WF (elmProbe H)) :
    (∃ d', d.compact H false = .ok d' ∧ d'.toHashTable.WF (elmProbe H) ∧
      abs d' = abs d ∧ d'.size = d.size ∧ d'.used = d'.size ∧ d'.elms = (abs d').map some ∧
      d'.nextKI = d.nextKI) ∧
    (∃ d', d.compact H true = .ok d' ∧ d'.toHashTable.WF (elmProbe H) ∧
      Renumbered (abs d) (abs d') ∧ d'.size = d.size ∧ d'.used = d'.size ∧
      d'.elms = (abs d').map some ∧ d'.nextKI = Int64.ofNat (intCount (abs d))) := by
  constructor
  · obtain ⟨d', h⟩ := compact_exists hw false
    obtain ⟨hw', hs, hu, he⟩ := compact_compacted hw h
    obtain ⟨he', hn⟩ := compact_false_elms hw h
    have habs : abs d' = abs d := by
      rw [abs, he']
      exact filterMap_id_map_some _
    exact ⟨d', h, hw', habs, hs, hu, he, hn⟩
  · obtain ⟨d', h⟩ := compact_exists hw true
    obtain ⟨hw', hs, hu, he⟩ := compact_compacted hw h
    obtain ⟨he', hn⟩ := compact_true_elms hw h
    have habs : abs d' = (renumberLoop 0 (abs d)).1 := by
      rw [abs, he']
      exact filterMap_id_map_some _
    refine ⟨d', h, hw', habs ▸ renumbered_renumberLoop (abs d), hs, hu, he, ?_⟩
    rw [hn, renumberLoop_next, Int64.zero_add]

/-- `[5, 6, 7, 8]` から key 1 を消すと位置 1 に tombstone が残る。`Renumber` はそれを詰め、int key
`0, 2, 3` を `0, 1, 2` に付け替えて `m_nextKI` を 3 にする。 -/
theorem compact_preserves_contents_tombstone :
    ∃ d : VanillaDict String Nat,
      ((MakeDictNatural stringHasher [5, 6, 7, 8]).bind fun d => d.RemoveIntMove stringHasher 1) =
        .ok d ∧ d.elms = [some (.int 0, 5), none, some (.int 2, 7), some (.int 3, 8)] ∧
      ∃ d', d.compact stringHasher true = .ok d' ∧
        Renumbered [(.int 0, 5), (.int 2, 7), (.int 3, 8)] (abs d') ∧ d'.used = 3 ∧
        d'.elms = (abs d').map some ∧ d'.nextKI = 3 := by
  obtain ⟨d, h, he, hsz⟩ : ∃ d, ((MakeDictNatural stringHasher [5, 6, 7, 8]).bind
      fun d => d.RemoveIntMove stringHasher 1) = .ok d ∧
      d.elms = [some (.int 0, (5 : Nat)), none, some (.int 2, 7), some (.int 3, 8)] ∧ d.size = 3 :=
    ⟨_, rfl, rfl, rfl⟩
  -- 消した後の配列は、`MakeDictNatural` の配列から `RemoveIntMove` の一歩で届く
  have hv : Valid stringHasher d :=
    (Reachable.step (o := ⟨0, false⟩)
      (Reachable.ofNatural (by decide) (show MakeDictNatural stringHasher [5, 6, 7, 8] = _ from rfl))
      (show VanillaDict.Pre _ (.RemoveIntMove 1) from trivial) (by decide) h).valid.1
  have habs : abs d = [(.int 0, 5), (.int 2, 7), (.int 3, 8)] := by
    rw [abs, he]
    rfl
  obtain ⟨d', h', -, hren, hs, hu, hel, hn⟩ := (compact_preserves_contents hv.wf).2
  refine ⟨d, h, he, d', h', habs ▸ hren, by rw [hu, hs, hsz], hel, ?_⟩
  rw [hn, habs]
  rfl

end VanillaDict

end Hhvm
