import Hhvm.Infra.Bytes
import Hhvm.Ext.Strtr

/-!
# `strtr_fast` と左から最長の置き換え

`strtrSpec`（左から読み、一致する key のうち最長のものを置き換える）と `strtr_fast` を比べる。

* mask は一致の必要条件だけを調べる篩で、一致する key を落とさない（`matchLoop_of_key_match`）。
* `strtr_slow` は長い順に引くので、最長の key を見つける（`slowLoop_eq`）。
* この二つから、key がどれも文字列なら `strtr_fast` は仕様どおり（`fastLoop_eq_strtrSpec`）。
  `HHVM_FUNCTION(strtr)` がこの道を選ぶとき全体も仕様どおり（`strtr_eq_strtrSpec_of_str_keys`）。

`strtr_slow` は部分文字列を**文字列の key として**引く（`ArrayData::get(const StringData*)`）。
int key の `toString` は mask に入るが引けないので、vec や int key の辞書では何も置き換わらない
（`fastLoop_of_int_keys`、`strtr_fast_misses_int_keys`）。
-/

namespace Hhvm.Ext

open Infra.OrderedMap Infra.Bytes Infra.SortedSearch

/-! ## 一回りの式 -/

section Loop

variable (arr : StrtrArray) (mask : Nat → UInt8 → UInt64) (minlen : Nat)

theorem fastLoop_nil (maxlen : Nat) : fastLoop arr mask minlen maxlen [] = [] := by
  rw [fastLoop]

/-- 置き換えたときの一回り。 -/
theorem fastLoop_cons_of_some {maxlen : Nat} {b : UInt8} {rest v : List UInt8} {n : Nat}
    (h : fastFound arr mask minlen (min maxlen (b :: rest).length) (b :: rest) = some (v, n)) :
    fastLoop arr mask minlen maxlen (b :: rest) =
      v ++ fastLoop arr mask minlen (min maxlen (b :: rest).length) ((b :: rest).drop n) := by
  have hmin : (if (b :: rest).length < maxlen then (b :: rest).length else maxlen) =
      min maxlen (b :: rest).length := by
    split_ifs <;> omega
  rw [fastLoop]
  simp only [hmin]
  split <;> simp_all

/-- 一 byte を写したときの一回り。 -/
theorem fastLoop_cons_of_none {maxlen : Nat} {b : UInt8} {rest : List UInt8}
    (h : fastFound arr mask minlen (min maxlen (b :: rest).length) (b :: rest) = none) :
    fastLoop arr mask minlen maxlen (b :: rest) =
      b :: fastLoop arr mask minlen (min maxlen (b :: rest).length) rest := by
  have hmin : (if (b :: rest).length < maxlen then (b :: rest).length else maxlen) =
      min maxlen (b :: rest).length := by
    split_ifs <;> omega
  rw [fastLoop]
  simp only [hmin]
  split <;> simp_all

/-- 最長一致の長さが 0 でなければ、その長さの先頭は key。 -/
theorem take_longestKeyLen_mem {pats : List (List UInt8)} {t : List UInt8}
    (h : longestKeyLen pats t ≠ 0) : t.take (longestKeyLen pats t) ∈ pats :=
  (Nat.findGreatest_of_ne_zero rfl h).2

theorem strtrSpec_nil (pairs : List (List UInt8 × List UInt8)) : strtrSpec pairs [] = [] := by
  rw [strtrSpec]

theorem strtrSpec_cons (pairs : List (List UInt8 × List UInt8)) (b : UInt8) (rest : List UInt8) :
    strtrSpec pairs (b :: rest) =
      if longestKeyLen (keys pairs) (b :: rest) = 0 then b :: strtrSpec pairs rest
      else (get? pairs ((b :: rest).take (longestKeyLen (keys pairs) (b :: rest)))).getD [] ++
        strtrSpec pairs ((b :: rest).drop (longestKeyLen (keys pairs) (b :: rest))) := by
  rw [strtrSpec, dite_eq_ite]

end Loop

/-! ## mask の篩 -/

/-- `p` 番目の key の `pos` 番目の byte が `c` なら、`mask[pos][c]` の bit `p` が立つ。 -/
theorem testBit_buildMask {arr : StrtrArray} {p pos : Nat} (hp : p < arr.length) (hp64 : p < 64)
    {c : UInt8} (h : (keyToString arr[p].1)[pos]? = some c) :
    (buildMask arr pos c).toNat.testBit p = true := by
  have key := testBit_foldl_setBit_of_mem (fun kv : Key (List UInt8) × List UInt8 =>
    (keyToString kv.1)[pos]? = some c) arr.zipIdx 0 (x := (arr[p], p))
    (List.mk_mem_zipIdx_iff_getElem?.mpr (List.getElem?_eq_getElem hp)) h hp64
  unfold buildMask
  exact key

/-- **mask の篩は一致を落とさない。** bit `p` が立ったまま `minlen` byte を読み切れば
`possible_match`。 -/
theorem matchLoop_of_testBit {mask : Nat → UInt8 → UInt64} {minlen p : Nat} :
    ∀ (u : List UInt8) (pos : Nat) (m : UInt64), pos < minlen → minlen ≤ pos + u.length →
      m.toNat.testBit p = true →
      (∀ j (hj : j < u.length), pos + j < minlen → (mask (pos + j) u[j]).toNat.testBit p = true) →
      matchLoop mask minlen m pos u = true
  | [], pos, _, hpos, hlen, _, _ => by simp at hlen; omega
  | c :: u, pos, m, hpos, hlen, hm, hmask => by
    -- 次の語にも bit `p` が残るので 0 にならない
    have hbit : (m &&& mask pos c).toNat.testBit p = true := by
      have h0 := hmask 0 (by simp) (by omega)
      simp only [Nat.add_zero, List.getElem_cons_zero] at h0
      rw [testBit_and, hm, h0, Bool.true_and]
    simp only [matchLoop, if_neg (ne_zero_of_testBit hbit)]
    split_ifs with hend
    · rfl
    · apply matchLoop_of_testBit u (pos + 1) _ (by omega) (by simp at hlen; omega) hbit
      intro j hj hjm
      have := hmask (j + 1) (by simp; omega) (by omega)
      rwa [show pos + (j + 1) = pos + 1 + j by omega] at this

/-! ## `strtr_slow` は最長の key を引く -/

/-- `strtr_slow` が引く条件：`minlen` 以上で、先頭 `l` byte が文字列の key にある。 -/
def SlowHit (arr : StrtrArray) (key : List UInt8) (minlen l : Nat) : Prop :=
  minlen ≤ l ∧ (get? arr (.str (key.take l))).isSome

instance (arr : StrtrArray) (key : List UInt8) (minlen : Nat) :
    DecidablePred (SlowHit arr key minlen) :=
  fun _ => inferInstanceAs (Decidable (_ ∧ _))

/-- **`strtr_slow` は、条件を満たす最大の長さで引く。** -/
theorem slowLoop_eq (arr : StrtrArray) (key : List UInt8) (minlen : Nat) :
    ∀ len, slowLoop arr key minlen len =
      if Nat.findGreatest (SlowHit arr key minlen) len = 0 then none
      else (get? arr (.str (key.take (Nat.findGreatest (SlowHit arr key minlen) len)))).map
        fun v => (v, Nat.findGreatest (SlowHit arr key minlen) len)
  | 0 => by simp [slowLoop]
  | len + 1 => by
    rw [slowLoop, Nat.findGreatest_succ]
    by_cases hlt : len + 1 < minlen
    · -- `minlen` より短い長さはどれも条件を満たさない
      have h0 : Nat.findGreatest (SlowHit arr key minlen) len = 0 :=
        Nat.findGreatest_eq_zero_iff.mpr fun n _ hn hs => by unfold SlowHit at hs; omega
      have hn : ¬SlowHit arr key minlen (len + 1) := fun hs => by unfold SlowHit at hs; omega
      rw [if_pos hlt, if_neg hn, h0, if_pos rfl]
    · rw [if_neg hlt]
      cases hg : get? arr (.str (key.take (len + 1))) with
      | some v =>
        have hs : SlowHit arr key minlen (len + 1) := ⟨by omega, by rw [hg]; rfl⟩
        rw [if_pos hs, if_neg (Nat.succ_ne_zero len), hg]
        rfl
      | none =>
        have hs : ¬SlowHit arr key minlen (len + 1) := fun hs => by
          rw [SlowHit, hg] at hs
          exact absurd hs.2 (by decide)
        rw [if_neg hs]
        exact slowLoop_eq arr key minlen len

/-! ## 文字列の key だけの配列 -/

section StrKeys

variable {arr : StrtrArray} (hstr : ∀ kv ∈ arr, ∃ s, kv.1 = .str s)
include hstr

/-- 文字列の key だけなら、`nvGetStr` は仕様の対応表を引くのと同じ。 -/
theorem get?_str_of_str_keys (w : List UInt8) :
    get? arr (.str w) = get? (mapKeys keyToString arr) w := by
  have hf : ∀ kv ∈ arr, keyToString kv.1 = keyToString (.str w) → kv.1 = .str w := by
    intro kv hkv he
    obtain ⟨s, hs⟩ := hstr kv hkv
    rw [hs] at he ⊢
    simp only [keyToString] at he
    rw [he]
  exact (get?_mapKeys hf).symm

theorem isSome_get?_str_iff (w : List UInt8) :
    (get? arr (.str w)).isSome ↔ w ∈ keys (mapKeys keyToString arr) := by
  rw [get?_str_of_str_keys hstr, ← not_iff_not, Bool.not_eq_true, Option.isSome_eq_false_iff,
    Option.isNone_iff_eq_none, get?_eq_none_iff]

/-- **`maxlen` が残りと最長の key の短い方以上なら、`strtr_slow` の探す長さは仕様の最長一致の
長さ。** -/
theorem findGreatest_slowHit {minlen maxM : Nat}
    (hlens : ∀ w ∈ keys (mapKeys keyToString arr), minlen ≤ w.length ∧ w.length ≤ maxM)
    {t : List UInt8} {maxlen : Nat} (hlo : min maxM t.length ≤ maxlen) (hhi : maxlen ≤ t.length) :
    Nat.findGreatest (SlowHit arr (t.take maxlen) minlen) maxlen =
      longestKeyLen (keys (mapKeys keyToString arr)) t := by
  apply findGreatest_eq_of_iff hhi
  · intro n hn hle
    rw [SlowHit, List.take_take, Nat.min_eq_left hle, isSome_get?_str_iff hstr]
    constructor
    · exact fun h => ⟨hn, h.2⟩
    · intro h
      have hw := (hlens _ h.2).1
      rw [List.length_take] at hw
      exact ⟨by omega, h.2⟩
  · -- `maxlen` より長い一致は、最長の key より長いか残りより長い
    rintro n hlt hle ⟨_, hmem⟩
    have hw := (hlens _ hmem).2
    rw [List.length_take] at hw
    omega

end StrKeys

/-! ## 一つの位置で -/

section Position

variable {arr : StrtrArray} {minlen maxM : Nat} (h64 : arr.length ≤ 64) (hmin : 0 < minlen)
  (hlens : ∀ w ∈ keys (mapKeys keyToString arr), minlen ≤ w.length ∧ w.length ≤ maxM)
include h64 hmin hlens

/-- **残りの先頭に一致する key があれば、mask の篩を通る。** key の文字列の型には依らない。 -/
theorem matchLoop_of_key_match {t : List UInt8} {maxlen n : Nat} (hlo : min maxM t.length ≤ maxlen)
    (hhi : maxlen ≤ t.length) (hmem : t.take n ∈ keys (mapKeys keyToString arr)) :
    matchLoop (buildMask arr) minlen (~~~0) 0 (t.take maxlen) = true := by
  have hw := hlens _ hmem
  rw [List.length_take] at hw
  -- 一致する key の番号 `p`
  rw [keys_mapKeys] at hmem
  obtain ⟨k, hk, hkw⟩ := List.mem_map.mp hmem
  obtain ⟨p, hp, rfl⟩ := List.mem_iff_getElem.mp hk
  have hp' : p < arr.length := by simpa [keys] using hp
  have hkey : keyToString arr[p].1 = t.take n := by simpa [keys] using hkw
  apply matchLoop_of_testBit (p := p) _ 0 _ hmin (by rw [List.length_take]; omega)
    (testBit_allOnes (by omega))
  intro j hj hjm
  apply testBit_buildMask hp' (by omega)
  rw [hkey, List.getElem?_take, if_pos (by omega), Nat.zero_add, List.getElem_take]
  exact List.getElem?_eq_getElem _

variable (hstr : ∀ kv ∈ arr, ∃ s, kv.1 = .str s)
include hstr

/-- **一つの位置での `strtr_fast`：最長一致の長さと値を返すか、一致がなければ `none`。** -/
theorem fastFound_eq {t : List UInt8} {maxlen : Nat} (hlo : min maxM t.length ≤ maxlen)
    (hhi : maxlen ≤ t.length) :
    fastFound arr (buildMask arr) minlen maxlen t =
      if longestKeyLen (keys (mapKeys keyToString arr)) t = 0 then none
      else (get? (mapKeys keyToString arr) (t.take (longestKeyLen (keys (mapKeys keyToString arr)) t))).map
        fun v => (v, longestKeyLen (keys (mapKeys keyToString arr)) t) := by
  have hfg := findGreatest_slowHit hstr hlens hlo hhi
  have hle : longestKeyLen (keys (mapKeys keyToString arr)) t ≤ maxlen := by
    rw [← hfg]
    exact Nat.findGreatest_le _
  unfold fastFound
  split_ifs with hm hn hn
  · rw [strtrSlow, slowLoop_eq, hfg, if_pos hn]
  · rw [strtrSlow, slowLoop_eq, hfg, if_neg hn, List.take_take, Nat.min_eq_left hle,
      get?_str_of_str_keys hstr]
  · rfl
  · -- 一致があるのに篩で落ちることはない
    have hmem := Nat.findGreatest_of_ne_zero rfl hn
    exact absurd (matchLoop_of_key_match h64 hmin hlens hlo hhi hmem.2) hm

end Position

/-! ## `strtr_fast` の全体 -/

section Run

variable {arr : StrtrArray} {minlen maxM : Nat} (hstr : ∀ kv ∈ arr, ∃ s, kv.1 = .str s)
  (h64 : arr.length ≤ 64) (hmin : 0 < minlen)
  (hlens : ∀ w ∈ keys (mapKeys keyToString arr), minlen ≤ w.length ∧ w.length ≤ maxM)
include hstr h64 hmin hlens

/-- **key がどれも文字列なら、`strtr_fast` のループは左から最長の置き換え。** 帰納法は残りの
長さについてで、`maxlen` が残りと最長の key の短い方以上であることが不変量。 -/
theorem fastLoop_eq_strtrSpec :
    ∀ (t : List UInt8) (maxlen : Nat), min maxM t.length ≤ maxlen →
      fastLoop arr (buildMask arr) minlen maxlen t = strtrSpec (mapKeys keyToString arr) t
  | [], maxlen, _ => by rw [fastLoop_nil, strtrSpec_nil]
  | b :: rest, maxlen, hlo => by
    -- この位置で `maxlen` は残りの長さまで縮む
    have hlo' : min maxM (b :: rest).length ≤ min maxlen (b :: rest).length := by omega
    have hff := fastFound_eq h64 hmin hlens hstr hlo' (Nat.min_le_right _ _)
    rw [strtrSpec_cons]
    by_cases hn : longestKeyLen (keys (mapKeys keyToString arr)) (b :: rest) = 0
    · rw [if_pos hn] at hff ⊢
      rw [fastLoop_cons_of_none _ _ _ hff,
        fastLoop_eq_strtrSpec rest _ (by simp only [List.length_cons] at hlo' ⊢; omega)]
    · rw [if_neg hn] at hff ⊢
      -- 最長一致の key には値がある
      have hmem := take_longestKeyLen_mem hn
      obtain ⟨v, hv⟩ := Option.ne_none_iff_exists'.mp
        (mt (get?_eq_none_iff _ _).mp (not_not.mpr hmem))
      rw [hv, Option.map_some] at hff
      rw [fastLoop_cons_of_some _ _ _ hff, hv, Option.getD_some,
        fastLoop_eq_strtrSpec _ _ (by simp only [List.length_drop, List.length_cons] at hlo' ⊢; omega)]
termination_by t => t.length
decreasing_by
  all_goals simp only [List.length_drop, List.length_cons]
  all_goals omega

/-- **`strtr_fast`：key がどれも文字列で、`minlen` と `maxlen` が key の長さの下限と上限なら、
左から最長の置き換え。** -/
theorem strtrFast_eq_strtrSpec (str : List UInt8) :
    strtrFast str arr minlen maxM = strtrSpec (mapKeys keyToString arr) str :=
  fastLoop_eq_strtrSpec hstr h64 hmin hlens str maxM (Nat.min_le_left _ _)

end Run

/-! ## int key -/

/-- int key だけの配列を文字列の key で引いても何も無い。 -/
theorem get?_str_of_int_keys {arr : StrtrArray} (hint : ∀ kv ∈ arr, ∃ i, kv.1 = .int i)
    (w : List UInt8) : get? arr (.str w) = none := by
  rw [get?_eq_none_iff]
  intro hmem
  obtain ⟨kv, hkv, hk⟩ := List.mem_map.mp hmem
  obtain ⟨i, hi⟩ := hint kv hkv
  rw [hi] at hk
  cases hk

/-- **int key だけの配列では、`strtr_fast` のループは入力をそのまま写す。** mask には int key の
`toString` が入るが、`strtr_slow` はそれを文字列の key として引いて見つけない。 -/
theorem fastLoop_of_int_keys {arr : StrtrArray} (hint : ∀ kv ∈ arr, ∃ i, kv.1 = .int i)
    (mask : Nat → UInt8 → UInt64) (minlen : Nat) :
    ∀ (t : List UInt8) (maxlen : Nat), fastLoop arr mask minlen maxlen t = t
  | [], maxlen => fastLoop_nil arr mask minlen maxlen
  | b :: rest, maxlen => by
    have hnone : fastFound arr mask minlen (min maxlen (b :: rest).length) (b :: rest) = none := by
      unfold fastFound strtrSlow
      split_ifs
      · -- どの長さも引けないので、最大の長さは 0
        have h0 : Nat.findGreatest (SlowHit arr ((b :: rest).take (min maxlen (b :: rest).length))
            minlen) (min maxlen (b :: rest).length) = 0 :=
          Nat.findGreatest_eq_zero_iff.mpr fun n _ _ hs => by
            rw [SlowHit, get?_str_of_int_keys hint] at hs
            exact absurd hs.2 (by decide)
        rw [slowLoop_eq, h0, if_pos rfl]
      · rfl
    rw [fastLoop_cons_of_none _ _ _ hnone, fastLoop_of_int_keys hint mask minlen rest]

/-! ## key の長さの走査 -/

/-- 空の key があれば `false`。 -/
theorem scanKeyLens_eq_none {arr : StrtrArray} {kv : Key (List UInt8) × List UInt8} (hkv : kv ∈ arr)
    (he : keyToString kv.1 = []) : ∀ (mx : Nat) (mn : Option Nat), scanKeyLens mx mn arr = none := by
  induction arr with
  | nil => exact absurd hkv List.not_mem_nil
  | cons kv' rest ih =>
    intro mx mn
    obtain ⟨k, v⟩ := kv'
    rcases List.mem_cons.mp hkv with rfl | hkv
    · simp [scanKeyLens, he]
    · simp only [scanKeyLens]
      split_ifs
      · rfl
      all_goals exact ih hkv _ _

/-- `scanKeyLens` の `minlen` の更新：`-1` か、今の key より長ければ今の key の長さ。 -/
def nextMinLen (mn : Option Nat) (len : Nat) : Option Nat :=
  match mn with
  | none => some len
  | some m => if m > len then some len else some m

theorem scanKeyLens_cons (mx : Nat) (mn : Option Nat) (k : Key (List UInt8)) (v : List UInt8)
    (rest : StrtrArray) :
    scanKeyLens mx mn ((k, v) :: rest) =
      if (keyToString k).length < 1 then none
      else scanKeyLens (if mx < (keyToString k).length then (keyToString k).length else mx)
        (nextMinLen mn (keyToString k).length) rest := by
  cases mn <;> rfl

/-- **空の key がなければ、`maxlen` は長さの上限のうち最小のもの、`minlen` は下限のうち最大の
もの。** どちらも「`b` が上限（下限）であること」との同値で言う。 -/
theorem scanKeyLens_spec {arr : StrtrArray} (hne : ∀ kv ∈ arr, keyToString kv.1 ≠ []) :
    ∀ (mx : Nat) (mn : Option Nat), ∃ mx' mn', scanKeyLens mx mn arr = some (mx', mn') ∧
      (∀ b, (mx ≤ b ∧ ∀ kv ∈ arr, (keyToString kv.1).length ≤ b) ↔ mx' ≤ b) ∧
      (∀ b, ((∀ m, mn = some m → b ≤ m) ∧ ∀ kv ∈ arr, b ≤ (keyToString kv.1).length) ↔
        ∀ m, mn' = some m → b ≤ m) ∧
      (mn' = none ↔ mn = none ∧ arr = []) := by
  induction arr with
  | nil => intro mx mn; exact ⟨mx, mn, rfl, by simp, by simp, by simp⟩
  | cons kv rest ih =>
    intro mx mn
    obtain ⟨k, v⟩ := kv
    have hlen : 1 ≤ (keyToString k).length :=
      List.length_pos_iff.mpr (hne _ List.mem_cons_self)
    obtain ⟨mx', mn', hscan, hmx, hmn, hnone⟩ :=
      ih (fun kv hkv => hne kv (List.mem_cons_of_mem _ hkv))
        (if mx < (keyToString k).length then (keyToString k).length else mx)
        (nextMinLen mn (keyToString k).length)
    refine ⟨mx', mn', ?_, fun b => ?_, fun b => ?_, ?_⟩
    · rw [scanKeyLens_cons, if_neg (show ¬(keyToString k).length < 1 by omega)]
      exact hscan
    · rw [← hmx b, List.forall_mem_cons]
      dsimp only
      constructor
      · rintro ⟨h1, h2, h3⟩
        exact ⟨by split_ifs <;> omega, h3⟩
      · rintro ⟨h1, h3⟩
        exact ⟨by split_ifs at h1 <;> omega, by split_ifs at h1 <;> omega, h3⟩
    · rw [← hmn b, List.forall_mem_cons]
      dsimp only
      cases mn with
      | none => simp [nextMinLen]
      | some m =>
        simp only [nextMinLen, Option.some.injEq, forall_eq']
        split_ifs with hm
        · simp only [Option.some.injEq, forall_eq']
          constructor
          · rintro ⟨_, h2, h3⟩
            exact ⟨h2, h3⟩
          · rintro ⟨h2, h3⟩
            exact ⟨by omega, h2, h3⟩
        · simp only [Option.some.injEq, forall_eq']
          constructor
          · rintro ⟨h1, _, h3⟩
            exact ⟨h1, h3⟩
          · rintro ⟨h1, h3⟩
            exact ⟨h1, by omega, h3⟩
    · -- 一つ読めば `minlen` は `-1` でなくなる
      have hsome : mn' ≠ none := by
        rw [ne_eq, hnone]
        rintro ⟨h, -⟩
        cases mn with
        | none => cases h
        | some m =>
          dsimp only [nextMinLen] at h
          split_ifs at h
      simp only [hsome, List.cons_ne_nil, and_false]

/-! ## `HHVM_FUNCTION(strtr)` の `strtr_fast` の道 -/

section Dispatch

variable {str : List UInt8} {arr : StrtrArray} (hs : str ≠ []) (harr : arr ≠ [])
  (hne : ∀ kv ∈ arr, keyToString kv.1 ≠ []) (h64 : arr.length ≤ 64)
  (h16 : ∀ kv ∈ arr, (keyToString kv.1).length ≤ 16)
include hs harr hne h64 h16

/-- key が 64 個以下でどれも 16 byte 以下なら、`strtr` は key の長さの下限と上限で `strtr_fast` を
呼ぶ。 -/
theorem strtr_eq_strtrFast : ∃ minlen maxlen, 0 < minlen ∧
    (∀ w ∈ keys (mapKeys keyToString arr), minlen ≤ w.length ∧ w.length ≤ maxlen) ∧
    strtr str arr = some (strtrFast str arr minlen maxlen) := by
  obtain ⟨mx, mn, hscan, hmx, hmn, hnone⟩ := scanKeyLens_spec hne 0 none
  obtain ⟨m, rfl⟩ : ∃ m, mn = some m :=
    Option.ne_none_iff_exists'.mp fun h => harr (hnone.mp h).2
  -- `minlen` は長さの下限で、`maxlen` は上限
  have hlo : ∀ kv ∈ arr, m ≤ (keyToString kv.1).length :=
    ((hmn m).mpr fun _ h => (Option.some.inj h).le).2
  have hm1 : 1 ≤ m := (hmn 1).mp ⟨(fun _ h => by cases h),
    fun kv hkv => List.length_pos_iff.mpr (hne kv hkv)⟩ m rfl
  have hhi : ∀ kv ∈ arr, (keyToString kv.1).length ≤ mx := ((hmx mx).mpr le_rfl).2
  have hmx16 : mx ≤ 16 := (hmx 16).mp ⟨Nat.zero_le _, h16⟩
  refine ⟨m, mx, hm1, fun w hw => ?_, ?_⟩
  · rw [keys_mapKeys] at hw
    obtain ⟨k, hk, rfl⟩ := List.mem_map.mp hw
    obtain ⟨kv, hkv, rfl⟩ := List.mem_map.mp (show k ∈ arr.map Prod.fst from hk)
    exact ⟨hlo kv hkv, hhi kv hkv⟩
  · have hs' : str.isEmpty = false := List.isEmpty_eq_false_iff.mpr hs
    have harr' : arr.isEmpty = false := List.isEmpty_eq_false_iff.mpr harr
    rw [strtr, hs', harr', hscan]
    simp only [Bool.false_eq_true, if_false, Option.getD_some]
    rw [if_pos ⟨h64, hmx16⟩]

/-- **`strtr` が `strtr_fast` を選ぶとき、key がどれも空でない文字列なら、結果は左から最長の
置き換え。** -/
theorem strtr_eq_strtrSpec_of_str_keys (hstr : ∀ kv ∈ arr, ∃ s, kv.1 = .str s) :
    strtr str arr = some (strtrSpec (mapKeys keyToString arr) str) := by
  obtain ⟨minlen, maxlen, hmin, hlens, heq⟩ := strtr_eq_strtrFast hs harr hne h64 h16
  rw [heq, strtrFast_eq_strtrSpec hstr h64 hmin hlens]

/-- **`strtr` が `strtr_fast` を選ぶとき、key がどれも int なら、何も置き換えない。** -/
theorem strtr_eq_self_of_int_keys (hint : ∀ kv ∈ arr, ∃ i, kv.1 = .int i) :
    strtr str arr = some str := by
  obtain ⟨minlen, maxlen, -, -, heq⟩ := strtr_eq_strtrFast hs harr hne h64 h16
  rw [heq, strtrFast, fastLoop_of_int_keys hint]

end Dispatch

/-- `strtr("0", vec["x"])`：vec の key `0` の `toString` は `"0"` で、仕様は `"x"` を返すが、
`strtr_fast` は `"0"` を文字列の key として引いて見つけず、`"0"` を返す。 -/
theorem strtr_fast_misses_int_keys :
    strtr [0x30] [(.int 0, [0x78])] = some [0x30] ∧
      strtrSpec (mapKeys keyToString [(.int 0, [0x78])]) [0x30] = [0x78] := by
  constructor
  · exact strtr_eq_self_of_int_keys (List.cons_ne_nil _ _) (List.cons_ne_nil _ _)
      (by decide) (by decide) (by decide) (by simp)
  · have hn : longestKeyLen (keys (mapKeys keyToString [(Key.int 0, ([0x78] : List UInt8))]))
        [0x30] = 1 := by
      decide
    rw [strtrSpec_cons, hn, if_neg one_ne_zero, List.drop_one, List.tail_cons, strtrSpec_nil]
    decide

end Hhvm.Ext
