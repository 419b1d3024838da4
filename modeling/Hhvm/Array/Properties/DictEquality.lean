import Hhvm.Array.Properties.DictRefinement

/-!
# `DictSame` と `DictEqual`

`VanillaDict::DictEqualHelper` の二つの比較を、抽象の状態 `abs` の言葉で言い直す。

* `sameLoop_iff` — 厳密な比較のループは、tombstone がどこにあっても、生きている要素の列を
  位置ごとに比べるのと同じ（`ElmSame`：key が等しく値が `tvSame`）
* `equalLoop_eq` — 緩い比較のループは、`ad1` の生きている要素ごとに `ad2` の `abs` を引く
* `DictSame_iff`、`DictEqual_iff` — 別の配列どうしなら、`DictSame` は `abs` を位置ごとに比べ、
  `DictEqual` は大きさが等しく `ad1` の key がどれも `tvEqual` な値で `ad2` にあることを返す

`ad1 == ad2`（同じ配列）なら、要素を見ずに真を返す。値の比較が反射的でないとき
（`NaN` の `double`）はそれが抽象の比較と食い違う（`DictSame_self_NaN`）。
-/

namespace Hhvm

open Infra Infra.OrderedMap HashTableCommon HashTable

namespace VanillaDict

variable {S α : Type} [DecidableEq S] {H : Hasher S} {tvSame tvEqual : α → α → Bool}
  {ad1 ad2 : VanillaDict S α}

/-! ## 厳密な比較 -/

/-- 位置の対応する二つの生きている要素が厳密に等しい：key が同じで、値が `tvSame`。 -/
def ElmSame (tvSame : α → α → Bool) (e1 e2 : Key S × α) : Prop :=
  e1.1 = e2.1 ∧ tvSame e1.2 e2.2 = true

theorem keySame_iff (k1 k2 : Key S) : keySame k1 k2 = true ↔ k1 = k2 := by
  cases k1 <;> cases k2 <;> simp [keySame]

/-- 残りがすべて tombstone なのは、生きている要素が残っていないこと。 -/
theorem all_isNone_iff {β : Type} (l : List (Option β)) :
    l.all (·.isNone) = true ↔ l.filterMap id = [] := by
  simp [List.all_eq_true, List.filterMap_eq_nil_iff]

/-- 二つの列を並べて歩くループは、生きている要素の列を位置ごとに比べる。ループの各場合が
`Forall₂` の一段に当たる：tombstone を飛ばす場合は生きている要素の列を変えない。 -/
theorem sameLoop_iff (l1 l2 : List (Option (Key S × α))) :
    sameLoop tvSame l1 l2 = true ↔
      List.Forall₂ (ElmSame tvSame) (l1.filterMap id) (l2.filterMap id) := by
  induction l1, l2 using sameLoop.induct with
  | case1 l2 =>
    rw [sameLoop, all_isNone_iff, List.filterMap_nil, List.forall₂_nil_left_iff, eq_comm]
  | case2 e1 r1 =>
    rw [sameLoop, all_isNone_iff, List.filterMap_nil, List.forall₂_nil_right_iff]
  | case3 r1 e2 r2 ih =>
    -- tombstone を飛ばしても生きている要素の列は同じ
    rw [sameLoop, ih]
    exact Iff.rfl
  | case4 e1 r1 r2 ih =>
    rw [sameLoop, ih]
    exact Iff.rfl
  | case5 e1 r1 e2 r2 ih =>
    simp only [sameLoop, Bool.and_eq_true, keySame_iff, ih, List.filterMap_cons, id_eq,
      List.forall₂_cons, ElmSame, and_assoc]

/-! ## 緩い比較 -/

/-- 緩い比較のループは、生きている要素ごとに `ad2` の `abs` を引いて `tvEqual` で比べる。 -/
theorem equalLoop_eq (hv2 : Valid H ad2) :
    ∀ l : List (Option (Key S × α)), equalLoop H tvEqual ad2 l =
      .ok ((l.filterMap id).all fun e => (get? (abs ad2) e.1).any (tvEqual e.2))
  | [] => rfl
  | none :: rest => by
    rw [equalLoop, equalLoop_eq hv2 rest]
    rfl
  | some (k, v) :: rest => by
    -- `NvGetInt` / `NvGetStr` は `abs` を引く
    have hget : equalLoop H tvEqual ad2 (some (k, v) :: rest) =
        (get? (abs ad2) k).elim (.ok false)
          (fun v' => if tvEqual v v' then equalLoop H tvEqual ad2 rest else .ok false) := by
      cases k with
      | int ki => simp only [equalLoop, hv2.NvGetInt_eq]; cases get? (abs ad2) (.int ki) <;> rfl
      | str ks => simp only [equalLoop, hv2.NvGetStr_eq]; cases get? (abs ad2) (.str ks) <;> rfl
    rw [hget]
    show _ = Except.ok ((get? (abs ad2) k).any (tvEqual v) &&
      (rest.filterMap id).all fun e => (get? (abs ad2) e.1).any (tvEqual e.2))
    cases get? (abs ad2) k with
    | none => rfl
    | some v' =>
      by_cases ht : tvEqual v v' = true
      · simp only [Option.elim, ht, if_true, Option.any_some, Bool.true_and]
        exact equalLoop_eq hv2 rest
      · simp only [Option.elim, ht, Option.any_some, Bool.false_and]
        rfl

/-! ## 抽象の比較 -/

omit [DecidableEq S] in
/-- 生きている要素の数は `m_size`。 -/
theorem length_abs (hv : Valid H ad1) : (abs ad1).length = ad1.size := by
  rw [abs, ← countLive_eq_length, ← hv.wf.size_eq]

/-- 別の配列どうしの `DictSame` は、`abs` を位置ごとに比べる。 -/
theorem DictSame_iff (hv1 : Valid H ad1) (hv2 : Valid H ad2) :
    ∃ r, DictSame H tvSame tvEqual ad1 ad2 false = .ok r ∧
      (r = true ↔ (abs ad1).length = (abs ad2).length ∧
        ∀ i (h1 : i < (abs ad1).length) (h2 : i < (abs ad2).length),
          (abs ad1)[i].1 = (abs ad2)[i].1 ∧ tvSame (abs ad1)[i].2 (abs ad2)[i].2 = true) := by
  have hspec : List.Forall₂ (ElmSame tvSame) (abs ad1) (abs ad2) ↔ _ := List.forall₂_iff_get
  simp only [List.get_eq_getElem, ElmSame] at hspec
  by_cases hs : ad1.size = ad2.size
  · refine ⟨sameLoop tvSame ad1.elms ad2.elms, ?_, ?_⟩
    · simp only [DictSame, DictEqualHelper, hs, ne_eq, not_true_eq_false, if_false,
        Bool.false_eq_true, if_true]
    · rw [sameLoop_iff, ← hspec]
      rfl
  · -- 大きさが違えば、生きている要素の数も違う
    refine ⟨false, ?_, ?_⟩
    · simp only [DictSame, DictEqualHelper, hs, ne_eq, not_false_eq_true, if_true,
        Bool.false_eq_true, if_false]
    · have hlen : (abs ad1).length ≠ (abs ad2).length := by
        rw [length_abs hv1, length_abs hv2]
        exact hs
      exact iff_of_false Bool.false_ne_true fun h => hlen h.1

/-- 別の配列どうしの `DictEqual` は、大きさが等しく、`ad1` の key がどれも `tvEqual` な値で
`ad2` にあること（順序は問わない）。 -/
theorem DictEqual_iff (hv1 : Valid H ad1) (hv2 : Valid H ad2) :
    ∃ r, DictEqual H tvSame tvEqual ad1 ad2 false = .ok r ∧
      (r = true ↔ (abs ad1).length = (abs ad2).length ∧
        ∀ e ∈ abs ad1, ∃ v', get? (abs ad2) e.1 = some v' ∧ tvEqual e.2 v' = true) := by
  have hmem : ∀ e : Key S × α, (get? (abs ad2) e.1).any (tvEqual e.2) = true ↔
      ∃ v', get? (abs ad2) e.1 = some v' ∧ tvEqual e.2 v' = true := by
    intro e
    cases get? (abs ad2) e.1 <;> simp
  by_cases hs : ad1.size = ad2.size
  · refine ⟨(abs ad1).all fun e => (get? (abs ad2) e.1).any (tvEqual e.2), ?_, ?_⟩
    · simp only [DictEqual, DictEqualHelper, hs, ne_eq, not_true_eq_false, if_false,
        Bool.false_eq_true]
      exact equalLoop_eq hv2 ad1.elms
    · rw [length_abs hv1, length_abs hv2, List.all_eq_true]
      simp only [hmem, hs, true_and]
  · refine ⟨false, ?_, ?_⟩
    · simp only [DictEqual, DictEqualHelper, hs, ne_eq, not_false_eq_true, if_true,
        Bool.false_eq_true, if_false]
    · have hlen : (abs ad1).length ≠ (abs ad2).length := by
        rw [length_abs hv1, length_abs hv2]
        exact hs
      exact iff_of_false Bool.false_ne_true fun h => hlen h.1

/-! ## 同じ配列 -/

/-- 同じ配列（`ad1 == ad2`）なら、要素を見ずに真。 -/
theorem DictEqualHelper_identical (ad1 ad2 : VanillaDict S α) (strict : Bool) :
    DictEqualHelper H tvSame tvEqual ad1 ad2 true strict = .ok true := rfl

/-- `DictSame` と `DictEqual` は、同じ配列を比べたときか、`abs` の上の比較が成り立つときに真を返す。
別の配列どうしなら抽象の比較そのもの。 -/
theorem dictEquality_matches_abs (hv1 : Valid H ad1) (hv2 : Valid H ad2) (identical : Bool) :
    (∃ r, DictSame H tvSame tvEqual ad1 ad2 identical = .ok r ∧
      (r = true ↔ identical = true ∨ ((abs ad1).length = (abs ad2).length ∧
        ∀ i (h1 : i < (abs ad1).length) (h2 : i < (abs ad2).length),
          (abs ad1)[i].1 = (abs ad2)[i].1 ∧ tvSame (abs ad1)[i].2 (abs ad2)[i].2 = true))) ∧
    (∃ r, DictEqual H tvSame tvEqual ad1 ad2 identical = .ok r ∧
      (r = true ↔ identical = true ∨ ((abs ad1).length = (abs ad2).length ∧
        ∀ e ∈ abs ad1, ∃ v', get? (abs ad2) e.1 = some v' ∧ tvEqual e.2 v' = true))) := by
  cases identical with
  | true =>
    exact ⟨⟨true, DictEqualHelper_identical ad1 ad2 true, iff_of_true rfl (Or.inl rfl)⟩,
      ⟨true, DictEqualHelper_identical ad1 ad2 false, iff_of_true rfl (Or.inl rfl)⟩⟩
  | false =>
    obtain ⟨r, hr, hiff⟩ := @DictSame_iff S α _ H tvSame tvEqual ad1 ad2 hv1 hv2
    obtain ⟨r', hr', hiff'⟩ := @DictEqual_iff S α _ H tvSame tvEqual ad1 ad2 hv1 hv2
    refine ⟨⟨r, hr, ?_⟩, ⟨r', hr', ?_⟩⟩
    · rw [hiff, Bool.false_eq_true, false_or]
    · rw [hiff', Bool.false_eq_true, false_or]

/-! ## `double` の値

`tvSame` と `tvEqual` は `double` どうしを C++ の `==` で比べる。`double` を bit 列で持つと、
`NaN`（指数が全部 1 で仮数が 0 でない）はどれとも等しくなく、`+0` と `-0` は等しい。 -/

/-- `double` の `NaN` の bit 列か。 -/
def isNaN (x : UInt64) : Bool :=
  x &&& 0x7ff0000000000000 == 0x7ff0000000000000 && x &&& 0x000fffffffffffff != 0

/-- C++ の `double` の `==`（IEEE 754）を bit 列の上で。 -/
def doubleEq (a b : UInt64) : Bool :=
  if isNaN a || isNaN b then false
  else a == b || (a ||| b) &&& 0x7fffffffffffffff == 0

/-- `std::numeric_limits<double>::quiet_NaN()` の bit 列。 -/
def quietNaN : UInt64 := 0x7ff8000000000000

/-- 値 `NaN` を一つ持つ dict を自分と比べると、`DictSame` も `DictEqual` も同じ配列として真を返すが、
`abs` の上では `NaN` が自分と `tvSame` でも `tvEqual` でもないので比較は成り立たない。 -/
theorem DictSame_self_NaN :
    ∃ d : VanillaDict String UInt64, MakeDictNatural stringHasher [quietNaN] = .ok d ∧
      Valid stringHasher d ∧
      DictSame stringHasher doubleEq doubleEq d d true = .ok true ∧
      DictEqual stringHasher doubleEq doubleEq d d true = .ok true ∧
      ¬ (∀ i (h : i < (abs d).length),
          (abs d)[i].1 = (abs d)[i].1 ∧ doubleEq (abs d)[i].2 (abs d)[i].2 = true) ∧
      ¬ (∀ e ∈ abs d, ∃ v', get? (abs d) e.1 = some v' ∧ doubleEq e.2 v' = true) := by
  obtain ⟨d, hd, hv, habs, -⟩ :=
    Valid.MakeDictNatural (H := stringHasher)
      (by decide : computeScaleFromSize [quietNaN].length < MaxScale)
  have habs' : abs d = [(.int 0, quietNaN)] := habs
  have hnan : doubleEq quietNaN quietNaN = false := by decide
  refine ⟨d, hd, hv, rfl, rfl, ?_, ?_⟩
  · intro h
    have h0 := (h 0 (by simp [habs'])).2
    simp only [habs', List.getElem_cons_zero] at h0
    rw [hnan] at h0
    exact Bool.false_ne_true h0
  · intro h
    obtain ⟨v', hget, heq⟩ := h (.int 0, quietNaN) (by simp [habs'])
    have hv' : v' = quietNaN := by
      rw [habs'] at hget
      simpa [get?] using hget.symm
    rw [hv', hnan] at heq
    exact Bool.false_ne_true heq

/-- 位置 0 に tombstone を残した dict（`[10, 20, 30]` から key 0 を消したもの）と、tombstone の無い
dict（`MakeDict` で key 1、2 を並べたもの）は、別の配列として `DictSame` でも `DictEqual` でも等しい。 -/
theorem dictEquality_matches_abs_tombstone :
    ∃ d1 d2 : VanillaDict String Nat,
      ((MakeDictNatural stringHasher [10, 20, 30]).bind fun d => d.RemoveIntMove stringHasher 0) =
        .ok d1 ∧ MakeDict stringHasher [(.int 1, 20), (.int 2, 30)] = .ok (some d2) ∧
      d1.elms = [none, some (.int 1, 20), some (.int 2, 30)] ∧
      d2.elms = [some (.int 1, 20), some (.int 2, 30)] ∧
      DictSame stringHasher (· == ·) (· == ·) d1 d2 false = .ok true ∧
      DictEqual stringHasher (· == ·) (· == ·) d1 d2 false = .ok true := by
  obtain ⟨d1, h1, he1⟩ : ∃ d, ((MakeDictNatural stringHasher [10, 20, 30]).bind
      fun d => d.RemoveIntMove stringHasher 0) = .ok d ∧
      d.elms = [none, some (.int 1, (20 : Nat)), some (.int 2, 30)] := ⟨_, rfl, rfl⟩
  obtain ⟨d2, h2, he2, hs2⟩ : ∃ d, MakeDict stringHasher [(.int 1, (20 : Nat)), (.int 2, 30)] =
      .ok (some d) ∧ d.elms = [some (.int 1, 20), some (.int 2, 30)] ∧ d.scale < MaxScale :=
    ⟨_, rfl, rfl, by decide⟩
  -- 消した後の配列は、`MakeDictNatural` の配列から `RemoveIntMove` の一歩で届く
  have hv1 : Valid stringHasher d1 :=
    (Reachable.step (o := ⟨0, false⟩)
      (Reachable.ofNatural (by decide) (show MakeDictNatural stringHasher [10, 20, 30] = _ from rfl))
      (show VanillaDict.Pre _ (.RemoveIntMove 0) from trivial) (by decide) h1).valid.1
  obtain ⟨hv2, habs2, -⟩ := Valid.MakeDict h2 hs2
  have habs1 : abs d1 = [(.int 1, 20), (.int 2, 30)] := by
    rw [abs, he1]
    rfl
  obtain ⟨⟨r, hr, hiff⟩, ⟨r', hr', hiff'⟩⟩ := dictEquality_matches_abs hv1 hv2 false
  rw [habs1, habs2] at hiff hiff'
  have hs : r = true := hiff.mpr (Or.inr ⟨rfl, fun i _ _ => ⟨rfl, beq_self_eq_true _⟩⟩)
  have he : r' = true := hiff'.mpr (Or.inr ⟨rfl, fun e he =>
    ⟨e.2, get?_of_mem (habs2 ▸ hv2.keys_nodup) he, beq_self_eq_true _⟩⟩)
  exact ⟨d1, d2, h1, h2, he1, he2, hs ▸ hr, he ▸ hr'⟩

end VanillaDict

end Hhvm
