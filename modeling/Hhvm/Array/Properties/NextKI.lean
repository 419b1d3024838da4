import Hhvm.Array.Properties.DictOps

/-!
# `m_nextKI` の不変量

`m_nextKI` は append（`nextInsert`）が使う次の int key である。`nextInsert` は key を比べない
`findForNewInsert` で場所を取るので、「key `m_nextKI` はまだ無い」ことを前提にしている。
その前提を支えるのが `checkInvariants` の注釈にある不変量

  `m_nextKI >= 0` なら、生きている int key はどれも `m_nextKI` より小さい

である（`NextKIInv`）。ここでは

* key の列の上の性質 `NextFree` と、末尾への追加と部分列がそれを保つこと
* `MakeReserveDict`、`MakeDictNatural`、`MakeStructDict` が不変量を満たし、`insert`、`update`、
  `nextInsert`、`updateNextKI` つきの `RemoveIntMove`、`PopMove`、`AppendMove`、`Grow`、
  `compact(false)`、`CopyReserve`、`Merge` がそれを保つこと
* `Merge` の抽象の意味 `mergeSpec`：文字列 key は `set`、int key の値は `m_nextKI` から順に
  振った key で末尾に足す

を示す。`MakeDict` は int key を入れても `m_nextKI` を 0 のままにするので不変量を保たず、
続く `AppendMove` が同じ key を二つ作る（`MakeDict_AppendMove_dup`）。
-/

namespace Hhvm

open Infra Infra.OrderedMap HashTableCommon HashTable

/-! ## `Int64` の `+ 1` -/

/-- `x + 1` が `2 ^ 63` に届かなければ桁あふれしない。 -/
theorem int64_toInt_add_one {x : Int64} (h : x.toInt + 1 < 2 ^ 63) :
    (x + 1).toInt = x.toInt + 1 := by
  have hlo := x.le_toInt
  rw [Int64.toInt_add, Int64.toInt_one]
  apply Int.bmod_eq_of_le <;> omega

/-- `x + 1` が負でなければ `x < x + 1`。`INT64_MAX + 1` は `INT64_MIN` に回って負になる。 -/
theorem int64_lt_add_one {x : Int64} (h : 0 ≤ x + 1) : x < x + 1 := by
  have hhi := x.toInt_lt
  by_cases hlt : x.toInt + 1 < 2 ^ 63
  · rw [Int64.lt_iff_toInt_lt, int64_toInt_add_one hlt]
    omega
  · have heq : x.toInt + 1 = 2 ^ 63 := by omega
    have hmin : (x + 1).toInt = -2 ^ 63 := by
      rw [Int64.toInt_add, Int64.toInt_one, heq]
      decide
    rw [Int64.le_iff_toInt_le, Int64.toInt_zero, hmin] at h
    omega

/-- `INT64_MAX` でない値は `INT64_MAX` より小さい。 -/
theorem int64_lt_max {k : Int64} (h : k ≠ 0x7fffffffffffffff) : k < 0x7fffffffffffffff := by
  have hhi := k.toInt_lt
  have hmax : (0x7fffffffffffffff : Int64).toInt = 2 ^ 63 - 1 := by decide
  have hne : k.toInt ≠ 2 ^ 63 - 1 := fun h' => h (Int64.toInt_inj.mp (h'.trans hmax.symm))
  rw [Int64.lt_iff_toInt_lt, hmax]
  omega

/-! ## 次の int key -/

section NextFree

variable {S : Type}

/-- `n ≥ 0` なら、key の列 `ks` の int key はどれも `n` より小さい。 -/
def NextFree (ks : List (Key S)) (n : Int64) : Prop :=
  0 ≤ n → ∀ k, Key.int k ∈ ks → k < n

namespace NextFree

variable {ks ks' : List (Key S)} {n : Int64}

theorem nil (n : Int64) : NextFree ([] : List (Key S)) n :=
  fun _ _ hk => absurd hk List.not_mem_nil

theorem mono (h : NextFree ks n) (hsub : ks' ⊆ ks) : NextFree ks' n :=
  fun hn k hk => h hn k (hsub hk)

/-- 不変量のもとでは key `n` はまだ無い（`nextInsert` の前提）。 -/
theorem not_mem (h : NextFree ks n) (hn : 0 ≤ n) : Key.int n ∉ ks :=
  fun hk => Int64.lt_irrefl (h hn n hk)

theorem append_str (h : NextFree ks n) (s : S) : NextFree (ks ++ [Key.str s]) n := by
  intro hn k hk
  rcases List.mem_append.mp hk with hk | hk
  · exact h hn k hk
  · cases List.mem_singleton.mp hk

/-- `nextInsert`：key `n` を足して `n + 1` に進める。 -/
theorem append_next (h : NextFree ks n) (hn : 0 ≤ n) : NextFree (ks ++ [Key.int n]) (n + 1) := by
  intro hn₁ k hk
  have hlt : n < n + 1 := int64_lt_add_one hn₁
  rcases List.mem_append.mp hk with hk | hk
  · exact Int64.lt_trans (h hn k hk) hlt
  · cases List.mem_singleton.mp hk
    exact hlt

/-- `insert`：int key `ki` を足し、`ki >= m_nextKI && m_nextKI >= 0` なら `ki + 1` に進める。 -/
theorem append_int (h : NextFree ks n) (ki : Int64) :
    NextFree (ks ++ [Key.int ki]) (if ki ≥ n ∧ n ≥ 0 then ki + 1 else n) := by
  split
  next hc =>
    obtain ⟨hge, hn⟩ := hc
    intro hn₁ k hk
    have hlt : ki < ki + 1 := int64_lt_add_one hn₁
    rcases List.mem_append.mp hk with hk | hk
    · exact Int64.lt_trans (Int64.lt_of_lt_of_le (h hn k hk) hge) hlt
    · cases List.mem_singleton.mp hk
      exact hlt
  next hc =>
    intro hn k hk
    rcases List.mem_append.mp hk with hk | hk
    · exact h hn k hk
    · -- 進めなかったのは `ki < m_nextKI` だったから
      cases List.mem_singleton.mp hk
      exact Int64.not_le.mp fun hge => hc ⟨hge, hn⟩

/-- key `INT64_MAX` が無ければ `INT64_MAX` で成り立つ（`updateNextKI` が戻す先）。 -/
theorem of_max (h : Key.int 0x7fffffffffffffff ∉ ks) : NextFree ks 0x7fffffffffffffff :=
  fun _ _ hk => int64_lt_max fun he => h (he ▸ hk)

end NextFree

end NextFree

namespace VanillaDict

variable {S α : Type} [DecidableEq S] {H : Hasher S} {o : Options} {d d' : VanillaDict S α}

/-- `m_nextKI` の不変量：`m_nextKI >= 0` なら、生きている int key はどれもそれより小さい。 -/
def NextKIInv (d : VanillaDict S α) : Prop := NextFree (keys (abs d)) d.nextKI

omit [DecidableEq S] in
theorem NextKIInv.of_sub (h : NextKIInv d) (hsub : keys (abs d') ⊆ keys (abs d))
    (hn : d'.nextKI = d.nextKI) : NextKIInv d' := by
  unfold NextKIInv
  rw [hn]
  exact NextFree.mono h hsub

omit [DecidableEq S] in
theorem NextKIInv.of_abs (h : NextKIInv d) (habs : abs d' = abs d) (hn : d'.nextKI = d.nextKI) :
    NextKIInv d' :=
  h.of_sub (by rw [habs]; exact List.Subset.refl _) hn

/-! ## 作る -/

omit [DecidableEq S] in
theorem nextKIInv_MakeReserveDict (n : Nat) : NextKIInv (MakeReserveDict n : VanillaDict S α) :=
  NextFree.nil _

/-- `MakeDictNatural` の key は `0, …, n - 1` で、`m_nextKI = n`。 -/
theorem nextKIInv_MakeDictNatural {vals : List α}
    (hs : computeScaleFromSize vals.length < MaxScale) (h : MakeDictNatural H vals = .ok d) :
    NextKIInv d := by
  obtain ⟨d₀, h₀, -, habs, hn⟩ := Valid.MakeDictNatural (H := H) hs
  rw [h] at h₀
  cases h₀
  have hlt : vals.length < 2 ^ 63 := lt_two_pow_63 (computeScaleFromSize_capacity hs) hs
  unfold NextKIInv
  rw [habs, hn]
  intro _ k hk
  obtain ⟨⟨k', v⟩, hmem, hk'⟩ := List.mem_map.mp hk
  obtain ⟨j, hj, hje⟩ := List.mem_mapIdx.mp hmem
  cases hje
  cases hk'
  exact (Int64.ofNat_lt_iff_lt (by omega) hlt).mpr hj

/-- `MakeStructDict` の key はどれも文字列である。 -/
theorem nextKIInv_MakeStructDict {keys : List S} (hnd : keys.Nodup)
    (hs : computeScaleFromSize keys.length < MaxScale) (values : List α)
    (h : MakeStructDict H keys values = .ok d) : NextKIInv d := by
  obtain ⟨d₀, h₀, -, habs, -⟩ := Valid.MakeStructDict (H := H) hnd hs values
  rw [h] at h₀
  cases h₀
  unfold NextKIInv
  rw [habs]
  intro _ k hk
  obtain ⟨⟨k', v⟩, hmem, hk'⟩ := List.mem_map.mp hk
  obtain ⟨kv, -, hkv⟩ := List.mem_map.mp hmem
  cases hkv
  cases hk'

/-! ## 足す -/

/-- `insert` は足した int key に合わせて `m_nextKI` を進めるので、不変量を保つ。 -/
theorem NextKIInv.insert (h : NextKIInv d) {k : Key S} {v : α} {b : Bool} {pos : Nat}
    (hins : d.insert H k v = .ok (b, pos, d')) : NextKIInv d' := by
  unfold VanillaDict.insert at hins
  dsimp only at hins
  split at hins
  · cases hins
  · cases hins
    exact h
  · cases hins
    unfold NextKIInv
    rw [abs_allocElm, keys_append]
    cases k with
    | int ki => exact NextFree.append_int h ki
    | str s => exact NextFree.append_str h s

omit [DecidableEq S] in
/-- 値を書き換えても key の列は変わらない。 -/
theorem keys_abs_setVal (d : VanillaDict S α) (pos : Nat) (v : α) :
    keys (abs (d.setVal pos v)) = keys (abs d) := by
  unfold setVal
  split
  next k v₀ he => exact keys_filterMap_set_some v (e := (k, v₀)) he
  next => rfl

theorem NextKIInv.update (h : NextKIInv d) {k : Key S} {v : α} (hu : d.update H k v = .ok d') :
    NextKIInv d' := by
  unfold VanillaDict.update at hu
  obtain ⟨⟨b, pos, d₁⟩, hins, hd⟩ := Except.bind_eq_ok.mp hu
  have h₁ := h.insert hins
  cases hd
  split
  · unfold NextKIInv
    rw [keys_abs_setVal, setVal_nextKI]
    exact h₁
  · exact h₁

theorem NextKIInv.updateSkipConflict (h : NextKIInv d) {k : Key S} {v : α}
    (hu : d.updateSkipConflict H k v = .ok d') : NextKIInv d' := by
  unfold VanillaDict.updateSkipConflict at hu
  obtain ⟨⟨b, pos, d₁⟩, hins, hd⟩ := Except.bind_eq_ok.mp hu
  cases hd
  exact h.insert hins

/-- 文字列 key の `update` は `m_nextKI` を変えない。 -/
theorem update_str_nextKI {s : S} {v : α} (hu : d.update H (.str s) v = .ok d') :
    d'.nextKI = d.nextKI := by
  unfold VanillaDict.update at hu
  obtain ⟨⟨b, pos, d₁⟩, hins, hd⟩ := Except.bind_eq_ok.mp hu
  have hn₁ : d₁.nextKI = d.nextKI := by
    unfold VanillaDict.insert at hins
    dsimp only at hins
    split at hins
    · cases hins
    · cases hins
      rfl
    · cases hins
      rfl
  cases hd
  split
  · rw [setVal_nextKI, hn₁]
  · exact hn₁

omit [DecidableEq S] in
theorem NextKIInv.nextInsert (h : NextKIInv d) (hn : 0 ≤ d.nextKI) {v : α}
    (hi : d.nextInsert H v = .ok d') : NextKIInv d' := by
  obtain ⟨p, -, rfl⟩ := nextInsert_ok hi
  unfold NextKIInv
  rw [abs_allocElm, keys_append]
  exact NextFree.append_next h hn

/-! ## 表を作り直す -/

omit [DecidableEq S] in
theorem NextKIInv.prepareForInsert (hw : d.toHashTable.WF (elmProbe H)) (h : NextKIInv d)
    {p : VanillaDict S α} (hp : d.prepareForInsert H o = .ok p) : NextKIInv p := by
  obtain ⟨-, -, -, he, hn⟩ := prepareForInsert_wf hw hp
  exact h.of_abs (by rw [abs, abs, he]) hn

omit [DecidableEq S] in
theorem NextKIInv.Grow (h : NextKIInv d) {s : Nat} (hg : d.Grow H o s = .ok d') : NextKIInv d' := by
  obtain ⟨table, -, rfl⟩ := Grow_ok hg
  exact h

omit [DecidableEq S] in
theorem NextKIInv.compact (hw : d.toHashTable.WF (elmProbe H)) (h : NextKIInv d)
    (hc : d.compact H false = .ok d') : NextKIInv d' := by
  obtain ⟨he, hn⟩ := compact_false_elms hw hc
  exact h.of_abs (by rw [abs, he, filterMap_id_map_some]) hn

omit [DecidableEq S] in
theorem NextKIInv.CopyReserve (h : NextKIInv d) {n : Nat} (hc : d.CopyReserve H n = .ok d') :
    NextKIInv d' := by
  obtain ⟨table, -, rfl⟩ := CopyReserve_ok hc
  exact h.of_abs (filterMap_id_map_some _) rfl

theorem NextKIInv.SetMove (hw : d.toHashTable.WF (elmProbe H)) (h : NextKIInv d) {k : Key S}
    {v : α} (hs : d.SetMove H o k v = .ok d') : NextKIInv d' := by
  unfold VanillaDict.SetMove at hs
  obtain ⟨p, hp, hu⟩ := Except.bind_eq_ok.mp hs
  exact (h.prepareForInsert hw hp).update hu

theorem NextKIInv.SetMoveSkipConflict (hw : d.toHashTable.WF (elmProbe H)) (h : NextKIInv d)
    {k : Key S} {v : α} (hs : d.SetMoveSkipConflict H o k v = .ok d') : NextKIInv d' := by
  unfold VanillaDict.SetMoveSkipConflict at hs
  obtain ⟨p, hp, hu⟩ := Except.bind_eq_ok.mp hs
  exact (h.prepareForInsert hw hp).updateSkipConflict hu

omit [DecidableEq S] in
/-- `AppendMove` は `m_nextKI < 0` なら何もせず、そうでなければ `nextInsert` する。 -/
theorem NextKIInv.AppendMove (hw : d.toHashTable.WF (elmProbe H)) (h : NextKIInv d) {v : α}
    {rs : List Raised} (ha : d.AppendMove H o v = .ok (d', rs)) : NextKIInv d' := by
  rcases AppendMove_cases ha with ⟨-, rfl⟩ | ⟨hneg, p, hp, hi⟩
  · exact h
  · have hn : p.nextKI = d.nextKI := (prepareForInsert_wf hw hp).2.2.2.2
    refine (h.prepareForInsert hw hp).nextInsert ?_ hi
    rw [hn]
    exact Int64.not_lt.mp hneg

/-! ## 消す -/

/-- `RemoveIntMove` は key を減らすだけで、`updateNextKI` が `m_nextKI` を戻すのは
消した key が `INT64_MAX` のときだけである。 -/
theorem NextKIInv.RemoveIntMove (hv : Valid H d) (h : NextKIInv d) {k : Int64}
    (hr : d.RemoveIntMove H k = .ok d') : NextKIInv d' := by
  obtain ⟨d₁, hr₁, -, habs, -, hn⟩ := hv.RemoveIntMove k
  rw [hr] at hr₁
  cases hr₁
  rcases hn with hn | ⟨hn, hk⟩
  · exact h.of_sub (by rw [habs]; exact (keys_erase_sublist _ _).subset) hn
  · unfold NextKIInv
    rw [hn]
    apply NextFree.of_max
    rw [habs, ← hk]
    exact not_mem_keys_erase _ _

theorem NextKIInv.RemoveStrMove (hv : Valid H d) (h : NextKIInv d) {k : S}
    (hr : d.RemoveStrMove H k = .ok d') : NextKIInv d' := by
  obtain ⟨d₁, hr₁, -, habs, -, hn⟩ := hv.RemoveStrMove k
  rw [hr] at hr₁
  cases hr₁
  exact h.of_sub (by rw [habs]; exact (keys_erase_sublist _ _).subset) hn

theorem NextKIInv.PopMove (hv : Valid H d) (h : NextKIInv d) {r : Option α}
    (hp : d.PopMove H = .ok (d', r)) : NextKIInv d' := by
  obtain ⟨d₁, r₁, hp₁, -, habs, -, -, hn⟩ := hv.PopMove
  rw [hp] at hp₁
  cases hp₁
  rcases hn with hn | ⟨hn, hk⟩
  · exact h.of_sub (by rw [habs]; exact List.map_subset _ (List.dropLast_subset _)) hn
  · unfold NextKIInv
    rw [hn]
    exact NextFree.of_max hk

/-! ## `Merge` -/

/-- `Merge` の抽象の意味：文字列 key の組は `set`、int key の組は key を捨て、値を `n` から順に
振った key で末尾に足す。 -/
def mergeSpec : List (Key S × α) → Int64 → List (Key S × α) → List (Key S × α)
  | m, _, [] => m
  | m, n, (.int _, v) :: rest => mergeSpec (m ++ [(.int n, v)]) (n + 1) rest
  | m, n, (.str s, v) :: rest => mergeSpec (set m (.str s) v) n rest

/-- int key の組の数（`Merge` が `nextInsert` を呼ぶ回数）。 -/
def intCount (elems : List (Key S × α)) : Nat := elems.countP (fun kv => kv.1.hasIntKey)

/-- `Merge` が振る int key が `INT64_MAX` を越えない。 -/
def MergeFits (d : VanillaDict S α) (elems : List (Key S × α)) : Prop :=
  intCount elems = 0 ∨ 0 ≤ d.nextKI.toInt ∧ d.nextKI.toInt + intCount elems ≤ 2 ^ 63

/-- `Merge` のループ。不変量が `nextInsert` の前提（key `m_nextKI` が無い）を与える。 -/
theorem mergeFold_spec : ∀ (elems : List (Key S × α)) (r : VanillaDict S α),
    Valid H r → NextKIInv r → r.used + elems.length ≤ Capacity r.scale → MergeFits r elems →
      ∃ r', elems.foldlM (mergeElem H) r = .ok r' ∧ Valid H r' ∧ NextKIInv r' ∧
        abs r' = mergeSpec (abs r) r.nextKI elems ∧ r'.scale = r.scale
  | [], r, hv, hi, _, _ => ⟨r, rfl, hv, hi, rfl, rfl⟩
  | (.int ki, v) :: rest, r, hv, hi, hcap, hfit => by
    rw [List.length_cons] at hcap
    have hcnt : intCount ((Key.int ki, v) :: rest) = intCount rest + 1 :=
      List.countP_cons_of_pos rfl
    have hn : 0 ≤ r.nextKI.toInt ∧ r.nextKI.toInt + (intCount rest + 1) ≤ 2 ^ 63 := by
      rcases hfit with h0 | h0
      · omega
      · rwa [hcnt] at h0
    have hn' : 0 ≤ r.nextKI := by
      rw [Int64.le_iff_toInt_le, Int64.toInt_zero]
      exact hn.1
    obtain ⟨r₁, h₁, hv₁, habs₁, hn₁, hs₁⟩ := hv.nextInsert (by omega) (NextFree.not_mem hi hn') v
    have hu₁ : r₁.used = r.used + 1 := (nextInsert_shape h₁).2
    have hfit₁ : MergeFits r₁ rest := by
      by_cases h0 : intCount rest = 0
      · exact Or.inl h0
      · right
        rw [hn₁, int64_toInt_add_one (by omega)]
        omega
    obtain ⟨r', hf, hv', hi', habs', hs'⟩ :=
      mergeFold_spec rest r₁ hv₁ (hi.nextInsert hn' h₁) (by rw [hu₁, hs₁]; omega) hfit₁
    refine ⟨r', ?_, hv', hi', ?_, hs'.trans hs₁⟩
    · rw [List.foldlM_cons]
      exact Except.bind_eq_ok.mpr ⟨r₁, h₁, hf⟩
    · rw [habs', habs₁, hn₁]
      rfl
  | (.str s, v) :: rest, r, hv, hi, hcap, hfit => by
    rw [List.length_cons] at hcap
    obtain ⟨r₁, h₁, hv₁, habs₁, hs₁⟩ := hv.update (by omega) (.str s) v
    have hu₁ : r₁.used ≤ r.used + 1 := (update_shape h₁).2
    have hn₁ : r₁.nextKI = r.nextKI := update_str_nextKI h₁
    have hfit₁ : MergeFits r₁ rest := by
      have hcnt : intCount ((Key.str s, v) :: rest) = intCount rest :=
        List.countP_cons_of_neg (by simp [Key.hasIntKey])
      unfold MergeFits
      rw [hn₁, ← hcnt]
      exact hfit
    obtain ⟨r', hf, hv', hi', habs', hs'⟩ :=
      mergeFold_spec rest r₁ hv₁ (hi.update h₁) (by rw [hs₁]; omega) hfit₁
    refine ⟨r', ?_, hv', hi', ?_, hs'.trans hs₁⟩
    · rw [List.foldlM_cons]
      exact Except.bind_eq_ok.mpr ⟨r₁, h₁, hf⟩
    · rw [habs', habs₁, hn₁]
      rfl

/-- **`Merge` は `mergeSpec` である。** 振る int key が `INT64_MAX` を越えず、結果の表が
`2 ^ 31` マス以下なら、`Merge` は止まり、`Valid` と不変量を保つ。 -/
theorem Valid.Merge (hv : Valid H d) (hi : NextKIInv d) {elems : List (Key S × α)}
    (hfit : MergeFits d elems) (hs : computeScaleFromSize (d.size + elems.length) < MaxScale) :
    ∃ d', d.Merge H elems = .ok d' ∧ Valid H d' ∧ NextKIInv d' ∧
      abs d' = mergeSpec (abs d) d.nextKI elems ∧
      d'.scale = computeScaleFromSize (d.size + elems.length) := by
  obtain ⟨ret, hret, hvr, habs, hsr, hur, hnr⟩ := hv.CopyReserve (Nat.le_add_right _ _) hs
  have hcap : ret.used + elems.length ≤ Capacity ret.scale := by
    rw [hur, hsr]
    exact computeScaleFromSize_capacity hs
  have hfit' : MergeFits ret elems := by
    unfold MergeFits
    rw [hnr]
    exact hfit
  obtain ⟨d', hf, hv', hi', habs', hs'⟩ :=
    mergeFold_spec elems ret hvr (hi.of_abs habs hnr) hcap hfit'
  refine ⟨d', ?_, hv', hi', ?_, hs'.trans hsr⟩
  · unfold VanillaDict.Merge
    exact Except.bind_eq_ok.mpr ⟨ret, hret, hf⟩
  · rw [habs', habs, hnr]

/-! ## `MakeDict` は不変量を保たない -/

/-- `MakeDict` に int key `0` の組を一つ渡すと、`m_nextKI = 0` のまま key `0` が入る。
続く `AppendMove` は `findForNewInsert` で key `0` の二つ目の組を足す。 -/
theorem MakeDict_AppendMove_dup (H : Hasher S) (o : Options) (v w : α) :
    ∃ d d' rs, MakeDict H [(Key.int 0, v)] = .ok (some d) ∧ d.nextKI = 0 ∧ ¬NextKIInv d ∧
      d.AppendMove H o w = .ok (d', rs) ∧ abs d' = [(Key.int 0, v), (Key.int 0, w)] := by
  have hv₀ : Valid H (VanillaDict.MakeReserveDict 1 : VanillaDict S α) :=
    (Valid.MakeReserveDict (by decide)).1
  obtain ⟨p, hf⟩ : ∃ p, (VanillaDict.MakeReserveDict 1 : VanillaDict S α).findKey H (.int 0)
      = some (.miss p) :=
    let ⟨_, _, _, _, hf⟩ := hv₀.findKey_miss (k := .int 0) List.not_mem_nil
    ⟨_, hf⟩
  obtain ⟨hv₁, habs₁⟩ := hv₀.alloc_of_miss (by show 0 < Capacity (computeScaleFromSize 1); decide)
    List.not_mem_nil hf v 0
  -- `MakeDict` の結果は、空の表に key `0` の組を足したもの
  have hmk : MakeDict H [(Key.int 0, v)]
      = .ok (some ⟨(VanillaDict.MakeReserveDict 1 : VanillaDict S α).allocElm p (.int 0, v), 0⟩) := by
    show makeDictLoop H (VanillaDict.MakeReserveDict 1) [(Key.int 0, v)] = _
    unfold makeDictLoop
    rw [hf]
    rfl
  -- まだ満杯でないので `prepareForInsert` は何もせず、`nextInsert` が key `0` をもう一度足す
  set d₁ : VanillaDict S α := ⟨(VanillaDict.MakeReserveDict 1).allocElm p (.int 0, v), 0⟩
  have hp : d₁.prepareForInsert H o = .ok d₁ := by
    unfold VanillaDict.prepareForInsert
    rw [if_neg (by show ¬(1 == Capacity (computeScaleFromSize 1)) = true; decide)]
  obtain ⟨d', hi, habs', -⟩ := nextInsert_exists hv₁.wf w
  obtain ⟨rs, ha⟩ : ∃ rs, d₁.AppendMove H o w = .ok (d', rs) := by
    unfold VanillaDict.AppendMove
    dsimp only
    rw [if_neg Int64.lt_irrefl]
    exact ⟨_, Except.bind_eq_ok.mpr ⟨d₁, hp, Except.bind_eq_ok.mpr ⟨d', hi, rfl⟩⟩⟩
  refine ⟨d₁, d', rs, hmk, rfl, ?_, ha, ?_⟩
  · intro hinv
    have hk : Key.int (0 : Int64) ∈ keys (abs d₁) := by
      rw [habs₁]
      exact List.mem_singleton_self _
    exact Int64.lt_irrefl (hinv (Int64.le_refl 0) 0 hk)
  · rw [habs', habs₁]
    rfl

end VanillaDict

end Hhvm
