import Hhvm.Jit.Properties.AliasIdSetQuery

/-!
# 作った値の `γ` と厳密な集合

コンストラクタ（`AliasIdSet()`、`AliasIdSet(id)`、`AliasIdSet(IdRange)`、可変個の
`AliasIdSet { ... }`）と変更の操作（`set`、`unset`、`|=`、`toBitset`、`setUpperRange`、`clear`）
で値を作る式を `Build` とし、その値 `Build.eval` と、操作が足し引きした id の集合そのもの
`Build.exact` を比べる。

* `Build.approx` — どの式の値も `checkInvariants` を満たし、`γ` は厳密な集合を含み、余分は
  上の範囲 `[62, Max)` の中だけ（`Widen`）
* `Build.exact_eval` — `toBitset` と `unset` を使わない式では、厳密な集合が表せる
  （一点か `[0, 61]` の部分集合、`Representable`）とき `γ` はそれに等しい

`toBitset` は big-integer を上の範囲全体に広げ、`unset` は上の範囲から id を除けないので、
この二つの後では表せる集合でも `γ` が広いままになる（`toBitset_ofId_gamma`、
`unset_set_ofId_gamma`）。
-/

namespace Hhvm.Jit.AliasIdSet

/-! ## 広げ方 -/

section Widen

variable {α : Type*} {U A B C A' B' : Set α}

/-- `B` は `A` を含み、余分は `U` の中だけにある。 -/
def Widen (U A B : Set α) : Prop := A ⊆ B ∧ B ⊆ A ∪ U

theorem Widen.of_eq (h : A = B) : Widen U A B :=
  ⟨h.le, h.ge.trans Set.subset_union_left⟩

theorem Widen.trans (h₁ : Widen U A B) (h₂ : Widen U B C) : Widen U A C := by
  refine ⟨h₁.1.trans h₂.1, h₂.2.trans ?_⟩
  exact Set.union_subset h₁.2 Set.subset_union_right

theorem Widen.union (h : Widen U A B) (h' : Widen U A' B') : Widen U (A ∪ A') (B ∪ B') := by
  refine ⟨Set.union_subset_union h.1 h'.1, Set.union_subset ?_ ?_⟩
  · exact h.2.trans (Set.union_subset_union_left U Set.subset_union_left)
  · exact h'.2.trans (Set.union_subset_union_left U Set.subset_union_right)

theorem Widen.sdiff (h : Widen U A B) (x : α) : Widen U (A \ {x}) (B \ {x}) := by
  refine ⟨Set.sdiff_subset_sdiff_left h.1, fun i hi => ?_⟩
  rcases h.2 hi.1 with hA | hU
  · exact Or.inl ⟨hA, hi.2⟩
  · exact Or.inr hU

/-- `U` の中だけを足すのは広げること。 -/
theorem widen_union_of_subset (A : Set α) (h : B ⊆ U) : Widen U A (A ∪ B) :=
  ⟨Set.subset_union_left, Set.union_subset_union_right A h⟩

end Widen

/-! ## 厳密に表せる集合 -/

/-- ヘッダが厳密に表すと約束する集合：一点か、`[0, 61]` の部分集合。 -/
def Representable (E : Set Nat) : Prop := (∃ x, E = {x}) ∨ E ⊆ Set.Iic 61

theorem Representable.mono {E F : Set Nat} (h : Representable F) (hEF : E ⊆ F) :
    Representable E := by
  rcases h with ⟨x, rfl⟩ | h
  · rcases Set.subset_singleton_iff_eq.mp hEF with rfl | rfl
    · exact Or.inr (Set.empty_subset _)
    · exact Or.inl ⟨x, rfl⟩
  · exact Or.inr (hEF.trans h)

/-- 62 以上の id と、それと違う id を含む集合は表せない。 -/
theorem not_representable {E : Set Nat} {x y : Nat} (hx : x ∈ E) (hy : y ∈ E) (hxy : x ≠ y)
    (h62 : 62 ≤ x) : ¬ Representable E := by
  rintro (⟨z, rfl⟩ | h)
  · exact hxy (hx.trans hy.symm)
  · have := h hx
    rw [Set.mem_Iic] at this
    omega

/-! ## 操作ごとの広げ方 -/

theorem widen_toBitset {s : AliasIdSet} (hs : s.checkInvariants = true) :
    Widen upper (gamma s) (gamma s.toBitset) :=
  ⟨subset_gamma_toBitset hs, gamma_toBitset_subset s⟩

theorem singleton_subset_upper {id : UInt32} (hid : 61 < id.toNat)
    (hmax : id.toNat < 4294967295) : {id.toNat} ⊆ upper :=
  Set.singleton_subset_iff.mpr (mem_upper.mpr ⟨hid, hmax⟩)

theorem widen_set {s : AliasIdSet} (hs : s.checkInvariants = true) {id : UInt32}
    (hmax : id.toNat < 4294967295) : Widen upper (gamma s ∪ {id.toNat}) (gamma (s.set id)) := by
  by_cases hid : id.toNat ≤ 61
  · rw [gamma_set_of_le s hid]
    exact (widen_toBitset hs).union (Widen.of_eq rfl)
  · rw [gamma_set_of_gt hs (by omega) hmax]
    split
    · exact Widen.of_eq (Set.union_eq_right.mpr ‹_›)
    · -- 上の範囲に広げる：`id` もそこにある
      refine ⟨Set.union_subset_union_right _ (singleton_subset_upper (by omega) hmax), ?_⟩
      exact Set.union_subset_union_left _ Set.subset_union_left

theorem Ico_eq_singleton_of_hasSingleValue {r : IdRange} (h1 : r.hasSingleValue = true) :
    Set.Ico r.l.toNat r.h.toNat = {r.l.toNat} := by
  rw [IdRange.hasSingleValue_eq, decide_eq_true_iff] at h1
  ext i
  rw [Set.mem_Ico, Set.mem_singleton_iff]
  omega

theorem Ico_eq_empty_of_empty {r : IdRange} (he : r.empty = true) :
    Set.Ico r.l.toNat r.h.toNat = ∅ := by
  rw [IdRange.empty_eq, decide_eq_true_iff] at he
  exact Set.Ico_eq_empty (by omega)

theorem widen_setRange {s : AliasIdSet} (hs : s.checkInvariants = true) (r : IdRange) :
    Widen upper (gamma s ∪ Set.Ico r.l.toNat r.h.toNat) (gamma (s.setRange r)) := by
  have hhmax : r.h.toNat ≤ 4294967295 := by
    have := r.h.toNat_lt
    omega
  cases he : r.empty
  · cases h1 : r.hasSingleValue
    · rw [gamma_setRange hs he h1]
      -- 下の `[l, 62)` はビットで、残りは上の範囲で
      have hIco : Set.Ico r.l.toNat r.h.toNat ⊆
          Set.Ico r.l.toNat (min 62 r.h.toNat) ∪ {i | 62 ≤ i ∧ i < r.h.toNat} := by
        intro i hi
        rw [Set.mem_Ico] at hi
        by_cases h62 : i < 62
        · exact Or.inl ⟨hi.1, lt_min h62 hi.2⟩
        · exact Or.inr ⟨by omega, hi.2⟩
      have hupper : {i | 62 ≤ i ∧ i < r.h.toNat} ⊆ upper := fun i hi =>
        mem_upper.mpr ⟨hi.1, by have := hi.2; omega⟩
      constructor
      · refine Set.union_subset ?_ ?_
        · split
          · exact Set.subset_union_left.trans Set.subset_union_left
          · exact (subset_gamma_toBitset hs).trans Set.subset_union_left
        · refine hIco.trans (Set.union_subset Set.subset_union_right ?_)
          intro i hi
          have h62 : 62 < r.h.toNat := by have := hi.2; have := hi.1; omega
          rw [if_pos h62]
          exact Or.inl (Or.inr (hupper hi))
      · refine Set.union_subset ?_ ?_
        · split
          · exact Set.union_subset_union_left _ Set.subset_union_left
          · exact (gamma_toBitset_subset s).trans
              (Set.union_subset_union_left _ Set.subset_union_left)
        · intro i hi
          rw [Set.mem_Ico] at hi
          exact Or.inl (Or.inr ⟨hi.1, lt_of_lt_of_le hi.2 (min_le_right _ _)⟩)
    · -- 一つの id：`set(l)`
      have hlt : r.l.toNat < r.h.toNat := by
        rw [IdRange.hasSingleValue_eq, decide_eq_true_iff] at h1
        omega
      rw [setRange_of_hasSingleValue s he h1, Ico_eq_singleton_of_hasSingleValue h1]
      exact widen_set hs (by omega)
  · rw [setRange_of_empty s he, Ico_eq_empty_of_empty he, Set.union_empty]
    exact Widen.of_eq rfl

theorem widen_unset (s : AliasIdSet) (id : UInt32) :
    Widen upper (gamma s \ {id.toNat}) (gamma (s.unset id)) := by
  rw [gamma_unset id]
  split
  · exact Widen.of_eq rfl
  · -- 除けなかった id は bitset の上の範囲の id
    rename_i hc
    refine ⟨Set.sdiff_subset, fun i hi => ?_⟩
    by_cases hi' : i = id.toNat
    · right
      subst hi'
      push Not at hc
      rw [mem_gamma, mem_of_isBitset (by simpa using hc.2), memBits_of_gt _ (by omega),
        Bool.and_eq_true, decide_eq_true_iff] at hi
      exact mem_upper.mpr ⟨by omega, hi.2⟩
    · exact Or.inl ⟨hi, hi'⟩

theorem widen_orAssign {s t : AliasIdSet} (hs : s.checkInvariants = true)
    (ht : t.checkInvariants = true) :
    Widen upper (gamma s ∪ gamma t) (gamma (s.orAssign t)) := by
  rw [gamma_orAssign hs ht]
  split
  · exact widen_union_of_subset _ le_rfl
  · exact Widen.of_eq rfl

/-! ## 表せる集合のときの正確さ -/

/-- 違う値と big-integer `m` の `|=` では、相手に `m` でない id がある。 -/
theorem exists_ne_of_isBigInteger {s t : AliasIdSet} (hs : s.checkInvariants = true)
    (ht : t.checkInvariants = true) (hb : s.isBitset = false) (hne : s ≠ t)
    (he : t.empty = false) : ∃ y ∈ gamma t, y ≠ s.m_bits.toNat := by
  by_contra h
  push Not at h
  have hsub : gamma t ⊆ {s.m_bits.toNat} := fun y hy => h y hy
  rcases Set.subset_singleton_iff_eq.mp hsub with h' | h'
  · rw [(empty_iff ht).mpr h'] at he
    exact absurd he (by decide)
  · exact hne (eq_of_gamma_eq hs ht (by rw [gamma_of_isBigInteger hb, h']))

theorem gamma_set_of_representable {s : AliasIdSet} (hs : s.checkInvariants = true)
    {id : UInt32} (hmax : id.toNat < 4294967295)
    (hr : Representable (gamma s ∪ {id.toNat})) : gamma (s.set id) = gamma s ∪ {id.toNat} := by
  by_cases hid : id.toNat ≤ 61
  · rw [gamma_set_of_le s hid]
    cases hb : s.isBitset
    · -- big-integer `m` に 61 以下の id を足すと表せない
      have hm := bounds_of_checkInvariants hs hb
      exact absurd hr (not_representable (Or.inl (by rw [gamma_of_isBigInteger hb]; rfl))
        (Or.inr rfl) (by omega) (by omega))
    · rw [toBitset_of_isBitset hb]
  · rw [gamma_set_of_gt hs (by omega) hmax]
    split
    · rw [Set.union_eq_right.mpr ‹_›]
    · -- `γ s` に `id` でない id があれば表せない
      rename_i h
      obtain ⟨x, hx, hxid⟩ := Set.not_subset.mp h
      exact absurd hr (not_representable (Or.inr rfl) (Or.inl hx) (Ne.symm hxid) (by omega))

theorem gamma_setRange_of_representable {s : AliasIdSet} (hs : s.checkInvariants = true)
    (r : IdRange) (hr : Representable (gamma s ∪ Set.Ico r.l.toNat r.h.toNat)) :
    gamma (s.setRange r) = gamma s ∪ Set.Ico r.l.toNat r.h.toNat := by
  have hhmax : r.h.toNat ≤ 4294967295 := by
    have := r.h.toNat_lt
    omega
  cases he : r.empty
  · cases h1 : r.hasSingleValue
    · have hl2 : r.l.toNat + 2 ≤ r.h.toNat := by
        rw [IdRange.empty_eq, decide_eq_false_iff_not] at he
        rw [IdRange.hasSingleValue_eq, decide_eq_false_iff_not] at h1
        have := UInt32.le_iff_toNat_le.mp r.le
        omega
      rw [gamma_setRange hs he h1]
      by_cases h62 : 62 < r.h.toNat
      · -- 62 以上の id を含む二つ以上の id の範囲は表せない
        exact absurd hr (not_representable (x := r.h.toNat - 1) (y := r.h.toNat - 2)
          (Or.inr ⟨by omega, by omega⟩) (Or.inr ⟨by omega, by omega⟩) (by omega) (by omega))
      · rw [if_neg h62, min_eq_right (by omega)]
        cases hb : s.isBitset
        · have hm := bounds_of_checkInvariants hs hb
          exact absurd hr (not_representable (Or.inl (by rw [gamma_of_isBigInteger hb]; rfl))
            (Or.inr ⟨le_rfl, by omega⟩) (by omega) (by omega))
        · rw [toBitset_of_isBitset hb]
    · rw [Ico_eq_singleton_of_hasSingleValue h1] at hr ⊢
      rw [setRange_of_hasSingleValue s he h1]
      have hlt : r.l.toNat < r.h.toNat := by
        rw [IdRange.hasSingleValue_eq, decide_eq_true_iff] at h1
        omega
      exact gamma_set_of_representable hs (by omega) hr
  · rw [setRange_of_empty s he, Ico_eq_empty_of_empty he, Set.union_empty]

theorem gamma_orAssign_of_representable {s t : AliasIdSet} (hs : s.checkInvariants = true)
    (ht : t.checkInvariants = true) (hr : Representable (gamma s ∪ gamma t)) :
    gamma (s.orAssign t) = gamma s ∪ gamma t := by
  rw [gamma_orAssign hs ht]
  split
  · -- 上の範囲に広げるのは、big-integer とそれ以外の id を足すときだけ
    rename_i hw
    simp only [widens, Bool.and_eq_true, bne_iff_ne, ne_eq, Bool.not_eq_true', isBigInteger,
      Bool.or_eq_true] at hw
    obtain ⟨⟨⟨hne, hse⟩, hte⟩, hbig⟩ := hw
    rcases hbig with hb | hb
    · have hm := bounds_of_checkInvariants hs hb
      obtain ⟨y, hy, hym⟩ := exists_ne_of_isBigInteger hs ht hb hne hte
      exact absurd hr (not_representable (Or.inl (by rw [gamma_of_isBigInteger hb]; rfl))
        (Or.inr hy) (Ne.symm hym) (by omega))
    · have hm := bounds_of_checkInvariants ht hb
      obtain ⟨y, hy, hym⟩ := exists_ne_of_isBigInteger ht hs hb (Ne.symm hne) hse
      exact absurd hr (not_representable (Or.inr (by rw [gamma_of_isBigInteger hb]; rfl))
        (Or.inl hy) (Ne.symm hym) (by omega))
  · rfl

/-! ## 不変条件 -/

/-- 値 `s` は正しく、`γ s` は集合 `E` を上の範囲の中だけで広げたもの。 -/
structure Approx (s : AliasIdSet) (E : Set Nat) : Prop where
  valid : s.checkInvariants = true
  widen : Widen upper E (gamma s)

/-- `Approx` に加えて、`E` が表せる集合なら `γ s` はちょうど `E`。 -/
structure Exact (s : AliasIdSet) (E : Set Nat) : Prop extends Approx s E where
  eq_of_representable : Representable E → gamma s = E

/-- 作る式の引数一つ（id か範囲）が足す集合。 -/
def Arg.toSet : Arg → Set Nat
  | .id i => {i.toNat}
  | .range r => Set.Ico r.l.toNat r.h.toNat

/-- 引数の列が足す集合。 -/
def argsSet : List Arg → Set Nat
  | [] => ∅
  | a :: args => a.toSet ∪ argsSet args

/-- id の引数は `Max` より小さい。 -/
def Arg.wf : Arg → Bool
  | .id i => decide (i.toNat < 4294967295)
  | .range _ => true

theorem setArgs_nil (s : AliasIdSet) : s.setArgs [] = s := rfl

theorem setArgs_cons (s : AliasIdSet) (a : Arg) (args : List Arg) :
    s.setArgs (a :: args) = (s.setArg a).setArgs args := rfl

namespace Approx

variable {s t : AliasIdSet} {E F : Set Nat}

theorem emptySet : Approx emptySet ∅ :=
  ⟨checkInvariants_of_isBitset isBitset_emptySet, Widen.of_eq gamma_emptySet.symm⟩

theorem ofId {id : UInt32} (hmax : id.toNat < 4294967295) : Approx (ofId id) {id.toNat} :=
  ⟨checkInvariants_ofId hmax, Widen.of_eq gamma_ofId.symm⟩

theorem set (h : Approx s E) {id : UInt32} (hmax : id.toNat < 4294967295) :
    Approx (s.set id) (E ∪ {id.toNat}) :=
  ⟨checkInvariants_set h.valid hmax,
    (h.widen.union (Widen.of_eq rfl)).trans (widen_set h.valid hmax)⟩

theorem setRange (h : Approx s E) (r : IdRange) :
    Approx (s.setRange r) (E ∪ Set.Ico r.l.toNat r.h.toNat) := by
  refine ⟨?_, (h.widen.union (Widen.of_eq rfl)).trans (widen_setRange h.valid r)⟩
  cases he : r.empty
  · cases h1 : r.hasSingleValue
    · exact checkInvariants_of_isBitset (isBitset_setRange s he h1)
    · have hlt : r.l.toNat < r.h.toNat := by
        rw [IdRange.hasSingleValue_eq, decide_eq_true_iff] at h1
        omega
      have := r.h.toNat_lt
      rw [setRange_of_hasSingleValue s he h1]
      exact checkInvariants_set h.valid (by omega)
  · rw [setRange_of_empty s he]
    exact h.valid

theorem setArg (h : Approx s E) {a : Arg} (ha : a.wf = true) :
    Approx (s.setArg a) (E ∪ a.toSet) := by
  cases a with
  | id i => exact h.set (by simpa [Arg.wf] using ha)
  | range r => exact h.setRange r

/-- 引数の列を順に `set` する：列についての帰納法。 -/
theorem setArgs (h : Approx s E) {args : List Arg} (ha : args.all Arg.wf = true) :
    Approx (s.setArgs args) (E ∪ argsSet args) := by
  induction args generalizing s E with
  | nil => simpa [setArgs_nil, argsSet] using h
  | cons a args ih =>
    rw [List.all_cons, Bool.and_eq_true] at ha
    rw [setArgs_cons, argsSet, ← Set.union_assoc]
    exact ih (h.setArg ha.1) ha.2

theorem unset (h : Approx s E) (id : UInt32) : Approx (s.unset id) (E \ {id.toNat}) :=
  ⟨checkInvariants_unset h.valid id, (h.widen.sdiff _).trans (widen_unset s id)⟩

theorem orAssign (h : Approx s E) (h' : Approx t F) : Approx (s.orAssign t) (E ∪ F) :=
  ⟨checkInvariants_orAssign h.valid h'.valid,
    (h.widen.union h'.widen).trans (widen_orAssign h.valid h'.valid)⟩

theorem toBitset (h : Approx s E) : Approx s.toBitset E :=
  ⟨checkInvariants_of_isBitset (isBitset_toBitset s), h.widen.trans (widen_toBitset h.valid)⟩

theorem setUpperRange (h : Approx s E) : Approx s.setUpperRange (E ∪ upper) :=
  ⟨checkInvariants_of_isBitset (isBitset_setUpperRange s),
    (h.widen.union (Widen.of_eq rfl)).trans (Widen.of_eq (gamma_setUpperRange h.valid).symm)⟩

theorem clear (s : AliasIdSet) : Approx s.clear ∅ := by
  rw [clear_eq]
  exact emptySet

end Approx

namespace Exact

variable {s t : AliasIdSet} {E F : Set Nat}

theorem emptySet : Exact emptySet ∅ :=
  ⟨Approx.emptySet, fun _ => gamma_emptySet⟩

theorem ofId {id : UInt32} (hmax : id.toNat < 4294967295) : Exact (ofId id) {id.toNat} :=
  ⟨Approx.ofId hmax, fun _ => gamma_ofId⟩

theorem set (h : Exact s E) {id : UInt32} (hmax : id.toNat < 4294967295) :
    Exact (s.set id) (E ∪ {id.toNat}) := by
  refine ⟨h.toApprox.set hmax, fun hr => ?_⟩
  have hE := h.eq_of_representable (hr.mono Set.subset_union_left)
  rw [← hE] at hr ⊢
  exact gamma_set_of_representable h.valid hmax hr

theorem setRange (h : Exact s E) (r : IdRange) :
    Exact (s.setRange r) (E ∪ Set.Ico r.l.toNat r.h.toNat) := by
  refine ⟨h.toApprox.setRange r, fun hr => ?_⟩
  have hE := h.eq_of_representable (hr.mono Set.subset_union_left)
  rw [← hE] at hr ⊢
  exact gamma_setRange_of_representable h.valid r hr

theorem setArg (h : Exact s E) {a : Arg} (ha : a.wf = true) :
    Exact (s.setArg a) (E ∪ a.toSet) := by
  cases a with
  | id i => exact h.set (by simpa [Arg.wf] using ha)
  | range r => exact h.setRange r

theorem setArgs (h : Exact s E) {args : List Arg} (ha : args.all Arg.wf = true) :
    Exact (s.setArgs args) (E ∪ argsSet args) := by
  induction args generalizing s E with
  | nil => simpa [setArgs_nil, argsSet] using h
  | cons a args ih =>
    rw [List.all_cons, Bool.and_eq_true] at ha
    rw [setArgs_cons, argsSet, ← Set.union_assoc]
    exact ih (h.setArg ha.1) ha.2

theorem orAssign (h : Exact s E) (h' : Exact t F) : Exact (s.orAssign t) (E ∪ F) := by
  refine ⟨h.toApprox.orAssign h'.toApprox, fun hr => ?_⟩
  have hE := h.eq_of_representable (hr.mono Set.subset_union_left)
  have hF := h'.eq_of_representable (hr.mono Set.subset_union_right)
  rw [← hE, ← hF] at hr ⊢
  exact gamma_orAssign_of_representable h.valid h'.valid hr

/-- 上の範囲を足した集合は表せない（62 と 63 を含む）ので、`setUpperRange` は広げ方だけ。 -/
theorem setUpperRange (h : Exact s E) : Exact s.setUpperRange (E ∪ upper) := by
  refine ⟨h.toApprox.setUpperRange, fun hr => ?_⟩
  exact absurd hr (not_representable (x := 62) (y := 63) (Or.inr (mem_upper.mpr ⟨le_rfl, by omega⟩))
    (Or.inr (mem_upper.mpr ⟨by omega, by omega⟩)) (by omega) le_rfl)

theorem clear (s : AliasIdSet) : Exact s.clear ∅ := by
  rw [clear_eq]
  exact emptySet

end Exact

/-! ## 作る式 -/

/-- 値を作る式：コンストラクタと変更の操作。 -/
inductive Build where
  | emptySet
  | ofId (id : UInt32)
  | ofRange (r : IdRange)
  | ofArgs (args : List Arg)
  | set (b : Build) (id : UInt32)
  | setRange (b : Build) (r : IdRange)
  | setArgs (b : Build) (args : List Arg)
  | unset (b : Build) (id : UInt32)
  | orAssign (b c : Build)
  | toBitset (b : Build)
  | setUpperRange (b : Build)
  | clear (b : Build)

namespace Build

/-- 式の値。 -/
def eval : Build → AliasIdSet
  | .emptySet => AliasIdSet.emptySet
  | .ofId id => AliasIdSet.ofId id
  | .ofRange r => AliasIdSet.ofRange r
  | .ofArgs args => AliasIdSet.ofArgs args
  | .set b id => b.eval.set id
  | .setRange b r => b.eval.setRange r
  | .setArgs b args => b.eval.setArgs args
  | .unset b id => b.eval.unset id
  | .orAssign b c => b.eval.orAssign c.eval
  | .toBitset b => b.eval.toBitset
  | .setUpperRange b => b.eval.setUpperRange
  | .clear b => b.eval.clear

/-- 式が足し引きした id の集合そのもの。`toBitset` は id を足さず、`setUpperRange` は上の範囲を
足す。 -/
def exact : Build → Set Nat
  | .emptySet => ∅
  | .ofId id => {id.toNat}
  | .ofRange r => Set.Ico r.l.toNat r.h.toNat
  | .ofArgs args => argsSet args
  | .set b id => b.exact ∪ {id.toNat}
  | .setRange b r => b.exact ∪ Set.Ico r.l.toNat r.h.toNat
  | .setArgs b args => b.exact ∪ argsSet args
  | .unset b id => b.exact \ {id.toNat}
  | .orAssign b c => b.exact ∪ c.exact
  | .toBitset b => b.exact
  | .setUpperRange b => b.exact ∪ upper
  | .clear _ => ∅

/-- 足す id はどれも `Max` より小さい。 -/
def wf : Build → Bool
  | .emptySet => true
  | .ofId id => decide (id.toNat < 4294967295)
  | .ofRange _ => true
  | .ofArgs args => args.all Arg.wf
  | .set b id => b.wf && decide (id.toNat < 4294967295)
  | .setRange b _ => b.wf
  | .setArgs b args => b.wf && args.all Arg.wf
  | .unset b _ => b.wf
  | .orAssign b c => b.wf && c.wf
  | .toBitset b => b.wf
  | .setUpperRange b => b.wf
  | .clear b => b.wf

/-- `toBitset` も `unset` も使わない式。 -/
def isPlain : Build → Bool
  | .emptySet | .ofId _ | .ofRange _ | .ofArgs _ => true
  | .set b _ | .setRange b _ | .setArgs b _ | .setUpperRange b | .clear b => b.isPlain
  | .orAssign b c => b.isPlain && c.isPlain
  | .unset _ _ | .toBitset _ => false

/-- どの式の値も正しく、`γ` は厳密な集合を上の範囲の中だけで広げたもの：式についての帰納法で、
一つの操作ごとに `Approx` の補題を使う。 -/
theorem approx (b : Build) (hb : b.wf = true) : Approx b.eval b.exact := by
  induction b with
  | emptySet => exact Approx.emptySet
  | ofId id => exact Approx.ofId (by simpa [wf] using hb)
  | ofRange r =>
    have := Approx.emptySet.setRange r
    rwa [Set.empty_union] at this
  | ofArgs args =>
    have := Approx.emptySet.setArgs (by simpa [wf] using hb)
    rwa [Set.empty_union] at this
  | set b id ih =>
    rw [wf, Bool.and_eq_true, decide_eq_true_iff] at hb
    exact (ih hb.1).set hb.2
  | setRange b r ih => exact (ih hb).setRange r
  | setArgs b args ih =>
    rw [wf, Bool.and_eq_true] at hb
    exact (ih hb.1).setArgs hb.2
  | unset b id ih => exact (ih hb).unset id
  | orAssign b c ihb ihc =>
    rw [wf, Bool.and_eq_true] at hb
    exact (ihb hb.1).orAssign (ihc hb.2)
  | toBitset b ih => exact (ih hb).toBitset
  | setUpperRange b ih => exact (ih hb).setUpperRange
  | clear b _ => exact Approx.clear _

/-- `toBitset` と `unset` を使わない式では、厳密な集合が表せるなら `γ` はそれに等しい。 -/
theorem exact_eval (b : Build) (hb : b.wf = true) (hp : b.isPlain = true) :
    Exact b.eval b.exact := by
  induction b with
  | emptySet => exact Exact.emptySet
  | ofId id => exact Exact.ofId (by simpa [wf] using hb)
  | ofRange r =>
    have := Exact.emptySet.setRange r
    rwa [Set.empty_union] at this
  | ofArgs args =>
    have := Exact.emptySet.setArgs (by simpa [wf] using hb)
    rwa [Set.empty_union] at this
  | set b id ih =>
    rw [wf, Bool.and_eq_true, decide_eq_true_iff] at hb
    exact (ih hb.1 hp).set hb.2
  | setRange b r ih => exact (ih hb hp).setRange r
  | setArgs b args ih =>
    rw [wf, Bool.and_eq_true] at hb
    exact (ih hb.1 hp).setArgs hb.2
  | unset b id ih => exact absurd hp Bool.false_ne_true
  | orAssign b c ihb ihc =>
    rw [wf, Bool.and_eq_true] at hb
    rw [isPlain, Bool.and_eq_true] at hp
    exact (ihb hb.1 hp.1).orAssign (ihc hb.2 hp.2)
  | toBitset b ih => exact absurd hp Bool.false_ne_true
  | setUpperRange b ih => exact (ih hb hp).setUpperRange
  | clear b _ => exact Exact.clear _

/-- `toBitset` と `unset` の後では、表せる集合 `{100}` でも `γ` は上の範囲全体になる：
`AliasIdSet(100).toBitset()` と、`AliasIdSet(5)` に `set(100)`、`unset(5)` をしたもの。 -/
theorem toBitset_unset_lose_exactness :
    (Build.toBitset (.ofId 100)).wf = true ∧ Representable (Build.toBitset (.ofId 100)).exact ∧
      gamma (Build.toBitset (.ofId 100)).eval ≠ (Build.toBitset (.ofId 100)).exact ∧
    (Build.unset (.set (.ofId 5) 100) 5).wf = true ∧ Representable (Build.unset (.set (.ofId 5) 100) 5).exact ∧
      gamma (Build.unset (.set (.ofId 5) 100) 5).eval ≠ (Build.unset (.set (.ofId 5) 100) 5).exact := by
  have h1 : (Build.toBitset (.ofId 100)).exact = {100} := rfl
  have h2 : (Build.unset (.set (.ofId 5) 100) 5).exact = {100} := by
    ext i
    simp only [exact, Set.mem_sdiff, Set.mem_union, Set.mem_singleton_iff]
    exact ⟨fun h => h.1.resolve_left h.2, fun h => ⟨Or.inr h, by rw [h]; decide⟩⟩
  -- どちらの値も `Empty | UpperRange`
  have e1 : (Build.toBitset (.ofId 100)).eval = ⟨Empty ||| UpperRange⟩ := by decide
  have e2 : (Build.unset (.set (.ofId 5) 100) 5).eval = ⟨Empty ||| UpperRange⟩ := by decide
  have hne : upper ≠ {100} := fun h => by
    have : 62 ∈ upper := mem_upper.mpr ⟨le_rfl, by omega⟩
    rw [h, Set.mem_singleton_iff] at this
    omega
  refine ⟨rfl, ?_, ?_, rfl, ?_, ?_⟩
  · rw [h1]
    exact Or.inl ⟨100, rfl⟩
  · rw [e1, h1, gamma_EmptyUpper]
    exact hne
  · rw [h2]
    exact Or.inl ⟨100, rfl⟩
  · rw [e2, h2, gamma_EmptyUpper]
    exact hne

end Build

/-! ## まとめ -/

/-- **`AliasIdSet` は id の集合の正準な過大近似。** 作った値はどれも正しく、`γ` は厳密な集合を
含んで余分は上の範囲の中だけ。`toBitset` と `unset` を使わなければ、表せる集合は正確に表す。
正しい値は `γ` で決まり、`|` は可換で、問い合わせはどれも `γ` の言葉で正しい。 -/
theorem aliasIdSet_canonical_overapprox :
    (∀ b : Build, b.wf = true →
      b.eval.checkInvariants = true ∧ b.exact ⊆ gamma b.eval ∧ gamma b.eval ⊆ b.exact ∪ upper) ∧
    (∀ b : Build, b.wf = true → b.isPlain = true → Representable b.exact →
      gamma b.eval = b.exact) ∧
    (∀ s t : AliasIdSet, s.checkInvariants = true → t.checkInvariants = true →
      ((s == t) = true ↔ gamma s = gamma t)) ∧
    (∀ a b : AliasIdSet, a.checkInvariants = true → b.checkInvariants = true →
      a.or b = b.or a ∧ gamma a ⊆ gamma (a.or b) ∧ gamma b ⊆ gamma (a.or b)) ∧
    (∀ (s : AliasIdSet) (id : UInt32), id.toNat < 4294967295 →
      (s.test id = true ↔ id.toNat ∈ gamma s)) ∧
    (∀ s t : AliasIdSet, s.checkInvariants = true → t.checkInvariants = true →
      (s.isSubsetOf t = true ↔ gamma s ⊆ gamma t)) ∧
    (∀ s t : AliasIdSet, s.checkInvariants = true → t.checkInvariants = true →
      (s.maybe t = true ↔ (gamma s ∩ gamma t).Nonempty)) ∧
    (∀ s : AliasIdSet, s.checkInvariants = true →
      (s.hasSingleValue = true ↔ ∃ x, gamma s = {x}) ∧
        (s.hasSingleValue = true → gamma s = {s.singleValue.toNat})) ∧
    (∀ s : AliasIdSet, s.hasUpperRange = false → s.size.toNat = (gamma s).ncard) ∧
    (∀ (s : AliasIdSet) (id : UInt32), gamma (s.unset id) =
      if id.toNat ≤ 61 ∨ s.m_bits = id.toUInt64 then gamma s \ {id.toNat} else gamma s) := by
  refine ⟨?_, ?_, ?_, ?_, ?_, ?_, ?_, ?_, ?_, ?_⟩
  · intro b hb
    have h := b.approx hb
    exact ⟨h.valid, h.widen.1, h.widen.2⟩
  · intro b hb hp hr
    exact (b.exact_eval hb hp).eq_of_representable hr
  · intro s t hs ht
    rw [beq_iff_eq]
    exact ⟨fun h => congrArg gamma h, eq_of_gamma_eq hs ht⟩
  · intro a b ha hb
    exact ⟨or_comm_of_checkInvariants ha hb, subset_gamma_orAssign_left ha hb,
      subset_gamma_orAssign_right ha hb⟩
  · intro s id hmax
    rw [test_eq s hmax, mem_gamma]
  · intro s t hs ht
    exact isSubsetOf_iff hs ht
  · intro s t hs ht
    exact maybe_iff hs ht
  · intro s hs
    exact ⟨hasSingleValue_iff s, gamma_singleValue hs⟩
  · intro s hu
    exact size_eq_ncard hu
  · intro s id
    exact gamma_unset_eq s id

/-- `{3, 70}` を作る式の値は正しく、3 と 70 を含み、余分は上の範囲の中だけ。`{3, 5}` を作る式の値は
ちょうど `{3, 5}`。二つの値の `|` は可換で、`test(70)` は `γ` の言葉で正しい。 -/
theorem aliasIdSet_canonical_overapprox_sample :
    (Build.set (.ofId 3) 70).eval.checkInvariants = true ∧
      (Build.set (.ofId 3) 70).exact ⊆ gamma (Build.set (.ofId 3) 70).eval ∧
      gamma (Build.set (.ofId 3) 70).eval ⊆ (Build.set (.ofId 3) 70).exact ∪ upper ∧
    gamma (Build.set (.ofId 3) 5).eval = (Build.set (.ofId 3) 5).exact ∧
    (Build.set (.ofId 3) 70).eval.or (Build.set (.ofId 3) 5).eval =
      (Build.set (.ofId 3) 5).eval.or (Build.set (.ofId 3) 70).eval ∧
    ((Build.set (.ofId 3) 70).eval.test 70 = true ↔ 70 ∈ gamma (Build.set (.ofId 3) 70).eval) := by
  obtain ⟨happrox, hexact, -, hor, htest, -⟩ := aliasIdSet_canonical_overapprox
  -- `{3, 5}` はどちらも 61 以下なので bit の並びで表せる
  have hrep : Representable (Build.set (.ofId 3) 5).exact := by
    refine Or.inr ?_
    rintro x (hx | hx) <;> simp only [Build.exact, Set.mem_singleton_iff] at hx <;> subst hx <;> decide
  have h70 := happrox (.set (.ofId 3) 70) (by decide)
  have h5 := happrox (.set (.ofId 3) 5) (by decide)
  exact ⟨h70.1, h70.2.1, h70.2.2, hexact _ (by decide) (by decide) hrep,
    (hor _ _ h70.1 h5.1).1, htest _ 70 (by decide)⟩

end Hhvm.Jit.AliasIdSet
