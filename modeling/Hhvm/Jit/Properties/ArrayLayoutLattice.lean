import Hhvm.Jit.ArrayLayout
import Hhvm.Array.Properties.LayoutHierarchy

/-!
# 配置の型の順序

`ArrayLayout` の `<=`・`|`・`&` が、基本の種類 `Bottom < {Vanilla, Bespoke} < Top` の上に
bespoke の配置の階層を載せた順序の演算になっていることを示す。

順序の台は `Kind`：`top`・`bottom`・`vanilla` と配置 `layout i`。`Bespoke` は `layout 0`
（`kBespokeTopIndex`）で、配置どうしの順序は親の辺でたどれること（`Hierarchy.Reach`）。

前提は二つ。

* `Rooted`：`kBespokeTopIndex` の配置が登録され、すべての配置の祖先である。これが無いと
  `Bespoke` より下にない配置を `<=` は `Bespoke` より下と答え、`|` は `not_reached()` に落ちうる。
* `Fits`：配置の添字 `i` について `i + Bespoke` が `uint16_t` に収まる。これが無いと
  `sortFromLayoutIndex` の値が基本の種類と重なる。

結果は次のとおり。

* `unionBasicSort_isLUB`・`intersectBasicSort_isGLB`：2 ビットの符号の `|`・`&` は基本の
  種類の最小の上界・最大の下界。
* `le_iff_kindLe`：`<=` は持ち上げた順序そのもの。
* `join_minimalUpper`：`|` は上界で、その下に別の上界は無い。
* `meet_maximalLower`：`&` は下界で、その上に別の下界は無い。
-/

namespace Hhvm

namespace Jit

namespace ArrayLayout

open Bespoke Bespoke.Hierarchy

/-! ## 基本の種類の符号 -/

/-- 基本の種類の順序 `Bottom < {Vanilla, Bespoke} < Top`。 -/
def basicLe (s t : UInt16) : Bool := s = Bottom.sort || t = Top.sort || s = t

/-- 基本の種類は名前のある四つ。 -/
theorem basic_cases {s : UInt16} (h : isBasicSort s = true) :
    s = Top.sort ∨ s = Bottom.sort ∨ s = Vanilla.sort ∨ s = Bespoke.sort := by
  simp only [isBasicSort, Bespoke, decide_eq_true_eq, UInt16.le_iff_toNat_le] at h
  have : s.toNat = 0 ∨ s.toNat = 1 ∨ s.toNat = 2 ∨ s.toNat = 3 := by simp at h; omega
  rcases this with h | h | h | h
  · exact .inl (UInt16.toNat_inj.mp h)
  · exact .inr (.inl (UInt16.toNat_inj.mp h))
  · exact .inr (.inr (.inl (UInt16.toNat_inj.mp h)))
  · exact .inr (.inr (.inr (UInt16.toNat_inj.mp h)))

/-- 符号を戻すと元の種類。 -/
theorem unmaskBasicSort_maskBasicSort {s : UInt16} (hs : isBasicSort s = true) :
    unmaskBasicSort (maskBasicSort s) = s := by
  rcases basic_cases hs with rfl | rfl | rfl | rfl <;> decide

/-- **符号の和は基本の種類の最小の上界。** -/
theorem unionBasicSort_isLUB {s t : UInt16} (hs : isBasicSort s = true)
    (ht : isBasicSort t = true) :
    basicLe s (unionBasicSort s t) = true ∧ basicLe t (unionBasicSort s t) = true ∧
      ∀ w, isBasicSort w = true → basicLe s w = true → basicLe t w = true →
        basicLe (unionBasicSort s t) w = true := by
  -- 四つの値の組を一つずつ調べる
  rcases basic_cases hs with rfl | rfl | rfl | rfl <;>
  rcases basic_cases ht with rfl | rfl | rfl | rfl <;>
  refine ⟨by decide, by decide, fun w hw => ?_⟩ <;>
  rcases basic_cases hw with rfl | rfl | rfl | rfl <;> decide

/-- **符号の積は基本の種類の最大の下界。** -/
theorem intersectBasicSort_isGLB {s t : UInt16} (hs : isBasicSort s = true)
    (ht : isBasicSort t = true) :
    basicLe (intersectBasicSort s t) s = true ∧ basicLe (intersectBasicSort s t) t = true ∧
      ∀ w, isBasicSort w = true → basicLe w s = true → basicLe w t = true →
        basicLe w (intersectBasicSort s t) = true := by
  rcases basic_cases hs with rfl | rfl | rfl | rfl <;>
  rcases basic_cases ht with rfl | rfl | rfl | rfl <;>
  refine ⟨by decide, by decide, fun w hw => ?_⟩ <;>
  rcases basic_cases hw with rfl | rfl | rfl | rfl <;> decide

/-! ## 配置の種類 -/

/-- 持ち上げた順序の台。 -/
inductive Kind where
  | top
  | bottom
  | vanilla
  | layout (i : LayoutIndex)
deriving DecidableEq

/-- 配置の種類。基本でない種類と `Bespoke` は、`Bespoke` からのずれの添字の配置。 -/
def kind (a : ArrayLayout) : Kind :=
  if a.sort = Top.sort then .top
  else if a.sort = Bottom.sort then .bottom
  else if a.sort = Vanilla.sort then .vanilla
  else .layout (assertBespoke a)

/-- 種類から配置に戻す。 -/
def ofKind : Kind → ArrayLayout
  | .top => Top
  | .bottom => Bottom
  | .vanilla => Vanilla
  | .layout i => ofLayoutIndex i

theorem toNat_sortFromLayoutIndex {i : LayoutIndex} (hi : i.toNat < 65533) :
    (sortFromLayoutIndex i).toNat = i.toNat + 3 :=
  UInt16.toNat_ofNat_of_lt' (by
    have h3 : Bespoke.sort.toNat = 3 := rfl
    rw [h3, UInt16.size]
    omega)

/-- 配置は四つの形のどれか。 -/
theorem cases_sort (a : ArrayLayout) :
    a = Top ∨ a = Bottom ∨ a = Vanilla ∨ ∃ i : LayoutIndex, i.toNat < 65533 ∧ a = ofLayoutIndex i := by
  obtain ⟨s⟩ := a
  simp only [Top, Bottom, Vanilla, ofLayoutIndex, sortFromLayoutIndex, Bespoke, ArrayLayout.mk.injEq]
  have hs := s.toNat_lt
  rcases Nat.lt_or_ge s.toNat 3 with h | h
  · have : s.toNat = 0 ∨ s.toNat = 1 ∨ s.toNat = 2 := by omega
    rcases this with h0 | h0 | h0
    · exact .inl (UInt16.toNat_inj.mp (by simpa using h0))
    · exact .inr (.inl (UInt16.toNat_inj.mp (by simpa using h0)))
    · exact .inr (.inr (.inl (UInt16.toNat_inj.mp (by simpa using h0))))
  · -- `Bespoke` 以上の値は、ずれの添字の配置
    refine .inr (.inr (.inr ⟨UInt16.ofNat (s.toNat - 3), ?_, ?_⟩))
    · simp
      omega
    · apply UInt16.toNat_inj.mp
      simp
      omega

section OfLayoutIndex

variable {i j : LayoutIndex}

theorem ofLayoutIndex_zero : ofLayoutIndex kBespokeTopIndex = Bespoke := rfl

theorem ofLayoutIndex_inj (hi : i.toNat < 65533) (hj : j.toNat < 65533) :
    ofLayoutIndex i = ofLayoutIndex j ↔ i = j := by
  constructor
  · intro h
    have h' := congrArg (fun a => a.sort.toNat) h
    simp only [ofLayoutIndex, toNat_sortFromLayoutIndex hi, toNat_sortFromLayoutIndex hj] at h'
    exact UInt16.toNat_inj.mp (by omega)
  · rintro rfl
    rfl

theorem assertBespoke_ofLayoutIndex (hi : i.toNat < 65533) : assertBespoke (ofLayoutIndex i) = i := by
  apply UInt16.toNat_inj.mp
  simp only [assertBespoke, ofLayoutIndex, toNat_sortFromLayoutIndex hi, Bespoke]
  simp

theorem layoutIndex_ofLayoutIndex (hi : i.toNat < 65533) :
    (ofLayoutIndex i).layoutIndex = some i := by
  rw [layoutIndex, if_neg (by simp [ofLayoutIndex, toNat_sortFromLayoutIndex hi, Bespoke])]
  exact congrArg some (assertBespoke_ofLayoutIndex hi)

theorem isBasicSort_ofLayoutIndex (hi : i.toNat < 65533) :
    isBasicSort (ofLayoutIndex i).sort = true ↔ i = kBespokeTopIndex := by
  simp only [isBasicSort, decide_eq_true_eq, UInt16.le_iff_toNat_le, ofLayoutIndex,
    toNat_sortFromLayoutIndex hi, kBespokeTopIndex, Bespoke]
  constructor
  · intro h
    exact UInt16.toNat_inj.mp (by simp at h ⊢; omega)
  · rintro rfl
    decide

theorem toBasicSort_ofLayoutIndex (hi : i.toNat < 65533) :
    toBasicSort (ofLayoutIndex i).sort = Bespoke.sort := by
  apply UInt16.toNat_inj.mp
  simp only [toBasicSort, UInt16.toNat_min, ofLayoutIndex, toNat_sortFromLayoutIndex hi, Bespoke]
  simp

theorem kind_ofLayoutIndex (hi : i.toNat < 65533) : (ofLayoutIndex i).kind = .layout i := by
  have h3 := toNat_sortFromLayoutIndex hi
  have hne : ∀ n : UInt16, n.toNat < 3 → (ofLayoutIndex i).sort ≠ n := by
    intro n hn heq
    rw [← heq] at hn
    simp only [ofLayoutIndex] at hn
    omega
  rw [kind, if_neg (hne _ (by decide)), if_neg (hne _ (by decide)), if_neg (hne _ (by decide)),
    assertBespoke_ofLayoutIndex hi]

theorem ofLayoutIndex_ne_Top (hi : i.toNat < 65533) : ofLayoutIndex i ≠ Top := by
  intro h
  have := congrArg kind h
  rw [kind_ofLayoutIndex hi] at this
  cases this

theorem ofLayoutIndex_ne_Bottom (hi : i.toNat < 65533) : ofLayoutIndex i ≠ Bottom := by
  intro h
  have := congrArg kind h
  rw [kind_ofLayoutIndex hi] at this
  cases this

theorem ofLayoutIndex_ne_Vanilla (hi : i.toNat < 65533) : ofLayoutIndex i ≠ Vanilla := by
  intro h
  have := congrArg kind h
  rw [kind_ofLayoutIndex hi] at this
  cases this

end OfLayoutIndex

@[simp] theorem kind_Top : Top.kind = .top := rfl
@[simp] theorem kind_Bottom : Bottom.kind = .bottom := rfl
@[simp] theorem kind_Vanilla : Vanilla.kind = .vanilla := rfl

/-- 種類から戻すと元の配置：`kind` は単射。 -/
theorem ofKind_kind (a : ArrayLayout) : ofKind a.kind = a := by
  rcases cases_sort a with rfl | rfl | rfl | ⟨i, hi, rfl⟩
  · rfl
  · rfl
  · rfl
  · rw [kind_ofLayoutIndex hi]
    rfl

theorem kind_inj {a b : ArrayLayout} (h : a.kind = b.kind) : a = b := by
  rw [← ofKind_kind a, ← ofKind_kind b, h]

/-! ## 持ち上げた順序 -/

variable {H : Hierarchy}

/-- 持ち上げた順序：`bottom` は最小、`top` は最大、配置どうしは親の辺でたどれること。 -/
def KindLe (H : Hierarchy) : Kind → Kind → Prop
  | .bottom, _ => True
  | _, .top => True
  | .vanilla, .vanilla => True
  | .layout i, .layout j => H.Reach i j
  | _, _ => False

/-- 表に登録された配置を指す種類。 -/
def Kind.Valid (H : Hierarchy) : Kind → Prop
  | .layout i => i ∈ H.indices
  | _ => True

/-- `ArrayLayout` の構築子の `assertx`：配置の添字があれば、その配置は登録されている。 -/
def Valid (H : Hierarchy) (a : ArrayLayout) : Prop := ∀ i, a.layoutIndex = some i → i ∈ H.indices

/-- `kBespokeTopIndex` の配置が登録され、すべての配置の祖先である。 -/
structure Rooted (H : Hierarchy) : Prop where
  top_mem : kBespokeTopIndex ∈ H.indices
  reach_top : ∀ i ∈ H.indices, H.Reach i kBespokeTopIndex

/-- どの配置の添字も、`Bespoke` だけずらして `uint16_t` に収まる。 -/
def Fits (H : Hierarchy) : Prop := ∀ i ∈ H.indices, i.toNat < 65533

theorem Valid.kind {a : ArrayLayout} (ha : Valid H a) : a.kind.Valid H := by
  rcases cases_sort a with rfl | rfl | rfl | ⟨i, hi, rfl⟩
  · trivial
  · trivial
  · trivial
  · rw [kind_ofLayoutIndex hi]
    exact ha i (layoutIndex_ofLayoutIndex hi)

theorem valid_ofLayoutIndex {i : LayoutIndex} (hi : i.toNat < 65533) (h : i ∈ H.indices) :
    Valid H (ofLayoutIndex i) := by
  intro j hj
  rw [layoutIndex_ofLayoutIndex hi, Option.some.injEq] at hj
  rwa [← hj]

theorem valid_of_basic {a : ArrayLayout} (ha : a = Top ∨ a = Bottom ∨ a = Vanilla) : Valid H a := by
  intro j hj
  rcases ha with rfl | rfl | rfl <;> cases hj

/-- 添字の配置について：`Valid` なら登録されている。 -/
theorem Valid.mem {i : LayoutIndex} (hi : i.toNat < 65533) (h : Valid H (ofLayoutIndex i)) :
    i ∈ H.indices :=
  h i (layoutIndex_ofLayoutIndex hi)

theorem KindLe.refl (x : Kind) : KindLe H x x := by
  cases x
  · trivial
  · trivial
  · trivial
  · exact Relation.ReflTransGen.refl

theorem kindLe_top (x : Kind) : KindLe H x .top := by
  cases x <;> trivial

theorem kindLe_bottom (x : Kind) : KindLe H .bottom x := trivial

/-- 持ち上げた順序を場合分けの無い形で。`KindLe` の定義を開くのはここだけ。 -/
theorem kindLe_iff {x y : Kind} :
    KindLe H x y ↔ x = .bottom ∨ y = .top ∨ (x = .vanilla ∧ y = .vanilla) ∨
      ∃ i j, x = .layout i ∧ y = .layout j ∧ H.Reach i j := by
  cases x <;> cases y <;> simp [KindLe]

theorem kindLe_top_iff {y : Kind} : KindLe H .top y ↔ y = .top := by
  simp [kindLe_iff]

theorem kindLe_bottom_iff {x : Kind} : KindLe H x .bottom ↔ x = .bottom := by
  simp [kindLe_iff]

theorem kindLe_vanilla_left {y : Kind} : KindLe H .vanilla y ↔ y = .vanilla ∨ y = .top := by
  simp [kindLe_iff, or_comm]

theorem kindLe_vanilla_right {x : Kind} : KindLe H x .vanilla ↔ x = .bottom ∨ x = .vanilla := by
  simp [kindLe_iff]

theorem kindLe_layout_left {i : LayoutIndex} {y : Kind} :
    KindLe H (.layout i) y ↔ y = .top ∨ ∃ j, y = .layout j ∧ H.Reach i j := by
  simp [kindLe_iff]

theorem kindLe_layout_right {j : LayoutIndex} {x : Kind} :
    KindLe H x (.layout j) ↔ x = .bottom ∨ ∃ i, x = .layout i ∧ H.Reach i j := by
  simp [kindLe_iff]

/-- 登録された種類の上で、持ち上げた順序は反対称。 -/
theorem KindLe.antisymm {x y : Kind} (hx : x.Valid H) (hxy : KindLe H x y) (hyx : KindLe H y x) :
    x = y := by
  cases x <;> cases y <;> simp_all [kindLe_iff]
  -- 残るのは配置どうし：番号で挟む
  exact hxy.eq_of_topoIndex_le hx hyx.topoIndex_le

/-- `Bespoke` からたどれるのは `Bespoke` だけ。 -/
theorem Rooted.eq_of_reach (hr : Rooted H) {j : LayoutIndex} (h : H.Reach kBespokeTopIndex j) :
    j = kBespokeTopIndex := by
  have hj := hr.reach_top j (h.mem_indices hr.top_mem)
  exact (h.eq_of_topoIndex_le hr.top_mem hj.topoIndex_le).symm

/-! ## 上界と下界 -/

/-- `c` は `x` と `y` の上界で、その下に別の上界は無い。 -/
def MinimalUpper (H : Hierarchy) (x y c : Kind) : Prop :=
  KindLe H x c ∧ KindLe H y c ∧
    ∀ k, k.Valid H → KindLe H x k → KindLe H y k → KindLe H k c → k = c

/-- `c` は `x` と `y` の下界で、その上に別の下界は無い。 -/
def MaximalLower (H : Hierarchy) (x y c : Kind) : Prop :=
  KindLe H c x ∧ KindLe H c y ∧
    ∀ k, k.Valid H → KindLe H k x → KindLe H k y → KindLe H c k → k = c

theorem minimalUpper_of_le_left {x y : Kind} (h : KindLe H x y) : MinimalUpper H x y y :=
  ⟨h, KindLe.refl y, fun _ hk _ hyk hky => KindLe.antisymm hk hky hyk⟩

theorem minimalUpper_of_le_right {x y : Kind} (h : KindLe H y x) : MinimalUpper H x y x :=
  ⟨KindLe.refl x, h, fun _ hk hxk _ hkx => KindLe.antisymm hk hkx hxk⟩

/-- 上界が `top` しかなければ、`top` が答え。 -/
theorem minimalUpper_top {x y : Kind} (h : ∀ k, KindLe H x k → KindLe H y k → k = .top) :
    MinimalUpper H x y .top :=
  ⟨kindLe_top x, kindLe_top y, fun k _ hxk hyk _ => h k hxk hyk⟩

theorem maximalLower_of_le_left {x y : Kind} (h : KindLe H x y) : MaximalLower H x y x :=
  ⟨KindLe.refl x, h, fun _ hk hkx _ hxk => KindLe.antisymm hk hkx hxk⟩

theorem maximalLower_of_le_right {x y : Kind} (h : KindLe H y x) : MaximalLower H x y y :=
  ⟨h, KindLe.refl y, fun _ hk _ hky hyk => KindLe.antisymm hk hky hyk⟩

/-- 下界が `bottom` しかなければ、`bottom` が答え。 -/
theorem maximalLower_bottom {x y : Kind} (h : ∀ k, KindLe H k x → KindLe H k y → k = .bottom) :
    MaximalLower H x y .bottom :=
  ⟨kindLe_bottom x, kindLe_bottom y, fun k _ hkx hky _ => h k hkx hky⟩

/-- `vanilla` と配置の上界は `top` だけ。 -/
theorem upper_vanilla_layout {i : LayoutIndex} (k : Kind) (hv : KindLe H .vanilla k)
    (hl : KindLe H (.layout i) k) : k = .top := by
  rcases kindLe_vanilla_left.mp hv with rfl | rfl
  · exact absurd hl (by simp [kindLe_iff])
  · rfl

/-- `vanilla` と配置の下界は `bottom` だけ。 -/
theorem lower_vanilla_layout {i : LayoutIndex} (k : Kind) (hv : KindLe H k .vanilla)
    (hl : KindLe H k (.layout i)) : k = .bottom := by
  rcases kindLe_vanilla_right.mp hv with rfl | rfl
  · rfl
  · exact absurd hl (by simp [kindLe_iff])

/-- 配置どうしの `Layout::operator|` の答えは、持ち上げた順序でも上界で、その下に別の上界は無い。 -/
theorem minimalUpper_layout {i j c : LayoutIndex} (hi : i ∈ H.indices) (hj : j ∈ H.indices)
    (h : H.join i j = some c) : MinimalUpper H (.layout i) (.layout j) (.layout c) := by
  obtain ⟨hic, hjc, _⟩ := join_reach hi hj h
  refine ⟨hic, hjc, fun k _ hik hjk hkc => ?_⟩
  rcases kindLe_layout_right.mp hkc with rfl | ⟨d, rfl, hdc⟩
  · exact absurd hik (by simp [kindLe_iff])
  · rw [join_minimal hi hj h hik hjk hdc]

/-- 配置どうしの `Layout::operator&` の答えは、持ち上げた順序でも下界で、その上に別の下界は無い。 -/
theorem maximalLower_layout {i j c : LayoutIndex} (hi : i ∈ H.indices) (hj : j ∈ H.indices)
    (h : H.meet i j = some c) : MaximalLower H (.layout i) (.layout j) (.layout c) := by
  obtain ⟨hci, hcj, _⟩ := meet_reach hi hj h
  refine ⟨hci, hcj, fun k _ hki hkj hck => ?_⟩
  rcases kindLe_layout_left.mp hck with rfl | ⟨d, rfl, hcd⟩
  · exact absurd hki (by simp [kindLe_iff])
  · rw [meet_maximal hi hj h hki hkj hcd]

/-- 共通の子孫が無ければ、下界は `bottom` だけ。 -/
theorem maximalLower_layout_none {i j : LayoutIndex} (hi : i ∈ H.indices) (hj : j ∈ H.indices)
    (h : H.meet i j = none) : MaximalLower H (.layout i) (.layout j) .bottom := by
  refine maximalLower_bottom fun k hki hkj => ?_
  rcases kindLe_layout_right.mp hki with rfl | ⟨d, rfl, hdi⟩
  · rfl
  · exact absurd ⟨d, hdi, hkj⟩ ((meet_eq_none_iff hi hj).mp h)

/-! ## 基本の種類の計算 -/

theorem isBasicSort_toBasicSort (s : UInt16) : isBasicSort (toBasicSort s) = true := by
  simp [isBasicSort, toBasicSort, UInt16.le_iff_toNat_le, UInt16.toNat_min]

theorem unionBasicSort_Top_left {t : UInt16} (ht : isBasicSort t = true) :
    unionBasicSort Top.sort t = Top.sort := by
  rcases basic_cases ht with rfl | rfl | rfl | rfl <;> decide

theorem unionBasicSort_Top_right {s : UInt16} (hs : isBasicSort s = true) :
    unionBasicSort s Top.sort = Top.sort := by
  rcases basic_cases hs with rfl | rfl | rfl | rfl <;> decide

theorem intersectBasicSort_Bottom_left {t : UInt16} (ht : isBasicSort t = true) :
    intersectBasicSort Bottom.sort t = Bottom.sort := by
  rcases basic_cases ht with rfl | rfl | rfl | rfl <;> decide

theorem intersectBasicSort_Bottom_right {s : UInt16} (hs : isBasicSort s = true) :
    intersectBasicSort s Bottom.sort = Bottom.sort := by
  rcases basic_cases hs with rfl | rfl | rfl | rfl <;> decide

/-- 基本の種類の配置は、`Rooted` のもとで登録された配置を指す。 -/
theorem valid_of_isBasicSort (hr : Rooted H) {a : ArrayLayout} (h : isBasicSort a.sort = true) :
    Valid H a := by
  intro i hi
  rcases basic_cases h with h | h | h | h <;>
    simp [layoutIndex, h, Top, Bottom, Vanilla, Bespoke] at hi
  rw [← hi]
  exact hr.top_mem

/-- 基本でない配置は、`Bespoke` でない bespoke の配置。 -/
theorem eq_ofLayoutIndex_of_not_isBasicSort {a : ArrayLayout} (h : isBasicSort a.sort = false) :
    ∃ i, i.toNat < 65533 ∧ i ≠ kBespokeTopIndex ∧ a = ofLayoutIndex i := by
  rcases cases_sort a with rfl | rfl | rfl | ⟨i, hi, rfl⟩
  · cases h
  · cases h
  · cases h
  · refine ⟨i, hi, fun h0 => ?_, rfl⟩
    rw [(isBasicSort_ofLayoutIndex hi).mpr h0] at h
    cases h

theorem isBasicSort_unmaskBasicSort (m : Nat) : isBasicSort (unmaskBasicSort m) = true := by
  simp only [isBasicSort, unmaskBasicSort, kBasicSortMask, Bespoke, decide_eq_true_eq,
    UInt16.le_iff_toNat_le, UInt16.toNat_ofNat']
  have h1 := Nat.mod_le (0b11 &&& (m + kBasicSortUnshift)) (2 ^ 16)
  have h2 := Nat.and_le_left (n := 0b11) (m := m + kBasicSortUnshift)
  exact Nat.le_trans h1 h2

/-- `Top` でない二つの基本の種類の符号の積が `Bespoke` なら、二つとも `Bespoke`。 -/
theorem intersectBasicSort_eq_Bespoke {s t : UInt16} (hs : isBasicSort s = true)
    (ht : isBasicSort t = true) (hs' : s ≠ Top.sort) (ht' : t ≠ Top.sort)
    (h : intersectBasicSort s t = Bespoke.sort) : s = Bespoke.sort ∧ t = Bespoke.sort := by
  revert h hs' ht'
  rcases basic_cases hs with rfl | rfl | rfl | rfl <;>
  rcases basic_cases ht with rfl | rfl | rfl | rfl <;> decide

/-- 基本の種類が `Bespoke` の配置は、bespoke の配置。 -/
theorem eq_ofLayoutIndex_of_toBasicSort {a : ArrayLayout} (h : toBasicSort a.sort = Bespoke.sort) :
    ∃ i, i.toNat < 65533 ∧ a = ofLayoutIndex i := by
  rcases cases_sort a with rfl | rfl | rfl | ⟨i, hi, rfl⟩
  · cases h
  · cases h
  · cases h
  · exact ⟨i, hi, rfl⟩

theorem toBasicSort_Top : toBasicSort Top.sort = Top.sort := rfl
theorem toBasicSort_Bottom : toBasicSort Bottom.sort = Bottom.sort := rfl
theorem toBasicSort_Vanilla : toBasicSort Vanilla.sort = Vanilla.sort := rfl

theorem kind_mk_Top : (ArrayLayout.mk Top.sort).kind = .top := rfl
theorem kind_mk_Bottom : (ArrayLayout.mk Bottom.sort).kind = .bottom := rfl
theorem kind_mk_Bespoke : (ArrayLayout.mk Bespoke.sort).kind = .layout kBespokeTopIndex := rfl

/-! ## 演算子と持ち上げた順序 -/

variable {a o : ArrayLayout}

/-- **`<=` は持ち上げた順序そのもの。** -/
theorem le_iff_kindLe (hr : Rooted H) (ha : Valid H a) (ho : Valid H o) :
    le H a o = true ↔ KindLe H a.kind o.kind := by
  by_cases hao : a = o
  · subst hao
    rw [le, if_pos rfl]
    exact iff_of_true rfl (KindLe.refl _)
  by_cases hot : o = Top
  · subst hot
    rw [le, if_neg hao, if_pos rfl]
    exact iff_of_true rfl (kindLe_top _)
  by_cases hab : a = Bottom
  · subst hab
    rw [le, if_neg hao, if_neg hot, if_pos rfl]
    exact iff_of_true rfl (kindLe_bottom _)
  by_cases hba : isBasicSort a.sort = true
  · -- 基本の種類 `a` の上にあるのは `a` 自身と `Top` だけ
    rw [le, if_neg hao, if_neg hot, if_neg hab, if_pos hba]
    refine iff_of_false Bool.false_ne_true (fun h => ?_)
    rcases cases_sort a with rfl | rfl | rfl | ⟨i, hi, rfl⟩
    · exact hot (kind_inj (kindLe_top_iff.mp h))
    · exact hab rfl
    · rcases kindLe_vanilla_left.mp h with h | h
      · exact hao (kind_inj h.symm)
      · exact hot (kind_inj h)
    · -- `Bespoke` の上にある配置は `Bespoke` だけ
      have hi0 := (isBasicSort_ofLayoutIndex hi).mp hba
      rw [kind_ofLayoutIndex hi, hi0] at h
      rcases kindLe_layout_left.mp h with h | ⟨j, hj, hr0⟩
      · exact hot (kind_inj h)
      · rw [hr.eq_of_reach hr0, ← hi0, ← kind_ofLayoutIndex hi] at hj
        exact hao (kind_inj hj.symm)
  obtain ⟨i, hi, hi0, rfl⟩ := eq_ofLayoutIndex_of_not_isBasicSort (Bool.eq_false_iff.mpr hba)
  have hiv := ha.mem hi
  by_cases hbo : isBasicSort o.sort = true
  · -- 基本の種類 `o` のうち、配置の上にあるのは `Bespoke` だけ
    rw [le, if_neg hao, if_neg hot, if_neg hab, if_neg hba, if_pos hbo, kind_ofLayoutIndex hi]
    rcases cases_sort o with rfl | rfl | rfl | ⟨j, hj, rfl⟩
    · exact absurd rfl hot
    · exact iff_of_false (by decide) (by simp [kindLe_iff])
    · exact iff_of_false (by decide) (by simp [kindLe_iff])
    · have hj0 := (isBasicSort_ofLayoutIndex hj).mp hbo
      subst hj0
      exact iff_of_true (by decide) (hr.reach_top i hiv)
  · -- 二つとも bespoke の配置：`Layout::operator<=`
    obtain ⟨j, hj, _, rfl⟩ := eq_ofLayoutIndex_of_not_isBasicSort (Bool.eq_false_iff.mpr hbo)
    rw [le, if_neg hao, if_neg hot, if_neg hab, if_neg hba, if_neg hbo,
      assertBespoke_ofLayoutIndex hi, assertBespoke_ofLayoutIndex hj, kind_ofLayoutIndex hi,
      kind_ofLayoutIndex hj]
    exact le_iff_reach hiv j

theorem join_of_basic (hao : a ≠ o) (hob : o ≠ Bottom) (hab : a ≠ Bottom)
    (hb : (isBasicSort a.sort || isBasicSort o.sort) = true) :
    join H a o = some ⟨unionBasicSort (toBasicSort a.sort) (toBasicSort o.sort)⟩ := by
  rw [join, if_neg hao, if_neg hob, if_neg hab, if_pos hb]

/-- どちらかが基本の種類なら、符号の和は上界で、その下に別の上界は無い。 -/
theorem join_basic_spec (hr : Rooted H) (ha : Valid H a) (ho : Valid H o) (hao : a ≠ o)
    (hob : o ≠ Bottom) (hab : a ≠ Bottom) (hb : (isBasicSort a.sort || isBasicSort o.sort) = true) :
    MinimalUpper H a.kind o.kind
      (ArrayLayout.mk (unionBasicSort (toBasicSort a.sort) (toBasicSort o.sort))).kind := by
  rcases cases_sort a with rfl | rfl | rfl | ⟨i, hi, rfl⟩
  · -- `Top` との和は `Top`
    rw [toBasicSort_Top, unionBasicSort_Top_left (isBasicSort_toBasicSort _), kind_mk_Top]
    exact minimalUpper_top fun k hk _ => kindLe_top_iff.mp hk
  · exact absurd rfl hab
  · rcases cases_sort o with rfl | rfl | rfl | ⟨j, hj, rfl⟩
    · rw [toBasicSort_Top, unionBasicSort_Top_right (isBasicSort_toBasicSort _), kind_mk_Top]
      exact minimalUpper_top fun k _ hk => kindLe_top_iff.mp hk
    · exact absurd rfl hob
    · exact absurd rfl hao
    · -- `Vanilla` と配置の和は `Top`
      have hu : unionBasicSort Vanilla.sort Bespoke.sort = Top.sort := by decide
      rw [toBasicSort_Vanilla, toBasicSort_ofLayoutIndex hj, hu, kind_mk_Top, kind_ofLayoutIndex hj]
      exact minimalUpper_top upper_vanilla_layout
  · rcases cases_sort o with rfl | rfl | rfl | ⟨j, hj, rfl⟩
    · rw [toBasicSort_Top, unionBasicSort_Top_right (isBasicSort_toBasicSort _), kind_mk_Top]
      exact minimalUpper_top fun k _ hk => kindLe_top_iff.mp hk
    · exact absurd rfl hob
    · have hu : unionBasicSort Bespoke.sort Vanilla.sort = Top.sort := by decide
      rw [toBasicSort_Vanilla, toBasicSort_ofLayoutIndex hi, hu, kind_mk_Top, kind_ofLayoutIndex hi]
      exact minimalUpper_top fun k hl hv => upper_vanilla_layout k hv hl
    · -- 配置どうしでどちらかが `Bespoke`：和は `Bespoke`
      have hu : unionBasicSort Bespoke.sort Bespoke.sort = Bespoke.sort := by decide
      rw [toBasicSort_ofLayoutIndex hi, toBasicSort_ofLayoutIndex hj, hu, kind_mk_Bespoke,
        kind_ofLayoutIndex hi, kind_ofLayoutIndex hj]
      rw [Bool.or_eq_true, isBasicSort_ofLayoutIndex hi, isBasicSort_ofLayoutIndex hj] at hb
      rcases hb with rfl | rfl
      · exact minimalUpper_of_le_right (hr.reach_top j (ho.mem hj))
      · exact minimalUpper_of_le_left (hr.reach_top i (ha.mem hi))

/-- **`|` は上界で、その下に別の上界は無い。** -/
theorem join_minimalUpper (hr : Rooted H) (hf : Fits H) (ha : Valid H a) (ho : Valid H o) :
    ∃ c, join H a o = some c ∧ Valid H c ∧ MinimalUpper H a.kind o.kind c.kind := by
  by_cases hao : a = o
  · subst hao
    exact ⟨a, by rw [join, if_pos rfl], ha, minimalUpper_of_le_left (KindLe.refl _)⟩
  by_cases hob : o = Bottom
  · subst hob
    exact ⟨a, by rw [join, if_neg hao, if_pos rfl], ha, minimalUpper_of_le_right (kindLe_bottom _)⟩
  by_cases hab : a = Bottom
  · subst hab
    exact ⟨o, by rw [join, if_neg hao, if_neg hob, if_pos rfl], ho,
      minimalUpper_of_le_left (kindLe_bottom _)⟩
  by_cases hb : (isBasicSort a.sort || isBasicSort o.sort) = true
  · exact ⟨_, join_of_basic hao hob hab hb, valid_of_isBasicSort hr (isBasicSort_unmaskBasicSort _),
      join_basic_spec hr ha ho hao hob hab hb⟩
  -- 二つとも bespoke の配置：`Layout::operator|`
  have hb' := hb
  rw [Bool.or_eq_true, not_or] at hb'
  obtain ⟨i, hi, _, rfl⟩ := eq_ofLayoutIndex_of_not_isBasicSort (Bool.eq_false_iff.mpr hb'.1)
  obtain ⟨j, hj, _, rfl⟩ := eq_ofLayoutIndex_of_not_isBasicSort (Bool.eq_false_iff.mpr hb'.2)
  have hiv := ha.mem hi
  have hjv := ho.mem hj
  have hjoin : join H (ofLayoutIndex i) (ofLayoutIndex j) = (H.join i j).map ofLayoutIndex := by
    rw [join, if_neg hao, if_neg hob, if_neg hab, if_neg hb, assertBespoke_ofLayoutIndex hi,
      assertBespoke_ofLayoutIndex hj]
  cases hc : H.join i j with
  | none =>
    -- `Bespoke` が共通の祖先なので `not_reached()` には落ちない
    exact absurd ⟨kBespokeTopIndex, hr.reach_top i hiv, hr.reach_top j hjv⟩
      ((join_eq_none_iff hiv hjv).mp hc)
  | some c =>
    have hcv : c ∈ H.indices := (join_reach hiv hjv hc).1.mem_indices hiv
    refine ⟨ofLayoutIndex c, by rw [hjoin, hc]; rfl, valid_ofLayoutIndex (hf c hcv) hcv, ?_⟩
    rw [kind_ofLayoutIndex hi, kind_ofLayoutIndex hj, kind_ofLayoutIndex (hf c hcv)]
    exact minimalUpper_layout hiv hjv hc

theorem eq_Top_of_toBasicSort {a : ArrayLayout} (h : toBasicSort a.sort = Top.sort) : a = Top := by
  rcases cases_sort a with rfl | rfl | rfl | ⟨i, hi, rfl⟩
  · rfl
  · exact absurd h (by decide)
  · exact absurd h (by decide)
  · rw [toBasicSort_ofLayoutIndex hi] at h
    exact absurd h (by decide)

/-- 二つとも `Top` でなく、基本の種類の符号の積が `Bespoke` でなければ、答えは `Bottom`。 -/
theorem meet_basic_spec (hao : a ≠ o) (hot : o ≠ Top) (hat : a ≠ Top)
    (hm : intersectBasicSort (toBasicSort a.sort) (toBasicSort o.sort) ≠ Bespoke.sort) :
    intersectBasicSort (toBasicSort a.sort) (toBasicSort o.sort) = Bottom.sort ∧
      MaximalLower H a.kind o.kind .bottom := by
  rcases cases_sort a with rfl | rfl | rfl | ⟨i, hi, rfl⟩
  · exact absurd rfl hat
  · -- `Bottom` との共通部分は `Bottom`
    rw [toBasicSort_Bottom, intersectBasicSort_Bottom_left (isBasicSort_toBasicSort _)]
    exact ⟨rfl, maximalLower_bottom fun k hk _ => kindLe_bottom_iff.mp hk⟩
  · rcases cases_sort o with rfl | rfl | rfl | ⟨j, hj, rfl⟩
    · exact absurd rfl hot
    · rw [toBasicSort_Bottom, intersectBasicSort_Bottom_right (isBasicSort_toBasicSort _)]
      exact ⟨rfl, maximalLower_bottom fun k _ hk => kindLe_bottom_iff.mp hk⟩
    · exact absurd rfl hao
    · -- `Vanilla` と配置の共通部分は `Bottom`
      rw [toBasicSort_Vanilla, toBasicSort_ofLayoutIndex hj, kind_ofLayoutIndex hj]
      exact ⟨by decide, maximalLower_bottom lower_vanilla_layout⟩
  · rcases cases_sort o with rfl | rfl | rfl | ⟨j, hj, rfl⟩
    · exact absurd rfl hot
    · rw [toBasicSort_Bottom, intersectBasicSort_Bottom_right (isBasicSort_toBasicSort _)]
      exact ⟨rfl, maximalLower_bottom fun k _ hk => kindLe_bottom_iff.mp hk⟩
    · rw [toBasicSort_Vanilla, toBasicSort_ofLayoutIndex hi, kind_ofLayoutIndex hi]
      exact ⟨by decide, maximalLower_bottom fun k hl hv => lower_vanilla_layout k hv hl⟩
    · -- 配置どうしの符号の積は `Bespoke`
      rw [toBasicSort_ofLayoutIndex hi, toBasicSort_ofLayoutIndex hj] at hm
      exact absurd (by decide) hm

/-- 二つとも `Top` でなく、基本の種類の符号の積が `Bespoke` なら、`&` は `Bespoke` を除いて
`Layout::operator&` の答え（無ければ `Bottom`）。 -/
theorem meet_of_intersect_eq_Bespoke (hao : a ≠ o) (hot : o ≠ Top) (hat : a ≠ Top)
    (hm : intersectBasicSort (toBasicSort a.sort) (toBasicSort o.sort) = Bespoke.sort) :
    meet H a o = if o = Bespoke then a else if a = Bespoke then o
      else ((H.meet (assertBespoke a) (assertBespoke o)).map ofLayoutIndex).getD Bottom := by
  rw [meet, if_neg hao, if_neg hot, if_neg hat]
  dsimp only
  rw [if_neg (not_not.mpr hm)]
  cases H.meet (assertBespoke a) (assertBespoke o) <;> rfl

/-- **`&` は下界で、その上に別の下界は無い。** -/
theorem meet_maximalLower (hr : Rooted H) (hf : Fits H) (ha : Valid H a) (ho : Valid H o) :
    Valid H (meet H a o) ∧ MaximalLower H a.kind o.kind (meet H a o).kind := by
  by_cases hao : a = o
  · subst hao
    rw [meet, if_pos rfl]
    exact ⟨ha, maximalLower_of_le_left (KindLe.refl _)⟩
  by_cases hot : o = Top
  · subst hot
    rw [meet, if_neg hao, if_pos rfl]
    exact ⟨ha, maximalLower_of_le_left (kindLe_top _)⟩
  by_cases hat : a = Top
  · subst hat
    rw [meet, if_neg hao, if_neg hot, if_pos rfl]
    exact ⟨ho, maximalLower_of_le_right (kindLe_top _)⟩
  by_cases hm : intersectBasicSort (toBasicSort a.sort) (toBasicSort o.sort) ≠ Bespoke.sort
  · obtain ⟨hbot, hlow⟩ := meet_basic_spec hao hot hat hm
    have hmeet : meet H a o = Bottom := by
      rw [meet, if_neg hao, if_neg hot, if_neg hat]
      exact (if_pos hm).trans (congrArg ArrayLayout.mk hbot)
    rw [hmeet]
    exact ⟨valid_of_basic (.inr (.inl rfl)), hlow⟩
  -- 二つとも基本の種類が `Bespoke`：どちらも bespoke の配置
  have hm' := not_not.mp hm
  rw [meet_of_intersect_eq_Bespoke hao hot hat hm']
  obtain ⟨hsa, hso⟩ := intersectBasicSort_eq_Bespoke (isBasicSort_toBasicSort _)
    (isBasicSort_toBasicSort _) (fun h => hat (eq_Top_of_toBasicSort h))
    (fun h => hot (eq_Top_of_toBasicSort h)) hm'
  obtain ⟨i, hi, rfl⟩ := eq_ofLayoutIndex_of_toBasicSort hsa
  obtain ⟨j, hj, rfl⟩ := eq_ofLayoutIndex_of_toBasicSort hso
  have hiv := ha.mem hi
  have hjv := ho.mem hj
  rw [assertBespoke_ofLayoutIndex hi, assertBespoke_ofLayoutIndex hj, kind_ofLayoutIndex hi,
    kind_ofLayoutIndex hj]
  by_cases hob : ofLayoutIndex j = Bespoke
  · -- `Bespoke` との共通部分は `a`
    have hj0 : j = kBespokeTopIndex := (ofLayoutIndex_inj hj (by decide)).mp hob
    subst hj0
    rw [if_pos hob, kind_ofLayoutIndex hi]
    exact ⟨ha, maximalLower_of_le_left (hr.reach_top i hiv)⟩
  rw [if_neg hob]
  by_cases hab : ofLayoutIndex i = Bespoke
  · have hi0 : i = kBespokeTopIndex := (ofLayoutIndex_inj hi (by decide)).mp hab
    subst hi0
    rw [if_pos hab, kind_ofLayoutIndex hj]
    exact ⟨ho, maximalLower_of_le_right (hr.reach_top j hjv)⟩
  rw [if_neg hab]
  -- 二つとも `Bespoke` でない配置：`Layout::operator&`
  cases hc : H.meet i j with
  | none =>
    rw [Option.map_none, Option.getD_none]
    exact ⟨valid_of_basic (.inr (.inl rfl)), maximalLower_layout_none hiv hjv hc⟩
  | some c =>
    have hcv : c ∈ H.indices := (meet_reach hiv hjv hc).1.mem_indices_left hiv
    rw [Option.map_some, Option.getD_some, kind_ofLayoutIndex (hf c hcv)]
    exact ⟨valid_ofLayoutIndex (hf c hcv) hcv, maximalLower_layout hiv hjv hc⟩

/-! ## 階層の演算子と配置の型の演算子 -/

/-- 配置の階層の演算子は親の辺の順序に合い、`ArrayLayout` の演算子はそれを基本の種類の上に
持ち上げる。 -/
theorem layout_hierarchy_matches_dag :
    (∀ (H : Hierarchy) (a b : LayoutIndex), a ∈ H.indices → (H.le a b = true ↔ H.Reach a b)) ∧
    (∀ (H : Hierarchy) (a b : LayoutIndex), a ∈ H.indices → b ∈ H.indices →
      (H.join a b = none ↔ ¬∃ d, H.Reach a d ∧ H.Reach b d) ∧
      (∀ c, H.join a b = some c → H.Reach a c ∧ H.Reach b c ∧
        ∀ d, H.Reach a d → H.Reach b d → H.Reach d c → d = c) ∧
      (∀ l, H.Reach a l → H.Reach b l → (∀ d, H.Reach a d → H.Reach b d → H.Reach l d) →
        H.join a b = some l)) ∧
    (∀ (H : Hierarchy) (a b : LayoutIndex), a ∈ H.indices → b ∈ H.indices →
      (H.meet a b = none ↔ ¬∃ d, H.Reach d a ∧ H.Reach d b) ∧
      (∀ c, H.meet a b = some c → H.Reach c a ∧ H.Reach c b ∧
        ∀ d, H.Reach d a → H.Reach d b → H.Reach c d → d = c) ∧
      (∀ g, H.Reach g a → H.Reach g b → (∀ d, H.Reach d a → H.Reach d b → H.Reach d g) →
        H.meet a b = some g)) ∧
    (∀ H : Hierarchy, Rooted H → Fits H → ∀ a o : ArrayLayout, Valid H a → Valid H o →
      (le H a o = true ↔ KindLe H a.kind o.kind) ∧
      (∃ c, join H a o = some c ∧ Valid H c ∧ MinimalUpper H a.kind o.kind c.kind) ∧
      Valid H (meet H a o) ∧ MaximalLower H a.kind o.kind (meet H a o).kind) ∧
    (∀ s t : UInt16, isBasicSort s = true → isBasicSort t = true →
      (basicLe s (unionBasicSort s t) = true ∧ basicLe t (unionBasicSort s t) = true ∧
        ∀ w, isBasicSort w = true → basicLe s w = true → basicLe t w = true →
          basicLe (unionBasicSort s t) w = true) ∧
      (basicLe (intersectBasicSort s t) s = true ∧ basicLe (intersectBasicSort s t) t = true ∧
        ∀ w, isBasicSort w = true → basicLe w s = true → basicLe w t = true →
          basicLe w (intersectBasicSort s t) = true)) := by
  refine ⟨?_, ?_, ?_, ?_, ?_⟩
  · -- `Layout::operator<=`
    intro H a b ha
    exact le_iff_reach ha b
  · -- `Layout::operator|`
    intro H a b ha hb
    refine ⟨join_eq_none_iff ha hb, fun c hc => ?_, fun l hla hlb hl => join_eq_of_least ha hb hla hlb hl⟩
    obtain ⟨hac, hbc, _⟩ := join_reach ha hb hc
    exact ⟨hac, hbc, fun d hd hd' hdc => join_minimal ha hb hc hd hd' hdc⟩
  · -- `Layout::operator&`
    intro H a b ha hb
    refine ⟨meet_eq_none_iff ha hb, fun c hc => ?_,
      fun g hga hgb hg => meet_eq_of_greatest ha hb hga hgb hg⟩
    obtain ⟨hca, hcb, _⟩ := meet_reach ha hb hc
    exact ⟨hca, hcb, fun d hd hd' hcd => meet_maximal ha hb hc hd hd' hcd⟩
  · -- `ArrayLayout` の演算子
    intro H hr hf a o ha ho
    exact ⟨le_iff_kindLe hr ha ho, join_minimalUpper hr hf ha ho, meet_maximalLower hr hf ha ho⟩
  · -- 基本の種類の符号
    intro s t hs ht
    exact ⟨unionBasicSort_isLUB hs ht, intersectBasicSort_isGLB hs ht⟩

/-- 共通の祖先を持たない二つの根 0 と 1 の階層。 -/
def twoRoots : Hierarchy where
  layouts := [⟨0, []⟩, ⟨1, []⟩]
  index_lt := by decide
  index_nodup := by decide
  parents_before := by
    intro k hk p hp
    match k, hk with
    | 0, _ => simp at hp
    | 1, _ => simp at hp

/-- `Bespoke` の下に添字 65534 の配置があり、その下に 5 と 6 がある階層。 -/
def wrapHierarchy : Hierarchy where
  layouts := [⟨0, []⟩, ⟨65534, [0]⟩, ⟨5, [65534]⟩, ⟨6, [65534]⟩]
  index_lt := by decide
  index_nodup := by decide
  parents_before := by
    intro k hk p hp
    match k, hk with
    | 0, _ => simp at hp
    | 1, _ =>
      simp only [List.getElem_cons_succ, List.getElem_cons_zero, List.mem_singleton] at hp
      subst hp
      decide
    | 2, _ =>
      simp only [List.getElem_cons_succ, List.getElem_cons_zero, List.mem_singleton] at hp
      subst hp
      decide
    | 3, _ =>
      simp only [List.getElem_cons_succ, List.getElem_cons_zero, List.mem_singleton] at hp
      subst hp
      decide

/-- 親の無い配置からたどれるのは自分だけ。 -/
theorem reach_of_parentsOf_nil {H : Hierarchy} {a d : LayoutIndex} (h : H.parentsOf a = []) :
    H.Reach a d ↔ d = a := by
  rw [reach_iff, h]
  simp

/-- 親が一つの配置からたどれるのは、自分と親からたどれる配置。 -/
theorem reach_of_parentsOf_single {H : Hierarchy} {a p d : LayoutIndex} (h : H.parentsOf a = [p]) :
    H.Reach a d ↔ d = a ∨ H.Reach p d := by
  rw [reach_iff, h]
  simp

theorem wrapHierarchy_rooted : Rooted wrapHierarchy := by
  have h0 : wrapHierarchy.parentsOf 65534 = [0] := by decide
  have h5 : wrapHierarchy.parentsOf 5 = [65534] := by decide
  have h6 : wrapHierarchy.parentsOf 6 = [65534] := by decide
  have htop : wrapHierarchy.Reach 65534 kBespokeTopIndex :=
    (reach_of_parentsOf_single h0).mpr (.inr .refl)
  refine ⟨by decide, fun i hi => ?_⟩
  simp only [indices, wrapHierarchy, List.map_cons, List.map_nil, List.mem_cons,
    List.not_mem_nil, or_false] at hi
  rcases hi with rfl | rfl | rfl | rfl
  · exact .refl
  · exact htop
  · exact (reach_of_parentsOf_single h5).mpr (.inr htop)
  · exact (reach_of_parentsOf_single h6).mpr (.inr htop)

/-- `wrapHierarchy` で 5 と 6 の最小の共通の祖先は 65534。 -/
theorem wrapHierarchy_join : wrapHierarchy.join 5 6 = some 65534 := by
  have h0 : wrapHierarchy.parentsOf 0 = [] := by decide
  have h65534 : wrapHierarchy.parentsOf 65534 = [0] := by decide
  have h5 : wrapHierarchy.parentsOf 5 = [65534] := by decide
  have h6 : wrapHierarchy.parentsOf 6 = [65534] := by decide
  refine join_eq_of_least (by decide) (by decide) ((reach_of_parentsOf_single h5).mpr (.inr .refl))
    ((reach_of_parentsOf_single h6).mpr (.inr .refl)) (fun d hd hd' => ?_)
  rcases (reach_of_parentsOf_single h5).mp hd with rfl | hd
  · -- 5 は 6 からたどれない
    rcases (reach_of_parentsOf_single h6).mp hd' with h | h
    · exact absurd h (by decide)
    · rcases (reach_of_parentsOf_single h65534).mp h with h | h
      · exact absurd h (by decide)
      · exact absurd ((reach_of_parentsOf_nil h0).mp h) (by decide)
  · exact hd

/-- `|` は二つの根の配置で `not_reached()` に落ち、添字 65534 の配置は `uint16_t` で `Bottom`
に重なるので、5 と 6 の和が `Bottom` になる。 -/
theorem layout_hierarchy_join_breaks :
    twoRoots.join 0 1 = none ∧
    (Rooted wrapHierarchy ∧ Valid wrapHierarchy (ofLayoutIndex 5) ∧
      Valid wrapHierarchy (ofLayoutIndex 6) ∧
      join wrapHierarchy (ofLayoutIndex 5) (ofLayoutIndex 6) = some Bottom ∧
      ¬KindLe wrapHierarchy (ofLayoutIndex 5).kind Bottom.kind) := by
  refine ⟨?_, wrapHierarchy_rooted, valid_ofLayoutIndex (by decide) (by decide),
    valid_ofLayoutIndex (by decide) (by decide), ?_, ?_⟩
  · -- 0 と 1 はどちらも親を持たない
    have h0 : twoRoots.parentsOf 0 = [] := by decide
    have h1 : twoRoots.parentsOf 1 = [] := by decide
    refine (join_eq_none_iff (by decide) (by decide)).mpr ?_
    rintro ⟨d, hd0, hd1⟩
    rw [(reach_of_parentsOf_nil h0).mp hd0] at hd1
    exact absurd ((reach_of_parentsOf_nil h1).mp hd1) (by decide)
  · rw [join, if_neg (by decide), if_neg (by decide), if_neg (by decide), if_neg (by decide),
      assertBespoke_ofLayoutIndex (by decide), assertBespoke_ofLayoutIndex (by decide),
      wrapHierarchy_join]
    rfl
  · rw [kind_ofLayoutIndex (by decide), kind_Bottom, kindLe_bottom_iff]
    simp

/-- `Bespoke` の下に添字 2 の配置があり、その下に 5 と 6 がある階層。どの添字も `uint16_t` に収まる。 -/
def fitHierarchy : Hierarchy where
  layouts := [⟨0, []⟩, ⟨2, [0]⟩, ⟨5, [2]⟩, ⟨6, [2]⟩]
  index_lt := by decide
  index_nodup := by decide
  parents_before := by
    intro k hk p hp
    match k, hk with
    | 0, _ => simp at hp
    | 1, _ =>
      simp only [List.getElem_cons_succ, List.getElem_cons_zero, List.mem_singleton] at hp
      subst hp
      decide
    | 2, _ =>
      simp only [List.getElem_cons_succ, List.getElem_cons_zero, List.mem_singleton] at hp
      subst hp
      decide
    | 3, _ =>
      simp only [List.getElem_cons_succ, List.getElem_cons_zero, List.mem_singleton] at hp
      subst hp
      decide

theorem mem_indices_fitHierarchy {i : LayoutIndex} (hi : i ∈ fitHierarchy.indices) :
    i = 0 ∨ i = 2 ∨ i = 5 ∨ i = 6 := by
  simpa only [indices, fitHierarchy, List.map_cons, List.map_nil, List.mem_cons,
    List.not_mem_nil, or_false] using hi

theorem fitHierarchy_rooted : Rooted fitHierarchy := by
  have h2 : fitHierarchy.parentsOf 2 = [0] := by decide
  have h5 : fitHierarchy.parentsOf 5 = [2] := by decide
  have h6 : fitHierarchy.parentsOf 6 = [2] := by decide
  have htop : fitHierarchy.Reach 2 kBespokeTopIndex :=
    (reach_of_parentsOf_single h2).mpr (.inr .refl)
  refine ⟨by decide, fun i hi => ?_⟩
  rcases mem_indices_fitHierarchy hi with rfl | rfl | rfl | rfl
  · exact .refl
  · exact htop
  · exact (reach_of_parentsOf_single h5).mpr (.inr htop)
  · exact (reach_of_parentsOf_single h6).mpr (.inr htop)

/-- `fitHierarchy` の配置 5 と 6、基本の種類 `Vanilla` と `Bespoke` で：`<=` は親の辺をたどること、
`|` と `&` が `none` を返すのは共通の祖先・子孫が無いとき、`ArrayLayout` の `|` は最小の上界を返し、
基本の種類の和は上界。 -/
theorem layout_hierarchy_matches_dag_fit :
    Rooted fitHierarchy ∧ Fits fitHierarchy ∧
    (fitHierarchy.le 5 2 = true ↔ fitHierarchy.Reach 5 2) ∧
    (fitHierarchy.join 5 6 = none ↔ ¬∃ d, fitHierarchy.Reach 5 d ∧ fitHierarchy.Reach 6 d) ∧
    (fitHierarchy.meet 5 6 = none ↔ ¬∃ d, fitHierarchy.Reach d 5 ∧ fitHierarchy.Reach d 6) ∧
    ((le fitHierarchy (ofLayoutIndex 5) (ofLayoutIndex 6) = true ↔
        KindLe fitHierarchy (ofLayoutIndex 5).kind (ofLayoutIndex 6).kind) ∧
      (∃ c, join fitHierarchy (ofLayoutIndex 5) (ofLayoutIndex 6) = some c ∧ Valid fitHierarchy c ∧
        MinimalUpper fitHierarchy (ofLayoutIndex 5).kind (ofLayoutIndex 6).kind c.kind) ∧
      Valid fitHierarchy (meet fitHierarchy (ofLayoutIndex 5) (ofLayoutIndex 6)) ∧
      MaximalLower fitHierarchy (ofLayoutIndex 5).kind (ofLayoutIndex 6).kind
        (meet fitHierarchy (ofLayoutIndex 5) (ofLayoutIndex 6)).kind) ∧
    (basicLe Vanilla.sort (unionBasicSort Vanilla.sort Bespoke.sort) = true ∧
      basicLe Bespoke.sort (unionBasicSort Vanilla.sort Bespoke.sort) = true ∧
      ∀ w, isBasicSort w = true → basicLe Vanilla.sort w = true → basicLe Bespoke.sort w = true →
        basicLe (unionBasicSort Vanilla.sort Bespoke.sort) w = true) := by
  obtain ⟨hle, hjoin, hmeet, hlayout, hbasic⟩ := layout_hierarchy_matches_dag
  have hfits : Fits fitHierarchy := by
    intro i hi
    rcases mem_indices_fitHierarchy hi with rfl | rfl | rfl | rfl <;> decide
  have h5 : (5 : LayoutIndex) ∈ fitHierarchy.indices := by decide
  have h6 : (6 : LayoutIndex) ∈ fitHierarchy.indices := by decide
  exact ⟨fitHierarchy_rooted, hfits, hle fitHierarchy 5 2 h5, (hjoin fitHierarchy 5 6 h5 h6).1,
    (hmeet fitHierarchy 5 6 h5 h6).1,
    hlayout fitHierarchy fitHierarchy_rooted hfits _ _ (valid_ofLayoutIndex (by decide) h5)
      (valid_ofLayoutIndex (by decide) h6),
    (hbasic Vanilla.sort Bespoke.sort (by decide) (by decide)).1⟩

end ArrayLayout

end Jit

end Hhvm
