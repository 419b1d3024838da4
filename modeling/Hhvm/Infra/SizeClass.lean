import Mathlib

/-!
# 倍ごとに `2^k` 段の大きさの級

割り当ての大きさを丸める級の列。初めの `2^k` 段は単位 `2^q` の倍数 `(i + 1) * 2^q` で（「非正規」の
級）、その先は大きさが倍になるごとに `2^k` 段ずつ置く：第 `g + 1` 群の `m` 段目は
`(2^k + m + 1) * 2^(g + q)`。どの級も `2^q` の倍数で、列は真に増える（`classSize_strictMono`）。

`classIndex x` は `x` を超える最小の級の番号を、最上位ビットの位置 `log2 x` から指数と仮数を
取り出して計算する。その正しさは Galois 接続

* `classIndex_le_iff` — `classIndex x ≤ i ↔ x < classSize i`

として述べ、そこから「最小の番号である」ことも、下位 `q` ビットを捨てても番号が変わらないこと
（`classIndex_div_mul`）も出る。`roundUp` は同じ丸めを番号を経ずに行うもので、
`classSize_classIndex` がその値が級の大きさであることを言う。
-/

namespace Infra.SizeClass

variable (k q : ℕ)

/-- 第 `i` 級の大きさ。 -/
def classSize (i : ℕ) : ℕ :=
  if i < 2 ^ k then (i + 1) * 2 ^ q
  else (2 ^ k + i % 2 ^ k + 1) * 2 ^ (i / 2 ^ k - 1 + q)

/-- `x` を超える最小の級の番号。`log2 x` が `k + q` に届かなければ単位で割るだけで、届けば
指数 `log2 x - (k + q)` と、上から `k + 1` 桁の仮数とを並べる。 -/
def classIndex (x : ℕ) : ℕ :=
  if Nat.log2 x < k + q then x / 2 ^ q
  else (Nat.log2 x - (k + q)) * 2 ^ k + x / 2 ^ (Nat.log2 x - k)

/-- `x` を超える最小の、上から `k + 1` 桁だけからなる `2^q` の倍数。 -/
def roundUp (x : ℕ) : ℕ :=
  (x / 2 ^ max q (Nat.log2 x - k) + 1) * 2 ^ max q (Nat.log2 x - k)

variable {k q}

/-! ## 級の大きさ -/

/-- 初めの `2^k` 段は単位の倍数。 -/
theorem classSize_lo {m : ℕ} (hm : m < 2 ^ k) : classSize k q m = (m + 1) * 2 ^ q :=
  if_pos hm

/-- 第 `g + 1` 群の `m` 段目。 -/
theorem classSize_hi (g : ℕ) {m : ℕ} (hm : m < 2 ^ k) :
    classSize k q (2 ^ k * (g + 1) + m) = (2 ^ k + m + 1) * 2 ^ (g + q) := by
  have hK : 0 < 2 ^ k := Nat.two_pow_pos k
  have hge : 2 ^ k ≤ 2 ^ k * (g + 1) := Nat.le_mul_of_pos_right _ (Nat.succ_pos g)
  unfold classSize
  rw [if_neg (by omega), Nat.mul_add_mod, Nat.mod_eq_of_lt hm, Nat.mul_add_div hK,
    Nat.div_eq_of_lt hm, show g + 1 + 0 - 1 + q = g + q by omega]

/-- 群の最後の段は二冪：第 `g` 群の終わり（`g = 0` は非正規の段の終わり）。 -/
theorem classSize_pred_group (g : ℕ) :
    classSize k q (2 ^ k * (g + 1) - 1) = 2 ^ (g + k + q) := by
  have hK : 0 < 2 ^ k := Nat.two_pow_pos k
  cases g with
  | zero =>
    rw [Nat.mul_one, classSize_lo (by omega), Nat.sub_add_cancel hK, Nat.zero_add, Nat.pow_add]
  | succ g =>
    have hsplit : 2 ^ k * (g + 1 + 1) - 1 = 2 ^ k * (g + 1) + (2 ^ k - 1) := by
      rw [Nat.mul_succ]
      omega
    rw [hsplit, classSize_hi g (by omega), show 2 ^ k + (2 ^ k - 1) + 1 = 2 ^ (k + 1) by
      rw [Nat.pow_succ]; omega, ← Nat.pow_add]
    congr 1
    omega

/-- 群の境目でも大きさは増える：群の最後の段 `2^(g+k+q)` の次は `(2^k + 1) * 2^(g+q)`。 -/
theorem classSize_pred_group_lt (g : ℕ) :
    classSize k q (2 ^ k * (g + 1) - 1) < classSize k q (2 ^ k * (g + 1)) := by
  have hK : 0 < 2 ^ k := Nat.two_pow_pos k
  have hnext : classSize k q (2 ^ k * (g + 1)) = (2 ^ k + 1) * 2 ^ (g + q) := by
    simpa using classSize_hi (q := q) g hK
  rw [classSize_pred_group, hnext, Nat.add_mul, Nat.one_mul,
    show g + k + q = k + (g + q) by omega, Nat.pow_add]
  exact Nat.lt_add_of_pos_right (Nat.two_pow_pos _)

theorem classSize_lt_succ (i : ℕ) : classSize k q i < classSize k q (i + 1) := by
  have hK : 0 < 2 ^ k := Nat.two_pow_pos k
  have hQ : 0 < 2 ^ q := Nat.two_pow_pos q
  -- `i + 1` を `2^k` で割った商と余りで分ける：余りが 0 なら群の境目、そうでなければ同じ群
  obtain ⟨a, b, hb, hi⟩ : ∃ a b, b < 2 ^ k ∧ i + 1 = 2 ^ k * a + b :=
    ⟨(i + 1) / 2 ^ k, (i + 1) % 2 ^ k, Nat.mod_lt _ hK, (Nat.div_add_mod _ _).symm⟩
  rcases Nat.eq_zero_or_pos b with rfl | hbpos
  · obtain ⟨g, rfl⟩ : ∃ g, a = g + 1 := ⟨a - 1, by rcases a with _ | a <;> simp_all⟩
    have hle : 1 ≤ 2 ^ k * (g + 1) := Nat.mul_pos hK (Nat.succ_pos g)
    rw [show i = 2 ^ k * (g + 1) - 1 by omega, Nat.sub_add_cancel hle]
    exact classSize_pred_group_lt g
  · rcases a with _ | g
    · have hib : i + 1 = b := by simpa using hi
      rw [hib, show i = b - 1 by omega, classSize_lo (by omega), classSize_lo hb,
        Nat.sub_add_cancel (hbpos : 1 ≤ b)]
      exact Nat.mul_lt_mul_of_pos_right (Nat.lt_succ_self b) hQ
    · rw [hi, show i = 2 ^ k * (g + 1) + (b - 1) by omega, classSize_hi g (by omega),
        classSize_hi g hb]
      exact Nat.mul_lt_mul_of_pos_right (by omega) (Nat.two_pow_pos _)

theorem classSize_strictMono : StrictMono (classSize k q) :=
  strictMono_nat_of_lt_succ classSize_lt_succ

/-- どの級も単位 `2^q` の倍数。 -/
theorem pow_dvd_classSize (i : ℕ) : 2 ^ q ∣ classSize k q i := by
  unfold classSize
  split
  · exact Dvd.intro_left _ rfl
  · exact Dvd.dvd.mul_left (Nat.pow_dvd_pow 2 (Nat.le_add_left q _)) _

/-- 隣の級とは単位一つ以上離れている。 -/
theorem classSize_add_pow_le (i : ℕ) : classSize k q i + 2 ^ q ≤ classSize k q (i + 1) := by
  obtain ⟨a, ha⟩ := pow_dvd_classSize (k := k) (q := q) i
  obtain ⟨b, hb⟩ := pow_dvd_classSize (k := k) (q := q) (i + 1)
  have hlt := classSize_lt_succ (k := k) (q := q) i
  rw [ha, hb] at hlt ⊢
  have hab : a < b := Nat.lt_of_mul_lt_mul_left hlt
  calc 2 ^ q * a + 2 ^ q = 2 ^ q * (a + 1) := (Nat.mul_succ _ _).symm
    _ ≤ 2 ^ q * b := Nat.mul_le_mul_left _ hab

/-! ## 番号の計算 -/

@[simp] theorem classIndex_zero : classIndex k q 0 = 0 := by
  simp [classIndex]

/-- `log2 x ≥ k + q` のときの仮数 `x / 2^(log2 x - k)` は `k + 1` 桁：`[2^k, 2^(k+1))` にある。 -/
theorem mantissa_bounds {x : ℕ} (hx : x ≠ 0) (hn : k ≤ Nat.log2 x) :
    2 ^ k ≤ x / 2 ^ (Nat.log2 x - k) ∧ x / 2 ^ (Nat.log2 x - k) < 2 ^ k * 2 := by
  have hP : 0 < 2 ^ (Nat.log2 x - k) := Nat.two_pow_pos _
  have hsplit : 2 ^ Nat.log2 x = 2 ^ k * 2 ^ (Nat.log2 x - k) := by
    rw [← Nat.pow_add, Nat.add_sub_cancel' hn]
  constructor
  · rw [Nat.le_div_iff_mul_le hP, ← hsplit]
    exact Nat.log2_self_le hx
  · rw [Nat.div_lt_iff_lt_mul hP, Nat.mul_right_comm, ← hsplit, ← Nat.pow_succ]
    exact Nat.lt_log2_self

/-- 正規の範囲では、番号は第 `log2 x - (k + q) + 1` 群の `仮数 - 2^k` 段目。 -/
theorem classIndex_of_le {x : ℕ} (hx : x ≠ 0) (hn : k + q ≤ Nat.log2 x) :
    classIndex k q x =
      2 ^ k * (Nat.log2 x - (k + q) + 1) + (x / 2 ^ (Nat.log2 x - k) - 2 ^ k) := by
  have hm := (mantissa_bounds (k := k) hx (by omega)).1
  have hmul : 2 ^ k * (Nat.log2 x - (k + q) + 1) = (Nat.log2 x - (k + q)) * 2 ^ k + 2 ^ k := by
    rw [Nat.mul_succ, Nat.mul_comm]
  unfold classIndex
  rw [if_neg (by omega), hmul]
  omega

/-- 番号の級の大きさは `roundUp` の丸め。 -/
theorem classSize_classIndex (x : ℕ) : classSize k q (classIndex k q x) = roundUp k q x := by
  have hK : 0 < 2 ^ k := Nat.two_pow_pos k
  rcases Nat.eq_zero_or_pos x with rfl | hx
  · simp [roundUp, classSize_lo hK]
  by_cases hn : Nat.log2 x < k + q
  · -- 非正規：単位に切り上げる
    have hr : max q (Nat.log2 x - k) = q := by omega
    have hlt : x / 2 ^ q < 2 ^ k := by
      rw [Nat.div_lt_iff_lt_mul (Nat.two_pow_pos q), ← Nat.pow_add]
      exact lt_of_lt_of_le Nat.lt_log2_self (Nat.pow_le_pow_right (by decide) hn)
    rw [classIndex, if_pos hn, classSize_lo hlt, roundUp, hr]
  · -- 正規：上から `k + 1` 桁に切り上げる
    have hm := mantissa_bounds (k := k) (x := x) (by omega) (by omega)
    have hr : max q (Nat.log2 x - k) = Nat.log2 x - (k + q) + q := by omega
    rw [classIndex_of_le (k := k) (q := q) (by omega) (by omega),
      classSize_hi (Nat.log2 x - (k + q)) (by omega), roundUp, hr,
      show Nat.log2 x - (k + q) + q = Nat.log2 x - k by omega]
    congr 1
    omega

/-- 丸めは元の数を超える。 -/
theorem lt_roundUp (x : ℕ) : x < roundUp k q x := by
  rw [roundUp, Nat.mul_comm]
  exact Nat.lt_mul_div_succ x (Nat.two_pow_pos _)

theorem lt_classSize_classIndex (x : ℕ) : x < classSize k q (classIndex k q x) := by
  rw [classSize_classIndex]
  exact lt_roundUp x

/-- 一つ前の級は `x` を超えない。 -/
theorem classSize_pred_classIndex_le {x : ℕ} (h : 0 < classIndex k q x) :
    classSize k q (classIndex k q x - 1) ≤ x := by
  have hK : 0 < 2 ^ k := Nat.two_pow_pos k
  have hx : x ≠ 0 := by
    rintro rfl
    simp at h
  by_cases hn : Nat.log2 x < k + q
  · rw [classIndex, if_pos hn] at h ⊢
    have hlt : x / 2 ^ q < 2 ^ k := by
      rw [Nat.div_lt_iff_lt_mul (Nat.two_pow_pos q), ← Nat.pow_add]
      exact lt_of_lt_of_le Nat.lt_log2_self (Nat.pow_le_pow_right (by decide) hn)
    rw [classSize_lo (by omega), Nat.sub_add_cancel h]
    exact Nat.div_mul_le_self x _
  · have hm := mantissa_bounds (k := k) hx (by omega)
    rw [classIndex_of_le (k := k) (q := q) hx (by omega)]
    generalize he : Nat.log2 x - (k + q) = e
    -- 仮数が `2^k` より大きければ同じ群の一つ前、ちょうど `2^k` なら前の群の最後の段
    by_cases hmant : 2 ^ k < x / 2 ^ (Nat.log2 x - k)
    · rw [show 2 ^ k * (e + 1) + (x / 2 ^ (Nat.log2 x - k) - 2 ^ k) - 1 =
          2 ^ k * (e + 1) + (x / 2 ^ (Nat.log2 x - k) - 2 ^ k - 1) by omega,
        classSize_hi e (by omega), show e + q = Nat.log2 x - k by omega,
        show 2 ^ k + (x / 2 ^ (Nat.log2 x - k) - 2 ^ k - 1) + 1 = x / 2 ^ (Nat.log2 x - k) by
          omega]
      exact Nat.div_mul_le_self x _
    · rw [show x / 2 ^ (Nat.log2 x - k) - 2 ^ k = 0 by omega, Nat.add_zero,
        classSize_pred_group, show e + k + q = Nat.log2 x by omega]
      exact Nat.log2_self_le hx

/-- **番号の特徴づけ**：`classIndex x` 以上の番号の級は、ちょうど `x` を超える級。 -/
theorem classIndex_le_iff {x i : ℕ} : classIndex k q x ≤ i ↔ x < classSize k q i := by
  constructor
  · intro h
    exact lt_of_lt_of_le (lt_classSize_classIndex x) (classSize_strictMono.monotone h)
  · intro h
    by_contra hlt
    have hle : classSize k q i ≤ classSize k q (classIndex k q x - 1) :=
      classSize_strictMono.monotone (by omega)
    have := classSize_pred_classIndex_le (k := k) (q := q) (x := x) (by omega)
    omega

/-- `classIndex x` より前の級はどれも `x` を超えない。 -/
theorem classSize_le_of_lt_classIndex {x j : ℕ} (hj : j < classIndex k q x) :
    classSize k q j ≤ x := by
  by_contra h
  have := classIndex_le_iff.mpr (Nat.lt_of_not_le h)
  omega

/-- 下位 `q` ビットは番号に効かない：級の大きさがどれも `2^q` の倍数だから。 -/
theorem classIndex_div_mul (x : ℕ) : classIndex k q (x / 2 ^ q * 2 ^ q) = classIndex k q x := by
  apply le_antisymm
  · exact classIndex_le_iff.mpr
      (lt_of_le_of_lt (Nat.div_mul_le_self x _) (lt_classSize_classIndex x))
  · apply classIndex_le_iff.mpr
    have hlt := lt_classSize_classIndex (k := k) (q := q) (x / 2 ^ q * 2 ^ q)
    obtain ⟨c, hc⟩ := pow_dvd_classSize (k := k) (q := q) (classIndex k q (x / 2 ^ q * 2 ^ q))
    rw [hc] at hlt ⊢
    have hdiv : x / 2 ^ q < c := Nat.lt_of_mul_lt_mul_left (by rwa [Nat.mul_comm] at hlt)
    calc x < 2 ^ q * (x / 2 ^ q + 1) := Nat.lt_mul_div_succ x (Nat.two_pow_pos q)
      _ ≤ 2 ^ q * c := Nat.mul_le_mul_left _ hdiv

end Infra.SizeClass
