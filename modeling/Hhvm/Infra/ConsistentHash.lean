import Mathlib

/-!
# ビット列の上の二分決定木による consistent hash

Rabkin の consistent hash を、任意のビット列 `bit : ℕ → Bool` と桁の間隔 `shift` の上で反復に
直したもの。`m` 個の箱に対し、深さ `d = ⌈log₂ m⌉` から始めて

* 今の位置 `a` のビットが `0` なら一段下りて `a = d` とし（`d` が尽きれば `0`）、
* `1` なら、続く `d - 1` 個のビットで `[2^(d-1), 2^d)` の数 `num` を読み、`num < m` なら返す。
  そうでなければ位置を進めたまま次の試行へ。

主な結果は `hashOf_succ`：試行が尽きずに返るなら、箱を一つ増やしても値は変わらないか、新しい
箱 `m` に移るだけである。

* 深さが変わらない（`m < 2^d`）とき、二つの計算は同じビットを同じ順に読み、受け入れの境が違う
  だけなので、違いが出るのは `num = m` のときに限る（`tries_succ`）。
* `m = 2^d` のとき、`m + 1` の計算は深さ `d + 1` で上半分の候補を捨て続け、`0` のビットで
  ちょうど `m` の計算の出発点 `(d, d)` に下りる。そこから下ではどの候補も受け入れられる
  （`tries_of_pow_le`）。
-/

namespace Infra.ConsistentHash

variable (bit : ℕ → Bool) (shift : ℕ)

/-- `0` のビットを読むたびに一段下り、位置を新しい深さに戻す。深さが尽きれば `none`。 -/
def descend (d a : ℕ) : Option (ℕ × ℕ) :=
  if !bit a then
    if d - 1 = 0 then none else descend (d - 1) (d - 1)
  else some (d, a)
termination_by d
decreasing_by omega

/-- `k` 個のビットを `shift` おきに読んで、`num` の下に並べる。 -/
def readNum : ℕ → ℕ → ℕ → ℕ × ℕ
  | 0, num, a => (num, a)
  | k + 1, num, a => readNum k (2 * num + if bit a then 1 else 0) (a + shift)

/-- 残り `t` 回の試行。`none` は試行が尽きたこと。 -/
def tries (m : ℕ) : ℕ → ℕ → ℕ → Option ℕ
  | 0, _, _ => none
  | t + 1, d, a =>
    match descend bit d a with
    | none => some 0
    | some (d, a) =>
      let r := readNum bit shift (d - 1) 1 (a + shift)
      if r.1 < m then some r.1 else tries m t d r.2

/-- `m` 個の箱への割り当て：深さ `⌈log₂ m⌉` から `t` 回試し、尽きれば `0`。 -/
def hashOf (m t : ℕ) : ℕ :=
  if m ≤ 1 then 0 else (tries bit shift m t (Nat.clog 2 m) (Nat.clog 2 m)).getD 0

/-! ## 定義の式

`descend`、`tries`、`hashOf` を開くのはここだけで、後の証明はこれらの式を引く。 -/

theorem descend_eq (d a : ℕ) :
    descend bit d a =
      if !bit a then (if d - 1 = 0 then none else descend bit (d - 1) (d - 1)) else some (d, a) := by
  rw [descend]

theorem tries_zero (m d a : ℕ) : tries bit shift m 0 d a = none := rfl

/-- 一回の試行：下りて候補を読み、`m` より小さければ返し、そうでなければ次の試行へ。 -/
theorem tries_add_one (m t d a : ℕ) :
    tries bit shift m (t + 1) d a = (descend bit d a).elim (some 0) fun p =>
      if (readNum bit shift (p.1 - 1) 1 (p.2 + shift)).1 < m then
        some (readNum bit shift (p.1 - 1) 1 (p.2 + shift)).1
      else tries bit shift m t p.1 (readNum bit shift (p.1 - 1) 1 (p.2 + shift)).2 := by
  rw [tries]
  cases descend bit d a <;> rfl

theorem tries_of_descend_some {m t d a d' a' : ℕ} (h : descend bit d a = some (d', a')) :
    tries bit shift m (t + 1) d a =
      if (readNum bit shift (d' - 1) 1 (a' + shift)).1 < m then
        some (readNum bit shift (d' - 1) 1 (a' + shift)).1
      else tries bit shift m t d' (readNum bit shift (d' - 1) 1 (a' + shift)).2 := by
  rw [tries_add_one, h]
  rfl

theorem hashOf_of_two_le {m : ℕ} (hm : 2 ≤ m) (t : ℕ) :
    hashOf bit shift m t = (tries bit shift m t (Nat.clog 2 m) (Nat.clog 2 m)).getD 0 := by
  rw [hashOf, if_neg (by omega)]

/-! ## 一歩ずつの性質 -/

theorem descend_of_bit {d a : ℕ} (hb : bit a = true) : descend bit d a = some (d, a) := by
  rw [descend_eq, if_neg (by simp [hb])]

theorem descend_of_not_bit {d a : ℕ} (hb : bit a = false) (hd : 2 ≤ d) :
    descend bit d a = descend bit (d - 1) (d - 1) := by
  rw [descend_eq, if_pos (by simp [hb]), if_neg (by omega)]

/-- 下りた先の深さは 1 以上で、もとの深さを超えない。 -/
theorem descend_le {d a d' a' : ℕ} (hd : 1 ≤ d) (h : descend bit d a = some (d', a')) :
    1 ≤ d' ∧ d' ≤ d := by
  induction d using Nat.strong_induction_on generalizing a with
  | _ d ih =>
    cases hb : bit a with
    | true =>
      rw [descend_of_bit bit hb, Option.some.injEq, Prod.mk.injEq] at h
      omega
    | false =>
      rw [descend_eq, if_pos (by simp [hb])] at h
      split at h
      · cases h
      · have := ih (d - 1) (by omega) (by omega) h
        omega

/-- `readNum` は `num` の後に `k` 桁を足す：結果は `[num·2^k, (num+1)·2^k)` に入る。 -/
theorem readNum_bounds (k num a : ℕ) :
    num * 2 ^ k ≤ (readNum bit shift k num a).1 ∧
      (readNum bit shift k num a).1 < (num + 1) * 2 ^ k := by
  induction k generalizing num a with
  | zero => simp [readNum]
  | succ k ih =>
    obtain ⟨h₁, h₂⟩ := ih (2 * num + if bit a then 1 else 0) (a + shift)
    have hb : (if bit a = true then 1 else 0) ≤ 1 := by split <;> omega
    rw [readNum]
    constructor
    · calc num * 2 ^ (k + 1) = 2 * num * 2 ^ k := by rw [Nat.pow_succ]; ac_rfl
        _ ≤ (2 * num + if bit a then 1 else 0) * 2 ^ k := Nat.mul_le_mul_right _ (by omega)
        _ ≤ _ := h₁
    · calc _ < (2 * num + (if bit a then 1 else 0) + 1) * 2 ^ k := h₂
        _ ≤ 2 * (num + 1) * 2 ^ k := Nat.mul_le_mul_right _ (by omega)
        _ = (num + 1) * 2 ^ (k + 1) := by rw [Nat.pow_succ]; ac_rfl

/-- 深さ `d` で読む候補は `[2^(d-1), 2^d)` に入る。 -/
theorem readNum_one_bounds {d : ℕ} (hd : 1 ≤ d) (a : ℕ) :
    2 ^ (d - 1) ≤ (readNum bit shift (d - 1) 1 a).1 ∧ (readNum bit shift (d - 1) 1 a).1 < 2 ^ d := by
  obtain ⟨h₁, h₂⟩ := readNum_bounds bit shift (d - 1) 1 a
  have hpow : 2 * 2 ^ (d - 1) = 2 ^ d := by
    obtain ⟨e, rfl⟩ : ∃ e, d = e + 1 := ⟨d - 1, by omega⟩
    rw [Nat.add_sub_cancel, Nat.pow_succ']
  omega

/-- 返る値は `m` より小さい。 -/
theorem tries_lt {m t d a v : ℕ} (hm : 1 ≤ m) (h : tries bit shift m t d a = some v) : v < m := by
  induction t generalizing d a with
  | zero => cases h
  | succ t ih =>
    cases hdes : descend bit d a with
    | none =>
      rw [tries_add_one, hdes] at h
      cases h
      omega
    | some p =>
      rw [tries_of_descend_some bit shift hdes] at h
      split at h
      · cases h; assumption
      · exact ih h

/-! ## 受け入れの境を一つ動かす -/

/-- 同じ状態から `m` と `m + 1` で試すと、`m + 1` の値は `m` か、`m` の値と同じ。 -/
theorem tries_succ {m t d a v : ℕ} (h : tries bit shift (m + 1) t d a = some v) :
    v = m ∨ tries bit shift m t d a = some v := by
  induction t generalizing d a with
  | zero => cases h
  | succ t ih =>
    cases hdes : descend bit d a with
    | none =>
      rw [tries_add_one, hdes] at h ⊢
      exact Or.inr h
    | some p =>
      obtain ⟨d', a'⟩ := p
      rw [tries_of_descend_some bit shift hdes] at h ⊢
      -- 候補 `num` が `m` より小さいか、ちょうど `m` か、それより大きいか
      rcases Nat.lt_trichotomy (readNum bit shift (d' - 1) 1 (a' + shift)).1 m with hlt | heq | hgt
      · rw [if_pos (by omega)] at h
        rw [if_pos hlt]
        exact Or.inr h
      · rw [if_pos (by omega), Option.some.injEq] at h
        exact Or.inl (h.symm.trans heq)
      · rw [if_neg (by omega)] at h
        rw [if_neg (by omega)]
        exact ih h

/-- 深さ `d` 以下の候補はどれも `2^d` より小さいので、`2^d ≤ m` なら最初の試行で決まり、
`m` にも残りの試行の数にもよらない。 -/
theorem tries_of_pow_le {m m' d a : ℕ} (t t' : ℕ) (hd : 1 ≤ d) (hm : 2 ^ d ≤ m) (hm' : 2 ^ d ≤ m') :
    tries bit shift m (t + 1) d a = tries bit shift m' (t' + 1) d a := by
  cases hdes : descend bit d a with
  | none =>
    rw [tries_add_one, tries_add_one, hdes]
    rfl
  | some p =>
    obtain ⟨d', a'⟩ := p
    obtain ⟨hd₁, hd₂⟩ := descend_le bit hd hdes
    have hlt := (readNum_one_bounds bit shift hd₁ (a' + shift)).2
    have hpow : 2 ^ d' ≤ 2 ^ d := Nat.pow_le_pow_right (by omega) hd₂
    rw [tries_of_descend_some bit shift hdes, tries_of_descend_some bit shift hdes,
      if_pos (by omega), if_pos (by omega)]

/-- `m = 2^d` のとき、深さ `d + 1` から始めた `m + 1` の計算は、`m` を返すか、`m` の計算が
出発点 `(d, d)` から返す値を返す。 -/
theorem tries_pow_succ {d t a v : ℕ} (hd : 1 ≤ d)
    (h : tries bit shift (2 ^ d + 1) t (d + 1) a = some v) :
    v = 2 ^ d ∨ tries bit shift (2 ^ d) 1 d d = some v := by
  induction t generalizing a with
  | zero => cases h
  | succ t ih =>
    cases hb : bit a with
    | false =>
      -- `0` のビットで `(d, d)` に下りる：そこからは `m` の計算と同じ
      have hstep : tries bit shift (2 ^ d + 1) (t + 1) (d + 1) a =
          tries bit shift (2 ^ d + 1) (t + 1) d d := by
        rw [tries_add_one, tries_add_one, descend_of_not_bit bit hb (by omega), Nat.add_sub_cancel]
      rw [hstep, tries_of_pow_le bit shift t 0 hd (by omega) (le_refl (2 ^ d))] at h
      exact Or.inr h
    | true =>
      -- 上半分の候補 `num ∈ [2^d, 2^(d+1))` は、`2^d` でなければ捨てられる
      rw [tries_of_descend_some bit shift (descend_of_bit bit hb)] at h
      simp only [Nat.add_sub_cancel] at h
      have hb₁ := (readNum_one_bounds bit shift (d := d + 1) (by omega) (a + shift)).1
      simp only [Nat.add_sub_cancel] at hb₁
      split at h
      · rw [Option.some.injEq] at h
        exact Or.inl (by omega)
      · exact ih h

/-! ## 箱を一つ増やす -/

/-- 深さの変わり方：`m < 2^d` なら `m + 1` の深さも `d`、`m = 2^d` なら `d + 1`。 -/
theorem clog_succ_of_lt {m : ℕ} (h : m < 2 ^ Nat.clog 2 m) : Nat.clog 2 (m + 1) = Nat.clog 2 m :=
  le_antisymm ((Nat.clog_le_iff_le_pow (by decide)).mpr h) (Nat.clog_mono_right 2 (by omega))

theorem clog_succ_pow (d : ℕ) : Nat.clog 2 (2 ^ d + 1) = d + 1 := by
  have h₁ : d < Nat.clog 2 (2 ^ d + 1) := (Nat.lt_clog_iff_pow_lt (by decide)).mpr (by omega)
  have h₂ : Nat.clog 2 (2 ^ d + 1) ≤ d + 1 :=
    (Nat.clog_le_iff_le_pow (by decide)).mpr (by
      rw [Nat.pow_succ]; have := Nat.one_le_two_pow (n := d); omega)
  omega

theorem hashOf_lt {m : ℕ} (hm : 2 ≤ m) (t : ℕ) : hashOf bit shift m t < m := by
  rw [hashOf_of_two_le bit shift hm]
  cases h : tries bit shift m t (Nat.clog 2 m) (Nat.clog 2 m) with
  | none => simp only [Option.getD_none]; omega
  | some v => exact tries_lt bit shift (by omega) h

/-- 箱を `m` から `m + 1` に増やしても、`m + 1` の計算が試行を使い切らなければ、値は変わらないか
新しい箱 `m` に移るだけ。 -/
theorem hashOf_succ {m t : ℕ} (hm : 2 ≤ m)
    (hne : tries bit shift (m + 1) t (Nat.clog 2 (m + 1)) (Nat.clog 2 (m + 1)) ≠ none) :
    hashOf bit shift (m + 1) t = hashOf bit shift m t ∨ hashOf bit shift (m + 1) t = m := by
  obtain ⟨v, hv⟩ := Option.ne_none_iff_exists'.mp hne
  have hD : 1 ≤ Nat.clog 2 m := Nat.clog_pos (b := 2) (by decide) (by omega)
  have hval : hashOf bit shift (m + 1) t = v := by
    rw [hashOf_of_two_le bit shift (by omega), hv, Option.getD_some]
  rw [hval, hashOf_of_two_le bit shift hm]
  rcases (Nat.le_pow_clog (b := 2) (by decide) m).lt_or_eq with hlt | heq
  · -- 深さが変わらない
    rw [clog_succ_of_lt hlt] at hv
    rcases tries_succ bit shift hv with h | h
    · exact Or.inr h
    · rw [h]; exact Or.inl rfl
  · -- `m = 2^d`：`m + 1` は一段深く始まる
    obtain ⟨t', rfl⟩ : ∃ t', t = t' + 1 := by
      cases t with
      | zero => cases hv
      | succ t' => exact ⟨t', rfl⟩
    generalize hD' : Nat.clog 2 m = D at hD heq ⊢
    rw [heq, clog_succ_pow] at hv
    rcases tries_pow_succ bit shift hD hv with h | h
    · exact Or.inr (by omega)
    · left
      rw [heq, tries_of_pow_le bit shift t' 0 hD (le_refl (2 ^ D)) (le_refl (2 ^ D)), h]
      rfl

end Infra.ConsistentHash
