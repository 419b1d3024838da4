import Hhvm.Util.Conv10
import Hhvm.Util.Hash
import Hhvm.Infra.Decimal

/-!
# 整数の文字列

`conv_10` が書く文字列と、`is_strictly_integer` が整数として読む文字列は、どちらも整数の
10 進表記 `decimalText` で、互いに逆になっている。

* `decimalText n` は Lean の `toString n` の byte 列（`decimalText_eq_toString`）。
* `conv10 n = decimalText n.toInt`（`conv10_eq`）。負の数の絶対値を `-(num + 1) + 1` で求めるので、
  `INT64_MIN` でも正しい（`toNat_magnitude_neg`）。
* `isStrictlyInteger` は `decimalText n.toInt` を `n` と読み（`isStrictlyInteger_decimalText`）、
  整数と読むのはその形の列だけ（`eq_decimalText_of_isStrictlyInteger`）。
-/

namespace Hhvm

open Infra.Decimal

/-- 整数 `n` の 10 進表記。負なら `'-'`、続いて絶対値の数字。 -/
def decimalText (n : Int) : List UInt8 := (if n < 0 then [0x2d] else []) ++ digits n.natAbs

/-- `decimalText` は Lean 自身の整数の表記と同じ。 -/
theorem decimalText_eq_toString (n : Int) :
    decimalText n = (toString n).toList.map Char.toUInt8 := by
  have h : (toString n).toList = (if n < 0 then ['-'] else []) ++ Nat.toDigits 10 n.natAbs := by
    rcases n with n | n
    · simp [Int.repr, Nat.repr]
    · simp [Int.repr, Nat.repr]
  rw [h, List.map_append, decimalText, digits]
  split <;> rfl

theorem decimalText_zero : decimalText 0 = [0x30] := by
  rw [decimalText, if_neg (by decide), Int.natAbs_zero, digits_of_lt (by decide)]
  rfl

/-! ## `int64_t` の絶対値 -/

section Int64

theorem toInt_eq_cond (n : Int64) :
    n.toInt = if 2 * n.toUInt64.toNat < 2 ^ 64 then (n.toUInt64.toNat : Int)
      else (n.toUInt64.toNat : Int) - 2 ^ 64 := by
  rw [Int64.toInt, BitVec.toInt_eq_toNat_cond, Int64.toNat_toBitVec]
  simp only [Nat.cast_pow, Nat.cast_ofNat]

theorem lt_zero_iff_toInt (n : Int64) : n < 0 ↔ n.toInt < 0 := by
  rw [Int64.lt_iff_toInt_lt]
  rfl

theorem natAbs_toInt_le (n : Int64) : n.toInt.natAbs ≤ 2 ^ 63 := by
  have h1 := Int64.le_toInt n
  have h2 := Int64.toInt_lt n
  omega

/-- `-(num + 1) + 1` は、`INT64_MIN` でも `num` の絶対値。 -/
theorem toNat_magnitude_neg (n : Int64) (h : n.toInt < 0) :
    ((-(n + 1)).toUInt64 + 1).toNat = n.toInt.natAbs := by
  have e : (-(n + 1)).toUInt64 + 1 = -n.toUInt64 := by
    rw [Int64.toUInt64_neg, Int64.toUInt64_add]
    show -(n.toUInt64 + 1) + 1 = -n.toUInt64
    grind
  rw [e, UInt64.toNat_neg]
  have hc := toInt_eq_cond n
  have hlt := n.toUInt64.toNat_lt
  split_ifs at hc with h2
  · omega
  · simp only [UInt64.size]
    omega

theorem toNat_toUInt64_of_nonneg (n : Int64) (h : 0 ≤ n.toInt) :
    n.toUInt64.toNat = n.toInt.natAbs := by
  have hc := toInt_eq_cond n
  have hlt := n.toUInt64.toNat_lt
  split_ifs at hc with h2 <;> omega

/-- `(long long)num`。 -/
theorem toInt_toInt64_of_lt (r : UInt64) (h : r.toNat < 2 ^ 63) : r.toInt64.toInt = r.toNat := by
  rw [toInt_eq_cond, UInt64.toUInt64_toInt64, if_pos (by omega)]

/-- `0 - num`。`num = 2^63` は `INT64_MIN` になる。 -/
theorem toInt_toInt64_zero_sub (r : UInt64) (h : r.toNat ≤ 2 ^ 63) :
    (0 - r).toInt64.toInt = -r.toNat := by
  rw [toInt_eq_cond, UInt64.toUInt64_toInt64, UInt64.zero_sub, UInt64.toNat_neg]
  simp only [UInt64.size]
  split_ifs <;> omega

end Int64

/-! ## `conv_10` -/

theorem digitByte (m : UInt64) :
    ((m % 10).toUInt32 + 0x30).toUInt8 = UInt8.ofNat (0x30 + m.toNat % 10) := by
  apply UInt8.toNat_inj.mp
  have h := Nat.mod_lt m.toNat (show 0 < 10 by decide)
  rw [UInt8.toNat_ofNat_of_lt' (by rw [UInt8.size]; omega)]
  simp only [UInt32.toNat_toUInt8, UInt32.toNat_add, UInt64.toNat_toUInt32, UInt64.toNat_mod]
  simp
  omega

theorem toNat_div_ten (m : UInt64) : (m / 10).toNat = m.toNat / 10 := UInt64.toNat_div m 10

/-- 下の桁から前へ書く loop は、`magnitude` の表記を `acc` の前に置く。 -/
theorem conv10Loop_eq (m : UInt64) (acc : List UInt8) :
    conv10Loop m acc = digits m.toNat ++ acc := by
  fun_induction conv10Loop m acc with
  | case1 m acc q r acc' hq ih =>
    -- 商が残る：上の桁は再帰が書き、この桁は `acc` の先頭に付く
    have hm : 10 ≤ m.toNat := by
      have : (m / 10).toNat ≠ 0 := fun h => hq (UInt64.toNat_inj.mp h)
      rw [toNat_div_ten] at this
      omega
    rw [ih, digits_of_le hm, List.append_assoc, show q.toNat = m.toNat / 10 from toNat_div_ten m,
      ← digitByte]
    rfl
  | case2 m acc q r acc' hq =>
    have hm : m.toNat < 10 := by
      have h0 : m / 10 = 0 := not_not.mp hq
      have : (m / 10).toNat = 0 := by rw [h0]; rfl
      rw [toNat_div_ten] at this
      omega
    have hr := digitByte m
    rw [Nat.mod_eq_of_lt hm] at hr
    rw [digits_of_lt hm, ← hr]
    rfl

theorem conv10_eq (n : Int64) : conv10 n = decimalText n.toInt := by
  by_cases h : n < 0
  · have h' := (lt_zero_iff_toInt n).mp h
    simp only [conv10, if_pos h]
    rw [conv10Loop_eq, List.append_nil, toNat_magnitude_neg n h', decimalText, if_pos h']
    rfl
  · have h' : 0 ≤ n.toInt := by
      rw [lt_zero_iff_toInt] at h
      omega
    simp only [conv10, if_neg h]
    rw [conv10Loop_eq, List.append_nil, toNat_toUInt64_of_nonneg n h', decimalText,
      if_neg (by omega)]
    rfl

/-- `INT64_MIN` の `"-9223372036854775808"` が一番長い。 -/
theorem length_conv10_le (n : Int64) : (conv10 n).length ≤ 20 := by
  have habs := natAbs_toInt_le n
  have hd := length_digits_le (k := 19) (by decide) (show n.toInt.natAbs < 10 ^ 19 by omega)
  rw [conv10_eq, decimalText, List.length_append]
  split <;> simp only [List.length_cons, List.length_nil] <;> omega

/-! ## `is_strictly_integer` -/

theorem getD_zero_eq_headD (l : List UInt8) : l.getD 0 0 = l.headD 0 := by
  cases l <;> rfl

/-- `'0' <= c && c <= '9'`。 -/
theorem digitTest_iff (c : UInt8) : (0x30 ≤ c ∧ c ≤ 0x39) ↔ IsDigit c := by
  unfold IsDigit
  rw [UInt8.le_iff_toNat_le, UInt8.le_iff_toNat_le]
  rfl

theorem toNat_digitValue {c : UInt8} (h : IsDigit c) : (c - 0x30).toUInt64.toNat = c.toNat - 0x30 := by
  unfold IsDigit at h
  rw [UInt8.toNat_toUInt64, UInt8.toNat_sub]
  simp only [UInt8.reduceToNat]
  omega

/-- 数字で始まる列は、最初の `'-'..'9'` の検査を通る。 -/
theorem signTest_of_isDigit {c : UInt8} (h : IsDigit c) : ¬(c - 0x2d > 0x39 - 0x2d) := by
  unfold IsDigit at h
  rw [gt_iff_lt, UInt8.lt_iff_toNat_lt, UInt8.toNat_sub, UInt8.toNat_sub]
  simp only [UInt8.reduceToNat]
  omega

theorem ne_minus_of_isDigit {c : UInt8} (h : IsDigit c) : c ≠ 0x2d := by
  unfold IsDigit at h
  intro hc
  rw [hc] at h
  exact absurd h.1 (by decide)

/-- 数字の列を最後まで読めたなら、どれも数字。 -/
theorem isDigit_of_strictDigits {l : List UInt8} {acc r : UInt64} (h : strictDigits l acc = some r) :
    ∀ c ∈ l, IsDigit c := by
  induction l generalizing acc with
  | nil => simp
  | cons c l ih =>
    rw [strictDigits] at h
    split_ifs at h with hc
    intro x hx
    rcases List.mem_cons.mp hx with rfl | hx
    · exact (digitTest_iff x).mp hc
    · exact ih h x hx

/-- 値が `uint64_t` に収まる数字の列なら、`strictDigits` はその値を返す。 -/
theorem strictDigits_eq_some {l : List UInt8} (hd : ∀ c ∈ l, IsDigit c) {acc : UInt64}
    (h : value l acc.toNat < 2 ^ 64) : strictDigits l acc = some (UInt64.ofNat (value l acc.toNat)) := by
  induction l generalizing acc with
  | nil => rw [strictDigits, value, List.foldl_nil, UInt64.ofNat_toNat]
  | cons c l ih =>
    have hc := hd c List.mem_cons_self
    rw [value_cons] at h ⊢
    -- 途中の値は最後の値以下なので、`10 * num + d` は桁あふれしない
    have hstep : (10 * acc + (c - 0x30).toUInt64).toNat = acc.toNat * 10 + (c.toNat - 0x30) := by
      have hle := le_value l (acc.toNat * 10 + (c.toNat - 0x30))
      rw [UInt64.toNat_add, UInt64.toNat_mul, toNat_digitValue hc]
      simp only [UInt64.reduceToNat]
      rw [Nat.mod_eq_of_lt (by omega), Nat.mod_eq_of_lt (by omega)]
      omega
    rw [strictDigits, if_pos ((digitTest_iff c).mpr hc), ← hstep]
    refine ih (fun x hx => hd x (List.mem_cons_of_mem _ hx)) ?_
    rw [hstep]
    exact h

/-- 表記を読むと元の数。 -/
theorem strictDigits_digits {k : Nat} (hk : k < 2 ^ 64) :
    strictDigits (digits k) 0 = some (UInt64.ofNat k) := by
  have hv : value (digits k) (0 : UInt64).toNat = k := by
    rw [value_digits, UInt64.toNat_zero, Nat.mul_zero, Nat.zero_add]
  rw [strictDigits_eq_some (fun c hc => isDigit_of_mem_digits hc) (by rw [hv]; exact hk), hv]

/-- `'0'` で始まらない 19 桁以下の数字の列を読んだ値は、0 でなく、その表記が元の列。 -/
theorem strictDigits_canonical {l : List UInt8} {r : UInt64} (hne : l ≠ []) (h0 : l.headD 0 ≠ 0x30)
    (hlen : l.length ≤ 19) (h : strictDigits l 0 = some r) : r.toNat ≠ 0 ∧ digits r.toNat = l := by
  have hd := isDigit_of_strictDigits h
  have hv : value l 0 < 10 ^ 19 := by
    have := value_lt l hd 0
    have := Nat.pow_le_pow_right (show 0 < 10 by decide) hlen
    omega
  rw [strictDigits_eq_some hd (by rw [UInt64.toNat_zero]; omega), UInt64.toNat_zero] at h
  have hr : r.toNat = value l 0 := by
    rw [← Option.some_inj.mp h]
    exact UInt64.toNat_ofNat_of_lt' (by rw [UInt64.size]; omega)
  have hdig : digits r.toNat = l := by
    rw [hr]
    exact digits_value l hne hd (fun _ => h0)
  refine ⟨fun hz => h0 ?_, hdig⟩
  rw [← hdig, hz, digits_of_lt (by decide)]
  rfl

/-- `strictResult` の仕様：`2^63` 未満は正で、`'-'` の付いたものは `2^63` まで。 -/
theorem strictResult_eq_some (neg : Bool) (r : UInt64) (n : Int64) :
    strictResult neg r = some n ↔
      (r.toNat < 2 ^ 63 ∨ neg = true ∧ r.toNat = 2 ^ 63) ∧
        n = if neg then (0 - r).toInt64 else r.toInt64 := by
  have hc : (r ≤ 0x7FFFFFFFFFFFFFFF ∨ (neg = true ∧ r = 0x8000000000000000)) ↔
      (r.toNat < 2 ^ 63 ∨ neg = true ∧ r.toNat = 2 ^ 63) := by
    rw [UInt64.le_iff_toNat_le, ← UInt64.toNat_inj]
    simp only [UInt64.reduceToNat]
    constructor
    · rintro (h | ⟨hn, h⟩)
      · exact Or.inl (by omega)
      · exact Or.inr ⟨hn, h⟩
    · rintro (h | ⟨hn, h⟩)
      · exact Or.inl (by omega)
      · exact Or.inr ⟨hn, h⟩
  unfold strictResult
  by_cases h : r ≤ 0x7FFFFFFFFFFFFFFF ∨ (neg = true ∧ r = 0x8000000000000000)
  · rw [if_pos h, Option.some_inj, eq_comm]
    exact ⟨fun e => ⟨hc.mp h, e⟩, fun e => e.2⟩
  · rw [if_neg h]
    exact ⟨fun e => absurd e (by simp), fun e => absurd (hc.mpr e.1) h⟩

/-- 正の数の表記は、`strictDigits` の枝で読まれる。 -/
theorem isStrictlyInteger_digits {l : List UInt8} (hne : l ≠ []) (hd : ∀ c ∈ l, IsDigit c)
    (h0 : l.headD 0 ≠ 0x30) (hlen : l.length ≤ 19) :
    isStrictlyInteger l = (strictDigits l 0).bind (strictResult false) := by
  rcases l with _ | ⟨c, t⟩
  · exact absurd rfl hne
  · have hc := hd c List.mem_cons_self
    simp only [isStrictlyInteger, List.getD_cons_zero]
    rw [if_neg (signTest_of_isDigit hc), if_pos (Or.inl hlen), if_neg (ne_minus_of_isDigit hc),
      if_neg (show c ≠ 0x30 from h0)]

/-- `'-'` に続く表記は、`'-'` を除いて `strictDigits` の枝で読まれる。 -/
theorem isStrictlyInteger_minus {l : List UInt8} (hne : l ≠ []) (h0 : l.headD 0 ≠ 0x30)
    (hlen : l.length ≤ 19) :
    isStrictlyInteger (0x2d :: l) = (strictDigits l 0).bind (strictResult true) := by
  have hpos := List.length_pos_iff.mpr hne
  simp only [isStrictlyInteger, List.getD_cons_zero, List.getD_cons_succ, List.length_cons,
    List.drop_succ_cons, List.drop_zero, true_and, if_true]
  rw [if_neg (by decide), if_pos (by omega), if_neg (by omega), getD_zero_eq_headD, if_neg h0]

/-- 整数の表記は、その整数と読まれる。 -/
theorem isStrictlyInteger_decimalText (n : Int64) : isStrictlyInteger (decimalText n.toInt) = some n := by
  have habs := natAbs_toInt_le n
  have hk : n.toInt.natAbs < 2 ^ 64 := by omega
  have hlen := length_digits_le (k := 19) (by decide) (show n.toInt.natAbs < 10 ^ 19 by omega)
  have hd : ∀ c ∈ digits n.toInt.natAbs, IsDigit c := fun c hc => isDigit_of_mem_digits hc
  have hr : (UInt64.ofNat n.toInt.natAbs).toNat = n.toInt.natAbs :=
    UInt64.toNat_ofNat_of_lt' (by rw [UInt64.size]; omega)
  rcases Int.lt_trichotomy n.toInt 0 with hneg | hzero | hpos
  · -- 負：`'-'` の枝で、`0 - num` が元の数
    have h0 := headD_digits_ne_zero (show n.toInt.natAbs ≠ 0 by omega)
    rw [decimalText, if_pos hneg, List.singleton_append,
      isStrictlyInteger_minus (digits_ne_nil _) h0 hlen, strictDigits_digits hk, Option.bind_some,
      strictResult_eq_some, hr]
    refine ⟨?_, ?_⟩
    · rcases Nat.lt_or_ge n.toInt.natAbs (2 ^ 63) with h | h
      · exact Or.inl (by omega)
      · exact Or.inr ⟨rfl, by omega⟩
    · apply Int64.toInt_inj.mp
      rw [if_pos rfl, toInt_toInt64_zero_sub _ (by omega), hr]
      omega
  · -- 零：`"0"` は一桁だけ許される
    have hn : n = 0 := Int64.toInt_inj.mp hzero
    rw [hzero, decimalText_zero, hn]
    decide
  · -- 正：`strictDigits` の枝で、`(long long)num` が元の数
    have hup := Int64.toInt_lt n
    have h0 := headD_digits_ne_zero (show n.toInt.natAbs ≠ 0 by omega)
    rw [decimalText, if_neg (by omega), List.nil_append,
      isStrictlyInteger_digits (digits_ne_nil _) hd h0 hlen, strictDigits_digits hk, Option.bind_some,
      strictResult_eq_some, hr]
    refine ⟨Or.inl (by omega), ?_⟩
    apply Int64.toInt_inj.mp
    rw [if_neg (by decide), toInt_toInt64_of_lt _ (by rw [hr]; omega), hr]
    omega

/-- `'-'` の枝で読めた列は、その値の負の数の表記。 -/
theorem eq_decimalText_of_minus {l : List UInt8} {n : Int64} (hne : l ≠ []) (h0 : l.headD 0 ≠ 0x30)
    (hlen : l.length ≤ 19) (h : (strictDigits l 0).bind (strictResult true) = some n) :
    0x2d :: l = decimalText n.toInt := by
  obtain ⟨r, hr, hres⟩ := Option.bind_eq_some_iff.mp h
  obtain ⟨hr0, hdig⟩ := strictDigits_canonical hne h0 hlen hr
  obtain ⟨hbound, rfl⟩ := (strictResult_eq_some true r n).mp hres
  have hle : r.toNat ≤ 2 ^ 63 := by omega
  rw [if_pos rfl, toInt_toInt64_zero_sub r hle, decimalText, if_pos (by omega), Int.natAbs_neg,
    Int.natAbs_natCast, hdig]
  rfl

/-- `strictDigits` の枝で読めた列は、その値の表記。 -/
theorem eq_decimalText_of_plain {l : List UInt8} {n : Int64} (hne : l ≠ []) (h0 : l.headD 0 ≠ 0x30)
    (hlen : l.length ≤ 19) (h : (strictDigits l 0).bind (strictResult false) = some n) :
    l = decimalText n.toInt := by
  obtain ⟨r, hr, hres⟩ := Option.bind_eq_some_iff.mp h
  obtain ⟨-, hdig⟩ := strictDigits_canonical hne h0 hlen hr
  obtain ⟨hbound, rfl⟩ := (strictResult_eq_some false r n).mp hres
  have hlt : r.toNat < 2 ^ 63 := by simpa using hbound
  rw [if_neg (by decide), toInt_toInt64_of_lt r hlt, decimalText, if_neg (by omega),
    Int.natAbs_natCast, hdig]
  rfl

/-- 整数と読まれる列は、その整数の表記だけ。 -/
theorem eq_decimalText_of_isStrictlyInteger {s : List UInt8} {n : Int64}
    (h : isStrictlyInteger s = some n) : s = decimalText n.toInt := by
  rcases s with _ | ⟨c, t⟩
  · -- 空の列は最初の検査で落ちる
    have hnil : isStrictlyInteger [] = none := by decide
    rw [hnil] at h
    cases h
  · simp only [isStrictlyInteger, List.getD_cons_zero, List.getD_cons_succ, List.length_cons,
      List.drop_succ_cons, List.drop_zero] at h
    split_ifs at h with hsign hlen hm h1 h0 hz h1'
    · -- `'-'` の枝
      subst hm
      have hne : t ≠ [] := fun ht => h1 (by rw [ht]; rfl)
      rw [getD_zero_eq_headD] at h0
      exact eq_decimalText_of_minus hne h0 (by omega) h
    · -- `"0"`
      rw [Option.some_inj] at h
      subst h
      have ht : t = [] := List.length_eq_zero_iff.mp (by omega)
      rw [hz, ht]
      decide
    · -- 数字で始まる枝：`'-'` でないので 19 byte 以下
      have hlen' : (c :: t).length ≤ 19 := by
        rcases hlen with hlen | ⟨hc, -⟩
        · exact hlen
        · exact absurd hc hm
      exact eq_decimalText_of_plain (List.cons_ne_nil _ _) hz hlen' h

/-! ## 往復 -/

/-- `conv_10` は整数の標準の 10 進表記を 20 byte 以下で書き、`is_strictly_integer` はそれを元の
整数と読む。逆に、整数と読まれる列はその整数の `conv_10` だけ。 -/
theorem conv10_isStrictlyInteger_inverse :
    (∀ n : Int64, conv10 n = (toString n.toInt).toList.map Char.toUInt8 ∧
        (conv10 n).length ≤ 20 ∧ isStrictlyInteger (conv10 n) = some n) ∧
      ∀ (s : List UInt8) (n : Int64), isStrictlyInteger s = some n → s = conv10 n := by
  refine ⟨fun n => ⟨?_, length_conv10_le n, ?_⟩, fun s n h => ?_⟩
  · rw [conv10_eq, decimalText_eq_toString]
  · rw [conv10_eq]
    exact isStrictlyInteger_decimalText n
  · rw [conv10_eq]
    exact eq_decimalText_of_isStrictlyInteger h

/-- `"-42"` は厳密な整数の文字列で、`conv10(-42)` が書く文字列そのもの。 -/
theorem conv10_isStrictlyInteger_neg42 :
    isStrictlyInteger [45, 52, 50] = some (-42) ∧ [45, 52, 50] = conv10 (-42) ∧
      (conv10 (-42)).length ≤ 20 ∧ isStrictlyInteger (conv10 (-42)) = some (-42) := by
  obtain ⟨hconv, hstrict⟩ := conv10_isStrictlyInteger_inverse
  have hs : isStrictlyInteger [45, 52, 50] = some (-42) := by decide
  exact ⟨hs, hstrict _ _ hs, (hconv (-42)).2⟩

end Hhvm
