import Mathlib.Data.Nat.Bitwise

/-!
# UTF-8 の一文字の読み書き：ICU の二つの macro

`string_html_encode_extra` は ICU の `utf8.h` の二つの macro で UTF-8 を読み書きする。ICU は
このリポジトリの外にあるので、二つは `U8Macros` の場として引数にとり、ICU の文書が述べる
ことだけを `U8Macros.Documented` として仮定する。

* `U8_NEXT(s, i, length, c)`：位置 `i` から code point を一つ読み、次の code point の境界まで
  `i` を進める。多 byte の並びの先頭を指していれば並びの全体を読み、続きの byte や不正な並びを
  指していれば `c` に負の値（ここでは `none`）を入れる。`i < length` なら `i` は少なくとも 1、
  多くとも `length` まで進む。ループが止まるのはこれによるので、この性質は構造の場に置く。
* `U8_APPEND_UNSAFE(s, i, c)`：code point を一つ、1 から 4 byte の UTF-8 で書く。

Unicode の scalar value は Lean の `Char` そのもので、その UTF-8 の並びは core の
`String.utf8EncodeChar` である。

後半では、ICU 60 以降の表引きの実装を写した `tableNext`・`tableAppend` が仮定を満たすことを
示す（`tableMacros_documented`）。仮定は矛盾せず、定理を具体的な入力で確かめるときの
実例になる。
-/

namespace Infra.Utf8

/-! ## 二つの macro と、ICU の文書が述べること -/

/-- `U8_NEXT` と `U8_APPEND_UNSAFE`。 -/
structure U8Macros where
  /-- `U8_NEXT`：読んだ code point（`c < 0` なら `none`）と、進めた byte 数。 -/
  next : List UInt8 → Option Nat × Nat
  /-- `U8_APPEND_UNSAFE`：code point を書いた byte 列。 -/
  appendUnsafe : Nat → List UInt8
  /-- `i < length` なら、少なくとも 1 byte、多くとも残りの byte 数だけ進む。 -/
  next_snd_pos_le : ∀ bs : List UInt8, bs ≠ [] → 1 ≤ (next bs).2 ∧ (next bs).2 ≤ bs.length

/-- ICU の文書が二つの macro について述べること。 -/
structure U8Macros.Documented (u : U8Macros) : Prop where
  /-- 正しい並びの先頭を指していれば、その code point を読み、並びの全体だけ進む。 -/
  next_utf8EncodeChar : ∀ (c : Char) (rest : List UInt8),
    u.next (String.utf8EncodeChar c ++ rest) = (some c.toNat, c.utf8Size)
  /-- 読めた値は code point で 21 bit に収まり、1 byte で読めるのは ASCII だけ。 -/
  next_fst_lt : ∀ {bs : List UInt8} {v : Nat}, (u.next bs).1 = some v →
    v < 2 ^ 21 ∧ ((u.next bs).2 = 1 → v < 0x80)
  /-- `Char` の値を書けば、その UTF-8 の並び。 -/
  appendUnsafe_toNat : ∀ c : Char, u.appendUnsafe c.toNat = String.utf8EncodeChar c
  /-- 書くのは 1 から 4 byte。 -/
  appendUnsafe_length_le : ∀ uc : Nat, (u.appendUnsafe uc).length ≤ 4

/-! # 表引きの実装 -/

/-! ## 定義 -/

/-- `U8_IS_SINGLE(c)`：上の bit が立っていない 1 byte の文字。 -/
def isSingle (c : Nat) : Bool := c &&& 0x80 = 0

/-- `U8_LEAD3_T1_BITS`：3 byte の先頭の下 4 bit ごとに、二つ目の byte の上 3 bit として
許される値の集合。`E0` は `A0..BF`、`ED` は `80..9F`（サロゲートを除く）、他は `80..BF`。 -/
def lead3T1Bits : List Nat :=
  [0x20, 0x30, 0x30, 0x30, 0x30, 0x30, 0x30, 0x30, 0x30, 0x30, 0x30, 0x30, 0x30, 0x10, 0x30, 0x30]

/-- `U8_LEAD4_T1_BITS`：二つ目の byte の上 4 bit ごとに、4 byte の先頭の下 3 bit として許される
値の集合。`F0` は `90..BF`、`F4` は `80..8F`。 -/
def lead4T1Bits : List Nat :=
  [0x00, 0x00, 0x00, 0x00, 0x00, 0x00, 0x00, 0x00, 0x1E, 0x0F, 0x0F, 0x0F, 0x00, 0x00, 0x00, 0x00]

/-- `(__t = s[i] - 0x80) <= 0x3f`：`uint8_t` に入れた差が 6 bit に収まれば、続きの byte の値。 -/
def trail (t : UInt8) : Option Nat :=
  if (t - 0x80).toNat ≤ 0x3f then some (t - 0x80).toNat else none

/-- ICU 60 以降の `U8_NEXT` の表引き：code point（不正なら `none`）と、読んだ byte 数。不正な
並びでは、その並びの正しい最長の接頭辞（少なくとも 1 byte）を読み飛ばす。 -/
def tableNext : List UInt8 → Option Nat × Nat
  | [] => (none, 0)
  | b :: s =>
    let c := b.toNat
    if isSingle c then (some c, 1)
    else
      match s with
      | [] => (none, 1)
      | t1 :: s =>
        if 0xe0 ≤ c then
          if c < 0xf0 then
            -- U+0800..U+FFFF（サロゲートを除く）
            if lead3T1Bits.getD (c &&& 0xf) 0 &&& (1 <<< (t1.toNat >>> 5)) ≠ 0 then
              let c := ((c &&& 0xf) <<< 6) ||| (t1.toNat &&& 0x3f)
              match s with
              | [] => (none, 2)
              | t2 :: _ =>
                match trail t2 with
                | some t => (some ((c <<< 6) ||| t), 3)
                | none => (none, 2)
            else (none, 1)
          else
            -- U+10000..U+10FFFF
            if c - 0xf0 ≤ 4 ∧ lead4T1Bits.getD (t1.toNat >>> 4) 0 &&& (1 <<< (c - 0xf0)) ≠ 0 then
              let c := ((c - 0xf0) <<< 6) ||| (t1.toNat &&& 0x3f)
              match s with
              | [] => (none, 2)
              | t2 :: s =>
                match trail t2 with
                | none => (none, 2)
                | some t =>
                  let c := (c <<< 6) ||| t
                  match s with
                  | [] => (none, 3)
                  | t3 :: _ =>
                    match trail t3 with
                    | some t => (some ((c <<< 6) ||| t), 4)
                    | none => (none, 3)
            else (none, 1)
        else if 0xc2 ≤ c then
          -- U+0080..U+07FF
          match trail t1 with
          | some t => (some (((c &&& 0x1f) <<< 6) ||| t), 2)
          | none => (none, 1)
        else (none, 1)

/-- `U8_APPEND_UNSAFE` の写し：code point `uc` を 1 から 4 byte で書く。値の範囲は調べない。 -/
def tableAppend (uc : Nat) : List UInt8 :=
  if uc ≤ 0x7f then [UInt8.ofNat uc]
  else if uc ≤ 0x7ff then
    [UInt8.ofNat ((uc >>> 6) ||| 0xc0), UInt8.ofNat ((uc &&& 0x3f) ||| 0x80)]
  else if uc ≤ 0xffff then
    [UInt8.ofNat ((uc >>> 12) ||| 0xe0), UInt8.ofNat (((uc >>> 6) &&& 0x3f) ||| 0x80),
      UInt8.ofNat ((uc &&& 0x3f) ||| 0x80)]
  else
    [UInt8.ofNat ((uc >>> 18) ||| 0xf0), UInt8.ofNat (((uc >>> 12) &&& 0x3f) ||| 0x80),
      UInt8.ofNat (((uc >>> 6) &&& 0x3f) ||| 0x80), UInt8.ofNat ((uc &&& 0x3f) ||| 0x80)]

/-! ## bit 演算を算術に -/

theorem shiftLeft_six_or {x a : Nat} (ha : a < 64) : (x <<< 6) ||| a = x * 64 + a := by
  have ha' : a < 2 ^ 6 := ha
  calc (x <<< 6) ||| a = 2 ^ 6 * x ||| a := by rw [Nat.shiftLeft_eq, Nat.mul_comm]
    _ = 2 ^ 6 * x + a := (Nat.two_pow_add_eq_or_of_lt ha' x).symm
    _ = x * 64 + a := by omega

theorem or_high_bits {x k : Nat} (i : Nat) (hx : x < 2 ^ i) : x ||| 2 ^ i * k = x + 2 ^ i * k := by
  rw [Nat.or_comm, ← Nat.two_pow_add_eq_or_of_lt hx, Nat.add_comm]

theorem isSingle_iff {c : Nat} (hc : c < 256) : isSingle c = true ↔ c < 0x80 := by
  have h := Nat.and_two_pow c 7
  simp only [isSingle, decide_eq_true_eq]
  rw [show (0x80 : Nat) = 2 ^ 7 from rfl, h, Nat.testBit_eq_decide_div_mod_eq]
  by_cases hb : c / 2 ^ 7 % 2 = 1
  · simp only [hb, decide_true, Bool.toNat_true]
    omega
  · simp only [hb, decide_false, Bool.toNat_false]
    omega

theorem toNat_sub_0x80 (t : UInt8) : (t - 0x80).toNat = (t.toNat + 128) % 256 := by
  have h : (0x80 : UInt8).toNat = 128 := rfl
  rw [UInt8.toNat_sub, h]
  omega

theorem trail_eq_some_iff {t : UInt8} {n : Nat} :
    trail t = some n ↔ 0x80 ≤ t.toNat ∧ t.toNat ≤ 0xbf ∧ n = t.toNat - 0x80 := by
  have ht := t.toNat_lt
  unfold trail
  rw [toNat_sub_0x80]
  split
  · rw [Option.some.injEq]
    omega
  · simp only [reduceCtorEq, false_iff]
    omega

theorem trail_lt {t : UInt8} {n : Nat} (h : trail t = some n) : n < 64 := by
  have := trail_eq_some_iff.mp h
  omega

/-- 表 `U8_LEAD3_T1_BITS` の読み方。 -/
theorem lead3_iff : ∀ i < 16, ∀ j < 8, (lead3T1Bits.getD i 0 &&& (1 <<< j) ≠ 0) ↔
    ((j = 4 ∨ j = 5) ∧ (i = 0 → j = 5) ∧ (i = 13 → j = 4)) := by
  decide

/-- 表 `U8_LEAD4_T1_BITS` の読み方。 -/
theorem lead4_iff : ∀ i < 16, ∀ j < 5, (lead4T1Bits.getD i 0 &&& (1 <<< j) ≠ 0) ↔
    ((8 ≤ i ∧ i ≤ 11) ∧ (j = 0 → 9 ≤ i) ∧ (j = 4 → i = 8)) := by
  decide

theorem and_0x3f (x : Nat) : x &&& 0x3f = x % 64 := Nat.and_two_pow_sub_one_eq_mod x 6

theorem and_0x1f (x : Nat) : x &&& 0x1f = x % 32 := Nat.and_two_pow_sub_one_eq_mod x 5

theorem and_0xf (x : Nat) : x &&& 0xf = x % 16 := Nat.and_two_pow_sub_one_eq_mod x 4

/-! ## 正しい並びの読み方

`U8_NEXT` が正しい並びで通る道の一つずつの式。 -/

section Shapes

variable {b t1 t2 t3 : UInt8} (s : List UInt8)

theorem tableNext_one (hb : b.toNat < 0x80) : tableNext (b :: s) = (some b.toNat, 1) := by
  simp only [tableNext, (isSingle_iff b.toNat_lt).mpr hb, if_true]

theorem tableNext_two {x : Nat} (hb : 0xc2 ≤ b.toNat) (hb' : b.toNat < 0xe0) (ht : trail t1 = some x) :
    tableNext (b :: t1 :: s) = (some ((b.toNat % 32) * 64 + x), 2) := by
  have hs : isSingle b.toNat = false := by
    rw [Bool.eq_false_iff, ne_eq, isSingle_iff b.toNat_lt]
    omega
  simp only [tableNext, hs, Bool.false_eq_true, if_false, if_neg (show ¬0xe0 ≤ b.toNat by omega),
    if_pos hb, ht, and_0x1f, shiftLeft_six_or (trail_lt ht)]

theorem tableNext_three {x : Nat} (hb : 0xe0 ≤ b.toNat) (hb' : b.toNat < 0xf0)
    (ht1 : 0x80 ≤ t1.toNat ∧ t1.toNat ≤ 0xbf) (he0 : b.toNat = 0xe0 → 0xa0 ≤ t1.toNat)
    (hed : b.toNat = 0xed → t1.toNat ≤ 0x9f) (ht2 : trail t2 = some x) :
    tableNext (b :: t1 :: t2 :: s) = (some (((b.toNat % 16) * 64 + t1.toNat % 64) * 64 + x), 3) := by
  have hs : isSingle b.toNat = false := by
    rw [Bool.eq_false_iff, ne_eq, isSingle_iff b.toNat_lt]
    omega
  -- 二つ目の byte の上 3 bit を表で引く
  have hlead : lead3T1Bits.getD (b.toNat % 16) 0 &&& (1 <<< (t1.toNat >>> 5)) ≠ 0 := by
    rw [Nat.shiftRight_eq_div_pow]
    exact (lead3_iff _ (Nat.mod_lt _ (by decide)) _ (by omega)).mpr
      ⟨by omega, fun h => by omega, fun h => by omega⟩
  simp only [tableNext, hs, Bool.false_eq_true, if_false, if_pos hb, if_pos hb', and_0xf, and_0x3f,
    ne_eq, hlead, not_false_eq_true, if_true, ht2,
    @shiftLeft_six_or (b.toNat % 16) (t1.toNat % 64) (Nat.mod_lt _ (by decide)),
    shiftLeft_six_or (trail_lt ht2)]

theorem tableNext_four {x y : Nat} (hb : 0xf0 ≤ b.toNat) (hb' : b.toNat ≤ 0xf4)
    (ht1 : 0x80 ≤ t1.toNat ∧ t1.toNat ≤ 0xbf) (hf0 : b.toNat = 0xf0 → 0x90 ≤ t1.toNat)
    (hf4 : b.toNat = 0xf4 → t1.toNat ≤ 0x8f) (ht2 : trail t2 = some y) (ht3 : trail t3 = some x) :
    tableNext (b :: t1 :: t2 :: t3 :: s) =
      (some ((((b.toNat - 0xf0) * 64 + t1.toNat % 64) * 64 + y) * 64 + x), 4) := by
  have hs : isSingle b.toNat = false := by
    rw [Bool.eq_false_iff, ne_eq, isSingle_iff b.toNat_lt]
    omega
  -- 二つ目の byte の上 4 bit で表を引き、先頭の下 3 bit を調べる
  have hlead : b.toNat - 0xf0 ≤ 4 ∧
      lead4T1Bits.getD (t1.toNat >>> 4) 0 &&& (1 <<< (b.toNat - 0xf0)) ≠ 0 := by
    rw [Nat.shiftRight_eq_div_pow]
    exact ⟨by omega, (lead4_iff _ (by omega) _ (by omega)).mpr
      ⟨by omega, fun h => by omega, fun h => by omega⟩⟩
  simp only [tableNext, hs, Bool.false_eq_true, if_false, if_pos (show 0xe0 ≤ b.toNat by omega),
    if_neg (show ¬b.toNat < 0xf0 by omega),
    and_0x3f, hlead, ne_eq, not_false_eq_true, and_self, if_true, ht2, ht3,
    @shiftLeft_six_or (b.toNat - 0xf0) (t1.toNat % 64) (Nat.mod_lt _ (by decide)),
    shiftLeft_six_or (trail_lt ht2), shiftLeft_six_or (trail_lt ht3)]

end Shapes

/-! ## 正しい並びは読み戻される -/

theorem toNat_ofNat_of_lt {n : Nat} (h : n < 256) : (UInt8.ofNat n).toNat = n := by
  rw [UInt8.toNat_ofNat']
  exact Nat.mod_eq_of_lt h

theorem trail_ofNat {n : Nat} (h : n < 64) : trail (UInt8.ofNat (n + 0x80)) = some n := by
  rw [trail_eq_some_iff, toNat_ofNat_of_lt (by omega)]
  omega

/-- UTF-8 の並びの先頭の byte：ASCII ならその値、そうでなければ `0xC0` 以上。 -/
theorem utf8EncodeChar_head (c : Char) : ∃ b tail, String.utf8EncodeChar c = b :: tail ∧
    (c.toNat < 0x80 → b.toNat = c.toNat) ∧ (0x80 ≤ c.toNat → 0xc0 ≤ b.toNat) := by
  have hv : c.toNat < 0xd800 ∨ (0xdfff < c.toNat ∧ c.toNat < 0x110000) := c.valid
  have hval : c.val.toNat = c.toNat := rfl
  simp only [String.utf8EncodeChar, hval]
  split_ifs with h1 h2 h3
  · exact ⟨_, _, rfl, fun _ => toNat_ofNat_of_lt (by omega), fun h => absurd h (by omega)⟩
  all_goals
    refine ⟨_, _, rfl, fun h => absurd h (by omega), fun _ => ?_⟩
    rw [toNat_ofNat_of_lt (by omega)]
    omega

/-- **`tableNext` は正しい並びの先頭の文字を読み戻し、その長さだけ進む。** -/
theorem tableNext_utf8EncodeChar (c : Char) (rest : List UInt8) :
    tableNext (String.utf8EncodeChar c ++ rest) = (some c.toNat, c.utf8Size) := by
  have hv : c.toNat < 0xd800 ∨ (0xdfff < c.toNat ∧ c.toNat < 0x110000) := c.valid
  have hval : c.val.toNat = c.toNat := rfl
  simp only [String.utf8EncodeChar, hval]
  by_cases h1 : c.toNat ≤ 0x7f
  · -- 1 byte
    have hsize : c.utf8Size = 1 := Char.utf8Size_eq_one_iff.mpr (by
      simp only [UInt32.le_iff_toNat_le, hval]; exact h1)
    rw [if_pos h1, List.cons_append, List.nil_append, tableNext_one rest (by
      rw [toNat_ofNat_of_lt (by omega)]; omega), toNat_ofNat_of_lt (by omega), hsize]
  by_cases h2 : c.toNat ≤ 0x7ff
  · -- 2 byte：先頭は `C2..DF`
    have hsize : c.utf8Size = 2 := Char.utf8Size_eq_two_iff.mpr (by
      simp only [UInt32.le_iff_toNat_le, UInt32.lt_iff_toNat_lt, hval, UInt32.reduceToNat]; omega)
    rw [if_neg h1, if_pos h2, List.cons_append, List.cons_append, List.nil_append,
      tableNext_two rest (by rw [toNat_ofNat_of_lt (by omega)]; omega)
        (by rw [toNat_ofNat_of_lt (by omega)]; omega) (trail_ofNat (Nat.mod_lt _ (by decide))),
      toNat_ofNat_of_lt (by omega), hsize]
    congr 2
    omega
  by_cases h3 : c.toNat ≤ 0xffff
  · -- 3 byte：`E0` の後は `A0..BF`、`ED` の後は `80..9F`
    have hsize : c.utf8Size = 3 := Char.utf8Size_eq_three_iff.mpr (by
      simp only [UInt32.le_iff_toNat_le, UInt32.lt_iff_toNat_lt, hval, UInt32.reduceToNat]; omega)
    rw [if_neg h1, if_neg h2, if_pos h3, List.cons_append, List.cons_append, List.cons_append,
      List.nil_append, tableNext_three rest (by rw [toNat_ofNat_of_lt (by omega)]; omega)
        (by rw [toNat_ofNat_of_lt (by omega)]; omega)
        (by rw [toNat_ofNat_of_lt (by omega)]; omega)
        (by rw [toNat_ofNat_of_lt (by omega), toNat_ofNat_of_lt (by omega)]; omega)
        (by rw [toNat_ofNat_of_lt (by omega), toNat_ofNat_of_lt (by omega)]; omega)
        (trail_ofNat (Nat.mod_lt _ (by decide))),
      toNat_ofNat_of_lt (by omega), toNat_ofNat_of_lt (by omega), hsize]
    congr 2
    omega
  · -- 4 byte：`F0` の後は `90..BF`、`F4` の後は `80..8F`
    have hsize : c.utf8Size = 4 := Char.utf8Size_eq_four_iff.mpr (by
      simp only [UInt32.lt_iff_toNat_lt, hval, UInt32.reduceToNat]; omega)
    rw [if_neg h1, if_neg h2, if_neg h3, List.cons_append, List.cons_append, List.cons_append,
      List.cons_append, List.nil_append, tableNext_four rest (by rw [toNat_ofNat_of_lt (by omega)]; omega)
        (by rw [toNat_ofNat_of_lt (by omega)]; omega)
        (by rw [toNat_ofNat_of_lt (by omega)]; omega)
        (by rw [toNat_ofNat_of_lt (by omega), toNat_ofNat_of_lt (by omega)]; omega)
        (by rw [toNat_ofNat_of_lt (by omega), toNat_ofNat_of_lt (by omega)]; omega)
        (trail_ofNat (Nat.mod_lt _ (by decide))) (trail_ofNat (Nat.mod_lt _ (by decide))),
      toNat_ofNat_of_lt (by omega), toNat_ofNat_of_lt (by omega), hsize]
    congr 2
    omega

/-- `x ||| c` で `c` の bit が `x` より上にあれば、和と同じ。 -/
theorem or_const_eq_add {x c : Nat} (i : Nat) (hx : x < 2 ^ i) (hc : c % 2 ^ i = 0) :
    x ||| c = x + c := by
  obtain ⟨k, rfl⟩ := Nat.dvd_of_mod_eq_zero hc
  exact or_high_bits i hx

theorem or_0x80 {x : Nat} (hx : x < 64) : x ||| 0x80 = x + 0x80 :=
  or_const_eq_add 6 hx (by decide)

/-- **`Char` については `tableAppend` は UTF-8 の並びそのもの。** -/
theorem tableAppend_toNat (c : Char) : tableAppend c.toNat = String.utf8EncodeChar c := by
  have hv : c.toNat < 0xd800 ∨ (0xdfff < c.toNat ∧ c.toNat < 0x110000) := c.valid
  have hval : c.val.toNat = c.toNat := rfl
  simp only [tableAppend, String.utf8EncodeChar, hval, Nat.shiftRight_eq_div_pow, and_0x3f]
  split_ifs with h1 h2 h3
  · rfl
  · -- 2 byte：先頭の `0xc0` も続きの `0x80` も値の bit より上
    rw [or_const_eq_add 6 (by omega) (by decide), or_0x80 (Nat.mod_lt _ (by decide))]
    congr 3
    omega
  · rw [or_const_eq_add 5 (by omega) (by decide), or_0x80 (Nat.mod_lt _ (by decide)),
      or_0x80 (Nat.mod_lt _ (by decide))]
    congr 3
    omega
  · rw [or_const_eq_add 4 (by omega) (by decide), or_0x80 (Nat.mod_lt _ (by decide)),
      or_0x80 (Nat.mod_lt _ (by decide)),
      or_0x80 (Nat.mod_lt _ (by decide))]
    congr 3
    omega

/-! ## 読む長さと値の大きさ -/

/-- `tableNext` は少なくとも 1 byte、多くとも残りの byte 数だけ進む。 -/
theorem tableNext_snd_pos_le {bs : List UInt8} (h : bs ≠ []) :
    1 ≤ (tableNext bs).2 ∧ (tableNext bs).2 ≤ bs.length := by
  obtain ⟨b, s, rfl⟩ := List.exists_cons_of_ne_nil h
  simp only [tableNext]
  repeat' split
  all_goals simp

theorem shiftLeft_six_or_lt {x t k : Nat} (hx : x < 2 ^ k) (ht : t < 64) :
    (x <<< 6) ||| t < 2 ^ (k + 6) := by
  rw [shiftLeft_six_or ht, Nat.pow_add]
  omega

/-- 読んだ値は 21 bit に収まり、1 byte で読んだ値は ASCII。 -/
theorem tableNext_fst_lt {bs : List UInt8} {v : Nat} (h : (tableNext bs).1 = some v) :
    v < 2 ^ 21 ∧ ((tableNext bs).2 = 1 → v < 0x80) := by
  match bs with
  | [] => simp [tableNext] at h
  | b :: s =>
    have hb := b.toNat_lt
    revert h
    simp only [tableNext, isSingle_iff hb]
    repeat' split
    all_goals
      intro h
      simp only [Option.some.injEq, reduceCtorEq] at h
    -- 残るのは読めた道：続きの byte の条件を算術にすると、値は 6 bit ずつ足した数
    all_goals
      subst h
      try simp only [trail_eq_some_iff] at *
      try simp (disch := omega) only [shiftLeft_six_or, and_0x1f, and_0xf, and_0x3f]
      omega

theorem tableAppend_length_le (uc : Nat) : (tableAppend uc).length ≤ 4 := by
  unfold tableAppend
  split_ifs <;> simp

/-- 表引きの実装の二つの macro。 -/
def tableMacros : U8Macros where
  next := tableNext
  appendUnsafe := tableAppend
  next_snd_pos_le _ h := tableNext_snd_pos_le h

/-- **表引きの実装は ICU の文書が述べることを満たす。** -/
theorem tableMacros_documented : tableMacros.Documented where
  next_utf8EncodeChar := tableNext_utf8EncodeChar
  next_fst_lt := tableNext_fst_lt
  appendUnsafe_toNat := tableAppend_toNat
  appendUnsafe_length_le := tableAppend_length_le

end Infra.Utf8
