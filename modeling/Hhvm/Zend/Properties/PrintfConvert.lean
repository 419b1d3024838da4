import Hhvm.Zend.Properties.Printf

/-!
# 一つの変換が書くもの

`appendstring` は、書く文字列・幅・精度・符号の扱いを一つの関数で受ける。ここでは精度のない変換
について、書くものを二つの詰め方で言い直す。

* `padTo`：幅まで詰める。右寄せなら前に、左寄せなら後に詰める（`%s`・`%u`・`%b`・`%o`・`%x`・`%X`）。
* `padSigned`：符号つきの数（`%d`）。`'0'` で右に詰めるとき、符号は詰めた 0 の前に残る。左寄せ
  では `'0'` の代わりに空白で詰める。

数字の列は標準の `Nat.toDigits` で言う。`%d` は `toInt64` の絶対値の 10 進、`%u` は同じ 64 bit を
符号なしとして読んだ値の 10 進、`%b`・`%o`・`%x`・`%X` は 2・8・16 進（`%X` は大文字）。
-/

namespace Hhvm.Zend

/-! ## 詰め方 -/

/-- 幅 `width` まで `padding` で詰める。 -/
def padTo (s : List UInt8) (width : Nat) (padding : UInt8) : Alignment → List UInt8
  | .right => List.replicate (width - s.length) padding ++ s
  | .left => s ++ List.replicate (width - s.length) padding

/-- 符号 `sign` と数字 `digits` を幅 `width` まで詰める。 -/
def padSigned (sign digits : List UInt8) (width : Nat) (padding : UInt8) :
    Alignment → List UInt8
  | .right =>
    if padding = 0x30 then
      sign ++ List.replicate (width - (sign.length + digits.length)) 0x30 ++ digits
    else padTo (sign ++ digits) width padding .right
  | .left => padTo (sign ++ digits) width (if padding = 0x30 then 0x20 else padding) .left

/-! ## `appendstring` -/

section AppendString

variable (add : List UInt8) (width : Nat) (padding : UInt8) (alignment : Alignment)

/-- 符号を書かないとき（左寄せか、符号がないか、`'0'` で詰めないとき）は、先頭の `copy_len` byte
を詰める。 -/
theorem appendstring_plain (maxWidth : Nat) (neg expprec alwaysSign : Bool)
    (h : alignment = .right → ((neg || alwaysSign) && decide (padding = 0x30)) = false) :
    appendstring add width maxWidth padding alignment add.length neg expprec alwaysSign =
      padTo (if expprec then add.take maxWidth else add) width padding alignment := by
  -- `copy_len` は書く部分の長さで、先頭 `copy_len` byte が書く部分そのもの
  have hcopy : (if expprec then (if maxWidth < add.length then maxWidth else add.length)
      else add.length) = (if expprec then add.take maxWidth else add).length := by
    cases expprec with
    | false => rfl
    | true =>
      simp only [if_true, List.length_take]
      split <;> omega
  have htake : add.take (if expprec then add.take maxWidth else add).length =
      if expprec then add.take maxWidth else add := by
    cases expprec <;> simp
  cases alignment with
  | right =>
    simp only [appendstring, h rfl, Bool.false_eq_true, if_false, padTo]
    rw [hcopy, htake]
  | left =>
    simp only [appendstring, padTo]
    rw [hcopy, htake]

/-- 符号で始まる文字列を `'0'` で右に詰めると、符号を先に書き、その後に 0 と残りを書く。 -/
theorem appendstring_signed_zero (sign : UInt8) (digits : List UInt8) (neg alwaysSign : Bool)
    (hs : (neg || alwaysSign) = true) (hsign : sign = if neg then 0x2d else 0x2b) :
    appendstring (sign :: digits) width 0 0x30 .right (digits.length + 1) neg false alwaysSign =
      [sign] ++ List.replicate (width - (digits.length + 1)) 0x30 ++ digits := by
  simp only [appendstring, Bool.false_eq_true, if_false, hs, Bool.true_and, decide_true,
    if_true, List.drop_one, List.tail_cons, Nat.add_sub_cancel, List.take_length, hsign]

end AppendString

/-! ## 数を書く変換 -/

/-- `%d` の符号：負なら `'-'`、`'+'` の指定があれば `'+'`。 -/
def signText (number : Int64) (alwaysSign : Bool) : List UInt8 :=
  if number.toInt < 0 then [0x2d] else if alwaysSign then [0x2b] else []

/-- `%d`：`toInt64` の符号と絶対値の 10 進を、符号つきの数として詰める。 -/
theorem appendint_eq (number : Int64) (width : Nat) (padding : UInt8) (alignment : Alignment)
    (alwaysSign : Bool) :
    appendint number width padding alignment alwaysSign =
      padSigned (signText number alwaysSign) (decimalDigits number.toInt.natAbs) width padding
        alignment := by
  have hsign : (if decide (number.toInt < 0) = true then [0x2d] else if alwaysSign = true then [0x2b]
      else []) = signText number alwaysSign := by
    simp only [signText, decide_eq_true_eq]
  simp only [appendint, hsign]
  cases alignment with
  | left =>
    -- 左寄せは符号を特別に扱わない。`'0'` は空白に替わる
    rw [appendstring_plain _ _ _ .left 0 _ false _ (fun h => nomatch h)]
    simp only [true_and, Bool.false_eq_true, if_false, padSigned]
  | right =>
    simp only [reduceCtorEq, false_and, if_false]
    by_cases hz : ((decide (number.toInt < 0) || alwaysSign) && decide (padding = 0x30)) = true
    · -- 符号があり `'0'` で詰める：符号を先に書く
      obtain ⟨hs, hp⟩ : (decide (number.toInt < 0) || alwaysSign) = true ∧ padding = 0x30 := by
        simpa using hz
      have hone : signText number alwaysSign =
          [if decide (number.toInt < 0) then 0x2d else 0x2b] := by
        by_cases hn : number.toInt < 0
        · simp [signText, hn]
        · simp only [hn, decide_false, Bool.false_or] at hs
          simp [signText, hn, hs]
      subst hp
      rw [hone, List.singleton_append, List.length_cons,
        appendstring_signed_zero _ _ _ _ _ hs rfl]
      simp only [padSigned, if_true, List.length_singleton, Nat.add_comm 1]
    · rw [appendstring_plain _ _ _ .right 0 _ false _ (fun _ => eq_false_of_ne_true hz)]
      simp only [padSigned, Bool.false_eq_true, if_false]
      split_ifs with hp
      · -- 符号がないので、0 を前に詰めるだけ
        have hnone : signText number alwaysSign = [] := by
          subst hp
          simp only [decide_true, Bool.and_true, Bool.or_eq_true, decide_eq_true_eq,
            not_or] at hz
          simp [signText, hz.1, hz.2]
        simp [padTo, hnone, hp]
      · rfl

/-- `%u`：同じ 64 bit を符号なしとして読んだ値の 10 進。左寄せでは `'0'` の代わりに空白で詰める。 -/
theorem appenduint_eq (number : Int64) (width : Nat) (padding : UInt8) (alignment : Alignment) :
    appenduint number width padding alignment =
      padTo (decimalDigits number.toUInt64.toNat) width
        (if alignment = .left ∧ padding = 0x30 then 0x20 else padding) alignment := by
  simp only [appenduint]
  rw [appendstring_plain _ _ _ _ 0 false false false (fun _ => rfl)]
  rfl

/-! ## 2 の冪の進法 -/

section Digits2n

variable (n : Nat) (hn : 0 < n) (chartable : List UInt8) (g : Char → UInt8)

/-- `chartable` の `d` 番目が `d` の数字 `Nat.digitChar d` を `g` で写したものなら、`digits2n` は
`2 ^ n` 進の `Nat.toDigits` を `g` で写したもの。 -/
theorem digits2n_eq_toDigits (hg : ∀ d < 2 ^ n, chartable.getD d 0 = g (Nat.digitChar d))
    (num : Nat) : digits2n n hn chartable num = (Nat.toDigits (2 ^ n) num).map g := by
  have hb : 1 < 2 ^ n := Nat.one_lt_two_pow (by omega)
  -- 下の桁は `num &&& (2 ^ n - 1) = num % 2 ^ n`、上の桁は `num >>> n = num / 2 ^ n`
  fun_induction digits2n n hn chartable num with
  | case1 num hpos ih =>
    rw [Nat.shiftRight_eq_div_pow] at hpos ih
    have hle : 2 ^ n ≤ num := by
      by_contra hlt
      rw [Nat.div_eq_of_lt (by omega)] at hpos
      exact absurd hpos (Nat.lt_irrefl 0)
    rw [Nat.shiftRight_eq_div_pow, ih, Nat.toDigits_of_base_le hb hle, List.map_append,
      List.map_singleton,
      Nat.and_two_pow_sub_one_eq_mod, hg _ (Nat.mod_lt _ (by omega))]
  | case2 num hpos =>
    rw [Nat.shiftRight_eq_div_pow] at hpos
    have hlt : num < 2 ^ n := by
      by_contra hle
      exact hpos (Nat.div_pos (by omega) (by omega))
    rw [Nat.toDigits_of_lt_base hlt, List.map_singleton, Nat.and_two_pow_sub_one_eq_mod,
      Nat.mod_eq_of_lt hlt, hg _ hlt]

theorem hexchars_getD {d : Nat} (hd : d < 16) : hexchars.getD d 0 = (Nat.digitChar d).toUInt8 := by
  have hall : ∀ e ∈ List.range 16, hexchars.getD e 0 = (Nat.digitChar e).toUInt8 := by decide
  exact hall d (List.mem_range.mpr hd)

theorem HEXCHARS_getD {d : Nat} (hd : d < 16) :
    HEXCHARS.getD d 0 = (Nat.digitChar d).toUpper.toUInt8 := by
  have hall : ∀ e ∈ List.range 16, HEXCHARS.getD e 0 = (Nat.digitChar e).toUpper.toUInt8 := by
    decide
  exact hall d (List.mem_range.mpr hd)

/-- `hexchars` で書く桁は、`2 ^ n` 進（`n ≤ 4`）の `Nat.toDigits`。 -/
theorem digits2n_hexchars (hn4 : n ≤ 4) (num : Nat) :
    digits2n n hn hexchars num = (Nat.toDigits (2 ^ n) num).map Char.toUInt8 :=
  digits2n_eq_toDigits n hn hexchars Char.toUInt8
    (fun _ hd => hexchars_getD (Nat.lt_of_lt_of_le hd (Nat.pow_le_pow_right (by omega) hn4))) num

/-- `HEXCHARS` で書く桁は、16 進の `Nat.toDigits` を大文字にしたもの。 -/
theorem digits2n_HEXCHARS (num : Nat) :
    digits2n 4 (by decide) HEXCHARS num = (Nat.toDigits 16 num).map (fun c => c.toUpper.toUInt8) :=
  digits2n_eq_toDigits 4 (by decide) HEXCHARS _ (fun _ hd => HEXCHARS_getD hd) num

/-- 精度のない `append2n` は、桁を詰めるだけ（左寄せでも `'0'` で詰める）。 -/
theorem append2n_eq (number : Int64) (width : Nat) (padding : UInt8) (alignment : Alignment) :
    append2n number width padding alignment n hn chartable false =
      padTo (digits2n n hn chartable number.toUInt64.toNat) width padding alignment := by
  simp only [append2n]
  rw [appendstring_plain _ _ _ _ 0 false false false (fun _ => rfl)]
  rfl

/-- 精度つきの `append2n` は、`appendstring` に最大幅 0 を渡すので、数字を一つも書かない。 -/
theorem append2n_expprec (number : Int64) (width : Nat) (padding : UInt8) (alignment : Alignment) :
    append2n number width padding alignment n hn chartable true =
      List.replicate width padding := by
  simp only [append2n]
  rw [appendstring_plain _ _ _ _ 0 false true false (fun _ => rfl)]
  cases alignment <;> simp [padTo]

end Digits2n

/-! ## 変換の文字ごとに -/

section Convert

variable {α F : Type} (cv : ArgConv α F) (df : DoubleFormat F) (d : Directive)
  (tmp : α)

/-- `%s`：`toString` を、精度があればその長さに切ってから詰める。 -/
theorem convert_s :
    convert cv df d 0x73 tmp =
      padTo (if d.expprec then (cv.toString tmp).take d.precision else cv.toString tmp) d.width
        d.mods.padding d.mods.alignment := by
  rw [convert, if_pos rfl]
  exact appendstring_plain _ _ _ _ _ false _ false (fun _ => rfl)

/-- `%d`：`toInt64` の符号と絶対値の 10 進。 -/
theorem convert_d :
    convert cv df d 0x64 tmp =
      padSigned (signText (cv.toInt64 tmp) d.mods.alwaysSign)
        (decimalDigits (cv.toInt64 tmp).toInt.natAbs) d.width d.mods.padding d.mods.alignment := by
  rw [convert, if_neg (by decide), if_pos rfl, appendint_eq]

/-- `%u`：`toInt64` を `uint64` として読んだ値の 10 進。 -/
theorem convert_u :
    convert cv df d 0x75 tmp =
      padTo (decimalDigits (cv.toInt64 tmp).toUInt64.toNat) d.width
        (if d.mods.alignment = .left ∧ d.mods.padding = 0x30 then 0x20 else d.mods.padding)
        d.mods.alignment := by
  rw [convert, if_neg (by decide), if_neg (by decide), if_pos rfl, appenduint_eq]

/-- `%c`：一 byte を書き、幅は見ない。 -/
theorem convert_c : convert cv df d 0x63 tmp = [cv.toByte tmp] := by
  rw [convert, if_neg (by decide), if_neg (by decide), if_neg (by decide), if_neg (by decide),
    if_pos rfl]

/-! 8 進・16 進・2 進の四つは、桁の bit 数と文字表だけを変えて同じ `append2n` を呼ぶ。 -/

theorem convert_o_append2n : convert cv df d 0x6f tmp =
    append2n (cv.toInt64 tmp) d.width d.mods.padding d.mods.alignment 3 (by decide) hexchars
      d.expprec := rfl

theorem convert_x_append2n : convert cv df d 0x78 tmp =
    append2n (cv.toInt64 tmp) d.width d.mods.padding d.mods.alignment 4 (by decide) hexchars
      d.expprec := rfl

theorem convert_X_append2n : convert cv df d 0x58 tmp =
    append2n (cv.toInt64 tmp) d.width d.mods.padding d.mods.alignment 4 (by decide) HEXCHARS
      d.expprec := rfl

theorem convert_b_append2n : convert cv df d 0x62 tmp =
    append2n (cv.toInt64 tmp) d.width d.mods.padding d.mods.alignment 1 (by decide) hexchars
      d.expprec := rfl

variable {d}

/-- `%o`：精度がなければ 8 進。 -/
theorem convert_o (h : d.expprec = false) :
    convert cv df d 0x6f tmp =
      padTo ((Nat.toDigits 8 (cv.toInt64 tmp).toUInt64.toNat).map Char.toUInt8) d.width
        d.mods.padding d.mods.alignment := by
  rw [convert_o_append2n, h, append2n_eq, digits2n_hexchars 3 _ (by decide)]
  rfl

/-- `%x`：精度がなければ 16 進の小文字。 -/
theorem convert_x (h : d.expprec = false) :
    convert cv df d 0x78 tmp =
      padTo ((Nat.toDigits 16 (cv.toInt64 tmp).toUInt64.toNat).map Char.toUInt8) d.width
        d.mods.padding d.mods.alignment := by
  rw [convert_x_append2n, h, append2n_eq, digits2n_hexchars 4 _ (by decide)]
  rfl

/-- `%X`：精度がなければ 16 進の大文字。 -/
theorem convert_X (h : d.expprec = false) :
    convert cv df d 0x58 tmp =
      padTo ((Nat.toDigits 16 (cv.toInt64 tmp).toUInt64.toNat).map (fun c => c.toUpper.toUInt8))
        d.width d.mods.padding d.mods.alignment := by
  rw [convert_X_append2n, h, append2n_eq, digits2n_HEXCHARS]

/-- `%b`：精度がなければ 2 進。 -/
theorem convert_b (h : d.expprec = false) :
    convert cv df d 0x62 tmp =
      padTo ((Nat.toDigits 2 (cv.toInt64 tmp).toUInt64.toNat).map Char.toUInt8) d.width
        d.mods.padding d.mods.alignment := by
  rw [convert_b_append2n, h, append2n_eq, digits2n_hexchars 1 _ (by decide)]
  rfl

/-- 精度つきの `%o`・`%x`・`%X`・`%b` は、数字を一つも書かず、幅まで詰める文字だけを書く。 -/
theorem convert_2n_expprec (h : d.expprec = true) {ch : UInt8}
    (hch : ch = 0x6f ∨ ch = 0x78 ∨ ch = 0x58 ∨ ch = 0x62) :
    convert cv df d ch tmp = List.replicate d.width d.mods.padding := by
  rcases hch with rfl | rfl | rfl | rfl
  · rw [convert_o_append2n, h, append2n_expprec]
  · rw [convert_x_append2n, h, append2n_expprec]
  · rw [convert_X_append2n, h, append2n_expprec]
  · rw [convert_b_append2n, h, append2n_expprec]

end Convert

end Hhvm.Zend
