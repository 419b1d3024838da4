import Mathlib
import Hhvm.Infra.Except

/-!
# `string_printf`

`hphp/runtime/base/zend-printf.cpp` の `string_printf`（`sprintf`・`printf`・`vsprintf` の本体）と、
変換を書く `appendstring`・`appendint`・`appenduint`・`appenddouble`・`append2n`・`getnumber`。

書式は `len` byte の列で、位置 `len` に終端の NUL がある。それより先を読むことは C では未定義の
動作で、ここでは `readPastEnd` で止める。`string_printf` がそこに行かないことは性質の側で示す。

引数の変換（`Variant::toString`・`toInt64`・`toDouble`・`toByte`）と、有限の `double` を書く
`php_conv_fp`・`php_gcvt` は別の file の関数なので、引数として受ける（`ArgConv`・`DoubleFormat`）。
`double` は `appenddouble` が見る区別（NaN・符号つきの無限大・有限の値）で持つ。NaN では
`number < 0` が偽なので、NaN に符号は無い。

`raise_invalid_argument_warning` のあとの `return String()` は `.error` で、警告の文が場に残る。
`adjusting` の `ADJ_WIDTH` はどこも読まないので、`ADJ_PRECISION` の bit だけを持つ。
-/

namespace Hhvm.Zend

/-! ## 文字の分類 -/

/-- `isdigit`。 -/
def isDigit (c : UInt8) : Bool := 0x30 ≤ c && c ≤ 0x39

/-- `isalpha`（C locale）。 -/
def isAlpha (c : UInt8) : Bool := (0x41 ≤ c && c ≤ 0x5a) || (0x61 ≤ c && c ≤ 0x7a)

/-- `isascii`：`char` が負（`0x80` 以上）なら偽。 -/
def isAscii (c : UInt8) : Bool := c < 0x80

/-! ## 書き手 -/

/-- `ALIGN_LEFT = 0` と `ALIGN_RIGHT = 1`。 -/
inductive Alignment where
  | left
  | right
deriving DecidableEq, Repr

/-- `appendstring`：`add` の先頭 `copy_len` byte を幅 `min_width` まで `padding` で詰める。右寄せで
符号があり `padding` が `'0'` なら、符号を先に書いてから 0 を詰め、`add` の一文字目を飛ばす。
書く符号は `add` の一文字目ではなく `neg` から決める。 -/
def appendstring (add : List UInt8) (minWidth maxWidth : Nat) (padding : UInt8)
    (alignment : Alignment) (len : Nat) (neg expprec alwaysSign : Bool) : List UInt8 :=
  let copyLen := if expprec then (if maxWidth < len then maxWidth else len) else len
  let npad := minWidth - copyLen
  match alignment with
  | .right =>
    if (neg || alwaysSign) && padding = 0x30 then
      [if neg then 0x2d else 0x2b] ++ List.replicate npad padding ++ (add.drop 1).take (copyLen - 1)
    else List.replicate npad padding ++ add.take copyLen
  | .left => add.take copyLen ++ List.replicate npad padding

/-- 10 進の数字の列（`do { numbuf[--i] = magn % 10 + '0'; magn /= 10; } while (magn > 0)`）。 -/
def decimalDigits (magn : Nat) : List UInt8 := (Nat.toDigits 10 magn).map Char.toUInt8

/-- `appendint`：`magn` は `|number|`（`INT64_MIN` でも `-(number + 1) + 1` で桁あふれしない）。
左寄せでは 0 を詰めない。 -/
def appendint (number : Int64) (width : Nat) (padding : UInt8) (alignment : Alignment)
    (alwaysSign : Bool) : List UInt8 :=
  let neg := decide (number.toInt < 0)
  let padding := if alignment = .left ∧ padding = 0x30 then 0x20 else padding
  let numbuf := (if neg then [0x2d] else if alwaysSign then [0x2b] else []) ++
    decimalDigits number.toInt.natAbs
  appendstring numbuf width 0 padding alignment numbuf.length neg false alwaysSign

/-- `appenduint`：`number` を `unsigned long` として書く。 -/
def appenduint (number : Int64) (width : Nat) (padding : UInt8) (alignment : Alignment) :
    List UInt8 :=
  let padding := if alignment = .left ∧ padding = 0x30 then 0x20 else padding
  let numbuf := decimalDigits number.toUInt64.toNat
  appendstring numbuf width 0 padding alignment numbuf.length false false false

/-- `hexchars`。 -/
def hexchars : List UInt8 := (['0', '1', '2', '3', '4', '5', '6', '7', '8', '9',
  'a', 'b', 'c', 'd', 'e', 'f'] : List Char).map Char.toUInt8

/-- `HEXCHARS`。 -/
def HEXCHARS : List UInt8 := (['0', '1', '2', '3', '4', '5', '6', '7', '8', '9',
  'A', 'B', 'C', 'D', 'E', 'F'] : List Char).map Char.toUInt8

/-- `append2n` の桁：`do { numbuf[--i] = chartable[num & andbits]; num >>= n; } while (num > 0)`。
`n` は 1・3・4。 -/
def digits2n (n : Nat) (hn : 0 < n) (chartable : List UInt8) (num : Nat) : List UInt8 :=
  if h : num >>> n > 0 then
    digits2n n hn chartable (num >>> n) ++ [chartable.getD (num &&& (2 ^ n - 1)) 0]
  else [chartable.getD (num &&& (2 ^ n - 1)) 0]
termination_by num
decreasing_by
  rw [Nat.shiftRight_eq_div_pow] at h ⊢
  have hnum : 0 < num := Nat.pos_of_ne_zero fun h0 => by simp [h0] at h
  exact Nat.div_lt_self hnum (Nat.one_lt_two_pow (by omega))

/-- `append2n`：`number` を `unsigned long` として 2 の `n` 乗進で書く。 -/
def append2n (number : Int64) (width : Nat) (padding : UInt8) (alignment : Alignment) (n : Nat)
    (hn : 0 < n) (chartable : List UInt8) (expprec : Bool) : List UInt8 :=
  let numbuf := digits2n n hn chartable number.toUInt64.toNat
  appendstring numbuf width 0 padding alignment numbuf.length false expprec false

/-- `appenddouble` が見る `double` の区別。 -/
inductive Double (F : Type) where
  | nan
  | inf (neg : Bool)
  | finite (x : F)
deriving Inhabited

/-- 有限の `double` を書く関数（`hphp/zend/zend-printf.cpp` の `php_conv_fp`・`php_gcvt`）。 -/
structure DoubleFormat (F : Type) where
  /-- `php_conv_fp(format, num, 0, precision, dec_point, &is_negative, buf, &len)`：`is_negative` と、
  符号を除いた数字の列。 -/
  convFp : UInt8 → F → Nat → UInt8 → Bool × List UInt8
  /-- `php_gcvt(value, precision, dec_point, exp_char, buf)`：負なら `-` で始まる。 -/
  gcvt : F → Nat → UInt8 → UInt8 → List UInt8
  /-- `localeconv()->decimal_point` の一文字目。 -/
  decimalPoint : UInt8

/-- `FLOAT_PRECISION`。 -/
def FLOAT_PRECISION : Nat := 6

/-- `MAX_FLOAT_PRECISION`。 -/
def MAX_FLOAT_PRECISION : Nat := 40

/-- `appenddouble`。NaN と無限大は、幅 3 の `"NaN"`・`"INF"` として `appendstring` に渡す。 -/
def appenddouble {F : Type} (df : DoubleFormat F) (number : Double F) (width : Nat) (padding : UInt8)
    (alignment : Alignment) (precision : Nat) (adjPrecision : Bool) (fmt : UInt8)
    (alwaysSign : Bool) : List UInt8 :=
  let precision := if !adjPrecision then FLOAT_PRECISION
    else if precision > MAX_FLOAT_PRECISION then MAX_FLOAT_PRECISION else precision
  match number with
  | .nan => appendstring [0x4e, 0x61, 0x4e] 3 0 padding alignment 3 false false alwaysSign
  | .inf neg => appendstring [0x49, 0x4e, 0x46] 3 0 padding alignment 3 neg false alwaysSign
  | .finite x =>
    if fmt = 0x65 ∨ fmt = 0x45 ∨ fmt = 0x66 ∨ fmt = 0x46 then
      let r := df.convFp (if fmt = 0x66 then 0x46 else fmt) x precision
        (if fmt = 0x66 then df.decimalPoint else 0x2e)
      let s := if r.1 then 0x2d :: r.2 else if alwaysSign then 0x2b :: r.2 else r.2
      appendstring s width 0 padding alignment s.length r.1 false alwaysSign
    else
      -- `'g'` と `'G'`
      let precision := if precision = 0 then 1 else precision
      let s := df.gcvt x precision df.decimalPoint (if fmt = 0x47 then 0x45 else 0x65)
      let neg := s.head? = some 0x2d
      let s := if neg then s else if alwaysSign then 0x2b :: s else s
      appendstring s width 0 padding alignment s.length neg false alwaysSign

/-! ## 書式の読み手 -/

/-- 警告つきで null を返す理由と、未定義の動作。 -/
inductive PrintfError where
  /-- `"argnum: must be greater than zero"`。 -/
  | argnumNotPositive
  /-- `"width: must be greater than zero and less than %d"`。 -/
  | widthTooLarge
  /-- `"precision: must be greater than zero and less than %d"`。 -/
  | precisionTooLarge
  /-- `"arguments: (too few)"`。 -/
  | tooFewArguments
  /-- 終端の NUL より先を読む（C では未定義の動作）。 -/
  | readPastEnd
deriving DecidableEq, Repr

/-- `format[i]`：`len` の位置は終端の NUL。 -/
def fmtAt (format : List UInt8) (i : Nat) : Except PrintfError UInt8 :=
  if i ≤ format.length then .ok (format.getD i 0) else .error .readPastEnd

/-- `strtol(buffer + pos, &endptr, 10)` が読む数字の列：値と `endptr` の位置。呼ばれるのはいつも数字
か `$` の位置なので、空白や符号は読まない。 -/
def digitRun (format : List UInt8) (pos acc : Nat) : Except PrintfError (Nat × Nat) :=
  if h : pos ≤ format.length then
    let c := format.getD pos 0
    if isDigit c then digitRun format (pos + 1) (acc * 10 + (c.toNat - 0x30)) else .ok (acc, pos)
  else .error .readPastEnd
termination_by format.length + 1 - pos

/-- `INT_MAX`。 -/
def INT_MAX : Nat := 2 ^ 31 - 1

/-- `getnumber`：`INT_MAX` 以上なら `-1`。 -/
def getnumber (format : List UInt8) (pos : Nat) : Except PrintfError (Int × Nat) :=
  (digitRun format pos 0).map fun r => (if r.1 ≥ INT_MAX then -1 else r.1, r.2)

/-- `while (isdigit((int)format[temppos])) temppos++`。 -/
def skipDigits (format : List UInt8) (pos : Nat) : Except PrintfError Nat :=
  (digitRun format pos 0).map Prod.snd

/-- 変換の修飾子。 -/
structure Modifiers where
  alignment : Alignment
  padding : UInt8
  alwaysSign : Bool
deriving DecidableEq, Repr

/-- 既定：右寄せ、空白で詰め、符号は負のときだけ。 -/
def Modifiers.default : Modifiers := ⟨.right, 0x20, false⟩

/-- `for (;; inpos++)`：`' '`・`'0'`・`'-'`・`'+'`・`'\''c` を読む。 -/
def modifierLoop (format : List UInt8) (inpos : Nat) (m : Modifiers) :
    Except PrintfError (Modifiers × Nat) :=
  if h : inpos ≤ format.length then
    let ch := format.getD inpos 0
    if ch = 0x20 ∨ ch = 0x30 then modifierLoop format (inpos + 1) { m with padding := ch }
    else if ch = 0x2d then modifierLoop format (inpos + 1) { m with alignment := .left }
    else if ch = 0x2b then modifierLoop format (inpos + 1) { m with alwaysSign := true }
    else if ch = 0x27 ∧ inpos ≠ format.length - 1 then
      match fmtAt format (inpos + 1) with
      | .ok p => modifierLoop format (inpos + 2) { m with padding := p }
      | .error e => .error e
    else .ok (m, inpos)
  else .error .readPastEnd
termination_by format.length + 1 - inpos

/-- 読んだ変換指定。`inpos` は変換の文字の位置（`'l'` の前）。 -/
structure Directive where
  argnum : Nat
  mods : Modifiers
  width : Nat
  precision : Nat
  adjPrecision : Bool
  expprec : Bool
  ch : UInt8
  inpos : Nat
deriving DecidableEq, Repr

/-- 幅：数字があれば `getnumber`。 -/
def parseWidth (format : List UInt8) (inpos : Nat) : Except PrintfError (Nat × Nat) := do
  let ch ← fmtAt format inpos
  if isDigit ch then
    let (w, p) ← getnumber format inpos
    if w < 0 then throw .widthTooLarge
    pure (w.toNat, p)
  else pure (0, inpos)

/-- 精度：`'.'` の後に数字があれば `getnumber`。`(precision, ADJ_PRECISION, expprec, ch, inpos)`。 -/
def parsePrecision (format : List UInt8) (inpos : Nat) :
    Except PrintfError (Nat × Bool × Bool × UInt8 × Nat) := do
  let ch ← fmtAt format inpos
  if ch = 0x2e then
    let ch ← fmtAt format (inpos + 1)
    if isDigit ch then
      let (pr, p) ← getnumber format (inpos + 1)
      if pr < 0 then throw .precisionTooLarge
      let ch ← fmtAt format p
      pure (pr.toNat, true, true, ch, p)
    else pure (0, false, false, ch, inpos + 1)
  else pure (0, false, false, ch, inpos)

/-- `argnum`：数字の列の後が `'$'` なら `getnumber`、でなければ `currarg++`。`(argnum, inpos, currarg)`。 -/
def parseArgnum (format : List UInt8) (inpos currarg : Nat) :
    Except PrintfError (Nat × Nat × Nat) := do
  let temppos ← skipDigits format inpos
  let c ← fmtAt format temppos
  if c = 0x24 then
    let (a, p) ← getnumber format inpos
    if a ≤ 0 then throw .argnumNotPositive
    pure (a.toNat, p + 1, currarg)
  else pure (currarg, inpos, currarg + 1)

/-- `'%'` の後の変換指定を読む。`inpos` は `'%'` の次の位置。指定と次の `currarg` を返す。 -/
def parseDirective (format : List UInt8) (inpos currarg : Nat) :
    Except PrintfError (Directive × Nat) := do
  let ch ← fmtAt format inpos
  if isAscii ch && !isAlpha ch then
    let (argnum, inpos, currarg) ← parseArgnum format inpos currarg
    let (mods, inpos) ← modifierLoop format inpos Modifiers.default
    let (width, inpos) ← parseWidth format inpos
    let (precision, adj, expprec, ch, inpos) ← parsePrecision format inpos
    pure (⟨argnum, mods, width, precision, adj, expprec, ch, inpos⟩, currarg)
  else pure (⟨currarg, Modifiers.default, 0, 0, false, false, ch, inpos⟩, currarg + 1)

/-! ## 読む位置は進む -/

theorem digitRun_le {format : List UInt8} {pos acc n p : Nat}
    (h : digitRun format pos acc = .ok (n, p)) : pos ≤ p := by
  fun_induction digitRun format pos acc with
  | case1 pos acc hle c hc ih =>
    have := ih h
    omega
  | case2 pos acc hle c hc =>
    cases h
    exact Nat.le_refl _
  | case3 => cases h

theorem getnumber_le {format : List UInt8} {pos p : Nat} {v : Int}
    (h : getnumber format pos = .ok (v, p)) : pos ≤ p := by
  obtain ⟨⟨n, p'⟩, hd, he⟩ := Infra.Except.map_eq_ok.mp h
  cases he
  exact digitRun_le hd

theorem modifierLoop_le {format : List UInt8} {inpos p : Nat} {m m' : Modifiers}
    (h : modifierLoop format inpos m = .ok (m', p)) : inpos ≤ p := by
  fun_induction modifierLoop format inpos m with
  | case1 inpos m _ _ _ ih => exact Nat.le_of_succ_le (ih h)
  | case2 inpos m _ _ _ _ ih => exact Nat.le_of_succ_le (ih h)
  | case3 inpos m _ _ _ _ _ ih => exact Nat.le_of_succ_le (ih h)
  | case4 inpos m _ _ _ _ _ _ _ _ ih =>
    have := ih h
    omega
  | case5 => cases h
  | case6 =>
    cases h
    exact Nat.le_refl _
  | case7 => cases h

open Infra.Except in
theorem parseWidth_le {format : List UInt8} {inpos w p : Nat}
    (h : parseWidth format inpos = .ok (w, p)) : inpos ≤ p := by
  unfold parseWidth at h
  obtain ⟨ch, -, h⟩ := bind_eq_ok.mp h
  split_ifs at h
  · obtain ⟨⟨v, q⟩, hq, h⟩ := bind_eq_ok.mp h
    dsimp only at h
    split_ifs at h
    · exact absurd h throw_ne_ok
    · obtain ⟨-, rfl⟩ := Prod.mk.inj (pure_eq_ok.mp h)
      exact getnumber_le hq
  · obtain ⟨-, rfl⟩ := Prod.mk.inj (pure_eq_ok.mp h)
    exact Nat.le_refl _

open Infra.Except in
theorem parsePrecision_le {format : List UInt8} {inpos p pr : Nat} {adj ex : Bool} {ch : UInt8}
    (h : parsePrecision format inpos = .ok (pr, adj, ex, ch, p)) : inpos ≤ p := by
  unfold parsePrecision at h
  obtain ⟨c, -, h⟩ := bind_eq_ok.mp h
  split_ifs at h
  · obtain ⟨c', -, h⟩ := bind_eq_ok.mp h
    split_ifs at h
    · obtain ⟨⟨v, q⟩, hq, h⟩ := bind_eq_ok.mp h
      dsimp only at h
      split_ifs at h
      · exact absurd h throw_ne_ok
      · obtain ⟨c'', -, h⟩ := bind_eq_ok.mp h
        simp only [pure_eq_ok, Prod.mk.injEq] at h
        have := getnumber_le hq
        omega
    · simp only [pure_eq_ok, Prod.mk.injEq] at h
      omega
  · simp only [pure_eq_ok, Prod.mk.injEq] at h
    omega

open Infra.Except in
theorem parseArgnum_le {format : List UInt8} {inpos currarg a p c : Nat}
    (h : parseArgnum format inpos currarg = .ok (a, p, c)) : inpos ≤ p := by
  unfold parseArgnum at h
  obtain ⟨t, -, h⟩ := bind_eq_ok.mp h
  obtain ⟨c', -, h⟩ := bind_eq_ok.mp h
  split_ifs at h
  · obtain ⟨⟨v, q⟩, hq, h⟩ := bind_eq_ok.mp h
    dsimp only at h
    split_ifs at h
    · exact absurd h throw_ne_ok
    · simp only [pure_eq_ok, Prod.mk.injEq] at h
      have := getnumber_le hq
      omega
  · simp only [pure_eq_ok, Prod.mk.injEq] at h
    omega

open Infra.Except in
/-- 変換の文字は `'%'` の次の位置より前にない。 -/
theorem parseDirective_inpos {format : List UInt8} {inpos currarg : Nat} {d : Directive} {c : Nat}
    (h : parseDirective format inpos currarg = .ok (d, c)) : inpos ≤ d.inpos := by
  unfold parseDirective at h
  obtain ⟨ch, -, h⟩ := bind_eq_ok.mp h
  split_ifs at h
  · obtain ⟨⟨a, p1, c1⟩, h1, h⟩ := bind_eq_ok.mp h
    obtain ⟨⟨m, p2⟩, h2, h⟩ := bind_eq_ok.mp h
    obtain ⟨⟨w, p3⟩, h3, h⟩ := bind_eq_ok.mp h
    obtain ⟨⟨pr, adj, ex, ch', p4⟩, h4, h⟩ := bind_eq_ok.mp h
    obtain ⟨rfl, -⟩ := Prod.mk.inj (pure_eq_ok.mp h)
    have := parseArgnum_le h1
    have := modifierLoop_le h2
    have := parseWidth_le h3
    have := parsePrecision_le h4
    dsimp only
    omega
  · obtain ⟨rfl, -⟩ := Prod.mk.inj (pure_eq_ok.mp h)
    exact Nat.le_refl _

/-! ## `string_printf` -/

/-- 引数の変換（`Variant` の `toString`・`toInt64`・`toDouble`・`toByte`）。 -/
structure ArgConv (α F : Type) where
  toString : α → List UInt8
  toInt64 : α → Int64
  toDouble : α → Double F
  toByte : α → UInt8

section Printf

variable {α F : Type} [Inhabited α] (cv : ArgConv α F) (df : DoubleFormat F)

/-- `switch (ch)`：一つの変換が書くもの。 -/
def convert (d : Directive) (ch : UInt8) (tmp : α) : List UInt8 :=
  let m := d.mods
  if ch = 0x73 then
    let s := cv.toString tmp
    appendstring s d.width d.precision m.padding m.alignment s.length false d.expprec false
  else if ch = 0x64 then appendint (cv.toInt64 tmp) d.width m.padding m.alignment m.alwaysSign
  else if ch = 0x75 then appenduint (cv.toInt64 tmp) d.width m.padding m.alignment
  else if ch = 0x67 ∨ ch = 0x47 ∨ ch = 0x65 ∨ ch = 0x45 ∨ ch = 0x66 ∨ ch = 0x46 then
    appenddouble df (cv.toDouble tmp) d.width m.padding m.alignment d.precision d.adjPrecision ch
      m.alwaysSign
  else if ch = 0x63 then [cv.toByte tmp]
  else if ch = 0x6f then
    append2n (cv.toInt64 tmp) d.width m.padding m.alignment 3 (by decide) hexchars d.expprec
  else if ch = 0x78 then
    append2n (cv.toInt64 tmp) d.width m.padding m.alignment 4 (by decide) hexchars d.expprec
  else if ch = 0x58 then
    append2n (cv.toInt64 tmp) d.width m.padding m.alignment 4 (by decide) HEXCHARS d.expprec
  else if ch = 0x62 then
    append2n (cv.toInt64 tmp) d.width m.padding m.alignment 1 (by decide) hexchars d.expprec
  else if ch = 0x25 then [0x25]
  else []

/-- `for (inpos = 0; inpos < len; ++inpos)`。 -/
def printfLoop (format : List UInt8) (args : List α) (inpos currarg : Nat) :
    Except PrintfError (List UInt8) :=
  if h : inpos < format.length then
    let ch := format.getD inpos 0
    if ch ≠ 0x25 then (ch :: ·) <$> printfLoop format args (inpos + 1) currarg
    else match fmtAt format (inpos + 1) with
      | .error e => .error e
      | .ok c1 =>
        if c1 = 0x25 then (0x25 :: ·) <$> printfLoop format args (inpos + 2) currarg
        else match hd : parseDirective format (inpos + 1) currarg with
          | .error e => .error e
          | .ok (d, currarg') =>
            if d.argnum > args.length then .error .tooFewArguments
            else
              -- `if (ch == 'l') ch = format[++inpos];`
              let inpos' := if d.ch = 0x6c then d.inpos + 1 else d.inpos
              match (if d.ch = 0x6c then fmtAt format inpos' else .ok d.ch) with
              | .error e => .error e
              | .ok ch =>
                (convert cv df d ch (args.getD (d.argnum - 1) default) ++ ·) <$>
                  printfLoop format args (inpos' + 1) currarg'
  else .ok []
termination_by format.length - inpos
decreasing_by
  all_goals first
    | omega
    | have := parseDirective_inpos hd
      split_ifs <;> omega

/-- `string_printf(format, len, args)`。`args` は値の列（vec でない配列は値を並べ直す）。 -/
def stringPrintf (format : List UInt8) (args : List α) : Except PrintfError (List UInt8) :=
  if format.length = 0 then .ok [] else printfLoop cv df format args 0 1

end Printf

end Hhvm.Zend
