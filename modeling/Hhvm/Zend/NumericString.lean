import Mathlib.Data.UInt
import Mathlib.Algebra.Order.Group.Int

/-!
# `is_numeric_string`

`hphp/runtime/base/zend-functions.cpp` の `is_numeric_string` と、それが使う
`fast_strtoll_base10`（`hphp/util/fast_strtoll_base10.h`）と `zend_strtod` の読み取り
（`hphp/zend/zend-strtod.cpp`）、呼び手の `StringData::isNumericWithVal`。

文字列は `length` byte の列で、`StringData` の中身として位置 `length` に終端の NUL がある。
`is_numeric_string` は長さを最後の `ptr != str + length` でしか見ず、走査は NUL で止まる：
列の先を読むと 0（`byteAt`）。

`goto` の行き先はそれぞれ関数にした。`check_digits:` から始まるループの本体が `checkDigits`、
ループを抜けた後の `if (base == 10) { … }` が `afterLoop`、`process_double:` が `processDouble`。
`process_double` が `check_digits` へ戻るかどうかは `processDouble` が返し、戻るときは
`checkDigits` が次の位置から続ける。

`zend_strtod`・`zend_hex_strtod`・`strtod` が返す `double` の値は扱わない（`*dval` に何かが
書かれるだけ）。`zend_strtod` と `zend_hex_strtod` が `ptr` に書く位置は扱う。`strtoll(str,
nullptr, 16)` は libc の関数で、16 進の数字を読んだ値（`int64_t` に収まらなければ
`LLONG_MAX`）とした。
-/

namespace Hhvm.Zend

/-- `is_numeric_string` が返す `DataType`。 -/
inductive DataType where
  | KindOfNull
  | KindOfInt64
  | KindOfDouble
  deriving DecidableEq, Repr

/-- `SIZEOF_LONG` -/
def SIZEOF_LONG : Nat := 8

/-- `MAX_LENGTH_OF_LONG` -/
def MAX_LENGTH_OF_LONG : Nat := 20

/-- `long_min_digits`：`"9223372036854775808"`。 -/
def long_min_digits : List UInt8 :=
  [0x39, 0x32, 0x32, 0x33, 0x33, 0x37, 0x32, 0x30, 0x33, 0x36, 0x38, 0x35, 0x34, 0x37, 0x37, 0x35,
    0x38, 0x30, 0x38]

/-- `IS_DIGIT(c)` -/
def IS_DIGIT (c : UInt8) : Bool := 0x30 ≤ c && c ≤ 0x39

/-- `IS_XDIGIT(c)`：16 進の数字のうち英字だけ（`A`–`F`、`a`–`f`）。 -/
def IS_XDIGIT (c : UInt8) : Bool := (0x41 ≤ c && c ≤ 0x46) || (0x61 ≤ c && c ≤ 0x66)

/-- 先頭で飛ばす空白：`' '`、`'\t'`、`'\n'`、`'\r'`、`'\v'`、`'\f'`。C locale の `isspace` も同じ。 -/
def isWhite (c : UInt8) : Bool :=
  c == 0x20 || c == 0x09 || c == 0x0a || c == 0x0d || c == 0x0b || c == 0x0c

/-- `*p`：`p` 番目の byte。終端の NUL より先は 0 を読む。 -/
def byteAt (b : List UInt8) (i : Nat) : UInt8 := b.getD i 0

/-- `while (p(*s)) s++;`：`i` から `p` を満たす byte を飛ばした位置。 -/
def skipWhile (p : UInt8 → Bool) (b : List UInt8) (i : Nat) : Nat :=
  i + ((b.drop i).takeWhile p).length

/-- `'-'` か `'+'`。 -/
def isSign (c : UInt8) : Bool := c == 0x2d || c == 0x2b

/-! ## libc と `zend-strtod.cpp` -/

/-- `zend_strtod(s00, &se)` が `se` に書く位置。空白と符号の後、整数部の数字、`'.'` と小数部の
数字を読み、数字が一つも無ければ `s00` に戻す。続く `e`／`E` は、符号の後に数字があるときだけ
指数として読む。 -/
def zendStrtodEnd (b : List UInt8) (s00 : Nat) : Nat :=
  let s := skipWhile isWhite b s00
  let s := if isSign (byteAt b s) then s + 1 else s
  if byteAt b s = 0 then s00
  else
    let intEnd := skipWhile IS_DIGIT b s
    let fracEnd := if byteAt b intEnd = 0x2e then skipWhile IS_DIGIT b (intEnd + 1) else intEnd
    -- `nd`、`nz`、`nz0` のどれかが 0 でない：仮数に数字がある
    let hasDigits := s < intEnd || (byteAt b intEnd == 0x2e && intEnd + 1 < fracEnd)
    if !hasDigits then s00
    else if byteAt b fracEnd = 0x65 ∨ byteAt b fracEnd = 0x45 then
      let t := if isSign (byteAt b (fracEnd + 1)) then fracEnd + 2 else fracEnd + 1
      if IS_DIGIT (byteAt b t) then skipWhile IS_DIGIT b t else fracEnd
    else fracEnd

/-- `zend_hex_strtod(str, &endptr)` が `endptr` に書く位置。`0x` の後の 16 進の数字を読み、
一つも無ければ `str`。 -/
def zendHexStrtodEnd (b : List UInt8) (str : Nat) : Nat :=
  let s := if byteAt b str = 0x30 ∧ (byteAt b (str + 1) = 0x78 ∨ byteAt b (str + 1) = 0x58)
    then str + 2 else str
  let e := skipWhile (fun c => IS_DIGIT c || IS_XDIGIT c) b s
  if s < e then e else str

/-- 16 進の数字一つの値。 -/
def hexDigitValue (c : UInt8) : Nat :=
  if IS_DIGIT c then c.toNat - 0x30
  else if 0x41 ≤ c && c ≤ 0x46 then c.toNat - 0x41 + 10
  else c.toNat - 0x61 + 10

/-- `strtoll(str, nullptr, 16)`：`0x` の後の 16 進の数字を読んだ値。`int64_t` を越えれば
`LLONG_MAX`。 -/
def strtollHex (b : List UInt8) (str : Nat) : Int64 :=
  let s := if byteAt b str = 0x30 ∧ (byteAt b (str + 1) = 0x78 ∨ byteAt b (str + 1) = 0x58)
    then str + 2 else str
  let v := ((b.drop s).takeWhile (fun c => IS_DIGIT c || IS_XDIGIT c)).foldl
    (fun v c => v * 16 + hexDigitValue c) 0
  if v < 2 ^ 63 then Int64.ofNat v else Int64.ofNat (2 ^ 63 - 1)

/-- `fast_strtoll_base10(p)`：符号の後の数字を負の側に `x * 10 + ('0' - *p)` で溜め、正なら符号を
反転する。桁あふれは調べない（`int64_t` の演算）。 -/
def fast_strtoll_base10 (b : List UInt8) (p : Nat) : Int64 :=
  let neg := byteAt b p == 0x2d
  let p := if isSign (byteAt b p) then p + 1 else p
  let x := ((b.drop p).takeWhile IS_DIGIT).foldl
    (fun (x : Int64) c => x * 10 + Int64.ofInt (0x30 - (c.toNat : Int))) 0
  if neg then x else -x

/-- `strncmp(s1, s2, n)` の符号：最初に違う byte の差、NUL に着くか `n` 文字で 0。 -/
def strncmp (s1 s2 : List UInt8) : Nat → Int
  | 0 => 0
  | n + 1 =>
    let c1 := s1.headD 0
    let c2 := s2.headD 0
    if c1 ≠ c2 then (c1.toNat : Int) - c2.toNat
    else if c1 = 0 then 0
    else strncmp s1.tail s2.tail n

/-! ## `is_numeric_string` -/

/-- 呼び手が渡すもの：`lval` と `dval` が `nullptr` でないか、`allow_errors`。 -/
structure Args where
  lval : Bool
  dval : Bool
  allowErrors : Int

/-- `is_numeric_string` が返すもの：型、`*lval` に書いた値、`*overflow_info` に書いた値。 -/
structure Result where
  type : DataType
  lval : Option Int64
  overflow : Option Int
  deriving DecidableEq, Repr

/-- 走査の状態：`ptr`、`digits`、`dp_or_e`、`type`、`overflow`。 -/
structure Scan where
  ptr : Nat
  digits : Nat
  dpOrE : Int
  type : DataType
  overflow : Int

/-- `process_double:` の後の行き先：`check_digits` へ戻るか、最後の検査へ進むか。 -/
inductive AfterDouble where
  /-- `dp_or_e = (*ptr++ == '.') ? 1 : 2; goto check_digits;` -/
  | checkDigits (dpOrE : Int)
  /-- `ptr` の位置で最後の検査へ。 -/
  | finish (ptr : Nat)

/-- `process_double:`。`dval` があれば `zend_strtod` が読んだところまで `ptr` を進め、なければ
（`allow_errors != 1` で `dp_or_e != -1` なら）`check_digits` へ戻って数字を数え続ける。 -/
def processDouble (a : Args) (b : List UInt8) (str ptr : Nat) (dpOrE : Int) : AfterDouble :=
  if a.dval then .finish (zendStrtodEnd b str)
  else if a.allowErrors ≠ 1 ∧ dpOrE ≠ -1 then
    .checkDigits (if byteAt b ptr = 0x2e then 1 else 2)
  else .finish ptr

/-- ループの条件 `!(digits >= MAX_LENGTH_OF_LONG && (dval || allow_errors == 1))`。 -/
def loopCond (a : Args) (digits : Nat) : Bool :=
  !(decide (MAX_LENGTH_OF_LONG ≤ digits) && (a.dval || a.allowErrors == 1))

/-- ループを抜けた後：10 進で数字が `MAX_LENGTH_OF_LONG` 個以上なら `overflow` を符号にして
`process_double` へ（`dp_or_e = -1` なので `check_digits` へは戻らない）。16 進で `int64_t` を
越えれば `double` とする。 -/
def afterLoop (a : Args) (base : Nat) (b : List UInt8) (str : Nat) (sc : Scan) : Scan :=
  let sign : Int := if byteAt b str = 0x2d then -1 else 1
  if base = 10 then
    if MAX_LENGTH_OF_LONG ≤ sc.digits then
      match processDouble a b str sc.ptr (-1) with
      | .finish p => ⟨p, sc.digits, -1, .KindOfDouble, sign⟩
      | .checkDigits _ => ⟨sc.ptr, sc.digits, -1, .KindOfDouble, sign⟩
    else sc
  else if !(sc.digits < SIZEOF_LONG * 2 ||
      (sc.digits = SIZEOF_LONG * 2 && byteAt b (sc.ptr - sc.digits) ≤ 0x37)) then
    ⟨if a.dval then zendHexStrtodEnd b str else sc.ptr, sc.digits, sc.dpOrE, .KindOfDouble, 1⟩
  else sc

/-- 0 でない byte を読んだ位置は列の中にある。 -/
theorem lt_length_of_byteAt {b : List UInt8} {i : Nat} (h : byteAt b i ≠ 0) : i < b.length := by
  by_contra hi
  exact h (by rw [byteAt, List.getD_eq_getElem?_getD, List.getElem?_eq_none (by omega)]; rfl)

theorem ne_zero_of_digit {c : UInt8} {x : Bool} (h : (IS_DIGIT c || (x && IS_XDIGIT c)) = true) :
    c ≠ 0 := by
  rintro rfl
  cases x <;> exact absurd h (by decide)

-- `hd`・`hp`・`he` は停止性の証明だけが使う
set_option linter.unusedVariables false in
/-- `check_digits:` から始まるループの本体。数字なら `digits++, ptr++` して条件を見て続け、
10 進で `'.'` か指数が来れば `process_double` へ、それ以外ならループを抜ける。 -/
def checkDigits (a : Args) (base : Nat) (b : List UInt8) (str : Nat) (sc : Scan) : Scan :=
  if hd : IS_DIGIT (byteAt b sc.ptr) || (decide (base = 16) && IS_XDIGIT (byteAt b sc.ptr)) then
    let sc' := { sc with ptr := sc.ptr + 1, digits := sc.digits + 1 }
    if loopCond a sc'.digits then checkDigits a base b str sc' else afterLoop a base b str sc'
  else if hp : base = 10 ∧ byteAt b sc.ptr = 0x2e ∧ sc.dpOrE < 1 then
    match processDouble a b str sc.ptr sc.dpOrE with
    | .checkDigits dp =>
      checkDigits a base b str ⟨sc.ptr + 1, sc.digits, dp, .KindOfDouble, sc.overflow⟩
    | .finish p => ⟨p, sc.digits, sc.dpOrE, .KindOfDouble, sc.overflow⟩
  else if base = 10 ∧ (byteAt b sc.ptr = 0x65 ∨ byteAt b sc.ptr = 0x45) ∧ sc.dpOrE < 2 then
    -- `const char *e = ptr + 1; if (*e == '-' || *e == '+') { ptr = e++; }`
    let ptr := if isSign (byteAt b (sc.ptr + 1)) then sc.ptr + 1 else sc.ptr
    if he : IS_DIGIT (byteAt b (ptr + 1)) then
      match processDouble a b str ptr sc.dpOrE with
      | .checkDigits dp => checkDigits a base b str ⟨ptr + 1, sc.digits, dp, .KindOfDouble, sc.overflow⟩
      | .finish p => ⟨p, sc.digits, sc.dpOrE, .KindOfDouble, sc.overflow⟩
    else afterLoop a base b str { sc with ptr := ptr }
  else afterLoop a base b str sc
termination_by b.length + 1 - sc.ptr
decreasing_by
  · have := lt_length_of_byteAt (ne_zero_of_digit hd)
    omega
  · have := lt_length_of_byteAt (b := b) (i := sc.ptr) (by rw [hp.2.1]; decide)
    omega
  · have := lt_length_of_byteAt (ne_zero_of_digit (x := false) (by rw [Bool.false_and, Bool.or_false]; exact he))
    have : sc.ptr ≤ ptr := by dsimp only [ptr]; split <;> omega
    omega

/-- 最後の検査：`ptr` が末尾でなければ（`allow_errors` が 0 なら）数でない。整数なら、19 桁の
ものを `long_min_digits` と比べ、収まらなければ `double` とし、収まれば `*lval` に値を書く。 -/
def finish (a : Args) (b : List UInt8) (str base : Nat) (sc : Scan) : Result :=
  let sign : Int := if byteAt b str = 0x2d then -1 else 1
  if sc.ptr ≠ b.length ∧ a.allowErrors = 0 then ⟨.KindOfNull, none, some sc.overflow⟩
  else if sc.type = .KindOfInt64 then
    let cmp := strncmp (b.drop (sc.ptr - sc.digits)) long_min_digits sc.digits
    if sc.digits = MAX_LENGTH_OF_LONG - 1 ∧ ¬(cmp < 0 ∨ (cmp = 0 ∧ byteAt b str = 0x2d)) then
      ⟨.KindOfDouble, none, some sign⟩
    else
      ⟨.KindOfInt64,
        if a.lval then some (if base = 10 then fast_strtoll_base10 b str else strtollHex b str)
        else none,
        some sc.overflow⟩
  else ⟨.KindOfDouble, none, some sc.overflow⟩

/-- `is_numeric_string(str, length, lval, dval, allow_errors, overflow_info)`。`noHex` は
`RuntimeOption::PHP7_NoHexNumerics`。 -/
def is_numeric_string (noHex : Bool) (b : List UInt8) (a : Args) : Result :=
  if b.length = 0 ∨ 0x39 < byteAt b 0 then ⟨.KindOfNull, none, none⟩
  else
    -- `overflow = 0;` の後、空白を飛ばす
    let str := skipWhile isWhite b 0
    let length := b.length - str
    let ptr := if isSign (byteAt b str) then str + 1 else str
    if IS_DIGIT (byteAt b ptr) then
      let hex := decide (2 < length) && byteAt b str == 0x30 &&
        (byteAt b (str + 1) == 0x78 || byteAt b (str + 1) == 0x58) && !noHex
      let base := if hex then 16 else 10
      -- 先頭の 0 を飛ばしてから数える
      let ptr := skipWhile (· == 0x30) b (if hex then ptr + 2 else ptr)
      let sc : Scan := ⟨ptr, 0, 0, .KindOfInt64, 0⟩
      finish a b str base
        (if loopCond a 0 then checkDigits a base b str sc else afterLoop a base b str sc)
    else if byteAt b ptr = 0x2e ∧ IS_DIGIT (byteAt b (ptr + 1)) then
      finish a b str 10
        (match processDouble a b str ptr 0 with
          | .checkDigits dp => checkDigits a 10 b str ⟨ptr + 1, 0, dp, .KindOfDouble, 0⟩
          | .finish p => ⟨p, 0, 0, .KindOfDouble, 0⟩)
    else ⟨.KindOfNull, none, some 0⟩

/-- `StringData::isNumericWithVal(lval, dval, allow_errors, overflow)`。`hashNeg` は `m_hash < 0`
（数でないと分かっている印）で、返すのは結果と印を付けた後の `m_hash < 0`。 -/
def isNumericWithVal (noHex : Bool) (s : List UInt8) (hashNeg : Bool) (allowErrors : Int) :
    Result × Bool :=
  if hashNeg then (⟨.KindOfNull, none, none⟩, true)
  else if s.length = 0 then (⟨.KindOfNull, none, none⟩, false)
  else
    let r := is_numeric_string noHex s ⟨true, true, allowErrors⟩
    (r, decide (r.type = .KindOfNull) && allowErrors != 0)

end Hhvm.Zend
