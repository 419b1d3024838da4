import Mathlib.Data.UInt

/-!
# 整数の hash と整数の文字列

`hphp/util/hash.h` の `hash_int64`。CRC32 命令が使える platform では `crc32q` を、
それ以外では `hash_int64_fallback` を使う。ここでは後者を写す。

同じ header の `is_strictly_integer` は、配列の key の文字列が整数の正規の表記かを見る。文字列は
`nKeyLength` byte の列で、その後に終端の NUL がある（空の文字列の `arKey[0]` は NUL）。
-/

namespace Hhvm

/-- `hash_int64_fallback`：64 bit の mix 関数で、下位 32 bit を返す。 -/
def hashInt64Fallback (key : UInt64) : UInt64 :=
  let key := ~~~key + (key <<< 21)
  let key := key ^^^ (key >>> 24)
  let key := key + (key <<< 3) + (key <<< 8)
  let key := key ^^^ (key >>> 14)
  let key := key + (key <<< 2) + (key <<< 4)
  let key := key ^^^ (key >>> 28)
  key.toUInt32.toUInt64

example : hashInt64Fallback 2 = 0x6f2a0674 := by decide

/-- `for (; i < nKeyLength; ++i)`：数字なら `num = 10*num + (arKey[i] - '0')`（`unsigned long long`）、
数字でない byte があれば `good = false`。 -/
def strictDigits : List UInt8 → UInt64 → Option UInt64
  | [], num => some num
  | c :: rest, num =>
    if 0x30 ≤ c ∧ c ≤ 0x39 then strictDigits rest (10 * num + (c - 0x30).toUInt64) else none

/-- `if (num <= 0x7FFFFFFFFFFFFFFFULL || (neg && num == 0x8000000000000000ULL))`、
`res = neg ? 0 - num : (long long)num`。 -/
def strictResult (neg : Bool) (num : UInt64) : Option Int64 :=
  if num ≤ 0x7FFFFFFFFFFFFFFF ∨ (neg ∧ num = 0x8000000000000000) then
    some (if neg then (0 - num).toInt64 else num.toInt64)
  else none

/-- `is_strictly_integer(arKey, nKeyLength, res)`：真なら `res` を返す。 -/
def isStrictlyInteger (arKey : List UInt8) : Option Int64 :=
  let c0 := arKey.getD 0 0
  -- `(unsigned char)(arKey[0] - '-') > ('9' - '-')`
  if c0 - 0x2d > 0x39 - 0x2d then none
  else if arKey.length ≤ 19 ∨ (c0 = 0x2d ∧ arKey.length = 20) then
    if c0 = 0x2d then
      if arKey.length = 1 then none
      else if arKey.getD 1 0 = 0x30 then none
      else (strictDigits (arKey.drop 1) 0).bind (strictResult true)
    else if c0 = 0x30 then
      if arKey.length = 1 then some 0 else none
    else (strictDigits arKey 0).bind (strictResult false)
  else none

end Hhvm
