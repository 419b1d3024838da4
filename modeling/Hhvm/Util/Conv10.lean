import Mathlib.Data.UInt

/-!
# `conv_10`

`hphp/util/conv-10.cpp` の `conv_10(num, buf_end)`：`int64_t` を 10 進で、buffer の末尾から前へ
書く。負の数の絶対値は `-(num + 1) + 1` で求めるので、`INT64_MIN` でも桁あふれしない。
-/

namespace Hhvm

/-- `do { ... *--p = r + '0'; magnitude = q; } while (magnitude);`：下の桁から前へ書く。 -/
def conv10Loop (magnitude : UInt64) (acc : List UInt8) : List UInt8 :=
  let q := magnitude / 10
  let r := (magnitude % 10).toUInt32
  let acc := (r + 0x30).toUInt8 :: acc
  if q ≠ 0 then conv10Loop q acc else acc
termination_by magnitude.toNat
decreasing_by
  have hq : q ≠ 0 := by assumption
  have hpos : 0 < magnitude.toNat := by
    refine Nat.pos_of_ne_zero fun h => hq ?_
    apply UInt64.toNat_inj.mp
    rw [UInt64.toNat_div, h, Nat.zero_div]
    rfl
  rw [UInt64.toNat_div]
  exact Nat.div_lt_self hpos (by decide)

/-- `conv_10(num, buf_end)` が書く文字列。 -/
def conv10 (num : Int64) : List UInt8 :=
  let magnitude : UInt64 := if num < 0 then (-(num + 1)).toUInt64 + 1 else num.toUInt64
  let digits := conv10Loop magnitude []
  if num < 0 then 0x2d :: digits else digits

end Hhvm
