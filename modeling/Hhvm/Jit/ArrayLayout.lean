import Hhvm.Array.Bespoke.Layout

/-!
# JIT の配列の配置

`hphp/runtime/vm/jit/array-layout.cpp`：JIT の型が配列について持つ配置 `ArrayLayout`。

配置は `uint16_t` の列挙 `Sort` の値一つで、名前のある四つ `Top = 0`・`Bottom = 1`・
`Vanilla = 2`・`Bespoke = 3` を **基本の種類** と呼ぶ。それより大きい値は bespoke の配置で、
配置表の添字 `index` を `index + Bespoke` として持つ（`sortFromLayoutIndex`）。`Bespoke` 自身は
添字 0、すなわち `kBespokeTopIndex` の配置である。

基本の種類の和と共通部分は、2 ビットの符号 `maskBasicSort` の上のビット演算で計算する
（`Vanilla = 0b01`、`Bespoke = 0b10`）。二つとも bespoke の配置なら `Layout` の演算子に任せる。

`sortFromLayoutIndex` は `uint16_t` への変換で上の桁を捨てる。源の `assertx` は読み込まない。
-/

namespace Hhvm

namespace Jit

open Bespoke

/-- `ArrayLayout`：`Sort` の値一つ。 -/
structure ArrayLayout where
  sort : UInt16
deriving DecidableEq, Repr

namespace ArrayLayout

/-- `Top()`：`Sort::Top`。 -/
def Top : ArrayLayout := ⟨0⟩

/-- `Bottom()`：`Sort::Bottom`。 -/
def Bottom : ArrayLayout := ⟨1⟩

/-- `Vanilla()`：`Sort::Vanilla`。 -/
def Vanilla : ArrayLayout := ⟨2⟩

/-- `Bespoke()`：`Sort::Bespoke`。 -/
def Bespoke : ArrayLayout := ⟨3⟩

/-! ## 基本の種類 -/

def kBasicSortMask : Nat := 0b11
def kBasicSortShift : Nat := 0b11
def kBasicSortUnshift : Nat := 0b01

/-- `isBasicSort`：名前のある四つの値のどれか。 -/
def isBasicSort (sort : UInt16) : Bool := sort ≤ Bespoke.sort

/-- `toBasicSort`：基本でない種類（bespoke の配置）を `Bespoke` にする。 -/
def toBasicSort (sort : UInt16) : UInt16 := min sort Bespoke.sort

/-- `maskBasicSort`：基本の種類の 2 ビットの符号。 -/
def maskBasicSort (sort : UInt16) : Nat := kBasicSortMask &&& (sort.toNat + kBasicSortShift)

/-- `unmaskBasicSort`：`maskBasicSort` の逆。 -/
def unmaskBasicSort (masked : Nat) : UInt16 :=
  UInt16.ofNat (kBasicSortMask &&& (masked + kBasicSortUnshift))

/-- `intersectBasicSort`：符号のビットごとの積。 -/
def intersectBasicSort (a b : UInt16) : UInt16 :=
  unmaskBasicSort (maskBasicSort a &&& maskBasicSort b)

/-- `unionBasicSort`：符号のビットごとの和。 -/
def unionBasicSort (a b : UInt16) : UInt16 :=
  unmaskBasicSort (maskBasicSort a ||| maskBasicSort b)

/-- `sortFromLayoutIndex`：`index + Bespoke` を `uint16_t` の `Sort` にする。 -/
def sortFromLayoutIndex (index : LayoutIndex) : UInt16 :=
  UInt16.ofNat (index.toNat + Bespoke.sort.toNat)

/-! ## 配置との行き来 -/

/-- `ArrayLayout(LayoutIndex)`・`ArrayLayout(const Layout*)`。 -/
def ofLayoutIndex (index : LayoutIndex) : ArrayLayout := ⟨sortFromLayoutIndex index⟩

/-- `layoutIndex`：`Bespoke` からのずれ。負なら無い。 -/
def layoutIndex (a : ArrayLayout) : Option LayoutIndex :=
  if a.sort.toNat < Bespoke.sort.toNat then none
  else some (UInt16.ofNat (a.sort.toNat - Bespoke.sort.toNat))

/-- `assertBespoke`：bespoke の配置の添字。演算子は基本でない種類にだけ使う。 -/
def assertBespoke (a : ArrayLayout) : LayoutIndex := UInt16.ofNat (a.sort.toNat - Bespoke.sort.toNat)

/-! ## 演算子 -/

variable (H : Hierarchy)

/-- `operator<=`。 -/
def le (a o : ArrayLayout) : Bool :=
  if a = o then true
  else if o = Top then true
  else if a = Bottom then true
  -- 基本の種類の鎖は高々三つ：上の三つで尽きている
  else if isBasicSort a.sort then false
  else if isBasicSort o.sort then o = Bespoke
  else H.le (assertBespoke a) (assertBespoke o)

/-- `operator|`。二つの bespoke の配置に共通の祖先が無ければ `not_reached()`（`none`）。 -/
def join (a o : ArrayLayout) : Option ArrayLayout :=
  if a = o then some o
  else if o = Bottom then some a
  else if a = Bottom then some o
  -- どちらかが基本の種類なら、結果も基本の種類
  else if isBasicSort a.sort || isBasicSort o.sort then
    some ⟨unionBasicSort (toBasicSort a.sort) (toBasicSort o.sort)⟩
  else (H.join (assertBespoke a) (assertBespoke o)).map ofLayoutIndex

/-- `operator&`。 -/
def meet (a o : ArrayLayout) : ArrayLayout :=
  if a = o then o
  else if o = Top then a
  else if a = Top then o
  else
    -- 二つとも基本の種類が `Bespoke` のときだけ bespoke の配置の共通部分をとる
    let m := intersectBasicSort (toBasicSort a.sort) (toBasicSort o.sort)
    if m ≠ Bespoke.sort then ⟨m⟩
    else if o = Bespoke then a
    else if a = Bespoke then o
    else
      match H.meet (assertBespoke a) (assertBespoke o) with
      | some c => ofLayoutIndex c
      | none => Bottom

end ArrayLayout

end Jit

end Hhvm
