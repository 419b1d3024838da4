import Mathlib.Logic.Function.Basic

/-!
# `AliasIdSet`

`hphp/runtime/vm/jit/alias-id-set.{h,cpp}`：`[0, Max)` の id の集合を 64 ビットの語 `m_bits`
一つで表す。

* bitset：最上位ビット（63）が立っている。ビット `0..61` が id `0..61` を、ビット 62 が上の範囲
  `[62, Max)` を表す。最上位ビットだけなら `Empty`、全部立てば `Any`。
* big-integer：最上位ビットが立っていない。`m_bits` そのものが `[62, Max)` の id 一つ。`61` 以下の
  id 一つは必ず bitset で表す（`checkInvariants`）。

`folly::popcount` と `ffs64`（`util/bitops.h`、x86 の `bsfq`）は、立っているビットの個数と一番下の
立っているビットの位置。`toString` は扱わない。
-/

namespace Hhvm.Jit

/-- `folly::popcount(x)`：立っているビットの個数。 -/
def popcount (x : UInt64) : Nat :=
  ((List.range 64).filter fun i => x.toNat.testBit i).length

/-- `ffs64(x, out)`：`x` が 0 でなければ一番下の立っているビットの位置。 -/
def ffs64 (x : UInt64) : Option Nat :=
  (List.range 64).find? fun i => x.toNat.testBit i

/-- `struct AliasIdSet`：64 ビットの語 `m_bits`。 -/
structure AliasIdSet where
  m_bits : UInt64
deriving DecidableEq, Repr

namespace AliasIdSet

/-- `static constexpr auto Any = ~0ull;` -/
def Any : UInt64 := ~~~0

/-- `static constexpr auto Empty = 1ull << 63;` -/
def Empty : UInt64 := (1 : UInt64) <<< 63

/-- `static constexpr auto UpperRange = 1ull << 62;`：`[62, Max)`。 -/
def UpperRange : UInt64 := (1 : UInt64) <<< 62

/-- `static constexpr auto Max = std::numeric_limits<uint32_t>::max();` -/
def Max : UInt32 := 4294967295

/-- `static constexpr auto BitsetMax = 61u;` -/
def BitsetMax : UInt32 := 61

/-- `struct IdRange`：`[l, h)`（`assertx(l <= h)`）。 -/
structure IdRange where
  l : UInt32
  h : UInt32
  le : l ≤ h

/-- `explicit IdRange(uint32_t a, uint32_t b = Max) : l(a), h(std::max(a, b))` -/
def IdRange.ofBounds (a b : UInt32) : IdRange where
  l := a
  h := max a b
  le := by
    rw [UInt32.le_iff_toNat_le]
    simp only [max, UInt32.le_iff_toNat_le]
    split <;> omega

namespace IdRange

/-- `size()` -/
def size (r : IdRange) : UInt32 := if r.h = Max then Max else r.h - r.l

/-- `empty()` -/
def empty (r : IdRange) : Bool := r.l == r.h

/-- `hasSingleValue()` -/
def hasSingleValue (r : IdRange) : Bool := r.h - r.l == 1

end IdRange

/-- `AliasIdSet()` -/
def emptySet : AliasIdSet := ⟨Empty⟩

/-- `AliasIdSet(uint32_t id)` -/
def ofId (id : UInt32) : AliasIdSet :=
  if id ≤ BitsetMax then ⟨Empty ||| (1 <<< id.toUInt64)⟩ else ⟨id.toUInt64⟩

/-- `isBitset()` -/
def isBitset (s : AliasIdSet) : Bool := s.m_bits &&& Empty != 0

/-- `isBigInteger()` -/
def isBigInteger (s : AliasIdSet) : Bool := !s.isBitset

/-- `empty()` -/
def empty (s : AliasIdSet) : Bool := s.m_bits == Empty

/-- `hasUpperRange()` -/
def hasUpperRange (s : AliasIdSet) : Bool := s.m_bits &&& UpperRange != 0

/-- `isAny()` -/
def isAny (s : AliasIdSet) : Bool := s.m_bits == Any

/-- `checkInvariants()`：big-integer は `BitsetMax` より大きく `Max` より小さい。 -/
def checkInvariants (s : AliasIdSet) : Bool :=
  if s.isBigInteger then s.m_bits > BitsetMax.toUInt64 && s.m_bits < Max.toUInt64 else true

/-- `hasSingleValue()`：`m_bits & (m_bits - 1)` は一番下の立っているビットを落とす。 -/
def hasSingleValue (s : AliasIdSet) : Bool :=
  if s.isBigInteger then true
  else if s.hasUpperRange then false
  else
    let x := s.m_bits &&& (s.m_bits - 1)
    x == Empty

/-- `size()`：最上位ビットは数えない。 -/
def size (s : AliasIdSet) : UInt32 :=
  if s.isBigInteger then 1
  else if s.hasUpperRange then Max
  else (popcount s.m_bits - 1).toUInt32

/-- `singleValue()`（`assertx(hasSingleValue())`）。 -/
def singleValue (s : AliasIdSet) : UInt32 :=
  if s.isBitset then ((ffs64 s.m_bits).getD 0).toUInt32
  else s.m_bits.toUInt32

/-- `toBitset()`：big-integer は `Empty | UpperRange` に広げる。 -/
def toBitset (s : AliasIdSet) : AliasIdSet :=
  if s.isBigInteger then ⟨Empty ||| UpperRange⟩ else s

/-- `setUpperRange()` -/
def setUpperRange (s : AliasIdSet) : AliasIdSet :=
  if s.isBigInteger then ⟨Empty ||| UpperRange⟩ else ⟨s.m_bits ||| UpperRange⟩

/-- `set(uint32_t id)` -/
def set (s : AliasIdSet) (id : UInt32) : AliasIdSet :=
  if id ≤ BitsetMax then
    -- The only way to represent a small integer is to use the bitset mode.
    ⟨s.toBitset.m_bits ||| (1 <<< id.toUInt64)⟩
  else if s.empty then
    -- Convert an empty bitset to big-integer mode.
    ⟨id.toUInt64⟩
  else if s.m_bits == id.toUInt64 then s
  else s.setUpperRange

/-- `set(IdRange range)` -/
def setRange (s : AliasIdSet) (range : IdRange) : AliasIdSet :=
  if range.empty then s
  else if range.hasSingleValue then s.set range.l
  else
    -- Multiple values, must use a bitset.
    let s := if range.h > BitsetMax + 1 then s.setUpperRange else s.toBitset
    -- Set lower bits as needed.
    if range.l ≤ BitsetMax then
      let nBits := min (BitsetMax + 1) range.h - range.l
      ⟨s.m_bits ||| ((1 <<< nBits.toUInt64) - 1) <<< range.l.toUInt64⟩
    else s

/-- 可変個の `set(first, tail...)` と `AliasIdSet { ... }` の引数一つ：id か範囲。 -/
inductive Arg where
  | id (id : UInt32)
  | range (r : IdRange)

/-- 引数一つの `set`。 -/
def setArg (s : AliasIdSet) : Arg → AliasIdSet
  | .id id => s.set id
  | .range r => s.setRange r

/-- `set(first, tail...)`：先頭から順に `set`。 -/
def setArgs (s : AliasIdSet) (args : List Arg) : AliasIdSet := args.foldl setArg s

/-- `AliasIdSet(IdRange r)` -/
def ofRange (r : IdRange) : AliasIdSet := emptySet.setRange r

/-- `explicit AliasIdSet(Args... args) : m_bits(Empty) { set(args...); }` -/
def ofArgs (args : List Arg) : AliasIdSet := emptySet.setArgs args

/-- `unset(uint32_t id)`：bitset の上の範囲からは除けない。 -/
def unset (s : AliasIdSet) (id : UInt32) : AliasIdSet :=
  if s.isBigInteger then
    -- Empty is represented in bitset mode.
    if s.m_bits == id.toUInt64 then ⟨Empty⟩ else s
  else if id > BitsetMax then s
  else ⟨s.m_bits &&& ~~~(1 <<< id.toUInt64)⟩

/-- `test(uint32_t id)` -/
def test (s : AliasIdSet) (id : UInt32) : Bool :=
  if s.isBitset then
    if id ≤ BitsetMax then s.m_bits &&& (1 <<< id.toUInt64) != 0
    else s.hasUpperRange
  else s.m_bits == id.toUInt64

/-- `clear()` -/
def clear (_ : AliasIdSet) : AliasIdSet := ⟨Empty⟩

/-- `maybe(other)`：`r & (r - 1)` は最上位ビットのほかに立っているビットがあるかを問う。 -/
def maybe (s other : AliasIdSet) : Bool :=
  if s.isBigInteger then
    if s.m_bits == other.m_bits then true
    else other.hasUpperRange
  else if other.isBigInteger then s.hasUpperRange
  else
    let r := s.m_bits &&& other.m_bits
    r &&& (r - 1) != 0

/-- `operator|=(rhs)`：新しい `*this`。 -/
def orAssign (s rhs : AliasIdSet) : AliasIdSet :=
  if s == rhs || rhs.empty then s
  else if s.empty then ⟨rhs.m_bits⟩
  else
    -- Result contains a big integer, as well as one other integer.
    let s := if s.isBigInteger || rhs.isBigInteger then s.setUpperRange else s
    if rhs.isBitset then ⟨s.m_bits ||| rhs.m_bits⟩ else s

/-- `operator|(lhs, rhs)` -/
def or (lhs rhs : AliasIdSet) : AliasIdSet := lhs.orAssign rhs

/-- `isSubsetOf(rhs)`（`operator<=`）。 -/
def isSubsetOf (s rhs : AliasIdSet) : Bool :=
  if s == rhs || s.empty then true
  else if s.isBigInteger then rhs.hasUpperRange
  else if rhs.isBigInteger then false
  else !(s.m_bits &&& ~~~rhs.m_bits != 0)

end AliasIdSet

end Hhvm.Jit
