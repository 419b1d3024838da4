import Hhvm.Infra.Lifetime
import Mathlib.Data.UInt

/-!
# `CompactVector`

`hphp/util/compact-vector.h`。要素の数と容量は block の先頭の header（`CompactVectorData`：
`uint32_t` の `m_len` と `m_capacity`）にあり、`m_data` が null なら空。要素の block は
`Infra.Lifetime` の heap の上にあり、header は block の番号ごとに `hdr` に置く。
`required_mem(n)` の大きさの block は、`n` 要素の block とする（`sizeof(T) > 0` なので大きさから
`n` が決まる）。

いくつもの `CompactVector` を番号で区別する（`data v` が `v` 番目の `m_data`）。コピー、ムーブ、
`swap` は二つの番号の間の操作。反復子は `elems()` からの位置。`const T&` の引数は `Val`：外の値か、
どこかの block の要素への参照で、読むのは使うとき。

`safe_cast<uint32_t>` は release build の `static_cast`（`2^32` の剰余）とした（debug build では
止まる）。`allocate` は失敗しないとし、`T` の破棄は自明でないとする（`clear` が要素を破棄する）。
-/

namespace Hhvm.CompactVector

open Infra.Lifetime

/-- `CompactVectorData`：block の先頭の `m_len` と `m_capacity`。 -/
structure Header where
  m_len : UInt32
  m_capacity : UInt32

/-- heap、block ごとの header、各 `CompactVector` の `m_data`。 -/
structure St (α : Type) where
  heap : Heap α
  hdr : Nat → Header
  data : Nat → Option Nat

variable {α : Type}

/-- `initial_capacity` -/
def initial_capacity : Nat := 4

namespace St

/-- `size()` -/
def size (s : St α) (v : Nat) : Nat :=
  match s.data v with
  | some b => (s.hdr b).m_len.toNat
  | none => 0

/-- `capacity()` -/
def capacity (s : St α) (v : Nat) : Nat :=
  match s.data v with
  | some b => (s.hdr b).m_capacity.toNat
  | none => 0

/-- block `b` の `m_len` を書く。 -/
def setLen (s : St α) (b : Nat) (n : UInt32) : St α :=
  ⟨s.heap, Function.update s.hdr b ⟨n, (s.hdr b).m_capacity⟩, s.data⟩

/-- `v` 番目の `m_data` を書く。 -/
def setData (s : St α) (v : Nat) (d : Option Nat) : St α :=
  ⟨s.heap, s.hdr, Function.update s.data v d⟩

/-- heap を置き換える。 -/
def withHeap (s : St α) (h : Heap α) : St α := ⟨h, s.hdr, s.data⟩

/-- `begin()..end()`（`operator[]`）で見える要素。生きていない場所は `none`。 -/
def elems (s : St α) (v : Nat) : List (Option α) :=
  match s.data v with
  | some b => s.heap.view b (s.size v)
  | none => []

end St

/-! ## 要素の上のループ -/

/-- `reserve_impl` の `while (len--) { new (new_elems++) T(std::move(*old_elems));
old_elems++->~T(); }`：`i` 番目から `n` 個を古い block `ob` から新しい block `nb` へ。 -/
def moveElems (ob nb : Nat) : Nat → Nat → Heap α → Except Fault (Heap α)
  | _, 0, h => pure h
  | i, n + 1, h => do
    let x ← h.read ob i
    let h ← h.construct nb i x
    let h ← h.destroy ob i
    moveElems ob nb (i + 1) n h

/-- `elm++->~T()` を `i` 番目から `n` 個。 -/
def destroyElems (b : Nat) : Nat → Nat → Heap α → Except Fault (Heap α)
  | _, 0, h => pure h
  | i, n + 1, h => do
    let h ← h.destroy b i
    destroyElems b (i + 1) n h

/-- `erase` の `*dst++ = std::move(*src++)` を `n` 回。 -/
def moveAssign (b : Nat) : Nat → Nat → Nat → Heap α → Except Fault (Heap α)
  | _, _, 0, h => pure h
  | dst, src, n + 1, h => do
    let x ← h.read b src
    let h ← h.assign b dst x
    moveAssign b (dst + 1) (src + 1) n h

/-- `insert_elems` の `while (e != before) { --e; new (e + num) T(std::move(*e)); e->~T(); }`：
`before` からの `n` 個を、上から順に `num` だけ上へ。 -/
def shiftUp (b num before : Nat) : Nat → Heap α → Except Fault (Heap α)
  | 0, h => pure h
  | n + 1, h => do
    let x ← h.read b (before + n)
    let h ← h.construct b (before + n + num) x
    let h ← h.destroy b (before + n)
    shiftUp b num before n h

/-- `insert_impl` の `while (num--) new (e + num) T(val)`：上から `n` 個、そのたびに `val` を読む。 -/
def constructDown (b e : Nat) (val : Val α) : Nat → Heap α → Except Fault (Heap α)
  | 0, h => pure h
  | n + 1, h => do
    let x ← h.load val
    let h ← h.construct b (e + n) x
    constructDown b e val n h

/-- `insert(before, i1, i2)` の `while (i1 != i2) new (i++) T(*i1++)`。 -/
def constructList (b : Nat) : Nat → List α → Heap α → Except Fault (Heap α)
  | _, [], h => pure h
  | i, x :: xs, h => do
    let h ← h.construct b i x
    constructList b (i + 1) xs h

/-! ## 容量 -/

/-- `reserve_impl(new_capacity)`：新しい block を割り当て、要素をムーブして古い block を解放する。 -/
def reserve_impl (v new_capacity : Nat) (s : St α) : Except Fault (St α) :=
  let (heap, nb) := s.heap.alloc new_capacity
  match s.data v with
  | some ob => do
    let len := (s.hdr ob).m_len
    let old_capacity := (s.hdr ob).m_capacity
    -- `m_data->m_capacity = safe_cast<uint32_t>(new_capacity)`
    let hdr := Function.update s.hdr nb ⟨len, UInt32.ofNat new_capacity⟩
    let heap ← moveElems ob nb 0 len.toNat heap
    let heap ← heap.dealloc ob old_capacity.toNat
    pure ⟨heap, hdr, Function.update s.data v (some nb)⟩
  | none =>
    -- `m_data->m_capacity = new_capacity`：`uint32_t` への暗黙の変換
    pure ⟨heap, Function.update s.hdr nb ⟨0, UInt32.ofNat new_capacity⟩,
      Function.update s.data v (some nb)⟩

/-- `grow()`：容量を倍に（空なら `initial_capacity`）。 -/
def grow (v : Nat) (s : St α) : Except Fault (St α) :=
  reserve_impl v
    (match s.data v with
      | some b => (s.hdr b).m_capacity.toNat * 2
      | none => initial_capacity) s

/-- `reserve(new_capacity)` -/
def reserve (v new_capacity : Nat) (s : St α) : Except Fault (St α) :=
  if new_capacity > s.capacity v then reserve_impl v new_capacity s else pure s

/-- `clear()`：要素を破棄し、block を `required_mem(m_capacity)` で解放する。 -/
def clear (v : Nat) (s : St α) : Except Fault (St α) :=
  match s.data v with
  | none => pure s
  | some b => do
    let heap ← destroyElems b 0 (s.hdr b).m_len.toNat s.heap
    let heap ← heap.dealloc b (s.hdr b).m_capacity.toNat
    pure ((s.withHeap heap).setData v none)

/-- `shrink_to_fit()` -/
def shrink_to_fit (v : Nat) (s : St α) : Except Fault (St α) :=
  match s.data v with
  | none => pure s
  | some b =>
    if (s.hdr b).m_capacity = (s.hdr b).m_len then pure s
    else if (s.hdr b).m_len = 0 then clear v s
    else reserve_impl v (s.hdr b).m_len.toNat s

/-! ## 末尾 -/

/-- `push_back(val)`。`push_back(T&&)` と `emplace_back(args...)` も同じ本体で、引数から要素を
構築するのは `grow()` と `++m_len` の後。 -/
def push_back (v : Nat) (val : Val α) (s : St α) : Except Fault (St α) := do
  let sz := s.size v
  let s ← if sz = s.capacity v then grow v s else pure s
  match s.data v with
  | some b =>
    let s := s.setLen b ((s.hdr b).m_len + 1)
    let x ← s.heap.load val
    let heap ← s.heap.construct b sz x
    pure (s.withHeap heap)
  -- `grow` の後は必ず `m_data` がある
  | none => pure s

/-- `emplace_back(args...)`：`push_back` と同じ。 -/
def emplace_back (v : Nat) (val : Val α) (s : St α) : Except Fault (St α) := push_back v val s

/-- `pop_back()`：空なら何もしない。 -/
def pop_back (v : Nat) (s : St α) : Except Fault (St α) :=
  match s.data v with
  | some b =>
    if 0 < (s.hdr b).m_len.toNat then do
      let heap ← s.heap.destroy b ((s.hdr b).m_len.toNat - 1)
      pure ((s.withHeap heap).setLen b ((s.hdr b).m_len - 1))
    else pure s
  | none => pure s

/-! ## 途中の削除と挿入 -/

/-- `erase(elm)`：後ろを一つずつ前へムーブ代入し、末尾を破棄する。 -/
def erase (v i : Nat) (s : St α) : Except Fault (St α) :=
  match s.data v with
  | some b => do
    let len := (s.hdr b).m_len.toNat
    let heap ← moveAssign b i (i + 1) (len - (i + 1)) s.heap
    let heap ← heap.destroy b (len - 1)
    pure ((s.withHeap heap).setLen b ((s.hdr b).m_len - 1))
  -- `elems()` は `m_data` を仮定する
  | none => throw .notAllocated

/-- `erase(elm1, elm2)`：`[elm2, end)` を `elm1` へムーブ代入し、`m_len -= elm2 - elm1` の後で
残りを破棄する。 -/
def erase_range (v i₁ i₂ : Nat) (s : St α) : Except Fault (St α) :=
  if i₁ = i₂ then pure s
  else match s.data v with
    | some b => do
      let len := (s.hdr b).m_len.toNat
      let heap ← moveAssign b i₁ i₂ (len - i₂) s.heap
      let s := (s.withHeap heap).setLen b ((s.hdr b).m_len - UInt32.ofNat (i₂ - i₁))
      let heap ← destroyElems b (i₁ + (len - i₂)) (i₂ - i₁) s.heap
      pure (s.withHeap heap)
    | none => throw .notAllocated

/-- `insert_elems(before, num)`：足りなければ容量を広げ、`[before, end)` を `num` だけ上へ
ずらす。返すのはずらした後の `before`。 -/
def insert_elems (v before num : Nat) (s : St α) : Except Fault (St α × Nat) :=
  if num = 0 then pure (s, before)
  else do
    let sz := s.size v
    let cap := s.capacity v
    let (s, before) ← if sz + num > cap then do
        let pos := if sz ≠ 0 then before else 0
        -- `cap <<= 1; if (sz + num > cap) { cap = sz + num; if (cap < initial_capacity) ... }`
        let cap := if sz + num > cap * 2 then max (sz + num) initial_capacity else cap * 2
        let s ← reserve v cap s
        pure (s, pos)
      else pure (s, before)
    match s.data v with
    | some b => do
      let e := s.size v
      let s := s.setLen b ((s.hdr b).m_len + UInt32.ofNat num)
      let heap ← shiftUp b num before (e - before) s.heap
      pure (s.withHeap heap, before)
    -- `num > 0` なら必ず `m_data` がある
    | none => pure (s, before)

/-- `insert_impl(before, num, val)`：`num` 個の場所を空け、上から `val` を構築する。
`insert(p, v)` は `num = 1`。 -/
def insert_impl (v before num : Nat) (val : Val α) (s : St α) : Except Fault (St α × Nat) := do
  let (s, e) ← insert_elems v before num s
  match s.data v with
  | some b => do
    let heap ← constructDown b e val num s.heap
    pure (s.withHeap heap, e)
  | none => pure (s, e)

/-- `insert(before, i1, i2)`：別の容れ物の値 `xs` を順に構築する。 -/
def insert_range (v before : Nat) (xs : List α) (s : St α) : Except Fault (St α × Nat) := do
  let (s, e) ← insert_elems v before xs.length s
  match s.data v with
  | some b => do
    let heap ← constructList b e xs s.heap
    pure (s.withHeap heap, e)
  | none => pure (s, e)

/-! ## 大きさを変える -/

/-- `resize_helper(sz)`：同じなら何もせず、大きくするなら `reserve_impl(sz)`（`false` を返して
呼び手が足す）、小さくするなら `m_len = sz` として後ろを破棄する。 -/
def resize_helper (v sz : Nat) (s : St α) : Except Fault (St α × Bool) :=
  let old_size := s.size v
  if sz = old_size then pure (s, true)
  else if sz > old_size then do
    let s ← reserve_impl v sz s
    pure (s, false)
  else match s.data v with
    | some b => do
      let s := s.setLen b (UInt32.ofNat sz)
      let heap ← destroyElems b sz (old_size - sz) s.heap
      pure (s.withHeap heap, true)
    -- `old_size = 0` なので `sz < old_size` にならない
    | none => pure (s, true)

/-- `while (m_data->m_len < sz) push_back(v);`。回すのは高々 `fuel` 回。 -/
def pushWhile (v sz : Nat) (val : Val α) : Nat → St α → Except Fault (St α)
  | 0, s => pure s
  | fuel + 1, s =>
    if s.size v < sz then do
      let s ← push_back v val s
      pushWhile v sz val fuel s
    else pure s

/-- `resize(sz, v)`。`resize(sz)` は `v = T{}` で同じ本体。 -/
def resize (v sz : Nat) (val : Val α) (s : St α) : Except Fault (St α) := do
  let (s, done) ← resize_helper v sz s
  if done then pure s else pushWhile v sz val sz s

/-! ## 構築、代入、入れ替え -/

/-- `CompactVector()`：`m_data = nullptr`。 -/
def default_construct (v : Nat) (s : St α) : St α := s.setData v none

/-- `CompactVector(n, val)`：`m_data = nullptr` から `resize(n, val)`。`CompactVector(n)` は
`val = T{}` で同じ本体。 -/
def size_construct (v n : Nat) (val : Val α) (s : St α) : Except Fault (St α) :=
  resize v n val (s.setData v none)

/-- `~CompactVector()`：`clear()`。 -/
def destruct (v : Nat) (s : St α) : Except Fault (St α) := clear v s

/-- `push_back(other[i])` を `i` 番目から `n` 個。 -/
def pushElems (v ob : Nat) : Nat → Nat → St α → Except Fault (St α)
  | _, 0, s => pure s
  | i, n + 1, s => do
    let s ← push_back v (.ref ob i) s
    pushElems v ob (i + 1) n s

/-- `assign(other)`：空でなければ `reserve_impl(other.m_len)` の後、要素を一つずつ
`push_back(other[i])`。 -/
def assign (v o : Nat) (s : St α) : Except Fault (St α) :=
  match s.data o with
  | none => pure s
  | some ob =>
    if (s.hdr ob).m_len.toNat = 0 then pure s
    else do
      let s ← reserve_impl v (s.hdr ob).m_len.toNat s
      pushElems v ob 0 (s.hdr ob).m_len.toNat s

/-- `CompactVector(const CompactVector& other)`：`m_data(nullptr)` から `assign(other)`。 -/
def copy_construct (v o : Nat) (s : St α) : Except Fault (St α) := assign v o (s.setData v none)

/-- `operator=(const CompactVector&)`：自分自身でなければ `clear()` の後 `assign(other)`。 -/
def copy_assign (v o : Nat) (s : St α) : Except Fault (St α) :=
  if v = o then pure s
  else do
    let s ← clear v s
    assign v o s

/-- `swap(other)`、`operator=(CompactVector&&)`：`m_data` を入れ替える。 -/
def swap (v o : Nat) (s : St α) : St α :=
  (s.setData v (s.data o)).setData o (s.data v)

/-- `CompactVector(CompactVector&& other)`：`m_data` を取り、`other` を空にする。 -/
def move_construct (v o : Nat) (s : St α) : St α :=
  (s.setData v (s.data o)).setData o none

/-- `CompactVector(std::initializer_list<T>)`：`reserve_impl(init.size())` の後、一つずつ
`push_back`。 -/
def init_list (v : Nat) (xs : List α) (s : St α) : Except Fault (St α) := do
  let s ← reserve_impl v xs.length (s.setData v none)
  xs.foldlM (fun s x => push_back v (.val x) s) s

end Hhvm.CompactVector
