import Mathlib.Logic.Function.Basic

/-!
# `sparse_id_set` と `sparse_id_map`

`hphp/util/sparse-id-containers.h`。`[0, universeSize)` の番号を鍵とする疎集合：`m_mem` の前半が
sparse、後半が dense で、`dense[0, m_next)` が要素を並べ、`sparse[k]` はその要素の位置を指す。
`malloc` した領域は初期化しないので、sparse と dense はどんな中身からでも始まる（写像 `Nat → _` で
持ち、構築の引数に取る）。

集合と写像は、dense の要素から鍵を取り出す `key`（集合では要素そのもの、写像では `first`）を除けば
`containsImpl`・`insert`・`erase` が同じなので、その三つを `Store` に置く。番号の型 `T` は符号なし
整数で、`m_next` は `m_universe_size` を超えないので、ここでは `Nat` で持つ。

`sparse_id_set` のコピー代入 `operator=(const sparse_id_set& o)` は宇宙が違うとき `swap(o)` を
`const` の参照で呼ぶので、実体化すると型が合わない。リポジトリにこれを実体化する所はなく、実行
されることのないこの関数はモデルにしない。`sparse_id_map` のコピー代入は `swap(tmp)` で正しい。
-/

namespace Hhvm.SparseId

/-- `m_universe_size`、`m_next` と、`m_mem` の sparse・dense の二つの配列。 -/
structure Store (α : Type) where
  universeSize : Nat
  next : Nat
  sparse : Nat → Nat
  dense : Nat → α

namespace Store

variable {α : Type} (key : α → Nat)

/-- `containsImpl(k)`：`sparse[k]` が `m_next` 未満で、そこにある dense の要素の鍵が `k`。 -/
def containsImpl (s : Store α) (k : Nat) : Bool :=
  decide (s.sparse k < s.next) && decide (key (s.dense (s.sparse k)) = k)

/-- `insert(v)`：鍵がなければ dense の末尾に置き、sparse から指す。 -/
def insert (s : Store α) (v : α) : Store α :=
  if s.containsImpl key (key v) then s
  else
    { s with
      dense := Function.update s.dense s.next v
      sparse := Function.update s.sparse (key v) s.next
      next := s.next + 1 }

/-- `erase(k)`：鍵があれば、dense の末尾の要素をその位置に移して一つ縮める。 -/
def erase (s : Store α) (k : Nat) : Store α :=
  let didx := s.sparse k
  if didx ≥ s.next ∨ key (s.dense didx) ≠ k then s
  else
    let moving := s.dense (s.next - 1)
    { s with
      sparse := Function.update s.sparse (key moving) didx
      dense := Function.update s.dense didx moving
      next := s.next - 1 }

/-- `clear()`。 -/
def clear (s : Store α) : Store α := { s with next := 0 }

/-- `begin()..end()`：dense の先頭 `m_next` 個。 -/
def elems (s : Store α) : List α := (List.range s.next).map s.dense

end Store

/-! ## `sparse_id_set` -/

/-- `sparse_id_set<T>`。 -/
abbrev SparseIdSet := Store Nat

namespace SparseIdSet

/-- `sparse_id_set(universe_size)`：sparse と dense は `malloc` したままの中身。 -/
def mk (universeSize : Nat) (sparse dense : Nat → Nat) : SparseIdSet :=
  ⟨universeSize, 0, sparse, dense⟩

def containsImpl (s : SparseIdSet) (t : Nat) : Bool := Store.containsImpl id s t

/-- `contains_safe(t)`。 -/
def containsSafe (s : SparseIdSet) (t : Nat) : Bool := decide (t < s.universeSize) && s.containsImpl t

def insert (s : SparseIdSet) (t : Nat) : SparseIdSet := Store.insert id s t

def erase (s : SparseIdSet) (t : Nat) : SparseIdSet := Store.erase id s t

/-- `size()`。 -/
def size (s : SparseIdSet) : Nat := s.next

/-- `operator|=(o)`：`for (auto t : o) insert(t);` -/
def orAssign (s o : SparseIdSet) : SparseIdSet := o.elems.foldl insert s

/-- `operator-=(o)`：`for (auto t : o) erase(t);` -/
def minusAssign (s o : SparseIdSet) : SparseIdSet := o.elems.foldl erase s

/-- `operator&=` の `while (fwd != back)`。`fwd <= back` は保たれる（`assert(fwd < back)`）ので、
`fwd != back` を `fwd < back` と書く。`o` にない要素には `dense[--back]` を移す。 -/
def andAssignLoop (o : SparseIdSet) (fwd back : Nat) (s : SparseIdSet) : SparseIdSet :=
  if fwd < back then
    if !o.containsImpl (s.dense fwd) then
      let val := s.dense (back - 1)
      andAssignLoop o fwd (back - 1)
        { s with
          sparse := Function.update s.sparse val fwd
          dense := Function.update s.dense fwd val }
    else andAssignLoop o (fwd + 1) back s
  else { s with next := back }
termination_by back - fwd

/-- `operator&=(o)`。 -/
def andAssign (s o : SparseIdSet) : SparseIdSet := andAssignLoop o 0 s.next s

/-- `operator==(o)`：宇宙の大きさと要素の数が同じで、どの要素も `o` にある。 -/
def equal (s o : SparseIdSet) : Bool :=
  decide (s.universeSize = o.universeSize) && decide (s.size = o.size) && s.elems.all o.containsImpl

/-- `sparse_id_set(const sparse_id_set& o)`：同じ宇宙の空の集合を作って `*this |= o`。 -/
def copy (o : SparseIdSet) (sparse dense : Nat → Nat) : SparseIdSet :=
  orAssign (mk o.universeSize sparse dense) o

end SparseIdSet

/-! ## `sparse_id_map` -/

/-- `sparse_id_map<K, V>`：dense に `std::pair<const K, V>` を並べる。 -/
abbrev SparseIdMap (V : Type) := Store (Nat × V)

namespace SparseIdMap

variable {V : Type}

/-- `sparse_id_map(universe_size)`。 -/
def mk (universeSize : Nat) (sparse : Nat → Nat) (dense : Nat → Nat × V) : SparseIdMap V :=
  ⟨universeSize, 0, sparse, dense⟩

def containsImpl (s : SparseIdMap V) (k : Nat) : Bool := Store.containsImpl Prod.fst s k

def insert (s : SparseIdMap V) (v : Nat × V) : SparseIdMap V := Store.insert Prod.fst s v

/-- `erase(k)`：末尾の要素の値と鍵を `didx` に移すのは `didx < m_next - 1` のときだけ
（自分への移動を避ける）。`sparse[moved_key] = didx` は必ず書く。 -/
def erase (s : SparseIdMap V) (k : Nat) : SparseIdMap V :=
  let didx := s.sparse k
  if didx ≥ s.next ∨ (s.dense didx).1 ≠ k then s
  else
    let moving := s.dense (s.next - 1)
    let dense := if didx < s.next - 1 then Function.update s.dense didx (moving.1, moving.2)
      else s.dense
    { s with
      sparse := Function.update s.sparse moving.1 didx
      dense := dense
      next := s.next - 1 }

/-- `operator[](k)` が返す参照の値に `f` を施す：鍵がなければ先に `V{}`（`dflt`）で挿入する。 -/
def subscript (s : SparseIdMap V) (k : Nat) (dflt : V) (f : V → V) : SparseIdMap V :=
  let s := if s.containsImpl k then s else s.insert (k, dflt)
  let i := s.sparse k
  { s with dense := Function.update s.dense i ((s.dense i).1, f (s.dense i).2) }

/-- `merge(o, val_merge)` の `while (fwd != m_next)`。`o` にない鍵は末尾の要素と入れ替えて捨て、
ある鍵の値は `val_merge(this の値, o の値)` で更新する（`val_merge` は新しい値と変わったかを返す）。 -/
def mergeLoop (o : SparseIdMap V) (valMerge : V → V → V × Bool) (fwd : Nat) (changed : Bool)
    (s : SparseIdMap V) : SparseIdMap V × Bool :=
  if fwd < s.next then
    let k := (s.dense fwd).1
    if !o.containsImpl k then
      if fwd = s.next - 1 then mergeLoop o valMerge fwd true { s with next := s.next - 1 }
      else
        let tomove := s.dense (s.next - 1)
        mergeLoop o valMerge fwd true
          { s with
            sparse := Function.update s.sparse tomove.1 fwd
            dense := Function.update s.dense fwd (tomove.1, tomove.2)
            next := s.next - 1 }
    else
      let r := valMerge (s.dense fwd).2 (o.dense (o.sparse k)).2
      mergeLoop o valMerge (fwd + 1) (changed || r.2)
        { s with dense := Function.update s.dense fwd (k, r.1) }
  else (s, changed)
termination_by s.next - fwd

/-- `merge(o, val_merge)`：鍵の共通部分を残し、変わったかを返す。 -/
def merge (s o : SparseIdMap V) (valMerge : V → V → V × Bool) : SparseIdMap V × Bool :=
  mergeLoop o valMerge 0 false s

/-- `operator==(o)`：宇宙の大きさと要素の数が同じで、どの鍵も `o` にあって値が等しい。 -/
def equal [DecidableEq V] (s o : SparseIdMap V) : Bool :=
  decide (s.universeSize = o.universeSize) && decide (s.next = o.next) &&
    s.elems.all fun kv => o.containsImpl kv.1 && decide ((o.dense (o.sparse kv.1)).2 = kv.2)

/-- `sparse_id_map(const sparse_id_map& o)`：dense の先頭を写し、写した鍵の sparse を書く。 -/
def copy (o : SparseIdMap V) (sparse : Nat → Nat) (dense : Nat → Nat × V) : SparseIdMap V :=
  (List.range o.next).foldl
    (fun s idx =>
      { s with
        dense := Function.update s.dense idx (o.dense idx)
        sparse := Function.update s.sparse (o.dense idx).1 idx })
    ⟨o.universeSize, o.next, sparse, dense⟩

/-- `operator=(const sparse_id_map& o)`：`sparse_id_map tmp(o); swap(tmp);`。 -/
def assign (o : SparseIdMap V) (sparse : Nat → Nat) (dense : Nat → Nat × V) : SparseIdMap V :=
  copy o sparse dense

end SparseIdMap

end Hhvm.SparseId
