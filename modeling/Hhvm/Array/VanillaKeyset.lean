import Hhvm.Array.VanillaDict

/-!
# `VanillaKeyset`

`hphp/runtime/base/vanilla-keyset.{h,cpp}` のモデル。keyset の要素は key だけで
（`VanillaKeysetElm::tv`）、`HashTable<VanillaKeyset, VanillaKeysetElm>` の上に立つ。
探索の `hitIntKey` / `hitStrKey` は `HashTable` のもので dict と共有し、要素に書く hash も
dict と同じく int key では `hash_int64(k) | STRHASH_MSB`、文字列では `k->hash()` である。

値と参照の数は扱わない。`Copy`（`copySet`）と `MakeUncounted` は要素と表をそのまま写すので、
モデルでは同じ配列を返す。key にならない値（`throwInvalidArrayKeyException`）も扱わない。
-/

namespace Hhvm

open HashTableCommon HashTable

/-- `VanillaKeyset` の状態。 -/
structure VanillaKeyset (S : Type) extends HashTable (Key S)

namespace VanillaKeyset

variable {S : Type} [DecidableEq S] (H : Hasher S)

/-- `VanillaKeysetElm::hash()`：int key なら `h | STRHASH_MSB`。 -/
def elmProbe (k : Key S) : UInt32 := k.probe H

/-- `findForInsert(k, h)` と `findForRemove(k, h)`。`hit` は dict と共有の
`hitIntKey` / `hitStrKey` である。 -/
def findKey (t : VanillaKeyset S) (k : Key S) : Option Found :=
  t.findImpl (k.hash H) (fun e => VanillaDict.hitKey H k (e, ()))

/-! ## 作る -/

/-- `VanillaKeyset::checkInvariants`。 -/
def checkInvariants (t : VanillaKeyset S) : Bool := t.toHashTable.checkInvariants

/-- `MakeReserveSet(size)`：`assertx(ad->checkInvariants())` で終わる。 -/
def MakeReserveSet (size : Nat) : VanillaKeyset S :=
  ⟨⟨computeScaleFromSize size, 0, [], initHash⟩⟩

/-- `insert(k, h)`：無ければ末尾に足す。あれば何もしない（`isValidIns(loc)` が偽）。 -/
def insert (t : VanillaKeyset S) (k : Key S) : Except Fault (VanillaKeyset S) :=
  match t.findKey H k with
  | none => .error .diverge
  | some (.hit _ _) => .ok t
  | some (.miss probe) => .ok ⟨t.allocElm probe k⟩

/-- `MakeSet(size, values)`：値を後ろから `insert` する。値は重なりうる。 -/
def MakeSet (values : List (Key S)) : Except Fault (VanillaKeyset S) :=
  values.reverse.foldlM (insert H) (MakeReserveSet values.length)

/-! ## 表を作り直す -/

/-- `grow(copy)`：`m_scale` を二倍にし、要素は tombstone ごと同じ位置に写して
`findForNewInsert` で入れ直す。dict の `Grow` と違い、探索の長さは調べない。 -/
def grow (t : VanillaKeyset S) : Except Fault (VanillaKeyset S) := do
  let table ← reinsert (elmProbe H) (Mask (t.scale * 2)) none 0 t.elms initHash
  .ok ⟨{ t.toHashTable with scale := t.scale * 2, hashTab := table }⟩

/-- `prepareForInsert(copy)`：満杯なら `grow`。`copySet` は同じ配列を返す。 -/
def prepareForInsert (t : VanillaKeyset S) : Except Fault (VanillaKeyset S) :=
  if t.isFull then t.grow H else .ok t

/-- `compact()`：tombstone を除いて前に詰め、表を作り直す。`m_used = m_size`。 -/
def compact (t : VanillaKeyset S) : Except Fault (VanillaKeyset S) := do
  let live := (t.elms.filterMap id).map some
  let table ← reinsert (elmProbe H) t.mask none 0 live initHash
  .ok ⟨{ t.toHashTable with elms := live, hashTab := table }⟩

/-- `erase(pos)`：`eraseNoCompact` の後、`m_size <= m_used / 2` なら `compact()`。 -/
def erase (t : VanillaKeyset S) (probe pos : Nat) : Except Fault (VanillaKeyset S) :=
  let t' : VanillaKeyset S := ⟨t.eraseNoCompact probe pos⟩
  if t'.size ≤ t'.used / 2 then t'.compact H else .ok t'

/-- `Copy` = `copySet()`：要素と表をそのまま写す。 -/
def Copy (t : VanillaKeyset S) : VanillaKeyset S := t

/-- `MakeUncounted`：要素と表をそのまま写し、文字列を参照の数えない形にする。 -/
def MakeUncounted (t : VanillaKeyset S) : VanillaKeyset S := t

/-! ## 足す、消す -/

/-- `AppendImpl(ad, v, copy)`：`prepareForInsert` の後に `insert`。 -/
def AppendImpl (t : VanillaKeyset S) (k : Key S) : Except Fault (VanillaKeyset S) := do
  let p ← t.prepareForInsert H
  p.insert H k

/-- `AddToSet(ad, k)`。 -/
def AddToSet (t : VanillaKeyset S) (k : Key S) : Except Fault (VanillaKeyset S) :=
  t.AppendImpl H k

/-- `AppendMove(ad, v)`。 -/
def AppendMove (t : VanillaKeyset S) (k : Key S) : Except Fault (VanillaKeyset S) :=
  t.AppendImpl H k

/-- `RemoveImpl(ad, k, copy, h)`：`findForRemove` で見つかれば `erase`。 -/
def RemoveImpl (t : VanillaKeyset S) (k : Key S) : Except Fault (VanillaKeyset S) :=
  match t.findKey H k with
  | none => .error .diverge
  | some (.miss _) => .ok t
  | some (.hit probe pos) => t.erase H probe pos

def RemoveIntMove (t : VanillaKeyset S) (k : Int64) : Except Fault (VanillaKeyset S) :=
  t.RemoveImpl H (.int k)

def RemoveStrMove (t : VanillaKeyset S) (k : S) : Except Fault (VanillaKeyset S) :=
  t.RemoveImpl H (.str k)

/-- `PopMove(ad, value)`：最後の要素を、要素に書かれた hash から `findForRemove` で探して消す。
C++ は要素の番地で当たりを判定する。keyset の要素は重ならないので、モデルでは要素の等しさで
判定する。見つからなければ `assertx(loc.valid())` に反する。 -/
def PopMove (t : VanillaKeyset S) : Except Fault (VanillaKeyset S × Option (Key S)) :=
  if t.size = 0 then .ok (t, none)
  else
    match t.elmAt t.IterLast with
    | none => .ok (t, none)
    | some e =>
      match t.findImpl (elmProbe H e) (· == e) with
      | none => .error .diverge
      | some (.miss _) => .error .assertFailed
      | some (.hit probe pos) => do
        let t' ← t.erase H probe pos
        .ok (t', some e)

end VanillaKeyset

end Hhvm
