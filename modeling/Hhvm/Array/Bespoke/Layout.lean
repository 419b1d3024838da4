import Hhvm.Infra.Walk
import Hhvm.Infra.SortedSearch
import Mathlib.Data.FinEnum

/-!
# bespoke の配置の階層

`hphp/runtime/base/bespoke/layout.cpp` の配置の階層の部分。

配置（`Layout`）は作られるたびに配置表 `s_layoutTable` の添字 `m_index` に登録され、作られた順の
番号 `m_topoIndex` を受け取る。親 `m_parents` はそれより前に作られた配置でなければならない
（`checkInvariants`）。ここでは階層を作られた順の配置の並び `Hierarchy` で表し、並びの位置を
`m_topoIndex` とする。登録時の三つの `assertx` は `Hierarchy` の場に入れてあり、それを
満たさない階層は作れない。

`FinalizeHierarchy` は各配置について子 `m_children` を集め、上向き・下向きの幅優先の探索
（`BFSWalker`）で祖先と子孫を求め、`m_topoIndex` の降順・昇順に並べて残す。比較の演算子は
この二つの列だけを使う。

* `operator<=`：祖先の列の二分探索。
* `operator|`：二つの祖先の列を同時に進み、最初に一致した配置。一致しなければ `not_reached()`
  なので `none` で表す。
* `operator&`：二つの子孫の列について同じ。一致しなければ `nullptr`（`none`）。

列の要素は源では `Layout*` だが、表の中の配置と添字は一対一なので添字で表す。配置の説明・
vtable・`m_layout_test` はここでは使わない。
-/

namespace Hhvm

namespace Bespoke

open Infra.Walk Infra.SortedSearch

/-- `LayoutIndex`：配置表の添字（`uint16_t raw`）。 -/
abbrev LayoutIndex := UInt16

/-- `kMaxNumLayouts = (1 << 16) - 1`：配置表の大きさ。 -/
def kMaxNumLayouts : Nat := (1 <<< 16) - 1

/-- `kBespokeTopIndex`：bespoke の配置の最上位。 -/
def kBespokeTopIndex : LayoutIndex := 0

/-- 作られた一つの配置：表の添字と親の添字。 -/
structure Layout where
  index : LayoutIndex
  parents : List LayoutIndex
deriving DecidableEq, Repr

/-- 作られた順の配置の並び。`Layout::Layout` の三つの `assertx` を場として持つ：添字は表に
収まり、表の同じ場所に二度は登録されず、親はすでに作られている。 -/
structure Hierarchy where
  layouts : List Layout
  index_lt : ∀ l ∈ layouts, l.index.toNat < kMaxNumLayouts
  index_nodup : (layouts.map Layout.index).Nodup
  parents_before : ∀ k (hk : k < layouts.length), ∀ p ∈ layouts[k].parents,
    p ∈ (layouts.take k).map Layout.index

namespace Hierarchy

variable (H : Hierarchy)

/-- 表に登録された添字。 -/
def indices : List LayoutIndex := H.layouts.map Layout.index

/-- `FromIndex`：表の添字の配置。 -/
def fromIndex (i : LayoutIndex) : Option Layout := H.layouts.find? (·.index == i)

/-- `m_topoIndex`：作られた順の番号。表に無い添字では並びの長さ。 -/
def topoIndex (i : LayoutIndex) : Nat := H.layouts.findIdx (·.index == i)

/-- `m_parents`。表に無い添字は親を持たない。 -/
def parentsOf (i : LayoutIndex) : List LayoutIndex := ((H.fromIndex i).map Layout.parents).getD []

/-- `m_children`：`FinalizeHierarchy` が親ごとに集める子。 -/
def childrenOf (p : LayoutIndex) : List LayoutIndex :=
  (H.layouts.filter (fun l => p ∈ l.parents)).map Layout.index

/-- `DescendantOrdering`：作られた順が前のものが小さい。 -/
def descendantOrdering (a b : LayoutIndex) : Bool := H.topoIndex a < H.topoIndex b

/-- `AncestorOrdering`：作られた順が後のものが小さい。 -/
def ancestorOrdering (a b : LayoutIndex) : Bool := H.topoIndex a > H.topoIndex b

/-- `computeAncestors`：上向きの探索で出会う配置。 -/
def computeAncestors (i : LayoutIndex) : List LayoutIndex := walk H.parentsOf [] [i]

/-- `computeDescendants`：下向きの探索で出会う配置。 -/
def computeDescendants (i : LayoutIndex) : List LayoutIndex := walk H.childrenOf [] [i]

end Hierarchy

/-- `FinalizeHierarchy` が各配置に残す二つの列 `m_ancestors`・`m_descendants`。 -/
structure Finalized where
  ancestors : LayoutIndex → List LayoutIndex
  descendants : LayoutIndex → List LayoutIndex

/-- `FinalizeHierarchy`：祖先を `AncestorOrdering`、子孫を `DescendantOrdering` で並べる。 -/
def finalizeHierarchy (H : Hierarchy) : Finalized where
  ancestors i := sortWith H.ancestorOrdering (H.computeAncestors i)
  descendants i := sortWith H.descendantOrdering (H.computeDescendants i)

namespace Hierarchy

variable (H : Hierarchy)

/-- `Layout::operator<=`：`b` が `a` の祖先の列にあるか。 -/
def le (a b : LayoutIndex) : Bool :=
  binarySearch H.ancestorOrdering ((finalizeHierarchy H).ancestors a) b

/-- `Layout::operator|`：二つの祖先の列で最初に一致した配置。`none` は `not_reached()`。 -/
def join (a b : LayoutIndex) : Option LayoutIndex :=
  firstCommon H.ancestorOrdering ((finalizeHierarchy H).ancestors a)
    ((finalizeHierarchy H).ancestors b)

/-- `Layout::operator&`：二つの子孫の列で最初に一致した配置。`none` は `nullptr`。 -/
def meet (a b : LayoutIndex) : Option LayoutIndex :=
  firstCommon H.descendantOrdering ((finalizeHierarchy H).descendants a)
    ((finalizeHierarchy H).descendants b)

end Hierarchy

/-! ## 配置の登録 -/

/-- 空の階層。 -/
def Hierarchy.empty : Hierarchy where
  layouts := []
  index_lt := fun _ h => absurd h List.not_mem_nil
  index_nodup := List.nodup_nil
  parents_before := fun _ hk => absurd hk (Nat.not_lt_zero _)

theorem Hierarchy.parents_before_append (H : Hierarchy) {l : Layout}
    (hp : ∀ p ∈ l.parents, p ∈ H.indices) :
    ∀ k (hk : k < (H.layouts ++ [l]).length), ∀ p ∈ (H.layouts ++ [l])[k].parents,
      p ∈ ((H.layouts ++ [l]).take k).map Layout.index := by
  intro k hk p hpk
  rcases Nat.lt_or_ge k H.layouts.length with hlt | hge
  · -- 前からある配置：親の位置は変わらない
    rw [List.getElem_append_left hlt] at hpk
    rw [List.take_append_of_le_length (Nat.le_of_lt hlt)]
    exact H.parents_before k hlt p hpk
  · -- 新しい配置：親はそれまでの表のどこかにある
    have hk' : k = H.layouts.length := by simp at hk; omega
    subst hk'
    rw [List.getElem_append_right (Nat.le_refl _)] at hpk
    simp only [Nat.sub_self, List.getElem_cons_zero] at hpk
    rw [List.take_left]
    exact hp p hpk

/-- `Layout::Layout` の登録：添字が表に収まり、その場所が空いていて、親がすでに登録されて
いるときに限り、配置を並びの最後に加える。 -/
def Hierarchy.create (H : Hierarchy) (l : Layout) : Option Hierarchy :=
  if h : l.index.toNat < kMaxNumLayouts ∧ l.index ∉ H.indices ∧ ∀ p ∈ l.parents, p ∈ H.indices then
    some {
      layouts := H.layouts ++ [l]
      index_lt := fun l' hl' => by
        rcases List.mem_append.mp hl' with hl' | hl'
        · exact H.index_lt l' hl'
        · rw [List.mem_singleton.mp hl']
          exact h.1
      index_nodup := by
        rw [List.map_append, List.nodup_append]
        refine ⟨H.index_nodup, List.nodup_singleton _, ?_⟩
        intro a ha b hb hab
        rw [List.map_singleton, List.mem_singleton] at hb
        exact h.2.1 (hb ▸ hab ▸ ha)
      parents_before := H.parents_before_append h.2.2 }
  else none

end Bespoke

end Hhvm
