import Hhvm.Util.Properties.RadixMapIterate
import Hhvm.Util.Properties.RadixMapFind

/-!
# `RadixMap` は重ならないブロックの列を refine する

抽象の側の状態は、重ならないブロックを始まりの順に並べた列。状態を変える操作（`insert`、
`erase`、`clear`）を `Op` とし、`Op.exec` が `RadixMap` の本体、`Op.apply` が列の上の意味、
`Op.Valid` が `insert` の前提（`InsertOk` と同じもの）。

`Inv KB m` のもとで、各操作は `Inv` を保ち、`m.blocks` を抽象の操作どおりに変える
（`Op.exec_spec`）。操作の列について帰納法で `run_refines_blocks`。読む操作 `get`、`find`、`iterate` は、
`Inv` を満たすどの状態でも `blocks` の上の意味で答える（`RadixMapOps`、`RadixMapFind`、
`RadixMapIterate`）ので、空の状態からのどの列の後でも、抽象の列の上の答えと同じ。
-/

namespace Hhvm.RadixMap

open Infra.Intervals

variable {LgAlign LgRadix : Nat}

/-- `RadixMap` の状態を変える操作。 -/
inductive Op where
  | insert (ptr size : Nat)
  | erase (ptr : Nat)
  | clear

namespace Op

/-- `RadixMap` で実行する。 -/
def exec : Op → RadixMap LgAlign LgRadix → RadixMap LgAlign LgRadix
  | .insert ptr size, m => m.insert ptr size
  | .erase ptr, m => (m.erase ptr).1
  | .clear, m => m.clear

/-- ブロックの列の上の意味。 -/
def apply : Op → List (Nat × Nat) → List (Nat × Nat)
  | .insert ptr size, l => insertSorted l (ptr, size)
  | .erase ptr, l => l.filter (fun b => b.1 != ptr)
  | .clear, _ => []

/-- 前提。`insert` は `Align` にそろい、正の大きさで、番地 `2 ^ (KB + LgAlign)` までに収まり、
既にあるブロックと重ならない。`erase` のポインタは 64 ビット。 -/
def Valid (LgAlign KB : Nat) : Op → List (Nat × Nat) → Prop
  | .insert ptr size, l => 2 ^ LgAlign ∣ ptr ∧ 2 ^ LgAlign ∣ size ∧ 0 < size ∧
      ptr + size ≤ 2 ^ (KB + LgAlign) ∧ ∀ b ∈ l, b.1 + b.2 ≤ ptr ∨ ptr + size ≤ b.1
  | .erase ptr, _ => ptr < 2 ^ 64
  | .clear, _ => True

instance (LgAlign KB : Nat) : (op : Op) → (l : List (Nat × Nat)) → Decidable (op.Valid LgAlign KB l)
  | .insert ptr size, l => inferInstanceAs (Decidable (2 ^ LgAlign ∣ ptr ∧ 2 ^ LgAlign ∣ size ∧
      0 < size ∧ ptr + size ≤ 2 ^ (KB + LgAlign) ∧ ∀ b ∈ l, b.1 + b.2 ≤ ptr ∨ ptr + size ≤ b.1))
  | .erase ptr, _ => inferInstanceAs (Decidable (ptr < 2 ^ 64))
  | .clear, _ => inferInstanceAs (Decidable True)

/-- 操作の列を順に実行する。 -/
def run (ops : List Op) (m : RadixMap LgAlign LgRadix) : RadixMap LgAlign LgRadix :=
  ops.foldl (fun m op => op.exec m) m

/-- 列の上で操作の列を順に。 -/
def applyAll (ops : List Op) (l : List (Nat × Nat)) : List (Nat × Nat) :=
  ops.foldl (fun l op => op.apply l) l

/-- どの操作も、その前の操作の後の列で前提を満たす。 -/
def RunValid (LgAlign KB : Nat) : List Op → List (Nat × Nat) → Prop
  | [], _ => True
  | op :: ops, l => op.Valid LgAlign KB l ∧ RunValid LgAlign KB ops (op.apply l)

end Op

section Refine

variable {KB : Nat} {m : RadixMap LgAlign LgRadix}

/-- **一つの操作。** 前提を満たす操作は `Inv` を保ち、ブロックの列を抽象の操作どおりに変える。 -/
theorem Op.exec_spec (hR : 0 < LgRadix) (hKB : KB < 64) (h : Inv KB m) :
    ∀ op : Op, op.Valid LgAlign KB m.blocks →
      Inv KB (op.exec m) ∧ (op.exec m).blocks = op.apply m.blocks
  | .insert ptr size, ⟨hp, hs, hpos, hb, hd⟩ =>
    have hok : InsertOk KB m ptr size := ⟨hp, hs, hpos, hb, hd⟩
    ⟨h.insert hR hKB hok, insert_blocks hR hKB h hok⟩
  | .erase _, hptr => ⟨h.erase hptr, erase_blocks h hptr⟩
  | .clear, _ => ⟨h.clear, clear_blocks m⟩

/-- **操作の列は `Inv` を保ち、ブロックの列を抽象の操作の列どおりに変える。** -/
theorem run_refines_blocks (hR : 0 < LgRadix) (hKB : KB < 64) :
    ∀ (ops : List Op) (m : RadixMap LgAlign LgRadix), Inv KB m → Op.RunValid LgAlign KB ops m.blocks →
      Inv KB (Op.run ops m) ∧ (Op.run ops m).blocks = Op.applyAll ops m.blocks
  | [], _, h, _ => ⟨h, rfl⟩
  | op :: ops, m, h, ⟨hv, hvs⟩ => by
    obtain ⟨h₁, hb₁⟩ := op.exec_spec hR hKB h hv
    rw [← hb₁] at hvs
    have := run_refines_blocks hR hKB ops (op.exec m) h₁ hvs
    rwa [hb₁] at this

/-- `TEST(RadixMap, insert_deepen)`：根の範囲の外のブロックを入れて木を深くする列。 -/
theorem run_blocks_insert_deepen :
    Inv 43 (Op.run [.insert 0x7fffec0ee000 0x200000, .insert 0x7fffc7b7f000 0x14000000]
        (init : RadixMap 4 8)) ∧
      (Op.run [.insert 0x7fffec0ee000 0x200000, .insert 0x7fffc7b7f000 0x14000000]
        (init : RadixMap 4 8)).blocks =
      Op.applyAll [.insert 0x7fffec0ee000 0x200000, .insert 0x7fffc7b7f000 0x14000000]
        (init : RadixMap 4 8).blocks :=
  run_refines_blocks (by decide) (by decide) _ _ (inv_init 43) ⟨by decide, by decide, trivial⟩

end Refine

end Hhvm.RadixMap
