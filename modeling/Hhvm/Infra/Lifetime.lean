import Mathlib.Logic.Function.Basic
import Hhvm.Infra.Except

/-!
# 寿命のある object を置く block

`malloc` した block の上に placement new で object を構築し、明示的に破棄してから block を
解放する、という使い方の意味。block は割り当てた要素の数だけの場所を持ち、各場所には生きている
object があるか（`some v`）、ないか（`none`：まだ構築していないか、破棄した）。

次のことをすると `Fault` で止まる。

* 解放した（か、割り当てていない）block の場所に触れる（`notAllocated`）、範囲の外に触れる
  （`outOfBounds`）。
* 生きていない object を読むか代入する（`deadObject`）。
* 生きている object の上に構築する（`constructLive`：元の object は破棄されずに失われる）、
  生きていない object を破棄する（`destroyDead`）。
* 生きている object が残る block を解放する（`leak`）、割り当てたのと違う大きさで解放する
  （`sizeMismatch`）。

したがって止まらない実行では、どの object も構築されてから高々一度破棄され、破棄したものや解放した
block は読まれず、block は割り当てた大きさで、中を空にしてから解放される。

関数の引数の `const T&` は、外の値か、どこかの block の場所を指す（`Val`）。読むのは使うとき
（`Heap.load`）なので、それまでにその場所が破棄や解放されていれば失敗する。
-/

namespace Infra.Lifetime

/-- 止まる理由。 -/
inductive Fault where
  | notAllocated
  | outOfBounds
  | deadObject
  | constructLive
  | destroyDead
  | leak
  | sizeMismatch
  deriving DecidableEq, Repr

/-- 割り当てた block：解放していないか、割り当てた要素の数、各場所の object。 -/
structure Block (α : Type) where
  live : Bool
  size : Nat
  cells : Nat → Option α

/-- block の列。`next` は次に割り当てる block の番号。 -/
structure Heap (α : Type) where
  blocks : Nat → Block α
  next : Nat

/-- `const T&` の引数：外の値か、block `b` の `i` 番目の object。 -/
inductive Val (α : Type) where
  | val (v : α)
  | ref (b i : Nat)

variable {α : Type}

/-- 何も割り当てていない heap。 -/
def Heap.empty : Heap α := ⟨fun _ => ⟨false, 0, fun _ => none⟩, 0⟩

/-- `n` 要素の block を割り当てる。中に object はない。 -/
def Heap.alloc (h : Heap α) (n : Nat) : Heap α × Nat :=
  (⟨Function.update h.blocks h.next ⟨true, n, fun _ => none⟩, h.next + 1⟩, h.next)

/-- block `b` の `i` 番目の場所に触れてよいか。 -/
def Heap.check (h : Heap α) (b i : Nat) : Except Fault Unit :=
  if !(h.blocks b).live then .error .notAllocated
  else if (h.blocks b).size ≤ i then .error .outOfBounds
  else .ok ()

/-- block の場所の中身を書き換える。 -/
def Block.setCell (k : Block α) (i : Nat) (c : Option α) : Block α :=
  ⟨k.live, k.size, Function.update k.cells i c⟩

/-- 場所の中身を書き換える。 -/
def Heap.setCell (h : Heap α) (b i : Nat) (c : Option α) : Heap α :=
  ⟨Function.update h.blocks b ((h.blocks b).setCell i c), h.next⟩

/-- 生きている object を読む（コピーかムーブの元として）。 -/
def Heap.read (h : Heap α) (b i : Nat) : Except Fault α := do
  h.check b i
  match (h.blocks b).cells i with
  | some v => pure v
  | none => throw .deadObject

/-- `new (p) T(v)`：空いた場所に構築する。 -/
def Heap.construct (h : Heap α) (b i : Nat) (v : α) : Except Fault (Heap α) := do
  h.check b i
  if ((h.blocks b).cells i).isSome then throw .constructLive
  pure (h.setCell b i (some v))

/-- `p->~T()`：生きている object を破棄する。 -/
def Heap.destroy (h : Heap α) (b i : Nat) : Except Fault (Heap α) := do
  h.check b i
  if ((h.blocks b).cells i).isNone then throw .destroyDead
  pure (h.setCell b i none)

/-- `*p = v`：生きている object に代入する。 -/
def Heap.assign (h : Heap α) (b i : Nat) (v : α) : Except Fault (Heap α) := do
  h.check b i
  if ((h.blocks b).cells i).isNone then throw .deadObject
  pure (h.setCell b i (some v))

/-- `deallocate(p, n)`：割り当てた大きさで、生きている object の残らない block を解放する。 -/
def Heap.dealloc (h : Heap α) (b n : Nat) : Except Fault (Heap α) :=
  if !(h.blocks b).live then .error .notAllocated
  else if (h.blocks b).size ≠ n then .error .sizeMismatch
  else if (List.range n).any (fun i => ((h.blocks b).cells i).isSome) then .error .leak
  else .ok ⟨Function.update h.blocks b ⟨false, (h.blocks b).size, (h.blocks b).cells⟩, h.next⟩

/-- `const T&` の引数を使う。 -/
def Heap.load (h : Heap α) : Val α → Except Fault α
  | .val v => .ok v
  | .ref b i => h.read b i

/-- block `b` の先頭 `n` 個の場所。 -/
def Heap.view (h : Heap α) (b n : Nat) : List (Option α) := (List.range n).map (h.blocks b).cells

/-! ## 一つの操作 -/

section Ops

variable {h : Heap α} {b i : Nat}

@[simp] theorem setCell_next (c : Option α) : (h.setCell b i c).next = h.next := rfl

@[simp] theorem setCell_live (c : Option α) (b' : Nat) :
    ((h.setCell b i c).blocks b').live = (h.blocks b').live := by
  unfold Heap.setCell
  by_cases hb : b' = b
  · subst hb
    simp [Block.setCell]
  · simp [Function.update_of_ne hb]

@[simp] theorem setCell_size (c : Option α) (b' : Nat) :
    ((h.setCell b i c).blocks b').size = (h.blocks b').size := by
  unfold Heap.setCell
  by_cases hb : b' = b
  · subst hb
    simp [Block.setCell]
  · simp [Function.update_of_ne hb]

/-- 書き換えた場所だけが変わる。 -/
theorem setCell_cells (c : Option α) (b' j : Nat) :
    ((h.setCell b i c).blocks b').cells j =
      if b' = b ∧ j = i then c else (h.blocks b').cells j := by
  unfold Heap.setCell
  by_cases hb : b' = b
  · subst hb
    by_cases hj : j = i
    · subst hj
      simp [Block.setCell]
    · simp [Block.setCell, hj]
  · simp [hb]

theorem setCell_cells_self (c : Option α) (j : Nat) :
    ((h.setCell b i c).blocks b).cells j = if j = i then c else (h.blocks b).cells j := by
  rw [setCell_cells]
  simp

theorem setCell_blocks_ne (c : Option α) {b' : Nat} (hb : b' ≠ b) :
    (h.setCell b i c).blocks b' = h.blocks b' := by
  simp [Heap.setCell, Function.update_of_ne hb]

theorem check_eq (hl : (h.blocks b).live = true) (hi : i < (h.blocks b).size) :
    h.check b i = .ok () := by
  simp [Heap.check, hl, Nat.not_le.mpr hi]

theorem read_eq {x : α} (hl : (h.blocks b).live = true) (hi : i < (h.blocks b).size)
    (hc : (h.blocks b).cells i = some x) : h.read b i = .ok x := by
  simp only [Heap.read, check_eq hl hi, hc]
  rfl

/-- 解放した block は読めない。 -/
theorem read_of_not_live (hl : (h.blocks b).live = false) : h.read b i = .error .notAllocated := by
  simp only [Heap.read, Heap.check, hl]
  rfl

/-- 破棄した object は読めない。 -/
theorem read_of_none (hl : (h.blocks b).live = true) (hi : i < (h.blocks b).size)
    (hc : (h.blocks b).cells i = none) : h.read b i = .error .deadObject := by
  simp only [Heap.read, check_eq hl hi, hc]
  rfl

theorem construct_eq (x : α) (hl : (h.blocks b).live = true) (hi : i < (h.blocks b).size)
    (hc : (h.blocks b).cells i = none) : h.construct b i x = .ok (h.setCell b i (some x)) := by
  simp only [Heap.construct, check_eq hl hi, hc]
  rfl

/-- 範囲の外には構築できない。 -/
theorem construct_of_le (x : α) (hl : (h.blocks b).live = true) (hi : (h.blocks b).size ≤ i) :
    h.construct b i x = .error .outOfBounds := by
  simp only [Heap.construct, Heap.check, hl, hi]
  rfl

theorem destroy_eq {x : α} (hl : (h.blocks b).live = true) (hi : i < (h.blocks b).size)
    (hc : (h.blocks b).cells i = some x) : h.destroy b i = .ok (h.setCell b i none) := by
  simp only [Heap.destroy, check_eq hl hi, hc]
  rfl

theorem assign_eq (x : α) {y : α} (hl : (h.blocks b).live = true) (hi : i < (h.blocks b).size)
    (hc : (h.blocks b).cells i = some y) : h.assign b i x = .ok (h.setCell b i (some x)) := by
  simp only [Heap.assign, check_eq hl hi, hc]
  rfl

/-- 割り当てた大きさで、空になった block は解放できる。 -/
theorem dealloc_eq {n : Nat} (hl : (h.blocks b).live = true) (hs : (h.blocks b).size = n)
    (hc : ∀ j < n, (h.blocks b).cells j = none) :
    h.dealloc b n =
      .ok ⟨Function.update h.blocks b ⟨false, (h.blocks b).size, (h.blocks b).cells⟩, h.next⟩ := by
  have hany : (List.range n).any (fun j => ((h.blocks b).cells j).isSome) = false := by
    rw [List.any_eq_false]
    intro j hj
    simp [hc j (List.mem_range.mp hj)]
  simp [Heap.dealloc, hl, hs, hany]

/-- 割り当てたのと違う大きさでは解放できない。 -/
theorem dealloc_of_size_ne {n : Nat} (hl : (h.blocks b).live = true) (hs : (h.blocks b).size ≠ n) :
    h.dealloc b n = .error .sizeMismatch := by
  simp [Heap.dealloc, hl, hs]

theorem alloc_next (n : Nat) : (h.alloc n).1.next = h.next + 1 := rfl

theorem alloc_snd (n : Nat) : (h.alloc n).2 = h.next := rfl

/-- 新しい block は生きていて大きさ `n`、空。ほかの block は変わらない。 -/
theorem alloc_blocks (n b' : Nat) :
    (h.alloc n).1.blocks b' = if b' = h.next then ⟨true, n, fun _ => none⟩ else h.blocks b' := by
  unfold Heap.alloc
  by_cases hb : b' = h.next
  · subst hb
    simp
  · simp [hb]

end Ops

/-! ## 形 -/

/-- 形が同じ：どの block も生きているかと大きさが変わらず、次の番号も同じ。object の構築、破棄、
代入は形を変えない。 -/
def Heap.SameShape (h h' : Heap α) : Prop :=
  h'.next = h.next ∧ ∀ b, (h'.blocks b).live = (h.blocks b).live ∧ (h'.blocks b).size = (h.blocks b).size

theorem Heap.SameShape.refl (h : Heap α) : h.SameShape h := ⟨rfl, fun _ => ⟨rfl, rfl⟩⟩

theorem Heap.SameShape.trans {h₁ h₂ h₃ : Heap α} (h₁₂ : h₁.SameShape h₂) (h₂₃ : h₂.SameShape h₃) :
    h₁.SameShape h₃ :=
  ⟨h₂₃.1.trans h₁₂.1, fun b => ⟨(h₂₃.2 b).1.trans (h₁₂.2 b).1, (h₂₃.2 b).2.trans (h₁₂.2 b).2⟩⟩

theorem Heap.SameShape.setCell (h : Heap α) (b i : Nat) (c : Option α) :
    h.SameShape (h.setCell b i c) :=
  ⟨rfl, fun _ => ⟨setCell_live c _, setCell_size c _⟩⟩

/-- 形が同じで中身も同じ block は同じ。 -/
theorem Heap.SameShape.blocks_eq {h h' : Heap α} (hsh : h.SameShape h') {b : Nat}
    (hc : (h'.blocks b).cells = (h.blocks b).cells) : h'.blocks b = h.blocks b := by
  obtain ⟨hl, hs⟩ := hsh.2 b
  cases hk : h'.blocks b
  cases hk' : h.blocks b
  rw [hk, hk'] at hl hs hc
  simp only at hl hs hc
  rw [hl, hs, hc]

end Infra.Lifetime
