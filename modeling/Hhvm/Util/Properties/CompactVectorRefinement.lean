import Hhvm.Util.Properties.CompactVectorOps

/-!
# `CompactVector` は `std::vector` を refine する

`std::vector` の側の状態は、vector ごとに構築してあるかと要素の列（`Vecs`）。公開された操作を
`Op` とし、`Op.exec` が `CompactVector` の本体、`Op.apply` が `std::vector` の意味、`Op.Valid` が
`std::vector` の前提（反復子が範囲の中、構築は構築していない vector に、…）と大きさの上限。

`Refines s a` は `Wf s a.elems` に「構築していない vector の `m_data` は null」を足したもの。
各操作がそれを保つこと（`Op.exec_refines`、`CompactVectorOps` の補題を操作ごとに使う）から、
操作の列についての `run_refines` が帰納法で出る。

値の引数は外の値とする。同じ vector の要素を引数にすると違う（`push_back_ref_at_capacity`、
`insert_ref_self`）。

空の `initializer_list` からの構築は容量 `0` の block を割り当てる。`Wf` はそれも許し、その
block を持つ vector への `push_back` と `emplace_back` だけが失敗する：`grow()` は `0 * 2 = 0`
要素の block に取り替えるので、要素を block の外に構築する（`Op.GrowsZero`、`push_back_zero`）。
`run_refines_or_fault` は、前提を満たす操作の列が失敗せずに `std::vector` を refine するか、
この形の操作で `outOfBounds` になるかのどちらかであることを示す。
`operator=(CompactVector&&)` は `swap` なので、`std::vector` では値の決まらない移動元に移動先の
元の列が入るとした。
-/

namespace Hhvm.CompactVector

open Infra.Lifetime Infra.Except

variable {α : Type}

/-! ## `std::vector` の側 -/

/-- vector ごとに、構築してあるかと要素の列。 -/
structure Vecs (α : Type) where
  built : Nat → Bool
  elems : Nat → List α

namespace Vecs

/-- 何も構築していない。 -/
def init : Vecs α := ⟨fun _ => false, fun _ => []⟩

/-- `v` の列を `l` にする。 -/
def set (a : Vecs α) (v : Nat) (l : List α) : Vecs α := ⟨a.built, Function.update a.elems v l⟩

/-- `v` を列 `l` で構築する。 -/
def build (a : Vecs α) (v : Nat) (l : List α) : Vecs α :=
  ⟨Function.update a.built v true, Function.update a.elems v l⟩

/-- `v` を破棄する。 -/
def unbuild (a : Vecs α) (v : Nat) : Vecs α :=
  ⟨Function.update a.built v false, Function.update a.elems v []⟩

end Vecs

/-- 公開された操作。値の引数は外の値。`insert(p, x)` は `num = 1` の `insert`、`resize(n)` は
`x = T{}` の `resize`。 -/
inductive Op (α : Type) where
  | default_construct (v : Nat)
  | size_construct (v n : Nat) (x : α)
  | copy_construct (v o : Nat)
  | move_construct (v o : Nat)
  | init_list (v : Nat) (xs : List α)
  | destruct (v : Nat)
  | copy_assign (v o : Nat)
  | move_assign (v o : Nat)
  | swap (v o : Nat)
  | push_back (v : Nat) (x : α)
  | emplace_back (v : Nat) (x : α)
  | pop_back (v : Nat)
  | insert (v p num : Nat) (x : α)
  | insert_range (v p : Nat) (xs : List α)
  | erase (v i : Nat)
  | erase_range (v i j : Nat)
  | resize (v n : Nat) (x : α)
  | reserve (v n : Nat)
  | shrink_to_fit (v : Nat)
  | clear (v : Nat)

namespace Op

/-- `CompactVector` の本体で操作を実行する。 -/
def exec : Op α → St α → Except Fault (St α)
  | .default_construct v, s => pure (CompactVector.default_construct v s)
  | .size_construct v n x, s => CompactVector.size_construct v n (.val x) s
  | .copy_construct v o, s => CompactVector.copy_construct v o s
  | .move_construct v o, s => pure (CompactVector.move_construct v o s)
  | .init_list v xs, s => CompactVector.init_list v xs s
  | .destruct v, s => CompactVector.destruct v s
  | .copy_assign v o, s => CompactVector.copy_assign v o s
  | .move_assign v o, s => pure (CompactVector.swap v o s)
  | .swap v o, s => pure (CompactVector.swap v o s)
  | .push_back v x, s => CompactVector.push_back v (.val x) s
  | .emplace_back v x, s => CompactVector.emplace_back v (.val x) s
  | .pop_back v, s => CompactVector.pop_back v s
  | .insert v p num x, s => Prod.fst <$> CompactVector.insert_impl v p num (.val x) s
  | .insert_range v p xs, s => Prod.fst <$> CompactVector.insert_range v p xs s
  | .erase v i, s => CompactVector.erase v i s
  | .erase_range v i j, s => CompactVector.erase_range v i j s
  | .resize v n x, s => CompactVector.resize v n (.val x) s
  | .reserve v n, s => CompactVector.reserve v n s
  | .shrink_to_fit v, s => CompactVector.shrink_to_fit v s
  | .clear v, s => CompactVector.clear v s

/-- `std::vector` の同じ操作。 -/
def apply : Op α → Vecs α → Vecs α
  | .default_construct v, a => a.build v []
  | .size_construct v n x, a => a.build v (List.replicate n x)
  | .copy_construct v o, a => a.build v (a.elems o)
  | .move_construct v o, a => (a.build v (a.elems o)).set o []
  | .init_list v xs, a => a.build v xs
  | .destruct v, a => a.unbuild v
  | .copy_assign v o, a => a.set v (a.elems o)
  | .move_assign v o, a => (a.set v (a.elems o)).set o (a.elems v)
  | .swap v o, a => (a.set v (a.elems o)).set o (a.elems v)
  | .push_back v x, a => a.set v (a.elems v ++ [x])
  | .emplace_back v x, a => a.set v (a.elems v ++ [x])
  | .pop_back v, a => a.set v (a.elems v).dropLast
  | .insert v p num x, a =>
    a.set v ((a.elems v).take p ++ List.replicate num x ++ (a.elems v).drop p)
  | .insert_range v p xs, a => a.set v ((a.elems v).take p ++ xs ++ (a.elems v).drop p)
  | .erase v i, a => a.set v ((a.elems v).eraseIdx i)
  | .erase_range v i j, a => a.set v ((a.elems v).take i ++ (a.elems v).drop j)
  | .resize v n x, a =>
    a.set v (if n ≤ (a.elems v).length then (a.elems v).take n
      else a.elems v ++ List.replicate (n - (a.elems v).length) x)
  | .reserve _ _, a => a
  | .shrink_to_fit _, a => a
  | .clear v, a => a.set v []

/-- `std::vector` の前提と大きさの上限（`m_capacity * 2` が `uint32_t` に入る `2^31`）。 -/
def Valid : Op α → Vecs α → Prop
  | .default_construct v, a => a.built v = false
  | .size_construct v n _, a => a.built v = false ∧ n < 2 ^ 31
  | .copy_construct v o, a => a.built v = false ∧ a.built o = true
  | .move_construct v o, a => a.built v = false ∧ a.built o = true
  | .init_list v xs, a => a.built v = false ∧ xs.length < 2 ^ 31
  | .destruct v, a => a.built v = true
  | .copy_assign v o, a => a.built v = true ∧ a.built o = true
  | .move_assign v o, a => a.built v = true ∧ a.built o = true
  | .swap v o, a => a.built v = true ∧ a.built o = true
  | .push_back v _, a => a.built v = true ∧ (a.elems v).length < 2 ^ 31
  | .emplace_back v _, a => a.built v = true ∧ (a.elems v).length < 2 ^ 31
  | .pop_back v, a => a.built v = true ∧ a.elems v ≠ []
  | .insert v p num _, a =>
    a.built v = true ∧ p ≤ (a.elems v).length ∧ (a.elems v).length + num < 2 ^ 31
  | .insert_range v p xs, a =>
    a.built v = true ∧ p ≤ (a.elems v).length ∧ (a.elems v).length + xs.length < 2 ^ 31
  | .erase v i, a => a.built v = true ∧ i < (a.elems v).length
  | .erase_range v i j, a => a.built v = true ∧ i ≤ j ∧ j ≤ (a.elems v).length
  | .resize v n _, a => a.built v = true ∧ n < 2 ^ 31
  | .reserve v n, a => a.built v = true ∧ n < 2 ^ 32
  | .shrink_to_fit v, a => a.built v = true
  | .clear v, a => a.built v = true

/-- 操作の列を順に実行する。 -/
def run : List (Op α) → St α → Except Fault (St α)
  | [], s => pure s
  | op :: ops, s => do
    let s ← op.exec s
    run ops s

/-- `std::vector` で操作の列を順に。 -/
def applyAll (ops : List (Op α)) (a : Vecs α) : Vecs α := ops.foldl (fun a op => op.apply a) a

/-- どの操作も、その前の操作の後の状態で前提を満たす。 -/
def RunValid : List (Op α) → Vecs α → Prop
  | [], _ => True
  | op :: ops, a => op.Valid a ∧ RunValid ops (op.apply a)

/-- `push_back` と `emplace_back` が、容量 `0` の block を持つ vector の `grow()` を呼ぶこと。 -/
def GrowsZero : Op α → St α → Prop
  | .push_back v _, s | .emplace_back v _, s =>
    ∃ b, s.data v = some b ∧ (s.hdr b).m_capacity.toNat = 0
  | _, _ => False

end Op

/-! ## 対応 -/

/-- 何も割り当てていない状態。 -/
def St.init : St α := ⟨Heap.empty, fun _ => ⟨0, 0⟩, fun _ => none⟩

/-- `s` が `std::vector` の状態 `a` を表す：`Wf` で、構築していない vector の `m_data` は null。 -/
structure Refines (s : St α) (a : Vecs α) : Prop where
  wf : Wf s a.elems
  unbuilt : ∀ v, a.built v = false → s.data v = none

section Refines

variable {s s' : St α} {a : Vecs α} {v : Nat}

theorem refines_init : Refines (St.init : St α) Vecs.init where
  wf := ⟨fun _ => rfl, fun _ _ _ h => by simp [St.init] at h, fun _ h => Bool.noConfusion h⟩
  unbuilt _ _ := rfl

/-- 構築してある `v` の列だけを変え、ほかの vector の `m_data` を変えない操作。 -/
theorem Refines.set (h : Refines s a) (hb : a.built v = true) {l : List α}
    (hwf : Wf s' (Function.update a.elems v l)) (hdata : ∀ w, w ≠ v → s'.data w = s.data w) :
    Refines s' (a.set v l) :=
  ⟨hwf, fun w hw => by
    have hw' : a.built w = false := hw
    have hwv : w ≠ v := by
      rintro rfl
      rw [hw'] at hb
      exact Bool.noConfusion hb
    rw [hdata w hwv]
    exact h.unbuilt w hw'⟩

/-- 列を変えず、ほかの vector の `m_data` も変えない操作。 -/
theorem Refines.keep (h : Refines s a) (hb : a.built v = true) (hwf : Wf s' a.elems)
    (hdata : ∀ w, w ≠ v → s'.data w = s.data w) : Refines s' a := by
  have h' := h.set hb (l := a.elems v) (by rw [Function.update_eq_self]; exact hwf) hdata
  rw [Vecs.set, Function.update_eq_self] at h'
  exact h'

/-- 構築していない `v` を構築する操作。 -/
theorem Refines.build (h : Refines s a) {l : List α} (hwf : Wf s' (Function.update a.elems v l))
    (hdata : ∀ w, w ≠ v → s'.data w = s.data w) : Refines s' (a.build v l) :=
  ⟨hwf, fun w hw => by
    have hw' : Function.update a.built v true w = false := hw
    have hwv : w ≠ v := by
      rintro rfl
      rw [Function.update_self] at hw'
      exact Bool.noConfusion hw'
    rw [Function.update_of_ne hwv] at hw'
    rw [hdata w hwv]
    exact h.unbuilt w hw'⟩

/-- 構築していない vector の列は空。 -/
theorem Refines.nil (h : Refines s a) (hv : a.built v = false) : a.elems v = [] :=
  h.wf.nil (h.unbuilt v hv)

/-- 長さは `uint32_t` に入る。 -/
theorem Wf.length_lt {A : Nat → List α} (hw : Wf s A) (v : Nat) : (A v).length < 2 ^ 32 := by
  have hle := hw.size_le_capacity v
  cases hb : s.data v with
  | none =>
    rw [hw.nil hb, List.length_nil]
    decide
  | some b =>
    rw [capacity_of_some hb] at hle
    exact Nat.lt_of_le_of_lt hle (s.hdr b).m_capacity.toNat_lt

/-- 構築していない vector は、構築してある二つとは違う。 -/
theorem ne_of_built {w o : Nat} (hw : a.built w = false) (hv : a.built v = true)
    (ho : a.built o = true) : w ≠ v ∧ w ≠ o := by
  constructor
  · rintro rfl
    rw [hw] at hv
    exact Bool.noConfusion hv
  · rintro rfl
    rw [hw] at ho
    exact Bool.noConfusion ho

/-- `swap` と `operator=(CompactVector&&)`：構築してある二つの vector の列を入れ替える。 -/
theorem Refines.of_swap (h : Refines s a) {o : Nat} (hv : a.built v = true) (ho : a.built o = true) :
    Refines (CompactVector.swap v o s) ((a.set v (a.elems o)).set o (a.elems v)) :=
  ⟨swap_wf h.wf v o, fun w hw => by
    have hw' : a.built w = false := hw
    obtain ⟨hwv, hwo⟩ := ne_of_built hw' hv ho
    simp only [CompactVector.swap, St.setData, Function.update_of_ne hwo, Function.update_of_ne hwv]
    exact h.unbuilt w hw'⟩

/-- ムーブ構築：構築していない `v` に `o` の列を移し、`o` を空にする。 -/
theorem Refines.of_move_construct (h : Refines s a) {o : Nat} (hv : a.built v = false)
    (ho : a.built o = true) :
    Refines (CompactVector.move_construct v o s) ((a.build v (a.elems o)).set o []) :=
  ⟨move_construct_wf h.wf (h.unbuilt v hv), fun w hw => by
    have hw' : Function.update a.built v true w = false := hw
    -- 構築していないのは `v` でも `o` でもない
    have hwv : w ≠ v := by
      rintro rfl
      rw [Function.update_self] at hw'
      exact Bool.noConfusion hw'
    rw [Function.update_of_ne hwv] at hw'
    have hwo : w ≠ o := by
      rintro rfl
      rw [hw'] at ho
      exact Bool.noConfusion ho
    simp only [CompactVector.move_construct, St.setData, Function.update_of_ne hwo,
      Function.update_of_ne hwv]
    exact h.unbuilt w hw'⟩

/-- `~CompactVector()`：構築してある `v` を破棄する。 -/
theorem Refines.unbuild (h : Refines s a) (hwf : Wf s' (Function.update a.elems v []))
    (hdata : s'.data = Function.update s.data v none) : Refines s' (a.unbuild v) :=
  ⟨hwf, fun w hw => by
    have hw' : Function.update a.built v false w = false := hw
    rw [hdata]
    by_cases hwv : w = v
    · rw [hwv, Function.update_self]
    · rw [Function.update_of_ne hwv] at hw' ⊢
      exact h.unbuilt w hw'⟩

/-- **各操作は `Refines` を保つ。** 前提を満たし、容量 `0` の block を `grow()` しない操作は
失敗せず、`std::vector` の同じ操作の後の状態を表す状態に移る。 -/
theorem Op.exec_refines (h : Refines s a) (op : Op α) (hv : op.Valid a) (hz : ¬op.GrowsZero s) :
    ∃ s', op.exec s = .ok s' ∧ Refines s' (op.apply a) := by
  have hw := h.wf
  cases op with
  | default_construct v =>
    have hv : a.built v = false := hv
    refine ⟨s, by rw [exec, CompactVector.default_construct, setData_of_none (h.unbuilt v hv)]; rfl, ?_⟩
    exact h.build (by rw [← h.nil hv, Function.update_eq_self]; exact hw) (fun _ _ => rfl)
  | size_construct v n x =>
    obtain ⟨hvb, hn⟩ := hv
    obtain ⟨s', hs, hw', hd⟩ := size_construct_wf hw (h.unbuilt v hvb) hn x
    exact ⟨s', hs, h.build hw' hd⟩
  | copy_construct v o =>
    obtain ⟨hvb, hob⟩ := hv
    have hvo : v ≠ o := (ne_of_built hvb hob hob).1
    obtain ⟨s', hs, hw', hd⟩ := copy_construct_wf hw (h.unbuilt v hvb) hvo (hw.length_lt o)
    exact ⟨s', hs, h.build hw' hd⟩
  | move_construct v o =>
    obtain ⟨hvb, hob⟩ := hv
    exact ⟨_, rfl, h.of_move_construct hvb hob⟩
  | init_list v xs =>
    obtain ⟨hvb, hlen⟩ := hv
    obtain ⟨s', hs, hw', hd⟩ :=
      init_list_wf hw (h.unbuilt v hvb) (show xs.length < 2 ^ 32 by omega)
    exact ⟨s', hs, h.build hw' hd⟩
  | destruct v =>
    obtain ⟨s', hs, hw', hd⟩ := clear_wf hw v
    exact ⟨s', hs, h.unbuild hw' hd⟩
  | copy_assign v o =>
    obtain ⟨hvb, -⟩ := hv
    obtain ⟨s', hs, hw', hd⟩ := copy_assign_wf (v := v) hw o (hw.length_lt o)
    exact ⟨s', hs, h.set hvb hw' hd⟩
  | move_assign v o =>
    obtain ⟨hvb, hob⟩ := hv
    exact ⟨_, rfl, h.of_swap hvb hob⟩
  | swap v o =>
    obtain ⟨hvb, hob⟩ := hv
    exact ⟨_, rfl, h.of_swap hvb hob⟩
  | push_back v x =>
    obtain ⟨hvb, hlen⟩ := hv
    obtain ⟨s', hs, hw', hd⟩ := push_back_wf hw hlen (fun b hb => Nat.pos_of_ne_zero fun hc => hz ⟨b, hb, hc⟩) x
    exact ⟨s', hs, h.set hvb hw' hd⟩
  | emplace_back v x =>
    obtain ⟨hvb, hlen⟩ := hv
    obtain ⟨s', hs, hw', hd⟩ := push_back_wf hw hlen (fun b hb => Nat.pos_of_ne_zero fun hc => hz ⟨b, hb, hc⟩) x
    exact ⟨s', hs, h.set hvb hw' hd⟩
  | pop_back v =>
    obtain ⟨hvb, -⟩ := hv
    obtain ⟨s', hs, hw', hd⟩ := pop_back_wf hw v
    exact ⟨s', hs, h.set hvb hw' (fun w _ => by rw [hd])⟩
  | insert v p num x =>
    obtain ⟨hvb, hp, hlen⟩ := hv
    obtain ⟨s', hs, hw', hd⟩ := insert_impl_wf hw hp hlen x
    exact ⟨s', by rw [exec, hs]; rfl, h.set hvb hw' hd⟩
  | insert_range v p xs =>
    obtain ⟨hvb, hp, hlen⟩ := hv
    obtain ⟨s', hs, hw', hd⟩ := insert_range_wf hw hp xs hlen
    exact ⟨s', by rw [exec, hs]; rfl, h.set hvb hw' hd⟩
  | erase v i =>
    obtain ⟨hvb, hi⟩ := hv
    obtain ⟨s', hs, hw', hd⟩ := erase_wf hw hi
    exact ⟨s', hs, h.set hvb hw' (fun w _ => by rw [hd])⟩
  | erase_range v i j =>
    obtain ⟨hvb, hij, hj⟩ := hv
    obtain ⟨s', hs, hw', hd⟩ := erase_range_wf hw hij hj
    exact ⟨s', hs, h.set hvb hw' (fun w _ => by rw [hd])⟩
  | resize v n x =>
    obtain ⟨hvb, hn⟩ := hv
    obtain ⟨s', hs, hw', hd⟩ := resize_wf hw hn x
    exact ⟨s', hs, h.set hvb hw' hd⟩
  | reserve v n =>
    obtain ⟨hvb, hn⟩ := hv
    obtain ⟨s', hs, hw', hd⟩ := reserve_wf (v := v) hw hn
    exact ⟨s', hs, h.keep hvb hw' hd⟩
  | shrink_to_fit v =>
    have hvb : a.built v = true := hv
    obtain ⟨s', hs, hw', hd⟩ := shrink_to_fit_wf hw v
    exact ⟨s', hs, h.keep hvb hw' hd⟩
  | clear v =>
    have hvb : a.built v = true := hv
    obtain ⟨s', hs, hw', hd⟩ := clear_wf hw v
    exact ⟨s', hs, h.set hvb hw' (fun w hwv => by rw [hd, Function.update_of_ne hwv])⟩

/-- 容量 `0` の block を `grow()` する `push_back` と `emplace_back` は失敗する。 -/
theorem Op.exec_of_growsZero (h : Refines s a) {op : Op α} (hz : op.GrowsZero s) :
    op.exec s = .error .outOfBounds := by
  cases op with
  | push_back v x =>
    obtain ⟨b, hb, hc⟩ := hz
    exact push_back_zero h.wf hb hc x
  | emplace_back v x =>
    obtain ⟨b, hb, hc⟩ := hz
    exact push_back_zero h.wf hb hc x
  | _ => exact absurd hz id

/-- 操作の列が、その一つの操作の手前で分かれること：`pre` を走らせた状態 `s₁` で、続く `op` が
容量 `0` の block を `grow()` し、列の全体は `outOfBounds` で止まる。 -/
def Op.FaultsAtZero (ops : List (Op α)) (s : St α) : Prop :=
  ∃ pre op post s₁, ops = pre ++ op :: post ∧ Op.run pre s = .ok s₁ ∧ op.GrowsZero s₁ ∧
    Op.run ops s = .error .outOfBounds

/-- **操作の列は `Refines` を保つか、容量 `0` の block の `grow()` で止まる。** -/
theorem Op.run_refines_or_fault : ∀ (ops : List (Op α)) (s : St α) (a : Vecs α), Refines s a →
    Op.RunValid ops a →
      (∃ s', Op.run ops s = .ok s' ∧ Refines s' (Op.applyAll ops a)) ∨ Op.FaultsAtZero ops s
  | [], s, _, h, _ => .inl ⟨s, rfl, h⟩
  | op :: ops, s, a, h, hv => by
    by_cases hz : op.GrowsZero s
    · -- ここで止まる
      refine .inr ⟨[], op, ops, s, rfl, rfl, hz, ?_⟩
      rw [Op.run, Op.exec_of_growsZero h hz, error_bind]
    · obtain ⟨s₁, hs₁, h₁⟩ := op.exec_refines h hv.1 hz
      have hrun : Op.run (op :: ops) s = Op.run ops s₁ := by rw [Op.run, hs₁, ok_bind]
      rcases Op.run_refines_or_fault ops s₁ (op.apply a) h₁ hv.2 with
        ⟨s', hs', h'⟩ | ⟨pre, op', post, s₂, rfl, hpre, hz', hfail⟩
      · exact .inl ⟨s', hrun ▸ hs', h'⟩
      · -- 後ろの列が止まるなら、`op` を前に足した列も同じ所で止まる
        refine .inr ⟨op :: pre, op', post, s₂, rfl, ?_, hz', hrun ▸ hfail⟩
        rw [Op.run, hs₁, ok_bind]
        exact hpre

end Refines

/-! ## 見えるもの -/

section Observe

variable {s : St α} {a : Vecs α}

/-- 先頭 `|l|` 個の場所を `l` の添字で読むと `l`。 -/
theorem map_range_getElem? (l : List α) : (List.range l.length).map (fun j => l[j]?) = l.map some := by
  apply List.ext_getElem?
  intro j
  rw [List.getElem?_map, List.getElem?_map]
  by_cases hj : j < l.length
  · rw [List.getElem?_range hj, Option.map_some, List.getElem?_eq_getElem hj, Option.map_some]
  · rw [List.getElem?_eq_none (by rw [List.length_range]; omega), Option.map_none,
      List.getElem?_eq_none (by omega), Option.map_none]

/-- `begin()..end()` で見える要素は `std::vector` の列と同じ。 -/
theorem Refines.elems_eq (h : Refines s a) (v : Nat) : s.elems v = (a.elems v).map some := by
  cases hb : s.data v with
  | none => simp only [St.elems, hb, h.wf.nil hb, List.map_nil]
  | some b =>
    have hc : (s.heap.blocks b).cells = fun j => (a.elems v)[j]? := funext (h.wf.blockRepr hb).cells_eq
    simp only [St.elems, hb, Heap.view, h.wf.size_eq, hc]
    exact map_range_getElem? (a.elems v)

/-- `size() <= capacity() < 2^32`。 -/
theorem Refines.size_le_capacity (h : Refines s a) (v : Nat) :
    s.size v ≤ s.capacity v ∧ s.capacity v < 2 ^ 32 := by
  refine ⟨by rw [h.wf.size_eq]; exact h.wf.size_le_capacity v, ?_⟩
  cases hb : s.data v with
  | none => simp only [St.capacity, hb]; decide
  | some b => rw [capacity_of_some hb]; exact (s.hdr b).m_capacity.toNat_lt

/-- どの vector も構築していなければ（すべて破棄した後は）、生きている block はない。 -/
theorem Refines.no_live_block (h : Refines s a) (hall : ∀ v, a.built v = false) (b : Nat) :
    (s.heap.blocks b).live = false := by
  cases hl : (s.heap.blocks b).live with
  | false => rfl
  | true =>
    obtain ⟨v, hv⟩ := h.wf.owned b hl
    rw [h.unbuilt v (hall v)] at hv
    exact absurd hv nofun

/-- **`CompactVector` は `std::vector` を refine する。** 空の状態から、`std::vector` の前提と
大きさの上限を満たす操作の列は、失敗せずに走り（破棄した object や解放した block を読まず、二度
破棄せず、生きている object を残した block を解放せず、割り当てた大きさで解放する）、どの vector の
見える要素も `std::vector` の列と同じで `size() <= capacity() < 2^32` になる。そうでなければ、空の
`initializer_list` が作る容量 `0` の block を `push_back` か `emplace_back` が `grow()` する所で
`outOfBounds` になり、失敗するのはそこだけである。 -/
theorem run_from_init (ops : List (Op α)) (hv : Op.RunValid ops Vecs.init) :
    (∃ s, Op.run ops St.init = .ok s ∧ ∀ v,
      s.elems v = ((Op.applyAll ops Vecs.init).elems v).map some ∧
      s.size v ≤ s.capacity v ∧ s.capacity v < 2 ^ 32) ∨ Op.FaultsAtZero ops St.init := by
  rcases Op.run_refines_or_fault ops St.init Vecs.init refines_init hv with ⟨s, hs, h⟩ | hf
  · exact .inl ⟨s, hs, fun v => ⟨h.elems_eq v, h.size_le_capacity v⟩⟩
  · exact .inr hf

/-- 容量を越える挿入（`grow` と `insert_elems` の再割り当て）、範囲の削除、コピー構築と破棄の後、
空の `initializer_list` から作った vector に `push_back` する列。 -/
theorem run_from_init_insert_copy :
    (∃ s, Op.run [.default_construct 0, .push_back 0 (1 : Nat), .insert 0 1 3 7, .erase_range 0 0 2,
      .copy_construct 1 0, .destruct 0, .init_list 2 [], .push_back 2 5] St.init = .ok s ∧ ∀ v,
      s.elems v = ((Op.applyAll [.default_construct 0, .push_back 0 (1 : Nat), .insert 0 1 3 7,
        .erase_range 0 0 2, .copy_construct 1 0, .destruct 0, .init_list 2 [], .push_back 2 5]
        Vecs.init).elems v).map some ∧
      s.size v ≤ s.capacity v ∧ s.capacity v < 2 ^ 32) ∨
    Op.FaultsAtZero [.default_construct 0, .push_back 0 (1 : Nat), .insert 0 1 3 7, .erase_range 0 0 2,
      .copy_construct 1 0, .destruct 0, .init_list 2 [], .push_back 2 5] St.init :=
  run_from_init _ ⟨rfl, ⟨rfl, by decide⟩, ⟨rfl, by decide, by decide⟩, ⟨rfl, by decide, by decide⟩,
    ⟨rfl, rfl⟩, rfl, ⟨rfl, by decide⟩, ⟨rfl, by decide⟩, trivial⟩

/-- **解放し忘れがない。** 空の状態から前提を満たす操作の列を実行し、最後にどの vector も破棄して
あれば、列は容量 `0` の block の `grow()` で止まるのでないかぎり失敗せず、生きている block は一つも
残らない。block は中の object をすべて破棄してからでないと解放できないので、構築した object は
どれも破棄されている。 -/
theorem run_destroyed_no_leak (ops : List (Op α)) (hv : Op.RunValid ops Vecs.init)
    (hdone : ∀ v, (Op.applyAll ops Vecs.init).built v = false) :
    (∃ s, Op.run ops St.init = .ok s ∧ ∀ b, (s.heap.blocks b).live = false) ∨
      Op.FaultsAtZero ops St.init := by
  rcases Op.run_refines_or_fault ops St.init Vecs.init refines_init hv with ⟨s, hs, h⟩ | hf
  · exact .inl ⟨s, hs, h.no_live_block hdone⟩
  · exact .inr hf

/-- 二つの vector を作って両方破棄し、空の `initializer_list` から作った vector も破棄する列。 -/
theorem run_destroyed_no_leak_copy :
    (∃ s, Op.run [.default_construct 0, .push_back 0 (1 : Nat), .copy_construct 1 0, .destruct 0,
      .destruct 1, .init_list 2 [], .destruct 2] St.init = .ok s ∧
        ∀ b, (s.heap.blocks b).live = false) ∨
      Op.FaultsAtZero [.default_construct 0, .push_back 0 (1 : Nat), .copy_construct 1 0, .destruct 0,
        .destruct 1, .init_list 2 [], .destruct 2] St.init :=
  run_destroyed_no_leak _ ⟨rfl, ⟨rfl, by decide⟩, ⟨rfl, rfl⟩, rfl, rfl, ⟨rfl, by decide⟩, rfl, trivial⟩
    (fun v => by
      by_cases h0 : v = 0
      · subst h0
        rfl
      · by_cases h1 : v = 1
        · subst h1
          rfl
        · by_cases h2 : v = 2
          · subst h2
            rfl
          · simp only [Op.applyAll, List.foldl, Op.apply, Vecs.unbuild, Vecs.build, Vecs.set,
              Vecs.init, Function.update_of_ne h0, Function.update_of_ne h1, Function.update_of_ne h2])

end Observe

end Hhvm.CompactVector
