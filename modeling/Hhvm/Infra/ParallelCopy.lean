import Mathlib.Logic.Function.Basic
import Mathlib.Data.List.Nodup

/-!
# 並列コピーを移動で行う

レジスタの値を `ρ : R → V` とする。`move s d` は `d` に `s` の今の値を写し、`swap a b` は
二つの値を入れ替える。移動の列（元と行き先の組の列）を順に行うのが `runMoves`。

* 行き先でないレジスタは変わらない（`runMoves_of_not_dst`）。
* 前の移動の行き先を後の移動が読みも書きもしなければ（`ms.Pairwise NoClobber`）、
  どの行き先にも元の**最初の**値が入る（`runMoves_dst`）。並列コピーを順に行えるのはこのとき。
* 閉路 `v :: rest` は、先頭を一時レジスタに逃がし、順にずらし、最後に一時レジスタから戻す
  （`rotateMoves`、`runMoves_rotate`）。
-/

namespace Infra.ParallelCopy

variable {R V : Type} [DecidableEq R]

/-- `d` に `s` の値を写す。 -/
def move (s d : R) (ρ : R → V) : R → V := Function.update ρ d (ρ s)

/-- `a` と `b` の値を入れ替える。 -/
def swap (a b : R) (ρ : R → V) : R → V := Function.update (Function.update ρ a (ρ b)) b (ρ a)

/-- 移動の列を順に行う。組は（元, 行き先）。 -/
def runMoves : List (R × R) → (R → V) → R → V
  | [], ρ => ρ
  | m :: ms, ρ => runMoves ms (move m.1 m.2 ρ)

/-- 前の移動 `a` の行き先を、後の移動 `b` が読みも書きもしない。 -/
def NoClobber (a b : R × R) : Prop := a.2 ≠ b.1 ∧ a.2 ≠ b.2

/-- 列 `q` を一つずつずらす移動。`q[i]` に `q[i + 1]` を写す。 -/
def shiftMoves : List R → List (R × R)
  | a :: b :: rest => (b, a) :: shiftMoves (b :: rest)
  | _ => []

/-- 閉路 `v :: rest`（各頂点にその次の頂点の値を入れ、最後には `v` の値を入れる）を、
一時レジスタ `tmp` を使って回す移動。 -/
def rotateMoves (tmp : R) : List R → List (R × R)
  | [] => []
  | v :: rest => ((v, tmp) :: shiftMoves (v :: rest)) ++
      [(tmp, (v :: rest).getLast (List.cons_ne_nil v rest))]

/-! ## 一つの移動と交換 -/

@[simp] theorem move_apply_self (s d : R) (ρ : R → V) : move s d ρ d = ρ s :=
  Function.update_self _ _ _

theorem move_apply_of_ne {s d r : R} (h : r ≠ d) (ρ : R → V) : move s d ρ r = ρ r :=
  Function.update_of_ne h _ _

@[simp] theorem swap_apply_left (a b : R) (ρ : R → V) : swap a b ρ a = ρ b := by
  by_cases hab : a = b
  · subst hab
    simp [swap]
  · simp [swap, Function.update_of_ne hab]

@[simp] theorem swap_apply_right (a b : R) (ρ : R → V) : swap a b ρ b = ρ a := by
  simp [swap]

theorem swap_apply_of_ne {a b r : R} (ha : r ≠ a) (hb : r ≠ b) (ρ : R → V) : swap a b ρ r = ρ r := by
  simp [swap, Function.update_of_ne ha, Function.update_of_ne hb]

/-! ## 移動の列 -/

@[simp] theorem runMoves_nil (ρ : R → V) : runMoves [] ρ = ρ := rfl

@[simp] theorem runMoves_cons (m : R × R) (ms : List (R × R)) (ρ : R → V) :
    runMoves (m :: ms) ρ = runMoves ms (move m.1 m.2 ρ) := rfl

theorem runMoves_append (ms ms' : List (R × R)) (ρ : R → V) :
    runMoves (ms ++ ms') ρ = runMoves ms' (runMoves ms ρ) := by
  induction ms generalizing ρ with
  | nil => rfl
  | cons m ms ih => exact ih _

/-- 行き先でないレジスタは変わらない。 -/
theorem runMoves_of_not_dst {ms : List (R × R)} {r : R} (h : ∀ m ∈ ms, m.2 ≠ r) (ρ : R → V) :
    runMoves ms ρ r = ρ r := by
  induction ms generalizing ρ with
  | nil => rfl
  | cons m ms ih =>
    rw [runMoves_cons, ih (fun m' hm' => h m' (List.mem_cons_of_mem _ hm')),
      move_apply_of_ne (Ne.symm (h m List.mem_cons_self))]

/-- **順に行っても並列コピーになる。** 前の移動の行き先を後の移動が読みも書きもしなければ、
どの行き先にも、その元の最初の値が入る。 -/
theorem runMoves_dst {ms : List (R × R)} (hms : ms.Pairwise NoClobber) (ρ : R → V) :
    ∀ m ∈ ms, runMoves ms ρ m.2 = ρ m.1 := by
  induction ms generalizing ρ with
  | nil => intro m hm; cases hm
  | cons a ms ih =>
    obtain ⟨ha, hms⟩ := List.pairwise_cons.mp hms
    intro m hm
    rw [runMoves_cons]
    rcases List.mem_cons.mp hm with rfl | hm
    · -- 最初の移動の行き先には、後の移動は書かない
      rw [runMoves_of_not_dst (fun b hb => Ne.symm (ha b hb).2), move_apply_self]
    · -- 後の移動の元は、最初の移動の行き先ではない
      rw [ih hms _ m hm, move_apply_of_ne (Ne.symm (ha m hm).1)]

/-! ## 閉路を回す -/

omit [DecidableEq R] in
theorem mem_shiftMoves {q : List R} {m : R × R} (hm : m ∈ shiftMoves q) : m.1 ∈ q ∧ m.2 ∈ q := by
  induction q using shiftMoves.induct with
  | case1 a b rest ih =>
    rcases List.mem_cons.mp hm with rfl | hm
    · exact ⟨List.mem_cons_of_mem _ List.mem_cons_self, List.mem_cons_self⟩
    · obtain ⟨h₁, h₂⟩ := ih hm
      exact ⟨List.mem_cons_of_mem _ h₁, List.mem_cons_of_mem _ h₂⟩
  | case2 q hq =>
    rw [shiftMoves] at hm
    · cases hm
    · exact hq

omit [DecidableEq R] in
/-- `shiftMoves q` の移動は `(q[i + 1], q[i])`。 -/
theorem shiftMoves_getElem {q : List R} :
    ∀ i (h : i + 1 < q.length), (q[i + 1], q[i]) ∈ shiftMoves q := by
  induction q using shiftMoves.induct with
  | case1 a b rest ih =>
    intro i h
    cases i with
    | zero => exact List.mem_cons_self
    | succ i =>
      refine List.mem_cons_of_mem _ ?_
      have := ih i (by simpa using h)
      simpa using this
  | case2 q hq =>
    intro i h
    match q, hq with
    | [], _ => simp at h
    | [_], _ => simp at h
    | _ :: _ :: _, hq => exact absurd rfl (hq _ _ _)

omit [DecidableEq R] in
theorem shiftMoves_pairwise {q : List R} (hq : q.Nodup) : (shiftMoves q).Pairwise NoClobber := by
  induction q using shiftMoves.induct with
  | case1 a b rest ih =>
    obtain ⟨ha, hq⟩ := List.nodup_cons.mp hq
    refine List.pairwise_cons.mpr ⟨fun m hm => ?_, ih hq⟩
    -- 後の移動が触れるのは `b :: rest` だけで、`a` はそこにない
    obtain ⟨h₁, h₂⟩ := mem_shiftMoves hm
    exact ⟨fun h : a = m.1 => ha (h ▸ h₁), fun h : a = m.2 => ha (h ▸ h₂)⟩
  | case2 q hq' =>
    rw [shiftMoves]
    · exact List.Pairwise.nil
    · exact hq'

section Rotate

variable {f : R → Option R} {v tmp : R} {rest : List R}

/-- **閉路を回す。** `v :: rest` が重複のない閉路（各頂点の次が `f` で、最後の次が `v`）で、
`tmp` がその上になければ、`rotateMoves` の後、閉路の各頂点には次の頂点の元の値が入る。 -/
theorem runMoves_rotate (hnd : (v :: rest).Nodup) (htmp : tmp ∉ v :: rest)
    (hnext : ∀ i (h : i + 1 < (v :: rest).length), f (v :: rest)[i] = some (v :: rest)[i + 1])
    (hlast : f ((v :: rest).getLast (List.cons_ne_nil v rest)) = some v) (ρ : R → V) :
    ∀ r ∈ v :: rest, ∀ s, f r = some s → runMoves (rotateMoves tmp (v :: rest)) ρ r = ρ s := by
  -- 最後の移動の前までは、読む前に書かない
  have hpw : ((v, tmp) :: shiftMoves (v :: rest)).Pairwise NoClobber := by
    refine List.pairwise_cons.mpr ⟨fun m hm => ?_, shiftMoves_pairwise hnd⟩
    obtain ⟨h₁, h₂⟩ := mem_shiftMoves hm
    exact ⟨fun h : tmp = m.1 => htmp (h ▸ h₁), fun h : tmp = m.2 => htmp (h ▸ h₂)⟩
  have hpre := runMoves_dst hpw ρ
  intro r hr s hs
  obtain ⟨i, hi, rfl⟩ := List.getElem_of_mem hr
  rw [rotateMoves, runMoves_append, runMoves_cons, runMoves_nil, List.getLast_eq_getElem]
  by_cases hil : i + 1 < (v :: rest).length
  · -- 途中の頂点: 最後の移動は触れず、ずらす移動で次の頂点の値が入る
    have hne : (v :: rest)[i] ≠ (v :: rest)[(v :: rest).length - 1] :=
      fun h => absurd ((List.Nodup.getElem_inj_iff hnd).mp h) (by omega)
    rw [move_apply_of_ne hne, hpre _ (List.mem_cons_of_mem _ (shiftMoves_getElem i hil))]
    rw [hnext i hil] at hs
    cases hs
    rfl
  · -- 最後の頂点: 一時レジスタに逃がした `v` の値が入る
    have hlastq : (v :: rest)[i] = (v :: rest)[(v :: rest).length - 1] := by
      congr 1
      omega
    rw [hlastq, move_apply_self, hpre _ List.mem_cons_self]
    rw [List.getLast_eq_getElem] at hlast
    rw [hlastq, hlast] at hs
    cases hs
    rfl

/-- 閉路の外で `tmp` でもないレジスタは、回しても変わらない。 -/
theorem runMoves_rotate_of_not_mem {r : R} (hr : r ∉ v :: rest) (hrt : r ≠ tmp) (ρ : R → V) :
    runMoves (rotateMoves tmp (v :: rest)) ρ r = ρ r := by
  refine runMoves_of_not_dst (fun m hm => ?_) ρ
  rw [rotateMoves] at hm
  rcases List.mem_append.mp hm with hm | hm
  · rcases List.mem_cons.mp hm with rfl | hm
    · exact Ne.symm hrt
    · exact fun h => hr (h ▸ (mem_shiftMoves hm).2)
  · rw [List.mem_singleton] at hm
    subst hm
    exact fun h => hr (h ▸ List.getLast_mem _)

end Rotate

end Infra.ParallelCopy
