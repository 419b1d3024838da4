import Mathlib.Logic.Relation
import Mathlib.Data.Fintype.Card

/-!
# 幅優先の探索

作業の列から節点を一つ取り出し、まだ処理していなければ処理済みにして、その次の節点を列の
後ろに足す。列が空になったときの処理済みの節点は、始めの列から辺をたどって届く節点の全体で
ある（`mem_walk_iff`）。

* 届くものしか処理しない（`walk_sound`）。
* 処理済みの節点の次は、処理済みか列の中にある（`Closed`）。この不変条件は一歩ごとに保たれ、
  列が空になれば処理済みの節点は辺について閉じている（`walk_closed`）。

節点は有限個なので、処理済みの節点が増えるか、列が短くなるかのどちらかで止まる。
-/

namespace Infra.Walk

open Relation

variable {α : Type} (next : α → List α)

/-- 列が空になるまで探索を続け、処理済みの節点を返す。 -/
def walk [DecidableEq α] [Fintype α] (processed : List α) : List α → List α
  | [] => processed
  | x :: queue =>
    if _ : x ∈ processed then walk processed queue
    else walk (x :: processed) (queue ++ next x)
termination_by queue => (Fintype.card α - processed.toFinset.card, queue.length)
decreasing_by
  · exact Prod.Lex.right _ (by simp)
  · apply Prod.Lex.left
    have hgrow : (x :: processed).toFinset.card = processed.toFinset.card + 1 := by
      rw [List.toFinset_cons, Finset.card_insert_of_notMem (by simpa using ‹¬x ∈ processed›)]
    have hle := Finset.card_le_univ (x :: processed).toFinset
    omega

/-- 辺：`y` は `x` の次にある。 -/
def Edge (x y : α) : Prop := y ∈ next x

/-- 処理済みの節点の次は、処理済みか列の中にある。 -/
def Closed (processed queue : List α) : Prop :=
  ∀ x ∈ processed, ∀ y ∈ next x, y ∈ processed ∨ y ∈ queue

variable {next}

/-- 処理済みの節点を取り出して捨てても、`Closed` は保たれる。 -/
theorem Closed.skip {x : α} {processed queue : List α} (hx : x ∈ processed)
    (h : Closed next processed (x :: queue)) : Closed next processed queue := by
  intro z hz y hy
  rcases h z hz y hy with hp | hq
  · exact .inl hp
  · rcases List.mem_cons.mp hq with rfl | hq
    · exact .inl hx
    · exact .inr hq

/-- 新しい節点を処理済みにしてその次を列に足しても、`Closed` は保たれる。 -/
theorem Closed.visit {x : α} {processed queue : List α}
    (h : Closed next processed (x :: queue)) :
    Closed next (x :: processed) (queue ++ next x) := by
  intro z hz y hy
  rcases List.mem_cons.mp hz with rfl | hz
  · exact .inr (List.mem_append_right _ hy)
  · rcases h z hz y hy with hp | hq
    · exact .inl (List.mem_cons_of_mem _ hp)
    · rcases List.mem_cons.mp hq with rfl | hq
      · exact .inl (List.mem_cons_self)
      · exact .inr (List.mem_append_left _ hq)

variable [DecidableEq α] [Fintype α]

@[simp] theorem walk_nil (processed : List α) : walk next processed [] = processed := by
  rw [walk]

theorem walk_cons_of_mem {x : α} {processed : List α} (h : x ∈ processed) (queue : List α) :
    walk next processed (x :: queue) = walk next processed queue := by
  rw [walk, dif_pos h]

theorem walk_cons_of_not_mem {x : α} {processed : List α} (h : x ∉ processed)
    (queue : List α) :
    walk next processed (x :: queue) = walk next (x :: processed) (queue ++ next x) := by
  rw [walk, dif_neg h]

/-- 処理済みの節点は処理済みのまま残る。 -/
theorem mem_walk_of_mem {y : α} {processed : List α} (queue : List α) (h : y ∈ processed) :
    y ∈ walk next processed queue := by
  fun_induction walk next processed queue with
  | case1 => simpa using h
  | case2 processed x queue _ ih => exact ih h
  | case3 processed x queue _ ih => exact ih (List.mem_cons_of_mem x h)

/-- 処理済みの節点は重複しない。 -/
theorem walk_nodup {processed : List α} (queue : List α) (h : processed.Nodup) :
    (walk next processed queue).Nodup := by
  fun_induction walk next processed queue with
  | case1 => exact h
  | case2 processed x queue _ ih => exact ih h
  | case3 processed x queue hx ih => exact ih (List.nodup_cons.mpr ⟨hx, h⟩)

/-- 列に入った節点はいずれ処理される。 -/
theorem mem_walk_of_mem_queue {y : α} (processed queue : List α) (h : y ∈ queue) :
    y ∈ walk next processed queue := by
  fun_induction walk next processed queue with
  | case1 => cases h
  | case2 processed x queue hx ih =>
    rcases List.mem_cons.mp h with rfl | hq
    · exact mem_walk_of_mem _ hx
    · exact ih hq
  | case3 processed x queue _ ih =>
    rcases List.mem_cons.mp h with rfl | hq
    · exact mem_walk_of_mem _ (List.mem_cons_self)
    · exact ih (List.mem_append_left _ hq)

/-- **届くものしか処理しない。** 結果の節点は、始めから処理済みか、列のどれかから届く。 -/
theorem walk_sound {y : α} {processed queue : List α} (h : y ∈ walk next processed queue) :
    y ∈ processed ∨ ∃ s ∈ queue, ReflTransGen (Edge next) s y := by
  fun_induction walk next processed queue with
  | case1 => exact .inl (by simpa using h)
  | case2 processed x queue _ ih =>
    rcases ih h with hp | ⟨s, hs, hr⟩
    · exact .inl hp
    · exact .inr ⟨s, List.mem_cons_of_mem x hs, hr⟩
  | case3 processed x queue _ ih =>
    rcases ih h with hp | ⟨s, hs, hr⟩
    · rcases List.mem_cons.mp hp with rfl | hp
      · exact .inr ⟨y, List.mem_cons_self, .refl⟩
      · exact .inl hp
    · rcases List.mem_append.mp hs with hq | hn
      · exact .inr ⟨s, List.mem_cons_of_mem x hq, hr⟩
      · -- `s` は `x` の次の節点なので、`x` から一歩で届く
        exact .inr ⟨x, List.mem_cons_self, .head hn hr⟩

/-- **列が空になれば、処理済みの節点は辺について閉じている。** -/
theorem walk_closed {processed queue : List α} (h : Closed next processed queue) :
    ∀ x ∈ walk next processed queue, ∀ y ∈ next x, y ∈ walk next processed queue := by
  fun_induction walk next processed queue with
  | case1 processed =>
    intro x hx y hy
    rcases h x hx y hy with hp | hq
    · exact hp
    · cases hq
  | case2 processed x queue hx ih => exact ih (h.skip hx)
  | case3 processed x queue _ ih => exact ih h.visit

/-- 閉じた集合は、列から届く節点をすべて含む。 -/
theorem mem_walk_of_reach {processed queue : List α} (h : Closed next processed queue)
    {s y : α} (hs : s ∈ queue) (hr : ReflTransGen (Edge next) s y) :
    y ∈ walk next processed queue := by
  induction hr with
  | refl => exact mem_walk_of_mem_queue processed queue hs
  | tail _ hbc ih => exact walk_closed h _ ih _ hbc

/-- **探索の結果は、始めの節点から届く節点の全体である。** -/
theorem mem_walk_iff (a y : α) : y ∈ walk next [] [a] ↔ ReflTransGen (Edge next) a y := by
  constructor
  · intro h
    rcases walk_sound h with hp | ⟨s, hs, hr⟩
    · cases hp
    · rw [List.mem_singleton.mp hs] at hr
      exact hr
  · exact mem_walk_of_reach (fun _ hx => by cases hx) (List.mem_singleton_self a)

end Infra.Walk
