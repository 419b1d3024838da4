import Mathlib.Logic.Function.Basic

/-!
# スレッドの交互実行と futex

スレッドの交互実行を、事象の列として書く。遷移系 `System` は初めの状態 `init`、事象を起こせる
かの `Enabled`、起こした後の状態 `next` からなる。どのスレッドの一歩も事象の一つで、どの
交互実行も起こせる事象を順に起こしたものである。

* `Reachable` — 初めの状態から起こせる事象を起こしてたどり着く状態
* `Reachable.inv` — 初めの状態で成り立ち、起こせる事象が保つ性質は、たどり着く状態のどれでも
  成り立つ（不変量の規則）
* `run`、`Valid` — 事象の有限の列を順に起こした後の状態と、どれもがその時に起こせること
* `Run`、`Run.cycle` — 無限の実行。起こせる事象の列で始めの状態に戻るもの（輪）を繰り返すと
  無限の実行になり、輪の中で起こることは繰り返しの中で何度でも起こる
* `wakeAll` — `futex_wake(addr, INT_MAX)`：待ち行列にいるスレッドを全員起こす。起こされた
  スレッドは `resume` の場所から続け、待っていなかったスレッドはそのまま

スレッドの場所は型 `P` の値、眠っているか（待ち行列にいるか）は `asleep : P → Bool` で言う。
-/

namespace Infra.Interleaving

/-- 遷移系：初めの状態、事象を起こせるか、起こした後の状態。 -/
structure System (σ ε : Type) where
  init : σ
  Enabled : σ → ε → Prop
  next : σ → ε → σ

variable {σ ε : Type} (S : System σ ε)

/-- 初めの状態から、起こせる事象を一つずつ起こしてたどり着く状態。 -/
inductive Reachable : σ → Prop where
  | init : Reachable S.init
  | step {s : σ} {e : ε} : Reachable s → S.Enabled s e → Reachable (S.next s e)

variable {S}

/-- 不変量の規則。事象ごとの保存には、たどり着く状態であることも使ってよい。 -/
theorem Reachable.inv {I : σ → Prop} (h0 : I S.init)
    (hstep : ∀ s e, Reachable S s → I s → S.Enabled s e → I (S.next s e)) {s : σ}
    (hs : Reachable S s) : I s := by
  induction hs with
  | init => exact h0
  | step hr he ih => exact hstep _ _ hr ih he

/-! ## 有限の実行 -/

variable (S)

/-- 事象の列 `es` を `s` から順に起こした後の状態。 -/
def run (s : σ) (es : List ε) : σ := es.foldl S.next s

/-- 事象の列 `es` のどれもが、`s` から順に起こしていったその時の状態で起こせる。 -/
def Valid : σ → List ε → Prop
  | _, [] => True
  | s, e :: es => S.Enabled s e ∧ Valid (S.next s e) es

instance Valid.decidable [∀ s e, Decidable (S.Enabled s e)] : ∀ s es, Decidable (Valid S s es)
  | _, [] => isTrue trivial
  | s, e :: es =>
    have := Valid.decidable (S.next s e) es
    inferInstanceAs (Decidable (S.Enabled s e ∧ Valid S (S.next s e) es))

variable {S}

@[simp] theorem run_nil (s : σ) : run S s [] = s := rfl

@[simp] theorem run_cons (s : σ) (e : ε) (es : List ε) : run S s (e :: es) = run S (S.next s e) es :=
  rfl

theorem run_append (s : σ) (es es' : List ε) : run S s (es ++ es') = run S (run S s es) es' :=
  List.foldl_append ..

/-- 列の `i` 番目までを起こした後に `i` 番目を起こすと、`i + 1` 番目までを起こした後になる。 -/
theorem run_take_succ (s : σ) (es : List ε) {i : Nat} (h : i < es.length) :
    run S s (es.take (i + 1)) = S.next (run S s (es.take i)) (es.get ⟨i, h⟩) := by
  rw [List.take_add_one, run_append, List.getElem?_eq_getElem h]
  rfl

/-- 起こせる列の `i` 番目は、`i` 番目までを起こした後の状態で起こせる。 -/
theorem Valid.enabled_get : ∀ {s : σ} {es : List ε}, Valid S s es → ∀ i (h : i < es.length),
    S.Enabled (run S s (es.take i)) (es.get ⟨i, h⟩)
  | _, [], _, i, h => absurd h (Nat.not_lt_zero i)
  | _, _ :: _, hv, 0, _ => hv.1
  | _, _ :: _, hv, i + 1, h => hv.2.enabled_get i (Nat.lt_of_succ_lt_succ h)

/-- たどり着く状態から起こせる列を起こすと、またたどり着く状態。 -/
theorem Reachable.run {s : σ} {es : List ε} (hs : Reachable S s) (hv : Valid S s es) :
    Reachable S (Interleaving.run S s es) := by
  induction es generalizing s with
  | nil => exact hs
  | cons e es ih => exact ih (Reachable.step hs hv.1) hv.2

/-! ## 無限の実行 -/

variable (S)

/-- 無限の実行：時刻 `n` の状態 `st n` で起こせる事象 `ev n` を起こすと、時刻 `n + 1` の状態。 -/
structure Run where
  st : Nat → σ
  ev : Nat → ε
  enabled : ∀ n, S.Enabled (st n) (ev n)
  next : ∀ n, st (n + 1) = S.next (st n) (ev n)

variable {S}

/-- 始めの状態にたどり着けるなら、実行のどの状態にもたどり着ける。 -/
theorem Run.reachable (r : Run S) (h0 : Reachable S (r.st 0)) : ∀ n, Reachable S (r.st n)
  | 0 => h0
  | n + 1 => by
    rw [r.next n]
    exact Reachable.step (r.reachable h0 n) (r.enabled n)

/-- `n` を輪の長さ `L` で割った余りは、一つ進めると一つ進むか、輪の頭に戻る。 -/
theorem succ_mod_of_lt {n L : Nat} (h : n % L + 1 < L) : (n + 1) % L = n % L + 1 := by
  rw [Nat.add_mod, Nat.one_mod_eq_one.mpr (by omega), Nat.mod_eq_of_lt h]

theorem succ_mod_of_eq {n L : Nat} (h : n % L + 1 = L) : (n + 1) % L = 0 := by
  have hd := Nat.div_add_mod n L
  have h1 : n + 1 = L * (n / L + 1) := by
    rw [Nat.mul_succ]
    omega
  rw [h1, Nat.mul_mod_right]

/-- 輪：`s` から起こせる列 `c` が `s` に戻るなら、それを繰り返して無限の実行になる。時刻 `n` の
状態は、輪の頭から `n % c.length` 個を起こした後の状態。 -/
def Run.cycle (s : σ) (c : List ε) (hc : 0 < c.length) (hv : Valid S s c) (hr : run S s c = s) :
    Run S where
  st n := run S s (c.take (n % c.length))
  ev n := c.get ⟨n % c.length, Nat.mod_lt n hc⟩
  enabled n := hv.enabled_get _ _
  next n := by
    rw [← run_take_succ]
    rcases Nat.lt_or_ge (n % c.length + 1) c.length with h | h
    · rw [succ_mod_of_lt h]
    · -- 輪の終わり：頭に戻る
      have he : n % c.length + 1 = c.length := Nat.le_antisymm (Nat.mod_lt n hc) h
      rw [succ_mod_of_eq he, he, List.take_zero, List.take_length, run_nil, hr]

/-- 周期 `L` で繰り返す性質が輪の中のどこかで成り立てば、どの時刻より後にも成り立つ時刻がある。
輪を繰り返した実行（`Run.cycle`）の中で事象や状態が何度でも現れることに使う。 -/
theorem exists_ge_of_mod {L : Nat} (hL : 0 < L) {P : Nat → Prop} (hP : ∀ n, P (n % L) → P n)
    {i : Nat} (hi : i < L) (h : P i) (n : Nat) : ∃ m, n ≤ m ∧ P m := by
  refine ⟨L * n + i, ?_, hP _ ?_⟩
  · have := Nat.le_mul_of_pos_left n hL
    omega
  · rw [Nat.mul_add_mod, Nat.mod_eq_of_lt hi]
    exact h

section Cycle

variable {s : σ} {c : List ε} {hc : 0 < c.length} {hv : Valid S s c} {hr : run S s c = s}

theorem Run.cycle_st_mod (n : Nat) :
    (Run.cycle s c hc hv hr).st (n % c.length) = (Run.cycle s c hc hv hr).st n := by
  show run S s (c.take (n % c.length % c.length)) = run S s (c.take (n % c.length))
  rw [Nat.mod_mod]

theorem Run.cycle_ev_mod (n : Nat) :
    (Run.cycle s c hc hv hr).ev (n % c.length) = (Run.cycle s c hc hv hr).ev n := by
  show c.get ⟨n % c.length % c.length, _⟩ = c.get ⟨n % c.length, _⟩
  congr 1
  exact Fin.ext (Nat.mod_mod n c.length)

/-- 輪の中のどの時点でも成り立つことは、輪を繰り返した実行のどの時刻でも成り立つ。 -/
theorem Run.cycle_forall {Q : σ → ε → Prop}
    (h : ∀ i (hi : i < c.length), Q (run S s (c.take i)) (c.get ⟨i, hi⟩)) (n : Nat) :
    Q ((Run.cycle s c hc hv hr).st n) ((Run.cycle s c hc hv hr).ev n) :=
  h _ (Nat.mod_lt n hc)

/-- 輪の中で一度でも起こる事象の性質は、輪を繰り返した実行の中で何度でも起こる。 -/
theorem Run.cycle_exists_ev {Q : ε → Prop} {i : Nat} (hi : i < c.length) (h : Q (c.get ⟨i, hi⟩))
    (n : Nat) : ∃ m, n ≤ m ∧ Q ((Run.cycle s c hc hv hr).ev m) := by
  refine exists_ge_of_mod hc (P := fun m => Q ((Run.cycle s c hc hv hr).ev m))
    (fun m hm => (Run.cycle_ev_mod m) ▸ hm) hi ?_ n
  show Q (c.get ⟨i % c.length, _⟩)
  rw [show c.get ⟨i % c.length, Nat.mod_lt i hc⟩ = c.get ⟨i, hi⟩ from
    congrArg c.get (Fin.ext (Nat.mod_eq_of_lt hi))]
  exact h

/-- 輪の中で一度でも成り立つ状態の性質は、輪を繰り返した実行の中で何度でも成り立つ。 -/
theorem Run.cycle_exists_st {Q : σ → Prop} {i : Nat} (hi : i < c.length)
    (h : Q (run S s (c.take i))) (n : Nat) : ∃ m, n ≤ m ∧ Q ((Run.cycle s c hc hv hr).st m) := by
  refine exists_ge_of_mod hc (P := fun m => Q ((Run.cycle s c hc hv hr).st m))
    (fun m hm => (Run.cycle_st_mod m) ▸ hm) hi ?_ n
  show Q (run S s (c.take (i % c.length)))
  rw [Nat.mod_eq_of_lt hi]
  exact h

end Cycle

/-! ## futex の待ち行列 -/

section Futex

variable {τ P : Type} (asleep : P → Bool) (resume : P → P)

/-- `futex_wake(addr, INT_MAX)`：眠っているスレッドを全員 `resume` の場所に移す。 -/
def wakeAll (pc : τ → P) : τ → P := fun u => if asleep (pc u) then resume (pc u) else pc u

variable {asleep resume}

theorem wakeAll_of_asleep {pc : τ → P} {u : τ} (h : asleep (pc u) = true) :
    wakeAll asleep resume pc u = resume (pc u) := if_pos h

theorem wakeAll_of_not_asleep {pc : τ → P} {u : τ} (h : asleep (pc u) = false) :
    wakeAll asleep resume pc u = pc u := if_neg (by simp [h])

/-- 起こされたスレッドがすぐまた眠ることはなければ、起こした後に眠っているスレッドはいない。 -/
theorem not_asleep_wakeAll (hres : ∀ p, asleep p = true → asleep (resume p) = false)
    (pc : τ → P) (u : τ) : asleep (wakeAll asleep resume pc u) = false := by
  cases h : asleep (pc u)
  · rw [wakeAll_of_not_asleep h, h]
  · rw [wakeAll_of_asleep h]
    exact hres _ h

end Futex

end Infra.Interleaving
