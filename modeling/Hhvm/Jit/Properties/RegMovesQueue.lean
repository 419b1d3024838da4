import Hhvm.Jit.Properties.RegMovesWalk

/-!
# 閉路にない移動（`doRegMoves` の三つ目の loop）

worklist `q` には、`outDegree` が 0 の（もう誰にも読まれない）レジスタが入る。取り出したレジスタ
`n` に元 `s` があれば移動 `s → n` を出し、`s` の `outDegree` を減らす。

取り出したレジスタの列を `P` として、一回取り出すごとに `QueueInv` を保つ
（`QueueInv.pop_none`、`QueueInv.pop_some`）。要点は二つ。

* `outDegree x` は、まだ取り出していない行き先のうち `x` を元にするものの数。`n` を取り出すとき、
  元 `s` は `n` に読まれているので 0 でなく、まだ取り出していない。だから出した移動は、前の移動の
  行き先を読まない（`NoClobber`）。
* 閉路の上のレジスタは、閉路の前のレジスタに読まれ続けるので取り出されない。逆に、loop が
  終わって取り出していないレジスタは、どれも取り出していないレジスタに読まれているので、
  鳩の巣で閉路の上にある（`drainQueue_spec`）。
-/

namespace Hhvm.Jit

open Function Infra.FunGraph Infra.ParallelCopy

variable {R : Type}

/-- 取り出したレジスタの列 `P` のうち、元のあるものの移動（元, 行き先）。 -/
def queueMoves (f : MovePlan R) (P : List R) : List (R × R) :=
  P.filterMap fun n => (f n).map fun s => (s, n)

/-- 移動（元, 行き先）の `MoveInfo`。 -/
def MoveInfo.ofPair (m : R × R) : MoveInfo R := ⟨.Move, m.1, m.2⟩

section Moves

variable {f : MovePlan R} {P : List R}

@[simp] theorem queueMoves_nil : queueMoves f [] = [] := rfl

theorem queueMoves_append_of_none {n : R} (h : f n = none) :
    queueMoves f (P ++ [n]) = queueMoves f P := by
  simp [queueMoves, List.filterMap_append, h]

theorem queueMoves_append_of_some {n s : R} (h : f n = some s) :
    queueMoves f (P ++ [n]) = queueMoves f P ++ [(s, n)] := by
  simp [queueMoves, List.filterMap_append, h]

theorem mem_queueMoves {m : R × R} : m ∈ queueMoves f P ↔ m.2 ∈ P ∧ f m.2 = some m.1 := by
  obtain ⟨s, n⟩ := m
  simp only [queueMoves, List.mem_filterMap, Option.map_eq_some_iff, Prod.mk.injEq]
  constructor
  · rintro ⟨n', hn', s', hs', rfl, rfl⟩
    exact ⟨hn', hs'⟩
  · rintro ⟨hn, hs⟩
    exact ⟨n, hn, s, hs, rfl, rfl⟩

variable [DecidableEq R]

/-- **閉路にない移動の意味。** 前の移動の行き先を読みも書きもしなければ、取り出したレジスタには
元の値が入り、ほかは変わらない。 -/
theorem runMoves_queueMoves (hpw : (queueMoves f P).Pairwise NoClobber) {V : Type}
    (ρ : R → V) (r : R) :
    runMoves (queueMoves f P) ρ r = if r ∈ P then (f r).elim (ρ r) ρ else ρ r := by
  by_cases hrP : r ∈ P
  · rw [if_pos hrP]
    cases hfr : f r with
    | none =>
      refine runMoves_of_not_dst (fun m hm hmr => ?_) ρ
      rw [mem_queueMoves, hmr, hfr] at hm
      cases hm.2
    | some s => exact runMoves_dst hpw ρ (s, r) (mem_queueMoves.mpr ⟨hrP, hfr⟩)
  · rw [if_neg hrP]
    exact runMoves_of_not_dst (fun m hm (hmr : m.2 = r) => hrP (hmr ▸ (mem_queueMoves.mp hm).1)) ρ

end Moves

variable [DecidableEq R]

/-- `Move` だけの列を行うのは、移動の列を行うのと同じ。 -/
theorem execMoves_map_ofPair {V : Type} (ms : List (R × R)) (ρ : R → V) :
    execMoves (ms.map MoveInfo.ofPair) ρ = runMoves ms ρ := by
  induction ms generalizing ρ with
  | nil => rfl
  | cons m ms ih => exact ih _

theorem execMoves_append {V : Type} (ms ms' : List (MoveInfo R)) (ρ : R → V) :
    execMoves (ms ++ ms') ρ = execMoves ms' (execMoves ms ρ) := by
  simp [execMoves, List.foldl_append]

/-! ## 不変条件 -/

section Queue

variable (keys : List R) (f : MovePlan R)

/-- worklist の不変条件。`P` は取り出したレジスタ、`q` は残り。 -/
structure QueueInv (P q : List R) (outDegree : R → Int) (howTo : List (MoveInfo R)) : Prop where
  /-- `outDegree x` は、まだ取り出していない行き先のうち `x` を元にするものの数。 -/
  outDegree_eq : ∀ x, outDegree x = (keys.countP fun d => d ∉ P ∧ f d = some x : Nat)
  nodup : (P ++ q).Nodup
  mem_keys : ∀ r ∈ P ++ q, r ∈ keys
  /-- `outDegree` が 0 のレジスタは、取り出したか `q` にある。 -/
  zero_iff : ∀ x ∈ keys, outDegree x = 0 ↔ x ∈ P ++ q
  /-- 閉路の上のレジスタは取り出さず、`q` にも入らない。 -/
  not_onCycle : ∀ r ∈ P ++ q, ¬ OnCycle f r
  howTo_eq : howTo = (queueMoves f P).map MoveInfo.ofPair
  /-- 出した移動は、前の移動の行き先を読みも書きもしない。 -/
  noClobber : (queueMoves f P).Pairwise NoClobber

variable {keys f} (hkeys : keys.Nodup) (hf : ∀ d s, f d = some s → d ∈ keys ∧ s ∈ keys)
variable {P q : List R} {node : R} {od : R → Int} {howTo : List (MoveInfo R)}

/-- 元のない `node` を取り出す。 -/
theorem QueueInv.pop_none (h : QueueInv keys f P (node :: q) od howTo) (hfn : f node = none) :
    QueueInv keys f (P ++ [node]) q od howTo where
  outDegree_eq := fun x => by
    rw [h.outDegree_eq x]
    congr 1
    refine List.countP_congr fun d _ => ?_
    by_cases hd : d = node
    · subst hd
      simp [hfn]
    · simp [hd]
  nodup := by simpa using h.nodup
  mem_keys := fun r hr => h.mem_keys r (by simpa using hr)
  zero_iff := fun x hx => by simpa using h.zero_iff x hx
  not_onCycle := fun r hr => h.not_onCycle r (by simpa using hr)
  howTo_eq := by rw [queueMoves_append_of_none hfn]; exact h.howTo_eq
  noClobber := by rw [queueMoves_append_of_none hfn]; exact h.noClobber

include hkeys in
/-- 数え上げ：`node` を取り出すと、`x` を元とする残りの行き先は、`node` が `x` を読んでいた分だけ
減る。 -/
theorem countP_pop (hnode : node ∈ keys) (hnP : node ∉ P) (x : R) :
    (keys.countP fun d => d ∉ P ++ [node] ∧ f d = some x) + (if f node = some x then 1 else 0) =
      keys.countP fun d => d ∉ P ∧ f d = some x := by
  have := countP_add_of_agree hkeys hnode (a := node)
    (p := fun d => decide (d ∉ P ∧ f d = some x))
    (q := fun d => decide (d ∉ P ++ [node] ∧ f d = some x))
    (fun d _ hd => by simp [hd])
  simpa [hnP] using this

include hkeys hf in
/-- 元 `s` のある `node` を取り出し、移動 `s → node` を出して `s` の `outDegree` を減らし、
0 になったら `s` を `q` の後ろに足す。 -/
theorem QueueInv.pop_some (h : QueueInv keys f P (node :: q) od howTo) {s : R}
    (hfn : f node = some s) :
    QueueInv keys f (P ++ [node])
      (if update od s (od s - 1) s = 0 then q ++ [s] else q) (update od s (od s - 1))
      (howTo ++ [⟨.Move, s, node⟩]) := by
  have hnode : node ∈ keys := h.mem_keys node (by simp)
  have hnP : node ∉ P := fun hP => by
    have := (List.nodup_middle.mp h.nodup)
    simp only [List.nodup_cons, List.mem_append] at this
    exact this.1 (Or.inl hP)
  have hcount := countP_pop (f := f) hkeys hnode hnP
  -- `s` は `node` に読まれていたので、取り出しても `q` にもない
  have hs_pos : 0 < od s := by
    rw [h.outDegree_eq s, ← hcount s, if_pos hfn]
    omega
  have hs_out : s ∉ P ++ node :: q := fun hs =>
    absurd ((h.zero_iff s (hf node s hfn).2).mpr hs) (by omega)
  have hsn : s ≠ node := fun he => hs_out (he ▸ by simp)
  have hsP : s ∉ P := fun hs => hs_out (List.mem_append_left _ hs)
  -- 取り出した後の列の要素は、前の列の要素か、いま足した `s`
  have hmem : ∀ r, r ∈ P ++ [node] ++ (if update od s (od s - 1) s = 0 then q ++ [s] else q) →
      r ∈ P ++ node :: q ∨ (r = s ∧ update od s (od s - 1) s = 0) := by
    intro r hr
    split_ifs at hr with h0
    · simp only [List.mem_append, List.mem_singleton] at hr
      rcases hr with (hr | rfl) | hr | rfl
      · exact Or.inl (by simp [hr])
      · exact Or.inl (by simp)
      · exact Or.inl (by simp [hr])
      · exact Or.inr ⟨rfl, h0⟩
    · exact Or.inl (by simpa using hr)
  refine ⟨fun x => ?_, ?_, fun r hr => ?_, fun x hx => ?_, fun r hr => ?_, ?_, ?_⟩
  · -- `outDegree`
    have hx := hcount x
    by_cases hxs : x = s
    · subst hxs
      rw [update_self, h.outDegree_eq, ← hx, if_pos hfn]
      omega
    · have hne : f node ≠ some x := by
        rw [hfn]
        exact fun e => hxs (Option.some.inj e).symm
      rw [update_of_ne hxs, h.outDegree_eq, ← hx, if_neg hne, Nat.add_zero]
  · -- 重複がない：足すのは `P ++ node :: q` にない `s` だけ
    split_ifs
    · have := List.nodup_append.mpr ⟨h.nodup, List.nodup_singleton s, fun a ha b hb => by
        rw [List.mem_singleton] at hb
        exact fun hab => hs_out (hb ▸ hab ▸ ha)⟩
      simpa using this
    · simpa using h.nodup
  · rcases hmem r hr with hr | ⟨rfl, -⟩
    · exact h.mem_keys r hr
    · exact (hf node _ hfn).2
  · -- `outDegree` が 0 になるのは、前から 0 のものと、いま 0 になった `s`
    by_cases hxs : x = s
    · subst hxs
      rw [update_self]
      split_ifs with h0
      · simp [h0]
      · simp only [List.append_assoc, List.singleton_append, List.mem_append, List.mem_cons]
        refine ⟨fun h' => absurd h' h0, fun hmem => absurd ?_ hs_out⟩
        simpa using hmem
    · rw [update_of_ne hxs, h.zero_iff x hx]
      split_ifs <;> simp [hxs]
  · -- 新しく入る `s` は閉路にない：閉路の上の前のレジスタは取り出していないので `s` を読み続ける
    have hr' := hmem r hr
    rcases hr' with hr' | ⟨rfl, h0⟩
    · exact h.not_onCycle r hr'
    · intro hc
      obtain ⟨c, hcc, hcs⟩ := hc.pred
      have hcP : c ∉ P ++ node :: q := fun hcm => h.not_onCycle c hcm hcc
      have hcount' := hcount r
      rw [update_self, h.outDegree_eq] at h0
      have hpos : 0 < keys.countP fun d => d ∉ P ++ [node] ∧ f d = some r :=
        List.countP_pos_iff.mpr ⟨c, (hf c r hcs).1, by
          simp only [decide_eq_true_eq]
          refine ⟨fun hm => hcP ?_, hcs⟩
          simp only [List.mem_append, List.mem_singleton] at hm
          simp only [List.mem_append, List.mem_cons]
          tauto⟩
      rw [if_pos hfn] at hcount'
      omega
  · rw [h.howTo_eq, queueMoves_append_of_some hfn, List.map_append]
    rfl
  · -- 新しい移動の元 `s` も行き先 `node` も、前の移動の行き先ではない
    rw [queueMoves_append_of_some hfn]
    refine List.pairwise_append.mpr ⟨h.noClobber, List.pairwise_singleton _ _, fun a ha b hb => ?_⟩
    rw [List.mem_singleton] at hb
    subst hb
    have ha2 := (mem_queueMoves.mp ha).1
    exact ⟨fun (he : a.2 = s) => hsP (he ▸ ha2), fun (he : a.2 = node) => hnP (he ▸ ha2)⟩

include hkeys hf in
/-- **worklist の loop。** 不変条件の下で、fuel が `keys` の長さから取り出した数を引いた分あれば、
`q` が空になるまで回り、不変条件は保たれる。 -/
theorem drainQueue_inv : ∀ (fuel : Nat) (P q : List R) (od : R → Int) (howTo : List (MoveInfo R)),
    QueueInv keys f P q od howTo → keys.length ≤ P.length + fuel →
    ∃ P', QueueInv keys f P' [] (drainQueue f fuel q od howTo).1 (drainQueue f fuel q od howTo).2
  | 0, P, q, od, howTo, h, hfuel => by
    -- fuel が尽きるのは、`keys` を全部取り出して `q` が空のとき
    have hlen := (List.subperm_of_subset h.nodup h.mem_keys).length_le
    rw [List.length_append] at hlen
    obtain rfl : q = [] := List.eq_nil_of_length_eq_zero (by omega)
    exact ⟨P, h⟩
  | fuel + 1, P, [], od, howTo, h, _ => ⟨P, h⟩
  | fuel + 1, P, node :: q, od, howTo, h, hfuel => by
    have hlen := (List.subperm_of_subset h.nodup h.mem_keys).length_le
    simp only [List.length_append, List.length_cons] at hlen
    cases hfn : f node with
    | none =>
      simp only [drainQueue, hfn]
      exact drainQueue_inv fuel _ _ _ _ (h.pop_none hfn)
        (by rw [List.length_append, List.length_singleton]; omega)
    | some s =>
      simp only [drainQueue, hfn]
      exact drainQueue_inv fuel _ _ _ _ (h.pop_some hkeys hf hfn)
        (by rw [List.length_append, List.length_singleton]; omega)

include hkeys hf in
/-- 最初の `q`：`outDegree` が 0 のレジスタを `keys` の順に。 -/
theorem queueInv_init {od : R → Int} (hod : ∀ x, od x = (keys.countP fun d => f d = some x : Nat)) :
    QueueInv keys f [] (keys.filter fun node => od node = 0) od [] where
  outDegree_eq := fun x => by simp [hod x]
  nodup := by simpa using hkeys.filter _
  mem_keys := fun r hr => by simp only [List.nil_append, List.mem_filter] at hr; exact hr.1
  zero_iff := fun x hx => by simp [hx]
  not_onCycle := fun r hr hc => by
    -- 閉路の上のレジスタは、閉路の前のレジスタに読まれている
    simp only [List.nil_append, List.mem_filter, decide_eq_true_eq] at hr
    obtain ⟨c, -, hcs⟩ := hc.pred
    have : 0 < keys.countP fun d => f d = some r :=
      List.countP_pos_iff.mpr ⟨c, (hf c r hcs).1, by simpa using hcs⟩
    rw [hod r] at hr
    omega
  howTo_eq := rfl
  noClobber := List.Pairwise.nil

/-- **三つ目の loop の結果。** `outDegree` が読まれる回数なら、worklist が取り出すのは閉路にない
`keys` のレジスタちょうどで、出す移動はその順に元を読み、前の移動の行き先を読みも書きもしない。 -/
theorem drainQueue_spec (hkeys : keys.Nodup) (hf : ∀ d s, f d = some s → d ∈ keys ∧ s ∈ keys)
    {od : R → Int} (hod : ∀ x, od x = (keys.countP fun d => f d = some x : Nat)) :
    ∃ P, (∀ r ∈ keys, r ∈ P ↔ ¬ OnCycle f r) ∧ (queueMoves f P).Pairwise NoClobber ∧
      (drainQueue f keys.length (keys.filter fun node => od node = 0) od []).2 =
        (queueMoves f P).map MoveInfo.ofPair := by
  obtain ⟨P, h⟩ := drainQueue_inv hkeys hf keys.length [] _ od [] (queueInv_init hkeys hf hod)
    (by simp)
  refine ⟨P, fun r hr => ⟨fun hP => h.not_onCycle r (by simpa using hP), fun hc => ?_⟩,
    h.noClobber, h.howTo_eq⟩
  -- 取り出していないレジスタは、どれも取り出していないレジスタに読まれているので閉路の上
  by_contra hrP
  refine hc (onCycle_of_preds (S := fun x => x ∈ keys ∧ x ∉ P) (fun x hx => hx.1)
    (fun x hx => ?_) ⟨hr, hrP⟩)
  have hne : (keys.countP fun d => d ∉ P ∧ f d = some x) ≠ 0 := by
    intro h0
    have := (h.zero_iff x hx.1).mp (by rw [h.outDegree_eq x, h0]; rfl)
    simp only [List.append_nil] at this
    exact hx.2 this
  obtain ⟨d, hd, hdp⟩ := List.countP_pos_iff.mp (Nat.pos_of_ne_zero hne)
  simp only [decide_eq_true_eq] at hdp
  exact ⟨d, ⟨hd, hdp.1⟩, hdp.2⟩

end Queue

end Hhvm.Jit
