import Hhvm.Jit.RegAlgorithms
import Hhvm.Infra.FunGraph

/-!
# 路を歩いて閉路を見つける（`doRegMoves` の前半）

`dropSelfMoves` は `keys` の上の自分自身への移動だけを消し、`keys` の `index` を `-1` にする
（`dropSelfMoves_eq`）。その後の `moves` を `f` とすると、`findCycles` が終わったとき

* `outDegree x` は `x` を元にする行き先の数、
* `cycles` の各項は閉路の上のレジスタとその閉路の長さ（`minimalPeriod`）で、項どうしは別の閉路、
* 閉路の上のどのレジスタも、どれかの項の閉路の上にある（`findCycles_spec`）。

証明は二段になる。一つの路の途中では `PathInv`（今の路 `p ++ [node]` が `reg` から辺で
つながり、まだ訪問していないレジスタからなり、番号が `nextIndex` から順に振られる）を保ち
（`walkPath_inv` の帰納法）、路の終わり方（元がない、前の路で訪問した、今の路の上）ごとに、
路と路の間の不変条件 `WalkInv` を立て直す（`walkInv_of_marked`）。
-/

namespace Hhvm.Jit

open Function Infra.FunGraph

variable {R : Type} [DecidableEq R]

/-! ## 数え上げと最初の loop -/

/-- 重複のない列で `a` のところだけ違う二つの述語は、数え上げも `a` の分だけ違う。 -/
theorem countP_add_of_agree {α : Type} {l : List α} (hl : l.Nodup) {a : α} (ha : a ∈ l)
    {p q : α → Bool} (hpq : ∀ d ∈ l, d ≠ a → q d = p d) :
    l.countP q + (if p a then 1 else 0) = l.countP p + (if q a then 1 else 0) := by
  obtain ⟨l₁, l₂, rfl⟩ := List.append_of_mem ha
  obtain ⟨ha', -⟩ := List.nodup_cons.mp (List.nodup_middle.mp hl)
  have hrest : (l₁ ++ l₂).countP q = (l₁ ++ l₂).countP p :=
    List.countP_congr fun d hd => by
      have hd' : d ∈ l₁ ++ a :: l₂ :=
        List.mem_append.mpr ((List.mem_append.mp hd).imp id (List.mem_cons_of_mem a))
      rw [hpq d hd' (fun h => ha' (h ▸ hd))]
  rw [List.countP_append, List.countP_append] at hrest
  rw [List.countP_append, List.countP_cons, List.countP_append, List.countP_cons]
  omega

/-- 最初の loop の後：`keys` の上の自分自身への移動だけが消え、`keys` の `index` は `-1`。 -/
theorem dropSelfMoves_eq (keys : List R) (moves : MovePlan R) :
    dropSelfMoves keys moves =
      (fun r => if r ∈ keys ∧ moves r = some r then none else moves r,
       fun r => if r ∈ keys then -1 else 0) := by
  suffices h : ∀ (ks : List R) (m : MovePlan R) (idx : R → Int),
      ks.foldl (fun (mi : MovePlan R × (R → Int)) reg =>
        (if mi.1 reg = some reg then update mi.1 reg none else mi.1, update mi.2 reg (-1))) (m, idx) =
      (fun r => if r ∈ ks ∧ m r = some r then none else m r, fun r => if r ∈ ks then -1 else idx r)
    from h keys moves _
  intro ks
  induction ks with
  | nil => intro m idx; simp
  | cons k ks ih =>
    intro m idx
    rw [List.foldl_cons, ih]
    refine Prod.ext (funext fun r => ?_) (funext fun r => ?_)
    · -- 消した `k` が `ks` にもう一度あっても、もう自分自身への移動ではない
      by_cases hrk : r = k
      · subst hrk
        by_cases hm : m r = some r <;> simp [hm]
      · by_cases hm : m k = some k <;> simp [hm, hrk]
    · by_cases hrk : r = k
      · subst hrk
        simp
      · simp [hrk]

/-! ## 路を歩く一歩 -/

/-- `index[node] = nextIndex++`。 -/
def Walk.mark (w : Walk R) (node : R) : Walk R :=
  { w with index := update w.index node w.nextIndex, nextIndex := w.nextIndex + 1 }

/-- `++outDegree[next]`。 -/
def Walk.bump (w : Walk R) (next : R) : Walk R :=
  { w with outDegree := update w.outDegree next (w.outDegree next + 1) }

@[simp] theorem Walk.bump_index (w : Walk R) (next : R) : (w.bump next).index = w.index := rfl

@[simp] theorem Walk.bump_nextIndex (w : Walk R) (next : R) :
    (w.bump next).nextIndex = w.nextIndex := rfl

@[simp] theorem Walk.bump_cycles (w : Walk R) (next : R) : (w.bump next).cycles = w.cycles := rfl

section Step

variable {f : MovePlan R} {reg node : R} {fuel : Nat} {w : Walk R}

theorem walkPath_succ_of_none (h : f node = none) :
    walkPath f reg (fuel + 1) node w = w.mark node := by
  simp only [walkPath, h]
  rfl

theorem walkPath_succ_of_some {next : R} (h : f node = some next) :
    walkPath f reg (fuel + 1) node w =
      if ((w.mark node).bump next).index next < 0 then
        walkPath f reg fuel next ((w.mark node).bump next)
      else if ((w.mark node).bump next).index next ≥ ((w.mark node).bump next).index reg then
        { (w.mark node).bump next with
          cycles := ((w.mark node).bump next).cycles ++
            [⟨next, ((w.mark node).bump next).nextIndex - ((w.mark node).bump next).index next⟩] }
      else (w.mark node).bump next := by
  simp only [walkPath, h]
  rfl

end Step

/-! ## 不変条件 -/

section Invariants

variable (keys : List R) (f : MovePlan R)

/-- 路と路の間で `findCycles` が保つこと。訪問したレジスタは `index` が 0 以上のもの。 -/
structure WalkInv (w : Walk R) : Prop where
  /-- 訪問したレジスタの元も訪問している。 -/
  closed : ∀ r ∈ keys, 0 ≤ w.index r → ∀ s, f r = some s → 0 ≤ w.index s
  /-- 振った番号は `nextIndex` より小さい。 -/
  index_lt : ∀ r ∈ keys, w.index r < w.nextIndex
  nextIndex_nonneg : 0 ≤ w.nextIndex
  /-- `outDegree x` は、訪問した行き先のうち `x` を元にするものの数。 -/
  outDegree_eq : ∀ x, w.outDegree x = (keys.countP fun d => 0 ≤ w.index d ∧ f d = some x : Nat)
  /-- 記録した閉路は、訪問した閉路の上のレジスタと、その閉路の長さ。 -/
  cycle_valid : ∀ c ∈ w.cycles, c.node ∈ keys ∧ 0 ≤ w.index c.node ∧ OnCycle f c.node ∧
    c.length = (minimalPeriod (follow f) (some c.node) : Int)
  /-- 記録した閉路は互いに別。 -/
  cycle_distinct : w.cycles.Pairwise fun c c' => ¬ Reaches f c.node c'.node
  /-- 訪問した閉路の上のレジスタは、記録したどれかの閉路の上にある。 -/
  cycle_cover : ∀ r ∈ keys, 0 ≤ w.index r → OnCycle f r → ∃ c ∈ w.cycles, Reaches f c.node r

/-- 路の始めの状態 `w₀` から、列 `q` に順に番号を振った状態 `w`。`outDegree` は `w` の訪問に
合っている。 -/
structure Marked (w₀ : Walk R) (q : List R) (w : Walk R) : Prop where
  index_path : ∀ i (h : i < q.length), w.index q[i] = w₀.nextIndex + i
  index_other : ∀ r, r ∉ q → w.index r = w₀.index r
  nextIndex_eq : w.nextIndex = w₀.nextIndex + q.length
  outDegree_eq : ∀ x, w.outDegree x = (keys.countP fun d => 0 ≤ w.index d ∧ f d = some x : Nat)
  cycles_eq : w.cycles = w₀.cycles

/-- 路の途中：`p` に番号を振り終え、次に `node` を訪問する。`p ++ [node]` は `reg` から辺で
つながり、重複がなく、路の始めには訪問していなかった `keys` の要素からなる。 -/
structure PathInv (w₀ : Walk R) (reg : R) (p : List R) (node : R) (w : Walk R) : Prop where
  marked : Marked keys f w₀ p w
  chain : ∀ i (h : i < (p ++ [node]).length), (follow f)^[i] (some reg) = some (p ++ [node])[i]
  nodup : (p ++ [node]).Nodup
  fresh : ∀ r ∈ p ++ [node], r ∈ keys ∧ w₀.index r < 0

end Invariants

section Walking

variable {keys : List R} {f : MovePlan R} (hkeys : keys.Nodup)
  (hf : ∀ d s, f d = some s → d ∈ keys ∧ s ∈ keys)
variable {w₀ : Walk R} {reg : R}

/-! ### 辺でつながった列 -/

omit [DecidableEq R] in
/-- `reg` から辺でつながった列は、途中からでも辺でつながっている。 -/
theorem chain_from {q : List R}
    (hc : ∀ i (h : i < q.length), (follow f)^[i] (some reg) = some q[i]) :
    ∀ i j (h : i + j < q.length), (follow f)^[j] (some (q[i])) = some q[i + j] := by
  intro i j h
  rw [← hc i (by omega), ← iterate_add_apply, Nat.add_comm j i, hc]

omit [DecidableEq R] in
/-- 列の `i` 番目から `|q| - i` 歩で、最後の頂点の次に着く。 -/
theorem chain_to_end {p : List R} {node : R}
    (hc : ∀ i (h : i < (p ++ [node]).length), (follow f)^[i] (some reg) = some (p ++ [node])[i])
    (i : Nat) (hi : i < (p ++ [node]).length) :
    (follow f)^[(p ++ [node]).length - i] (some (p ++ [node])[i]) = f node := by
  have hlen : (p ++ [node]).length = p.length + 1 := by simp
  have hlast : (follow f)^[p.length - i] (some (p ++ [node])[i]) = some node := by
    rw [chain_from hc i (p.length - i) (by omega)]
    exact congrArg some (List.getElem_concat_length (by omega) _)
  rw [show (p ++ [node]).length - i = p.length - i + 1 by omega, iterate_succ_apply', hlast,
    follow_some]

include hf in
/-- 路の始めに訪問していたレジスタの集合は、辺で外に出ない。 -/
theorem old_closed (hw₀ : WalkInv keys f w₀) :
    ∀ r s, (r ∈ keys ∧ 0 ≤ w₀.index r) → f r = some s → s ∈ keys ∧ 0 ≤ w₀.index s :=
  fun r s hr hrs => ⟨(hf r s hrs).2, hw₀.closed r hr.1 hr.2 s hrs⟩

/-! ### 番号を振った状態 -/

/-- 番号を振った状態で訪問しているのは、前から訪問していたものと `q` の要素。 -/
theorem Marked.visited_iff {q : List R} {w : Walk R} (hm : Marked keys f w₀ q w)
    (hb : 0 ≤ w₀.nextIndex) (r : R) : 0 ≤ w.index r ↔ 0 ≤ w₀.index r ∨ r ∈ q := by
  by_cases hr : r ∈ q
  · obtain ⟨i, hi, rfl⟩ := List.getElem_of_mem hr
    rw [hm.index_path i hi]
    exact ⟨fun _ => Or.inr hr, fun _ => by omega⟩
  · rw [hm.index_other r hr]
    exact ⟨Or.inl, fun h => h.resolve_right hr⟩

include hf in
/-- **路の終わり。** `q` に番号を振り終え、その元がどれも訪問済みで、`q` の上の閉路を `new` が
覆うなら、`cycles` に `new` を足した状態は `WalkInv` を満たす。 -/
theorem walkInv_of_marked (hw₀ : WalkInv keys f w₀) {q : List R} {w : Walk R}
    (hm : Marked keys f w₀ q w) (hfresh : ∀ r ∈ q, r ∈ keys ∧ w₀.index r < 0)
    (hclosed : ∀ r ∈ q, ∀ s, f r = some s → 0 ≤ w.index s)
    {new : List (CycleInfo R)}
    (hnew : ∀ c ∈ new, c.node ∈ q ∧ OnCycle f c.node ∧
      c.length = (minimalPeriod (follow f) (some c.node) : Int))
    (hnew_distinct : new.Pairwise fun c c' => ¬ Reaches f c.node c'.node)
    (hcover : ∀ r ∈ q, OnCycle f r → ∃ c ∈ new, Reaches f c.node r)
    {w' : Walk R} (hidx : w'.index = w.index) (hnext : w'.nextIndex = w.nextIndex)
    (hod : w'.outDegree = w.outDegree) (hcyc : w'.cycles = w₀.cycles ++ new) :
    WalkInv keys f w' := by
  have hb := hw₀.nextIndex_nonneg
  have hvis := hm.visited_iff hb
  rw [← hidx] at hvis
  have hold := old_closed hf hw₀
  refine ⟨fun r hr hv s hrs => ?_, fun r hr => ?_, ?_, fun x => ?_, fun c hc => ?_, ?_,
    fun r hr hv hrc => ?_⟩
  · -- 閉じている：`q` の要素は仮定から、前から訪問していたものは `w₀` から
    rw [hidx]
    rcases (hvis r).mp hv with hv | hq
    · exact (hm.visited_iff hb s).mpr (Or.inl (hw₀.closed r hr hv s hrs))
    · exact hclosed r hq s hrs
  · rw [hidx, hnext, hm.nextIndex_eq]
    by_cases hq : r ∈ q
    · obtain ⟨i, hi, rfl⟩ := List.getElem_of_mem hq
      rw [hm.index_path i hi]
      omega
    · rw [hm.index_other r hq]
      have := hw₀.index_lt r hr
      omega
  · rw [hnext, hm.nextIndex_eq]
    omega
  · rw [hod, hidx]
    exact hm.outDegree_eq x
  · rw [hcyc] at hc
    rcases List.mem_append.mp hc with hc | hc
    · obtain ⟨hk, hv, hcyc', hlen⟩ := hw₀.cycle_valid c hc
      exact ⟨hk, (hvis _).mpr (Or.inl hv), hcyc', hlen⟩
    · obtain ⟨hq, hcyc', hlen⟩ := hnew c hc
      exact ⟨(hfresh _ hq).1, (hvis _).mpr (Or.inr hq), hcyc', hlen⟩
  · rw [hcyc]
    refine List.pairwise_append.mpr ⟨hw₀.cycle_distinct, hnew_distinct, fun c hc c' hc' => ?_⟩
    -- 前の閉路から辿れるのは前から訪問していたレジスタだけで、新しい閉路は今の路の上
    rintro ⟨n, hn⟩
    have hc0 := hw₀.cycle_valid c hc
    have := iterate_closed hold n ⟨hc0.1, hc0.2.1⟩ hn
    have := (hfresh _ (hnew c' hc').1).2
    omega
  · rw [hcyc]
    rcases (hvis r).mp hv with hv | hq
    · obtain ⟨c, hc, hreach⟩ := hw₀.cycle_cover r hr hv hrc
      exact ⟨c, List.mem_append_left _ hc, hreach⟩
    · obtain ⟨c, hc, hreach⟩ := hcover r hq hrc
      exact ⟨c, List.mem_append_right _ hc, hreach⟩

/-! ### 一歩ずつ -/

variable {p : List R} {node : R} {w : Walk R}

/-- 路の最初のレジスタは `reg`。 -/
theorem PathInv.reg_mem (h : PathInv keys f w₀ reg p node w) : reg ∈ p ++ [node] := by
  have h0 := h.chain 0 (by simp)
  rw [Function.iterate_zero_apply, Option.some.injEq] at h0
  exact h0 ▸ List.getElem_mem _

/-- 路に並ぶのは `keys` の異なる要素なので、路は `keys` より短い。 -/
theorem PathInv.length_lt (h : PathInv keys f w₀ reg p node w) : p.length < keys.length := by
  have := (List.subperm_of_subset h.nodup (fun r hr => (h.fresh r hr).1)).length_le
  simp only [List.length_append, List.length_singleton] at this
  omega

/-- 路の途中のレジスタの元は、路の次のレジスタ。 -/
theorem PathInv.next_mem (h : PathInv keys f w₀ reg p node w) {r s : R} (hr : r ∈ p)
    (hrs : f r = some s) : s ∈ p ++ [node] := by
  obtain ⟨i, hi, rfl⟩ := List.getElem_of_mem hr
  have hstep := chain_from h.chain i 1 (by simp; omega)
  rw [Function.iterate_one, follow_some, List.getElem_append_left hi] at hstep
  rw [hrs] at hstep
  cases hstep
  exact List.getElem_mem _

/-- `node` に番号を振った後の番号。 -/
theorem PathInv.mark_index (h : PathInv keys f w₀ reg p node w) :
    (∀ i (hi : i < (p ++ [node]).length),
      (w.mark node).index (p ++ [node])[i] = w₀.nextIndex + i) ∧
    (∀ r, r ∉ p ++ [node] → (w.mark node).index r = w₀.index r) ∧
    (w.mark node).nextIndex = w₀.nextIndex + (p ++ [node]).length := by
  have hnode : node ∉ p := fun hp =>
    (List.nodup_append.mp h.nodup).2.2 node hp node (List.mem_singleton_self _) rfl
  have hm := h.marked
  refine ⟨fun i hi => ?_, fun r hr => ?_, ?_⟩
  · simp only [Walk.mark]
    by_cases hip : i < p.length
    · have hne : p[i] ≠ node := fun he => hnode (he ▸ List.getElem_mem hip)
      rw [List.getElem_append_left hip, update_of_ne hne, hm.index_path i hip]
    · have hi' : i = p.length := by
        simp only [List.length_append, List.length_singleton] at hi
        omega
      subst hi'
      rw [List.getElem_concat_length rfl, update_self, hm.nextIndex_eq]
  · have hrn : r ≠ node := fun he => hr (he ▸ List.mem_append_right _ (List.mem_singleton_self _))
    have hrp : r ∉ p := fun hp => hr (List.mem_append_left _ hp)
    simp only [Walk.mark]
    rw [update_of_ne hrn, hm.index_other r hrp]
  · simp only [Walk.mark, hm.nextIndex_eq, List.length_append, List.length_singleton]
    omega

include hkeys in
/-- `node` に番号を振ると、`x` を元にする訪問した行き先の数は、`node` の元が `x` のときだけ増える。 -/
theorem PathInv.countP_mark (h : PathInv keys f w₀ reg p node w) (hb : 0 ≤ w₀.nextIndex)
    (x : R) :
    (keys.countP fun d => 0 ≤ (w.mark node).index d ∧ f d = some x) =
      (keys.countP fun d => 0 ≤ w.index d ∧ f d = some x) + if f node = some x then 1 else 0 := by
  have hnode := h.fresh node (List.mem_append_right _ (List.mem_singleton_self _))
  have hnp : node ∉ p := fun hp =>
    (List.nodup_append.mp h.nodup).2.2 node hp node (List.mem_singleton_self _) rfl
  have hun : w.index node < 0 := by
    rw [h.marked.index_other node hnp]
    exact hnode.2
  have hnext : 0 ≤ w.nextIndex := by
    rw [h.marked.nextIndex_eq]
    omega
  have := countP_add_of_agree hkeys hnode.1 (a := node)
    (p := fun d => decide (0 ≤ w.index d ∧ f d = some x))
    (q := fun d => decide (0 ≤ (w.mark node).index d ∧ f d = some x))
    (fun d _ hd => by simp only [Walk.mark, update_of_ne hd])
  simp only [Walk.mark, update_self] at this
  simp only [Walk.mark]
  by_cases hx : f node = some x <;> simp [hx, Int.not_le.mpr hun, hnext] at this ⊢ <;> omega

include hkeys in
/-- 元のない `node` に番号を振り終えた状態。 -/
theorem PathInv.marked_of_none (h : PathInv keys f w₀ reg p node w) (hb : 0 ≤ w₀.nextIndex)
    (hfn : f node = none) : Marked keys f w₀ (p ++ [node]) (w.mark node) := by
  obtain ⟨hpath, hother, hnext⟩ := h.mark_index
  refine ⟨hpath, hother, hnext, fun x => ?_, h.marked.cycles_eq⟩
  rw [h.countP_mark hkeys hb x, hfn]
  simp only [reduceCtorEq, if_false, Nat.add_zero]
  exact h.marked.outDegree_eq x

include hkeys in
/-- 元 `next` のある `node` に番号を振り、`next` の `outDegree` を増やした状態。 -/
theorem PathInv.marked_of_some (h : PathInv keys f w₀ reg p node w) (hb : 0 ≤ w₀.nextIndex)
    {next : R} (hfn : f node = some next) :
    Marked keys f w₀ (p ++ [node]) ((w.mark node).bump next) := by
  obtain ⟨hpath, hother, hnext⟩ := h.mark_index
  refine ⟨hpath, hother, hnext, fun x => ?_, h.marked.cycles_eq⟩
  show update w.outDegree next (w.outDegree next + 1) x =
    ((keys.countP fun d => 0 ≤ (w.mark node).index d ∧ f d = some x : Nat) : Int)
  rw [h.countP_mark hkeys hb x, hfn]
  by_cases hx : x = next
  · subst hx
    rw [update_self, h.marked.outDegree_eq]
    simp
  · rw [update_of_ne hx, h.marked.outDegree_eq]
    simp [Ne.symm hx]

include hkeys hf in
/-- 元 `next` がまだ訪問していなければ、路は `next` へ続く。 -/
theorem PathInv.step (h : PathInv keys f w₀ reg p node w) (hb : 0 ≤ w₀.nextIndex) {next : R}
    (hfn : f node = some next) (hun : ((w.mark node).bump next).index next < 0) :
    PathInv keys f w₀ reg (p ++ [node]) next ((w.mark node).bump next) := by
  have hm := h.marked_of_some hkeys hb hfn
  have hnq : next ∉ p ++ [node] := fun hq => by
    have := (hm.visited_iff hb next).mpr (Or.inr hq)
    omega
  refine ⟨hm, fun i hi => ?_, ?_, fun r hr => ?_⟩
  · by_cases hil : i < (p ++ [node]).length
    · rw [List.getElem_append_left hil]
      exact h.chain i hil
    · have hi' : i = (p ++ [node]).length := by
        simp only [List.length_append, List.length_singleton] at hi hil ⊢
        omega
      subst hi'
      rw [List.getElem_concat_length rfl]
      have hend := chain_to_end h.chain 0 (by simp)
      rw [Nat.sub_zero, hfn, ← h.chain 0 (by simp), ← iterate_add_apply] at hend
      exact hend
  · exact List.nodup_append.mpr ⟨h.nodup, List.nodup_singleton _, fun a ha b hb' => by
      rw [List.mem_singleton] at hb'
      rintro rfl
      exact hnq (hb' ▸ ha)⟩
  · rcases List.mem_append.mp hr with hr | hr
    · exact h.fresh r hr
    · rw [List.mem_singleton] at hr
      subst hr
      refine ⟨(hf node r hfn).2, ?_⟩
      rw [← hm.index_other r hnq]
      exact hun

/-- 路の最初のレジスタ `reg` の番号は、路の始めの `nextIndex`。 -/
theorem PathInv.mark_index_reg (h : PathInv keys f w₀ reg p node w) :
    (w.mark node).index reg = w₀.nextIndex := by
  have h0 := h.chain 0 (by simp)
  rw [Function.iterate_zero_apply, Option.some.injEq] at h0
  rw [h0, h.mark_index.1 0 (by simp), Int.natCast_zero, Int.add_zero]

/-- 番号を振った状態でも、前から訪問していたものは訪問したままで、`reg` も訪問している。 -/
theorem Marked.keeps {q : List R} {w : Walk R} (hm : Marked keys f w₀ q w)
    (hb : 0 ≤ w₀.nextIndex) (hreg : reg ∈ q) :
    (∀ r, 0 ≤ w₀.index r → 0 ≤ w.index r) ∧ 0 ≤ w.index reg :=
  ⟨fun r hr => (hm.visited_iff hb r).mpr (Or.inl hr), (hm.visited_iff hb reg).mpr (Or.inr hreg)⟩

/-! ### 路の終わり方 -/

include hkeys hf in
/-- 元のない `node` で路が終わる。辿ると `none` に着くので、路の上に閉路はない。 -/
theorem PathInv.end_none (hw₀ : WalkInv keys f w₀) (h : PathInv keys f w₀ reg p node w)
    (hfn : f node = none) : WalkInv keys f (w.mark node) := by
  have hb := hw₀.nextIndex_nonneg
  have hm := h.marked_of_none hkeys hb hfn
  refine walkInv_of_marked hf hw₀ hm h.fresh (fun r hr s hrs => ?_) (fun c hc => by cases hc)
    List.Pairwise.nil (fun r hr hrc => ?_) rfl rfl rfl (hm.cycles_eq.trans (List.append_nil _).symm)
  · -- 路の途中のレジスタの元は路の上、`node` には元がない
    rcases List.mem_append.mp hr with hr | hr
    · exact (hm.visited_iff hb s).mpr (Or.inr (h.next_mem hr hrs))
    · rw [List.mem_singleton] at hr
      subst hr
      rw [hfn] at hrs
      cases hrs
  · obtain ⟨i, hi, rfl⟩ := List.getElem_of_mem hr
    refine absurd hrc (not_onCycle_of_iterate (S := fun _ => False) (fun _ _ h _ => h) id
      (m := (p ++ [node]).length - i) (Or.inl ?_))
    rw [chain_to_end h.chain i hi, hfn]

include hkeys hf in
/-- 前の路で訪問したレジスタに着いて路が終わる。前に訪問した集合は辺で外に出ないので、
路の上に閉路はない。 -/
theorem PathInv.end_old (hw₀ : WalkInv keys f w₀) (h : PathInv keys f w₀ reg p node w)
    {next : R} (hfn : f node = some next)
    (hvis : ¬ ((w.mark node).bump next).index next < 0)
    (hlt : ¬ ((w.mark node).bump next).index next ≥ ((w.mark node).bump next).index reg) :
    WalkInv keys f ((w.mark node).bump next) := by
  have hb := hw₀.nextIndex_nonneg
  have hm := h.marked_of_some hkeys hb hfn
  -- `next` は今の路の上にない（あれば番号は `reg` の番号以上）
  have hnq : next ∉ p ++ [node] := fun hq => by
    obtain ⟨j, hj, rfl⟩ := List.getElem_of_mem hq
    have := hm.index_path j hj
    have := h.mark_index_reg
    exact hlt (by simp only [Walk.bump] at *; omega)
  have hold : 0 ≤ w₀.index next := by
    rw [← hm.index_other next hnq]
    omega
  refine walkInv_of_marked hf hw₀ hm h.fresh (fun r hr s hrs => ?_) (fun c hc => by cases hc)
    List.Pairwise.nil (fun r hr hrc => ?_) rfl rfl rfl (hm.cycles_eq.trans (List.append_nil _).symm)
  · rcases List.mem_append.mp hr with hr | hr
    · exact (hm.visited_iff hb s).mpr (Or.inr (h.next_mem hr hrs))
    · rw [List.mem_singleton] at hr
      subst hr
      rw [hfn] at hrs
      cases hrs
      omega
  · obtain ⟨i, hi, rfl⟩ := List.getElem_of_mem hr
    refine absurd hrc (not_onCycle_of_iterate (old_closed hf hw₀) (fun hold' => ?_)
      (m := (p ++ [node]).length - i) (Or.inr ⟨next, ⟨(hf node next hfn).2, hold⟩, ?_⟩))
    · have := (h.fresh _ hr).2
      omega
    · rw [chain_to_end h.chain i hi, hfn]

include hkeys hf in
/-- 今の路の上の `p[j]` に着いて路が終わる。`p[j]` から先が長さ `|p| + 1 - j` の閉路で、
路のそれより前のレジスタは閉路にない。 -/
theorem PathInv.end_cycle (hw₀ : WalkInv keys f w₀) (h : PathInv keys f w₀ reg p node w)
    {next : R} (hfn : f node = some next)
    (hge : ((w.mark node).bump next).index next ≥ ((w.mark node).bump next).index reg) :
    WalkInv keys f { (w.mark node).bump next with
      cycles := ((w.mark node).bump next).cycles ++
        [⟨next, ((w.mark node).bump next).nextIndex - ((w.mark node).bump next).index next⟩] } := by
  have hb := hw₀.nextIndex_nonneg
  have hm := h.marked_of_some hkeys hb hfn
  have hreg := h.mark_index_reg
  have hlen : (p ++ [node]).length = p.length + 1 := by simp
  simp only [Walk.bump_index] at hge
  -- `next` は今の路の上にある（なければ番号は前の路のもので、`reg` の番号より小さい）
  have hnq : next ∈ p ++ [node] := by
    by_contra hnq
    have := hm.index_other next hnq
    have := hw₀.index_lt next (hf node next hfn).2
    simp only [Walk.bump_index] at *
    omega
  obtain ⟨j, hj, hjn⟩ := List.getElem_of_mem hnq
  -- `p[j]` から `|p| + 1 - j` 歩で初めて戻る
  have hback : (follow f)^[(p ++ [node]).length - j] (some (p ++ [node])[j]) =
      some (p ++ [node])[j] := by
    rw [chain_to_end h.chain j hj, hfn, hjn]
  have hfirst : ∀ m, 0 < m → m < (p ++ [node]).length - j →
      (follow f)^[m] (some (p ++ [node])[j]) ≠ some (p ++ [node])[j] := by
    intro m hm0 hm
    rw [chain_from h.chain j m (by omega), Ne, Option.some.injEq,
      List.Nodup.getElem_inj_iff h.nodup]
    omega
  obtain ⟨hcyc, hper⟩ := minimalPeriod_eq_of_iterate (by omega) hback hfirst
  -- `p[j]` から先は辺で外に出ないので、`p[j]` より前のレジスタは閉路にない
  have hS : ∀ r s, (∃ m, ∃ (hm : m < (p ++ [node]).length), j ≤ m ∧ (p ++ [node])[m] = r) →
      f r = some s → ∃ m, ∃ (hm : m < (p ++ [node]).length), j ≤ m ∧ (p ++ [node])[m] = s := by
    rintro r s ⟨m, hm, hjm, rfl⟩ hrs
    by_cases hml : m + 1 < (p ++ [node]).length
    · have hstep := chain_from h.chain m 1 hml
      rw [Function.iterate_one, follow_some, hrs, Option.some.injEq] at hstep
      exact ⟨m + 1, hml, by omega, hstep.symm⟩
    · have hmn : (p ++ [node])[m] = node := List.getElem_concat_length (by omega) _
      rw [hmn, hfn, Option.some.injEq] at hrs
      exact ⟨j, hj, le_refl j, hjn.trans hrs⟩
  refine walkInv_of_marked hf hw₀ hm h.fresh (fun r hr s hrs => ?_)
    (fun c hc => ?_) (List.pairwise_singleton _ _) (fun r hr hrc => ?_) rfl rfl rfl
    (by rw [hm.cycles_eq])
  · rcases List.mem_append.mp hr with hr | hr
    · exact (hm.visited_iff hb s).mpr (Or.inr (h.next_mem hr hrs))
    · rw [List.mem_singleton] at hr
      subst hr
      rw [hfn] at hrs
      cases hrs
      exact (hm.visited_iff hb _).mpr (Or.inr hnq)
  · rw [List.mem_singleton] at hc
    subst hc
    refine ⟨hnq, hjn ▸ hcyc, ?_⟩
    simp only [Walk.bump_index, Walk.bump_nextIndex]
    have := hm.index_path j hj
    have := hm.nextIndex_eq
    simp only [Walk.bump_index, Walk.bump_nextIndex] at *
    rw [← hjn, hper]
    omega
  · obtain ⟨i, hi, rfl⟩ := List.getElem_of_mem hr
    refine ⟨_, List.mem_singleton_self _, ?_⟩
    by_cases hji : j ≤ i
    · refine ⟨i - j, ?_⟩
      rw [← hjn, chain_from h.chain j (i - j) (by omega)]
      congr 2
      omega
    · refine absurd hrc (not_onCycle_of_iterate hS ?_ (m := j - i)
        (Or.inr ⟨(p ++ [node])[j], ⟨j, hj, le_refl j, rfl⟩, ?_⟩))
      · rintro ⟨m, hm', hjm, he⟩
        rw [List.Nodup.getElem_inj_iff h.nodup] at he
        omega
      · rw [chain_from h.chain i (j - i) (by omega)]
        congr 2
        omega

/-! ### 路全体と二つ目の loop -/

/-- 訪問していない `reg` から路を始める。 -/
theorem PathInv.start (hw₀ : WalkInv keys f w₀) (hreg : reg ∈ keys) (hun : w₀.index reg < 0) :
    PathInv keys f w₀ reg [] reg w₀ where
  marked := ⟨fun i hi => absurd hi (Nat.not_lt_zero i), fun _ _ => rfl, by simp,
    hw₀.outDegree_eq, rfl⟩
  chain := fun i hi => by
    obtain rfl : i = 0 := by simpa using hi
    rfl
  nodup := by simp
  fresh := fun r hr => by
    rw [List.nil_append, List.mem_singleton] at hr
    exact hr ▸ ⟨hreg, hun⟩

include hkeys hf in
/-- **一つの路。** 路の途中から歩き終えると `WalkInv` が立ち、前から訪問していたものは訪問した
ままで、`reg` も訪問している。fuel は `keys` の長さから路の長さを引いた分あれば足りる。 -/
theorem walkPath_inv (hw₀ : WalkInv keys f w₀) :
    ∀ (fuel : Nat) (p : List R) (node : R) (w : Walk R), PathInv keys f w₀ reg p node w →
      keys.length ≤ p.length + fuel →
      WalkInv keys f (walkPath f reg fuel node w) ∧
        (∀ r, 0 ≤ w₀.index r → 0 ≤ (walkPath f reg fuel node w).index r) ∧
        0 ≤ (walkPath f reg fuel node w).index reg
  | 0, _, _, _, h, hfuel => absurd h.length_lt (by omega)
  | fuel + 1, p, node, w, h, hfuel => by
    have hb := hw₀.nextIndex_nonneg
    cases hfn : f node with
    | none =>
      rw [walkPath_succ_of_none hfn]
      exact ⟨h.end_none hkeys hf hw₀ hfn, (h.marked_of_none hkeys hb hfn).keeps hb h.reg_mem⟩
    | some next =>
      rw [walkPath_succ_of_some hfn]
      have hkeep := (h.marked_of_some hkeys hb hfn).keeps hb h.reg_mem
      split_ifs with hun hge
      · -- 元がまだ訪問していなければ、路は続く
        exact walkPath_inv hw₀ fuel (p ++ [node]) next _ (h.step hkeys hf hb hfn hun)
          (by simp only [List.length_append, List.length_singleton]; omega)
      · exact ⟨h.end_cycle hkeys hf hw₀ hfn hge, hkeep⟩
      · exact ⟨h.end_old hkeys hf hw₀ hfn hun hge, hkeep⟩

include hkeys hf in
/-- 二つ目の loop の途中：`ks` の各レジスタを訪問し終え、`WalkInv` を保つ。 -/
theorem findCycles_inv (ks : List R) (hks : ∀ r ∈ ks, r ∈ keys) :
    ∀ w, WalkInv keys f w →
      WalkInv keys f (findCycles ks f keys.length w) ∧
        (∀ r, 0 ≤ w.index r → 0 ≤ (findCycles ks f keys.length w).index r) ∧
        ∀ r ∈ ks, 0 ≤ (findCycles ks f keys.length w).index r := by
  induction ks with
  | nil => exact fun w hw => ⟨hw, fun _ h => h, fun _ h => absurd h List.not_mem_nil⟩
  | cons reg ks ih =>
    intro w hw
    have hks' : ∀ r ∈ ks, r ∈ keys := fun r hr => hks r (List.mem_cons_of_mem _ hr)
    -- `reg` を訪問した後の状態
    have hstep : ∃ w', (if w.index reg ≥ 0 then w else walkPath f reg keys.length reg w) = w' ∧
        WalkInv keys f w' ∧ (∀ r, 0 ≤ w.index r → 0 ≤ w'.index r) ∧ 0 ≤ w'.index reg := by
      split_ifs with hv
      · exact ⟨w, rfl, hw, fun _ h => h, hv⟩
      · exact ⟨_, rfl, walkPath_inv hkeys hf hw keys.length [] reg w
          (PathInv.start hw (hks reg List.mem_cons_self) (Int.lt_of_not_ge hv)) (by simp)⟩
    obtain ⟨w', hw'eq, hw', hmono, hreg⟩ := hstep
    rw [findCycles, List.foldl_cons, hw'eq]
    obtain ⟨hinv, hmono', hall⟩ := ih hks' w' hw'
    refine ⟨hinv, fun r hr => hmono' r (hmono r hr), fun r hr => ?_⟩
    rcases List.mem_cons.mp hr with rfl | hr
    · exact hmono' r hreg
    · exact hall r hr

end Walking

/-! ## 二つ目の loop の結果 -/

variable (keys : List R) (f : MovePlan R)

/-- 二つ目の loop が終わったときの状態。 -/
structure CyclesFound (w : Walk R) : Prop where
  /-- `outDegree x` は、`x` を元にする行き先の数。 -/
  outDegree_eq : ∀ x, w.outDegree x = (keys.countP fun d => f d = some x : Nat)
  /-- 各項は閉路の上のレジスタと、その閉路の長さ。 -/
  cycle_valid : ∀ c ∈ w.cycles, c.node ∈ keys ∧ OnCycle f c.node ∧
    c.length = (minimalPeriod (follow f) (some c.node) : Int)
  /-- 項どうしは別の閉路。 -/
  cycle_distinct : w.cycles.Pairwise fun c c' => ¬ Reaches f c.node c'.node
  /-- 閉路の上のどのレジスタも、どれかの項の閉路の上にある。 -/
  cycle_cover : ∀ r ∈ keys, OnCycle f r → ∃ c ∈ w.cycles, Reaches f c.node r

variable {keys f}

/-- 最初の loop の後の状態では、`keys` はどれも訪問していない。 -/
theorem walkInv_init :
    WalkInv keys f ⟨fun r => if r ∈ keys then -1 else 0, fun _ => 0, 0, []⟩ where
  closed := fun r hr hv => by simp [hr] at hv
  index_lt := fun r hr => by simp [hr]
  nextIndex_nonneg := le_refl 0
  outDegree_eq := fun x => by
    rw [List.countP_eq_zero.mpr (fun d hd => by simp [hd])]
    rfl
  cycle_valid := fun c hc => absurd hc List.not_mem_nil
  cycle_distinct := List.Pairwise.nil
  cycle_cover := fun r hr hv => by simp [hr] at hv

/-- **二つ目の loop は閉路をちょうど一つずつ見つける。** `keys` に重複がなく、`f` の行き先と
元が `keys` にあれば、`findCycles` の後、`outDegree` は元として読まれる回数で、`cycles` は閉路
ごとにちょうど一つの項を、正しい長さで持つ。 -/
theorem findCycles_found (hkeys : keys.Nodup) (hf : ∀ d s, f d = some s → d ∈ keys ∧ s ∈ keys) :
    CyclesFound keys f
      (findCycles keys f keys.length ⟨fun r => if r ∈ keys then -1 else 0, fun _ => 0, 0, []⟩) := by
  obtain ⟨hinv, -, hall⟩ := findCycles_inv hkeys hf keys (fun _ h => h) _ walkInv_init
  refine ⟨fun x => ?_, fun c hc => ?_, hinv.cycle_distinct, fun r hr hrc =>
    hinv.cycle_cover r hr (hall r hr) hrc⟩
  · rw [hinv.outDegree_eq x]
    congr 1
    exact List.countP_congr fun d hd => by simp [hall d hd]
  · obtain ⟨hk, -, hcyc, hlen⟩ := hinv.cycle_valid c hc
    exact ⟨hk, hcyc, hlen⟩

end Hhvm.Jit
