import Hhvm.Jit.Properties.RegMovesQueue
import Mathlib.Data.Fin.VecNotation

/-!
# `doRegMoves` は並列コピーを行う

四つ目の loop は、見つけた閉路ごとに移動を足す。閉路 `c` の上のレジスタを `c.node` から辿った列を
`q = path f L c.node`（`L` は閉路の長さ）とすると、

* `cycleHasSIMDReg` は `q` に SIMD のレジスタがあるか（`cycleHasSIMDReg_eq`）、
* 一般の枝の `rotateLoop` は `q` をずらす移動を出す（`rotateLoop_eq`）ので、その枝の移動は
  `rotateMoves rTmp q`、
* どの枝でも、足した移動は `q` の各レジスタに次のレジスタの値を入れ、`q` と `rTmp` のほかは触らない
  （`CycleEmitted`、`emitCycle_spec`）。

閉路どうしは重ならないので、四つ目の loop 全体は閉路の上のレジスタへの並列コピーになる
（`emitCycles_spec`）。三つ目の loop の結果（`drainQueue_spec`）と合わせて、`doRegMoves` の移動を
順に行うと、`rTmp` のほかのどのレジスタにも `moves` が指す元の値が入る（`doRegMoves_correct`）。
-/

namespace Hhvm.Jit

open Function Infra.FunGraph Infra.ParallelCopy

variable {R : Type} [DecidableEq R]

/-! ## 閉路を一周する loop -/

section Loops

variable {f : MovePlan R} {v : R}

omit [DecidableEq R] in
/-- `a` から `n + 2` 歩で初めて `v` に着くなら、一歩目の `b` は `v` でなく、`b` から `n + 1` 歩で
初めて `v` に着く。 -/
theorem first_step {a : R} {n : Nat} (hn : (follow f)^[n + 2] (some a) = some v)
    (hfirst : ∀ m, 0 < m → m < n + 2 → (follow f)^[m] (some a) ≠ some v) :
    ∃ b, f a = some b ∧ b ≠ v ∧ (follow f)^[n + 1] (some b) = some v ∧
      ∀ m, 0 < m → m < n + 1 → (follow f)^[m] (some b) ≠ some v := by
  cases hfa : f a with
  | none =>
    rw [iterate_succ_of_none hfa] at hn
    cases hn
  | some b =>
    refine ⟨b, rfl, fun hbv => hfirst 1 Nat.one_pos (by omega) ?_, ?_, fun m hm hmn => ?_⟩
    · rw [Function.iterate_one, follow_some, hfa, hbv]
    · rwa [iterate_succ_some hfa] at hn
    · rw [← iterate_succ_some hfa]
      exact hfirst (m + 1) (by omega) (by omega)

/-- `cycleHasSIMDReg` は、`v` まで辿る列に SIMD のレジスタがあるか。 -/
theorem cycleHasSIMDReg_eq (isSIMD : R → Bool) :
    ∀ (n fuel : Nat) (a : R), n + 1 ≤ fuel → (follow f)^[n + 1] (some a) = some v →
      (∀ m, 0 < m → m < n + 1 → (follow f)^[m] (some a) ≠ some v) →
      cycleHasSIMDReg isSIMD f v fuel a = (path f (n + 1) a).any isSIMD
  | _, 0, _, h, _, _ => absurd h (Nat.not_succ_le_zero _)
  | 0, fuel + 1, a, _, hn, _ => by
    have hfa : f a = some v := hn
    rw [path_succ_of_some hfa, path_zero]
    cases hs : isSIMD a <;> simp [cycleHasSIMDReg, hfa, hs]
  | n + 1, fuel + 1, a, hfuel, hn, hfirst => by
    obtain ⟨b, hfa, hbv, hn', hfirst'⟩ := first_step hn hfirst
    rw [path_succ_of_some hfa, List.any_cons]
    have ih := cycleHasSIMDReg_eq isSIMD n fuel b (by omega) hn' hfirst'
    cases hs : isSIMD a <;> simp [cycleHasSIMDReg, hfa, hs, hbv, ih]

/-- 一般の閉路の loop は、`a` から `v` の手前までをずらす移動を出し、最後のレジスタで止まる。 -/
theorem rotateLoop_eq :
    ∀ (n fuel : Nat) (a : R) (acc : List (MoveInfo R)), n + 1 ≤ fuel →
      (follow f)^[n + 1] (some a) = some v →
      (∀ m, 0 < m → m < n + 1 → (follow f)^[m] (some a) ≠ some v) →
      rotateLoop f v fuel a (f a) acc =
        ((path f (n + 1) a).getLast (path_succ_ne_nil n a),
          acc ++ (shiftMoves (path f (n + 1) a)).map MoveInfo.ofPair)
  | _, 0, _, _, h, _, _ => absurd h (Nat.not_succ_le_zero _)
  | 0, fuel + 1, a, acc, _, hn, _ => by
    have hfa : f a = some v := hn
    simp only [rotateLoop, hfa, if_true, path_succ_of_some hfa, path_zero, List.getLast_singleton]
    simp [shiftMoves]
  | n + 1, fuel + 1, a, acc, hfuel, hn, hfirst => by
    obtain ⟨b, hfa, hbv, hn', hfirst'⟩ := first_step hn hfirst
    simp only [rotateLoop, hfa, hbv, if_false]
    rw [rotateLoop_eq n fuel b _ (by omega) hn' hfirst']
    -- `path f (n + 2) a = a :: b :: …` なので、最初のずらす移動は `b → a`
    have hpath : path f (n + 1 + 1) a = a :: path f (n + 1) b := path_succ_of_some hfa _
    have hshift : shiftMoves (a :: path f (n + 1) b) = (b, a) :: shiftMoves (path f (n + 1) b) := by
      have hb : path f (n + 1) b = b :: (f b).elim [] (path f n) := rfl
      rw [hb, shiftMoves]
    simp only [hpath, List.getLast_cons (path_succ_ne_nil n b), hshift, List.map_cons,
      List.append_assoc]
    rfl

end Loops

/-! ## 閉路一つ分の移動 -/

section Emit

variable (isSIMD : R → Bool) (f : MovePlan R) (rTmp : R)

/-- 閉路 `q`（各レジスタの次が `f`、最後の次が最初）について、移動 `new` がすること。 -/
structure CycleEmitted (q : List R) (new : List (MoveInfo R)) : Prop where
  /-- `q` の各レジスタには、次のレジスタの元の値が入る。 -/
  on_cycle : ∀ {V : Type} (ρ : R → V), ∀ r ∈ q, ∀ s, f r = some s → execMoves new ρ r = ρ s
  /-- `q` と `rTmp` のほかは変わらない。 -/
  off_cycle : ∀ {V : Type} (ρ : R → V), ∀ r, r ∉ q → r ≠ rTmp → execMoves new ρ r = ρ r
  /-- xchg は `q` の上の、SIMD でない二つのレジスタを入れ替える。 -/
  xchg : ∀ m ∈ new, m.m_kind = .Xchg →
    m.m_src ∈ q ∧ m.m_dst ∈ q ∧ isSIMD m.m_src = false ∧ isSIMD m.m_dst = false
  /-- 触るのは `q` と `rTmp` だけ。 -/
  regs : ∀ m ∈ new, (m.m_src ∈ q ∨ m.m_src = rTmp) ∧ (m.m_dst ∈ q ∨ m.m_dst = rTmp)

variable {isSIMD f rTmp}

/-- 長さ 2 の閉路は xchg 一つで回る。 -/
theorem cycleEmitted_two {v w : R} (hvw : f v = some w) (hwv : f w = some v) (hne : v ≠ w)
    (hs : [v, w].any isSIMD = false) :
    CycleEmitted isSIMD f rTmp [v, w] [⟨.Xchg, w, v⟩] where
  on_cycle := fun ρ r hr s hs' => by
    simp only [execMoves, List.foldl_cons, List.foldl_nil, MoveInfo.exec]
    rcases List.mem_pair.mp hr with rfl | rfl
    · rw [hvw] at hs'
      cases hs'
      exact swap_apply_right _ _ ρ
    · rw [hwv] at hs'
      cases hs'
      exact swap_apply_left _ _ ρ
  off_cycle := fun ρ r hr _ => by
    simp only [execMoves, List.foldl_cons, List.foldl_nil, MoveInfo.exec]
    exact swap_apply_of_ne (fun h => hr (by simp [h])) (fun h => hr (by simp [h])) ρ
  xchg := fun m hm _ => by
    rw [List.mem_singleton] at hm
    subst hm
    simp only [List.any_cons, List.any_nil, Bool.or_false, Bool.or_eq_false_iff] at hs
    exact ⟨by simp, by simp, hs.2, hs.1⟩
  regs := fun m hm => by
    rw [List.mem_singleton] at hm
    subst hm
    simp

/-- 長さ 3 の閉路は xchg 二つで回る。 -/
theorem cycleEmitted_three {v w x : R} (hvw : f v = some w) (hwx : f w = some x)
    (hxv : f x = some v) (hnd : [v, w, x].Nodup) (hs : [v, w, x].any isSIMD = false) :
    CycleEmitted isSIMD f rTmp [v, w, x] [⟨.Xchg, w, v⟩, ⟨.Xchg, x, w⟩] where
  on_cycle := fun ρ r hr s hs' => by
    have hvw' : v ≠ w := by rintro rfl; simp at hnd
    have hvx : v ≠ x := by rintro rfl; simp at hnd
    have hwx' : w ≠ x := by rintro rfl; simp at hnd
    simp only [execMoves, List.foldl_cons, List.foldl_nil, MoveInfo.exec]
    simp only [List.mem_cons, List.not_mem_nil, or_false] at hr
    rcases hr with h | h | h <;> rw [h] at hs' ⊢
    · rw [hvw] at hs'
      cases hs'
      rw [swap_apply_of_ne hvx hvw', swap_apply_right]
    · rw [hwx] at hs'
      cases hs'
      rw [swap_apply_right, swap_apply_of_ne hwx'.symm hvx.symm]
    · rw [hxv] at hs'
      cases hs'
      rw [swap_apply_left, swap_apply_left]
  off_cycle := fun ρ r hr _ => by
    simp only [List.mem_cons, List.not_mem_nil, or_false, not_or] at hr
    simp only [execMoves, List.foldl_cons, List.foldl_nil, MoveInfo.exec]
    rw [swap_apply_of_ne hr.2.2 hr.2.1, swap_apply_of_ne hr.2.1 hr.1]
  xchg := fun m hm _ => by
    simp only [List.any_cons, List.any_nil, Bool.or_false, Bool.or_eq_false_iff] at hs
    simp only [List.mem_cons, List.not_mem_nil, or_false] at hm
    rcases hm with rfl | rfl
    · exact ⟨by simp, by simp, hs.2.1, hs.1⟩
    · exact ⟨by simp, by simp, hs.2.2, hs.2.1⟩
  regs := fun m hm => by
    simp only [List.mem_cons, List.not_mem_nil, or_false] at hm
    rcases hm with rfl | rfl <;> simp

/-- ほかの閉路は `rTmp` を使って回す。 -/
theorem cycleEmitted_rotate {v : R} {rest : List R} (hnd : (v :: rest).Nodup)
    (htmp : rTmp ∉ v :: rest)
    (hnext : ∀ i (h : i + 1 < (v :: rest).length),
      f ((v :: rest).get ⟨i, Nat.lt_of_succ_lt h⟩) = some ((v :: rest).get ⟨i + 1, h⟩))
    (hlast : f ((v :: rest).getLast (List.cons_ne_nil v rest)) = some v) :
    CycleEmitted isSIMD f rTmp (v :: rest) ((rotateMoves rTmp (v :: rest)).map MoveInfo.ofPair) where
  on_cycle := fun ρ r hr s hs => by
    rw [execMoves_map_ofPair]
    exact runMoves_rotate hnd htmp hnext hlast ρ r hr s hs
  off_cycle := fun ρ r hr hrt => by
    rw [execMoves_map_ofPair]
    exact runMoves_rotate_of_not_mem hr hrt ρ
  xchg := fun m hm hk => by
    obtain ⟨p, -, rfl⟩ := List.mem_map.mp hm
    cases hk
  regs := fun m hm => by
    obtain ⟨p, hp, rfl⟩ := List.mem_map.mp hm
    simp only [rotateMoves, List.mem_append, List.mem_cons, List.not_mem_nil, or_false] at hp
    rcases hp with (rfl | hp) | rfl
    · exact ⟨Or.inl List.mem_cons_self, Or.inr rfl⟩
    · exact ⟨Or.inl (mem_shiftMoves hp).1, Or.inl (mem_shiftMoves hp).2⟩
    · exact ⟨Or.inr rfl, Or.inl (List.getLast_mem _)⟩

omit [DecidableEq R] in
/-- 閉路の上のレジスタには元があるので、`rTmp`（元がない）は閉路の列にない。 -/
theorem tmp_not_mem_path {f : MovePlan R} {rTmp v : R} (htmp : f rTmp = none) (hc : OnCycle f v) :
    rTmp ∉ path f (minimalPeriod (follow f) (some v)) v := fun hr => by
  obtain ⟨s, hs, -⟩ := (hc.iterate ((mem_path_iff hc).mp hr).choose_spec).next
  rw [htmp] at hs
  cases hs

/-- **閉路一つ分。** `c.node` が閉路の上にあり、`c.length` がその長さで、fuel が足りれば、
`emitCycle` は `howTo` に、その閉路を回す移動を足す。枝は三つ：長さ 2 と 3 で SIMD がなければ
xchg、そうでなければ `rTmp` を使って回す。 -/
theorem emitCycle_spec (regs : Regs R) {f : MovePlan R} {rTmp : R} (htmp : f rTmp = none)
    {fuel : Nat} {c : CycleInfo R} (hc : OnCycle f c.node)
    (hlen : c.length = (minimalPeriod (follow f) (some c.node) : Int))
    (hfuel : minimalPeriod (follow f) (some c.node) ≤ fuel) (howTo : List (MoveInfo R)) :
    ∃ new, emitCycle regs f rTmp fuel howTo c = howTo ++ new ∧
      CycleEmitted regs.isSIMD f rTmp (path f (minimalPeriod (follow f) (some c.node)) c.node)
        new := by
  obtain ⟨k, hk⟩ : ∃ k, minimalPeriod (follow f) (some c.node) = k + 1 :=
    ⟨_, (Nat.succ_pred_eq_of_pos (minimalPeriod_pos_of_mem_periodicPts hc)).symm⟩
  -- 閉路の列 `q = path f (k + 1) c.node` の性質
  have hnd := nodup_path_minimalPeriod hc
  have hnext : ∀ i (h : i + 1 < (path f (k + 1) c.node).length),
      f (path f (k + 1) c.node)[i] = some (path f (k + 1) c.node)[i + 1] :=
    fun i h => path_getElem_succ hc h
  have hlast := path_getLast hc
  have htmpq := tmp_not_mem_path htmp hc
  have hback : (follow f)^[minimalPeriod (follow f) (some c.node)] (some c.node) = some c.node :=
    iterate_minimalPeriod
  have hfirst : ∀ m, 0 < m → m < minimalPeriod (follow f) (some c.node) →
      (follow f)^[m] (some c.node) ≠ some c.node :=
    fun m hm hlt => not_isPeriodicPt_of_pos_of_lt_minimalPeriod (Nat.pos_iff_ne_zero.mp hm) hlt
  rw [hk] at hnd hlast hback hfirst htmpq hfuel hlen ⊢
  have hsimd := cycleHasSIMDReg_eq regs.isSIMD k fuel c.node hfuel hback hfirst
  obtain ⟨w, hvw, hwc, -⟩ := hc.next
  unfold emitCycle
  simp only [hsimd, hvw]
  split_ifs with h2 h3
  · -- 長さ 2：`q = [v, w]`
    obtain rfl : k = 1 := by omega
    have hq : path f 2 c.node = [c.node, w] := by
      rw [path_succ_of_some hvw, path_one]
    rw [hq] at hnd hlast h2 ⊢
    refine ⟨_, rfl, cycleEmitted_two hvw (hlast (List.cons_ne_nil _ _)) ?_ h2.2⟩
    exact fun he => by simp [he] at hnd
  · -- 長さ 3：`q = [v, w, x]`
    obtain rfl : k = 2 := by omega
    obtain ⟨x, hwx, -, -⟩ := hwc.next
    have hq : path f 3 c.node = [c.node, w, x] := by
      rw [path_succ_of_some hvw, path_succ_of_some hwx, path_one]
    rw [hq] at hnd hlast h3 ⊢
    simp only [hwx]
    exact ⟨_, rfl, cycleEmitted_three hvw hwx (hlast (List.cons_ne_nil _ _)) hnd h3.2⟩
  · -- ほかの閉路：`rTmp` を使って回す
    obtain ⟨rest, hq⟩ : ∃ rest, path f (k + 1) c.node = c.node :: rest := ⟨_, rfl⟩
    rw [← hvw, rotateLoop_eq k fuel c.node _ hfuel hback hfirst]
    simp only [hq] at hnd hnext hlast htmpq ⊢
    refine ⟨_, ?_, cycleEmitted_rotate hnd htmpq hnext (hlast (List.cons_ne_nil _ _))⟩
    simp only [rotateMoves, List.map_append, List.map_cons, List.map_nil, List.append_assoc]
    rfl

theorem cycleEmitted_nil : CycleEmitted isSIMD f rTmp [] [] where
  on_cycle := fun _ _ hr => absurd hr List.not_mem_nil
  off_cycle := fun _ _ _ _ => rfl
  xchg := fun _ hm => absurd hm List.not_mem_nil
  regs := fun _ hm => absurd hm List.not_mem_nil

/-- 重ならない二つの閉路の移動を続けて行う。後の閉路は辺で閉じていて、どちらの閉路にも `rTmp` は
ない。 -/
theorem CycleEmitted.append {q₁ q₂ : List R} {new₁ new₂ : List (MoveInfo R)}
    (h₁ : CycleEmitted isSIMD f rTmp q₁ new₁) (h₂ : CycleEmitted isSIMD f rTmp q₂ new₂)
    (hdisj : ∀ r ∈ q₂, r ∉ q₁) (htmp₁ : rTmp ∉ q₁) (htmp₂ : rTmp ∉ q₂)
    (hclosed : ∀ r ∈ q₂, ∀ s, f r = some s → s ∈ q₂) :
    CycleEmitted isSIMD f rTmp (q₁ ++ q₂) (new₁ ++ new₂) where
  on_cycle := fun ρ r hr s hs => by
    rw [execMoves_append]
    rcases List.mem_append.mp hr with hr | hr
    · -- 前の閉路のレジスタは、後の閉路の移動では変わらない
      have hrt : r ≠ rTmp := fun h => htmp₁ (h ▸ hr)
      rw [h₂.off_cycle _ r (fun h => hdisj r h hr) hrt, h₁.on_cycle ρ r hr s hs]
    · -- 後の閉路の元はその閉路の上にあるので、前の閉路の移動では変わらない
      have hs₂ := hclosed r hr s hs
      have hst : s ≠ rTmp := fun h => htmp₂ (h ▸ hs₂)
      rw [h₂.on_cycle _ r hr s hs, h₁.off_cycle ρ s (hdisj s hs₂) hst]
  off_cycle := fun ρ r hr hrt => by
    rw [List.mem_append, not_or] at hr
    rw [execMoves_append, h₂.off_cycle _ r hr.2 hrt, h₁.off_cycle ρ r hr.1 hrt]
  xchg := fun m hm hk => by
    rcases List.mem_append.mp hm with hm | hm
    · obtain ⟨hs, hd, hsimd⟩ := h₁.xchg m hm hk
      exact ⟨List.mem_append_left q₂ hs, List.mem_append_left q₂ hd, hsimd⟩
    · obtain ⟨hs, hd, hsimd⟩ := h₂.xchg m hm hk
      exact ⟨List.mem_append_right q₁ hs, List.mem_append_right q₁ hd, hsimd⟩
  regs := fun m hm => by
    rcases List.mem_append.mp hm with hm | hm
    · obtain ⟨hs, hd⟩ := h₁.regs m hm
      exact ⟨hs.imp_left (List.mem_append_left q₂), hd.imp_left (List.mem_append_left q₂)⟩
    · obtain ⟨hs, hd⟩ := h₂.regs m hm
      exact ⟨hs.imp_left (List.mem_append_right q₁), hd.imp_left (List.mem_append_right q₁)⟩

end Emit

/-! ## 四つ目の loop -/

/-- 閉路の列 `cs` の各閉路の上のレジスタを、閉路ごとに一周分並べたもの。 -/
noncomputable def cycleRegs (f : MovePlan R) (cs : List (CycleInfo R)) : List R :=
  cs.flatMap fun c => path f (minimalPeriod (follow f) (some c.node)) c.node

omit [DecidableEq R] in
theorem mem_cycleRegs {f : MovePlan R} {cs : List (CycleInfo R)}
    (hcs : ∀ c ∈ cs, OnCycle f c.node) {r : R} :
    r ∈ cycleRegs f cs ↔ ∃ c ∈ cs, Reaches f c.node r := by
  simp only [cycleRegs, List.mem_flatMap]
  constructor
  · rintro ⟨c, hc, hr⟩
    exact ⟨c, hc, (mem_path_iff (hcs c hc)).mp hr⟩
  · rintro ⟨c, hc, hr⟩
    exact ⟨c, hc, (mem_path_iff (hcs c hc)).mpr hr⟩

/-- **四つ目の loop。** `cs` の各項が閉路の上のレジスタとその閉路の長さで、項どうしが別の閉路で、
fuel が足りれば、`cs` の上の fold は `howTo` に、どの閉路も回す移動を足す。 -/
theorem emitCycles_spec (regs : Regs R) {f : MovePlan R} {rTmp : R} (htmp : f rTmp = none)
    {fuel : Nat} {cs : List (CycleInfo R)}
    (hcs : ∀ c ∈ cs, OnCycle f c.node ∧
      c.length = (minimalPeriod (follow f) (some c.node) : Int) ∧
      minimalPeriod (follow f) (some c.node) ≤ fuel)
    (hpw : cs.Pairwise fun c c' => ¬ Reaches f c.node c'.node) (howTo : List (MoveInfo R)) :
    ∃ new, cs.foldl (emitCycle regs f rTmp fuel) howTo = howTo ++ new ∧
      CycleEmitted regs.isSIMD f rTmp (cycleRegs f cs) new := by
  induction cs generalizing howTo with
  | nil => exact ⟨[], (List.append_nil howTo).symm, cycleEmitted_nil⟩
  | cons c cs ih =>
    obtain ⟨hc, hlen, hfuel⟩ := hcs c List.mem_cons_self
    have hcs' := fun c' (hc' : c' ∈ cs) => hcs c' (List.mem_cons_of_mem _ hc')
    have hon := fun c' (hc' : c' ∈ cs) => (hcs' c' hc').1
    obtain ⟨hpc, hpw⟩ := List.pairwise_cons.mp hpw
    obtain ⟨new₁, he₁, h₁⟩ := emitCycle_spec regs htmp hc hlen hfuel howTo
    obtain ⟨new₂, he₂, h₂⟩ := ih hcs' hpw (emitCycle regs f rTmp fuel howTo c)
    refine ⟨new₁ ++ new₂, ?_, h₁.append h₂ ?_ (tmp_not_mem_path htmp hc) ?_ ?_⟩
    · rw [List.foldl_cons, he₂, he₁, List.append_assoc]
    · -- 後の閉路のレジスタが `c` の閉路にあれば、`c` から後の閉路に辿れてしまう
      intro r hr hr₁
      obtain ⟨c', hc', hr'⟩ := (mem_cycleRegs hon).mp hr
      exact hpc c' hc' (((mem_path_iff hc).mp hr₁).trans (hr'.symm_of_onCycle (hon c' hc')))
    · intro hr
      obtain ⟨c', hc', hr'⟩ := (mem_cycleRegs hon).mp hr
      exact tmp_not_mem_path htmp (hon c' hc') ((mem_path_iff (hon c' hc')).mpr hr')
    · intro r hr s hs
      obtain ⟨c', hc', hr'⟩ := (mem_cycleRegs hon).mp hr
      exact (mem_cycleRegs hon).mpr ⟨c', hc', hr'.step hs⟩

/-! ## `doRegMoves` -/

section Main

variable {regs : Regs R} {moves : MovePlan R} {rTmp : R}

/-- 一つ目の loop の後の元は、もとの `moves` の元。 -/
theorem dropSelfMoves_some {keys : List R} {d s : R} (h : (dropSelfMoves keys moves).1 d = some s) :
    moves d = some s := by
  simp only [dropSelfMoves_eq] at h
  split_ifs at h
  exact h

theorem dropSelfMoves_none {keys : List R} {r : R} (h : moves r = none) :
    (dropSelfMoves keys moves).1 r = none := by
  simp [dropSelfMoves_eq, h]

/-- 自分自身への移動を消しても、並列コピーとしての意味は変わらない。 -/
theorem dropSelfMoves_elim (keys : List R) (moves : MovePlan R) {V : Type} (ρ : R → V) (r : R) :
    ((dropSelfMoves keys moves).1 r).elim (ρ r) ρ = (moves r).elim (ρ r) ρ := by
  simp only [dropSelfMoves_eq]
  split_ifs with h
  · rw [h.2]
    rfl
  · rfl

/-- `doRegMoves` の返す列は、閉路にないレジスタへの移動（三つ目の loop）の後に、閉路を回す移動
（四つ目の loop）を続けたもの。`f` は自分自身への移動を消した `moves`。 -/
theorem doRegMoves_split (hkeys : regs.keys.Nodup)
    (hmem : ∀ d s, moves d = some s → d ∈ regs.keys ∧ s ∈ regs.keys) (htmp : moves rTmp = none)
    {f : MovePlan R} (hf : (dropSelfMoves regs.keys moves).1 = f) :
    ∃ P Q new, (∀ r ∈ regs.keys, r ∈ P ↔ ¬ OnCycle f r) ∧
      (∀ r ∈ regs.keys, OnCycle f r → r ∈ Q) ∧ (∀ r ∈ Q, OnCycle f r) ∧
      (queueMoves f P).Pairwise NoClobber ∧ CycleEmitted regs.isSIMD f rTmp Q new ∧
      doRegMoves regs moves rTmp = (queueMoves f P).map MoveInfo.ofPair ++ new := by
  have hfk : ∀ d s, f d = some s → d ∈ regs.keys ∧ s ∈ regs.keys :=
    fun d s h => hmem d s (dropSelfMoves_some (hf ▸ h))
  have htmp' : f rTmp = none := hf ▸ dropSelfMoves_none htmp
  have hmi : dropSelfMoves regs.keys moves = (f, fun r => if r ∈ regs.keys then -1 else 0) :=
    Prod.ext hf (by simp only [dropSelfMoves_eq])
  obtain ⟨w, hw⟩ : ∃ w, findCycles regs.keys f regs.keys.length
      ⟨fun r => if r ∈ regs.keys then -1 else 0, fun _ => 0, 0, []⟩ = w := ⟨_, rfl⟩
  have hcf := findCycles_found hkeys hfk
  rw [hw] at hcf
  obtain ⟨P, hP, hpw, hq⟩ := drainQueue_spec hkeys hfk hcf.outDegree_eq
  -- 見つけた閉路は `regs.keys` に収まるので、fuel は足りる
  have hcs : ∀ c ∈ w.cycles, OnCycle f c.node ∧
      c.length = (minimalPeriod (follow f) (some c.node) : Int) ∧
      minimalPeriod (follow f) (some c.node) ≤ regs.keys.length := fun c hc => by
    obtain ⟨hck, hcc, hlen⟩ := hcf.cycle_valid c hc
    refine ⟨hcc, hlen, minimalPeriod_le_length hcc fun s ⟨n, hn⟩ => ?_⟩
    exact iterate_closed (S := (· ∈ regs.keys)) (fun r s _ h => (hfk r s h).2) n hck hn
  have hon : ∀ c ∈ w.cycles, OnCycle f c.node := fun c hc => (hcs c hc).1
  obtain ⟨new, he, hem⟩ := emitCycles_spec regs htmp' hcs hcf.cycle_distinct
    ((queueMoves f P).map MoveInfo.ofPair)
  refine ⟨P, cycleRegs f w.cycles, new, hP, fun r hr hrc => ?_, fun r hr => ?_, hpw, hem, ?_⟩
  · obtain ⟨c, hc, hcr⟩ := hcf.cycle_cover r hr hrc
    exact (mem_cycleRegs hon).mpr ⟨c, hc, hcr⟩
  · obtain ⟨c, hc, n, hn⟩ := (mem_cycleRegs hon).mp hr
    exact (hon c hc).iterate hn
  · simp only [doRegMoves, hmi, hw, hq, he]

/-- 自分自身への移動を消した後の元は、別のレジスタ。 -/
theorem dropSelfMoves_ne {keys : List R} {d s : R} (hd : d ∈ keys)
    (h : (dropSelfMoves keys moves).1 d = some s) : s ≠ d := by
  rintro rfl
  simp only [dropSelfMoves_eq] at h
  split_ifs at h with hself
  exact hself ⟨hd, h⟩

end Main

/-- `doRegMoves` の移動を順に行うと、`rTmp` のほかは並列コピーと同じになる。 -/
theorem execMoves_doRegMoves {regs : Regs R} {moves : MovePlan R} {rTmp : R}
    (hkeys : regs.keys.Nodup)
    (hmem : ∀ d s, moves d = some s → d ∈ regs.keys ∧ s ∈ regs.keys) (htmp : moves rTmp = none)
    {V : Type} (ρ : R → V) {r : R} (hr : r ≠ rTmp) :
    execMoves (doRegMoves regs moves rTmp) ρ r = (moves r).elim (ρ r) ρ := by
  obtain ⟨f, hf⟩ : ∃ f, (dropSelfMoves regs.keys moves).1 = f := ⟨_, rfl⟩
  have hfk : ∀ d s, f d = some s → d ∈ regs.keys ∧ s ∈ regs.keys :=
    fun d s h => hmem d s (dropSelfMoves_some (hf ▸ h))
  obtain ⟨P, Q, new, hP, hQ, hQc, hpw, hem, heq⟩ := doRegMoves_split hkeys hmem htmp hf
  rw [heq, execMoves_append, execMoves_map_ofPair, ← dropSelfMoves_elim regs.keys moves, hf]
  by_cases hrQ : r ∈ Q
  · -- 閉路の上：元も閉路の上にあるので、三つ目の loop では変わらない
    obtain ⟨s, hs, hsc, -⟩ := (hQc r hrQ).next
    have hsP : s ∉ P := fun h => (hP s (hfk r s hs).2).mp h hsc
    rw [hem.on_cycle _ r hrQ s hs, runMoves_queueMoves hpw, if_neg hsP, hs]
    rfl
  · rw [hem.off_cycle _ r hrQ hr, runMoves_queueMoves hpw]
    split_ifs with hrP
    · rfl
    · -- どちらの loop にも出ないレジスタには元がない
      cases hfr : f r with
      | none => rfl
      | some s =>
        have hrk := (hfk r s hfr).1
        exact absurd (hQ r hrk (not_not.mp ((hP r hrk).not.mp hrP))) hrQ

/-- **`doRegMoves` は並列コピーを行う。** `regs.keys` に重複がなく、`moves` の行き先と元がどれも
`regs.keys` にあり、`rTmp` が行き先でなければ、返す移動を順に行った後、`rTmp` のほかのどの
レジスタ `r` にも `moves r` の元の値が入り、元がなければ `r` は変わらない。 -/
theorem doRegMoves_correct (regs : Regs R) (moves : MovePlan R) (rTmp : R)
    (hkeys : regs.keys.Nodup)
    (hmem : ∀ d s, moves d = some s → d ∈ regs.keys ∧ s ∈ regs.keys) (htmp : moves rTmp = none)
    {V : Type} (ρ : R → V) (r : R) (hr : r ≠ rTmp) :
    execMoves (doRegMoves regs moves rTmp) ρ r = (moves r).elim (ρ r) ρ :=
  execMoves_doRegMoves hkeys hmem htmp ρ hr

/-- 0 と 1 を入れ替え、2 に 0 を、4 に 2 を写す。4 には 2 の元の値が入る。 -/
theorem doRegMoves_correct_swap :
    execMoves (doRegMoves ⟨List.finRange 6, fun _ => false⟩
      ![some 1, some 0, some 0, some 3, some 2, none] 5) id 4 = 2 :=
  doRegMoves_correct _ _ 5 (List.nodup_finRange 6)
    (fun d s _ => ⟨List.mem_finRange d, List.mem_finRange s⟩) rfl id 4 (by decide)

/-- 木の部分は葉から、閉路は長さ 2 なら xchg で。 -/
example : doRegMoves ⟨List.finRange 6, fun _ => false⟩
    ![some 1, some 0, some 0, some 3, some 2, none] 5 =
      [⟨.Move, 2, 4⟩, ⟨.Move, 0, 2⟩, ⟨.Xchg, 1, 0⟩] := by decide

/-- 閉路に SIMD のレジスタがあれば、`rTmp` を使って回す。 -/
example : doRegMoves ⟨List.finRange 6, fun r => decide (r.val < 2)⟩
    ![some 1, some 0, some 0, some 3, some 2, none] 5 =
      [⟨.Move, 2, 4⟩, ⟨.Move, 0, 2⟩, ⟨.Move, 0, 5⟩, ⟨.Move, 1, 0⟩, ⟨.Move, 5, 1⟩] := by decide

/-- **書くのは行き先と `rTmp` だけで、xchg は SIMD のレジスタに使わない。** 前提は
`doRegMoves_correct` と同じ。返す列のどの移動も、`rTmp` か、`moves` が自分でない元を指す行き先に
だけ書く。xchg はそういう行き先二つを入れ替え、どちらも SIMD のレジスタでない。 -/
theorem doRegMoves_writes (regs : Regs R) (moves : MovePlan R) (rTmp : R)
    (hkeys : regs.keys.Nodup)
    (hmem : ∀ d s, moves d = some s → d ∈ regs.keys ∧ s ∈ regs.keys) (htmp : moves rTmp = none) :
    ∀ m ∈ doRegMoves regs moves rTmp,
      (m.m_dst = rTmp ∨ ∃ s, moves m.m_dst = some s ∧ s ≠ m.m_dst) ∧
      (m.m_kind = .Xchg → (∃ s, moves m.m_src = some s ∧ s ≠ m.m_src) ∧
        regs.isSIMD m.m_src = false ∧ regs.isSIMD m.m_dst = false) := by
  obtain ⟨f, hf⟩ : ∃ f, (dropSelfMoves regs.keys moves).1 = f := ⟨_, rfl⟩
  have hfk : ∀ d s, f d = some s → d ∈ regs.keys ∧ s ∈ regs.keys :=
    fun d s h => hmem d s (dropSelfMoves_some (hf ▸ h))
  -- `f` の行き先は、`moves` が自分でない元を指す行き先
  have hdst : ∀ d s, f d = some s → ∃ s, moves d = some s ∧ s ≠ d := fun d s h =>
    ⟨s, dropSelfMoves_some (hf ▸ h), dropSelfMoves_ne (hfk d s h).1 (hf ▸ h)⟩
  obtain ⟨P, Q, new, -, -, hQc, -, hem, heq⟩ := doRegMoves_split hkeys hmem htmp hf
  have hon : ∀ r ∈ Q, ∃ s, moves r = some s ∧ s ≠ r := fun r hr => by
    obtain ⟨s, hs, -⟩ := (hQc r hr).next
    exact hdst r s hs
  rw [heq]
  intro m hm
  rcases List.mem_append.mp hm with hm | hm
  · -- 三つ目の loop の移動
    obtain ⟨p, hp, rfl⟩ := List.mem_map.mp hm
    exact ⟨Or.inr (hdst _ _ (mem_queueMoves.mp hp).2), fun hk => by cases hk⟩
  · -- 四つ目の loop の移動
    refine ⟨(hem.regs m hm).2.elim (fun h => Or.inr (hon _ h)) Or.inl, fun hk => ?_⟩
    obtain ⟨hs, -, hsimd⟩ := hem.xchg m hm hk
    exact ⟨hon _ hs, hsimd⟩

/-- 0 と 1 が SIMD のレジスタなら、その閉路に xchg は使わない。 -/
theorem doRegMoves_writes_simd :
    (⟨.Move, 1, 0⟩ : MoveInfo (Fin 6)) ∈ doRegMoves ⟨List.finRange 6, fun r => decide (r.val < 2)⟩
        ![some 1, some 0, some 0, some 3, some 2, none] 5 ∧
      ((0 : Fin 6) = 5 ∨ ∃ s, (![some 1, some 0, some 0, some 3, some 2, none] : MovePlan (Fin 6)) 0
        = some s ∧ s ≠ 0) ∧
      (MoveInfo.Kind.Move = .Xchg →
        (∃ s, (![some 1, some 0, some 0, some 3, some 2, none] : MovePlan (Fin 6)) 1 = some s ∧
          s ≠ 1) ∧
        decide ((1 : Fin 6).val < 2) = false ∧ decide ((0 : Fin 6).val < 2) = false) :=
  have hm : (⟨.Move, 1, 0⟩ : MoveInfo (Fin 6)) ∈ doRegMoves
      ⟨List.finRange 6, fun r => decide (r.val < 2)⟩
      ![some 1, some 0, some 0, some 3, some 2, none] 5 := by decide
  ⟨hm, doRegMoves_writes _ _ 5 (List.nodup_finRange 6)
    (fun d s _ => ⟨List.mem_finRange d, List.mem_finRange s⟩) rfl _ hm⟩

/-! ## `insertCopiesAt` -/

/-- `copyMoves` は、`keys` の行き先ごとに、live な interval のレジスタを元とする。 -/
theorem copyMoves_append (ks : List R) (k : R) (plan : CopyPlan R) (r : R) :
    copyMoves (ks ++ [k]) plan r =
      if r = k ∧ ((plan k).bind Interval.reg).isSome then (plan k).bind Interval.reg
      else copyMoves ks plan r := by
  simp only [copyMoves, List.foldl_append, List.foldl_cons, List.foldl_nil]
  cases hk : plan k with
  | none => simp
  | some ivl =>
    -- `live` は `reg` が `some` であること
    cases hreg : ivl.reg with
    | none => simp [Interval.live, hreg]
    | some s =>
      by_cases hr : r = k
      · subst hr
        simp [Interval.live, hreg]
      · simp [Interval.live, hreg, hr]

theorem copyMoves_eq (keys : List R) (plan : CopyPlan R) (r : R) :
    copyMoves keys plan r = if r ∈ keys then (plan r).bind Interval.reg else none := by
  induction keys using List.reverseRecOn with
  | nil => rfl
  | append_singleton ks k ih =>
    rw [copyMoves_append, ih]
    by_cases hr : r = k
    · subst hr
      cases (plan r).bind Interval.reg <;> simp
    · simp [hr]

/-- `copy2{a, b, b, a}` は `a` と `b` を入れ替える。 -/
theorem Copy.exec_copy2 {V : Type} (a b : R) (ρ : R → V) :
    (Copy.copy2 a b b a).exec ρ = swap a b ρ := by
  by_cases hab : a = b
  · subst hab
    simp [Copy.exec, Infra.ParallelCopy.swap]
  · exact Function.update_comm (Ne.symm hab) _ _ _

/-- 差し込む copy を順に行うのは、`doRegMoves` の移動を順に行うのと同じ。 -/
theorem execCopies_insertCopiesAt {V : Type} (regs : Regs R) (tmp : R) (plan : CopyPlan R) :
    ∀ ρ : R → V, execCopies (insertCopiesAt regs tmp plan) ρ =
      execMoves (doRegMoves regs (copyMoves regs.keys plan) tmp) ρ := by
  unfold insertCopiesAt
  generalize doRegMoves regs (copyMoves regs.keys plan) tmp = ms
  induction ms with
  | nil => exact fun _ => rfl
  | cons m ms ih =>
    intro ρ
    obtain ⟨k, s, d⟩ := m
    -- 一つ目の copy が一つ目の移動と同じことをする
    have hexec : ∀ c : Copy R, c.exec ρ = (MoveInfo.mk k s d).exec ρ →
        execCopies (c :: ms.map _) ρ = execMoves (⟨k, s, d⟩ :: ms) ρ :=
      fun c hc => (congrArg _ hc).trans (ih _)
    cases k with
    | Move => exact hexec _ rfl
    | Xchg => exact hexec _ (Copy.exec_copy2 s d ρ)

/-- **`insertCopiesAt` は copy の計画を並列に行う。** `regs.keys` が重複なくすべてのレジスタを並べ、
一時レジスタ `tmp` に live な interval がなければ、差し込んだ copy を順に行った後、`tmp` のほかの
どのレジスタ `r` にも、`r` の live な interval のレジスタの元の値が入り、そういう interval が
なければ `r` は変わらない。 -/
theorem insertCopiesAt_correct (regs : Regs R) (tmp : R) (plan : CopyPlan R)
    (hkeys : regs.keys.Nodup) (hall : ∀ r, r ∈ regs.keys)
    (htmp : (plan tmp).bind Interval.reg = none) {V : Type} (ρ : R → V) (r : R) (hr : r ≠ tmp) :
    execCopies (insertCopiesAt regs tmp plan) ρ r = ((plan r).bind Interval.reg).elim (ρ r) ρ := by
  have hmoves : ∀ r, copyMoves regs.keys plan r = (plan r).bind Interval.reg := fun r => by
    rw [copyMoves_eq, if_pos (hall r)]
  have htmp' : copyMoves regs.keys plan tmp = none := by rw [hmoves, htmp]
  rw [execCopies_insertCopiesAt, execMoves_doRegMoves hkeys
    (fun d s _ => ⟨hall d, hall s⟩) htmp' ρ hr, hmoves]

/-- 0 と 1 の interval を入れ替え、2 の interval は live でない。 -/
theorem insertCopiesAt_correct_swap :
    execCopies (insertCopiesAt ⟨List.finRange 4, fun _ => false⟩ 3
      ![some ⟨some 1⟩, some ⟨some 0⟩, some ⟨none⟩, none]) id 0 = 1 :=
  insertCopiesAt_correct _ 3 _ (List.nodup_finRange 4) List.mem_finRange rfl id 0 (by decide)

end Hhvm.Jit
