import Mathlib.Dynamics.PeriodicPts.Defs
import Mathlib.Data.Set.Finite.Basic

/-!
# 部分関数のグラフと閉路

`f : R → Option R` を、どの頂点からも辺が高々一本出るグラフと見る。`follow f` はそれを
`Option R` の上の写像にしたもので、辺のないところ（`none`）からは動かない。

閉路の上にあることは Mathlib の周期点（`Function.periodicPts`）で、閉路の長さは
`Function.minimalPeriod` で言う。この開発が使うのは次の事実である。

* 辺で外に出ない集合の外の頂点が、辿って `none` かその集合に入るなら、閉路にない
  （`not_onCycle_of_iterate`）。
* `L` 歩で初めて戻る頂点は、長さ `L` の閉路の上にある（`minimalPeriod_eq_of_iterate`）。
* 有限の集合のどの頂点にも集合の中から辺が入っているなら、どの頂点も閉路の上にある
  （`onCycle_of_preds`、鳩の巣）。
* 閉路の上の頂点から `path` で辿った列は、重複がなく、辺で順につながり、最後が先頭に戻る。
-/

namespace Infra.FunGraph

open Function

variable {R : Type} (f : R → Option R)

/-- 一歩進む。辺がなければ `none` で、そこからは動かない。 -/
def follow (o : Option R) : Option R := o.bind f

/-- 閉路の上にある。 -/
def OnCycle (r : R) : Prop := some r ∈ periodicPts (follow f)

/-- `b` は `a` から辿れる。 -/
def Reaches (a b : R) : Prop := ∃ n, (follow f)^[n] (some a) = some b

/-- `r` から辺を辿った頂点を `n` 個まで。辺が切れたらそこまで。 -/
def path : Nat → R → List R
  | 0, _ => []
  | n + 1, r => r :: (f r).elim [] (path n)

variable {f}

@[simp] theorem follow_none : follow f none = none := rfl

@[simp] theorem follow_some (r : R) : follow f (some r) = f r := rfl

@[simp] theorem iterate_follow_none (n : Nat) : (follow f)^[n] none = none := by
  induction n with
  | zero => rfl
  | succ n ih => rw [iterate_succ_apply, follow_none, ih]

/-- 一歩目に辺を使う。 -/
theorem iterate_succ_some {r s : R} (h : f r = some s) (n : Nat) :
    (follow f)^[n + 1] (some r) = (follow f)^[n] (some s) := by
  rw [iterate_succ_apply, follow_some, h]

/-- 辺がなければ、一歩目から先は `none`。 -/
theorem iterate_succ_of_none {r : R} (h : f r = none) (n : Nat) :
    (follow f)^[n + 1] (some r) = none := by
  rw [iterate_succ_apply, follow_some, h, iterate_follow_none]

/-- 最後の一歩に辺を使う。 -/
theorem iterate_succ_of_iterate {r s t : R} {n : Nat} (h : (follow f)^[n] (some r) = some s)
    (hs : f s = some t) : (follow f)^[n + 1] (some r) = some t := by
  rw [iterate_succ_apply', h, follow_some, hs]

/-- 閉路の上の頂点には、どれだけ後にも戻ってくる。 -/
theorem OnCycle.returns_after {x : R} (hc : OnCycle f x) (m : Nat) :
    ∃ N, m ≤ N ∧ (follow f)^[N] (some x) = some x := by
  obtain ⟨n, hn, hp⟩ := mem_periodicPts.mp hc
  exact ⟨n * (m + 1), Nat.le_trans (Nat.le_succ m) (Nat.le_mul_of_pos_left (m + 1) hn),
    (hp.mul_const (m + 1)).eq⟩

/-! ## 閉じた集合 -/

section Closed

variable {S : R → Prop} (hS : ∀ r s, S r → f r = some s → S s)
include hS

/-- 辺で外に出ない集合からは、辿っても出られない。 -/
theorem iterate_closed : ∀ n {r s : R}, S r → (follow f)^[n] (some r) = some s → S s
  | 0, _, _, hr, h => by
    cases h
    exact hr
  | n + 1, r, s, hr, h => by
    cases hfr : f r with
    | none =>
      rw [iterate_succ_of_none hfr] at h
      cases h
    | some t =>
      rw [iterate_succ_some hfr] at h
      exact iterate_closed n (hS r t hr hfr) h

/-- 閉じた集合の外の頂点が、辿って `none` か集合の中に着くなら、その頂点は閉路にない。 -/
theorem not_onCycle_of_iterate {x : R} (hx : ¬ S x) {m : Nat}
    (hm : (follow f)^[m] (some x) = none ∨ ∃ s, S s ∧ (follow f)^[m] (some x) = some s) :
    ¬ OnCycle f x := by
  intro hc
  -- `m` 歩より後にも `x` に戻る
  obtain ⟨N, hle, hN⟩ := hc.returns_after m
  have hback : (follow f)^[N - m] ((follow f)^[m] (some x)) = some x := by
    rw [← iterate_add_apply, Nat.sub_add_cancel hle, hN]
  rcases hm with h | ⟨s, hs, h⟩
  · rw [h, iterate_follow_none] at hback
    cases hback
  · rw [h] at hback
    exact hx (iterate_closed hS _ hs hback)

end Closed

/-! ## 閉路 -/

/-- `L` 歩で戻り、それより前には戻らない頂点は、長さ `L` の閉路の上にある。 -/
theorem minimalPeriod_eq_of_iterate {v : R} {L : Nat} (hL : 0 < L)
    (hback : (follow f)^[L] (some v) = some v)
    (hfirst : ∀ i, 0 < i → i < L → (follow f)^[i] (some v) ≠ some v) :
    OnCycle f v ∧ minimalPeriod (follow f) (some v) = L := by
  have hp : IsPeriodicPt (follow f) L (some v) := hback
  refine ⟨mk_mem_periodicPts hL hp, le_antisymm (hp.minimalPeriod_le hL) ?_⟩
  by_contra hlt
  exact hfirst _ (hp.minimalPeriod_pos hL) (Nat.lt_of_not_le hlt) iterate_minimalPeriod

/-- 閉路の上の頂点から出る辺があり、その先も同じ長さの閉路の上にある。 -/
theorem OnCycle.next {r : R} (hc : OnCycle f r) :
    ∃ s, f r = some s ∧ OnCycle f s ∧
      minimalPeriod (follow f) (some s) = minimalPeriod (follow f) (some r) := by
  have hmem : follow f (some r) ∈ periodicPts (follow f) := by
    obtain ⟨n, hn, hp⟩ := mem_periodicPts.mp hc
    exact mk_mem_periodicPts hn hp.apply
  cases hfr : f r with
  | none =>
    rw [follow_some, hfr] at hmem
    obtain ⟨n, hn, hp⟩ := mem_periodicPts.mp hc
    have := hp.eq
    obtain ⟨k, rfl⟩ : ∃ k, n = k + 1 := ⟨n - 1, by omega⟩
    rw [iterate_succ_of_none hfr] at this
    cases this
  | some s =>
    refine ⟨s, rfl, ?_, ?_⟩
    · rw [follow_some, hfr] at hmem
      exact hmem
    · have := minimalPeriod_apply hc
      rwa [follow_some, hfr] at this

/-- 閉路の上の頂点から辿ったところも閉路の上にある。 -/
theorem OnCycle.iterate {r s : R} (hc : OnCycle f r) {n : Nat}
    (h : (follow f)^[n] (some r) = some s) : OnCycle f s := by
  obtain ⟨m, hm, hp⟩ := mem_periodicPts.mp hc
  have := hp.apply_iterate n
  rw [h] at this
  exact mk_mem_periodicPts hm this

/-- 閉路の上の頂点には、閉路の上の頂点から辺が入っている。 -/
theorem OnCycle.pred {r : R} (hc : OnCycle f r) : ∃ c, OnCycle f c ∧ f c = some r := by
  obtain ⟨n, hn, hp⟩ := mem_periodicPts.mp hc
  obtain ⟨k, rfl⟩ : ∃ k, n = k + 1 := ⟨n - 1, by omega⟩
  have hback : (follow f)^[k + 1] (some r) = some r := hp.eq
  rw [iterate_succ_apply'] at hback
  cases hk : (follow f)^[k] (some r) with
  | none =>
    rw [hk, follow_none] at hback
    cases hback
  | some c =>
    rw [hk, follow_some] at hback
    exact ⟨c, hc.iterate hk, hback⟩

/-- 閉路の上では、辿れる関係は向きによらない。 -/
theorem Reaches.symm_of_onCycle {a b : R} (hc : OnCycle f a) (h : Reaches f a b) :
    Reaches f b a := by
  obtain ⟨k, hk⟩ := h
  obtain ⟨N, hle, hN⟩ := hc.returns_after k
  refine ⟨N - k, ?_⟩
  rw [← hk, ← iterate_add_apply, Nat.sub_add_cancel hle, hN]

theorem Reaches.trans {a b c : R} (hab : Reaches f a b) (hbc : Reaches f b c) : Reaches f a c := by
  obtain ⟨m, hm⟩ := hab
  obtain ⟨n, hn⟩ := hbc
  exact ⟨n + m, by rw [iterate_add_apply, hm, hn]⟩

/-- 辿った先から辺を一本進む。 -/
theorem Reaches.step {a b c : R} (h : Reaches f a b) (hb : f b = some c) : Reaches f a c :=
  h.trans ⟨1, hb⟩

/-! ## 鳩の巣 -/

/-- 有限の集合のどの頂点にも集合の中から辺が入っているなら、どの頂点も閉路の上にある。
辺を逆に辿る無限の列を作ると、どこかで同じ頂点に戻る。 -/
theorem onCycle_of_preds {S : R → Prop} {keys : List R} (hfin : ∀ x, S x → x ∈ keys)
    (hpred : ∀ x, S x → ∃ d, S d ∧ f d = some x) {x : R} (hx : S x) : OnCycle f x := by
  -- 辺を逆に辿る列
  let b : ℕ → {y // S y} := fun n => Nat.rec ⟨x, hx⟩
    (fun _ y => ⟨(hpred y.1 y.2).choose, (hpred y.1 y.2).choose_spec.1⟩) n
  have hb : ∀ n, f (b (n + 1)).1 = some (b n).1 := fun n => (hpred _ (b n).2).choose_spec.2
  -- `b (i + k)` から `k` 歩で `b i` に着く
  have hback : ∀ i k, (follow f)^[k] (some (b (i + k)).1) = some (b i).1 := by
    intro i k
    induction k with
    | zero => rfl
    | succ k ih => rw [← Nat.add_assoc, iterate_succ_some (hb (i + k)), ih]
  -- 列の値は有限個なので、二つの番号で一致する
  obtain ⟨i, -, j, -, hij, heq⟩ := Set.infinite_univ.exists_ne_map_eq_of_mapsTo
    (f := fun n => (b n).1) (t := {y | y ∈ keys}) (fun n _ => hfin _ (b n).2) keys.finite_toSet
  have hcyc : ∀ i j, i < j → (b i).1 = (b j).1 → OnCycle f x := by
    intro i j hlt he
    have hp : IsPeriodicPt (follow f) (j - i) (some (b j).1) := by
      have := hback i (j - i)
      rwa [Nat.add_sub_cancel' hlt.le, he] at this
    have hj := hback 0 j
    rw [Nat.zero_add] at hj
    exact (show OnCycle f (b j).1 from mk_mem_periodicPts (Nat.sub_pos_of_lt hlt) hp).iterate hj
  rcases Nat.lt_or_gt_of_ne hij with hlt | hlt
  · exact hcyc i j hlt heq
  · exact hcyc j i hlt heq.symm

/-! ## 閉路を列にする -/

@[simp] theorem path_zero (r : R) : path f 0 r = [] := rfl

theorem path_succ_ne_nil (n : Nat) (r : R) : path f (n + 1) r ≠ [] := List.cons_ne_nil _ _

@[simp] theorem path_one (r : R) : path f 1 r = [r] := by
  show r :: (f r).elim [] (path f 0) = [r]
  cases f r <;> rfl

theorem path_succ_of_some {r s : R} (h : f r = some s) (n : Nat) :
    path f (n + 1) r = r :: path f n s := by
  simp only [path, h, Option.elim_some]

/-- 閉路の上の頂点からは `n` 個辿れて、`i` 番目は `i` 歩目の頂点。 -/
theorem path_of_onCycle : ∀ (n : Nat) {r : R}, OnCycle f r →
    (path f n r).length = n ∧
      ∀ i (h : i < (path f n r).length), (follow f)^[i] (some r) = some (path f n r)[i]
  | 0, _, _ => ⟨rfl, fun _ h => absurd h (Nat.not_lt_zero _)⟩
  | n + 1, r, hc => by
    obtain ⟨s, hs, hsc, -⟩ := hc.next
    obtain ⟨hlen, hget⟩ := path_of_onCycle n hsc
    rw [path_succ_of_some hs]
    refine ⟨by rw [List.length_cons, hlen], fun i h => ?_⟩
    cases i with
    | zero => rfl
    | succ i =>
      rw [iterate_succ_some hs, List.getElem_cons_succ]
      exact hget i (by simpa using h)

/-- 閉路を一周した列は重複がない。 -/
theorem nodup_path_minimalPeriod {r : R} (hc : OnCycle f r) :
    (path f (minimalPeriod (follow f) (some r)) r).Nodup := by
  obtain ⟨hlen, hget⟩ := path_of_onCycle (minimalPeriod (follow f) (some r)) hc
  rw [List.nodup_iff_injective_get]
  intro i j hij
  have hi := hget i.1 i.2
  have hj := hget j.1 j.2
  have heq : (follow f)^[i.1] (some r) = (follow f)^[j.1] (some r) := by
    rw [hi, hj]
    exact congrArg some hij
  exact Fin.ext (iterate_injOn_Iio_minimalPeriod (by simpa [hlen] using i.2)
    (by simpa [hlen] using j.2) heq)

section Loop

variable {r : R} (hc : OnCycle f r)
include hc

/-- 閉路の上から辿った列は、辺で順につながる。 -/
theorem path_getElem_succ {n i : Nat} (h : i + 1 < (path f n r).length) :
    f (path f n r)[i] = some (path f n r)[i + 1] := by
  obtain ⟨-, hget⟩ := path_of_onCycle n hc
  have hi := hget i (by omega)
  have hi1 := hget (i + 1) h
  rw [iterate_succ_apply', hi, follow_some] at hi1
  exact hi1

/-- 閉路を一周した列の最後の頂点の次は、最初の頂点。 -/
theorem path_getLast (hne : path f (minimalPeriod (follow f) (some r)) r ≠ []) :
    f ((path f (minimalPeriod (follow f) (some r)) r).getLast hne) = some r := by
  obtain ⟨hlen, hget⟩ := path_of_onCycle (minimalPeriod (follow f) (some r)) hc
  rw [List.getLast_eq_getElem]
  have hlast := hget _ (Nat.sub_lt (List.length_pos_of_ne_nil hne) Nat.one_pos)
  have hback : (follow f)^[(path f (minimalPeriod (follow f) (some r)) r).length - 1 + 1]
      (some r) = some r := by
    rw [Nat.sub_add_cancel (List.length_pos_of_ne_nil hne), hlen]
    exact iterate_minimalPeriod
  rw [iterate_succ_apply', hlast, follow_some] at hback
  exact hback

/-- 閉路を一周した列に並ぶのは、`r` から辿れる頂点ちょうど。 -/
theorem mem_path_iff {s : R} : s ∈ path f (minimalPeriod (follow f) (some r)) r ↔ Reaches f r s := by
  obtain ⟨hlen, hget⟩ := path_of_onCycle (minimalPeriod (follow f) (some r)) hc
  constructor
  · intro hs
    obtain ⟨i, hi, rfl⟩ := List.getElem_of_mem hs
    exact ⟨i, hget i hi⟩
  · rintro ⟨n, hn⟩
    -- 周期で割った余りの歩数でも同じ頂点に着く
    have hmod : n % minimalPeriod (follow f) (some r) <
        (path f (minimalPeriod (follow f) (some r)) r).length := by
      rw [hlen]
      exact Nat.mod_lt _ (minimalPeriod_pos_of_mem_periodicPts hc)
    have := hget _ hmod
    rw [iterate_mod_minimalPeriod_eq, hn, Option.some.injEq] at this
    exact this ▸ List.getElem_mem _

/-- 閉路の上の頂点が `keys` に収まるなら、閉路の長さは `keys` の長さ以下。 -/
theorem minimalPeriod_le_length {keys : List R} (hk : ∀ s, Reaches f r s → s ∈ keys) :
    minimalPeriod (follow f) (some r) ≤ keys.length := by
  have hsub : path f (minimalPeriod (follow f) (some r)) r ⊆ keys :=
    fun s hs => hk s ((mem_path_iff hc).mp hs)
  have hlen := (List.subperm_of_subset (nodup_path_minimalPeriod hc) hsub).length_le
  rwa [(path_of_onCycle _ hc).1] at hlen

end Loop

end Infra.FunGraph
