import Mathlib.Data.List.Sort

/-!
# 重ならない区間の列

区間は `(start, len)` で `[start, start + len)` を表す。`Sep l` は、列の前の区間が後の区間の
始まりまでに終わること。長さが正なら始まりは狭義に増えるので、

* 始まりが同じ二つの区間は同じもの（`Sep.eq_of_fst_eq`）で、始まりで引けば見つかる
  （`Sep.lookup_eq`）。
* 始まりが小さい区間は、大きい区間の始まりまでに終わる（`Sep.le_of_fst_lt`）。
* 始まりで区切った部分列は、区切りごとに並べれば全体になる（`Sep.filter_startsIn_append`）。
-/

namespace Infra.Intervals

/-- 前の区間は、後の区間の始まりまでに終わる。 -/
def Sep (l : List (Nat × Nat)) : Prop := l.Pairwise fun a b => a.1 + a.2 ≤ b.1

/-- 始まりが `[lo, hi)` にある。 -/
def startsIn (lo hi : Nat) (b : Nat × Nat) : Bool := decide (lo ≤ b.1 ∧ b.1 < hi)

/-- 始まりの順に並んだ列に、区間 `b` をその始まりの位置に入れる。 -/
def insertSorted (l : List (Nat × Nat)) (b : Nat × Nat) : List (Nat × Nat) :=
  l.filter (fun a => a.1 < b.1) ++ b :: l.filter (fun a => b.1 < a.1)

/-- 点 `x` を含む区間（列の中で最初のもの）。 -/
def containing (l : List (Nat × Nat)) (x : Nat) : Option (Nat × Nat) :=
  l.find? fun b => decide (b.1 ≤ x ∧ x < b.1 + b.2)

@[simp] theorem startsIn_iff (lo hi : Nat) (b : Nat × Nat) :
    startsIn lo hi b = true ↔ lo ≤ b.1 ∧ b.1 < hi := by
  simp [startsIn]

theorem sep_nil : Sep [] := List.Pairwise.nil

theorem sep_cons {a : Nat × Nat} {l : List (Nat × Nat)} :
    Sep (a :: l) ↔ (∀ b ∈ l, a.1 + a.2 ≤ b.1) ∧ Sep l := List.pairwise_cons

section Pos

variable {l : List (Nat × Nat)} (hs : Sep l) (hpos : ∀ b ∈ l, 0 < b.2)
include hs hpos

/-- 始まりが小さい区間は、大きい区間の始まりまでに終わる。 -/
theorem Sep.le_of_fst_lt {a b : Nat × Nat} (ha : a ∈ l) (hb : b ∈ l) (h : a.1 < b.1) :
    a.1 + a.2 ≤ b.1 := by
  induction l with
  | nil => cases ha
  | cons x t ih =>
    obtain ⟨hx, ht⟩ := sep_cons.mp hs
    have hpos' := fun c (hc : c ∈ t) => hpos c (List.mem_cons_of_mem _ hc)
    rcases List.mem_cons.mp ha with rfl | ha' <;> rcases List.mem_cons.mp hb with rfl | hb'
    · omega
    · exact hx b hb'
    · -- `b` が先頭なら `a` は後ろにあり、`b` の始まりより後で始まる
      have := hx a ha'
      have := hpos b List.mem_cons_self
      omega
    · exact ih ht hpos' ha' hb'

/-- 始まりが同じなら同じ区間。 -/
theorem Sep.eq_of_fst_eq {a b : Nat × Nat} (ha : a ∈ l) (hb : b ∈ l) (h : a.1 = b.1) : a = b := by
  induction l with
  | nil => cases ha
  | cons x t ih =>
    obtain ⟨hx, ht⟩ := sep_cons.mp hs
    have hpos' := fun c (hc : c ∈ t) => hpos c (List.mem_cons_of_mem _ hc)
    have hxpos := hpos x List.mem_cons_self
    rcases List.mem_cons.mp ha with rfl | ha' <;> rcases List.mem_cons.mp hb with rfl | hb'
    · rfl
    · have := hx b hb'
      omega
    · have := hx a ha'
      omega
    · exact ih ht hpos' ha' hb'

/-- 区間の始まりで引くと、その長さ。 -/
theorem Sep.lookup_eq {p z : Nat} (hb : (p, z) ∈ l) : l.lookup p = some z := by
  induction l with
  | nil => cases hb
  | cons x t ih =>
    obtain ⟨hx, ht⟩ := sep_cons.mp hs
    have hpos' := fun c (hc : c ∈ t) => hpos c (List.mem_cons_of_mem _ hc)
    rcases List.mem_cons.mp hb with rfl | hb
    · exact List.lookup_cons_self
    · -- 先頭は `p` より前で終わるので、`p` では引かれない
      have hxp : x.1 ≠ p := by
        have := hx _ hb
        have := hpos x List.mem_cons_self
        omega
      rw [List.lookup_cons, show (p == x.1) = false from beq_false_of_ne (Ne.symm hxp)]
      exact ih ht hpos' hb

/-- `[k, k + z)` の区間があれば、始まりが `[k, k + z)` にあるのはその区間だけ。 -/
theorem Sep.filter_startsIn_self {k z : Nat} (hb : (k, z) ∈ l) :
    l.filter (startsIn k (k + z)) = [(k, z)] := by
  induction l with
  | nil => cases hb
  | cons x t ih =>
    obtain ⟨hx, ht⟩ := sep_cons.mp hs
    have hpos' := fun c (hc : c ∈ t) => hpos c (List.mem_cons_of_mem _ hc)
    rcases List.mem_cons.mp hb with rfl | hb'
    · -- 後ろの区間はどれも `k + z` 以降に始まる
      have hnil : t.filter (startsIn k (k + z)) = [] :=
        List.filter_eq_nil_iff.mpr fun c hc => by
          have := hx c hc
          simp only [startsIn_iff]
          omega
      rw [List.filter_cons_of_pos (by simpa using hpos _ List.mem_cons_self), hnil]
    · have := hx _ hb'
      have := hpos x List.mem_cons_self
      rw [List.filter_cons_of_neg (by simp; omega), ih ht hpos' hb']

/-- 区間の終わりは、どの区間の内側にもない。 -/
theorem Sep.not_inside_end {p z : Nat} (hb : (p, z) ∈ l) :
    ∀ b ∈ l, ¬(b.1 < p + z ∧ p + z < b.1 + b.2) := by
  rintro b hb' ⟨h1, h2⟩
  rcases Nat.lt_trichotomy b.1 p with hlt | heq | hgt
  · have := Sep.le_of_fst_lt hs hpos hb' hb hlt
    omega
  · -- 始まりが同じなら同じ区間で、終わりも同じ
    have := Sep.eq_of_fst_eq hs hpos hb' hb heq
    subst this
    exact Nat.lt_irrefl _ h2
  · have := Sep.le_of_fst_lt hs hpos hb hb' hgt
    omega

/-- 同じ点を含む二つの区間は同じもの。 -/
theorem Sep.eq_of_contains {a b : Nat × Nat} {x : Nat} (ha : a ∈ l) (hb : b ∈ l)
    (ha1 : a.1 ≤ x) (ha2 : x < a.1 + a.2) (hb1 : b.1 ≤ x) (hb2 : x < b.1 + b.2) : a = b := by
  refine Sep.eq_of_fst_eq hs hpos ha hb ?_
  rcases Nat.lt_trichotomy a.1 b.1 with hlt | heq | hgt
  · have := Sep.le_of_fst_lt hs hpos ha hb hlt
    omega
  · exact heq
  · have := Sep.le_of_fst_lt hs hpos hb ha hgt
    omega

/-- `x` を含む区間があれば、`containing` はそれ。 -/
theorem Sep.containing_eq_of_mem {p z x : Nat} (hb : (p, z) ∈ l) (h1 : p ≤ x) (h2 : x < p + z) :
    containing l x = some (p, z) := by
  obtain ⟨b, hbf⟩ : ∃ b, containing l x = some b :=
    Option.isSome_iff_exists.mp (List.find?_isSome.mpr ⟨(p, z), hb, by simp [h1, h2]⟩)
  have hsat := List.find?_some hbf
  simp only [decide_eq_true_eq] at hsat
  rw [hbf, Sep.eq_of_contains hs hpos (List.mem_of_find?_eq_some hbf) hb hsat.1 hsat.2 h1 h2]

/-- **一番近い前の区間で決まる。** `(p, z)` が `x` 以前に始まり、`(p, x]` から始まる区間がなければ、
`x` を含む区間は、`x` が `(p, z)` の中にあるときの `(p, z)` だけ。 -/
theorem Sep.containing_of_last {p z x : Nat} (hb : (p, z) ∈ l) (hpx : p ≤ x)
    (hnext : ∀ b ∈ l, p < b.1 → x < b.1) :
    containing l x = if x < p + z then some (p, z) else none := by
  split
  · exact Sep.containing_eq_of_mem hs hpos hb hpx ‹_›
  · rename_i hx
    refine List.find?_eq_none.mpr fun b hb' hsat => ?_
    simp only [decide_eq_true_eq] at hsat
    rcases Nat.lt_trichotomy b.1 p with hlt | heq | hgt
    · -- 前の区間は `p` までに終わる
      have := Sep.le_of_fst_lt hs hpos hb' hb hlt
      omega
    · have := Sep.eq_of_fst_eq hs hpos hb' hb heq
      subst this
      exact hx hsat.2
    · exact Nat.lt_irrefl _ (Nat.lt_of_le_of_lt hsat.1 (hnext b hb' hgt))

end Pos

/-- `x` 以前に始まる区間がなければ、`x` を含む区間はない。 -/
theorem containing_eq_none {l : List (Nat × Nat)} {x : Nat} (h : ∀ b ∈ l, x < b.1) :
    containing l x = none :=
  List.find?_eq_none.mpr fun b hb hsat => by
    simp only [decide_eq_true_eq] at hsat
    exact Nat.lt_irrefl _ (Nat.lt_of_le_of_lt hsat.1 (h b hb))

/-- 始まりの昇順に並び、始まりが小さい区間が大きい区間の始まりまでに終わるなら、`Sep`。 -/
theorem Sep.of_sorted {l : List (Nat × Nat)} (hs : l.Pairwise (fun a b => a.1 < b.1))
    (h : ∀ a ∈ l, ∀ b ∈ l, a.1 < b.1 → a.1 + a.2 ≤ b.1) : Sep l :=
  hs.imp_of_mem fun ha hb hab => h _ ha _ hb hab

/-- 始まりの順に並んだ列を、始まりの範囲 `[a, c)` で切ると、`[a, b)` と `[b, c)` の部分を並べた
もの。 -/
theorem Sep.filter_startsIn_append {l : List (Nat × Nat)} (hs : Sep l) {a b c : Nat}
    (hab : a ≤ b) (hbc : b ≤ c) :
    l.filter (startsIn a c) = l.filter (startsIn a b) ++ l.filter (startsIn b c) := by
  induction l with
  | nil => rfl
  | cons x t ih =>
    obtain ⟨hx, ht⟩ := sep_cons.mp hs
    by_cases hxb : x.1 < b
    · by_cases hxa : a ≤ x.1
      · rw [List.filter_cons_of_pos (by simp; omega), List.filter_cons_of_pos (by simp; omega),
          List.filter_cons_of_neg (by simp; omega), ih ht, List.cons_append]
      · rw [List.filter_cons_of_neg (by simp; omega), List.filter_cons_of_neg (by simp; omega),
          List.filter_cons_of_neg (by simp; omega), ih ht]
    · -- `x` から後ろはどれも `b` 以降に始まる
      have hge : ∀ y ∈ x :: t, b ≤ y.1 := fun y hy => by
        rcases List.mem_cons.mp hy with rfl | hy
        · omega
        · have := hx y hy
          omega
      have hnil : (x :: t).filter (startsIn a b) = [] :=
        List.filter_eq_nil_iff.mpr fun y hy => by
          have := hge y hy
          simp only [startsIn_iff]
          omega
      rw [hnil, List.nil_append]
      refine List.filter_congr fun y hy => ?_
      have := hge y hy
      simp only [startsIn, decide_eq_decide]
      exact ⟨fun h => ⟨this, h.2⟩, fun h => ⟨by omega, h.2⟩⟩

/-- 空の範囲から始まる区間はない。 -/
theorem filter_startsIn_self_eq_nil (l : List (Nat × Nat)) (a : Nat) :
    l.filter (startsIn a a) = [] :=
  List.filter_eq_nil_iff.mpr fun b _ => by
    simp only [startsIn_iff]
    omega

/-- 範囲 `[a, d)` から始まる区間がなければ、その中の範囲 `[b, c)` から始まる区間もない。 -/
theorem filter_startsIn_eq_nil_of_le {l : List (Nat × Nat)} {a b c d : Nat}
    (h : l.filter (startsIn a d) = []) (hab : a ≤ b) (hcd : c ≤ d) :
    l.filter (startsIn b c) = [] :=
  List.filter_eq_nil_iff.mpr fun x hx hbc => by
    have := List.filter_eq_nil_iff.mp h x hx
    simp only [startsIn_iff] at hbc this
    omega

/-- `range n` の上の `flatMap` で、`i` 番目のほかが空なら、`i` 番目の列。 -/
theorem flatMap_range_eq_of_ne {α : Type} {g : Nat → List α} {n i : Nat} (hi : i < n)
    (hne : ∀ j < n, j ≠ i → g j = []) : (List.range n).flatMap g = g i := by
  induction n with
  | zero => omega
  | succ n ih =>
    rw [List.range_succ, List.flatMap_append, List.flatMap_singleton]
    by_cases hin : i = n
    · subst hin
      rw [List.flatMap_eq_nil_iff.mpr fun j hj => hne j (by simp at hj; omega)
        (by simp at hj; omega), List.nil_append]
    · rw [ih (by omega) fun j hj hji => hne j (by omega) hji, hne n (by omega) (Ne.symm hin),
        List.append_nil]

/-- 始まりが `p` の区間を残す絞り込みは、`p` で引いた結果を変えない。 -/
theorem lookup_filter_of {l : List (Nat × Nat)} {q : Nat × Nat → Bool} {p : Nat}
    (h : ∀ b ∈ l, b.1 = p → q b = true) : (l.filter q).lookup p = l.lookup p := by
  induction l with
  | nil => rfl
  | cons x t ih =>
    have ih' := ih fun b hb => h b (List.mem_cons_of_mem _ hb)
    by_cases hx : x.1 = p
    · rw [List.filter_cons_of_pos (h x List.mem_cons_self hx), List.lookup_cons, List.lookup_cons,
        show (p == x.1) = true from beq_iff_eq.mpr hx.symm]
    · by_cases hq : q x = true
      · rw [List.filter_cons_of_pos hq, List.lookup_cons, List.lookup_cons, ih']
      · rw [List.filter_cons_of_neg hq, ih', List.lookup_cons,
          show (p == x.1) = false from beq_false_of_ne (Ne.symm hx)]

/-- `range n` の上の `flatMap` を `p` で引くと、`p` から始まる区間を持ちうる `i` 番目の列を引くのと
同じ。 -/
theorem lookup_flatMap_range {g : Nat → List (Nat × Nat)} {n i p : Nat} (hi : i < n)
    (hne : ∀ j < n, j ≠ i → ∀ b ∈ g j, b.1 ≠ p) :
    ((List.range n).flatMap g).lookup p = (g i).lookup p := by
  rw [← lookup_filter_of (q := fun b => decide (b.1 = p)) (fun b _ hb => by simp [hb]),
    List.filter_flatMap, flatMap_range_eq_of_ne hi fun j hj hji =>
      List.filter_eq_nil_iff.mpr fun b hb => by simpa using hne j hj hji b hb,
    lookup_filter_of (fun b _ hb => by simp [hb])]

/-! ## 始まりの順の列 -/

/-- 始まりの昇順に並んだ二つの列は、同じ区間を持てば等しい。 -/
theorem eq_of_sorted_of_mem_iff {l₁ l₂ : List (Nat × Nat)}
    (h₁ : l₁.Pairwise (fun a b => a.1 < b.1)) (h₂ : l₂.Pairwise (fun a b => a.1 < b.1))
    (h : ∀ b, b ∈ l₁ ↔ b ∈ l₂) : l₁ = l₂ :=
  have : Std.Irrefl (fun a b : Nat × Nat => a.1 < b.1) := ⟨fun a => Nat.lt_irrefl a.1⟩
  have : Std.Antisymm (fun a b : Nat × Nat => a.1 < b.1) :=
    ⟨fun _ _ h1 h2 => absurd (Nat.lt_trans h1 h2) (Nat.lt_irrefl _)⟩
  List.Pairwise.eq_of_mem_iff h₁ h₂ h

/-- 始まりが `b` と同じ区間がなければ、`insertSorted l b` の区間は `l` の区間と `b`。 -/
theorem mem_insertSorted {l : List (Nat × Nat)} {b : Nat × Nat} (hne : ∀ a ∈ l, a.1 ≠ b.1)
    (x : Nat × Nat) : x ∈ insertSorted l b ↔ x ∈ l ∨ x = b := by
  simp only [insertSorted, List.mem_append, List.mem_cons, List.mem_filter, decide_eq_true_eq]
  constructor
  · rintro (⟨hx, -⟩ | rfl | ⟨hx, -⟩)
    · exact .inl hx
    · exact .inr rfl
    · exact .inl hx
  · rintro (hx | rfl)
    · rcases Nat.lt_trichotomy x.1 b.1 with hlt | heq | hgt
      · exact .inl ⟨hx, hlt⟩
      · exact absurd heq (hne x hx)
      · exact .inr (.inr ⟨hx, hgt⟩)
    · exact .inr (.inl rfl)

/-- 始まりの昇順に並んだ列に入れても、始まりの昇順。 -/
theorem sorted_insertSorted {l : List (Nat × Nat)} (hs : l.Pairwise (fun a b => a.1 < b.1))
    (b : Nat × Nat) : (insertSorted l b).Pairwise (fun a b => a.1 < b.1) := by
  simp only [insertSorted]
  refine List.pairwise_append.mpr ⟨hs.filter _, List.pairwise_cons.mpr ⟨?_, hs.filter _⟩, ?_⟩
  · intro a ha
    exact of_decide_eq_true (List.mem_filter.mp ha).2
  · -- 前の部分は `b` より前に、後の部分は `b` より後に始まる
    intro a ha c hc
    have ha' := of_decide_eq_true (List.mem_filter.mp ha).2
    rcases List.mem_cons.mp hc with rfl | hc
    · exact ha'
    · exact Nat.lt_trans ha' (of_decide_eq_true (List.mem_filter.mp hc).2)

end Infra.Intervals
