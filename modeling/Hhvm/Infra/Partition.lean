import Mathlib.Logic.Relation
import Mathlib.Data.Finset.Card
import Mathlib.Data.Finset.Image
import Mathlib.Data.List.Perm.Basic

/-!
# 対が生成する分割

対の列 `ms` が生成する同値関係 `Conn ms` と、それを写像で表すこと。

* `Represents s f E`：`s` の上で `f x = f y` と `E x y` が同じ。併合（`Represents.merge`）と
  新しい要素の追加（`Represents.insert`）で保たれる。
* 表す写像の像の大きさは同値類の数（`Represents.card_image`）。
* `group key l` は `l` を `key` の値ごとに集めた列で、表す写像で集めれば同値類を一つずつ
  並べたものになる（`listing_group`）。
-/

namespace Infra.Partition

variable {α β : Type*}

/-- 対の列が生成する同値関係。 -/
def Conn (ms : List (α × α)) : α → α → Prop := Relation.EqvGen (fun a b => (a, b) ∈ ms)

/-- `s` の上で、`f` の値が等しいことと `E` が同じ。 -/
def Represents (s : List α) (f : α → β) (E : α → α → Prop) : Prop :=
  ∀ x ∈ s, ∀ y ∈ s, f x = f y ↔ E x y

/-- 同値類の数。 -/
noncomputable def classCount (E : α → α → Prop) (s : List α) : Nat := by
  classical
  exact (s.toFinset.image fun x => {y | y ∈ s ∧ E x y}).card

/-- `out` は `s` の同値類を一つずつ並べたもの：合わせると `s` で、どの組もある要素の類そのもの。 -/
def Listing (E : α → α → Prop) (s : List α) (out : List (List α)) : Prop :=
  out.flatten.Perm s ∧ ∀ g ∈ out, ∃ x ∈ g, ∀ y, y ∈ g ↔ y ∈ s ∧ E x y

/-! ## 生成された同値関係 -/

section Conn

variable {ms : List (α × α)}

theorem Conn.equivalence (ms : List (α × α)) : Equivalence (Conn ms) :=
  Relation.EqvGen.is_equivalence _

theorem conn_of_mem {a b : α} (h : (a, b) ∈ ms) : Conn ms a b := Relation.EqvGen.rel a b h

theorem Conn.append {x y : α} (ms' : List (α × α)) (h : Conn ms x y) : Conn (ms ++ ms') x y :=
  Relation.EqvGen.mono (fun _ _ hab => List.mem_append_left _ hab) x y h

/-- 生成する対で値の等しい写像は、生成された関係でも値が等しい。 -/
theorem Conn.eq_of_pairs {g : α → β} (hg : ∀ p ∈ ms, g p.1 = g p.2) {x y : α} (h : Conn ms x y) :
    g x = g y := by
  induction h with
  | rel a b hab => exact hg (a, b) hab
  | refl => rfl
  | symm _ _ _ ih => exact ih.symm
  | trans _ _ _ _ _ ih1 ih2 => exact ih1.trans ih2

/-- どの対にも現れない要素は、自分とだけつながる。 -/
theorem Conn.eq_of_not_mem [DecidableEq α] {s : List α} (hms : ∀ p ∈ ms, p.1 ∈ s ∧ p.2 ∈ s)
    {x y : α} (hx : x ∉ s) (h : Conn ms x y) : x = y := by
  have hk := h.eq_of_pairs (g := fun z => if z ∈ s then none else some z)
    (fun p hp => by rw [if_pos (hms p hp).1, if_pos (hms p hp).2])
  rw [if_neg hx] at hk
  split at hk
  · exact absurd hk (Option.some_ne_none x)
  · exact Option.some_inj.mp hk

end Conn

/-! ## 表す写像 -/

section Represents

variable {s : List α} {f : α → β} {ms : List (α × α)}

/-- 同じ類の二つを併合しても、類は変わらない。 -/
theorem Represents.merge_same {a b : α} (hf : Represents s f (Conn ms))
    (hms : ∀ p ∈ ms, p.1 ∈ s ∧ p.2 ∈ s) (hab : f a = f b) :
    Represents s f (Conn (ms ++ [(a, b)])) := by
  intro x hx y hy
  refine ⟨fun hxy => ((hf x hx y hy).mp hxy).append _, fun h => h.eq_of_pairs ?_⟩
  intro p hp
  rcases List.mem_append.mp hp with hp | hp
  · exact (hf _ (hms p hp).1 _ (hms p hp).2).mpr (conn_of_mem hp)
  · rw [List.mem_singleton.mp hp]
    exact hab

/-- 二つの類を併合する：`v` の類の値を `u` に付け替えた写像が、対を足した関係を表す。 -/
theorem Represents.merge [DecidableEq β] {a b : α} {u v : β}
    (hf : Represents s f (Conn ms)) (hms : ∀ p ∈ ms, p.1 ∈ s ∧ p.2 ∈ s) (ha : a ∈ s)
    (hb : b ∈ s) (huv : (u = f a ∧ v = f b) ∨ (u = f b ∧ v = f a)) {g : α → β}
    (hg : ∀ x, g x = if f x = v then u else f x) :
    Represents s g (Conn (ms ++ [(a, b)])) := by
  have E := Conn.equivalence (ms ++ [(a, b)])
  have hab : Conn (ms ++ [(a, b)]) a b :=
    conn_of_mem (List.mem_append_right _ (List.mem_singleton_self _))
  have hE : ∀ z ∈ s, ∀ w ∈ s, f z = f w → Conn (ms ++ [(a, b)]) z w :=
    fun z hz w hw h => ((hf z hz w hw).mp h).append _
  intro x hx y hy
  constructor
  · intro hxy
    rw [hg x, hg y] at hxy
    -- どちらが `v` の類にいたかで四通り。片方だけなら、足した対を一度通る
    by_cases hxv : f x = v <;> by_cases hyv : f y = v
    · exact hE x hx y hy (hxv.trans hyv.symm)
    · rw [if_pos hxv, if_neg hyv] at hxy
      rcases huv with ⟨hu, hv⟩ | ⟨hu, hv⟩
      · exact E.trans (E.trans (hE x hx b hb (hxv.trans hv)) (E.symm hab))
          (hE a ha y hy (hu.symm.trans hxy))
      · exact E.trans (E.trans (hE x hx a ha (hxv.trans hv)) hab)
          (hE b hb y hy (hu.symm.trans hxy))
    · rw [if_neg hxv, if_pos hyv] at hxy
      rcases huv with ⟨hu, hv⟩ | ⟨hu, hv⟩
      · exact E.trans (E.trans (hE x hx a ha (hxy.trans hu)) hab)
          (hE b hb y hy (hyv.trans hv).symm)
      · exact E.trans (E.trans (hE x hx b hb (hxy.trans hu)) (E.symm hab))
          (hE a ha y hy (hyv.trans hv).symm)
    · rw [if_neg hxv, if_neg hyv] at hxy
      exact hE x hx y hy hxy
  · intro h
    refine h.eq_of_pairs fun p hp => ?_
    rcases List.mem_append.mp hp with hp | hp
    · rw [hg, hg, (hf _ (hms p hp).1 _ (hms p hp).2).mpr (conn_of_mem hp)]
    · -- 足した対の両端は、どちらも `u` の類に入る
      rw [List.mem_singleton.mp hp, hg a, hg b]
      rcases huv with ⟨hu, hv⟩ | ⟨hu, hv⟩
      · rw [if_pos hv.symm]
        split
        · rfl
        · exact hu.symm
      · rw [if_pos hv.symm]
        split
        · rfl
        · exact hu

/-- 新しい要素は、どの類の値とも違う値で自分だけの類になる。 -/
theorem Represents.insert [DecidableEq α] {x : α} (hf : Represents s f (Conn ms))
    (hms : ∀ p ∈ ms, p.1 ∈ s ∧ p.2 ∈ s) (hx : x ∉ s) {g : α → β} (hg : ∀ y ∈ s, g y = f y)
    (hgx : ∀ y ∈ s, g x ≠ f y) : Represents (s ++ [x]) g (Conn ms) := by
  have hnot : ∀ y ∈ s, ¬Conn ms x y := fun y hy h => hx (h.eq_of_not_mem hms hx ▸ hy)
  intro y hy z hz
  rcases List.mem_append.mp hy with hy | hy <;> rcases List.mem_append.mp hz with hz | hz
  · rw [hg y hy, hg z hz]
    exact hf y hy z hz
  · rw [List.mem_singleton.mp hz, hg y hy]
    exact ⟨fun h => absurd h.symm (hgx y hy),
      fun h => absurd ((Conn.equivalence ms).symm h) (hnot y hy)⟩
  · rw [List.mem_singleton.mp hy, hg z hz]
    exact ⟨fun h => absurd h (hgx z hz), fun h => absurd h (hnot z hz)⟩
  · rw [List.mem_singleton.mp hy, List.mem_singleton.mp hz]
    exact ⟨fun _ => (Conn.equivalence ms).refl x, fun _ => rfl⟩

end Represents

/-! ## 同値類の数 -/

section Count

/-- 値の等しさが同じ二つの写像は、像の大きさも同じ。 -/
theorem card_image_congr {γ : Type*} [DecidableEq β] [DecidableEq γ] {s : Finset α} {f : α → β}
    {g : α → γ} (h : ∀ x ∈ s, ∀ y ∈ s, f x = f y ↔ g x = g y) :
    (s.image f).card = (s.image g).card := by
  -- どちらの像も、対 `(f x, g x)` の像から片方を取り出したもので、取り出しは単射
  have hpair : ∀ x ∈ s, ∀ y ∈ s, (f x, g x) = (f y, g y) ↔ f x = f y := fun x hx y hy =>
    ⟨fun e => congrArg Prod.fst e, fun e => Prod.ext e ((h x hx y hy).mp e)⟩
  have hf : (s.image f).card = (s.image fun x => (f x, g x)).card := by
    show (s.image (Prod.fst ∘ fun x => (f x, g x))).card = _
    rw [← Finset.image_image]
    refine Finset.card_image_of_injOn fun p hp q hq hpq => ?_
    obtain ⟨x, hx, rfl⟩ := Finset.mem_image.mp hp
    obtain ⟨y, hy, rfl⟩ := Finset.mem_image.mp hq
    exact (hpair x hx y hy).mpr hpq
  have hg : (s.image g).card = (s.image fun x => (f x, g x)).card := by
    show (s.image (Prod.snd ∘ fun x => (f x, g x))).card = _
    rw [← Finset.image_image]
    refine Finset.card_image_of_injOn fun p hp q hq hpq => ?_
    obtain ⟨x, hx, rfl⟩ := Finset.mem_image.mp hp
    obtain ⟨y, hy, rfl⟩ := Finset.mem_image.mp hq
    exact (hpair x hx y hy).mpr ((h x hx y hy).mpr hpq)
  rw [hf, hg]

/-- 同値関係を表す写像の像の大きさは、同値類の数。 -/
theorem Represents.card_image [DecidableEq α] [DecidableEq β] {s : List α} {f : α → β}
    {E : α → α → Prop} (hf : Represents s f E) (hE : Equivalence E) :
    (s.toFinset.image f).card = classCount E s := by
  classical
  unfold classCount
  -- `classCount` の `toFinset` は古典的な決定手続きを使うが、`Finset` は同じ
  convert card_image_congr (s := s.toFinset) (g := fun x => {y | y ∈ s ∧ E x y}) ?_
  intro x hx y hy
  rw [List.mem_toFinset] at hx hy
  rw [hf x hx y hy]
  constructor
  · intro hxy
    ext z
    exact and_congr_right fun _ => ⟨fun hxz => hE.trans (hE.symm hxy) hxz, hE.trans hxy⟩
  · intro hc
    have hmem : y ∈ {z | z ∈ s ∧ E y z} := ⟨hy, hE.refl y⟩
    rw [← hc] at hmem
    exact hmem.2

end Count

/-! ## 値ごとに集める -/

section Group

variable [DecidableEq β] (key : α → β)

/-- 値 `k` の組の末尾に `x` を足す。組がなければ最後に作る。 -/
def push : List (β × List α) → β → α → List (β × List α)
  | [], k, x => [(k, [x])]
  | (k', xs) :: rest, k, x => if k' = k then (k', xs ++ [x]) :: rest else (k', xs) :: push rest k x

/-- `l` を先頭から、`key` の値ごとの組に集める。 -/
def group (l : List α) : List (β × List α) := l.foldl (fun gs x => push gs (key x) x) []

/-- `group` が作る組の値の列：初めて現れた順。 -/
def keysOf (l : List α) : List β :=
  l.foldl (fun ks x => if key x ∈ ks then ks else ks ++ [key x]) []

/-- 値 `k` の組は、`l` のうち値が `k` のもの。 -/
def classOf (l : List α) (k : β) : β × List α := (k, l.filter (key · = k))

theorem filter_append_singleton_of_ne (l : List α) (x : α) {k : β} (h : key x ≠ k) :
    (l ++ [x]).filter (key · = k) = l.filter (key · = k) := by
  rw [List.filter_append, List.filter_singleton]
  simp [h]

theorem push_classOf (l : List α) (x : α) :
    ∀ ks : List β, ks.Nodup → (∀ y ∈ l, key y = key x → key x ∈ ks) →
      push (ks.map (classOf key l)) (key x) x =
        (if key x ∈ ks then ks else ks ++ [key x]).map (classOf key (l ++ [x])) := by
  intro ks
  induction ks with
  | nil =>
    intro _ hl
    -- どの要素も値 `key x` を持たないので、新しい組は `[x]`
    have hnone : l.filter (key · = key x) = [] :=
      List.filter_eq_nil_iff.mpr fun y hy hyx => by simpa using hl y hy (by simpa using hyx)
    simp [push, classOf, List.filter_append, hnone]
  | cons k ks ih =>
    intro hnd hl
    have hk : k ∉ ks := (List.nodup_cons.mp hnd).1
    rw [List.map_cons, classOf, push]
    by_cases hkx : k = key x
    · -- 先頭の組が値 `key x` の組：`x` はそこに入り、他の組は変わらない
      subst hkx
      rw [if_pos rfl, if_pos List.mem_cons_self, List.map_cons]
      congr 1
      · rw [classOf, List.filter_append, List.filter_singleton]
        simp
      · refine List.map_congr_left fun k' hk' => ?_
        have hne : key x ≠ k' := fun h => hk (h ▸ hk')
        rw [classOf, classOf, filter_append_singleton_of_ne key l x hne]
    · have hl' : ∀ y ∈ l, key y = key x → key x ∈ ks := fun y hy hyx =>
        (List.mem_cons.mp (hl y hy hyx)).resolve_left (Ne.symm hkx)
      have hmem : key x ∈ k :: ks ↔ key x ∈ ks :=
        ⟨fun h => (List.mem_cons.mp h).resolve_left (Ne.symm hkx), List.mem_cons_of_mem _⟩
      have hhead : (k, l.filter (key · = k)) = classOf key (l ++ [x]) k := by
        rw [classOf, filter_append_singleton_of_ne key l x (Ne.symm hkx)]
      rw [if_neg hkx, ih (List.nodup_cons.mp hnd).2 hl', hhead]
      by_cases hx : key x ∈ ks
      · rw [if_pos hx, if_pos (hmem.mpr hx), List.map_cons]
      · rw [if_neg hx, if_neg (fun h => hx (hmem.mp h)), List.cons_append, List.map_cons]

theorem keysOf_append (l : List α) (x : α) :
    keysOf key (l ++ [x]) = if key x ∈ keysOf key l then keysOf key l else keysOf key l ++ [key x] := by
  rw [keysOf, List.foldl_append]
  rfl

theorem group_append (l : List α) (x : α) : group key (l ++ [x]) = push (group key l) (key x) x := by
  rw [group, List.foldl_append]
  rfl

theorem mem_keysOf {l : List α} {k : β} : k ∈ keysOf key l ↔ ∃ y ∈ l, key y = k := by
  induction l using List.reverseRecOn with
  | nil => simp [keysOf]
  | append_singleton l x ih =>
    rw [keysOf_append]
    split
    · -- `key x` はすでに値の列にある
      rename_i hx
      constructor
      · intro hk
        obtain ⟨y, hy, hyk⟩ := ih.mp hk
        exact ⟨y, List.mem_append_left _ hy, hyk⟩
      · rintro ⟨y, hy, rfl⟩
        rcases List.mem_append.mp hy with hy | hy
        · exact ih.mpr ⟨y, hy, rfl⟩
        · rw [List.mem_singleton.mp hy]
          exact hx
    · rw [List.mem_append, ih, List.mem_singleton]
      constructor
      · rintro (⟨y, hy, hyk⟩ | rfl)
        · exact ⟨y, List.mem_append_left _ hy, hyk⟩
        · exact ⟨x, List.mem_append_right _ List.mem_cons_self, rfl⟩
      · rintro ⟨y, hy, hyk⟩
        rcases List.mem_append.mp hy with hy | hy
        · exact Or.inl ⟨y, hy, hyk⟩
        · rw [List.mem_singleton.mp hy] at hyk
          exact Or.inr hyk.symm

theorem nodup_keysOf (l : List α) : (keysOf key l).Nodup := by
  induction l using List.reverseRecOn with
  | nil => exact List.nodup_nil
  | append_singleton l x ih =>
    rw [keysOf_append]
    split
    · exact ih
    · rename_i hx
      exact List.Nodup.append ih (List.nodup_singleton _)
        (fun _ ha hb => hx (List.mem_singleton.mp hb ▸ ha))

/-- 集めた組は、値の列の順に、その値を持つ要素を並べたもの。 -/
theorem group_eq (l : List α) : group key l = (keysOf key l).map (classOf key l) := by
  induction l using List.reverseRecOn with
  | nil => rfl
  | append_singleton l x ih =>
    rw [group_append, ih, push_classOf key l x _ (nodup_keysOf key l)
      (fun y hy hyx => (mem_keysOf key).mpr ⟨y, hy, hyx⟩), keysOf_append]

/-- 重なりのない値の列で `l` を分けた組をつなぐと、`l` の並べ替え。 -/
theorem flatten_filter_perm :
    ∀ (ks : List β) (l : List α), ks.Nodup → (∀ y ∈ l, key y ∈ ks) →
      (ks.map fun k => l.filter (key · = k)).flatten.Perm l := by
  intro ks
  induction ks with
  | nil =>
    intro l _ hl
    rw [List.eq_nil_iff_forall_not_mem.mpr fun y hy => List.not_mem_nil (hl y hy)]
    rfl
  | cons k ks ih =>
    intro l hnd hl
    have hk : k ∉ ks := (List.nodup_cons.mp hnd).1
    -- 値 `k` 以外の要素だけを残した列で、残りの組を作り直す
    have hrest : (ks.map fun k' => l.filter (key · = k')) =
        ks.map fun k' => (l.filter fun y => !decide (key y = k)).filter (key · = k') := by
      refine List.map_congr_left fun k' hk' => ?_
      rw [List.filter_filter]
      refine List.filter_congr fun y _ => ?_
      by_cases hy : key y = k'
      · have hne : key y ≠ k := fun h => hk (h ▸ hy ▸ hk')
        simp [hy, hy ▸ hne]
      · simp [hy]
    have hl' : ∀ y ∈ l.filter (fun y => !decide (key y = k)), key y ∈ ks := by
      intro y hy
      rw [List.mem_filter] at hy
      have hne : key y ≠ k := by simpa using hy.2
      exact (List.mem_cons.mp (hl y hy.1)).resolve_left hne
    rw [List.map_cons, List.flatten_cons, hrest]
    exact ((ih _ (List.nodup_cons.mp hnd).2 hl').append_left _).trans
      (List.filter_append_perm _ l)

/-- 表す写像で集めた組は、同値類を一つずつ並べたもの。 -/
theorem listing_group {E : α → α → Prop} {s l : List α} (hf : Represents s key E) (hl : l.Perm s) :
    Listing E s ((group key l).map Prod.snd) := by
  rw [group_eq, List.map_map]
  refine ⟨(flatten_filter_perm key _ l (nodup_keysOf key l)
    fun y hy => (mem_keysOf key).mpr ⟨y, hy, rfl⟩).trans hl, ?_⟩
  intro g hg
  obtain ⟨k, hk, rfl⟩ := List.mem_map.mp hg
  obtain ⟨y0, hy0, hk0⟩ := (mem_keysOf key).mp hk
  refine ⟨y0, List.mem_filter.mpr ⟨hy0, by simpa using hk0⟩, fun y => ?_⟩
  show y ∈ l.filter (key · = k) ↔ _
  rw [List.mem_filter, hl.mem_iff, decide_eq_true_iff]
  constructor
  · rintro ⟨hy, hyk⟩
    exact ⟨hy, (hf y0 (hl.mem_iff.mp hy0) y hy).mp (hk0.trans hyk.symm)⟩
  · rintro ⟨hy, hE⟩
    exact ⟨hy, (((hf y0 (hl.mem_iff.mp hy0) y hy).mpr hE).symm.trans hk0)⟩

end Group

end Infra.Partition
