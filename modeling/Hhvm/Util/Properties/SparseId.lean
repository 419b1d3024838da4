import Hhvm.Util.SparseId
import Hhvm.Infra.SwapRemove
import Mathlib.Data.Finset.Card

/-!
# `sparse_id_set` と `sparse_id_map` の性質

sparse の中身がどうであっても、dense の先頭 `m_next` 個が要素を一度ずつ並べ、`sparse` がそれらの
位置を指していれば（`Store.Wf`）、`containsImpl` は要素であることと一致する。各操作はこの不変条件を
保ち、要素の列を次のように変える。

* `insert` — 鍵がなければ末尾に足す（挿入順が保たれる）
* `erase`、`&=`、`merge` — 末尾の要素を穴に移す。列は並べ替えを除いて抜き出しになる
* `|=`、`-=`、コピー — 上の繰り返し
* `operator==` — 同じ宇宙で、列が並べ替えで一致すること

-/

namespace Hhvm.SparseId

open Infra.SwapRemove

namespace Store

variable {α : Type} {key : α → Nat} {s : Store α}

/-! ## 不変条件 -/

/-- dense の先頭 `n` 個がどれも宇宙の中の鍵を持ち、sparse がその鍵から位置へ戻る。 -/
def Linked (key : α → Nat) (s : Store α) (n : Nat) : Prop :=
  ∀ i < n, key (s.dense i) < s.universeSize ∧ s.sparse (key (s.dense i)) = i

/-- 到達可能な集合・写像の不変条件。 -/
structure Wf (key : α → Nat) (s : Store α) : Prop where
  next_le : s.next ≤ s.universeSize
  linked : Linked key s s.next

theorem mem_elems {a : α} : a ∈ s.elems ↔ ∃ i < s.next, s.dense i = a := by
  simp [elems]

@[simp] theorem length_elems : s.elems.length = s.next := by
  simp [elems]

/-- sparse から戻れるので、先頭 `n` 個の鍵は位置ごとに違う。 -/
theorem Linked.inj {n i j : Nat} (h : Linked key s n) (hi : i < n) (hj : j < n)
    (he : key (s.dense i) = key (s.dense j)) : i = j := by
  rw [← (h i hi).2, he, (h j hj).2]

theorem Linked.nodup {n : Nat} (h : Linked key s n) :
    (((List.range n).map s.dense).map key).Nodup := by
  rw [List.map_map]
  exact List.nodup_range.map_on fun i hi j hj he =>
    h.inj (List.mem_range.mp hi) (List.mem_range.mp hj) he

theorem Wf.nodup (h : Wf key s) : (s.elems.map key).Nodup := h.linked.nodup

/-- `containsImpl` は、sparse の中身がどうであっても、鍵が dense の先頭にあることと一致する。 -/
theorem Wf.containsImpl_iff (h : Wf key s) {k : Nat} :
    s.containsImpl key k = true ↔ k ∈ s.elems.map key := by
  simp only [containsImpl, Bool.and_eq_true, decide_eq_true_eq, List.mem_map, mem_elems]
  constructor
  · rintro ⟨hlt, hk⟩
    exact ⟨_, ⟨_, hlt, rfl⟩, hk⟩
  · rintro ⟨_, ⟨i, hi, rfl⟩, rfl⟩
    rw [(h.linked i hi).2]
    exact ⟨hi, rfl⟩

/-- 宇宙の中の鍵は重ならないので、まだない鍵を足せる余地が dense に残っている。 -/
theorem Wf.next_lt (h : Wf key s) {k : Nat} (hk : k < s.universeSize)
    (hnot : k ∉ s.elems.map key) : s.next < s.universeSize := by
  have hnd : (k :: s.elems.map key).Nodup := List.nodup_cons.mpr ⟨hnot, h.nodup⟩
  have hsub : k :: s.elems.map key ⊆ List.range s.universeSize := by
    intro j hj
    rcases List.mem_cons.mp hj with rfl | hj
    · exact List.mem_range.mpr hk
    · obtain ⟨_, ha, rfl⟩ := List.mem_map.mp hj
      obtain ⟨i, hi, rfl⟩ := mem_elems.mp ha
      exact List.mem_range.mpr (h.linked i hi).1
  have hlen := (hnd.subperm hsub).length_le
  simp only [List.length_cons, List.length_map, length_elems, List.length_range] at hlen
  omega

/-! ## `insert` -/

@[simp] theorem universeSize_insert (v : α) : (s.insert key v).universeSize = s.universeSize := by
  unfold insert; split <;> rfl

theorem insert_of_contains {v : α} (hc : s.containsImpl key (key v) = true) :
    s.insert key v = s := by
  simp [insert, hc]

theorem Wf.insert_of_not_mem (h : Wf key s) {v : α} (hv : key v < s.universeSize)
    (hnot : key v ∉ s.elems.map key) :
    Wf key (s.insert key v) ∧ (s.insert key v).elems = s.elems ++ [v] := by
  have hc : s.containsImpl key (key v) = false := by
    rw [Bool.eq_false_iff, ne_eq, h.containsImpl_iff]; exact hnot
  simp only [insert, hc, Bool.false_eq_true, if_false]
  refine ⟨⟨h.next_lt hv hnot, ?_⟩, ?_⟩
  · -- 新しい位置 `m_next` と、それより前の位置
    intro i hi
    by_cases hin : i = s.next
    · subst hin
      simp [hv]
    · have hi' : i < s.next := by change i < s.next + 1 at hi; omega
      have hne : key (s.dense i) ≠ key v := fun he =>
        hnot (List.mem_map.mpr ⟨_, mem_elems.mpr ⟨i, hi', rfl⟩, he⟩)
      simp only [Function.update_of_ne hin]
      rw [Function.update_of_ne hne]
      exact h.linked i hi'
  · simp only [elems, List.range_succ, List.map_append, List.map_singleton,
      Function.update_self]
    congr 1
    exact List.map_congr_left fun j hj =>
      Function.update_of_ne (Nat.ne_of_lt (List.mem_range.mp hj)) _ _

/-- `insert(v)`：鍵があれば何もせず、なければ末尾に足す。 -/
theorem Wf.insert (h : Wf key s) {v : α} (hv : key v < s.universeSize) :
    Wf key (s.insert key v) ∧
      (s.insert key v).elems = if key v ∈ s.elems.map key then s.elems else s.elems ++ [v] := by
  by_cases hk : key v ∈ s.elems.map key
  · rw [insert_of_contains (h.containsImpl_iff.mpr hk), if_pos hk]
    exact ⟨h, rfl⟩
  · rw [if_neg hk]
    exact h.insert_of_not_mem hv hk

/-! ## 末尾の要素を穴に移す -/

/-- `erase` と `&=` に共通の一歩：dense の末尾 `n - 1` の要素を `i` に書き、sparse をそこへ向ける。 -/
def moveLast (key : α → Nat) (s : Store α) (i n : Nat) : Store α :=
  { s with
    sparse := Function.update s.sparse (key (s.dense (n - 1))) i
    dense := Function.update s.dense i (s.dense (n - 1)) }

@[simp] theorem universeSize_moveLast (i n : Nat) :
    (s.moveLast key i n).universeSize = s.universeSize := rfl

theorem moveLast_dense_of_ne {i n j : Nat} (hj : j ≠ i) :
    (s.moveLast key i n).dense j = s.dense j :=
  Function.update_of_ne hj _ _

/-- 末尾を `i` に移すと、先頭 `n - 1` 個は再び sparse から戻れる。 -/
theorem Linked.moveLast {n i : Nat} (h : Linked key s n) (hi : i < n) :
    Linked key (s.moveLast key i n) (n - 1) := by
  intro j hj
  have hlast := h (n - 1) (by omega)
  by_cases hji : j = i
  · subst hji
    simp [Store.moveLast, hlast.1]
  · have hne : key (s.dense j) ≠ key (s.dense (n - 1)) := fun he =>
      absurd (h.inj (by omega) (by omega) he) (by omega)
    simp only [Store.moveLast, Function.update_of_ne hji]
    rw [Function.update_of_ne hne]
    exact h j (by omega)

/-- 末尾を移した先頭 `n - 1` 個に消した要素を足すと、もとの先頭 `n` 個の並べ替え。 -/
theorem moveLast_perm (key : α → Nat) {n i : Nat} (hi : i < n) :
    List.Perm ((List.range (n - 1)).map (s.moveLast key i n).dense ++ [s.dense i])
      ((List.range n).map s.dense) :=
  swapRemove_perm s.dense hi

/-! ## `erase` と `clear` -/

/-- `erase(k)` の条件 `didx >= m_next || dense[didx] != k` は `!containsImpl(k)` そのもの。 -/
theorem erase_eq (k : Nat) :
    s.erase key k =
      if s.containsImpl key k then { s.moveLast key (s.sparse k) s.next with next := s.next - 1 }
      else s := by
  unfold erase containsImpl moveLast
  by_cases h : s.sparse k < s.next ∧ key (s.dense (s.sparse k)) = k
  · rw [if_neg (by omega), if_pos (by simp [h.1, h.2])]
  · rw [if_pos (by omega), if_neg (by simpa using fun h1 => by omega)]

@[simp] theorem universeSize_erase (k : Nat) : (s.erase key k).universeSize = s.universeSize := by
  rw [erase_eq]; split <;> rfl

/-- `erase(k)`：鍵 `k` の要素を除いた列の並べ替えになる。 -/
theorem Wf.erase (h : Wf key s) (k : Nat) :
    Wf key (s.erase key k) ∧
      List.Perm (s.erase key k).elems (s.elems.filter fun a => key a ≠ k) := by
  rw [erase_eq]
  by_cases hc : s.containsImpl key k = true
  · rw [if_pos hc]
    have hi : s.sparse k < s.next := by
      simp only [containsImpl, Bool.and_eq_true, decide_eq_true_eq] at hc; exact hc.1
    have hk : key (s.dense (s.sparse k)) = k := by
      simp only [containsImpl, Bool.and_eq_true, decide_eq_true_eq] at hc; exact hc.2
    have hle : s.next - 1 ≤ s.universeSize := by have := h.next_le; omega
    refine ⟨⟨hle, h.linked.moveLast hi⟩, ?_⟩
    have hp := perm_filter_of_perm_append (moveLast_perm key hi) h.nodup
    rw [hk] at hp
    exact hp
  · rw [if_neg hc]
    refine ⟨h, ?_⟩
    rw [List.filter_eq_self.mpr]
    intro a ha
    have hnot : k ∉ s.elems.map key := fun hm => hc (h.containsImpl_iff.mpr hm)
    simpa using fun he => hnot (List.mem_map.mpr ⟨a, ha, he⟩)

@[simp] theorem elems_clear : s.clear.elems = [] := rfl

theorem wf_clear : Wf key s.clear :=
  ⟨Nat.zero_le _, fun _ hi => absurd hi (Nat.not_lt_zero _)⟩

/-! ## 繰り返し：`|=` と `-=` -/

/-- 鍵の重ならない列を順に `insert` すると、まだない鍵の要素がその順で末尾に並ぶ。 -/
theorem Wf.foldl_insert (h : Wf key s) {l : List α} (hnd : (l.map key).Nodup)
    (hU : ∀ a ∈ l, key a < s.universeSize) :
    Wf key (l.foldl (Store.insert key) s) ∧
      (l.foldl (Store.insert key) s).elems = s.elems ++ l.filter fun a => key a ∉ s.elems.map key := by
  induction l generalizing s with
  | nil => exact ⟨h, by simp⟩
  | cons a l ih =>
    obtain ⟨hndl, hnd'⟩ : key a ∉ l.map key ∧ (l.map key).Nodup := List.nodup_cons.mp hnd
    obtain ⟨h₁, he₁⟩ := h.insert (hU a List.mem_cons_self)
    have hU' : ∀ b ∈ l, key b < (s.insert key a).universeSize := by
      simpa using fun b hb => hU b (List.mem_cons_of_mem a hb)
    obtain ⟨h₂, he₂⟩ := ih h₁ hnd' hU'
    refine ⟨h₂, ?_⟩
    -- 残りの列に `key a` はないので、足した後の鍵で濾しても前の鍵で濾しても同じ
    have hfl : ∀ t : List α, l.filter (fun b => key b ∉ (t ++ [a]).map key) =
        l.filter (fun b => key b ∉ t.map key) := by
      intro t
      refine List.filter_congr fun b hb => ?_
      have hba : key b ≠ key a := fun he => hndl (List.mem_map.mpr ⟨b, hb, he⟩)
      simp [hba]
    rw [List.foldl_cons, he₂, he₁]
    by_cases hk : key a ∈ s.elems.map key
    · rw [if_pos hk, List.filter_cons_of_neg (by simpa using hk)]
    · rw [if_neg hk, hfl, List.filter_cons_of_pos (by simpa using hk), List.append_assoc,
        List.singleton_append]

@[simp] theorem universeSize_foldl_insert (l : List α) :
    (l.foldl (Store.insert key) s).universeSize = s.universeSize := by
  induction l generalizing s with
  | nil => rfl
  | cons a l ih => rw [List.foldl_cons, ih, universeSize_insert]

@[simp] theorem universeSize_foldl_erase (l : List Nat) :
    (l.foldl (Store.erase key) s).universeSize = s.universeSize := by
  induction l generalizing s with
  | nil => rfl
  | cons k l ih => rw [List.foldl_cons, ih, universeSize_erase]

/-- 鍵の列を順に `erase` すると、それらの鍵を除いた列の並べ替えになる。 -/
theorem Wf.foldl_erase (h : Wf key s) (l : List Nat) :
    Wf key (l.foldl (Store.erase key) s) ∧
      List.Perm (l.foldl (Store.erase key) s).elems (s.elems.filter fun a => key a ∉ l) := by
  induction l generalizing s with
  | nil => exact ⟨h, by simp⟩
  | cons k l ih =>
    obtain ⟨h₁, hp₁⟩ := h.erase k
    obtain ⟨h₂, hp₂⟩ := ih h₁
    refine ⟨h₂, hp₂.trans ?_⟩
    refine (hp₁.filter _).trans ?_
    rw [List.filter_filter]
    refine List.Perm.of_eq (List.filter_congr fun a _ => ?_)
    simp [Bool.and_comm]

/-! ## 比較 -/

/-- 不変条件を満たす二つの列は、長さが同じで一方が他方に含まれれば並べ替えで一致する。 -/
theorem Wf.perm_iff {o : Store α} (h : Wf key s) :
    List.Perm s.elems o.elems ↔ s.next = o.next ∧ ∀ a ∈ s.elems, a ∈ o.elems := by
  constructor
  · intro hp
    exact ⟨by rw [← length_elems, hp.length_eq, length_elems], fun a ha => hp.subset ha⟩
  · rintro ⟨hn, hsub⟩
    have hsnd : s.elems.Nodup := List.Nodup.of_map key h.nodup
    exact (hsnd.subperm hsub).perm_of_length_le (by simp [hn])

end Store

/-! ## `sparse_id_set` -/

namespace SparseIdSet

variable {s o : SparseIdSet}

theorem containsImpl_iff (h : Store.Wf id s) {t : Nat} : s.containsImpl t = true ↔ t ∈ s.elems := by
  rw [← List.map_id s.elems]
  exact h.containsImpl_iff

/-! ### `&=` -/

theorem andAssignLoop_drop {fwd back : Nat} {t : SparseIdSet} (hlt : fwd < back)
    (hc : o.containsImpl (t.dense fwd) = false) :
    andAssignLoop o fwd back t = andAssignLoop o fwd (back - 1) (t.moveLast id fwd back) := by
  rw [andAssignLoop, if_pos hlt, if_pos (by simp [hc])]
  rfl

theorem andAssignLoop_keep {fwd back : Nat} {t : SparseIdSet} (hlt : fwd < back)
    (hc : o.containsImpl (t.dense fwd) = true) :
    andAssignLoop o fwd back t = andAssignLoop o (fwd + 1) back t := by
  rw [andAssignLoop, if_pos hlt, if_neg (by simp [hc])]

theorem andAssignLoop_done {fwd back : Nat} {t : SparseIdSet} (hge : ¬fwd < back) :
    andAssignLoop o fwd back t = { t with next := back } := by
  rw [andAssignLoop, if_neg hge]

/-- `&=` のループ：`[0, fwd)` は `o` にあり、`[0, back)` は sparse から戻れる。`o` にない要素は
末尾と入れ替えて `back` の外へ出すので、`o` で濾した列は並べ替えを除いて変わらない。 -/
theorem andAssignLoop_spec (o : SparseIdSet) {fwd back : Nat} {t : SparseIdSet} (hfb : fwd ≤ back)
    (hl : Store.Linked id t back) (hdone : ∀ j < fwd, o.containsImpl (t.dense j) = true) :
    (andAssignLoop o fwd back t).universeSize = t.universeSize ∧
      (andAssignLoop o fwd back t).next ≤ back ∧
      Store.Linked id (andAssignLoop o fwd back t) (andAssignLoop o fwd back t).next ∧
      List.Perm (andAssignLoop o fwd back t).elems
        (((List.range back).map t.dense).filter o.containsImpl) := by
  -- 残りの区間 `[fwd, back)` の長さについての帰納法
  obtain ⟨n, hn⟩ : ∃ n, back - fwd = n := ⟨_, rfl⟩
  induction n generalizing fwd back t with
  | zero =>
    have hfb' : fwd = back := by omega
    subst hfb'
    rw [andAssignLoop_done (Nat.lt_irrefl fwd)]
    refine ⟨rfl, le_refl _, hl, ?_⟩
    rw [List.filter_eq_self.mpr]
    · rfl
    · intro a ha
      obtain ⟨j, hj, rfl⟩ := List.mem_map.mp ha
      exact hdone j (List.mem_range.mp hj)
  | succ n ih =>
    have hlt : fwd < back := by omega
    cases hc : o.containsImpl (t.dense fwd) with
    | true =>
      rw [andAssignLoop_keep hlt hc]
      refine ih (by omega) hl (fun j hj => ?_) (by omega)
      rcases Nat.lt_succ_iff_lt_or_eq.mp hj with hj | rfl
      · exact hdone j hj
      · exact hc
    | false =>
      rw [andAssignLoop_drop hlt hc]
      obtain ⟨hU, hle, hL, hp⟩ := @ih fwd (back - 1) (t.moveLast id fwd back) (by omega)
        (hl.moveLast hlt) (fun j hj => by
          rw [Store.moveLast_dense_of_ne (by omega)]; exact hdone j hj) (by omega)
      refine ⟨hU, by omega, hL, hp.trans ?_⟩
      -- 外へ出した `dense[fwd]` は `o` にないので、濾すと消える
      have hmv := (Store.moveLast_perm id hlt (s := t)).filter o.containsImpl
      rw [List.filter_append, List.filter_singleton, hc, cond_false, List.append_nil] at hmv
      exact hmv

/-- `&=`：`o` にある要素だけが残る。 -/
theorem andAssign_spec (h : Store.Wf id s) (ho : Store.Wf id o) :
    Store.Wf id (s.andAssign o) ∧ (s.andAssign o).universeSize = s.universeSize ∧
      List.Perm (s.andAssign o).elems (s.elems.filter fun t => t ∈ o.elems) := by
  obtain ⟨hU, hle, hL, hp⟩ := andAssignLoop_spec o (Nat.zero_le s.next) h.linked
    fun j hj => absurd hj (Nat.not_lt_zero j)
  have hnext : (s.andAssign o).next ≤ (s.andAssign o).universeSize := by
    have := h.next_le
    change (andAssignLoop o 0 s.next s).next ≤ (andAssignLoop o 0 s.next s).universeSize
    omega
  refine ⟨⟨hnext, hL⟩, hU, hp.trans ?_⟩
  exact List.Perm.of_eq (List.filter_congr fun t _ => by
    rw [Bool.eq_iff_iff, containsImpl_iff ho, decide_eq_true_iff])

/-! ### `|=`、`-=`、比較とコピー -/

/-- `|=`：`o` の要素のうち、まだないものが `o` の順で末尾に並ぶ。 -/
theorem orAssign_spec (h : Store.Wf id s) (ho : Store.Wf id o)
    (hU : o.universeSize = s.universeSize) :
    Store.Wf id (s.orAssign o) ∧ (s.orAssign o).universeSize = s.universeSize ∧
      (s.orAssign o).elems = s.elems ++ o.elems.filter fun t => t ∉ s.elems := by
  have hlt : ∀ t ∈ o.elems, t < s.universeSize := by
    intro t ht
    obtain ⟨i, hi, rfl⟩ := Store.mem_elems.mp ht
    exact hU ▸ (ho.linked i hi).1
  have hfold : s.orAssign o = o.elems.foldl (Store.insert id) s := rfl
  obtain ⟨h₁, he⟩ := h.foldl_insert (by simpa using ho.nodup) hlt
  rw [hfold]
  exact ⟨h₁, Store.universeSize_foldl_insert _, by simpa using he⟩

/-- `-=`：`o` にない要素だけが残る。 -/
theorem minusAssign_spec (h : Store.Wf id s) (o : SparseIdSet) :
    Store.Wf id (s.minusAssign o) ∧ (s.minusAssign o).universeSize = s.universeSize ∧
      List.Perm (s.minusAssign o).elems (s.elems.filter fun t => t ∉ o.elems) := by
  have hfold : s.minusAssign o = o.elems.foldl (Store.erase id) s := rfl
  obtain ⟨h₁, hp⟩ := h.foldl_erase o.elems
  rw [hfold]
  exact ⟨h₁, Store.universeSize_foldl_erase _, by simpa using hp⟩

/-- `operator==`：同じ宇宙で、要素の列が並べ替えで一致する。 -/
theorem equal_iff (h : Store.Wf id s) (ho : Store.Wf id o) :
    s.equal o = true ↔ s.universeSize = o.universeSize ∧ List.Perm s.elems o.elems := by
  unfold equal
  rw [Bool.and_eq_true, Bool.and_eq_true, decide_eq_true_iff, decide_eq_true_iff, List.all_eq_true,
    h.perm_iff]
  simp only [size, containsImpl_iff ho, and_assoc]

theorem wf_mk (universeSize : Nat) (sparse dense : Nat → Nat) :
    Store.Wf id (mk universeSize sparse dense) :=
  ⟨Nat.zero_le _, fun _ hi => absurd hi (Nat.not_lt_zero _)⟩

/-- コピー構築：sparse と dense の初めの中身によらず、`o` と同じ列を同じ順で持つ。 -/
theorem copy_spec (ho : Store.Wf id o) (sparse dense : Nat → Nat) :
    Store.Wf id (copy o sparse dense) ∧ (copy o sparse dense).universeSize = o.universeSize ∧
      (copy o sparse dense).elems = o.elems := by
  obtain ⟨h₁, hU, he⟩ := orAssign_spec (wf_mk o.universeSize sparse dense) ho rfl
  refine ⟨h₁, hU, ?_⟩
  rw [copy, he]
  simp [mk, Store.elems]

/-! ### 有限集合への詳細化 -/

/-- 集合が表す有限集合：dense の先頭 `m_next` 個。 -/
def members (s : SparseIdSet) : Finset Nat := s.elems.toFinset

theorem mem_members {t : Nat} : t ∈ s.members ↔ t ∈ s.elems := List.mem_toFinset

theorem containsImpl_iff_mem_members (h : Store.Wf id s) {t : Nat} :
    s.containsImpl t = true ↔ t ∈ s.members := by
  rw [mem_members, containsImpl_iff h]

/-- `size()` は表す有限集合の大きさ。 -/
theorem size_eq_card (h : Store.Wf id s) : s.size = s.members.card := by
  rw [members, List.toFinset_card_of_nodup (by simpa using h.nodup), Store.length_elems, size]

theorem members_insert (h : Store.Wf id s) {t : Nat} (ht : t < s.universeSize) :
    (s.insert t).members = Insert.insert t s.members := by
  have he : (s.insert t).elems = if t ∈ s.elems then s.elems else s.elems ++ [t] := by
    have he₀ := (h.insert ht).2
    rw [List.map_id] at he₀
    exact he₀
  ext j
  rw [members, he, Finset.mem_insert, mem_members]
  split_ifs with hk
  · rw [List.mem_toFinset]
    exact ⟨Or.inr, fun hj => hj.elim (fun he => he ▸ hk) id⟩
  · simp

theorem members_erase (h : Store.Wf id s) (t : Nat) : (s.erase t).members = s.members.erase t := by
  have hp : List.Perm (s.erase t).elems (s.elems.filter fun a => a ≠ t) := (h.erase t).2
  ext j
  rw [members, List.toFinset_eq_of_perm _ _ hp]
  simp [members, and_comm]

theorem members_clear : members s.clear = ∅ := rfl

theorem members_orAssign (h : Store.Wf id s) (ho : Store.Wf id o)
    (hU : o.universeSize = s.universeSize) : (s.orAssign o).members = s.members ∪ o.members := by
  ext j
  rw [members, (orAssign_spec h ho hU).2.2]
  simp only [List.mem_toFinset, List.mem_append, List.mem_filter, decide_not, Bool.not_eq_true',
    decide_eq_false_iff_not, Finset.mem_union, members]
  tauto

theorem members_minusAssign (h : Store.Wf id s) (o : SparseIdSet) :
    (s.minusAssign o).members = s.members \ o.members := by
  ext j
  rw [members, List.toFinset_eq_of_perm _ _ (minusAssign_spec h o).2.2]
  simp [members]

theorem members_andAssign (h : Store.Wf id s) (ho : Store.Wf id o) :
    (s.andAssign o).members = s.members ∩ o.members := by
  ext j
  rw [members, List.toFinset_eq_of_perm _ _ (andAssign_spec h ho).2.2]
  simp [members]

theorem members_copy (ho : Store.Wf id o) (sparse dense : Nat → Nat) :
    (copy o sparse dense).members = o.members := by
  rw [members, (copy_spec ho sparse dense).2.2, members]

/-- 集合 `s` が有限集合 `A` を表す。 -/
structure Refines (s : SparseIdSet) (A : Finset Nat) : Prop where
  wf : Store.Wf id s
  members_eq : s.members = A

theorem Refines.containsImpl_iff {A : Finset Nat} (h : Refines s A) {t : Nat} :
    s.containsImpl t = true ↔ t ∈ A := by
  rw [containsImpl_iff_mem_members h.wf, h.members_eq]

theorem Refines.size_eq {A : Finset Nat} (h : Refines s A) : s.size = A.card := by
  rw [size_eq_card h.wf, h.members_eq]

/-! ### 操作の列 -/

/-- 集合への操作。集合を引数に取る操作の `o` は、`*this` とは別の集合。 -/
inductive Op
  | insert (t : Nat)
  | erase (t : Nat)
  | clear
  | orAssign (o : SparseIdSet)
  | minusAssign (o : SparseIdSet)
  | andAssign (o : SparseIdSet)
  | copy (o : SparseIdSet) (sparse dense : Nat → Nat)

/-- 操作を `*this` に施す（`copy` は `*this` を新しく作った集合で置き換える）。 -/
def Op.apply (s : SparseIdSet) : Op → SparseIdSet
  | .insert t => s.insert t
  | .erase t => s.erase t
  | .clear => s.clear
  | .orAssign o => s.orAssign o
  | .minusAssign o => s.minusAssign o
  | .andAssign o => s.andAssign o
  | .copy o sparse dense => SparseIdSet.copy o sparse dense

/-- 有限集合の上での同じ操作。 -/
def Op.absApply (A : Finset Nat) : Op → Finset Nat
  | .insert t => Insert.insert t A
  | .erase t => A.erase t
  | .clear => ∅
  | .orAssign o => A ∪ o.members
  | .minusAssign o => A \ o.members
  | .andAssign o => A ∩ o.members
  | .copy o _ _ => o.members

/-- 各操作の前提（コードの `assert`）：値は宇宙の中、相手の集合は同じ宇宙で不変条件を満たす。 -/
def Op.Pre (U : Nat) : Op → Prop
  | .insert t | .erase t => t < U
  | .clear => True
  | .orAssign o | .minusAssign o | .andAssign o | .copy o _ _ =>
    Store.Wf id o ∧ o.universeSize = U

/-- 一つの操作は表す有限集合の上の同じ操作になり、宇宙を変えない。 -/
theorem Refines.apply {A : Finset Nat} (h : Refines s A) {op : Op} (hp : op.Pre s.universeSize) :
    Refines (op.apply s) (op.absApply A) ∧ (op.apply s).universeSize = s.universeSize := by
  obtain ⟨hw, rfl⟩ := h
  cases op with
  | insert t => exact ⟨⟨(hw.insert hp).1, members_insert hw hp⟩, Store.universeSize_insert _⟩
  | erase t => exact ⟨⟨(hw.erase t).1, members_erase hw t⟩, Store.universeSize_erase _⟩
  | clear => exact ⟨⟨Store.wf_clear, members_clear⟩, rfl⟩
  | orAssign o =>
    exact ⟨⟨(orAssign_spec hw hp.1 hp.2).1, members_orAssign hw hp.1 hp.2⟩,
      (orAssign_spec hw hp.1 hp.2).2.1⟩
  | minusAssign o =>
    exact ⟨⟨(minusAssign_spec hw o).1, members_minusAssign hw o⟩, (minusAssign_spec hw o).2.1⟩
  | andAssign o =>
    exact ⟨⟨(andAssign_spec hw hp.1).1, members_andAssign hw hp.1⟩, (andAssign_spec hw hp.1).2.1⟩
  | copy o sparse dense =>
    exact ⟨⟨(copy_spec hp.1 sparse dense).1, members_copy hp.1 sparse dense⟩,
      (copy_spec hp.1 sparse dense).2.1.trans hp.2⟩

/-- 作ったばかりの集合は、sparse と dense の中身によらず空集合を表す。 -/
theorem refines_mk (universeSize : Nat) (sparse dense : Nat → Nat) :
    Refines (mk universeSize sparse dense) ∅ :=
  ⟨wf_mk universeSize sparse dense, by simp [members, mk, Store.elems]⟩

end SparseIdSet

/-! ## `sparse_id_map` -/

namespace SparseIdMap

variable {V : Type} {s o : SparseIdMap V}

/-- 鍵 `k` の値：`containsImpl(k)` なら `dense()[sparse()[k]].second`（`operator==` が読むもの）。 -/
def get (s : SparseIdMap V) (k : Nat) : Option V :=
  if s.containsImpl k then some (s.dense (s.sparse k)).2 else none

theorem containsImpl_iff (h : Store.Wf Prod.fst s) {k : Nat} :
    s.containsImpl k = true ↔ k ∈ s.elems.map Prod.fst :=
  h.containsImpl_iff

theorem get_of_containsImpl {k : Nat} (hc : s.containsImpl k = true) :
    s.get k = some (s.dense (s.sparse k)).2 := by
  simp [get, hc]

/-- 値を読めるのは、dense の先頭にその組があるとき。 -/
theorem get_eq_some_iff (h : Store.Wf Prod.fst s) {k : Nat} {v : V} :
    s.get k = some v ↔ (k, v) ∈ s.elems := by
  cases hc : s.containsImpl k with
  | true =>
    have hc' := hc
    simp only [containsImpl, Store.containsImpl, Bool.and_eq_true, decide_eq_true_eq] at hc'
    rw [get_of_containsImpl hc, Option.some.injEq]
    constructor
    · intro he
      exact Store.mem_elems.mpr ⟨_, hc'.1, Prod.ext hc'.2 he⟩
    · intro hm
      obtain ⟨i, hi, hd⟩ := Store.mem_elems.mp hm
      have hsp : s.sparse k = i := by simpa [hd] using (h.linked i hi).2
      rw [hsp, hd]
  | false =>
    simp only [get, hc, Bool.false_eq_true, if_false, reduceCtorEq, false_iff]
    intro hm
    have := (containsImpl_iff h).mpr (List.mem_map.mpr ⟨_, hm, rfl⟩)
    rw [hc] at this
    exact Bool.false_ne_true this

theorem get_eq_none_iff (h : Store.Wf Prod.fst s) {k : Nat} :
    s.get k = none ↔ k ∉ s.elems.map Prod.fst := by
  rw [← containsImpl_iff h]
  cases hc : s.containsImpl k <;> simp [get, hc]

/-! ### `insert`、`erase`、`clear` -/

/-- `insert(v)`：鍵がなければその値で足し、あれば何も変えない（`std::map::insert` と同じ）。 -/
theorem get_insert (h : Store.Wf Prod.fst s) {k : Nat} (v : V) (hk : k < s.universeSize) :
    Store.Wf Prod.fst (s.insert (k, v)) ∧
      (s.insert (k, v)).get = if s.get k = none then Function.update s.get k (some v) else s.get := by
  obtain ⟨h₁, he⟩ : Store.Wf Prod.fst (s.insert (k, v)) ∧ (s.insert (k, v)).elems =
      if k ∈ s.elems.map Prod.fst then s.elems else s.elems ++ [(k, v)] :=
    h.insert (show (k, v).1 < s.universeSize from hk)
  refine ⟨h₁, ?_⟩
  by_cases hn : s.get k = none
  · have hk' : k ∉ s.elems.map Prod.fst := (get_eq_none_iff h).mp hn
    rw [if_pos hn]
    funext j
    apply Option.ext
    intro w
    rw [get_eq_some_iff h₁, he, if_neg hk', List.mem_append, List.mem_singleton]
    by_cases hj : j = k
    · subst hj
      have hjw : (j, w) ∉ s.elems := fun hm => hk' (List.mem_map.mpr ⟨_, hm, rfl⟩)
      simp [hjw, eq_comm]
    · rw [Function.update_of_ne hj, get_eq_some_iff h]
      simp [hj]
  · rw [if_neg hn]
    have hc : s.containsImpl k = true := by
      rw [containsImpl_iff h]; exact not_not.mp fun hk' => hn ((get_eq_none_iff h).mpr hk')
    have hs : s.insert (k, v) = s := Store.insert_of_contains hc
    rw [hs]

/-- 写像の `erase` は、`didx < m_next - 1` の分岐を除けば `Store.erase` と同じ。末尾の要素を自分に
移す場合は書かないだけで、書いても変わらない。 -/
theorem erase_eq_store (k : Nat) : s.erase k = Store.erase Prod.fst s k := by
  unfold erase Store.erase
  by_cases hc : s.sparse k ≥ s.next ∨ (s.dense (s.sparse k)).1 ≠ k
  · rw [if_pos hc, if_pos hc]
  · rw [if_neg hc, if_neg hc]
    split_ifs with hlt
    · rfl
    · have hlast : s.sparse k = s.next - 1 := by omega
      rw [hlast]
      simp only [Function.update_eq_self]

/-- `erase(k)`：鍵 `k` だけが消える。 -/
theorem get_erase (h : Store.Wf Prod.fst s) (k : Nat) :
    Store.Wf Prod.fst (s.erase k) ∧ (s.erase k).get = Function.update s.get k none := by
  rw [erase_eq_store]
  obtain ⟨h₁, hp⟩ := h.erase k
  refine ⟨h₁, funext fun j => Option.ext fun w => ?_⟩
  rw [get_eq_some_iff h₁, hp.mem_iff, List.mem_filter]
  by_cases hj : j = k
  · subst hj
    simp
  · rw [Function.update_of_ne hj, get_eq_some_iff h]
    simp [hj]

theorem get_clear (k : Nat) : get s.clear k = none := by
  simp [get, containsImpl, Store.containsImpl, Store.clear]

/-! ### 値の書き換え：`operator[]` と `merge` -/

/-- `dense[i].second` だけを `x` にする。 -/
def setValueAt (s : SparseIdMap V) (i : Nat) (x : V) : SparseIdMap V :=
  { s with dense := Function.update s.dense i ((s.dense i).1, x) }

@[simp] theorem fst_setValueAt_dense (i : Nat) (x : V) (j : Nat) :
    ((s.setValueAt i x).dense j).1 = (s.dense j).1 := by
  by_cases hj : j = i
  · subst hj
    simp [setValueAt]
  · simp [setValueAt, Function.update_of_ne hj]

theorem Linked.setValueAt {n i : Nat} (x : V) (h : Store.Linked Prod.fst s n) :
    Store.Linked Prod.fst (s.setValueAt i x) n := by
  intro j hj
  rw [fst_setValueAt_dense]
  exact h j hj

@[simp] theorem containsImpl_setValueAt (i : Nat) (x : V) (k : Nat) :
    (s.setValueAt i x).containsImpl k = s.containsImpl k := by
  simp only [containsImpl, Store.containsImpl, fst_setValueAt_dense]
  rfl

/-- 鍵 `k` の位置の値を書き換えると、`k` の値だけが変わる。 -/
theorem get_setValueAt {k : Nat} (hc : s.containsImpl k = true) (x : V) :
    (s.setValueAt (s.sparse k) x).get = Function.update s.get k (some x) := by
  funext j
  by_cases hj : j = k
  · subst hj
    rw [get_of_containsImpl (by rw [containsImpl_setValueAt]; exact hc), Function.update_self]
    simp [setValueAt]
  · rw [Function.update_of_ne hj]
    unfold get
    rw [containsImpl_setValueAt]
    split
    · rename_i hcj
      -- 鍵 `j` の位置は鍵 `k` の位置と違う
      have hne : s.sparse j ≠ s.sparse k := by
        intro he
        have hj' := hcj
        simp only [containsImpl, Store.containsImpl, Bool.and_eq_true, decide_eq_true_eq] at hj' hc
        exact hj (hj'.2.symm.trans ((congrArg (fun i => (s.dense i).1) he).trans hc.2))
      simp [setValueAt, Function.update_of_ne hne]
    · rfl

/-- `operator[](k)` で得た参照の値に `f` を施す：鍵がなければ `V{}` で足してから。 -/
theorem get_subscript (h : Store.Wf Prod.fst s) {k : Nat} (hk : k < s.universeSize) (dflt : V)
    (f : V → V) :
    Store.Wf Prod.fst (s.subscript k dflt f) ∧
      (s.subscript k dflt f).get = Function.update s.get k (some (f ((s.get k).getD dflt))) := by
  cases hc : s.containsImpl k with
  | true =>
    have hs : s.subscript k dflt f = s.setValueAt (s.sparse k) (f (s.dense (s.sparse k)).2) := by
      simp [subscript, hc, setValueAt]
    rw [hs, get_setValueAt hc, get_of_containsImpl hc]
    exact ⟨⟨h.next_le, Linked.setValueAt _ h.linked⟩, rfl⟩
  | false =>
    have hn : s.get k = none := by simp [get, hc]
    obtain ⟨h₁, hg₁⟩ := get_insert h dflt hk
    rw [if_pos hn] at hg₁
    have hv₁ : (s.insert (k, dflt)).get k = some dflt := by rw [hg₁, Function.update_self]
    have hc₁ : (s.insert (k, dflt)).containsImpl k = true := by
      cases hc₁ : (s.insert (k, dflt)).containsImpl k
      · simp [get, hc₁] at hv₁
      · rfl
    have hd₁ : ((s.insert (k, dflt)).dense ((s.insert (k, dflt)).sparse k)).2 = dflt := by
      rw [get_of_containsImpl hc₁, Option.some.injEq] at hv₁; exact hv₁
    have hs : s.subscript k dflt f =
        (s.insert (k, dflt)).setValueAt ((s.insert (k, dflt)).sparse k) (f dflt) := by
      simp [subscript, hc, setValueAt, hd₁]
    rw [hs, get_setValueAt hc₁, hg₁, Function.update_idem, hn, Option.getD_none]
    exact ⟨⟨h₁.next_le, Linked.setValueAt _ h₁.linked⟩, rfl⟩

theorem setValueAt_dense_of_ne {i j : Nat} (x : V) (hj : j ≠ i) : (s.setValueAt i x).dense j = s.dense j :=
  Function.update_of_ne hj _ _

theorem get_eq_some_iff_containsImpl {k : Nat} {v : V} :
    s.get k = some v ↔ s.containsImpl k = true ∧ (s.dense (s.sparse k)).2 = v := by
  cases hc : s.containsImpl k <;> simp [get, hc]

/-! ### `merge` -/

section Merge

variable (o) (valMerge : V → V → V × Bool)

/-- `o` にある鍵の組の、`val_merge` の後の値。 -/
def merged (kv : Nat × V) : Nat × V := (kv.1, (valMerge kv.2 (o.dense (o.sparse kv.1)).2).1)

/-- その組で `merge` が `changed` を立てるか：`o` になくて落とされるか、`val_merge` が真を返す。 -/
def changes (kv : Nat × V) : Bool :=
  !o.containsImpl kv.1 || (valMerge kv.2 (o.dense (o.sparse kv.1)).2).2

variable {o valMerge}

theorem mergeLoop_drop_last {fwd : Nat} {ch : Bool} {t : SparseIdMap V} (hlt : fwd < t.next)
    (hc : o.containsImpl (t.dense fwd).1 = false) (hl : fwd = t.next - 1) :
    mergeLoop o valMerge fwd ch t = mergeLoop o valMerge fwd true { t with next := t.next - 1 } := by
  rw [mergeLoop, if_pos hlt, if_pos (by simp [hc]), if_pos hl]

theorem mergeLoop_drop {fwd : Nat} {ch : Bool} {t : SparseIdMap V} (hlt : fwd < t.next)
    (hc : o.containsImpl (t.dense fwd).1 = false) (hl : fwd ≠ t.next - 1) :
    mergeLoop o valMerge fwd ch t =
      mergeLoop o valMerge fwd true { t.moveLast Prod.fst fwd t.next with next := t.next - 1 } := by
  rw [mergeLoop, if_pos hlt, if_pos (by simp [hc]), if_neg hl]
  rfl

theorem mergeLoop_keep {fwd : Nat} {ch : Bool} {t : SparseIdMap V} (hlt : fwd < t.next)
    (hc : o.containsImpl (t.dense fwd).1 = true) :
    mergeLoop o valMerge fwd ch t =
      mergeLoop o valMerge (fwd + 1) (ch || (valMerge (t.dense fwd).2 (o.dense (o.sparse (t.dense fwd).1)).2).2)
        (t.setValueAt fwd (valMerge (t.dense fwd).2 (o.dense (o.sparse (t.dense fwd).1)).2).1) := by
  rw [mergeLoop, if_pos hlt, if_neg (by simp [hc])]
  rfl

theorem mergeLoop_done {fwd : Nat} {ch : Bool} {t : SparseIdMap V} (hge : ¬fwd < t.next) :
    mergeLoop o valMerge fwd ch t = (t, ch) := by
  rw [mergeLoop, if_neg hge]

/-- `merge` のループ：`[0, fwd)` は済んだ組、`[fwd, m_next)` がまだ見ていない組 `R`。結果の列は
済んだ組に `R` のうち `o` にある組を `val_merge` したものを足した列の並べ替えで、`changed` は
`R` のどれかで立つ。 -/
theorem mergeLoop_spec {fwd : Nat} {ch : Bool} {t : SparseIdMap V}
    (hl : Store.Linked Prod.fst t t.next) (hfwd : fwd ≤ t.next) :
    (mergeLoop o valMerge fwd ch t).1.universeSize = t.universeSize ∧
      (mergeLoop o valMerge fwd ch t).1.next ≤ t.next ∧
      Store.Linked Prod.fst (mergeLoop o valMerge fwd ch t).1 (mergeLoop o valMerge fwd ch t).1.next ∧
      List.Perm (mergeLoop o valMerge fwd ch t).1.elems
        ((List.range fwd).map t.dense ++
          ((((List.range' fwd (t.next - fwd)).map t.dense).filter fun kv => o.containsImpl kv.1).map
            (merged o valMerge))) ∧
      (mergeLoop o valMerge fwd ch t).2 =
        (ch || ((List.range' fwd (t.next - fwd)).map t.dense).any (changes o valMerge)) := by
  -- 残りの組の数 `m_next - fwd` についての帰納法
  obtain ⟨n, hn⟩ : ∃ n, t.next - fwd = n := ⟨_, rfl⟩
  induction n generalizing fwd ch t with
  | zero =>
    have hfwd' : fwd = t.next := by omega
    rw [mergeLoop_done (by omega)]
    refine ⟨rfl, le_refl _, hl, ?_, by simp [hn]⟩
    rw [hn, hfwd']
    simp [Store.elems]
  | succ n ih =>
    have hlt : fwd < t.next := by omega
    have hR : (List.range' fwd (t.next - fwd)).map t.dense =
        t.dense fwd :: (List.range' (fwd + 1) n).map t.dense := by
      rw [hn, List.range'_succ, List.map_cons]
    cases hc : o.containsImpl (t.dense fwd).1 with
    | false =>
      have hch : changes o valMerge (t.dense fwd) = true := by simp [changes, hc]
      have hany : ((List.range' fwd (t.next - fwd)).map t.dense).any (changes o valMerge) = true := by
        rw [hR, List.any_cons, hch, Bool.true_or]
      by_cases hlast : fwd = t.next - 1
      · -- 末尾の組は `m_next` を減らすだけ
        rw [mergeLoop_drop_last hlt hc hlast]
        obtain ⟨hU, hle, hL, hp, hch'⟩ := @ih fwd true { t with next := t.next - 1 }
          (fun j hj => hl j (by simp only at hj; omega)) (by simp only; omega) (by simp only; omega)
        refine ⟨hU, le_trans hle (Nat.sub_le _ _), hL, hp.trans ?_, ?_⟩
        · have hn0 : n = 0 := by omega
          simp only
          rw [show t.next - 1 - fwd = 0 by omega, hR, hn0]
          simp [hc]
        · rw [hch', hany, Bool.or_true]
          simp
      · -- 末尾の組を穴に移す
        rw [mergeLoop_drop hlt hc hlast]
        obtain ⟨hU, hle, hL, hp, hch'⟩ := @ih fwd true
          { t.moveLast Prod.fst fwd t.next with next := t.next - 1 }
          (hl.moveLast hlt) (by simp only; omega) (by simp only; omega)
        refine ⟨hU, le_trans hle (Nat.sub_le _ _), hL, hp.trans ?_, ?_⟩
        · have hpre : (List.range fwd).map (t.moveLast Prod.fst fwd t.next).dense =
              (List.range fwd).map t.dense :=
            List.map_congr_left fun j hj =>
              Store.moveLast_dense_of_ne (Nat.ne_of_lt (List.mem_range.mp hj))
          have hsw := (swapRemove_perm_range' t.dense (le_refl fwd) hlt).filter
            (fun kv => o.containsImpl kv.1)
          rw [List.filter_append, List.filter_singleton, hc, cond_false, List.append_nil] at hsw
          simp only
          rw [hpre]
          exact List.Perm.append_left _ (hsw.map _)
        · rw [hch', hany, Bool.or_true]
          simp
    | true =>
      rw [mergeLoop_keep hlt hc]
      set x := valMerge (t.dense fwd).2 (o.dense (o.sparse (t.dense fwd).1)).2 with hx
      obtain ⟨hU, hle, hL, hp, hch'⟩ := @ih (fwd + 1) (ch || x.2) (t.setValueAt fwd x.1)
        (Linked.setValueAt _ hl) (by simp only [setValueAt]; omega) (by simp only [setValueAt]; omega)
      have hrest : (List.range' (fwd + 1) ((t.setValueAt fwd x.1).next - (fwd + 1))).map
          (t.setValueAt fwd x.1).dense = (List.range' (fwd + 1) n).map t.dense := by
        rw [show (t.setValueAt fwd x.1).next - (fwd + 1) = n by simp only [setValueAt]; omega]
        exact List.map_congr_left fun j hj =>
          setValueAt_dense_of_ne _ (by have := List.mem_range'_1.mp hj; omega)
      have hdone : (List.range (fwd + 1)).map (t.setValueAt fwd x.1).dense =
          (List.range fwd).map t.dense ++ [merged o valMerge (t.dense fwd)] := by
        rw [List.range_succ, List.map_append, List.map_singleton]
        congr 1
        · exact List.map_congr_left fun j hj =>
            setValueAt_dense_of_ne _ (Nat.ne_of_lt (List.mem_range.mp hj))
        · simp [setValueAt, merged, hx]
      rw [hrest, hdone] at hp
      rw [hrest] at hch'
      refine ⟨hU, hle, hL, hp.trans ?_, ?_⟩
      · rw [hR, List.filter_cons_of_pos (by simpa using hc), List.map_cons, List.append_assoc,
          List.singleton_append]
      · rw [hch', hR, List.any_cons]
        simp [changes, hc, hx, Bool.or_assoc]

/-- `merge(o, val_merge)`：`o` にある鍵の組だけが残って値が `val_merge` の結果になり、返り値は
落ちた組か `val_merge` が真を返した組があったか。 -/
theorem merge_spec (h : Store.Wf Prod.fst s) :
    Store.Wf Prod.fst (s.merge o valMerge).1 ∧ (s.merge o valMerge).1.universeSize = s.universeSize ∧
      List.Perm (s.merge o valMerge).1.elems
        ((s.elems.filter fun kv => o.containsImpl kv.1).map (merged o valMerge)) ∧
      (s.merge o valMerge).2 = s.elems.any (changes o valMerge) := by
  have hm : s.merge o valMerge = mergeLoop o valMerge 0 false s := rfl
  obtain ⟨hU, hle, hL, hp, hch⟩ := @mergeLoop_spec _ o valMerge 0 false s h.linked (Nat.zero_le _)
  have hR : (List.range' 0 (s.next - 0)).map s.dense = s.elems := by
    rw [Nat.sub_zero, ← List.range_eq_range']; rfl
  rw [hR] at hp hch
  rw [hm]
  refine ⟨⟨by have := h.next_le; rw [hU]; omega, hL⟩, hU, by simpa using hp, by simpa using hch⟩

/-- `merge` の後の値：両方にある鍵だけが残り、値は `val_merge(this の値, o の値)` の結果。 -/
theorem get_merge (h : Store.Wf Prod.fst s) :
    (s.merge o valMerge).1.get = fun j => (s.get j).bind fun a => (o.get j).map fun b => (valMerge a b).1 := by
  obtain ⟨h₁, -, hp, -⟩ := @merge_spec _ s o valMerge h
  funext j
  apply Option.ext
  intro w
  rw [get_eq_some_iff h₁, hp.mem_iff, List.mem_map]
  simp only [List.mem_filter, Option.bind_eq_some_iff, Option.map_eq_some_iff, get_eq_some_iff h,
    get_eq_some_iff_containsImpl]
  constructor
  · rintro ⟨⟨k, a⟩, ⟨hm, hc⟩, he⟩
    simp only [merged, Prod.mk.injEq] at he
    obtain ⟨rfl, rfl⟩ := he
    exact ⟨a, hm, _, ⟨hc, rfl⟩, rfl⟩
  · rintro ⟨a, hm, b, ⟨hc, rfl⟩, rfl⟩
    exact ⟨(j, a), ⟨hm, hc⟩, rfl⟩

/-- `merge` が真を返すのは、`o` にない鍵があったか、`val_merge` が真を返した鍵があったとき。 -/
theorem merge_changed_iff (h : Store.Wf Prod.fst s) :
    (s.merge o valMerge).2 = true ↔
      ∃ j a, s.get j = some a ∧ (o.get j = none ∨ ∃ b, o.get j = some b ∧ (valMerge a b).2 = true) := by
  rw [(@merge_spec _ s o valMerge h).2.2.2, List.any_eq_true]
  constructor
  · rintro ⟨⟨j, a⟩, hm, hch⟩
    refine ⟨j, a, (get_eq_some_iff h).mpr hm, ?_⟩
    cases hc : o.containsImpl j with
    | false => exact Or.inl (by simp [get, hc])
    | true =>
      simp only [changes, hc, Bool.not_true, Bool.false_or] at hch
      exact Or.inr ⟨_, get_of_containsImpl hc, hch⟩
  · rintro ⟨j, a, hs, ho⟩
    refine ⟨(j, a), (get_eq_some_iff h).mp hs, ?_⟩
    rcases ho with hn | ⟨b, hb, hv⟩
    · have hc : o.containsImpl j = false := by
        cases hc : o.containsImpl j
        · rfl
        · simp [get, hc] at hn
      simp [changes, hc]
    · obtain ⟨hc, rfl⟩ := get_eq_some_iff_containsImpl.mp hb
      simp [changes, hc, hv]

end Merge

/-! ### コピーと比較 -/

/-- コピー構築の一歩：`dense[idx]` を写し、写した鍵の sparse を `idx` にする。 -/
def copyStep (o : SparseIdMap V) (s : SparseIdMap V) (idx : Nat) : SparseIdMap V :=
  { s with
    dense := Function.update s.dense idx (o.dense idx)
    sparse := Function.update s.sparse (o.dense idx).1 idx }

theorem copy_eq (sparse : Nat → Nat) (dense : Nat → Nat × V) :
    copy o sparse dense =
      (List.range o.next).foldl (copyStep o) ⟨o.universeSize, o.next, sparse, dense⟩ := rfl

/-- 先頭 `k` 個を写した後：写した位置は `o` と同じで、その鍵の sparse はその位置を指す。 -/
theorem copyStep_foldl (ho : Store.Linked Prod.fst o o.next) (sparse : Nat → Nat)
    (dense : Nat → Nat × V) {k : Nat} (hk : k ≤ o.next) :
    let c := (List.range k).foldl (copyStep o) ⟨o.universeSize, o.next, sparse, dense⟩
    c.universeSize = o.universeSize ∧ c.next = o.next ∧
      ∀ j < k, c.dense j = o.dense j ∧ c.sparse (o.dense j).1 = j := by
  induction k with
  | zero => exact ⟨rfl, rfl, fun j hj => absurd hj (Nat.not_lt_zero j)⟩
  | succ k ih =>
    obtain ⟨hU, hn, hj⟩ := ih (by omega)
    simp only [List.range_succ, List.foldl_append, List.foldl_cons, List.foldl_nil]
    refine ⟨hU, hn, fun j hjk => ?_⟩
    rcases Nat.lt_succ_iff_lt_or_eq.mp hjk with hjk | rfl
    · -- 前に写した鍵は `o` で重ならないので、後の書き込みに消されない
      have hne : (o.dense j).1 ≠ (o.dense k).1 := fun he =>
        absurd (ho.inj (by omega) (by omega) he) (by omega)
      simp only [copyStep, Function.update_of_ne (Nat.ne_of_lt hjk), Function.update_of_ne hne]
      exact hj j hjk
    · simp [copyStep]

/-- コピー構築：sparse と dense の初めの中身によらず、`o` と同じ組を同じ順で持つ。 -/
theorem copy_spec (ho : Store.Wf Prod.fst o) (sparse : Nat → Nat) (dense : Nat → Nat × V) :
    Store.Wf Prod.fst (copy o sparse dense) ∧ (copy o sparse dense).universeSize = o.universeSize ∧
      (copy o sparse dense).elems = o.elems := by
  obtain ⟨hU, hn, hj⟩ := copyStep_foldl ho.linked sparse dense (le_refl o.next)
  rw [copy_eq]
  have he : ((List.range o.next).foldl (copyStep o) ⟨o.universeSize, o.next, sparse, dense⟩).elems =
      o.elems := by
    unfold Store.elems
    rw [hn]
    exact List.map_congr_left fun j hjm => (hj j (List.mem_range.mp hjm)).1
  refine ⟨⟨by rw [hU, hn]; exact ho.next_le, fun j hjn => ?_⟩, hU, he⟩
  rw [hn] at hjn
  rw [(hj j hjn).1, hU, (hj j hjn).2]
  exact ⟨(ho.linked j hjn).1, rfl⟩

theorem get_copy (ho : Store.Wf Prod.fst o) (sparse : Nat → Nat) (dense : Nat → Nat × V) :
    (copy o sparse dense).get = o.get := by
  obtain ⟨hc, -, he⟩ := copy_spec ho sparse dense
  funext j
  apply Option.ext
  intro w
  rw [get_eq_some_iff hc, he, get_eq_some_iff ho]

/-- 二つの写像の組の列が並べ替えで一致することは、値の読み出しが一致すること。 -/
theorem perm_iff_get_eq (h : Store.Wf Prod.fst s) (ho : Store.Wf Prod.fst o) :
    List.Perm s.elems o.elems ↔ s.get = o.get := by
  constructor
  · intro hp
    funext j
    apply Option.ext
    intro w
    rw [get_eq_some_iff h, get_eq_some_iff ho, hp.mem_iff]
  · intro hg
    refine (List.perm_ext_iff_of_nodup (h.nodup.of_map _) (ho.nodup.of_map _)).mpr ?_
    rintro ⟨k, v⟩
    rw [← get_eq_some_iff h, hg, get_eq_some_iff ho]

/-- `operator==`：同じ宇宙で、どの鍵の値の読み出しも一致する。 -/
theorem equal_iff [DecidableEq V] (h : Store.Wf Prod.fst s) (ho : Store.Wf Prod.fst o) :
    s.equal o = true ↔ s.universeSize = o.universeSize ∧ s.get = o.get := by
  have hkv : ∀ kv : Nat × V,
      (o.containsImpl kv.1 && decide ((o.dense (o.sparse kv.1)).2 = kv.2)) = true ↔ kv ∈ o.elems := by
    rintro ⟨k, v⟩
    rw [Bool.and_eq_true, decide_eq_true_iff, ← get_eq_some_iff_containsImpl, get_eq_some_iff ho]
  unfold equal
  rw [Bool.and_eq_true, Bool.and_eq_true, decide_eq_true_iff, decide_eq_true_iff, List.all_eq_true,
    ← perm_iff_get_eq h ho, h.perm_iff]
  simp only [hkv, and_assoc]

/-- コピー代入 `tmp(o); swap(tmp)` の後は `operator==(o)`。 -/
theorem equal_assign [DecidableEq V] (ho : Store.Wf Prod.fst o) (sparse : Nat → Nat)
    (dense : Nat → Nat × V) : (assign o sparse dense).equal o = true :=
  (equal_iff (copy_spec ho sparse dense).1 ho).mpr
    ⟨(copy_spec ho sparse dense).2.1, get_copy ho sparse dense⟩

/-! ### 有限写像への詳細化 -/

/-- 写像の定義域：dense の先頭 `m_next` 個の鍵。 -/
def dom (s : SparseIdMap V) : Finset Nat := (s.elems.map Prod.fst).toFinset

/-- 写像 `s` が部分関数 `m` を表す。 -/
structure Refines (s : SparseIdMap V) (m : Nat → Option V) : Prop where
  wf : Store.Wf Prod.fst s
  get_eq : s.get = m

theorem Refines.containsImpl_iff {m : Nat → Option V} (h : Refines s m) {k : Nat} :
    s.containsImpl k = true ↔ m k ≠ none := by
  rw [← h.get_eq, ne_eq, get_eq_none_iff h.wf, not_not, SparseIdMap.containsImpl_iff h.wf]

theorem Refines.mem_dom {m : Nat → Option V} (h : Refines s m) {k : Nat} :
    k ∈ s.dom ↔ m k ≠ none := by
  rw [dom, List.mem_toFinset, ← SparseIdMap.containsImpl_iff h.wf, h.containsImpl_iff]

/-- `size()` は定義域の大きさ。 -/
theorem Refines.size_eq {m : Nat → Option V} (h : Refines s m) : s.next = s.dom.card := by
  rw [dom, List.toFinset_card_of_nodup h.wf.nodup, List.length_map, Store.length_elems]

@[simp] theorem universeSize_subscript (k : Nat) (dflt : V) (f : V → V) :
    (s.subscript k dflt f).universeSize = s.universeSize := by
  unfold subscript
  split
  · rfl
  · exact Store.universeSize_insert _

/-! ### 操作の列 -/

/-- 写像への操作。写像を引数に取る操作の `o` は、`*this` とは別の写像。 -/
inductive Op (V : Type)
  | insert (k : Nat) (v : V)
  | erase (k : Nat)
  | subscript (k : Nat) (dflt : V) (f : V → V)
  | clear
  | merge (o : SparseIdMap V) (valMerge : V → V → V × Bool)
  | copy (o : SparseIdMap V) (sparse : Nat → Nat) (dense : Nat → Nat × V)
  | assign (o : SparseIdMap V) (sparse : Nat → Nat) (dense : Nat → Nat × V)

/-- 操作を `*this` に施す。 -/
def Op.apply (s : SparseIdMap V) : Op V → SparseIdMap V
  | .insert k v => s.insert (k, v)
  | .erase k => s.erase k
  | .subscript k dflt f => s.subscript k dflt f
  | .clear => s.clear
  | .merge o valMerge => (s.merge o valMerge).1
  | .copy o sparse dense => SparseIdMap.copy o sparse dense
  | .assign o sparse dense => SparseIdMap.assign o sparse dense

/-- 部分関数の上での同じ操作。`insert` は鍵がないときだけ書く。 -/
def Op.absApply (m : Nat → Option V) : Op V → Nat → Option V
  | .insert k v => if m k = none then Function.update m k (some v) else m
  | .erase k => Function.update m k none
  | .subscript k dflt f => Function.update m k (some (f ((m k).getD dflt)))
  | .clear => fun _ => none
  | .merge o valMerge => fun j => (m j).bind fun a => (o.get j).map fun b => (valMerge a b).1
  | .copy o _ _ => o.get
  | .assign o _ _ => o.get

/-- 各操作の前提（コードの `assert`）。 -/
def Op.Pre (U : Nat) : Op V → Prop
  | .insert k _ | .erase k | .subscript k _ _ => k < U
  | .clear => True
  | .merge o _ | .copy o _ _ | .assign o _ _ => Store.Wf Prod.fst o ∧ o.universeSize = U

/-- 一つの操作は表す部分関数の上の同じ操作になり、宇宙を変えない。 -/
theorem Refines.apply {m : Nat → Option V} (h : Refines s m) {op : Op V}
    (hp : op.Pre s.universeSize) :
    Refines (op.apply s) (op.absApply m) ∧ (op.apply s).universeSize = s.universeSize := by
  obtain ⟨hw, rfl⟩ := h
  cases op with
  | insert k v =>
    obtain ⟨h₁, hg⟩ := get_insert hw v hp
    exact ⟨⟨h₁, hg⟩, Store.universeSize_insert _⟩
  | erase k =>
    obtain ⟨h₁, hg⟩ := get_erase hw k
    refine ⟨⟨h₁, hg⟩, ?_⟩
    show (s.erase k).universeSize = s.universeSize
    rw [erase_eq_store, Store.universeSize_erase]
  | subscript k dflt f =>
    obtain ⟨h₁, hg⟩ := get_subscript hw hp dflt f
    exact ⟨⟨h₁, hg⟩, universeSize_subscript k dflt f⟩
  | clear => exact ⟨⟨Store.wf_clear, funext fun k => get_clear k⟩, rfl⟩
  | merge o valMerge =>
    exact ⟨⟨(merge_spec hw).1, get_merge hw⟩, (merge_spec hw).2.1⟩
  | copy o sparse dense =>
    exact ⟨⟨(copy_spec hp.1 sparse dense).1, get_copy hp.1 sparse dense⟩,
      (copy_spec hp.1 sparse dense).2.1.trans hp.2⟩
  | assign o sparse dense =>
    exact ⟨⟨(copy_spec hp.1 sparse dense).1, get_copy hp.1 sparse dense⟩,
      (copy_spec hp.1 sparse dense).2.1.trans hp.2⟩

/-- **操作の列：どの初めの sparse・dense の中身からでも、各時点の写像は部分関数の上で同じ操作を
した結果を表す。** `containsImpl` と `size()` は `Refines.containsImpl_iff` と `Refines.size_eq` で
それに一致する。 -/
theorem run_refines_partial {m : Nat → Option V} (h : Refines s m) (ops : List (Op V))
    (hp : ∀ op ∈ ops, op.Pre s.universeSize) :
    Refines (ops.foldl Op.apply s) (ops.foldl Op.absApply m) ∧
      (ops.foldl Op.apply s).universeSize = s.universeSize := by
  induction ops generalizing s m with
  | nil => exact ⟨h, rfl⟩
  | cons op ops ih =>
    obtain ⟨h₁, hU₁⟩ := h.apply (hp op List.mem_cons_self)
    obtain ⟨h₂, hU₂⟩ := ih h₁ fun op' hop' => hU₁ ▸ hp op' (List.mem_cons_of_mem op hop')
    exact ⟨h₂, hU₂.trans hU₁⟩

/-- 作ったばかりの写像は、sparse と dense の中身によらず空の部分関数を表す。 -/
theorem refines_mk (universeSize : Nat) (sparse : Nat → Nat) (dense : Nat → Nat × V) :
    Refines (mk universeSize sparse dense) fun _ => none :=
  ⟨⟨Nat.zero_le _, fun _ hi => absurd hi (Nat.not_lt_zero _)⟩,
    funext fun k => get_clear (s := mk universeSize sparse dense) k⟩

/-- 初期化されない中身から、挿入、`operator[]` での更新、削除と挿入の列。 -/
theorem run_refines_insert_subscript :
    Refines ([Op.insert 1 10, .insert 3 30, .subscript 1 0 (· + 1), .erase 3, .insert 2 20].foldl
        Op.apply (mk 4 (fun _ => 2) (fun _ => (1, 5))))
      ([Op.insert 1 10, .insert 3 30, .subscript 1 0 (· + 1), .erase 3, .insert 2 20].foldl
        Op.absApply fun _ => none) ∧
      ([Op.insert 1 10, .insert 3 30, .subscript 1 0 (· + 1), .erase 3, .insert 2 20].foldl
        Op.apply (mk 4 (fun _ => 2) (fun _ => (1, 5)))).universeSize =
        (mk 4 (fun _ => 2) (fun _ => ((1 : Nat), (5 : Nat)))).universeSize := by
  refine run_refines_partial (refines_mk 4 _ _) _ ?_
  simp only [List.mem_cons, List.not_mem_nil, or_false]
  rintro op (rfl | rfl | rfl | rfl | rfl)
  all_goals
    show _ < 4
    decide

end SparseIdMap

end Hhvm.SparseId
