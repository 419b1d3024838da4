import Mathlib.Data.List.Nodup

/-!
# 挿入順の有限写像

key と値の組の列で、key が重ならないもの。順序は挿入の順である。

* `set` — key があればその場で値を書き換え、無ければ末尾に足す
* `setIfAbsent` — key があれば何もせず、無ければ末尾に足す
* `erase` — その key の組だけを除き、残りの順序は変えない
* `get?` — key の値

hash 表で実装された辞書（`Hhvm/Array/`）の抽象の側である。
-/

namespace Infra.OrderedMap

variable {K V : Type} [DecidableEq K]

/-- key の列。 -/
def keys (m : List (K × V)) : List K := m.map Prod.fst

/-- key の値。 -/
def get? : List (K × V) → K → Option V
  | [], _ => none
  | (k', v) :: m, k => if k' = k then some v else get? m k

/-- key があれば値を書き換え、無ければ末尾に足す。 -/
def set (m : List (K × V)) (k : K) (v : V) : List (K × V) :=
  if k ∈ keys m then m.map (fun p => if p.1 = k then (k, v) else p) else m ++ [(k, v)]

/-- key が無いときだけ末尾に足す。 -/
def setIfAbsent (m : List (K × V)) (k : K) (v : V) : List (K × V) :=
  if k ∈ keys m then m else m ++ [(k, v)]

/-- key の組を除く。 -/
def erase (m : List (K × V)) (k : K) : List (K × V) := m.filter (fun p => decide (p.1 ≠ k))

omit [DecidableEq K] in
@[simp] theorem keys_nil : keys ([] : List (K × V)) = [] := rfl

omit [DecidableEq K] in
@[simp] theorem keys_cons (p : K × V) (m : List (K × V)) : keys (p :: m) = p.1 :: keys m := rfl

omit [DecidableEq K] in
@[simp] theorem keys_append (m m' : List (K × V)) : keys (m ++ m') = keys m ++ keys m' := by
  simp [keys]

@[simp] theorem get?_nil (k : K) : get? ([] : List (K × V)) k = none := rfl

theorem get?_cons (k' k : K) (v : V) (m : List (K × V)) :
    get? ((k', v) :: m) k = if k' = k then some v else get? m k := rfl

/-! ## `get?` と `keys` -/

theorem get?_eq_none_iff (m : List (K × V)) (k : K) : get? m k = none ↔ k ∉ keys m := by
  induction m with
  | nil => simp
  | cons p m ih =>
    obtain ⟨k', v⟩ := p
    rw [get?_cons]
    by_cases h : k' = k
    · subst h; simp
    · simp [h, ih, Ne.symm h]

theorem get?_append_of_not_mem {m : List (K × V)} {k : K} (hk : k ∉ keys m) (m' : List (K × V)) :
    get? (m ++ m') k = get? m' k := by
  induction m with
  | nil => rfl
  | cons p m ih =>
    obtain ⟨k', v⟩ := p
    simp only [keys_cons, List.mem_cons, not_or] at hk
    rw [List.cons_append, get?_cons, if_neg (Ne.symm hk.1), ih hk.2]

theorem get?_append_of_mem {m : List (K × V)} {k : K} (hk : k ∈ keys m) (m' : List (K × V)) :
    get? (m ++ m') k = get? m k := by
  induction m with
  | nil => simp at hk
  | cons p m ih =>
    obtain ⟨k', v⟩ := p
    rw [List.cons_append, get?_cons, get?_cons]
    by_cases h : k' = k
    · rw [if_pos h, if_pos h]
    · rw [if_neg h, if_neg h]
      simp only [keys_cons, List.mem_cons] at hk
      exact ih (hk.resolve_left (Ne.symm h))

/-- key が重ならなければ、列にある組の値が返る。 -/
theorem get?_of_mem {m : List (K × V)} (hnd : (keys m).Nodup) {k : K} {v : V} (h : (k, v) ∈ m) :
    get? m k = some v := by
  induction m with
  | nil => cases h
  | cons p m ih =>
    obtain ⟨k', v'⟩ := p
    simp only [keys_cons, List.nodup_cons] at hnd
    rw [get?_cons]
    rcases List.mem_cons.mp h with he | hm
    · cases he; simp
    · have hne : k' ≠ k := by
        intro he
        subst he
        exact hnd.1 (List.mem_map.mpr ⟨(k', v), hm, rfl⟩)
      rw [if_neg hne]
      exact ih hnd.2 hm

/-! ## `set` -/

theorem keys_map_replace (m : List (K × V)) (k : K) (v : V) :
    keys (m.map (fun p => if p.1 = k then (k, v) else p)) = keys m := by
  induction m with
  | nil => rfl
  | cons p m ih =>
    by_cases h : p.1 = k
    · simp [h, ih]
    · simp [h, ih]

theorem keys_set (m : List (K × V)) (k : K) (v : V) :
    keys (set m k v) = if k ∈ keys m then keys m else keys m ++ [k] := by
  unfold set
  split
  · exact keys_map_replace m k v
  · simp

theorem set_of_mem {m : List (K × V)} {k : K} (hk : k ∈ keys m) (v : V) :
    set m k v = m.map (fun p => if p.1 = k then (k, v) else p) := by
  rw [set, if_pos hk]

/-- 無い key への `set` は末尾に足す。 -/
theorem set_of_not_mem {m : List (K × V)} {k : K} (hk : k ∉ keys m) (v : V) :
    set m k v = m ++ [(k, v)] := by
  rw [set, if_neg hk]

theorem setIfAbsent_of_mem {m : List (K × V)} {k : K} (hk : k ∈ keys m) (v : V) :
    setIfAbsent m k v = m := by
  rw [setIfAbsent, if_pos hk]

theorem setIfAbsent_of_not_mem {m : List (K × V)} {k : K} (hk : k ∉ keys m) (v : V) :
    setIfAbsent m k v = m ++ [(k, v)] := by
  rw [setIfAbsent, if_neg hk]

theorem nodup_set {m : List (K × V)} (hnd : (keys m).Nodup) (k : K) (v : V) :
    (keys (set m k v)).Nodup := by
  rw [keys_set]
  split
  · exact hnd
  · next hk =>
    rw [← List.concat_eq_append]
    exact hnd.concat hk

theorem nodup_setIfAbsent {m : List (K × V)} (hnd : (keys m).Nodup) (k : K) (v : V) :
    (keys (setIfAbsent m k v)).Nodup := by
  unfold setIfAbsent
  split
  · exact hnd
  · next hk =>
    rw [keys_append, show keys [(k, v)] = [k] from rfl, ← List.concat_eq_append]
    exact hnd.concat hk

theorem get?_map_replace_self {m : List (K × V)} {k : K} (hk : k ∈ keys m) (v : V) :
    get? (m.map (fun p => if p.1 = k then (k, v) else p)) k = some v := by
  induction m with
  | nil => simp at hk
  | cons p m ih =>
    obtain ⟨k', v'⟩ := p
    by_cases h : k' = k
    · subst h; simp [get?_cons]
    · simp only [List.map_cons, if_neg h, get?_cons]
      simp only [keys_cons, List.mem_cons] at hk
      exact ih (hk.resolve_left (Ne.symm h))

theorem get?_map_replace_ne (m : List (K × V)) {k k' : K} (hne : k' ≠ k) (v : V) :
    get? (m.map (fun p => if p.1 = k then (k, v) else p)) k' = get? m k' := by
  induction m with
  | nil => rfl
  | cons p m ih =>
    obtain ⟨k'', v'⟩ := p
    by_cases h : k'' = k
    · subst h
      simp only [List.map_cons, if_true, get?_cons, if_neg (Ne.symm hne), ih]
    · simp only [List.map_cons, if_neg h, get?_cons, ih]

@[simp] theorem get?_set_self (m : List (K × V)) (k : K) (v : V) : get? (set m k v) k = some v := by
  unfold set
  split
  · next hk => exact get?_map_replace_self hk v
  · next hk => rw [get?_append_of_not_mem hk]; simp [get?_cons]

theorem get?_set_ne (m : List (K × V)) {k k' : K} (hne : k' ≠ k) (v : V) :
    get? (set m k v) k' = get? m k' := by
  unfold set
  split
  · exact get?_map_replace_ne m hne v
  · by_cases hk' : k' ∈ keys m
    · rw [get?_append_of_mem hk']
    · rw [get?_append_of_not_mem hk', (get?_eq_none_iff m k').mpr hk']
      simp [get?_cons, Ne.symm hne]

/-! ## `erase` -/

theorem keys_erase_sublist (m : List (K × V)) (k : K) : (keys (erase m k)).Sublist (keys m) :=
  (List.filter_sublist).map Prod.fst

theorem nodup_erase {m : List (K × V)} (hnd : (keys m).Nodup) (k : K) :
    (keys (erase m k)).Nodup :=
  hnd.sublist (keys_erase_sublist m k)

@[simp] theorem get?_erase_self (m : List (K × V)) (k : K) : get? (erase m k) k = none := by
  rw [get?_eq_none_iff]
  simp [keys, erase]

theorem not_mem_keys_erase (m : List (K × V)) (k : K) : k ∉ keys (erase m k) :=
  (get?_eq_none_iff _ k).mp (get?_erase_self m k)

theorem get?_erase_ne (m : List (K × V)) {k k' : K} (hne : k' ≠ k) :
    get? (erase m k) k' = get? m k' := by
  induction m with
  | nil => rfl
  | cons p m ih =>
    obtain ⟨k'', v⟩ := p
    by_cases h : k'' = k
    · subst h
      have he : erase ((k'', v) :: m) k'' = erase m k'' := by simp [erase]
      rw [he, ih, get?_cons, if_neg (fun h' => hne h'.symm)]
    · have he : erase ((k'', v) :: m) k = (k'', v) :: erase m k := by simp [erase, h]
      rw [he, get?_cons, get?_cons, ih]

theorem erase_of_not_mem {m : List (K × V)} {k : K} (hk : k ∉ keys m) : erase m k = m := by
  unfold erase
  rw [List.filter_eq_self]
  intro p hp
  have hne : p.1 ≠ k := fun he => hk (List.mem_map.mpr ⟨p, hp, he⟩)
  simp [hne]

theorem erase_cons_of_ne {p : K × V} {k : K} (h : p.1 ≠ k) (m : List (K × V)) :
    erase (p :: m) k = p :: erase m k := by
  simp [erase, h]

theorem erase_cons_self (p : K × V) (m : List (K × V)) : erase (p :: m) p.1 = erase m p.1 := by
  simp [erase]

theorem map_replace_of_not_mem {m : List (K × V)} {k : K} (hk : k ∉ keys m) (v : V) :
    m.map (fun p => if p.1 = k then (k, v) else p) = m := by
  induction m with
  | nil => rfl
  | cons p m ih =>
    simp only [keys_cons, List.mem_cons, not_or] at hk
    simp [Ne.symm hk.1, ih hk.2]

theorem erase_append_of_not_mem {m : List (K × V)} {k : K} (hk : k ∉ keys m) (v : V) :
    erase (m ++ [(k, v)]) k = m := by
  unfold erase
  rw [List.filter_append, ← erase, erase_of_not_mem hk]
  simp

/-- key が重ならなければ、最後の組の key を消すと最後の組だけが消える。 -/
theorem erase_eq_dropLast {m : List (K × V)} (hnd : (keys m).Nodup) {k : K} {v : V}
    (h : m.getLast? = some (k, v)) : erase m k = m.dropLast := by
  obtain ⟨m', rfl⟩ := List.getLast?_eq_some_iff.mp h
  rw [keys_append, show keys [(k, v)] = [k] from rfl, List.nodup_append] at hnd
  have hk : k ∉ keys m' := fun hm => hnd.2.2 k hm k (List.mem_singleton_self k) rfl
  rw [erase_append_of_not_mem hk, List.dropLast_concat]

/-- key の重ならない列を順に `set` すると、末尾に足していくことになる。 -/
theorem foldl_set_eq_append :
    ∀ (l m : List (K × V)), (keys (m ++ l)).Nodup →
      l.foldl (fun m p => set m p.1 p.2) m = m ++ l
  | [], m, _ => by simp
  | p :: l, m, hnd => by
    rw [keys_append, keys_cons, List.nodup_append] at hnd
    have hp : p.1 ∉ keys m := fun h => hnd.2.2 p.1 h p.1 List.mem_cons_self rfl
    have hnd' : (keys (m ++ [p] ++ l)).Nodup := by
      rw [List.append_assoc, List.singleton_append, keys_append, keys_cons, List.nodup_append]
      exact hnd
    rw [List.foldl_cons, set_of_not_mem hp, foldl_set_eq_append l (m ++ [(p.1, p.2)]) hnd']
    simp

/-! ## key の付け替え

写像に現れる key の上で `f` が `k` と他の key を取り違えなければ、key を `f` で写した写像の
上の操作は、元の写像の上の操作を写したものである。
-/

section MapKeys

variable {K' : Type} [DecidableEq K'] (f : K → K')

/-- key を `f` で写した写像。 -/
def mapKeys (m : List (K × V)) : List (K' × V) := m.map fun p => (f p.1, p.2)

variable {f}

omit [DecidableEq K] [DecidableEq K'] in
theorem keys_mapKeys (m : List (K × V)) : keys (mapKeys f m) = (keys m).map f := by
  simp [keys, mapKeys]

omit [DecidableEq K] [DecidableEq K'] in
theorem mem_keys_mapKeys {m : List (K × V)} {k : K} (hf : ∀ p ∈ m, f p.1 = f k → p.1 = k) :
    f k ∈ keys (mapKeys f m) ↔ k ∈ keys m := by
  rw [keys_mapKeys]
  constructor
  · intro h
    obtain ⟨k', hk', heq⟩ := List.mem_map.mp h
    obtain ⟨p, hp, rfl⟩ := List.mem_map.mp hk'
    rw [← hf p hp heq]
    exact List.mem_map_of_mem hp
  · exact List.mem_map_of_mem

theorem get?_mapKeys {m : List (K × V)} {k : K} (hf : ∀ p ∈ m, f p.1 = f k → p.1 = k) :
    get? (mapKeys f m) (f k) = get? m k := by
  induction m with
  | nil => rfl
  | cons p m ih =>
    obtain ⟨k', v⟩ := p
    have ih' := ih (fun q hq => hf q (List.mem_cons_of_mem _ hq))
    by_cases h : k' = k
    · subst h
      simp [mapKeys, get?_cons]
    · have hne : f k' ≠ f k := fun he => h (hf (k', v) List.mem_cons_self he)
      rw [mapKeys, List.map_cons, get?_cons, if_neg hne, get?_cons, if_neg h]
      exact ih'

theorem set_mapKeys {m : List (K × V)} {k : K} (hf : ∀ p ∈ m, f p.1 = f k → p.1 = k) (v : V) :
    set (mapKeys f m) (f k) v = mapKeys f (set m k v) := by
  by_cases hk : k ∈ keys m
  · rw [set_of_mem ((mem_keys_mapKeys hf).mpr hk), set_of_mem hk, mapKeys, mapKeys,
      List.map_map, List.map_map]
    apply List.map_congr_left
    intro p hp
    by_cases h : p.1 = k
    · simp [h]
    · have hne : f p.1 ≠ f k := fun he => h (hf p hp he)
      simp [h, hne]
  · rw [set_of_not_mem (fun h => hk ((mem_keys_mapKeys hf).mp h)), set_of_not_mem hk, mapKeys,
      mapKeys, List.map_append]
    rfl

theorem erase_mapKeys {m : List (K × V)} {k : K} (hf : ∀ p ∈ m, f p.1 = f k → p.1 = k) :
    erase (mapKeys f m) (f k) = mapKeys f (erase m k) := by
  rw [erase, erase, mapKeys, mapKeys, List.filter_map]
  congr 1
  apply List.filter_congr
  intro p hp
  by_cases h : p.1 = k
  · simp [h]
  · have hne : f p.1 ≠ f k := fun he => h (hf p hp he)
    simp [h, hne]

omit [DecidableEq K] [DecidableEq K'] in
theorem nodup_keys_mapKeys {m : List (K × V)}
    (hinj : ∀ p ∈ m, ∀ q ∈ m, f p.1 = f q.1 → p.1 = q.1) (hnd : (keys m).Nodup) :
    (keys (mapKeys f m)).Nodup := by
  rw [keys_mapKeys]
  apply hnd.map_on
  intro a ha b hb heq
  obtain ⟨p, hp, rfl⟩ := List.mem_map.mp ha
  obtain ⟨q, hq, rfl⟩ := List.mem_map.mp hb
  exact hinj p hp q hq heq

end MapKeys

end Infra.OrderedMap
