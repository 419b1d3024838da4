import Hhvm.Array.Bespoke.MonotypeDict
import Hhvm.Array.Properties.Rehash
import Hhvm.Infra.Except

/-!
# `MonotypeDict` の索引

`MonotypeDict` の要素の列と `indices()` を `HashTable` として見ると（`view`）、`find<Result>` は
`HashTable` の `findImpl` と同じマスをたどり、`resize` と `compactIfNeeded` は入れ直し、
`setImpl` と `removeImpl` は `allocElm`・`setElm`・`eraseNoCompact` にあたる。
そこで vanilla の索引の不変量 `WF` をそのまま `MonotypeDict` の不変量 `Inv` に使い、
escalate しない操作がそれを保つことを示す。

`Update` が覚える最初の `Tombstone`（`first`）は `HashTable` の探索には無いので、別に扱う。
-/

namespace Hhvm

namespace Bespoke

open Infra Infra.Probe HashTableCommon HashTable

/-- 配列の key から `coerceKey<Key>` で引く。`none` は表せない key（tombstone を含む）。 -/
def MonoKey.coerce {S K : Type} (M : MonoKey S K) : Key S → Option K
  | .int k => M.coerceInt k
  | .str s => M.coerceStr s

namespace MonotypeDict

variable {S K α T : Type}

/-! ## 大きさ -/

/-- 表の大きさの 1/4。`HashTable` の `m_scale` にあたる。 -/
def indexScale (mad : MonotypeDict K α T) : Nat := scaleBySizeIndex 2 mad.sizeIndex

theorem indexScale_pow (mad : MonotypeDict K α T) :
    mad.indexScale = 2 ^ ((mad.sizeIndex - kMinSizeIndex) / kSizeClassesPerDoubling + 1) := by
  rw [indexScale, scaleBySizeIndex, Nat.shiftLeft_eq, Nat.pow_succ, Nat.mul_comm]

theorem numIndices_eq (mad : MonotypeDict K α T) : mad.numIndices = numSlots mad.indexScale := by
  rw [numIndices, indexScale, scaleBySizeIndex, scaleBySizeIndex, Nat.shiftLeft_eq,
    Nat.shiftLeft_eq, numSlots, kMinNumIndices]
  omega

theorem mask_eq (mad : MonotypeDict K α T) : mad.mask = Mask mad.indexScale := by
  rw [mask, numIndices_eq, numSlots, Mask]

/-- 要素の容量は、`HashTable` の容量（表の 3/4）より一つ小さい。 -/
theorem numElms_lt (mad : MonotypeDict K α T) : mad.numElms < Capacity mad.indexScale := by
  have hpos := Nat.two_pow_pos ((mad.sizeIndex - kMinSizeIndex) / kSizeClassesPerDoubling)
  rw [numElms, indexScale, scaleBySizeIndex, scaleBySizeIndex, Nat.shiftLeft_eq,
    Nat.shiftLeft_eq, Capacity, kMinNumElms]
  omega

/-- 二倍の段を一つ上がると、大きさは倍になる。 -/
theorem scaleBySizeIndex_grow (base : Nat) {index : Nat} (h : kMinSizeIndex ≤ index) :
    scaleBySizeIndex base (index + kSizeClassesPerDoubling) = 2 * scaleBySizeIndex base index := by
  have he : (index + kSizeClassesPerDoubling - kMinSizeIndex) / kSizeClassesPerDoubling =
      (index - kMinSizeIndex) / kSizeClassesPerDoubling + 1 := by
    unfold kMinSizeIndex kSizeClassesPerDoubling at *
    omega
  rw [scaleBySizeIndex, scaleBySizeIndex, he, Nat.shiftLeft_eq, Nat.shiftLeft_eq, Nat.pow_succ]
  ring

theorem scaleBySizeIndex_pos {base : Nat} (h : 0 < base) (index : Nat) :
    0 < scaleBySizeIndex base index := by
  rw [scaleBySizeIndex, Nat.shiftLeft_eq]
  exact Nat.mul_pos h (Nat.two_pow_pos _)

/-- `ComputeSizeIndex` のループ：段 `j`（容量 `6 * 2^j`）から始め、容量が `size` を超えた段で止まる。
fuel が尽きる前にそこへ着く。 -/
theorem computeSizeIndexLoop_spec (size : Nat) :
    ∀ fuel j, size < kMinNumElms * 2 ^ (j + fuel) →
      ∃ j', computeSizeIndexLoop size fuel (kMinNumElms * 2 ^ j)
          (kMinSizeIndex + kSizeClassesPerDoubling * j) =
          kMinSizeIndex + kSizeClassesPerDoubling * j' ∧ size < kMinNumElms * 2 ^ j' := by
  intro fuel
  induction fuel with
  | zero => intro j h; exact ⟨j, rfl, h⟩
  | succ fuel ih =>
    intro j h
    by_cases hc : kMinNumElms * 2 ^ j ≤ size
    · rw [computeSizeIndexLoop, if_pos hc]
      have hnext := ih (j + 1) (by rw [show j + 1 + fuel = j + (fuel + 1) by omega]; exact h)
      rw [Nat.pow_succ, ← Nat.mul_assoc, Nat.mul_add, Nat.mul_one, ← Nat.add_assoc] at hnext
      exact hnext
    · rw [computeSizeIndexLoop, if_neg hc]
      exact ⟨j, rfl, by omega⟩

/-- `ComputeSizeIndex(size)` の段の要素の容量は `size` 以上である。 -/
theorem ComputeSizeIndex_spec (size : Nat) :
    kMinSizeIndex ≤ ComputeSizeIndex size ∧
      size ≤ scaleBySizeIndex kMinNumElms (ComputeSizeIndex size) - 1 := by
  have hfuel : size < kMinNumElms * 2 ^ (0 + (size + 1)) := by
    have := Nat.lt_two_pow_self (n := size)
    rw [Nat.zero_add, Nat.pow_succ, kMinNumElms]
    omega
  obtain ⟨j, hj, hlt⟩ := computeSizeIndexLoop_spec size (size + 1) 0 hfuel
  have hidx : ComputeSizeIndex size = kMinSizeIndex + kSizeClassesPerDoubling * j := by
    simpa [ComputeSizeIndex] using hj
  have hsteps : (ComputeSizeIndex size - kMinSizeIndex) / kSizeClassesPerDoubling = j := by
    rw [hidx]
    unfold kMinSizeIndex kSizeClassesPerDoubling
    omega
  refine ⟨by omega, ?_⟩
  rw [scaleBySizeIndex, hsteps, Nat.shiftLeft_eq]
  omega

/-! ## `HashTable` としての見え方 -/

/-- 要素の列と `indices()` を `HashTable` として見たもの。 -/
def view (mad : MonotypeDict K α T) : HashTable (K × α) :=
  ⟨mad.indexScale, mad.size, mad.slots, mad.indices⟩

@[simp] theorem view_scale (mad : MonotypeDict K α T) : mad.view.scale = mad.indexScale := rfl
@[simp] theorem view_size (mad : MonotypeDict K α T) : mad.view.size = mad.size := rfl
@[simp] theorem view_elms (mad : MonotypeDict K α T) : mad.view.elms = mad.slots := rfl
@[simp] theorem view_hashTab (mad : MonotypeDict K α T) : mad.view.hashTab = mad.indices := rfl

theorem view_mask (mad : MonotypeDict K α T) : mad.view.mask = mad.mask := (mask_eq mad).symm

@[simp] theorem slots_length (mad : MonotypeDict K α T) : mad.slots.length = mad.elms.length :=
  List.length_map _

theorem view_used (mad : MonotypeDict K α T) : mad.view.used = mad.elms.length :=
  slots_length mad

/-! ## 探索 -/

/-- `find<Result>` の key の比較を `HashTable` の探索の `hit` として書いたもの。
`Add` はどの要素にも当たらない。 -/
def hitOf [DecidableEq K] (mode : FindMode) (key : Option K) (e : K × α) : Bool :=
  decide (mode ≠ .add ∧ key = some e.1)

/-- `find` の結果を `HashTable` の探索の結果として見る。歩幅と `first` は落とす。 -/
def FindResult.toFound : FindResult → Found
  | .hit i index => .hit i index
  | .miss i _ _ => .miss i

variable [DecidableEq K]

/-- 位置 `index` の要素に当たるかどうか。tombstone を探すこと（`Add` でない `key = none`）は除く。 -/
theorem hitAt_hitOf (mad : MonotypeDict K α T) {mode : FindMode} {key : Option K}
    (hkey : mode = .add ∨ key ≠ none) (index : Nat) :
    mad.view.hitAt (hitOf mode key) index =
      decide (mode ≠ .add ∧ mad.elms[index]?.map Prod.fst = some key) := by
  unfold hitAt hitOf
  rw [view_elms, slots, List.getElem?_map]
  cases he : mad.elms[index]? with
  | none => simp
  | some e =>
    obtain ⟨k', v⟩ := e
    cases k' with
    | none =>
      -- tombstone の要素：`Add` でなければ `key` は tombstone でない
      by_cases hm : mode = .add
      · simp [hm]
      · have hk : key ≠ none := hkey.resolve_left hm
        simp [hm, Ne.symm hk]
    | some k' => simp [eq_comm]

/-- **探索のループは `HashTable` のループと同じマスで止まる。** -/
theorem findLoop_map_toFound (mad : MonotypeDict K α T) {mode : FindMode} {key : Option K}
    (hkey : mode = .add ∨ key ≠ none) :
    ∀ fuel i delta first,
      (findLoop mad.indices mad.elms mad.mask mode key fuel i delta first).map
          FindResult.toFound =
        mad.view.findLoop (hitOf mode key) fuel i delta := by
  intro fuel
  induction fuel with
  | zero => intro i delta first; rfl
  | succ fuel ih =>
    intro i delta first
    cases hi : mad.indices i with
    | empty => simp [findLoop, HashTable.findLoop, hi, FindResult.toFound]
    | tombstone =>
      simp only [findLoop, HashTable.findLoop, view_hashTab, hi, view_mask]
      split <;> exact ih _ _ _
    | pos index =>
      simp only [findLoop, HashTable.findLoop, view_hashTab, hi, view_mask,
        hitAt_hitOf mad hkey index]
      by_cases hm : mode = .add
      · subst hm
        simp only [if_true, ne_eq, not_true_eq_false, false_and, decide_false,
          Bool.false_eq_true, if_false]
        exact ih _ _ _
      · by_cases hk : mad.elms[index]?.map Prod.fst = some key
        · simp [hm, hk, FindResult.toFound]
        · simp only [hm, hk, if_false, ne_eq, not_false_eq_true, and_false, decide_false,
            Bool.false_eq_true]
          exact ih _ _ _

/-- `find<Result>` は `view` の `findImpl` と同じ結果を返す。 -/
theorem find_map_toFound (mad : MonotypeDict K α T) {mode : FindMode} {key : Option K}
    (hkey : mode = .add ∨ key ≠ none) (hash : UInt32) :
    (mad.find mode key hash).map FindResult.toFound = mad.view.findImpl hash (hitOf mode key) := by
  unfold find findImpl
  rw [findLoop_map_toFound mad hkey, view_mask, view_scale, numIndices_eq]

/-! ## `Update` が覚える `Tombstone` -/

/-- `Update` の `first`：0 か、探索列の `n` 番目より手前の `Tombstone` のマス + 1。 -/
def FirstTomb (indices : Nat → Slot) (N h n first : Nat) : Prop :=
  first = 0 ∨ ∃ n₀, n₀ < n ∧ first = probeSeq N h n₀ + 1 ∧ indices (probeSeq N h n₀) = .tombstone

theorem FirstTomb.mono {indices : Nat → Slot} {N h n n' first : Nat}
    (hf : FirstTomb indices N h n first) (hn : n ≤ n') : FirstTomb indices N h n' first := by
  rcases hf with h0 | ⟨n₀, hlt, heq, ht⟩
  · exact Or.inl h0
  · exact Or.inr ⟨n₀, by omega, heq, ht⟩

/-- `Update` のループが外れたなら、探索列の `n` 番目の `Empty` のマスで止まり、その手前に `Empty` は
無く、`first` はそこまでの最初の `Tombstone` を覚えている。 -/
theorem findLoop_update_miss (mad : MonotypeDict K α T) {k : Nat} (hk : mad.indexScale = 2 ^ k)
    (key : Option K) (h : Nat) :
    ∀ fuel m first {i delta first' : Nat},
      FirstTomb mad.indices (numSlots mad.indexScale) h m first →
      findLoop mad.indices mad.elms mad.mask .update key fuel
          (probeSeq (numSlots mad.indexScale) h m) (m + 1) first = some (.miss i delta first') →
      ∃ n, m ≤ n ∧ n < m + fuel ∧ i = probeSeq (numSlots mad.indexScale) h n ∧
        mad.indices i = .empty ∧
        (∀ m', m ≤ m' → m' < n → mad.indices (probeSeq (numSlots mad.indexScale) h m') ≠ .empty) ∧
        FirstTomb mad.indices (numSlots mad.indexScale) h n first' := by
  intro fuel
  induction fuel with
  | zero => intro m first i delta first' _ hr; cases hr
  | succ fuel ih =>
    intro m first i delta first' hf hr
    have hstep : (probeSeq (numSlots mad.indexScale) h m + (m + 1)) &&& mad.mask =
        probeSeq (numSlots mad.indexScale) h (m + 1) := by
      rw [mask_eq]; exact step_probeSeq hk h m
    -- 先のマスで止まった場合、今のマスを手前のマスに加える
    have hcont : ∀ first'', mad.indices (probeSeq (numSlots mad.indexScale) h m) ≠ .empty →
        FirstTomb mad.indices (numSlots mad.indexScale) h (m + 1) first'' →
        findLoop mad.indices mad.elms mad.mask .update key fuel
          (probeSeq (numSlots mad.indexScale) h (m + 1)) (m + 1 + 1) first'' =
            some (.miss i delta first') →
        ∃ n, m ≤ n ∧ n < m + (fuel + 1) ∧ i = probeSeq (numSlots mad.indexScale) h n ∧
          mad.indices i = .empty ∧
          (∀ m', m ≤ m' → m' < n →
            mad.indices (probeSeq (numSlots mad.indexScale) h m') ≠ .empty) ∧
          FirstTomb mad.indices (numSlots mad.indexScale) h n first' := by
      intro first'' hne hf'' hr''
      obtain ⟨n, h1, h2, hi, he, hbefore, hfn⟩ := ih (m + 1) first'' hf'' hr''
      refine ⟨n, by omega, by omega, hi, he, fun m' hm' hlt => ?_, hfn⟩
      rcases Nat.lt_or_eq_of_le hm' with hlt' | rfl
      · exact hbefore m' hlt' hlt
      · exact hne
    cases hj : mad.indices (probeSeq (numSlots mad.indexScale) h m) with
    | empty =>
      simp only [findLoop, hj, Option.some.injEq, FindResult.miss.injEq] at hr
      obtain ⟨rfl, -, rfl⟩ := hr
      exact ⟨m, le_refl m, by omega, rfl, hj, fun m' h1 h2 => absurd h2 (by omega), hf⟩
    | tombstone =>
      simp only [findLoop, hj, hstep, reduceCtorEq, if_false, true_and] at hr
      -- 最初の `Tombstone` なら覚える
      refine hcont _ (by rw [hj]; simp) ?_ hr
      by_cases h0 : first = 0
      · rw [if_pos h0]
        exact Or.inr ⟨m, by omega, rfl, hj⟩
      · rw [if_neg h0]
        exact hf.mono (by omega)
    | pos index =>
      simp only [findLoop, hj, hstep, reduceCtorEq, if_false] at hr
      split at hr
      · cases hr
      · exact hcont first (by rw [hj]; simp) (hf.mono (by omega)) hr

/-- `Update` が外れたときに書くマス（覚えた `Tombstone`、無ければ止まった `Empty`）は、探索列で
位置を指していないマスであり、その手前に `Empty` は無い。 -/
theorem find_update_miss (mad : MonotypeDict K α T) (key : Option K) (hash : UInt32)
    {i delta first : Nat} (h : mad.find .update key hash = some (.miss i delta first)) :
    ∃ n, n < numSlots mad.indexScale ∧
      (if first = 0 then i else first - 1) = probeSeq (numSlots mad.indexScale) hash.toNat n ∧
      (mad.indices (probeSeq (numSlots mad.indexScale) hash.toNat n)).validPos = false ∧
      ∀ m, m < n → mad.indices (probeSeq (numSlots mad.indexScale) hash.toNat m) ≠ .empty := by
  have hk := indexScale_pow mad
  have hstart : hash.toNat &&& mad.mask = probeSeq (numSlots mad.indexScale) hash.toNat 0 := by
    rw [mask_eq]; exact start_probeSeq hk _
  unfold find at h
  rw [hstart, numIndices_eq] at h
  obtain ⟨n, -, hn, rfl, he, hbefore, hf⟩ :=
    findLoop_update_miss mad hk key hash.toNat _ 0 0 (Or.inl rfl) h
  rcases hf with h0 | ⟨n₀, hlt, rfl, ht⟩
  · rw [if_pos h0]
    exact ⟨n, by omega, rfl, by rw [he]; rfl, fun m hm => hbefore m (Nat.zero_le m) hm⟩
  · rw [if_neg (by omega), Nat.add_sub_cancel]
    exact ⟨n₀, by omega, rfl, by rw [ht]; rfl,
      fun m hm => hbefore m (Nat.zero_le m) (by omega)⟩

/-! ## `findForAdd` -/

/-- **`findForAdd` は探索列で最初の `Empty` のマスを返す。** 表のどこかに `Empty` のマスがあればよく、
索引ができている必要はない（`resize` と `compactIfNeeded` は作りかけの表で呼ぶ）。 -/
theorem findForAdd_spec (mad : MonotypeDict K α T) (hash : UInt32)
    (hex : ∃ j, j < numSlots mad.indexScale ∧ mad.indices j = .empty) :
    ∃ n delta, n < numSlots mad.indexScale ∧
      mad.findForAdd hash = some (probeSeq (numSlots mad.indexScale) hash.toNat n, delta) ∧
      mad.indices (probeSeq (numSlots mad.indexScale) hash.toNat n) = .empty ∧
      ∀ m, m < n → mad.indices (probeSeq (numSlots mad.indexScale) hash.toNat m) ≠ .empty := by
  obtain ⟨n, hn, he, hbefore, hf⟩ := findImpl_miss_of_empty (t := mad.view) (indexScale_pow mad)
    (hitOf .add none) hash hex (fun _ _ _ => by simp [hitOf])
  rw [← find_map_toFound mad (Or.inl rfl)] at hf
  obtain ⟨r, hr, hrf⟩ := Option.map_eq_some_iff.mp hf
  cases r with
  | hit i index => cases hrf
  | miss i delta first =>
    cases hrf
    exact ⟨n, delta, hn, by simp [findForAdd, hr], he, hbefore⟩

/-! ## 入れ直し -/

omit [DecidableEq K]

/-- 要素一つを `HashTable` の要素として見る。tombstone は `none`。 -/
def slotOf (e : Option K × α) : Option (K × α) := e.1.map (·, e.2)

theorem slots_eq (mad : MonotypeDict K α T) : mad.slots = mad.elms.map slotOf := rfl

/-- 位置 `n` から並ぶ要素のうち、生きているものの位置と key（`addLoop` に渡す列）。 -/
def liveKeys : List (Option K × α) → Nat → List (Nat × K)
  | [], _ => []
  | e :: rest, n =>
    match e.1 with
    | none => liveKeys rest (n + 1)
    | some k => (n, k) :: liveKeys rest (n + 1)

/-- `resize` が `addLoop` に渡す列。 -/
theorem liveElms_map_liveKeys (l : List (Option K × α)) :
    ∀ n, ((l.zipIdx n).filterMap fun (e, i) => e.1.map fun k => (i, k, e.2)).map
        (fun (i, k, _) => (i, k)) = liveKeys l n := by
  induction l with
  | nil => intro n; rfl
  | cons e rest ih =>
    intro n
    obtain ⟨_ | k, v⟩ := e
    · simp only [List.zipIdx_cons, List.filterMap_cons, Option.map_none]
      exact ih (n + 1)
    · simp only [List.zipIdx_cons, List.filterMap_cons, Option.map_some, List.map_cons]
      rw [ih (n + 1)]
      rfl

/-- `compactIfNeeded` が `addLoop` に渡す列。前に詰めた要素はすべて生きている。 -/
theorem zipIdx_map_liveKeys (live : List (Nat × K × α)) :
    ∀ n, (live.zipIdx n).map (fun ((_, k, _), cur) => (cur, k)) =
      liveKeys (live.map fun (_, k, v) => (some k, v)) n := by
  induction live with
  | nil => intro n; rfl
  | cons e rest ih =>
    intro n
    simp only [List.zipIdx_cons, List.map_cons]
    rw [ih (n + 1)]
    rfl

/-- 生きている要素を前に詰めた列は、`liveElms` から位置を落としたものである。 -/
theorem filterMap_slotOf (l : List (Option K × α)) :
    ∀ n, (l.map slotOf).filterMap id =
      ((l.zipIdx n).filterMap fun (e, i) => e.1.map fun k => (i, k, e.2)).map
        fun e => (e.2.1, e.2.2) := by
  induction l with
  | nil => intro n; rfl
  | cons e rest ih =>
    intro n
    obtain ⟨_ | k, v⟩ := e
    · simp only [List.map_cons, List.zipIdx_cons, List.filterMap_cons, slotOf, Option.map_none]
      exact ih (n + 1)
    · simp only [List.map_cons, List.zipIdx_cons, List.filterMap_cons, slotOf, Option.map_some,
        id_eq]
      exact congrArg ((k, v) :: ·) (ih (n + 1))

/-- `forEachElm` が回す要素の数は、生きている要素の数である。 -/
theorem liveElms_length (mad : MonotypeDict K α T) : mad.liveElms.length = countLive mad.slots := by
  rw [countLive_eq_length, slots_eq, filterMap_slotOf mad.elms 0, List.length_map]
  rfl

/-- 走査で見える列は、`forEachElm` が回す要素の key を配列の key にしたものである。 -/
theorem abs_eq_liveElms [DecidableEq K] (M : MonoKey S K) (mad : MonotypeDict K α T) :
    mad.abs M = mad.liveElms.map fun e => (M.toKey e.2.1, e.2.2) := by
  rw [MonotypeDict.abs, slots_eq, filterMap_slotOf mad.elms 0, List.map_map]
  rfl

/-- 前に詰めた要素の列は、すべて生きている。 -/
theorem slots_compact (live : List (Nat × K × α)) :
    (live.map fun (_, k, v) => (some k, v)).map slotOf =
      (live.map fun e => (e.2.1, e.2.2)).map some := by
  simp [slotOf]

/-- 生きている要素の値を書き換えると、`HashTable` の要素の書き換え（`setElm`）になる。 -/
theorem slots_modify_val {l : List (Option K × α)} {index : Nat} {kk : K} {v₀ : α}
    (he : l[index]? = some (some kk, v₀)) (v : α) :
    (l.modify index fun e => (e.1, v)).map slotOf = (l.map slotOf).set index (some (kk, v)) := by
  obtain ⟨hlt, hget⟩ := List.getElem?_eq_some_iff.mp he
  apply List.ext_getElem?
  intro j
  rw [List.getElem?_map, List.getElem?_modify, List.getElem?_set, List.getElem?_map]
  by_cases hj : index = j
  · subst hj
    simp [hget, hlt, slotOf]
  · simp [hj]

/-- 要素の key を tombstone にすると、`HashTable` の要素を `none` にすること（`eraseNoCompact`）になる。 -/
theorem slots_modify_tomb (l : List (Option K × α)) (index : Nat) :
    (l.modify index fun e => (none, e.2)).map slotOf = (l.map slotOf).set index none := by
  apply List.ext_getElem?
  intro j
  rw [List.getElem?_map, List.getElem?_modify, List.getElem?_set, List.getElem?_map]
  by_cases hj : index = j
  · subst hj
    cases he : l[index]? with
    | none =>
      have hge : l.length ≤ index := List.getElem?_eq_none_iff.mp he
      simp [show ¬index < l.length by omega]
    | some e =>
      obtain ⟨hlt, -⟩ := List.getElem?_eq_some_iff.mp he
      simp [hlt, slotOf]
  · simp [hj]

/-! ## 一つの要素の書き換え -/

/-- 値の書き換えは `HashTable` の `setElm` である。 -/
theorem view_modify_val {mad : MonotypeDict K α T} {index : Nat} {kk : K} {v₀ : α}
    (he : mad.elms[index]? = some (some kk, v₀)) (v : α) :
    ({ mad with elms := mad.elms.modify index fun e => (e.1, v) } : MonotypeDict K α T).view =
      mad.view.setElm index (kk, v) := by
  show (⟨_, _, _, _⟩ : HashTable (K × α)) = ⟨_, _, _, _⟩
  rw [slots_eq, slots_modify_val he]
  rfl

/-- 末尾への追加は `HashTable` の `allocElm` である。 -/
theorem view_append {mad : MonotypeDict K α T} (hlen : mad.elms.length = mad.used) (p : Nat) (kk : K)
    (v : α) :
    ({ mad with
        indices := Function.update mad.indices p (.pos mad.used)
        elms := mad.elms ++ [(some kk, v)]
        size := mad.size + 1 } : MonotypeDict K α T).view = mad.view.allocElm p (kk, v) := by
  rw [HashTable.allocElm, view_used, hlen]
  show (⟨mad.indexScale, mad.size + 1, (mad.elms ++ [(some kk, v)]).map slotOf, _⟩ : HashTable (K × α))
    = ⟨mad.indexScale, mad.size + 1, mad.elms.map slotOf ++ [some (kk, v)], _⟩
  rw [List.map_append]
  rfl

/-- 要素の削除は `HashTable` の `eraseNoCompact` である。 -/
theorem view_erase (mad : MonotypeDict K α T) (i index : Nat) :
    ({ mad with
        elms := mad.elms.modify index fun e => (none, e.2)
        indices := Function.update mad.indices i .tombstone
        tombstones := mad.tombstones + 1
        size := mad.size - 1 } : MonotypeDict K α T).view = mad.view.eraseNoCompact i index := by
  show (⟨_, _, _, _⟩ : HashTable (K × α)) = ⟨_, _, _, _⟩
  rw [slots_eq, slots_modify_tomb]
  rfl

section AddLoop

variable [DecidableEq K] (M : MonoKey S K)

/-- `addLoop` の一歩：`findForAdd` のマスに位置を書く。 -/
theorem addLoop_cons_of_find {mad : MonotypeDict K α T} {chain i slot delta : Nat} {k : K}
    {rest : List (Nat × K)} (h : mad.findForAdd (M.getHash k) = some (slot, delta)) :
    addLoop M mad chain ((i, k) :: rest) =
      addLoop M { mad with indices := Function.update mad.indices slot (.pos i) } (chain ||| delta)
        rest := by
  rw [addLoop, h]

/-- **入れ直しのループ。** 要素の列 `pre ++ rest` のうち `pre` を索引した表から始めると、表に
`rest` の分の空きがある限り、`addLoop` は止まらずに残りの生きている要素を入れ終え、その表は
`pre ++ rest` を索引する。`addLoop` は表のほかは変えない。 -/
theorem addLoop_spec :
    ∀ (rest pre : List (Option K × α)) (mad : MonotypeDict K α T) (chain : Nat),
      (pre ++ rest).length ≤ Capacity mad.indexScale →
      IndexWF (fun e => M.getHash e.1) (numSlots mad.indexScale) mad.indices
        (liveOf (pre.map slotOf)) →
      occupied mad.indices (numSlots mad.indexScale) ≤ countLive (pre.map slotOf) →
      ∃ indices chain', addLoop M mad chain (liveKeys rest pre.length) =
          .ok ({ mad with indices := indices }, chain') ∧
        IndexWF (fun e => M.getHash e.1) (numSlots mad.indexScale) indices
          (liveOf ((pre ++ rest).map slotOf)) ∧
        occupied indices (numSlots mad.indexScale) ≤ countLive ((pre ++ rest).map slotOf) := by
  intro rest
  induction rest with
  | nil =>
    intro pre mad chain _ hw hocc
    exact ⟨mad.indices, chain, rfl, by simpa using hw, by simpa using hocc⟩
  | cons e rest ih =>
    intro pre mad chain hlen hw hocc
    obtain ⟨_ | k, v⟩ := e
    · -- tombstone は飛ばす。位置だけが一つ進む
      have hslot : (pre ++ [(none, v)]).map slotOf = pre.map slotOf ++ [none] := by
        simp [slotOf]
      have h := ih (pre ++ [(none, v)]) mad chain (by simpa using hlen)
        (by rw [hslot, liveOf_append_none]; exact hw)
        (by rw [hslot]; simpa [countLive] using hocc)
      simpa [liveKeys] using h
    · have hslot : (pre ++ [(some k, v)]).map slotOf = pre.map slotOf ++ [some (k, v)] := by
        simp [slotOf]
      have hfree : occupied mad.indices (numSlots mad.indexScale) < numSlots mad.indexScale := by
        have h1 := countLive_le_length (pre.map slotOf)
        simp only [List.length_append, List.length_cons, List.length_map] at hlen h1
        rw [numSlots, Capacity] at *
        omega
      obtain ⟨n, delta, hn, hfind, hempty, hbefore⟩ :=
        findForAdd_spec mad (M.getHash k) (exists_empty_of_occupied_lt hfree)
      -- 一歩進めた後の表は `pre ++ [(some k, v)]` を索引する
      have hw' := hw.insert (e := (k, v)) (liveOf_of_length_le (j := pre.length) (by simp)) hn
        (by rw [hempty]; rfl) hbefore
      have hlive := liveOf_append_some (pre.map slotOf) (k, v)
      rw [List.length_map] at hlive
      rw [← hlive, ← hslot] at hw'
      have hocc' : occupied (Function.update mad.indices
          (probeSeq (numSlots mad.indexScale) (M.getHash k).toNat n) (.pos pre.length))
          (numSlots mad.indexScale) ≤ countLive ((pre ++ [(some k, v)]).map slotOf) := by
        rw [hslot, countLive_append_some]
        exact le_trans (occupied_update_le _ _ _ _) (by omega)
      let slot := probeSeq (numSlots mad.indexScale) (M.getHash k).toNat n
      let mad' : MonotypeDict K α T :=
        { mad with indices := Function.update mad.indices slot (.pos pre.length) }
      have hsc : mad'.indexScale = mad.indexScale := rfl
      have happ : pre ++ [(some k, v)] ++ rest = pre ++ (some k, v) :: rest := by simp
      obtain ⟨indices, chain', hloop, hwf, hocc''⟩ :=
        ih (pre ++ [(some k, v)]) mad' (chain ||| delta)
          (by rw [hsc, happ]; exact hlen) hw' hocc'
      rw [hsc, happ] at hwf hocc''
      refine ⟨indices, chain', ?_, hwf, hocc''⟩
      rw [List.length_append, List.length_singleton] at hloop
      simp only [liveKeys]
      rw [addLoop_cons_of_find M hfind]
      exact hloop

end AddLoop

/-! ## 不変量 -/

section Inv

variable (M : MonoKey S K)

/-- `MonotypeDict` の表現の不変量。 -/
structure Inv (mad : MonotypeDict K α T) : Prop where
  /-- 要素の列と `indices()` は、hash `getHash(key)` について `HashTable` の索引の不変量を満たす。 -/
  wf : mad.view.WF (fun e => M.getHash e.1)
  /-- `sizeIndex()` は最小の段より小さくない。 -/
  sizeIndex_ge : kMinSizeIndex ≤ mad.sizeIndex
  /-- 要素の列の長さは `used()`。 -/
  length_eq : mad.elms.length = mad.used
  /-- `used() <= numElms()`。 -/
  used_le : mad.used ≤ mad.numElms

/-- `MakeReserve` の空の配列。 -/
theorem Inv.MakeReserve (capacity : Nat) (dt : T) :
    Inv M (MakeReserve capacity dt : MonotypeDict K α T) where
  wf := WF.init _ (indexScale_pow _)
  sizeIndex_ge := (ComputeSizeIndex_spec capacity).1
  length_eq := rfl
  used_le := Nat.zero_le _

variable {M}

/-- 生きている要素の値を書き換えても `Inv` は保たれる。 -/
theorem Inv.setVal {mad : MonotypeDict K α T} (hI : Inv M mad) {index : Nat} {kk : K} {v₀ : α}
    (he : mad.elms[index]? = some (some kk, v₀)) (v : α) :
    Inv M { mad with elms := mad.elms.modify index fun e => (e.1, v) } where
  wf := by
    rw [view_modify_val he]
    have hl : liveOf mad.view.elms index = some (kk, v₀) := by
      simp [liveOf, slots, List.getElem?_map, he]
    exact hI.wf.setElm hl rfl
  sizeIndex_ge := hI.sizeIndex_ge
  length_eq := by rw [List.length_modify]; exact hI.length_eq
  used_le := hI.used_le

/-- 空きがあれば、探索列で初めて位置を指していないマスに末尾の位置を書いて足しても `Inv` は
保たれる。 -/
theorem Inv.append {mad : MonotypeDict K α T} (hI : Inv M mad) (hroom : mad.used < mad.numElms)
    {kk : K} (v : α) {n : Nat} (hn : n < numSlots mad.indexScale)
    (hfree : (mad.indices (probeSeq (numSlots mad.indexScale) (M.getHash kk).toNat n)).validPos = false)
    (hbefore : ∀ m, m < n →
      mad.indices (probeSeq (numSlots mad.indexScale) (M.getHash kk).toNat m) ≠ .empty) :
    Inv M { mad with
      indices := Function.update mad.indices
        (probeSeq (numSlots mad.indexScale) (M.getHash kk).toNat n) (.pos mad.used)
      elms := mad.elms ++ [(some kk, v)]
      size := mad.size + 1 } where
  wf := by
    rw [view_append hI.length_eq]
    have hfull : mad.view.used < Capacity mad.view.scale := by
      rw [view_used, hI.length_eq]
      exact lt_trans hroom (numElms_lt mad)
    exact hI.wf.allocElm (e := (kk, v)) hfull hn hfree hbefore
  sizeIndex_ge := hI.sizeIndex_ge
  length_eq := by
    show (mad.elms ++ [(some kk, v)]).length = mad.size + 1 + mad.tombstones
    rw [List.length_append, hI.length_eq, used]
    simp only [List.length_singleton]
    omega
  used_le := by
    show mad.size + 1 + mad.tombstones ≤ mad.numElms
    have := hroom
    rw [used] at this
    omega

/-- 表のマスが指す要素は生きているので、`m_size` は 0 でない。 -/
theorem Inv.size_pos {mad : MonotypeDict K α T} (hI : Inv M mad) {i index : Nat}
    (hi : i < numSlots mad.indexScale) (hslot : mad.indices i = .pos index) : 0 < mad.size := by
  obtain ⟨e, he⟩ := Option.isSome_iff_exists.mp (hI.wf.index.slot_live i hi index hslot)
  have hc := countLive_set_none he
  have hsize : mad.size = countLive mad.view.elms := hI.wf.size_eq
  omega

/-- 生きている要素を指すマスを `Tombstone` に、その要素の key を tombstone にしても `Inv` は保たれる
（`compactIfNeeded` の前）。 -/
theorem Inv.erase {mad : MonotypeDict K α T} (hI : Inv M mad) {i index : Nat}
    (hi : i < numSlots mad.indexScale) (hslot : mad.indices i = .pos index) :
    Inv M { mad with
      elms := mad.elms.modify index fun e => (none, e.2)
      indices := Function.update mad.indices i .tombstone
      tombstones := mad.tombstones + 1
      size := mad.size - 1 } where
  wf := by
    rw [view_erase]
    exact hI.wf.eraseNoCompact hi hslot
  sizeIndex_ge := hI.sizeIndex_ge
  length_eq := by
    have hpos := hI.size_pos hi hslot
    show (mad.elms.modify index _).length = mad.size - 1 + (mad.tombstones + 1)
    rw [List.length_modify, hI.length_eq, used]
    omega
  used_le := by
    have hpos := hI.size_pos hi hslot
    have hused := hI.used_le
    show mad.size - 1 + (mad.tombstones + 1) ≤ mad.numElms
    rw [used] at hused
    omega

/-- 満杯の配列を一段大きくすると、要素の容量は `2 * numElms() + 1` になり、空きができる。 -/
theorem grow_room {mad : MonotypeDict K α T} (hI : Inv M mad) (hfull : mad.used = mad.numElms) :
    kMinSizeIndex ≤ mad.sizeIndex + kSizeClassesPerDoubling ∧
      mad.used < scaleBySizeIndex kMinNumElms (mad.sizeIndex + kSizeClassesPerDoubling) - 1 := by
  have hgrow := scaleBySizeIndex_grow kMinNumElms hI.sizeIndex_ge
  have hpos := scaleBySizeIndex_pos (by decide : 0 < kMinNumElms) mad.sizeIndex
  rw [numElms] at hfull
  refine ⟨le_trans hI.sizeIndex_ge (Nat.le_add_right _ _), ?_⟩
  rw [hgrow]
  omega

variable [DecidableEq K]

/-- 生きている要素の数が `m_size` と合い、容量に収まる配列は、空の表から要素の列全体を `addLoop` で
入れ直すと `Inv` を満たす。`addLoop` は止まらない。 -/
theorem Inv.of_addLoop (M : MonoKey S K) (ad : MonotypeDict K α T) (hsize : ad.size = countLive ad.slots)
    (hge : kMinSizeIndex ≤ ad.sizeIndex) (hlen : ad.elms.length = ad.used)
    (hroom : ad.used ≤ ad.numElms) :
    ∃ indices chain, addLoop M { ad with indices := initHash } 0 (liveKeys ad.elms 0) =
        .ok ({ ad with indices := indices }, chain) ∧ Inv M { ad with indices := indices } := by
  have hnil : liveOf (([] : List (Option K × α)).map slotOf) = fun _ => none := by
    funext j
    exact liveOf_of_length_le (by simp)
  have hcap : ad.elms.length ≤ Capacity ad.indexScale := by
    have := numElms_lt ad
    omega
  obtain ⟨indices, chain, hloop, hw, hocc⟩ :=
    addLoop_spec M ad.elms [] { ad with indices := initHash } 0 hcap
      (by rw [hnil]; exact IndexWF.init _ _) (by rw [occupied_initHash]; exact Nat.zero_le _)
  refine ⟨indices, chain, hloop, ⟨⟨⟨_, indexScale_pow ad⟩, ?_, hsize, hw, ?_⟩, hge, hlen, hroom⟩⟩
  · exact (slots_length ad).trans_le hcap
  · exact hocc.trans (countLive_le_length _)

/-- **`resize(index)` は要素の列を変えずに `index` の段の表へ入れ直す。** `addLoop` は止まらず、
結果は入れ直した配列か、歩幅の検査による `unbalanced` である。 -/
theorem resize_spec {o : Options} {mad : MonotypeDict K α T} (hI : Inv M mad) {index : Nat}
    (hge : kMinSizeIndex ≤ index) (hroom : mad.used ≤ scaleBySizeIndex kMinNumElms index - 1) :
    ∃ indices, Inv M { mad with sizeIndex := index, indices := indices } ∧
      (mad.resize M o index = .ok { mad with sizeIndex := index, indices := indices } ∨
        ∃ n, mad.resize M o index = .error (.unbalanced n)) := by
  obtain ⟨indices, chain, hloop, hinv⟩ :=
    Inv.of_addLoop M { mad with sizeIndex := index } hI.wf.size_eq hge hI.length_eq hroom
  have hloop' : addLoop M { mad with sizeIndex := index, indices := initHash } 0
      (mad.liveElms.map fun (i, k, _) => (i, k)) =
        .ok ({ mad with sizeIndex := index, indices := indices }, chain) := by
    rw [liveElms, liveElms_map_liveKeys]
    exact hloop
  refine ⟨indices, hinv, ?_⟩
  unfold resize
  dsimp only
  rw [hloop']
  simp only [bind, Except.bind]
  -- 歩幅の検査を通ったときだけ `.ok`
  split
  · exact Or.inr ⟨_, rfl⟩
  · exact Or.inl rfl

theorem resize_inv {o : Options} {mad mad' : MonotypeDict K α T} (hI : Inv M mad) {index : Nat}
    (hge : kMinSizeIndex ≤ index) (hroom : mad.used ≤ scaleBySizeIndex kMinNumElms index - 1)
    (h : mad.resize M o index = .ok mad') :
    Inv M mad' ∧ mad' = { mad with sizeIndex := index, indices := mad'.indices } := by
  obtain ⟨indices, hinv, hok | ⟨n, herr⟩⟩ := resize_spec (o := o) hI hge hroom
  · rw [hok] at h
    cases h
    exact ⟨hinv, rfl⟩
  · rw [herr] at h
    cases h

/-- `prepareForInsert()` は、空きのある配列を返すか、`resize` の `unbalanced` で止まる。 -/
theorem prepareForInsert_ok_or_unbalanced {o : Options} {mad : MonotypeDict K α T}
    (hI : Inv M mad) :
    (∃ mad', mad.prepareForInsert M o = .ok mad') ∨
      ∃ n, mad.prepareForInsert M o = .error (.unbalanced n) := by
  unfold prepareForInsert
  split
  · next hfull =>
    obtain ⟨hge, hroom⟩ := grow_room hI hfull
    obtain ⟨indices, -, hok | hn⟩ := resize_spec (o := o) hI hge hroom.le
    · exact Or.inl ⟨_, hok⟩
    · exact Or.inr hn
  · exact Or.inl ⟨mad, rfl⟩

/-- `prepareForInsert()` の後は、要素の列を変えずに、少なくとも一つ空きがある。 -/
theorem prepareForInsert_inv {o : Options} {mad mad' : MonotypeDict K α T} (hI : Inv M mad)
    (h : mad.prepareForInsert M o = .ok mad') :
    Inv M mad' ∧ mad'.used < mad'.numElms ∧
      mad' = { mad with sizeIndex := mad'.sizeIndex, indices := mad'.indices } := by
  unfold prepareForInsert at h
  split at h
  · next hfull =>
    obtain ⟨hge, hroom⟩ := grow_room hI hfull
    obtain ⟨hinv, heq⟩ := resize_inv hI hge hroom.le h
    have hsi : mad'.sizeIndex = mad.sizeIndex + kSizeClassesPerDoubling := by rw [heq]
    refine ⟨hinv, ?_, by rw [hsi]; exact heq⟩
    rw [heq]
    exact hroom
  · next hfull =>
    cases h
    exact ⟨hI, lt_of_le_of_ne hI.used_le hfull, rfl⟩

/-- **`compactIfNeeded()` は止まらず、`Inv` を保つ。** 要素の列はそのままか、生きている要素を
前に詰めたもので、詰めるときは要素の数に見合う段の表へ入れ直す。 -/
theorem compactIfNeeded_spec {mad : MonotypeDict K α T} (hI : Inv M mad) :
    ∃ mad', compactIfNeeded M mad = .ok mad' ∧ Inv M mad' ∧
      (mad'.elms = mad.elms ∨ mad'.elms = mad.liveElms.map fun (_, k, v) => (some k, v)) := by
  unfold compactIfNeeded
  dsimp only
  split
  · exact ⟨mad, rfl, hI, Or.inl rfl⟩
  · -- 生きている要素を前に詰めた配列
    set live := mad.liveElms with hlive
    have hlen : live.length = mad.size := by
      rw [hlive, liveElms_length]
      exact hI.wf.size_eq.symm
    set shrink := decide (mad.tombstones > max (2 * mad.size) (kMinNumElms - 1)) with hshrink
    set result : MonotypeDict K α T :=
      { sizeIndex := if shrink = true then ComputeSizeIndex (max (2 * mad.size) (kMinNumElms - 1))
          else mad.sizeIndex
        type := mad.type
        size := live.length
        tombstones := 0
        elms := live.map fun (_, k, v) => (some k, v)
        indices := initHash } with hresult
    have hslots : result.slots = (live.map fun e => (e.2.1, e.2.2)).map some := slots_compact live
    have hsize : result.size = countLive result.slots := by
      rw [hslots, countLive_map_some, List.length_map]
    have hlen' : result.elms.length = result.used := by
      show (live.map _).length = live.length + 0
      rw [List.length_map, Nat.add_zero]
    -- 段：縮めるなら `ComputeSizeIndex(target)`、zombie ならそのまま
    have hgeroom : kMinSizeIndex ≤ result.sizeIndex ∧ result.used ≤ result.numElms := by
      show kMinSizeIndex ≤ result.sizeIndex ∧ live.length + 0 ≤ result.numElms
      by_cases hs : shrink = true
      · have hc := ComputeSizeIndex_spec (max (2 * mad.size) (kMinNumElms - 1))
        simp only [hresult, hs, if_true, numElms]
        omega
      · have hs' : (if shrink = true then ComputeSizeIndex (max (2 * mad.size) (kMinNumElms - 1))
            else mad.sizeIndex) = mad.sizeIndex := if_neg hs
        have hused := hI.used_le
        simp only [hresult, hs', numElms, used] at hused ⊢
        exact ⟨hI.sizeIndex_ge, by omega⟩
    obtain ⟨indices, chain, hloop, hinv⟩ :=
      Inv.of_addLoop M result hsize hgeroom.1 hlen' hgeroom.2
    have hloop' : addLoop M result 0 (live.zipIdx.map fun ((_, k, _), cur) => (cur, k)) =
        .ok ({ result with indices := indices }, chain) := by
      rw [zipIdx_map_liveKeys]
      exact hloop
    rw [hloop']
    exact ⟨_, rfl, hinv, Or.inr rfl⟩

theorem compactIfNeeded_inv {mad mad' : MonotypeDict K α T} (hI : Inv M mad)
    (h : compactIfNeeded M mad = .ok mad') : Inv M mad' := by
  obtain ⟨mad'', h', hinv, -⟩ := compactIfNeeded_spec hI
  rw [h] at h'
  cases h'
  exact hinv

/-! ## 探索の結果 -/

/-- **探索は必ず返る。** fuel `numIndices()` で足りる。 -/
theorem find_isSome {mad : MonotypeDict K α T} (hI : Inv M mad) {mode : FindMode} {key : Option K}
    (hkey : mode = .add ∨ key ≠ none) (hash : UInt32) : (mad.find mode key hash).isSome := by
  have hs := findImpl_isSome_of_empty (indexScale_pow mad) (hitOf mode key) hash hI.wf.exists_empty
  rw [← find_map_toFound mad hkey, Option.isSome_map] at hs
  exact hs

/-- 探索が当たったマスは表の中で位置 `index` を指し、そこにはその key の生きている要素がある。 -/
theorem find_hit {mad : MonotypeDict K α T} (hI : Inv M mad) {mode : FindMode} {kk : K} {hash : UInt32} {i index : Nat}
    (h : mad.find mode (some kk) hash = some (.hit i index)) :
    i < numSlots mad.indexScale ∧ mad.indices i = .pos index ∧
      ∃ v, mad.elms[index]? = some (some kk, v) := by
  have hkey : mode = .add ∨ some kk ≠ none := Or.inr (by simp)
  have hf := find_map_toFound mad hkey hash
  rw [h] at hf
  obtain ⟨hi, hslot, hhit⟩ := hI.wf.slot_of_hit hf.symm
  rw [hitAt_hitOf mad hkey] at hhit
  have hfst : mad.elms[index]?.map Prod.fst = some (some kk) := (of_decide_eq_true hhit).2
  obtain ⟨⟨k', v⟩, he, hk'⟩ := Option.map_eq_some_iff.mp hfst
  cases hk'
  exact ⟨hi, hslot, v, he⟩

end Inv

/-! ## 消す操作 -/

section Remove

variable [DecidableEq K] {M : MonoKey S K}

/-- **`removeImpl` の場合分け。** 見つからなければそのまま、見つかればそのマスを `Tombstone` に、
要素の key を tombstone にしてから `compactIfNeeded`。 -/
theorem removeImpl_cases {mad mad' : MonotypeDict K α T} {key : Option K}
    (h : mad.removeImpl M key = .ok mad') :
    mad' = mad ∨
      ∃ kk i index, key = some kk ∧
        mad.find .remove (some kk) (M.getHash kk) = some (.hit i index) ∧
        compactIfNeeded M { mad with
          elms := mad.elms.modify index fun e => (none, e.2)
          indices := Function.update mad.indices i .tombstone
          tombstones := mad.tombstones + 1
          size := mad.size - 1 } = .ok mad' := by
  unfold removeImpl at h
  cases key with
  | none =>
    cases h
    exact Or.inl rfl
  | some kk =>
    dsimp only at h
    split at h
    · cases h
    · cases h
      exact Or.inl rfl
    · next i index hf => exact Or.inr ⟨kk, i, index, rfl, hf, h⟩

/-- **`removeImpl` は `Inv` を保つ。** -/
theorem removeImpl_inv {mad mad' : MonotypeDict K α T} (hI : Inv M mad) {key : Option K}
    (h : mad.removeImpl M key = .ok mad') : Inv M mad' := by
  rcases removeImpl_cases h with rfl | ⟨kk, i, index, -, hf, hc⟩
  · exact hI
  · obtain ⟨hi, hslot, -⟩ := find_hit hI hf
    exact compactIfNeeded_inv (hI.erase hi hslot) hc

/-- `PopMove` は最後の要素をその key で消すので `Inv` を保つ。 -/
theorem PopMove_inv {mad mad' : MonotypeDict K α T} (hI : Inv M mad) {v : Option α}
    (h : mad.PopMove M = .ok (mad', v)) : Inv M mad' := by
  unfold PopMove at h
  split at h
  · cases h
    exact hI
  · split at h
    · cases h
    · -- key の種類ごとに `RemoveIntMove` か `RemoveStrMove`：どちらも `removeImpl`
      dsimp only at h
      split at h
      · obtain ⟨r, hr, h⟩ := Except.bind_eq_ok.mp h
        cases h
        exact removeImpl_inv hI hr
      · obtain ⟨r, hr, h⟩ := Except.bind_eq_ok.mp h
        cases h
        exact removeImpl_inv hI hr

end Remove

/-! ## 書く操作 -/

section Write

variable [DecidableEq S] [DecidableEq K] [DecidableEq T] (M : MonoKey S K) (typeOf : α → T)
  (H : Hasher S) (o : Options)

omit [DecidableEq K] [DecidableEq T] in
/-- escalate した結果は vanilla の dict である。 -/
theorem escalateSet_ne_inl (mad : MonotypeDict K α T) (k : Key S) (v : α)
    (mad' : MonotypeDict K α T) : mad.escalateSet M H o k v ≠ .ok (.inl mad') := by
  intro h
  unfold escalateSet at h
  obtain ⟨ad, -, h⟩ := Except.bind_eq_ok.mp h
  obtain ⟨r, -, h⟩ := Except.bind_eq_ok.mp h
  cases h

variable {M typeOf H o}

/-- **`setImpl` が escalate しない場合。** key が表せて値の型が合い、`prepareForInsert` の後の
`find<Update>` が当たれば値を書き換え、外れれば覚えたマス（無ければ止まったマス）に位置
`used()` を書いて末尾に足す。 -/
theorem setImpl_cases {mad mad' : MonotypeDict K α T} {key : Option K} {k : Key S} {v : α}
    (h : mad.setImpl M typeOf H o key k v = .ok (.inl mad')) :
    ∃ kk result, key = some kk ∧ mad.type = typeOf v ∧ mad.prepareForInsert M o = .ok result ∧
      ((∃ i index, result.find .update (some kk) (M.getHash kk) = some (.hit i index) ∧
          mad' = { result with elms := result.elms.modify index fun e => (e.1, v) }) ∨
        (∃ i delta first,
          result.find .update (some kk) (M.getHash kk) = some (.miss i delta first) ∧
          mad' = { result with
            indices := Function.update result.indices (if first = 0 then i else first - 1)
              (.pos result.used)
            elms := result.elms ++ [(some kk, v)]
            size := result.size + 1 })) := by
  unfold setImpl at h
  cases key with
  | none => exact absurd h (escalateSet_ne_inl M H o mad k v mad')
  | some kk =>
    dsimp only at h
    split at h
    · next hty =>
      obtain ⟨result, hprep, h⟩ := Except.bind_eq_ok.mp h
      refine ⟨kk, result, rfl, hty, hprep, ?_⟩
      split at h
      · cases h
      · next i index hf =>
        cases h
        exact Or.inl ⟨i, index, hf, rfl⟩
      · next i delta first hf =>
        cases h
        exact Or.inr ⟨i, delta, first, hf, rfl⟩
    · exact absurd h (escalateSet_ne_inl M H o mad k v mad')

/-- **escalate しない `setImpl` は `Inv` を保つ。** -/
theorem setImpl_inv {mad mad' : MonotypeDict K α T} (hI : Inv M mad) {key : Option K} {k : Key S}
    {v : α} (h : mad.setImpl M typeOf H o key k v = .ok (.inl mad')) : Inv M mad' := by
  obtain ⟨kk, result, rfl, -, hprep, hcase⟩ := setImpl_cases h
  obtain ⟨hR, hroom, -⟩ := prepareForInsert_inv hI hprep
  rcases hcase with ⟨i, index, hf, rfl⟩ | ⟨i, delta, first, hf, rfl⟩
  · -- 当たった：値だけを書き換える
    obtain ⟨-, -, v₀, he⟩ := find_hit hR hf
    exact hR.setVal he v
  · -- 外れた：覚えたマスに足す
    obtain ⟨n, hn, hslot, hfree, hbefore⟩ := find_update_miss result (some kk) (M.getHash kk) hf
    rw [hslot]
    exact hR.append hroom v hn hfree hbefore

/-- `AppendMove` が `MonotypeDict` のままなら `Inv` は保たれる。次の key が負なら何もしない。 -/
theorem AppendMove_inv {mad mad' : MonotypeDict K α T} (hI : Inv M mad) {v : α} {w : List Raised}
    (h : mad.AppendMove M typeOf H o v = .ok (.inl mad', w)) : Inv M mad' := by
  unfold AppendMove at h
  dsimp only at h
  split at h
  · cases h
    exact hI
  · obtain ⟨r, hr, h⟩ := Except.bind_eq_ok.mp h
    cases h
    exact setImpl_inv hI hr

/-- `MakeFromVanilla` の一歩：`SetStrMove` と `SetIntMove` はどちらも `coerceKey` で引いた key の
`setImpl` であり、escalate すれば `assertx` で止まる。 -/
theorem makeFromVanilla_step {acc acc' : MonotypeDict K α T} {kv : Key S × α}
    (h : (do
      let next ← match kv.1 with
        | .str s => acc.SetStrMove M typeOf H o s kv.2
        | .int i => acc.SetIntMove M typeOf H o i kv.2
      match next with
      | .inl r => .ok r
      | .inr _ => .error .assertFailed : Except Fault (MonotypeDict K α T)) = .ok acc') :
    acc.setImpl M typeOf H o (M.coerce kv.1) kv.1 kv.2 = .ok (.inl acc') := by
  -- key の種類で `match` を落とすと、どちらも `setImpl` の結果に `assertx` をかけたもの
  obtain ⟨k, v⟩ := kv
  have hinl : ∀ {x : Except Fault (MonotypeDict K α T ⊕ VanillaDict S α)},
      (x >>= fun next => match next with
        | .inl r => .ok r
        | .inr _ => .error .assertFailed) = .ok acc' → x = .ok (.inl acc') := by
    intro x hx
    obtain ⟨next, hset, hnext⟩ := Except.bind_eq_ok.mp hx
    cases next with
    | inr _ => cases hnext
    | inl r =>
      cases hnext
      exact hset
  cases k <;> exact hinl h

/-- `MakeFromVanilla` の畳み込み：escalate しない `setImpl` を重ねるので `Inv` は保たれる。 -/
theorem makeFromVanilla_fold_inv :
    ∀ (kvs : List (Key S × α)) (acc mad : MonotypeDict K α T), Inv M acc →
      kvs.foldlM
        (fun (result : MonotypeDict K α T) kv => do
          let next ← match kv.1 with
            | .str s => result.SetStrMove M typeOf H o s kv.2
            | .int i => result.SetIntMove M typeOf H o i kv.2
          match next with
          | .inl r => .ok r
          | .inr _ => .error .assertFailed) acc = .ok mad → Inv M mad := by
  intro kvs
  induction kvs with
  | nil =>
    intro acc mad hI h
    cases h
    exact hI
  | cons kv rest ih =>
    intro acc mad hI h
    rw [List.foldlM_cons] at h
    obtain ⟨acc', hstep, h⟩ := Except.bind_eq_ok.mp h
    exact ih acc' mad (setImpl_inv hI (makeFromVanilla_step hstep)) h

/-- `MakeFromVanilla` の結果は `Inv` を満たす。 -/
theorem MakeFromVanilla_inv {ad : VanillaDict S α} {dt : T} {mad : MonotypeDict K α T}
    (h : MakeFromVanilla M typeOf H o ad dt = .ok mad) : Inv M mad :=
  makeFromVanilla_fold_inv _ _ _ (Inv.MakeReserve M ad.size dt) h

end Write

/-! ## 届く配列 -/

section Reachable

variable [DecidableEq S] [DecidableEq K] [DecidableEq T] (M : MonoKey S K) (typeOf : α → T)
  (H : Hasher S) (o : Options)

/-- `MakeReserve` か `MakeFromVanilla` から、`MonotypeDict` のままでいる操作を重ねて届く配列。 -/
inductive Reachable : MonotypeDict K α T → Prop where
  | ofReserve (capacity : Nat) (dt : T) : Reachable (MakeReserve capacity dt)
  | ofVanilla {ad : VanillaDict S α} {dt : T} {mad : MonotypeDict K α T}
      (h : MakeFromVanilla M typeOf H o ad dt = .ok mad) : Reachable mad
  | setInt {mad mad' : MonotypeDict K α T} (hr : Reachable mad) {k : Int64} {v : α}
      (h : mad.SetIntMove M typeOf H o k v = .ok (.inl mad')) : Reachable mad'
  | setStr {mad mad' : MonotypeDict K α T} (hr : Reachable mad) {k : S} {v : α}
      (h : mad.SetStrMove M typeOf H o k v = .ok (.inl mad')) : Reachable mad'
  | removeInt {mad mad' : MonotypeDict K α T} (hr : Reachable mad) {k : Int64}
      (h : mad.RemoveIntMove M k = .ok mad') : Reachable mad'
  | removeStr {mad mad' : MonotypeDict K α T} (hr : Reachable mad) {k : S}
      (h : mad.RemoveStrMove M k = .ok mad') : Reachable mad'
  | append {mad mad' : MonotypeDict K α T} (hr : Reachable mad) {v : α} {w : List Raised}
      (h : mad.AppendMove M typeOf H o v = .ok (.inl mad', w)) : Reachable mad'
  | pop {mad mad' : MonotypeDict K α T} (hr : Reachable mad) {v : Option α}
      (h : mad.PopMove M = .ok (mad', v)) : Reachable mad'

variable {M typeOf H o}

/-- **`MonotypeDict` の索引の不変量。** 届く配列はすべて `Inv` を満たす：要素の列と `indices()` は
vanilla と同じ索引の不変量を満たし、表の大きさは段に合い、要素は容量に収まる。 -/
theorem Reachable.inv {mad : MonotypeDict K α T} (hr : Reachable M typeOf H o mad) : Inv M mad := by
  induction hr with
  | ofReserve capacity dt => exact Inv.MakeReserve M capacity dt
  | ofVanilla h => exact MakeFromVanilla_inv h
  | setInt _ h ih => exact setImpl_inv ih h
  | setStr _ h ih => exact setImpl_inv ih h
  | removeInt _ h ih => exact removeImpl_inv ih h
  | removeStr _ h ih => exact removeImpl_inv ih h
  | append _ h ih => exact AppendMove_inv ih h
  | pop _ h ih => exact PopMove_inv ih h

end Reachable

end MonotypeDict

end Bespoke

end Hhvm
