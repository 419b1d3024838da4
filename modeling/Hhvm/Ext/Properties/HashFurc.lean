import Hhvm.Ext.HashFurc
import Hhvm.Infra.ConsistentHash
import Mathlib.Data.Nat.Bitwise

/-!
# `furc_hash` の性質

`furc_get_bit` の遅延キャッシュは、`hash[0..old_ord]` が鍵のハッシュの列 `furcStream` を持つ
こと（`FurcCache.Valid`）を保ち、その間はビット列 `furcBit` をそのまま読む。それで
`furc_hash_internal` は、初めの `hash[]` の中身によらず、`Infra.ConsistentHash` の決定木を
`furcBit` の上で走らせたものに等しい（`furcHashInternal_eq`）。consistent hash であることは
そこから従う（`furcHash_consistent`）。
-/

namespace Hhvm.Ext

open Infra.ConsistentHash

/-! ## ビット列 -/

/-- `H n`：鍵の `murmur_hash_64A` を `n` 回 `murmur_rehash_64A` したもの。 -/
def furcStream (key : List UInt8) : Nat → UInt64
  | 0 => murmurHash64A key SEED.toUInt32
  | n + 1 => murmurRehash64A (furcStream key n)

/-- 決定木の読むビット列：`idx` ビット目は `H (idx / 64)` の `idx % 64` ビット目。 -/
def furcBit (key : List UInt8) (idx : Nat) : Bool :=
  (furcStream key (idx / 64)).toNat.testBit (idx % 64)

/-- `hash[0..old_ord]` が `H 0, …, H old_ord` を持つ。 -/
def FurcCache.Valid (key : List UInt8) (c : FurcCache) : Prop :=
  -1 ≤ c.oldOrd ∧ ∀ n : Nat, (n : Int) ≤ c.oldOrd → c.hash n = furcStream key n

/-- `furc_get_bit(NULL, ...)` の後：何も持たないので、どんな中身でもよい。 -/
theorem FurcCache.valid_init (key : List UInt8) (hash : Nat → UInt64) :
    FurcCache.Valid key ⟨hash, -1⟩ :=
  ⟨le_refl _, fun n hn => absurd hn (by show ¬((n : Int) ≤ -1); omega)⟩

/-! ## `furc_get_bit` -/

/-- 埋める `for`：`start` より前が `H` を持てば、`ord` まで `H` を持つ。 -/
theorem furcFill_spec (key : List UInt8) (hash : Nat → UInt64) (start ord : Nat)
    (hpre : ∀ n < start, hash n = furcStream key n) :
    ∀ n ≤ ord, furcFill key hash start ord n = furcStream key n := by
  -- `range' start k` を一つずつ書く：書いた所までが `H` を持つ
  have hloop : ∀ (k start : Nat) (hash : Nat → UInt64), (∀ n < start, hash n = furcStream key n) →
      ∀ n < start + k, ((List.range' start k).foldl
        (fun h n => Function.update h n
          (if n = 0 then murmurHash64A key SEED.toUInt32 else murmurRehash64A (h (n - 1))))
        hash) n = furcStream key n := by
    intro k
    induction k with
    | zero => intro start hash hpre n hn; exact hpre n hn
    | succ k ih =>
      intro start hash hpre n hn
      rw [List.range'_succ, List.foldl_cons]
      refine ih (start + 1) _ (fun j hj => ?_) n (by omega)
      by_cases hjs : j = start
      · subst hjs
        rw [Function.update_self]
        cases j with
        | zero => rfl
        | succ j => rw [if_neg (Nat.succ_ne_zero j), Nat.add_sub_cancel, hpre j (by omega)]; rfl
      · rw [Function.update_of_ne hjs]
        exact hpre j (by omega)
  intro n hn
  exact hloop _ start hash hpre n (by omega)

/-- 取り出すビット：`(h >> (idx & 0x3f)) & 0x1` は `h` の `idx % 64` ビット目。 -/
theorem extractBit_eq (h : UInt64) {s : Nat} (hs : s < 64) :
    ((h >>> s.toUInt64) &&& 1).toUInt32 = if h.toNat.testBit s then 1 else 0 := by
  apply UInt32.toNat_inj.mp
  have hs' : s.toUInt64.toNat % 64 = s := by simp; omega
  rw [Nat.testBit_eq_decide_div_mod_eq]
  simp only [UInt64.toNat_toUInt32, UInt64.toNat_and, UInt64.toNat_shiftRight, hs',
    Nat.shiftRight_eq_div_pow]
  split <;> simp_all

/-- `furc_get_bit`：キャッシュが正しければ `furcBit` を返し、正しさを保つ。 -/
theorem furcGetBit_spec {key : List UInt8} {c : FurcCache} (hc : c.Valid key) (idx : Nat) :
    (furcGetBit key idx c).1 = (if furcBit key idx then 1 else 0) ∧
      (furcGetBit key idx c).2.Valid key := by
  have hord : idx >>> 6 = idx / 64 := Nat.shiftRight_eq_div_pow idx 6
  have hmask : idx &&& 0x3f = idx % 64 := Nat.and_two_pow_sub_one_eq_mod idx 6
  -- 読む前に埋めた後のキャッシュは `ord` まで正しい
  have hc' : (if c.oldOrd < ↑(idx >>> 6) then
      (⟨furcFill key c.hash (c.oldOrd + 1).toNat (idx >>> 6), ↑(idx >>> 6)⟩ : FurcCache)
      else c).Valid key ∧
      (if c.oldOrd < ↑(idx >>> 6) then
      (⟨furcFill key c.hash (c.oldOrd + 1).toNat (idx >>> 6), ↑(idx >>> 6)⟩ : FurcCache)
      else c).hash (idx >>> 6) = furcStream key (idx >>> 6) := by
    split
    · have hfill := furcFill_spec key c.hash (c.oldOrd + 1).toNat (idx >>> 6)
        fun n hn => hc.2 n (by omega)
      refine ⟨⟨by show (-1 : Int) ≤ ↑(idx >>> 6); omega, fun n hn => hfill n ?_⟩,
        hfill _ (le_refl _)⟩
      change (n : Int) ≤ ↑(idx >>> 6) at hn
      omega
    · exact ⟨hc, hc.2 _ (by omega)⟩
  refine ⟨?_, hc'.1⟩
  simp only [furcGetBit]
  rw [hc'.2, hmask, extractBit_eq _ (Nat.mod_lt idx (by decide)), furcBit, hord]

/-! ## ループ -/

/-- `while (!furc_get_bit(...))`：決定木の `descend` と同じ所で止まり、キャッシュを正しく保つ。 -/
theorem furcDescend_spec {key : List UInt8} {c : FurcCache} (hc : c.Valid key) (d a : Nat) :
    (furcDescend key d a c).map (fun r => (r.1, r.2.1)) = descend (furcBit key) d a ∧
      ∀ r ∈ furcDescend key d a c, r.2.2.Valid key := by
  induction d using Nat.strong_induction_on generalizing a c with
  | _ d ih =>
    obtain ⟨hb, hc₁⟩ := furcGetBit_spec hc a
    rw [furcDescend, descend]
    cases hbit : furcBit key a with
    | false =>
      simp only [hbit, Bool.false_eq_true, if_false] at hb
      rw [if_pos hb, if_pos (show (!false) = true from rfl)]
      by_cases hd : d - 1 = 0
      · rw [if_pos hd, if_pos hd]
        exact ⟨rfl, fun r hr => (Option.not_mem_none r hr).elim⟩
      · rw [if_neg hd, if_neg hd]
        exact ih (d - 1) (by omega) hc₁ (d - 1)
    | true =>
      simp only [hbit, if_true] at hb
      rw [if_neg (by rw [hb]; decide), if_neg (show ¬((!true) = true) from by decide)]
      refine ⟨rfl, fun r hr => ?_⟩
      rw [Option.mem_def, Option.some.injEq] at hr
      rw [← hr]
      exact hc₁

/-- `(num << 1) | bit` は `2 * num + bit`。 -/
theorem shiftLeft_or_bit (num : Nat) (b : Bool) :
    (num <<< 1) ||| (if b then (1 : UInt32) else 0).toNat = 2 * num + if b then 1 else 0 := by
  have hb : (if b then (1 : UInt32) else 0).toNat = if b then 1 else 0 := by cases b <;> rfl
  rw [hb, ← Nat.shiftLeft_add_eq_or_of_lt (by cases b <;> decide), Nat.shiftLeft_eq, Nat.pow_one,
    Nat.mul_comm]

/-- `for (i = 0; i < d-1; i++)`：決定木の `readNum` と同じ数と位置を返し、キャッシュを正しく保つ。 -/
theorem furcReadNum_spec {key : List UInt8} (k : Nat) {c : FurcCache} (hc : c.Valid key)
    (num a : Nat) :
    ((furcReadNum key k num a c).1, (furcReadNum key k num a c).2.1) =
        readNum (furcBit key) FURC_SHIFT k num a ∧
      (furcReadNum key k num a c).2.2.Valid key := by
  induction k generalizing num a c with
  | zero => exact ⟨rfl, hc⟩
  | succ k ih =>
    obtain ⟨hb, hc₁⟩ := furcGetBit_spec hc a
    rw [furcReadNum, readNum]
    rw [hb, shiftLeft_or_bit]
    exact ih hc₁ _ _

/-- 試行の `for`：キャッシュが正しければ、決定木の `tries` と同じ値を返す。 -/
theorem furcTries_eq {key : List UInt8} (m t : Nat) {c : FurcCache} (hc : c.Valid key) (d a : Nat) :
    furcTries key m t d a c = tries (furcBit key) FURC_SHIFT m t d a := by
  induction t generalizing d a c with
  | zero => rfl
  | succ t ih =>
    obtain ⟨hdes, hdc⟩ := furcDescend_spec hc d a
    rw [furcTries, tries]
    cases hr : furcDescend key d a c with
    | none =>
      rw [hr, Option.map_none] at hdes
      rw [← hdes]
    | some r =>
      obtain ⟨d', a', c'⟩ := r
      rw [hr, Option.map_some] at hdes
      rw [← hdes]
      obtain ⟨hnum, hc₂⟩ := furcReadNum_spec (d' - 1) (hdc _ (by rw [hr]; rfl)) 1 (a' + FURC_SHIFT)
      simp only
      rw [← hnum]
      split
      · rfl
      · exact ih hc₂ _ _

/-- `for (d = 0; m > (1ul << d); d++);` は `⌈log₂ m⌉` を求める。 -/
theorem furcDepthLoop_eq (m : Nat) : furcDepthLoop m 0 = Nat.clog 2 m := by
  -- `d ≤ ⌈log₂ m⌉` から始めれば `⌈log₂ m⌉` で止まる
  have hloop : ∀ k d, Nat.clog 2 m - d = k → d ≤ Nat.clog 2 m → furcDepthLoop m d = Nat.clog 2 m := by
    intro k
    induction k with
    | zero =>
      intro d hk hd
      have hdeq : d = Nat.clog 2 m := by omega
      rw [furcDepthLoop, if_neg, hdeq]
      rw [Nat.shiftLeft_eq, Nat.one_mul, hdeq, not_lt]
      exact Nat.le_pow_clog (by decide) m
    | succ k ih =>
      intro d hk hd
      have hlt : 2 ^ d < m := (Nat.lt_clog_iff_pow_lt (b := 2) (by decide)).mp (by omega)
      rw [furcDepthLoop, if_pos (by rw [Nat.shiftLeft_eq, Nat.one_mul]; exact hlt)]
      exact ih (d + 1) (by omega) (by omega)
  exact hloop _ 0 rfl (Nat.zero_le _)

/-- `furc_hash_internal` は、`hash[]` の初めの中身によらず、`furcBit` の上の決定木。 -/
theorem furcHashInternal_eq (key : List UInt8) (m : Nat) (hash : Nat → UInt64) :
    furcHashInternal key m hash = hashOf (furcBit key) FURC_SHIFT m MAX_TRIES := by
  unfold furcHashInternal hashOf
  dsimp only
  rw [furcDepthLoop_eq, furcTries_eq m MAX_TRIES (FurcCache.valid_init key hash)]

/-! ## consistent hash -/

/-- `2 ≤ m` のとき `furc_hash_internal(key, len, m) < m`。さらに `m + 1` の計算が `MAX_TRIES` 回の
試行を使い切らずに返るなら、その値は `m` の値か新しい箱 `m`。二つの呼び出しの `hash[]` の
初めの中身は違ってよい。 -/
theorem furcHash_consistent (key : List UInt8) (hash hash' : Nat → UInt64) {m : Nat}
    (hm : 2 ≤ m) :
    furcHashInternal key m hash < m ∧
      (furcTries key (m + 1) MAX_TRIES (furcDepthLoop (m + 1) 0) (furcDepthLoop (m + 1) 0)
          ⟨hash', -1⟩ ≠ none →
        furcHashInternal key (m + 1) hash' = furcHashInternal key m hash ∨
          furcHashInternal key (m + 1) hash' = m) := by
  rw [furcHashInternal_eq, furcHashInternal_eq, furcDepthLoop_eq,
    furcTries_eq (m + 1) MAX_TRIES (FurcCache.valid_init key hash')]
  exact ⟨hashOf_lt _ _ hm _, hashOf_succ _ _ hm⟩

/-- 鍵 `"hi"` で箱を 3 つにすると、最初の試行は `furcBit 2` の 1 で下りずに止まり、`furcBit 25` の 0 を
読んで候補 `0b10 = 2 < 3` を返す。 -/
theorem furcTries_hi_three :
    furcTries [104, 105] 3 MAX_TRIES (furcDepthLoop 3 0) (furcDepthLoop 3 0)
      ⟨fun n => n.toUInt64, -1⟩ = some 2 := by
  have hd : furcDepthLoop 3 0 = 2 := by
    rw [furcDepthLoop_eq]
    exact clog_succ_pow 1
  have hb2 : furcBit [104, 105] 2 = true := by decide
  have hb25 : furcBit [104, 105] 25 = false := by decide
  rw [hd, furcTries_eq 3 MAX_TRIES (FurcCache.valid_init _ _), show MAX_TRIES = 31 + 1 from rfl,
    tries_of_descend_some _ _ (descend_of_bit _ hb2)]
  simp only [readNum, hb25, FURC_SHIFT]
  rfl

/-- 鍵 `"hi"`：箱を 2 から 3 に増やすと、`m + 1` の計算は試行を使い切らずに返り、その値は前の値か
新しい箱 2。二つの呼び出しの `hash[]` の初めの中身は違う。 -/
theorem furcHash_consistent_hi :
    2 ≤ 2 ∧
      furcTries [104, 105] 3 MAX_TRIES (furcDepthLoop 3 0) (furcDepthLoop 3 0)
        ⟨fun n => n.toUInt64, -1⟩ ≠ none ∧
      furcHashInternal [104, 105] 2 (fun _ => 0) < 2 ∧
      (furcHashInternal [104, 105] 3 (fun n => n.toUInt64) =
          furcHashInternal [104, 105] 2 (fun _ => 0) ∨
        furcHashInternal [104, 105] 3 (fun n => n.toUInt64) = 2) := by
  have hne : furcTries [104, 105] 3 MAX_TRIES (furcDepthLoop 3 0) (furcDepthLoop 3 0)
      ⟨fun n => n.toUInt64, -1⟩ ≠ none := by
    rw [furcTries_hi_three]
    exact Option.some_ne_none 2
  obtain ⟨hlt, hsucc⟩ :=
    furcHash_consistent [104, 105] (fun _ => 0) (fun n => n.toUInt64) (le_refl 2)
  exact ⟨le_refl 2, hne, hlt, hsucc hne⟩

end Hhvm.Ext
