import Mathlib.Data.Nat.Bitwise

/-!
# byte 列

固定幅の整数を little-endian の byte 列に書き、先頭から読み戻すための道具。

* `toListLE w n` は `n` の下位 `w` byte、`ofListLE` はその逆。`ofListLE_toListLE` が往復の法則。
* `Reader` は byte 列を先頭から読む計算で、残りの列を状態に持ち、足りなければ `none` になる。
  各読み手には「書いたものの後に何が続いても、書いた値を返して続きを残す」形の補題を置く。
* mask と shift の組み合わせを足し算に直す `Nat` の bit 演算の補題。
-/

namespace Infra.Bytes

/-! ## little-endian -/

/-- `n` の下位 `w` byte を、下位から並べる。 -/
def toListLE : Nat → Nat → List UInt8
  | 0, _ => []
  | w + 1, n => UInt8.ofNat (n % 256) :: toListLE w (n / 256)

/-- 下位から並んだ byte 列の値。 -/
def ofListLE : List UInt8 → Nat
  | [] => 0
  | b :: bs => b.toNat + 256 * ofListLE bs

@[simp] theorem toListLE_zero (n : Nat) : toListLE 0 n = [] := rfl

@[simp] theorem toListLE_succ (w n : Nat) :
    toListLE (w + 1) n = UInt8.ofNat (n % 256) :: toListLE w (n / 256) := rfl

@[simp] theorem ofListLE_nil : ofListLE [] = 0 := rfl

@[simp] theorem ofListLE_cons (b : UInt8) (bs : List UInt8) :
    ofListLE (b :: bs) = b.toNat + 256 * ofListLE bs := rfl

@[simp] theorem length_toListLE (w n : Nat) : (toListLE w n).length = w := by
  induction w generalizing n with
  | zero => rfl
  | succ w ih => rw [toListLE_succ, List.length_cons, ih]

/-- **往復の法則。** 書いた `w` byte を読むと、`n` の下位 `w` byte の値になる。 -/
theorem ofListLE_toListLE (w n : Nat) : ofListLE (toListLE w n) = n % 256 ^ w := by
  induction w generalizing n with
  | zero => rw [toListLE_zero, ofListLE_nil, Nat.pow_zero, Nat.mod_one]
  | succ w ih =>
    have hb : (UInt8.ofNat (n % 256)).toNat = n % 256 := by
      rw [UInt8.toNat_ofNat', Nat.mod_eq_of_lt (by omega)]
    rw [toListLE_succ, ofListLE_cons, ih, hb, Nat.pow_succ, Nat.mul_comm (256 ^ w) 256,
      Nat.mod_mul]

/-- 先頭の byte は、値を 256 で割った余りである。 -/
theorem head_toListLE (w n : Nat) :
    (toListLE (w + 1) n).head? = some (UInt8.ofNat (n % 256)) := rfl

/-! ## bit 演算 -/

/-- 上位を `2 ^ k - 1` で切って `j` bit ずらした mask は、`j` bit 目からの `k` bit を取り出す。 -/
theorem and_ones_shiftLeft (x k j : Nat) :
    x &&& ((2 ^ k - 1) <<< j) = ((x >>> j) % 2 ^ k) <<< j := by
  apply Nat.eq_of_testBit_eq
  intro i
  rw [Nat.testBit_land, Nat.testBit_shiftLeft, Nat.testBit_shiftLeft, Nat.testBit_two_pow_sub_one,
    ← Nat.and_two_pow_sub_one_eq_mod, Nat.testBit_land, Nat.testBit_two_pow_sub_one,
    Nat.testBit_shiftRight]
  by_cases hij : j ≤ i
  · have he : j + (i - j) = i := by omega
    rw [he]
    cases x.testBit i <;> simp [hij]
  · simp [hij]

/-- 重ならない bit の `|||` は足し算である。 -/
theorem shiftLeft_or_eq_add {i b : Nat} (hb : b < 2 ^ i) (a : Nat) :
    a <<< i ||| b = a <<< i + b :=
  (Nat.shiftLeft_add_eq_or_of_lt hb a).symm

/-- 一つの bit だけの mask は、その bit の値を取り出す。 -/
theorem and_two_pow (x k : Nat) : x &&& 2 ^ k = x / 2 ^ k % 2 * 2 ^ k := by
  have h := and_ones_shiftLeft x 1 k
  rw [show (2 ^ 1 - 1) <<< k = 2 ^ k by rw [Nat.shiftLeft_eq, Nat.pow_one, Nat.one_mul]] at h
  rw [h, Nat.shiftLeft_eq, Nat.shiftRight_eq_div_pow, Nat.pow_one]

/-- 空いている bit を `|||` で立てるのは、その bit の重みを足すことである。 -/
theorem or_two_pow_eq_add {x k : Nat} (hx : x / 2 ^ k % 2 = 0) : x ||| 2 ^ k = x + 2 ^ k := by
  have hpos := Nat.two_pow_pos k
  -- `k` bit 目より上と下に分ける。`k` bit 目が空いているので、下は `2 ^ k` 未満
  obtain ⟨hi, lo, hx', hlo⟩ : ∃ hi lo, x = hi <<< (k + 1) + lo ∧ lo < 2 ^ k := by
    refine ⟨x / 2 ^ (k + 1), x % 2 ^ (k + 1), ?_, ?_⟩
    · rw [Nat.shiftLeft_eq, Nat.div_add_mod']
    · rw [Nat.mod_pow_succ, hx, Nat.mul_zero, Nat.add_zero]
      exact Nat.mod_lt _ hpos
  have hbound : lo + 2 ^ k < 2 ^ (k + 1) := by
    rw [Nat.pow_succ]
    omega
  calc x ||| 2 ^ k
      = hi <<< (k + 1) ||| (lo ||| 2 ^ k) := by
        rw [hx', ← shiftLeft_or_eq_add (Nat.lt_trans hlo (Nat.pow_lt_pow_succ (by decide))),
          Nat.or_assoc]
    _ = hi <<< (k + 1) ||| (lo + 2 ^ k) := by rw [Nat.or_two_pow_eq_add_of_lt hlo]
    _ = hi <<< (k + 1) + (lo + 2 ^ k) := shiftLeft_or_eq_add hbound _
    _ = x + 2 ^ k := by rw [hx', Nat.add_assoc]

/-! ## 読み手 -/

/-- byte 列を先頭から読む計算。読み残した列を状態に持ち、足りなければ `none` を返す。 -/
abbrev Reader := StateT (List UInt8) Option

/-- 一 byte 読んで進む。 -/
def readByte : Reader UInt8 := fun s =>
  match s with
  | [] => none
  | b :: bs => some (b, bs)

/-- 一 byte 読むが進まない。 -/
def peekByte : Reader UInt8 := fun s =>
  match s with
  | [] => none
  | b :: _ => some (b, s)

/-- `n` byte をそのまま読む。 -/
def readBytes (n : Nat) : Reader (List UInt8) := fun s =>
  if n ≤ s.length then some (s.take n, s.drop n) else none

/-- `w` byte を little-endian の整数として読む。 -/
def readLE (w : Nat) : Reader Nat := fun s =>
  if w ≤ s.length then some (ofListLE (s.take w), s.drop w) else none

variable {α β : Type}

@[simp] theorem readByte_cons (b : UInt8) (s : List UInt8) :
    readByte.run (b :: s) = some (b, s) := rfl

@[simp] theorem peekByte_cons (b : UInt8) (s : List UInt8) :
    peekByte.run (b :: s) = some (b, b :: s) := rfl

theorem readBytes_append {l : List UInt8} {n : Nat} (hl : l.length = n) (s : List UInt8) :
    (readBytes n).run (l ++ s) = some (l, s) := by
  subst hl
  show (if l.length ≤ (l ++ s).length then _ else none) = _
  rw [if_pos (by simp), List.take_left, List.drop_left]

/-- 書いた `w` byte の後に何が続いても、その値を読んで続きを残す。 -/
theorem readLE_toListLE (w n : Nat) (s : List UInt8) :
    (readLE w).run (toListLE w n ++ s) = some (n % 256 ^ w, s) := by
  show (if w ≤ (toListLE w n ++ s).length then _ else none) = _
  have hlen := length_toListLE w n
  rw [if_pos (by simp [hlen]), List.take_left' hlen, List.drop_left' hlen, ofListLE_toListLE]

@[simp] theorem run_pure (a : α) (s : List UInt8) : (pure a : Reader α).run s = some (a, s) := rfl

/-- 一段目の結果が分かれば、続きはその値と残りから読む。 -/
theorem run_bind_of_run {x : Reader α} {f : α → Reader β} {s s' : List UInt8} {a : α}
    (h : x.run s = some (a, s')) : (x >>= f).run s = (f a).run s' := by
  rw [StateT.run_bind, h]
  rfl

theorem run_map_of_run {x : Reader α} {f : α → β} {s s' : List UInt8} {a : α}
    (h : x.run s = some (a, s')) : (f <$> x).run s = some (f a, s') := by
  rw [StateT.run_map, h]
  rfl

/-- 条件で読み手を選ぶ段は、どちらの枝も同じ結果を返せばその結果を返す。 -/
theorem run_ite_of_run {c : Prop} [Decidable c] {x y : Reader α} {s s' : List UInt8} {a : α}
    (hx : c → x.run s = some (a, s')) (hy : ¬c → y.run s = some (a, s')) :
    (if c then x else y).run s = some (a, s') := by
  split
  · next h => exact hx h
  · next h => exact hy h

/-! ## 固定幅の語 -/

def bytesU16 (x : UInt16) : List UInt8 := toListLE 2 x.toNat

def bytesU32 (x : UInt32) : List UInt8 := toListLE 4 x.toNat

def bytesU64 (x : UInt64) : List UInt8 := toListLE 8 x.toNat

def readU16 : Reader UInt16 := UInt16.ofNat <$> readLE 2

def readU32 : Reader UInt32 := UInt32.ofNat <$> readLE 4

def readU64 : Reader UInt64 := UInt64.ofNat <$> readLE 8

@[simp] theorem length_bytesU16 (x : UInt16) : (bytesU16 x).length = 2 := length_toListLE _ _

@[simp] theorem length_bytesU32 (x : UInt32) : (bytesU32 x).length = 4 := length_toListLE _ _

@[simp] theorem length_bytesU64 (x : UInt64) : (bytesU64 x).length = 8 := length_toListLE _ _

theorem readU16_bytesU16 (x : UInt16) (s : List UInt8) :
    readU16.run (bytesU16 x ++ s) = some (x, s) := by
  rw [readU16, bytesU16, run_map_of_run (readLE_toListLE 2 x.toNat s)]
  simp

theorem readU32_bytesU32 (x : UInt32) (s : List UInt8) :
    readU32.run (bytesU32 x ++ s) = some (x, s) := by
  rw [readU32, bytesU32, run_map_of_run (readLE_toListLE 4 x.toNat s)]
  simp

theorem readU64_bytesU64 (x : UInt64) (s : List UInt8) :
    readU64.run (bytesU64 x ++ s) = some (x, s) := by
  rw [readU64, bytesU64, run_map_of_run (readLE_toListLE 8 x.toNat s)]
  simp

/-- 先頭の byte は語の下位 8 bit である。 -/
theorem bytesU32_eq_cons (x : UInt32) :
    ∃ rest, bytesU32 x = x.toUInt8 :: rest ∧ rest.length = 3 := by
  refine ⟨toListLE 3 (x.toNat / 256), ?_, length_toListLE _ _⟩
  rw [bytesU32, toListLE_succ]
  congr 1
  apply UInt8.toNat.inj
  rw [UInt8.toNat_ofNat', UInt32.toNat_toUInt8]
  omega

/-! ## `uint64_t` の bit 集合

`uint64_t` を 64 個の bit の集合として使う表（`AsciiMap`、`strtr_fast` の mask）のための補題。
bit は `Nat.testBit` で読む。 -/

theorem testBit_shiftRight_and_one (w : UInt64) {j : Nat} (hj : j < 64) :
    ((w >>> j.toUInt64) &&& 1 ≠ 0) ↔ w.toNat.testBit j := by
  have hj' : j.toUInt64.toNat % 64 = j := by simp; omega
  rw [ne_eq, ← UInt64.toNat_inj]
  simp only [UInt64.toNat_and, UInt64.toNat_shiftRight, UInt64.toNat_zero, UInt64.toNat_one, hj',
    Nat.and_one_is_mod, Nat.testBit, Nat.one_and_eq_mod_two]
  simp

theorem testBit_or_one_shiftLeft (w : UInt64) {k j : Nat} (hk : k < 64) (hj : j < 64) :
    (w ||| (1 : UInt64) <<< k.toUInt64).toNat.testBit j = (w.toNat.testBit j || decide (k = j)) := by
  have hk' : k.toUInt64.toNat % 64 = k := by simp; omega
  simp only [UInt64.toNat_or, UInt64.toNat_shiftLeft, UInt64.toNat_one, Nat.testBit_or, hk',
    Nat.testBit_mod_two_pow, Nat.one_shiftLeft, Nat.testBit_two_pow]
  simp [hj]

theorem testBit_and (a b : UInt64) (j : Nat) :
    (a &&& b).toNat.testBit j = (a.toNat.testBit j && b.toNat.testBit j) := by
  rw [UInt64.toNat_and, Nat.testBit_and]

theorem testBit_allOnes {j : Nat} (hj : j < 64) : (~~~(0 : UInt64)).toNat.testBit j = true := by
  have h : (~~~(0 : UInt64)).toNat = 2 ^ 64 - 1 := rfl
  rw [h, Nat.testBit_two_pow_sub_one]
  simpa using hj

theorem ne_zero_of_testBit {w : UInt64} {j : Nat} (h : w.toNat.testBit j = true) : w ≠ 0 := by
  rintro rfl
  simp at h

/-- 64 ビット目から上は立たない。 -/
theorem testBit_toNat_of_le (w : UInt64) {i : Nat} (hi : 64 ≤ i) : w.toNat.testBit i = false :=
  Nat.testBit_lt_two_pow (lt_of_lt_of_le w.toNat_lt (Nat.pow_le_pow_right (by decide) hi))

/-- 語はその 64 個のビットで決まる。 -/
theorem eq_of_testBit {a b : UInt64} (h : ∀ i < 64, a.toNat.testBit i = b.toNat.testBit i) :
    a = b := by
  apply UInt64.toNat_inj.mp
  apply Nat.eq_of_testBit_eq
  intro i
  by_cases hi : i < 64
  · exact h i hi
  · rw [testBit_toNat_of_le a (by omega), testBit_toNat_of_le b (by omega)]

theorem testBit_or (a b : UInt64) (j : Nat) :
    (a ||| b).toNat.testBit j = (a.toNat.testBit j || b.toNat.testBit j) := by
  rw [UInt64.toNat_or, Nat.testBit_or]

theorem testBit_not (a : UInt64) {j : Nat} (hj : j < 64) :
    (~~~a).toNat.testBit j = !a.toNat.testBit j := by
  rw [← UInt64.toNat_toBitVec, ← UInt64.toNat_toBitVec, UInt64.toBitVec_not, BitVec.testBit_toNat,
    BitVec.testBit_toNat, BitVec.getLsbD_not]
  simp [hj]

theorem testBit_one_shiftLeft {k : UInt64} (hk : k.toNat < 64) (j : Nat) :
    ((1 : UInt64) <<< k).toNat.testBit j = decide (j = k.toNat) := by
  simp only [UInt64.toNat_shiftLeft, UInt64.toNat_one, Nat.mod_eq_of_lt hk, Nat.one_shiftLeft,
    Nat.testBit_mod_two_pow, Nat.testBit_two_pow]
  by_cases hj : j = k.toNat
  · subst hj
    simp [hk]
  · simp [hj, Ne.symm hj]

/-- `((1 << n) - 1) << l` は `[l, l + n)` のビット。 -/
theorem testBit_mask_shiftLeft {n l : UInt64} (hn : n.toNat < 64) (hl : l.toNat < 64)
    (h : n.toNat + l.toNat ≤ 64) (j : Nat) :
    ((((1 : UInt64) <<< n) - 1) <<< l).toNat.testBit j =
      decide (l.toNat ≤ j ∧ j < l.toNat + n.toNat) := by
  have hpow : ((1 : UInt64) <<< n).toNat = 2 ^ n.toNat := by
    simp only [UInt64.toNat_shiftLeft, UInt64.toNat_one, Nat.mod_eq_of_lt hn, Nat.one_shiftLeft]
    exact Nat.mod_eq_of_lt (Nat.pow_lt_pow_right (by decide) hn)
  have hsub : (((1 : UInt64) <<< n) - 1).toNat = 2 ^ n.toNat - 1 := by
    rw [UInt64.toNat_sub_of_le _ _ ?_, hpow]
    · rfl
    · rw [UInt64.le_iff_toNat_le, hpow]
      exact Nat.one_le_two_pow
  simp only [UInt64.toNat_shiftLeft, hsub, Nat.mod_eq_of_lt hl, Nat.testBit_mod_two_pow,
    Nat.testBit_shiftLeft, Nat.testBit_two_pow_sub_one]
  by_cases hj : l.toNat ≤ j
  · by_cases hj' : j < l.toNat + n.toNat
    · simp [hj, show j < 64 by omega, show j - l.toNat < n.toNat by omega, hj']
    · simp [hj, hj', show ¬ (j - l.toNat < n.toNat) by omega]
  · simp [hj]

/-- `x & (x - 1)` は一番下の立っているビット `t` を落とす。 -/
theorem testBit_and_sub_one {x t : Nat} (ht : x.testBit t = true)
    (hlow : ∀ j < t, x.testBit j = false) (i : Nat) :
    (x &&& (x - 1)).testBit i = (x.testBit i && decide (i ≠ t)) := by
  have hmod : x % 2 ^ (t + 1) = 2 ^ t := by
    apply Nat.eq_of_testBit_eq
    intro j
    rw [Nat.testBit_mod_two_pow, Nat.testBit_two_pow]
    rcases lt_trichotomy j t with hj | rfl | hj
    · simp [hlow j hj, Nat.ne_of_gt hj]
    · simp [ht]
    · simp [show ¬ (j < t + 1) by omega, Nat.ne_of_lt hj]
  have hpos : 0 < 2 ^ t := Nat.two_pow_pos t
  have hx : x = 2 ^ (t + 1) * (x / 2 ^ (t + 1)) + 2 ^ t := by
    have := Nat.div_add_mod x (2 ^ (t + 1))
    omega
  generalize x / 2 ^ (t + 1) = q at hx
  have hx1 : x - 1 = 2 ^ (t + 1) * q + (2 ^ t - 1) := by omega
  have hlt : 2 ^ t < 2 ^ (t + 1) := Nat.pow_lt_pow_right (by decide) (Nat.lt_succ_self t)
  rw [Nat.testBit_and, hx1, hx, Nat.testBit_two_pow_mul_add q hlt,
    Nat.testBit_two_pow_mul_add q (by omega : 2 ^ t - 1 < 2 ^ (t + 1))]
  rcases lt_trichotomy i t with hi | rfl | hi
  · simp [hi, show i < t + 1 by omega, Nat.ne_of_gt hi]
  · simp [Nat.testBit_two_pow_sub_one]
  · simp [show ¬ (i < t + 1) by omega, show i ≠ t by omega]

/-- 立っているビットがあれば、一番下の立っているビットがある。 -/
theorem exists_lowest_testBit {x k : Nat} (h : x.testBit k = true) :
    ∃ t, x.testBit t = true ∧ ∀ j < t, x.testBit j = false := by
  -- `k` についての強い帰納法：`k` より下に立っているビットがあればそちらに下りる
  induction k using Nat.strong_induction_on with
  | _ k ih =>
    by_cases hlow : ∀ j < k, x.testBit j = false
    · exact ⟨k, h, hlow⟩
    · push Not at hlow
      obtain ⟨j, hj, hb⟩ := hlow
      exact ih j hj (by simpa using hb)

/-- `uint64_t` の `x & (x - 1)`：`x` の一番下の立っているビット `t` を落とす。 -/
theorem testBit_and_sub_one_uint64 {w : UInt64} {t : Nat} (ht : w.toNat.testBit t = true)
    (hlow : ∀ j < t, w.toNat.testBit j = false) (i : Nat) :
    (w &&& (w - 1)).toNat.testBit i = (w.toNat.testBit i && decide (i ≠ t)) := by
  have hpos : 1 ≤ w.toNat := Nat.pos_of_ne_zero (fun h => by rw [h] at ht; simp at ht)
  have hle : (1 : UInt64) ≤ w := UInt64.le_iff_toNat_le.mpr hpos
  rw [UInt64.toNat_and, UInt64.toNat_sub_of_le _ _ hle, UInt64.toNat_one]
  exact testBit_and_sub_one ht hlow i

/-- `a & ~b` が 0 なのは、`a` の立っているビットがどれも `b` にも立っているとき。 -/
theorem and_not_eq_zero_iff {a b : UInt64} :
    a &&& ~~~b = 0 ↔ ∀ i < 64, a.toNat.testBit i = true → b.toNat.testBit i = true := by
  constructor
  · intro h i hi ha
    have := congrArg (fun w : UInt64 => w.toNat.testBit i) h
    simp only [testBit_and, testBit_not _ hi, ha, Bool.true_and, UInt64.toNat_zero,
      Nat.zero_testBit, Bool.not_eq_false'] at this
    exact this
  · intro h
    apply eq_of_testBit
    intro i hi
    rw [testBit_and, testBit_not _ hi, UInt64.toNat_zero, Nat.zero_testBit]
    cases ha : a.toNat.testBit i
    · rfl
    · rw [h i hi ha]
      rfl

/-- `w & (1 << k)` が 0 でないのは、`w` のビット `k` が立っているとき。 -/
theorem and_one_shiftLeft_ne_zero (w : UInt64) {k : UInt64} (hk : k.toNat < 64) :
    (w &&& ((1 : UInt64) <<< k) != 0) = w.toNat.testBit k.toNat := by
  by_cases hb : w.toNat.testBit k.toNat
  · rw [hb]
    have : (w &&& ((1 : UInt64) <<< k)).toNat.testBit k.toNat = true := by
      rw [testBit_and, hb, testBit_one_shiftLeft hk]
      simp
    simpa using ne_zero_of_testBit this
  · rw [Bool.eq_false_iff.mpr hb]
    have : w &&& ((1 : UInt64) <<< k) = 0 := by
      apply eq_of_testBit
      intro i hi
      rw [testBit_and, testBit_one_shiftLeft hk]
      by_cases hik : i = k.toNat
      · subst hik
        simp [hb]
      · simp [hik]
    simp [this]

section SetBits

variable {β : Type} (P : β → Prop) [DecidablePred P]

/-- 立っている bit は、後から bit を立てても残る。 -/
theorem testBit_foldl_setBit_of_testBit :
    ∀ (l : List (β × Nat)) {acc : UInt64} {j : Nat}, acc.toNat.testBit j = true →
      (l.foldl (fun acc x => if P x.1 then acc ||| (1 : UInt64) <<< x.2.toUInt64 else acc)
        acc).toNat.testBit j = true
  | [], _, _, h => h
  | x :: l, acc, j, h => by
    rw [List.foldl_cons]
    apply testBit_foldl_setBit_of_testBit l
    split_ifs
    · rw [UInt64.toNat_or, Nat.testBit_or, h, Bool.true_or]
    · exact h

/-- 組の列を順に見て条件を満たす組の番号の bit を立てると、その bit は立っている。 -/
theorem testBit_foldl_setBit_of_mem :
    ∀ (l : List (β × Nat)) (acc : UInt64) {x : β × Nat}, x ∈ l → P x.1 → x.2 < 64 →
      (l.foldl (fun acc x => if P x.1 then acc ||| (1 : UInt64) <<< x.2.toUInt64 else acc)
        acc).toNat.testBit x.2 = true
  | y :: l, acc, x, hx, hP, hlt => by
    rw [List.foldl_cons]
    rcases List.mem_cons.mp hx with rfl | hx
    · apply testBit_foldl_setBit_of_testBit P l
      rw [if_pos hP, testBit_or_one_shiftLeft _ hlt hlt]
      simp
    · exact testBit_foldl_setBit_of_mem l _ hx hP hlt

end SetBits

end Infra.Bytes
