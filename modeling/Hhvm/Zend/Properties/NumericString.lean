import Hhvm.Zend.NumericString
import Hhvm.Infra.Decimal

/-!
# `is_numeric_string` が読む数

`allow_errors` が 0 で 16 進を読まない（`PHP7_NoHexNumerics`）とき、`is_numeric_string` は

* 空白・符号・10 進の数字の列（`IntLiteral`）を、値が `int64_t` に収まればその値の
  `KindOfInt64` とし、収まらなければ `overflow` を符号にした `KindOfDouble` とする、
* それ以外で `KindOfNull` でないものは、空白・符号・仮数・指数の形（`NumLiteral`）をしている。

## 証明の順

走査は位置 `ptr` で進むので、位置 `i` から先の列 `b.drop i` で読む（`byteAt_eq_headD`、
`drop_skipWhile`）。

* 数字の列の上のループは `checkDigits_digits` で一度に進め、末尾で `afterLoop` に渡る。
  数字が 20 個を越えるかどうかで `afterLoop_of_lt` と `afterLoop_of_le` に分かれる。
* 19 桁のときの `strncmp` は、同じ長さの数字の列では値の比較になる（`strncmp_digits`）。
  `fast_strtoll_base10` は負の側に溜めるので、`int64_t` の範囲ならその値を返す
  （`fast_strtoll_base10_eq`）。
* 逆向きは、`KindOfInt64` で末尾まで読んだ走査は数字しか読んでいない（`checkDigits_int`）
  ことと、末尾まで読んだ走査が読んだものは `'.'` と指数の位置について文法に従う
  （`checkDigits_accept`、`zendStrtodEnd_accept`）ことから。
-/

namespace Hhvm.Zend

open Infra.Decimal

/-! ## 位置と、その先の列 -/

theorem byteAt_eq_headD (b : List UInt8) (i : Nat) : byteAt b i = (b.drop i).headD 0 := by
  rw [byteAt, List.getD_eq_getElem?_getD, ← List.head?_drop, List.headD_eq_head?_getD]

theorem byteAt_of_drop {b r : List UInt8} {i : Nat} {c : UInt8} (h : b.drop i = c :: r) :
    byteAt b i = c := by
  rw [byteAt_eq_headD, h, List.headD_cons]

theorem drop_succ_of_drop {b r : List UInt8} {i : Nat} {c : UInt8} (h : b.drop i = c :: r) :
    b.drop (i + 1) = r := by
  rw [List.drop_add_one_eq_tail_drop, h, List.tail_cons]

theorem lt_length_of_drop {b r : List UInt8} {i : Nat} {c : UInt8} (h : b.drop i = c :: r) :
    i < b.length := by
  have := congrArg List.length h
  rw [List.length_drop, List.length_cons] at this
  omega

theorem drop_takeWhile_length (p : UInt8 → Bool) (l : List UInt8) :
    l.drop (l.takeWhile p).length = l.dropWhile p := by
  induction l with
  | nil => rfl
  | cons c l ih =>
    by_cases hc : p c = true
    · rw [List.takeWhile_cons_of_pos hc, List.dropWhile_cons_of_pos hc, List.length_cons,
        List.drop_succ_cons, ih]
    · rw [List.takeWhile_cons_of_neg hc, List.dropWhile_cons_of_neg hc, List.length_nil,
        List.drop_zero]

/-- `skipWhile` が止まった位置から先は、`dropWhile` で残る列。 -/
theorem drop_skipWhile (p : UInt8 → Bool) (b : List UInt8) (i : Nat) :
    b.drop (skipWhile p b i) = (b.drop i).dropWhile p := by
  rw [skipWhile, ← List.drop_drop, drop_takeWhile_length]

/-- `p` を満たす `xs` の次が `p` を満たさなければ（列の先の 0 も含めて）、`skipWhile` は `xs` の
後で止まる。 -/
theorem skipWhile_of_drop {p : UInt8 → Bool} {b xs r : List UInt8} {i : Nat}
    (h : b.drop i = xs ++ r) (hx : ∀ c ∈ xs, p c = true) (hr : p (r.headD 0) = false) :
    skipWhile p b i = i + xs.length := by
  have hr' : r.takeWhile p = [] := by
    cases r with
    | nil => rfl
    | cons c r => rw [List.takeWhile_cons_of_neg (by simpa using hr)]
  rw [skipWhile, h, List.takeWhile_append_of_pos hx, hr', List.append_nil]

theorem byteAt_of_le {b : List UInt8} {i : Nat} (h : b.length ≤ i) : byteAt b i = 0 := by
  rw [byteAt_eq_headD, List.drop_eq_nil_of_le h]
  rfl

/-- 列の中の位置から先は、その位置の byte とその次から先。 -/
theorem drop_eq_cons {b : List UInt8} {i : Nat} (h : i < b.length) :
    b.drop i = byteAt b i :: b.drop (i + 1) := by
  rw [byteAt_eq_headD, List.drop_add_one_eq_tail_drop]
  cases hd : b.drop i with
  | nil => exact absurd (List.drop_eq_nil_iff.mp hd) (by omega)
  | cons c r => rfl

/-- `skipWhile` で飛ばした分と、その先。 -/
theorem drop_eq_takeWhile_append (p : UInt8 → Bool) (b : List UInt8) (i : Nat) :
    b.drop i = (b.drop i).takeWhile p ++ b.drop (skipWhile p b i) := by
  rw [drop_skipWhile, List.takeWhile_append_dropWhile]

/-- `skipWhile` が止まったところの byte は `p` を満たさない（列の先の 0 も含めて）。 -/
theorem skipWhile_stop {p : UInt8 → Bool} (hp0 : p 0 = false) (b : List UInt8) (i : Nat) :
    p (byteAt b (skipWhile p b i)) = false := by
  rw [byteAt_eq_headD, drop_skipWhile]
  cases h : (b.drop i).dropWhile p with
  | nil => exact hp0
  | cons c r =>
    have := List.head?_dropWhile_not p (b.drop i)
    rw [h, List.head?_cons] at this
    simpa using this

/-- `skipWhile` が飛ばした byte の列。 -/
theorem exists_skipWhile (p : UInt8 → Bool) (b : List UInt8) (i : Nat) :
    ∃ xs, (∀ c ∈ xs, p c = true) ∧ b.drop i = xs ++ b.drop (skipWhile p b i) ∧
      skipWhile p b i = i + xs.length :=
  ⟨_, fun _ hc => List.all_eq_true.mp List.all_takeWhile _ hc, drop_eq_takeWhile_append p b i, rfl⟩

/-! ## 文字の種類 -/

theorem toNat_of_digit {c : UInt8} (h : IS_DIGIT c = true) : 0x30 ≤ c.toNat ∧ c.toNat ≤ 0x39 := by
  simpa [IS_DIGIT, UInt8.le_iff_toNat_le] using h

theorem isDigit_of_digit {c : UInt8} (h : IS_DIGIT c = true) : IsDigit c := toNat_of_digit h

theorem toNat_of_white {c : UInt8} (h : isWhite c = true) : c.toNat ≤ 0x20 := by
  simp only [isWhite, Bool.or_eq_true, beq_iff_eq] at h
  rcases h with ((((h | h) | h) | h) | h) | h <;> subst h <;> decide

theorem eq_of_sign {c : UInt8} (h : isSign c = true) : c = 0x2d ∨ c = 0x2b := by
  simpa [isSign] using h

theorem ne_zero_of_IS_DIGIT {c : UInt8} (h : IS_DIGIT c = true) : c ≠ 0 := by
  rintro rfl
  exact absurd h (by decide)

theorem ne_zero_of_sign {c : UInt8} (h : isSign c = true) : c ≠ 0 := by
  rcases eq_of_sign h with rfl | rfl <;> decide

theorem white_of_digit {c : UInt8} (h : IS_DIGIT c = true) : isWhite c = false := by
  have := toNat_of_digit h
  cases hw : isWhite c
  · rfl
  · have := toNat_of_white hw
    omega

theorem sign_of_digit {c : UInt8} (h : IS_DIGIT c = true) : isSign c = false := by
  cases hs : isSign c
  · rfl
  · rcases eq_of_sign hs with rfl | rfl <;> exact absurd h (by decide)

theorem white_of_sign {c : UInt8} (h : isSign c = true) : isWhite c = false := by
  rcases eq_of_sign h with rfl | rfl <;> rfl

theorem digit_of_sign {c : UInt8} (h : isSign c = true) : IS_DIGIT c = false := by
  rcases eq_of_sign h with rfl | rfl <;> rfl

theorem ne_of_digit {c d : UInt8} (h : IS_DIGIT c = true) (hd : IS_DIGIT d = false) : c ≠ d := by
  rintro rfl
  rw [h] at hd
  cases hd

/-! ## 読む形

`is_numeric_string` の結果と比べる、数の表記の形。 -/

/-- 10 進の数字だけの列。 -/
def AllDigits (l : List UInt8) : Prop := ∀ c ∈ l, IS_DIGIT c = true

/-- 先頭で飛ばす空白だけの列。 -/
def AllWhite (l : List UInt8) : Prop := ∀ c ∈ l, isWhite c = true

/-- 符号：無いか、`'-'` か `'+'` の一文字。 -/
def SignPart (sg : List UInt8) : Prop := sg = [] ∨ sg = [0x2d] ∨ sg = [0x2b]

/-- 空白、符号、一つ以上の 10 進の数字（先頭の 0 も許す）で書いた、値 `n` の整数。 -/
def IntLiteral (b : List UInt8) (n : Int) : Prop :=
  ∃ w sg ds, b = w ++ sg ++ ds ∧ AllWhite w ∧ SignPart sg ∧ ds ≠ [] ∧ AllDigits ds ∧
    n = if sg = [0x2d] then -(value ds 0 : Int) else value ds 0

/-- 指数部：無いか、`'e'` か `'E'`、符号、一つ以上の数字。 -/
def OptExponent (ex : List UInt8) : Prop :=
  ex = [] ∨ ∃ e sg ds, ex = e :: (sg ++ ds) ∧ (e = 0x65 ∨ e = 0x45) ∧ SignPart sg ∧ ds ≠ [] ∧
    AllDigits ds

/-- 仮数：数字の列か、`'.'` を挟んだ二つの数字の列で、どちらかに数字がある。 -/
def Mantissa (m : List UInt8) : Prop :=
  ∃ i f, AllDigits i ∧ AllDigits f ∧ ((m = i ∧ i ≠ []) ∨ (m = i ++ 0x2e :: f ∧ i ++ f ≠ []))

/-- 空白、符号、仮数、指数：10 進の数か指数で書いた数。 -/
def NumLiteral (b : List UInt8) : Prop :=
  ∃ w sg m ex, b = w ++ sg ++ m ++ ex ∧ AllWhite w ∧ SignPart sg ∧ Mantissa m ∧ OptExponent ex

/-- `check_digits:` のループが `dp_or_e` から末尾まで読める残り：数字の列の後に、`dp_or_e < 2`
なら指数部、`dp_or_e < 1` なら `'.'` と小数部の数字と指数部。 -/
def DigitsTail (dpOrE : Int) (r : List UInt8) : Prop :=
  ∃ i rest, r = i ++ rest ∧ AllDigits i ∧
    (rest = [] ∨ (dpOrE < 2 ∧ OptExponent rest) ∨
      (dpOrE < 1 ∧ ∃ f ex, rest = 0x2e :: (f ++ ex) ∧ AllDigits f ∧ OptExponent ex))

theorem AllDigits.nil : AllDigits [] := fun _ h => nomatch h

theorem AllDigits.cons {c : UInt8} {l : List UInt8} (hc : IS_DIGIT c = true) (h : AllDigits l) :
    AllDigits (c :: l) :=
  List.forall_mem_cons.mpr ⟨hc, h⟩

theorem AllDigits.append {l r : List UInt8} (hl : AllDigits l) (hr : AllDigits r) :
    AllDigits (l ++ r) := by
  intro c hc
  rcases List.mem_append.mp hc with h | h
  · exact hl c h
  · exact hr c h

theorem DigitsTail.nil (dpOrE : Int) : DigitsTail dpOrE [] := ⟨[], [], rfl, AllDigits.nil, .inl rfl⟩

theorem DigitsTail.cons {dpOrE : Int} {c : UInt8} {r : List UInt8} (hc : IS_DIGIT c = true)
    (h : DigitsTail dpOrE r) : DigitsTail dpOrE (c :: r) := by
  obtain ⟨i, rest, rfl, hi, hrest⟩ := h
  exact ⟨c :: i, rest, rfl, hi.cons hc, hrest⟩

/-- 整数部の後の `'.'`：小数部は `dp_or_e = 1` のループが読む。 -/
theorem DigitsTail.point {dpOrE : Int} {r : List UInt8} (hdp : dpOrE < 1) (h : DigitsTail 1 r) :
    DigitsTail dpOrE (0x2e :: r) := by
  obtain ⟨f, ex, rfl, hf, hex⟩ := h
  have hex' : OptExponent ex := by
    rcases hex with rfl | ⟨-, hex⟩ | ⟨h1, -⟩
    · exact .inl rfl
    · exact hex
    · exact absurd h1 (by decide)
  exact ⟨[], 0x2e :: (f ++ ex), rfl, AllDigits.nil, .inr (.inr ⟨hdp, f, ex, rfl, hf, hex'⟩)⟩

/-- 指数部：符号の後の数字は `dp_or_e = 2` のループが読む。 -/
theorem DigitsTail.exp {dpOrE : Int} {e : UInt8} {sg r : List UInt8} (hdp : dpOrE < 2)
    (he : e = 0x65 ∨ e = 0x45) (hsg : SignPart sg) (hne : r ≠ []) (h : DigitsTail 2 r) :
    DigitsTail dpOrE (e :: (sg ++ r)) := by
  obtain ⟨i, rest, rfl, hi, hrest⟩ := h
  have hr : rest = [] := by
    rcases hrest with h | ⟨h2, -⟩ | ⟨h2, -⟩
    · exact h
    · exact absurd h2 (by decide)
    · exact absurd h2 (by decide)
  subst hr
  rw [List.append_nil] at hne ⊢
  exact ⟨[], e :: (sg ++ i), rfl, AllDigits.nil, .inr (.inl ⟨hdp, .inr ⟨e, sg, i, rfl, he, hsg, hne, hi⟩⟩)⟩

/-- `if (*ptr == '-' || *ptr == '+') ptr++;` が飛ばすのは符号一文字。 -/
theorem exists_sign (b : List UInt8) (i : Nat) :
    ∃ sg, SignPart sg ∧ b.drop i = sg ++ b.drop (if isSign (byteAt b i) then i + 1 else i) := by
  split
  · rename_i hs
    refine ⟨[byteAt b i], ?_, drop_eq_cons (lt_length_of_byteAt (ne_zero_of_sign hs))⟩
    rcases eq_of_sign hs with h | h <;> rw [h]
    · exact .inr (.inl rfl)
    · exact .inr (.inr rfl)
  · exact ⟨[], .inl rfl, rfl⟩

/-- 符号の次が符号でなければ、符号を飛ばした位置は符号の長さだけ先。 -/
theorem signEnd_of_drop {b sg r : List UInt8} {i : Nat} (h : b.drop i = sg ++ r)
    (hsg : SignPart sg) (hr : isSign (r.headD 0) = false) :
    (if isSign (byteAt b i) then i + 1 else i) = i + sg.length := by
  rcases hsg with rfl | rfl | rfl
  · rw [byteAt_eq_headD, h, List.nil_append, hr]
    rfl
  · rw [byteAt_of_drop h]
    rfl
  · rw [byteAt_of_drop h]
    rfl

/-- 空白でないところから `skipWhile isWhite` は動かない。 -/
theorem skipWhite_of_drop {b r : List UInt8} {i : Nat} (h : b.drop i = r)
    (hr : isWhite (r.headD 0) = false) : skipWhile isWhite b i = i := by
  rw [skipWhile_of_drop (show b.drop i = [] ++ r by rw [h, List.nil_append]) (fun _ h => nomatch h) hr]
  rfl

/-- 符号と、空でない数字の列：先頭は空白でなく、符号の後は符号でない。 -/
theorem headD_signDigits {sg ds : List UInt8} (hsg : SignPart sg) (hne : ds ≠ [])
    (hds : AllDigits ds) :
    isWhite ((sg ++ ds).headD 0) = false ∧ isSign (ds.headD 0) = false ∧
      IS_DIGIT (ds.headD 0) = true := by
  obtain ⟨c, r, rfl⟩ := List.exists_cons_of_ne_nil hne
  have hc := hds c List.mem_cons_self
  refine ⟨?_, sign_of_digit hc, hc⟩
  rcases hsg with rfl | rfl | rfl
  · exact white_of_digit hc
  · rfl
  · rfl

/-! ## `process_double:` とループの後 -/

section Scan

variable {a : Args} {base : Nat} {b : List UInt8} {str : Nat} {sc : Scan}

/-- `process_double:` から `check_digits` へ戻るのは `'.'` なら `dp_or_e = 1`、指数なら 2。 -/
theorem processDouble_checkDigits {p : Nat} {dp dp' : Int}
    (h : processDouble a b str p dp = .checkDigits dp') :
    dp' = if byteAt b p = 0x2e then 1 else 2 := by
  unfold processDouble at h
  split at h
  · cases h
  · split at h
    · cases h
      rfl
    · cases h

/-- `process_double:` から最後の検査へ進むときの `ptr` は、`zend_strtod` が読み終えた位置か、
元の位置。 -/
theorem processDouble_finish {p q : Nat} {dp : Int} (h : processDouble a b str p dp = .finish q) :
    q = zendStrtodEnd b str ∨ q = p := by
  unfold processDouble at h
  split at h
  · cases h
    exact .inl rfl
  · split at h
    · cases h
    · cases h
      exact .inr rfl

theorem afterLoop_of_lt (h : sc.digits < MAX_LENGTH_OF_LONG) : afterLoop a 10 b str sc = sc := by
  rw [afterLoop, if_pos rfl, if_neg (by omega)]

/-- 数字が `MAX_LENGTH_OF_LONG` 個以上：`overflow` を符号にして `double` に。`dval` があれば
`zend_strtod` が読んだところまで進む。 -/
theorem afterLoop_of_le (h : MAX_LENGTH_OF_LONG ≤ sc.digits) :
    afterLoop a 10 b str sc =
      ⟨if a.dval then zendStrtodEnd b str else sc.ptr, sc.digits, -1, .KindOfDouble,
        if byteAt b str = 0x2d then -1 else 1⟩ := by
  rw [afterLoop, if_pos rfl, if_pos h]
  unfold processDouble
  cases a.dval <;> simp

/-- ループの後は、何も変わらないか `double` になる。 -/
theorem afterLoop_cases :
    afterLoop a base b str sc = sc ∨ (afterLoop a base b str sc).type = .KindOfDouble := by
  unfold afterLoop
  by_cases hb : base = 10
  · by_cases hd : MAX_LENGTH_OF_LONG ≤ sc.digits
    · right
      simp only [hb, hd, ↓reduceIte]
      cases processDouble a b str sc.ptr (-1) <;> rfl
    · left
      simp only [hb, hd, ↓reduceIte]
  · by_cases hx : (!(decide (sc.digits < SIZEOF_LONG * 2) ||
        (decide (sc.digits = SIZEOF_LONG * 2) && decide (byteAt b (sc.ptr - sc.digits) ≤ 0x37)))) = true
    · right
      simp only [hb, hx, ↓reduceIte]
    · left
      simp only [hb, hx, ↓reduceIte, Bool.false_eq_true]

/-- ループの後も `KindOfInt64` なら、ループの後では何も変わっていない。 -/
theorem afterLoop_eq_of_int (h : (afterLoop a base b str sc).type = .KindOfInt64) :
    afterLoop a base b str sc = sc := by
  rcases @afterLoop_cases a base b str sc with h' | h'
  · exact h'
  · rw [h'] at h
    cases h

theorem afterLoop_type_double (h : sc.type = .KindOfDouble) :
    (afterLoop a base b str sc).type = .KindOfDouble := by
  rcases @afterLoop_cases a base b str sc with h' | h'
  · rw [h']
    exact h
  · exact h'

/-- ループの後で末尾にいれば、ループを抜けた位置が末尾か、`zend_strtod` が末尾まで読んだ。 -/
theorem afterLoop_accept (h : (afterLoop a 10 b str sc).ptr = b.length) :
    sc.ptr = b.length ∨ zendStrtodEnd b str = b.length := by
  by_cases hd : sc.digits < MAX_LENGTH_OF_LONG
  · rw [afterLoop_of_lt hd] at h
    exact .inl h
  · rw [afterLoop_of_le (by omega)] at h
    dsimp only at h
    split at h
    · exact .inr h
    · exact .inl h

/-! ## `check_digits:` のループ -/

theorem checkDigits_of_digit
    (h : (IS_DIGIT (byteAt b sc.ptr) || (decide (base = 16) && IS_XDIGIT (byteAt b sc.ptr))) = true) :
    checkDigits a base b str sc =
      if loopCond a (sc.digits + 1) then
        checkDigits a base b str { sc with ptr := sc.ptr + 1, digits := sc.digits + 1 }
      else afterLoop a base b str { sc with ptr := sc.ptr + 1, digits := sc.digits + 1 } := by
  rw [checkDigits, dif_pos h]

/-- 末尾の NUL でループを抜ける。 -/
theorem checkDigits_of_end (h : b.length ≤ sc.ptr) :
    checkDigits a base b str sc = afterLoop a base b str sc := by
  have h0 := byteAt_of_le h
  rw [checkDigits, dif_neg (by rw [h0]; cases decide (base = 16) <;> decide),
    dif_neg (fun hp => absurd hp.2.1 (by rw [h0]; decide)),
    if_neg (fun he => absurd he.2.1 (by rw [h0]; decide))]

/-- 数字の列を読む間、ループの条件が続けば、ループはその後から続く。 -/
theorem checkDigits_digits {r rest : List UInt8} (hr : AllDigits r) (hd : b.drop sc.ptr = r ++ rest)
    (hc : ∀ j, 0 < j → j ≤ r.length → loopCond a (sc.digits + j) = true) :
    checkDigits a base b str sc =
      checkDigits a base b str { sc with ptr := sc.ptr + r.length, digits := sc.digits + r.length } := by
  induction r generalizing sc with
  | nil => rfl
  | cons c r ih =>
    have hcd := hr c List.mem_cons_self
    rw [List.cons_append] at hd
    rw [checkDigits_of_digit (by rw [byteAt_of_drop hd, hcd, Bool.true_or]),
      if_pos (hc 1 (by omega) (by simp)),
      ih (fun x hx => hr x (List.mem_cons_of_mem _ hx)) (drop_succ_of_drop hd)
        (fun j hj hjr => by
          have := hc (j + 1) (by omega) (by simp; omega)
          rwa [Nat.add_assoc, Nat.add_comm 1 j])]
    simp only [List.length_cons, Nat.add_assoc, Nat.add_comm 1 r.length]

theorem checkDigits_type_double (h : sc.type = .KindOfDouble) :
    (checkDigits a base b str sc).type = .KindOfDouble := by
  fun_induction checkDigits a base b str sc with
  | case1 x _ _ _ ih => exact ih h
  | case2 x _ _ _ => exact afterLoop_type_double h
  | case3 x _ _ _ _ ih => exact ih rfl
  | case4 => rfl
  | case5 x _ _ _ _ _ _ _ ih => exact ih rfl
  | case6 => rfl
  | case7 x _ _ _ _ _ => exact afterLoop_type_double h
  | case8 x _ _ _ => exact afterLoop_type_double h

/-- 指数の `'e'`／`'E'` の後に符号があれば、`ptr` はその符号の位置に移る。どちらも列の中。 -/
theorem expPtr_lt {p : Nat} (he : byteAt b p = 0x65 ∨ byteAt b p = 0x45) :
    (if _ : isSign (byteAt b (p + 1)) = true then p + 1 else p) < b.length := by
  split
  · exact lt_length_of_byteAt (ne_zero_of_sign ‹_›)
  · exact lt_length_of_byteAt (by rcases he with h | h <;> rw [h] <;> decide)

/-- 指数の `'e'`／`'E'` から先は、`'e'`、符号、移った `ptr` の次から先。移った `ptr` の byte は
`'.'` でない。 -/
theorem drop_expPtr {p : Nat} (he : byteAt b p = 0x65 ∨ byteAt b p = 0x45) :
    ∃ sg, SignPart sg ∧
      b.drop p = byteAt b p ::
        (sg ++ b.drop ((if _ : isSign (byteAt b (p + 1)) = true then p + 1 else p) + 1)) ∧
      byteAt b (if _ : isSign (byteAt b (p + 1)) = true then p + 1 else p) ≠ 0x2e := by
  have hp : p < b.length := lt_length_of_byteAt (by rcases he with h | h <;> rw [h] <;> decide)
  split
  · rename_i hs
    have hs' : p + 1 < b.length := lt_length_of_byteAt (ne_zero_of_sign hs)
    refine ⟨[byteAt b (p + 1)], ?_, ?_, ?_⟩
    · rcases eq_of_sign hs with h | h <;> rw [h]
      · exact .inr (.inl rfl)
      · exact .inr (.inr rfl)
    · rw [drop_eq_cons hp, drop_eq_cons hs']
      rfl
    · rcases eq_of_sign hs with h | h <;> rw [h] <;> decide
  · refine ⟨[], .inl rfl, drop_eq_cons hp, ?_⟩
    rcases he with h | h <;> rw [h] <;> decide

/-- `KindOfInt64` のまま末尾まで読んだループは、数字しか読んでいない。 -/
theorem checkDigits_int (hty : (checkDigits a 10 b str sc).type = .KindOfInt64)
    (hacc : (checkDigits a 10 b str sc).ptr = b.length) : AllDigits (b.drop sc.ptr) := by
  fun_induction checkDigits a 10 b str sc with
  | case1 x hd _ _ ih =>
    have hdig : IS_DIGIT (byteAt b x.ptr) = true := by simpa using hd
    rw [drop_eq_cons (lt_length_of_byteAt (ne_zero_of_IS_DIGIT hdig))]
    exact (ih hty hacc).cons hdig
  | case2 x hd _ _ =>
    -- ループの条件で抜けた：この数字が最後
    have hdig : IS_DIGIT (byteAt b x.ptr) = true := by simpa using hd
    rw [afterLoop_eq_of_int hty] at hacc
    have hend : x.ptr + 1 = b.length := hacc
    rw [drop_eq_cons (by omega), List.drop_eq_nil_of_le (by omega)]
    exact AllDigits.nil.cons hdig
  | case3 =>
    rw [checkDigits_type_double (by rfl)] at hty
    cases hty
  | case4 => cases hty
  | case5 =>
    rw [checkDigits_type_double (by rfl)] at hty
    cases hty
  | case6 => cases hty
  | case7 x _ _ he _ _ =>
    -- 指数の後に数字が無い：`ptr` は `'e'` か符号の上で、末尾ではない
    rw [afterLoop_eq_of_int hty] at hacc
    exact absurd hacc (Nat.ne_of_lt (expPtr_lt he.2.1))
  | case8 x _ _ _ =>
    rw [afterLoop_eq_of_int hty] at hacc
    rw [List.drop_eq_nil_of_le (by omega)]
    exact AllDigits.nil

/-- 末尾まで読んだループが読んだのは `dp_or_e` から読める残りか、そうでなければ `zend_strtod` が
末尾まで読んでいる。 -/
theorem checkDigits_accept (hacc : (checkDigits a 10 b str sc).ptr = b.length) :
    DigitsTail sc.dpOrE (b.drop sc.ptr) ∨ zendStrtodEnd b str = b.length := by
  fun_induction checkDigits a 10 b str sc with
  | case1 x hd _ _ ih =>
    have hdig : IS_DIGIT (byteAt b x.ptr) = true := by simpa using hd
    rw [drop_eq_cons (lt_length_of_byteAt (ne_zero_of_IS_DIGIT hdig))]
    exact (ih hacc).imp_left (DigitsTail.cons hdig)
  | case2 x hd _ _ =>
    have hdig : IS_DIGIT (byteAt b x.ptr) = true := by simpa using hd
    rcases afterLoop_accept hacc with h | h
    · have hend : x.ptr + 1 = b.length := h
      rw [drop_eq_cons (by omega), List.drop_eq_nil_of_le (by omega)]
      exact .inl ((DigitsTail.nil _).cons hdig)
    · exact .inr h
  | case3 x _ hp dp hpd ih =>
    -- `'.'`：小数部を `dp_or_e = 1` で読む
    have hdp := processDouble_checkDigits hpd
    rw [if_pos hp.2.1] at hdp
    subst hdp
    rw [drop_eq_cons (lt_length_of_byteAt (by rw [hp.2.1]; decide)), hp.2.1]
    exact (ih hacc).imp_left (DigitsTail.point hp.2.2)
  | case4 x _ hp p hpd =>
    rcases processDouble_finish hpd with rfl | rfl
    · exact .inr hacc
    · exact absurd hacc (Nat.ne_of_lt (lt_length_of_byteAt (by rw [hp.2.1]; decide)))
  | case5 x _ _ he ptr hdig dp hpd ih =>
    -- 指数：符号の後の数字を `dp_or_e = 2` で読む
    obtain ⟨sg, hsg, hdrop, hpt⟩ := drop_expPtr he.2.1
    have hdp := processDouble_checkDigits hpd
    rw [if_neg hpt] at hdp
    subst hdp
    have hne : b.drop (ptr + 1) ≠ [] := by
      rw [drop_eq_cons (lt_length_of_byteAt (ne_zero_of_IS_DIGIT hdig))]
      exact List.cons_ne_nil _ _
    rw [hdrop]
    exact (ih hacc).imp_left (DigitsTail.exp he.2.2 he.2.1 hsg hne)
  | case6 x _ _ he _ _ p hpd =>
    rcases processDouble_finish hpd with rfl | rfl
    · exact .inr hacc
    · exact absurd hacc (Nat.ne_of_lt (expPtr_lt he.2.1))
  | case7 x _ _ he _ _ =>
    rcases afterLoop_accept hacc with h | h
    · exact absurd h (Nat.ne_of_lt (expPtr_lt he.2.1))
    · exact .inr h
  | case8 x _ _ _ =>
    rcases afterLoop_accept hacc with h | h
    · rw [List.drop_eq_nil_of_le (by omega)]
      exact .inl (DigitsTail.nil _)
    · exact .inr h

end Scan

/-! ## `zend_strtod` が読み終える位置 -/

section Strtod

variable {b : List UInt8}

/-- 符号と数字の列を、`zend_strtod` は末尾まで読む。 -/
theorem zendStrtodEnd_int {s : Nat} {sg ds : List UInt8} (h : b.drop s = sg ++ ds)
    (hsg : SignPart sg) (hne : ds ≠ []) (hds : AllDigits ds) : zendStrtodEnd b s = b.length := by
  obtain ⟨hw, hs, hd⟩ := headD_signDigits hsg hne hds
  have hlen : b.length = s + sg.length + ds.length := by
    have := congrArg List.length h
    rw [List.length_drop, List.length_append] at this
    have : s < b.length := lt_length_of_drop (c := (sg ++ ds).head (by simp [hne]))
      (r := (sg ++ ds).tail) (by rw [h, List.cons_head_tail])
    omega
  have hds' : b.drop (s + sg.length) = ds ++ [] := by
    rw [List.append_nil, ← List.drop_drop, h, List.drop_left]
  have h1 : skipWhile isWhite b s = s := skipWhite_of_drop h hw
  have h2 := signEnd_of_drop h hsg hs
  have h3 : byteAt b (s + sg.length) = ds.headD 0 := by
    rw [byteAt_eq_headD, hds', List.append_nil]
  have h4 : skipWhile IS_DIGIT b (s + sg.length) = b.length := by
    rw [skipWhile_of_drop hds' hds rfl]
    omega
  have h0 := byteAt_of_le (Nat.le_refl b.length)
  have hlt : s + sg.length < b.length := by
    have := List.length_pos_of_ne_nil hne
    omega
  simp +decide only [zendStrtodEnd, h1, h2, h3, h4, h0, ne_zero_of_IS_DIGIT hd, hlt, ↓reduceIte,
    decide_true, Bool.true_or, Bool.not_true, Bool.false_eq_true]

/-- 仮数の後を `zend_strtod` が末尾まで読んだなら、残りは指数部か空。 -/
theorem optExponent_of_strtod {f : Nat}
    (h : (if byteAt b f = 0x65 ∨ byteAt b f = 0x45 then
        if IS_DIGIT (byteAt b (if isSign (byteAt b (f + 1)) then f + 2 else f + 1)) then
          skipWhile IS_DIGIT b (if isSign (byteAt b (f + 1)) then f + 2 else f + 1)
        else f
      else f) = b.length) :
    OptExponent (b.drop f) := by
  split at h
  · rename_i he
    have hf : f < b.length := lt_length_of_byteAt (by rcases he with h | h <;> rw [h] <;> decide)
    obtain ⟨sg, hsg, hdsg⟩ := exists_sign b (f + 1)
    have e2 : (if isSign (byteAt b (f + 1)) then f + 2 else f + 1) =
        (if isSign (byteAt b (f + 1)) then f + 1 + 1 else f + 1) := rfl
    rw [e2] at h
    generalize (if isSign (byteAt b (f + 1)) then f + 1 + 1 else f + 1) = t at h hdsg
    by_cases hd : IS_DIGIT (byteAt b t) = true
    · -- `'e'`、符号、数字を末尾まで
      rw [if_pos hd] at h
      obtain ⟨ds, hds, hdds, hlds⟩ := exists_skipWhile IS_DIGIT b t
      rw [h, List.drop_length, List.append_nil] at hdds
      have hlt := lt_length_of_byteAt (ne_zero_of_IS_DIGIT hd)
      refine .inr ⟨byteAt b f, sg, ds, ?_, he, hsg, ?_, hds⟩
      · rw [drop_eq_cons hf, hdsg, hdds]
      · rintro rfl
        rw [List.length_nil] at hlds
        omega
    · rw [if_neg hd] at h
      rw [h, List.drop_length]
      exact .inl rfl
  · rw [h, List.drop_length]
    exact .inl rfl

/-- `zend_strtod` が末尾まで読んだ列は、空白、符号、仮数、指数。 -/
theorem zendStrtodEnd_accept {s : Nat} (h : zendStrtodEnd b s = b.length) (hs : s < b.length) :
    NumLiteral (b.drop s) := by
  obtain ⟨w, hw, hdw, -⟩ := exists_skipWhile isWhite b s
  obtain ⟨sg, hsg, hdsg⟩ := exists_sign b (skipWhile isWhite b s)
  dsimp only [zendStrtodEnd] at h
  generalize skipWhile isWhite b s = s1 at h hdw hdsg
  generalize (if isSign (byteAt b s1) then s1 + 1 else s1) = s2 at h hdsg
  obtain ⟨id, hid, hdid, hli⟩ := exists_skipWhile IS_DIGIT b s2
  generalize skipWhile IS_DIGIT b s2 = i at h hdid hli
  -- 仮数の後の位置 `f` と、仮数に数字があること
  obtain ⟨m, f, hm, hmant, hh⟩ : ∃ m f, b.drop s2 = m ++ b.drop f ∧ Mantissa m ∧
      (if byteAt b f = 0x65 ∨ byteAt b f = 0x45 then
        if IS_DIGIT (byteAt b (if isSign (byteAt b (f + 1)) then f + 2 else f + 1)) then
          skipWhile IS_DIGIT b (if isSign (byteAt b (f + 1)) then f + 2 else f + 1)
        else f
      else f) = b.length := by
    by_cases hpt : byteAt b i = 0x2e
    · obtain ⟨fd, hfd, hdfd, hlf⟩ := exists_skipWhile IS_DIGIT b (i + 1)
      simp only [hpt, ↓reduceIte] at h
      generalize skipWhile IS_DIGIT b (i + 1) = f at h hdfd hlf
      split at h
      · omega
      split at h
      · omega
      rename_i hnd
      have hne : id ++ fd ≠ [] := by
        simp only [beq_self_eq_true, Bool.true_and, Bool.not_or, Bool.and_eq_true,
          Bool.not_eq_true', decide_eq_false_iff_not, not_and, not_lt] at hnd
        intro he
        rw [List.append_eq_nil_iff] at he
        rw [he.1, List.length_nil] at hli
        rw [he.2, List.length_nil] at hlf
        omega
      refine ⟨id ++ 0x2e :: fd, f, ?_, ⟨id, fd, hid, hfd, .inr ⟨rfl, hne⟩⟩, h⟩
      rw [hdid, drop_eq_cons (lt_length_of_byteAt (by rw [hpt]; decide)), hpt, hdfd]
      simp only [List.append_assoc, List.cons_append]
    · simp only [hpt, ↓reduceIte] at h
      split at h
      · omega
      split at h
      · omega
      rename_i hnd
      have hne : id ≠ [] := by
        rintro rfl
        rw [List.length_nil] at hli
        simp [hli] at hnd
      exact ⟨id, i, hdid, ⟨id, [], hid, AllDigits.nil, .inl ⟨rfl, hne⟩⟩, h⟩
  refine ⟨w, sg, m, b.drop f, ?_, hw, hsg, hmant, optExponent_of_strtod hh⟩
  rw [hdw, hdsg, hm]
  simp only [List.append_assoc]

end Strtod

/-! ## 数字の列の値 -/

section Value

/-- 溜めた値は、読んだ数字の分だけ上の桁に上がる。 -/
theorem value_eq_add (l : List UInt8) (acc : Nat) : value l acc = acc * 10 ^ l.length + value l 0 := by
  induction l generalizing acc with
  | nil => simp [value]
  | cons c l ih =>
    rw [value_cons, value_cons, ih, ih (0 * 10 + _), List.length_cons, Nat.pow_succ]
    simp only [Nat.zero_mul, Nat.zero_add, Nat.add_mul, Nat.mul_assoc, Nat.mul_comm 10, Nat.add_assoc]

theorem value_cons_zero (c : UInt8) (l : List UInt8) :
    value (c :: l) 0 = (c.toNat - 0x30) * 10 ^ l.length + value l 0 := by
  rw [value_cons, value_eq_add, Nat.zero_mul, Nat.zero_add]

/-- 先頭の 0 は値を変えない。 -/
theorem value_zeros_append {zs l : List UInt8} (hz : ∀ c ∈ zs, c = 0x30) :
    value (zs ++ l) 0 = value l 0 := by
  induction zs with
  | nil => rfl
  | cons z zs ih =>
    rw [hz z List.mem_cons_self, List.cons_append, value_cons_zero,
      ih (fun c hc => hz c (List.mem_cons_of_mem _ hc))]
    simp

/-- `'0'` で始まらない数字の列の値は、その長さの桁に届いている。 -/
theorem pow_le_value {l : List UInt8} (hne : l ≠ []) (hd : AllDigits l) (h0 : l.headD 0 ≠ 0x30) :
    10 ^ (l.length - 1) ≤ value l 0 := by
  obtain ⟨c, r, rfl⟩ := List.exists_cons_of_ne_nil hne
  have hc := toNat_of_digit (hd c List.mem_cons_self)
  have hc0 : c.toNat ≠ 0x30 := fun h => h0 (UInt8.toNat_inj.mp h)
  rw [value_cons_zero, List.length_cons, Nat.add_sub_cancel]
  have : 1 ≤ c.toNat - 0x30 := by omega
  calc 10 ^ r.length = 1 * 10 ^ r.length := (Nat.one_mul _).symm
    _ ≤ (c.toNat - 0x30) * 10 ^ r.length := Nat.mul_le_mul_right _ this
    _ ≤ _ := Nat.le_add_right _ _

theorem value_lt_pow {l : List UInt8} (hd : AllDigits l) : value l 0 < 10 ^ l.length := by
  have := value_lt l (fun c hc => isDigit_of_digit (hd c hc)) 0
  rwa [Nat.zero_add, Nat.one_mul] at this

/-- 上の桁が小さければ、下の桁によらず小さい。 -/
theorem lex_lt {d₁ d₂ v₁ v₂ P : Nat} (h : d₁ < d₂) (hv : v₁ < P) : d₁ * P + v₁ < d₂ * P + v₂ :=
  calc d₁ * P + v₁ < d₁ * P + P := Nat.add_lt_add_left hv _
    _ = (d₁ + 1) * P := (Nat.succ_mul _ _).symm
    _ ≤ d₂ * P := Nat.mul_le_mul_right _ h
    _ ≤ d₂ * P + v₂ := Nat.le_add_right _ _

theorem strncmp_cons (c₁ c₂ : UInt8) (r₁ r₂ : List UInt8) (n : Nat) :
    strncmp (c₁ :: r₁) (c₂ :: r₂) (n + 1) =
      if c₁ ≠ c₂ then (c₁.toNat : Int) - c₂.toNat else if c₁ = 0 then 0 else strncmp r₁ r₂ n :=
  rfl

/-- 同じ長さの数字の列では、`strncmp` の符号は値の比較。 -/
theorem strncmp_digits {l₁ l₂ : List UInt8} (hl : l₁.length = l₂.length) (hd₁ : AllDigits l₁)
    (hd₂ : AllDigits l₂) :
    (strncmp l₁ l₂ l₁.length < 0 ↔ value l₁ 0 < value l₂ 0) ∧
      (strncmp l₁ l₂ l₁.length = 0 ↔ value l₁ 0 = value l₂ 0) := by
  induction l₁ generalizing l₂ with
  | nil =>
    rw [List.length_nil, eq_comm, List.length_eq_zero_iff] at hl
    subst hl
    simp [strncmp, value]
  | cons c₁ r₁ ih =>
    rcases l₂ with _ | ⟨c₂, r₂⟩
    · simp at hl
    simp only [List.length_cons, Nat.add_right_cancel_iff] at hl
    have h₁ := toNat_of_digit (hd₁ c₁ List.mem_cons_self)
    have h₂ := toNat_of_digit (hd₂ c₂ List.mem_cons_self)
    have hv₁ := value_lt_pow (fun c hc => hd₁ c (List.mem_cons_of_mem _ hc))
    have hv₂ := value_lt_pow (fun c hc => hd₂ c (List.mem_cons_of_mem _ hc))
    rw [← hl] at hv₂
    rw [List.length_cons, strncmp_cons, value_cons_zero, value_cons_zero, ← hl]
    by_cases hc : c₁ = c₂
    · -- 同じ桁：残りで決まる
      subst hc
      rw [if_neg (not_not.mpr rfl), if_neg (ne_zero_of_IS_DIGIT (hd₁ c₁ List.mem_cons_self))]
      have := ih hl (fun c hc => hd₁ c (List.mem_cons_of_mem _ hc))
        (fun c hc => hd₂ c (List.mem_cons_of_mem _ hc))
      rw [this.1, this.2]
      omega
    · -- 最初に違う桁で決まる
      rw [if_pos hc]
      have hne : c₁.toNat ≠ c₂.toNat := fun h => hc (UInt8.toNat_inj.mp h)
      rcases Nat.lt_or_gt_of_ne hne with hlt | hlt
      · have := @lex_lt _ _ _ (value r₂ 0) _ (show c₁.toNat - 0x30 < c₂.toNat - 0x30 by omega) hv₁
        constructor <;> constructor <;> intro <;> omega
      · have := @lex_lt _ _ _ (value r₁ 0) _ (show c₂.toNat - 0x30 < c₁.toNat - 0x30 by omega) hv₂
        constructor <;> constructor <;> intro <;> omega

theorem allDigits_long_min_digits : AllDigits long_min_digits := by
  intro c hc
  simp only [long_min_digits, List.mem_cons, List.not_mem_nil, or_false] at hc
  rcases hc with h | h | h | h | h | h | h | h | h | h | h | h | h | h | h | h | h | h | h <;>
    rw [h] <;> rfl

/-- `long_min_digits` は `-INT64_MIN` の数字。 -/
theorem value_long_min_digits : value long_min_digits 0 = 2 ^ 63 := by
  decide

/-- `x * 10 + ('0' - *p)` は負の側に値を溜める。`int64_t` の演算は `Int` の演算の `2^64` の剰余。 -/
theorem foldl_strtoll {ds : List UInt8} (hds : AllDigits ds) (acc : Nat) :
    ds.foldl (fun (x : Int64) c => x * 10 + Int64.ofInt (0x30 - (c.toNat : Int)))
        (Int64.ofInt (-(acc : Int))) = Int64.ofInt (-(value ds acc : Int)) := by
  induction ds generalizing acc with
  | nil => rfl
  | cons c ds ih =>
    have hc := toNat_of_digit (hds c List.mem_cons_self)
    have hstep : Int64.ofInt (-(acc : Int)) * 10 + Int64.ofInt (0x30 - (c.toNat : Int)) =
        Int64.ofInt (-((acc * 10 + (c.toNat - 0x30) : Nat) : Int)) := by
      rw [show (10 : Int64) = Int64.ofInt 10 from rfl, ← Int64.ofInt_mul, ← Int64.ofInt_add]
      congr 1
      omega
    rw [List.foldl_cons, hstep, ih (fun x hx => hds x (List.mem_cons_of_mem _ hx)), value_cons]

/-- 符号と数字の列を、`fast_strtoll_base10` はその値（の `2^64` の剰余）に読む。 -/
theorem fast_strtoll_base10_eq {b : List UInt8} {p : Nat} {sg ds : List UInt8}
    (h : b.drop p = sg ++ ds) (hsg : SignPart sg) (hne : ds ≠ []) (hds : AllDigits ds) :
    fast_strtoll_base10 b p =
      Int64.ofInt (if sg = [0x2d] then -(value ds 0 : Int) else value ds 0) := by
  obtain ⟨-, hs, hd⟩ := headD_signDigits hsg hne hds
  have htw : (b.drop (p + sg.length)).takeWhile IS_DIGIT = ds := by
    rw [← List.drop_drop, h, List.drop_left, ← List.append_nil ds, List.takeWhile_append_of_pos hds]
    rfl
  have hx := foldl_strtoll hds 0
  rw [Nat.cast_zero, neg_zero, show Int64.ofInt 0 = 0 from rfl] at hx
  unfold fast_strtoll_base10
  dsimp only
  rw [signEnd_of_drop h hsg hs, htw, hx]
  rcases hsg with rfl | rfl | rfl
  · -- 符号なし：先頭は数字で `'-'` でない
    have hm : (byteAt b p == 0x2d) = false := by
      rw [byteAt_eq_headD, h, List.nil_append]
      exact beq_false_of_ne (ne_of_digit hd rfl)
    rw [hm, if_neg (by decide), ← Int64.ofInt_neg, neg_neg]
    rfl
  · rw [byteAt_of_drop h, if_pos rfl]
    rfl
  · rw [byteAt_of_drop h, if_neg (by decide), ← Int64.ofInt_neg, neg_neg]
    rfl

end Value

/-! ## 整数の数字を数える -/

section Count

variable {a : Args} {b : List UInt8} {str : Nat}

/-- `allow_errors` が 0 なら、ループは `dval` があるときだけ 20 個で止まる。 -/
theorem loopCond_of_allowErrors (ha : a.allowErrors = 0) (j : Nat) :
    loopCond a j = !(decide (MAX_LENGTH_OF_LONG ≤ j) && a.dval) := by
  rw [loopCond, ha]
  cases a.dval <;> rfl

/-- 先頭の 0 の後の数字を末尾まで数える。20 個に届けば、`dval` があればそこで止まって
`process_double:` へ、なければ末尾まで数えてから。 -/
theorem checkDigits_sig {p : Nat} {sig : List UInt8} (hp : p ≤ b.length) (hd : b.drop p = sig)
    (hsig : AllDigits sig) (ha : a.allowErrors = 0) :
    checkDigits a 10 b str ⟨p, 0, 0, .KindOfInt64, 0⟩ =
      if sig.length < MAX_LENGTH_OF_LONG then ⟨b.length, sig.length, 0, .KindOfInt64, 0⟩
      else ⟨if a.dval then zendStrtodEnd b str else b.length,
        if a.dval then MAX_LENGTH_OF_LONG else sig.length, -1, .KindOfDouble,
        if byteAt b str = 0x2d then -1 else 1⟩ := by
  have hlen : p + sig.length = b.length := by
    have := congrArg List.length hd
    rw [List.length_drop] at this
    omega
  have hd' : b.drop p = sig ++ [] := by rw [hd, List.append_nil]
  split
  · -- 20 個に届かない：末尾まで数えて、NUL で抜ける
    rename_i hlt
    rw [checkDigits_digits hsig hd' (fun j _ hj => by
        rw [loopCond_of_allowErrors ha, decide_eq_false (show ¬(MAX_LENGTH_OF_LONG ≤ 0 + j) by omega)]
        rfl),
      checkDigits_of_end (by simp only; omega), afterLoop_of_lt (by simpa using hlt)]
    simp only [Nat.zero_add, hlen]
  · rename_i hge
    cases hdv : a.dval
    · -- `dval` がなければ末尾まで数える
      rw [checkDigits_digits hsig hd' (fun j _ _ => by rw [loopCond_of_allowErrors ha, hdv]; simp),
        checkDigits_of_end (by simp only; omega), afterLoop_of_le (by simp only; omega), hdv]
      simp only [Nat.zero_add, hlen, Bool.false_eq_true, ↓reduceIte]
    · -- `dval` があれば 20 個目で止まる
      have h19 : 19 < sig.length := by simp only [MAX_LENGTH_OF_LONG] at hge; omega
      have hsplit : b.drop p = sig.take 19 ++ sig.drop 19 := by rw [hd, List.take_append_drop]
      have htake : (sig.take 19).length = 19 := List.length_take_of_le (by omega)
      rw [checkDigits_digits (fun c hc => hsig c (List.mem_of_mem_take hc)) hsplit
        (fun j _ hj => by
          rw [loopCond_of_allowErrors ha,
            decide_eq_false (show ¬(MAX_LENGTH_OF_LONG ≤ 0 + j) by simp only [MAX_LENGTH_OF_LONG]; omega)]
          rfl)]
      have h20 : IS_DIGIT (byteAt b (p + 19)) = true := by
        rw [byteAt_eq_headD, ← List.drop_drop, hd, List.headD_eq_head?_getD, List.head?_drop]
        rw [List.getElem?_eq_getElem (by omega), Option.getD_some]
        exact hsig _ (List.getElem_mem _)
      rw [checkDigits_of_digit (by simp only [htake, h20, Bool.true_or]),
        if_neg (by rw [loopCond_of_allowErrors ha, hdv]; simp [htake, MAX_LENGTH_OF_LONG]),
        afterLoop_of_le (by simp [htake, MAX_LENGTH_OF_LONG]), hdv]
      simp [htake, MAX_LENGTH_OF_LONG]

end Count

/-! ## 最後の検査 -/

section Finish

variable {a : Args} {b : List UInt8} {str base : Nat} {sc : Scan}

/-- 末尾まで読んだ整数：19 桁なら `long_min_digits` と比べる。 -/
theorem finish_int_end (hp : sc.ptr = b.length) (ht : sc.type = .KindOfInt64) :
    finish a b str base sc =
      if sc.digits = MAX_LENGTH_OF_LONG - 1 ∧
          ¬(strncmp (b.drop (sc.ptr - sc.digits)) long_min_digits sc.digits < 0 ∨
            (strncmp (b.drop (sc.ptr - sc.digits)) long_min_digits sc.digits = 0 ∧
              byteAt b str = 0x2d)) then
        ⟨.KindOfDouble, none, some (if byteAt b str = 0x2d then -1 else 1)⟩
      else
        ⟨.KindOfInt64,
          if a.lval then some (if base = 10 then fast_strtoll_base10 b str else strtollHex b str)
          else none,
          some sc.overflow⟩ := by
  rw [finish, if_neg (fun h => h.1 hp), if_pos ht]

theorem finish_double_end (hp : sc.ptr = b.length) (ht : sc.type = .KindOfDouble) :
    finish a b str base sc = ⟨.KindOfDouble, none, some sc.overflow⟩ := by
  rw [finish, if_neg (fun h => h.1 hp), if_neg (by rw [ht]; exact nofun)]

/-- `allow_errors` が 0 で `KindOfNull` でなければ、末尾まで読んでいる。 -/
theorem finish_accept (ha : a.allowErrors = 0) (h : (finish a b str base sc).type ≠ .KindOfNull) :
    sc.ptr = b.length := by
  by_contra hp
  exact h (by rw [finish, if_pos ⟨hp, ha⟩])

/-- `KindOfInt64` を返したなら、走査も `KindOfInt64` のまま。 -/
theorem finish_type_int (h : (finish a b str base sc).type = .KindOfInt64) :
    sc.type = .KindOfInt64 := by
  by_contra ht
  by_cases hn : sc.ptr ≠ b.length ∧ a.allowErrors = 0
  · rw [finish, if_pos hn] at h
    cases h
  · rw [finish, if_neg hn, if_neg ht] at h
    cases h

end Finish

/-! ## 整数の表記の分類 -/

section Classify

variable {a : Args} {b : List UInt8}

/-- 先頭の検査を通り、空白と符号の後が数字なら、整数として数え始める（16 進は読まない）。 -/
theorem is_numeric_string_of_digit {str ptr : Nat} (h0 : ¬(b.length = 0 ∨ 0x39 < byteAt b 0))
    (hstr : skipWhile isWhite b 0 = str)
    (hptr : (if isSign (byteAt b str) then str + 1 else str) = ptr)
    (hd : IS_DIGIT (byteAt b ptr) = true) :
    is_numeric_string true b a =
      finish a b str 10
        (checkDigits a 10 b str ⟨skipWhile (· == 0x30) b ptr, 0, 0, .KindOfInt64, 0⟩) := by
  subst hstr hptr
  rw [is_numeric_string, if_neg h0]
  simp only [if_pos hd, Bool.not_true, Bool.and_false, Bool.false_eq_true, if_false]
  rfl

/-- 空白・符号・数字の byte は、どれも `'9'` 以下。 -/
theorem byteAt_le_nine {w sg ds : List UInt8} (hw : AllWhite w) (hsg : SignPart sg)
    (hds : AllDigits ds) (i : Nat) : byteAt (w ++ sg ++ ds) i ≤ 0x39 := by
  rw [byteAt_eq_headD]
  cases h : (w ++ sg ++ ds).drop i with
  | nil => decide
  | cons c r =>
    have hc : c ∈ w ++ sg ++ ds := List.mem_of_mem_drop (by rw [h]; exact List.mem_cons_self)
    rw [List.headD_cons, UInt8.le_iff_toNat_le]
    rcases List.mem_append.mp hc with hc | hc
    · rcases List.mem_append.mp hc with hc | hc
      · have := toNat_of_white (hw c hc)
        exact Nat.le_trans this (by decide)
      · rcases hsg with rfl | rfl | rfl <;> simp at hc <;> rw [hc] <;> decide
    · exact (toNat_of_digit (hds c hc)).2

/-- 空白・符号・数字の列：`int64_t` に収まる値（負なら `2^63` まで）ならその値の `KindOfInt64`、
収まらなければ `overflow` を符号にした `KindOfDouble`。 -/
theorem is_numeric_string_intLiteral {w sg ds : List UInt8} (hw : AllWhite w) (hsg : SignPart sg)
    (hne : ds ≠ []) (hds : AllDigits ds) (dval : Bool) :
    is_numeric_string true (w ++ sg ++ ds) ⟨true, dval, 0⟩ =
      if value ds 0 < 2 ^ 63 ∨ (value ds 0 = 2 ^ 63 ∧ sg = [0x2d]) then
        ⟨.KindOfInt64,
          some (Int64.ofInt (if sg = [0x2d] then -(value ds 0 : Int) else value ds 0)), some 0⟩
      else ⟨.KindOfDouble, none, some (if sg = [0x2d] then -1 else 1)⟩ := by
  obtain ⟨hwh, hs, hd⟩ := headD_signDigits hsg hne hds
  have hdw : (w ++ sg ++ ds).drop w.length = sg ++ ds := by
    rw [List.append_assoc, List.drop_left]
  have hdsg : (w ++ sg ++ ds).drop (w.length + sg.length) = ds := by
    rw [← List.drop_drop, hdw, List.drop_left]
  have hlen : (w ++ sg ++ ds).length = w.length + sg.length + ds.length := by
    simp only [List.length_append]
  -- 先頭の検査、空白、符号
  have h0 : ¬((w ++ sg ++ ds).length = 0 ∨ 0x39 < byteAt (w ++ sg ++ ds) 0) := by
    have h9 := byteAt_le_nine hw hsg hds 0
    have hpos := List.length_pos_of_ne_nil hne
    simp only [not_or]
    exact ⟨by omega, fun h => UInt8.not_le.mpr h h9⟩
  have hstr : skipWhile isWhite (w ++ sg ++ ds) 0 = w.length := by
    rw [skipWhile_of_drop (by rw [List.drop_zero, List.append_assoc]) hw hwh, Nat.zero_add]
  have hdig : IS_DIGIT (byteAt (w ++ sg ++ ds) (w.length + sg.length)) = true := by
    rw [byteAt_eq_headD, hdsg]
    exact hd
  rw [is_numeric_string_of_digit h0 hstr (signEnd_of_drop hdw hsg hs) hdig]
  -- 先頭の 0 を飛ばした残り `sig` を数える
  obtain ⟨zs, hzs, hdzs, hlzs⟩ := exists_skipWhile (· == 0x30) (w ++ sg ++ ds) (w.length + sg.length)
  generalize hsig : (w ++ sg ++ ds).drop (skipWhile (· == 0x30) (w ++ sg ++ ds) (w.length + sg.length)) = sig at hdzs
  have hsig0 := skipWhile_stop (p := (· == 0x30)) rfl (w ++ sg ++ ds) (w.length + sg.length)
  rw [hdsg] at hdzs
  subst hdzs
  have hsigd : AllDigits sig := fun c hc => hds c (List.mem_append_right _ hc)
  have hv : value (zs ++ sig) 0 = value sig 0 := value_zeros_append (fun c hc => by simpa using hzs c hc)
  rw [hlzs] at hsig hsig0
  rw [hlzs, checkDigits_sig (by simp only [List.length_append] at hlen ⊢; omega) hsig hsigd rfl, hv]
  have hlt := fast_strtoll_base10_eq hdw hsg hne hds
  have hend := zendStrtodEnd_int hdw hsg hne hds
  rw [hv] at hlt
  generalize w ++ sg ++ (zs ++ sig) = b at *
  have hneg : byteAt b w.length = 0x2d ↔ sg = [0x2d] := by
    rw [byteAt_eq_headD, hdw]
    rcases hsg with rfl | rfl | rfl
    · exact iff_of_false (ne_of_digit hd rfl) (by decide)
    · exact iff_of_true rfl rfl
    · exact iff_of_false (by rw [List.singleton_append, List.headD_cons]; decide) (by decide)
  have hsig0' : sig.headD 0 ≠ 0x30 := by
    rw [byteAt_eq_headD, hsig] at hsig0
    simpa using hsig0
  have hpos : sig.length ≤ b.length := by
    simp only [List.length_append] at hlen
    omega
  by_cases hk : sig.length < MAX_LENGTH_OF_LONG
  · -- 20 桁未満：整数として末尾まで読み、19 桁なら `long_min_digits` と比べる
    have hdrop : b.drop (b.length - sig.length) = sig := by
      have : b.length - sig.length = w.length + sg.length + zs.length := by
        simp only [List.length_append] at hlen
        omega
      rw [this, hsig]
    rw [if_pos hk, finish_int_end rfl rfl]
    dsimp only
    rw [hdrop, hlt, if_pos rfl, if_pos rfl]
    by_cases h19 : sig.length = MAX_LENGTH_OF_LONG - 1
    · -- 19 桁：`strncmp` は値と `2^63` の比較
      have hcmp := @strncmp_digits sig long_min_digits (by rw [h19]; rfl) hsigd
        allDigits_long_min_digits
      rw [h19] at hcmp
      simp only [h19, hcmp.1, hcmp.2, value_long_min_digits, hneg, true_and]
      rw [ite_not]
    · -- 19 桁未満：`2^63` に届かない
      have hsmall : value sig 0 < 2 ^ 63 := by
        have := value_lt_pow hsigd
        have hk' : sig.length ≤ 18 := by simp only [MAX_LENGTH_OF_LONG] at hk h19; omega
        calc value sig 0 < 10 ^ sig.length := this
          _ ≤ 10 ^ 18 := Nat.pow_le_pow_right (by decide) hk'
          _ < 2 ^ 63 := by decide
      rw [if_neg (fun h => h19 h.1),
        if_pos (show value sig 0 < 2 ^ 63 ∨ (value sig 0 = 2 ^ 63 ∧ sg = [0x2d]) from .inl hsmall)]
  · -- 20 桁以上：`overflow` を符号にして `double`
    have hne' : sig ≠ [] := by
      rintro rfl
      exact hk (by decide)
    have hbig : ¬(value sig 0 < 2 ^ 63 ∨ (value sig 0 = 2 ^ 63 ∧ sg = [0x2d])) := by
      have := pow_le_value hne' hsigd hsig0'
      have hk' : 19 ≤ sig.length - 1 := by simp only [MAX_LENGTH_OF_LONG] at hk; omega
      have : 2 ^ 63 < value sig 0 :=
        calc 2 ^ 63 < 10 ^ 19 := by decide
          _ ≤ 10 ^ (sig.length - 1) := Nat.pow_le_pow_right (by decide) hk'
          _ ≤ value sig 0 := this
      omega
    rw [if_neg hk, if_neg hbig, hend, ite_self, finish_double_end rfl rfl]
    simp only [hneg]

theorem is_numeric_string_of_empty (h0 : b.length = 0 ∨ 0x39 < byteAt b 0) :
    is_numeric_string true b a = ⟨.KindOfNull, none, none⟩ := by
  rw [is_numeric_string, if_pos h0]

/-- 空白と符号の後が数字でも、`'.'` と数字でもなければ数でない。 -/
theorem is_numeric_string_of_other {str ptr : Nat} (h0 : ¬(b.length = 0 ∨ 0x39 < byteAt b 0))
    (hstr : skipWhile isWhite b 0 = str)
    (hptr : (if isSign (byteAt b str) then str + 1 else str) = ptr)
    (hd : IS_DIGIT (byteAt b ptr) = false)
    (hp : ¬(byteAt b ptr = 0x2e ∧ IS_DIGIT (byteAt b (ptr + 1)) = true)) :
    is_numeric_string true b a = ⟨.KindOfNull, none, some 0⟩ := by
  subst hstr hptr
  rw [is_numeric_string, if_neg h0]
  simp only [hd, Bool.false_eq_true, ↓reduceIte, if_neg hp]

/-- 空白と符号の後が `'.'` と数字：`double` として、`dval` があれば `zend_strtod` が、なければ
`dp_or_e = 1` のループが小数部を読む。 -/
theorem is_numeric_string_of_point {str ptr : Nat} (h0 : ¬(b.length = 0 ∨ 0x39 < byteAt b 0))
    (hstr : skipWhile isWhite b 0 = str)
    (hptr : (if isSign (byteAt b str) then str + 1 else str) = ptr)
    (hd : IS_DIGIT (byteAt b ptr) = false)
    (hp : byteAt b ptr = 0x2e ∧ IS_DIGIT (byteAt b (ptr + 1)) = true) :
    ∃ sc, is_numeric_string true b a = finish a b str 10 sc ∧ sc.type = .KindOfDouble ∧
      (sc.ptr = b.length → DigitsTail 1 (b.drop (ptr + 1)) ∨ zendStrtodEnd b str = b.length) := by
  have hlt : ptr < b.length := lt_length_of_byteAt (by rw [hp.1]; decide)
  subst hstr hptr
  rw [is_numeric_string, if_neg h0]
  simp only [hd, Bool.false_eq_true, ↓reduceIte, if_pos hp]
  cases hpd : processDouble a b (skipWhile isWhite b 0)
      (if isSign (byteAt b (skipWhile isWhite b 0)) then skipWhile isWhite b 0 + 1
        else skipWhile isWhite b 0) 0 with
  | checkDigits dp =>
    have hdp := processDouble_checkDigits hpd
    rw [if_pos hp.1] at hdp
    subst hdp
    exact ⟨_, rfl, checkDigits_type_double rfl, checkDigits_accept⟩
  | finish q =>
    refine ⟨_, rfl, rfl, fun hq => ?_⟩
    rcases processDouble_finish hpd with rfl | rfl
    · exact .inr hq
    · exact absurd hq (Nat.ne_of_lt hlt)

end Classify

/-! ## 数として読んだもの -/

section Accept

/-- 指数部は `'e'` か `'E'` で始まり、数字では始まらない。 -/
theorem OptExponent.not_digit {c : UInt8} {r : List UInt8} (h : OptExponent (c :: r))
    (hc : IS_DIGIT c = true) : False := by
  rcases h with h | ⟨e, sg, ds, he, hee, -⟩
  · cases h
  · cases he
    rcases hee with rfl | rfl <;> exact absurd hc (by decide)

/-- 数字で始まる整数部からの残りは、仮数と指数部。 -/
theorem DigitsTail.mantissa {c : UInt8} {r : List UInt8} (h : DigitsTail 0 (c :: r))
    (hc : IS_DIGIT c = true) : ∃ m ex, c :: r = m ++ ex ∧ Mantissa m ∧ OptExponent ex := by
  obtain ⟨i, rest, he, hi, hrest⟩ := h
  -- 数字で始まるので、整数部の数字の列 `i` は空でない
  have hne : i ≠ [] := by
    rintro rfl
    rw [List.nil_append] at he
    subst he
    rcases hrest with h | ⟨-, h⟩ | ⟨-, f, ex, h, -⟩
    · cases h
    · exact h.not_digit hc
    · cases h
      exact absurd hc (by decide)
  rcases hrest with rfl | ⟨-, hex⟩ | ⟨-, f, ex, rfl, hf, hex⟩
  · exact ⟨i, [], he, ⟨i, [], hi, AllDigits.nil, .inl ⟨rfl, hne⟩⟩, .inl rfl⟩
  · exact ⟨i, rest, he, ⟨i, [], hi, AllDigits.nil, .inl ⟨rfl, hne⟩⟩, hex⟩
  · refine ⟨i ++ 0x2e :: f, ex, by rw [he]; simp, ⟨i, f, hi, hf, .inr ⟨rfl, ?_⟩⟩, hex⟩
    exact fun h => hne (List.append_eq_nil_iff.mp h).1

/-- 数字で始まる小数部からの残りは、空でない数字の列と指数部。 -/
theorem DigitsTail.fraction {c : UInt8} {r : List UInt8} (h : DigitsTail 1 (c :: r))
    (hc : IS_DIGIT c = true) :
    ∃ f ex, c :: r = f ++ ex ∧ f ≠ [] ∧ AllDigits f ∧ OptExponent ex := by
  obtain ⟨f, ex, he, hf, hrest⟩ := h
  have hex : OptExponent ex := by
    rcases hrest with rfl | ⟨-, hex⟩ | ⟨h1, -⟩
    · exact .inl rfl
    · exact hex
    · exact absurd h1 (by decide)
  refine ⟨f, ex, he, ?_, hf, hex⟩
  rintro rfl
  rw [List.nil_append] at he
  subst he
  exact hex.not_digit hc

theorem NumLiteral.white_append {w r : List UInt8} (hw : AllWhite w) (h : NumLiteral r) :
    NumLiteral (w ++ r) := by
  obtain ⟨w', sg, m, ex, rfl, hw', hsg, hm, hex⟩ := h
  refine ⟨w ++ w', sg, m, ex, by simp, ?_, hsg, hm, hex⟩
  intro c hc
  rcases List.mem_append.mp hc with hc | hc
  · exact hw c hc
  · exact hw' c hc

theorem DigitsTail.append_digits {dp : Int} {zs r : List UInt8} (hz : AllDigits zs)
    (h : DigitsTail dp r) : DigitsTail dp (zs ++ r) := by
  induction zs with
  | nil => exact h
  | cons z zs ih =>
    exact (ih (fun c hc => hz c (List.mem_cons_of_mem _ hc))).cons (hz z List.mem_cons_self)

/-- 空白と符号：`b` は空白の列、符号、`ptr` から先。 -/
theorem exists_white_sign (b : List UInt8) {str ptr : Nat} (hstr : skipWhile isWhite b 0 = str)
    (hptr : (if isSign (byteAt b str) then str + 1 else str) = ptr) :
    ∃ w sg, AllWhite w ∧ SignPart sg ∧ b = w ++ b.drop str ∧ b.drop str = sg ++ b.drop ptr := by
  obtain ⟨w, hw, hdw, -⟩ := exists_skipWhile isWhite b 0
  obtain ⟨sg, hsg, hdsg⟩ := exists_sign b str
  subst hstr hptr
  exact ⟨w, sg, hw, hsg, by rw [← hdw, List.drop_zero], hdsg⟩

variable {b : List UInt8} {dval : Bool}

/-- `KindOfInt64` を返した列は、空白・符号・数字の列。 -/
theorem intShape_of_is_numeric_string
    (h : (is_numeric_string true b ⟨true, dval, 0⟩).type = .KindOfInt64) :
    ∃ w sg ds, b = w ++ sg ++ ds ∧ AllWhite w ∧ SignPart sg ∧ ds ≠ [] ∧ AllDigits ds := by
  by_cases h0 : b.length = 0 ∨ 0x39 < byteAt b 0
  · rw [is_numeric_string_of_empty h0] at h
    cases h
  obtain ⟨str, hstr⟩ : ∃ str, skipWhile isWhite b 0 = str := ⟨_, rfl⟩
  obtain ⟨ptr, hptr⟩ : ∃ ptr, (if isSign (byteAt b str) then str + 1 else str) = ptr := ⟨_, rfl⟩
  obtain ⟨w, sg, hw, hsg, hb, hdsg⟩ := exists_white_sign b hstr hptr
  cases hd : IS_DIGIT (byteAt b ptr)
  · -- 数字でなければ、`double` か数でない
    by_cases hp : byteAt b ptr = 0x2e ∧ IS_DIGIT (byteAt b (ptr + 1)) = true
    · obtain ⟨sc, he, hty, -⟩ := is_numeric_string_of_point h0 hstr hptr hd hp
      rw [he] at h
      rw [finish_type_int h] at hty
      cases hty
    · rw [is_numeric_string_of_other h0 hstr hptr hd hp] at h
      cases h
  · rw [is_numeric_string_of_digit h0 hstr hptr hd] at h
    have hacc := finish_accept rfl (by rw [h]; exact nofun)
    -- 先頭の 0 の後は、末尾まで数字
    have hdig := checkDigits_int (finish_type_int h) hacc
    obtain ⟨zs, hzs, hdzs, -⟩ := exists_skipWhile (· == 0x30) b ptr
    have hzd : AllDigits zs := fun c hc => by
      rw [show c = 0x30 by simpa using hzs c hc]
      rfl
    refine ⟨w, sg, b.drop ptr, ?_, hw, hsg, ?_, ?_⟩
    · rw [List.append_assoc, ← hdsg, ← hb]
    · rw [drop_eq_cons (lt_length_of_byteAt (ne_zero_of_IS_DIGIT hd))]
      exact List.cons_ne_nil _ _
    · rw [hdzs]
      exact hzd.append hdig

/-- `KindOfNull` でない列は、空白・符号・仮数・指数。 -/
theorem numLiteral_of_is_numeric_string
    (h : (is_numeric_string true b ⟨true, dval, 0⟩).type ≠ .KindOfNull) : NumLiteral b := by
  by_cases h0 : b.length = 0 ∨ 0x39 < byteAt b 0
  · rw [is_numeric_string_of_empty h0] at h
    exact absurd rfl h
  obtain ⟨str, hstr⟩ : ∃ str, skipWhile isWhite b 0 = str := ⟨_, rfl⟩
  obtain ⟨ptr, hptr⟩ : ∃ ptr, (if isSign (byteAt b str) then str + 1 else str) = ptr := ⟨_, rfl⟩
  obtain ⟨w, sg, hw, hsg, hb, hdsg⟩ := exists_white_sign b hstr hptr
  -- `ptr` から先が仮数と指数なら、`b` はそれに空白と符号を付けたもの
  have hlit : ∀ m ex, b.drop ptr = m ++ ex → Mantissa m → OptExponent ex → NumLiteral b :=
    fun m ex he hm hex => ⟨w, sg, m, ex, by rw [hb, hdsg, he]; simp only [List.append_assoc],
      hw, hsg, hm, hex⟩
  -- `zend_strtod` が `str` から末尾まで読んだなら、その列に空白を付けたもの
  have hstrtod : ptr < b.length → zendStrtodEnd b str = b.length → NumLiteral b := by
    intro hlt he
    have hle : str ≤ ptr := by
      rw [← hptr]
      split <;> omega
    rw [hb]
    exact (zendStrtodEnd_accept he (by omega)).white_append hw
  cases hd : IS_DIGIT (byteAt b ptr)
  · by_cases hp : byteAt b ptr = 0x2e ∧ IS_DIGIT (byteAt b (ptr + 1)) = true
    · -- `'.'` と数字：小数部と指数
      have hlt : ptr < b.length := lt_length_of_byteAt (by rw [hp.1]; decide)
      obtain ⟨sc, he, -, hacc⟩ := is_numeric_string_of_point h0 hstr hptr hd hp
      rw [he] at h
      rcases hacc (finish_accept rfl h) with ht | ht
      · have hlt' := lt_length_of_byteAt (ne_zero_of_IS_DIGIT hp.2)
        rw [drop_eq_cons hlt'] at ht
        obtain ⟨f, ex, hfe, hf, hfd, hex⟩ := ht.fraction hp.2
        refine hlit ([] ++ 0x2e :: f) ex ?_ ⟨[], f, AllDigits.nil, hfd, .inr ⟨rfl, hf⟩⟩ hex
        rw [drop_eq_cons hlt, hp.1, drop_eq_cons hlt', hfe]
        rfl
      · exact hstrtod hlt ht
    · rw [is_numeric_string_of_other h0 hstr hptr hd hp] at h
      exact absurd rfl h
  · -- 数字：整数部、`'.'` と小数部、指数
    have hlt : ptr < b.length := lt_length_of_byteAt (ne_zero_of_IS_DIGIT hd)
    rw [is_numeric_string_of_digit h0 hstr hptr hd] at h
    rcases checkDigits_accept (finish_accept rfl h) with ht | ht
    · obtain ⟨zs, hzs, hdzs, -⟩ := exists_skipWhile (· == 0x30) b ptr
      have hzd : AllDigits zs := fun c hc => by
        rw [show c = 0x30 by simpa using hzs c hc]
        rfl
      have ht' : DigitsTail 0 (b.drop ptr) := by
        rw [hdzs]
        exact ht.append_digits hzd
      rw [drop_eq_cons hlt] at ht'
      obtain ⟨m, ex, hme, hm, hex⟩ := ht'.mantissa hd
      exact hlit m ex (by rw [drop_eq_cons hlt, hme]) hm hex
    · exact hstrtod hlt ht

end Accept

/-! ## 分類 -/

theorem toInt_minValue : Int64.minValue.toInt = -2 ^ 63 := rfl

theorem toInt_maxValue : Int64.maxValue.toInt = 2 ^ 63 - 1 := rfl

/-- `is_numeric_string` の整数の範囲は、符号の付いた値が `int64_t` に収まること。 -/
theorem int64_range_iff (v : Nat) (neg : Prop) [Decidable neg] :
    (v < 2 ^ 63 ∨ (v = 2 ^ 63 ∧ neg)) ↔
      (Int64.minValue.toInt ≤ (if neg then -(v : Int) else v) ∧
        (if neg then -(v : Int) else v) ≤ Int64.maxValue.toInt) := by
  rw [toInt_minValue, toInt_maxValue]
  by_cases hn : neg
  · simp only [hn, and_true, ↓reduceIte]
    omega
  · simp only [hn, and_false, or_false, ↓reduceIte]
    omega


/-- `allow_errors` が 0 で 16 進を読まないとき、`is_numeric_string` は、空白・符号・数字の列で
値が `int64_t` に収まるものをちょうどその値の `KindOfInt64` とし、収まらない数字の列は
`overflow` を符号にした `KindOfDouble` とし、数の表記でない列（後ろに余分な文字があるものを含む）
は `KindOfNull` とする。 -/
theorem is_numeric_string_classifies (dval : Bool) (b : List UInt8) :
    (∀ n : Int64, ((is_numeric_string true b ⟨true, dval, 0⟩).type = .KindOfInt64 ∧
        (is_numeric_string true b ⟨true, dval, 0⟩).lval = some n) ↔ IntLiteral b n.toInt) ∧
    (∀ v : Int, IntLiteral b v → (v < Int64.minValue.toInt ∨ Int64.maxValue.toInt < v) →
        (is_numeric_string true b ⟨true, dval, 0⟩).type = .KindOfDouble ∧
        (is_numeric_string true b ⟨true, dval, 0⟩).overflow = some (if v < 0 then -1 else 1)) ∧
    ((is_numeric_string true b ⟨true, dval, 0⟩).type ≠ .KindOfNull → NumLiteral b) := by
  refine ⟨fun n => ⟨?_, ?_⟩, ?_, numLiteral_of_is_numeric_string⟩
  · -- `KindOfInt64` なら、その形で、値は範囲の中
    rintro ⟨hty, hl⟩
    obtain ⟨w, sg, ds, rfl, hw, hsg, hne, hds⟩ := intShape_of_is_numeric_string hty
    rw [is_numeric_string_intLiteral hw hsg hne hds] at hty hl
    by_cases hr : value ds 0 < 2 ^ 63 ∨ (value ds 0 = 2 ^ 63 ∧ sg = [0x2d])
    · rw [if_pos hr] at hl
      have hn := Option.some_inj.mp hl
      subst hn
      refine ⟨w, sg, ds, rfl, hw, hsg, hne, hds, ?_⟩
      have hb := (int64_range_iff (value ds 0) (sg = [0x2d])).mp hr
      rw [toInt_minValue, toInt_maxValue] at hb
      rw [Int64.toInt_ofInt_of_le hb.1 (by omega)]
    · rw [if_neg hr] at hty
      cases hty
  · -- その形で値が範囲の中なら、その値の `KindOfInt64`
    rintro ⟨w, sg, ds, rfl, hw, hsg, hne, hds, hn⟩
    have hr : value ds 0 < 2 ^ 63 ∨ (value ds 0 = 2 ^ 63 ∧ sg = [0x2d]) := by
      rw [int64_range_iff, ← hn]
      exact ⟨Int64.minValue_le n |> Int64.le_iff_toInt_le.mp, Int64.le_maxValue n |> Int64.le_iff_toInt_le.mp⟩
    rw [is_numeric_string_intLiteral hw hsg hne hds, if_pos hr, ← hn, Int64.ofInt_toInt]
    exact ⟨rfl, rfl⟩
  · -- 範囲の外なら `overflow` を符号にした `KindOfDouble`
    rintro v ⟨w, sg, ds, rfl, hw, hsg, hne, hds, rfl⟩ hout
    have hr : ¬(value ds 0 < 2 ^ 63 ∨ (value ds 0 = 2 ^ 63 ∧ sg = [0x2d])) := by
      rw [int64_range_iff]
      omega
    rw [is_numeric_string_intLiteral hw hsg hne hds, if_neg hr]
    refine ⟨rfl, ?_⟩
    by_cases hneg : sg = [0x2d]
    · rw [hneg] at hr ⊢
      simp only [↓reduceIte] at hr ⊢
      rw [if_pos (by omega)]
    · simp only [hneg, ↓reduceIte] at hr ⊢
      rw [if_neg (by omega)]

/-- 空白と `'-'` の後に数字 `9223372036854775809`：`INT64_MIN` より一つ小さい値の整数の形。 -/
def belowInt64Min : List UInt8 :=
  [0x20, 0x2d, 0x39, 0x32, 0x32, 0x33, 0x33, 0x37, 0x32, 0x30, 0x33, 0x36, 0x38, 0x35, 0x34,
    0x37, 0x37, 0x35, 0x38, 0x30, 0x39]

/-- `INT64_MIN - 1` の整数の形は `KindOfDouble` で、`overflow` は負の向き。 -/
theorem is_numeric_string_classifies_belowInt64Min :
    IntLiteral belowInt64Min (-9223372036854775809) ∧
      (is_numeric_string true belowInt64Min ⟨true, false, 0⟩).type = .KindOfDouble ∧
      (is_numeric_string true belowInt64Min ⟨true, false, 0⟩).overflow = some (-1) ∧
      NumLiteral belowInt64Min := by
  -- 空白と数字の検査は `List.all` にして評価する
  have hlit : IntLiteral belowInt64Min (-9223372036854775809) := by
    refine ⟨[0x20], [0x2d], belowInt64Min.drop 2, rfl, List.all_eq_true.mp rfl, Or.inr (Or.inl rfl),
      by decide, List.all_eq_true.mp rfl, ?_⟩
    rw [if_pos rfl]
    rfl
  obtain ⟨-, hout, hnum⟩ := is_numeric_string_classifies false belowInt64Min
  obtain ⟨hty, hov⟩ := hout _ hlit (Or.inl (by decide))
  rw [if_pos (by decide)] at hov
  exact ⟨hlit, hty, hov, hnum (by rw [hty]; decide)⟩

end Hhvm.Zend
