import Hhvm.Zend.Properties.PrintfConvert

/-!
# 書いた書式を読む

書式を字句の列（`Piece`）から書き出したものとして持つ。字句は `'%'` でない byte、`"%%"`、変換指定の
三つで、変換指定は修飾子の列・幅・変換の文字からなる（精度と位置の指定 `n$` は書かない）。

* 数字の列は `digitRun` が最初の数字でない byte まで読む（`digitRun_append`）。
* 修飾子は `modifierLoop` が一つずつ読んで `Modifiers` に効かせる（`modifierLoop_flags`）。幅 0 は
  書かない：`'0'` は修飾子として読まれるからである。
* `parseArgnum` は先頭の数字の後に `'$'` がないことを確かめる。修飾子 `'0'` と幅の数字の後に来る
  のは、ほかの修飾子か変換の文字で、`'$'` ではない（`dropWhile_isDigit_text`）。

これで、書いた変換指定はそのまま `Directive` として読み戻され（`parseDirective_text`）、
`string_printf` はリテラルと `'%'` と変換の結果を字句の順に並べる（`stringPrintf_render`）。
-/

namespace Hhvm.Zend

/-! ## 書式の字句 -/

/-- 修飾子：`' '`・`'0'`・`'-'`・`'+'`・`'\''c`。 -/
inductive Flag where
  | space
  | zero
  | minus
  | plus
  | custom (c : UInt8)
deriving DecidableEq, Repr

/-- 修飾子の書き方。 -/
def Flag.text : Flag → List UInt8
  | .space => [0x20]
  | .zero => [0x30]
  | .minus => [0x2d]
  | .plus => [0x2b]
  | .custom c => [0x27, c]

/-- 修飾子が `Modifiers` に効くこと。 -/
def Flag.apply (m : Modifiers) : Flag → Modifiers
  | .space => { m with padding := 0x20 }
  | .zero => { m with padding := 0x30 }
  | .minus => { m with alignment := .left }
  | .plus => { m with alwaysSign := true }
  | .custom c => { m with padding := c }

/-- `modifierLoop` が修飾子として読み進める byte。 -/
def isModifierStart (c : UInt8) : Bool :=
  c = 0x20 || c = 0x30 || c = 0x2d || c = 0x2b || c = 0x27

/-- 幅の数字。幅 0 は書かない。 -/
def widthText (w : Nat) : List UInt8 := if w = 0 then [] else decimalDigits w

/-- 書いた変換指定。変換の文字は英字で `'l'` でなく、幅は `INT_MAX` 未満。 -/
structure ConvSpec where
  flags : List Flag
  width : Nat
  conv : UInt8
  conv_alpha : isAlpha conv = true
  conv_ne_l : conv ≠ 0x6c
  width_lt : width < INT_MAX

namespace ConvSpec

/-- 修飾子の部分。 -/
def flagsText (s : ConvSpec) : List UInt8 := s.flags.flatMap Flag.text

/-- `'%'` の後に書くもの。 -/
def text (s : ConvSpec) : List UInt8 := s.flagsText ++ widthText s.width ++ [s.conv]

/-- 修飾子を既定の `Modifiers` に順に効かせたもの。 -/
def mods (s : ConvSpec) : Modifiers := s.flags.foldl Flag.apply Modifiers.default

/-- 読み戻す `Directive`：`argnum` 番目の引数を取り、変換の文字は `inpos` にある。 -/
def directive (s : ConvSpec) (argnum inpos : Nat) : Directive :=
  ⟨argnum, s.mods, s.width, 0, false, false, s.conv, inpos⟩

end ConvSpec

/-- 書式の字句。 -/
inductive Piece where
  | lit (c : UInt8) (h : c ≠ 0x25)
  | percent
  | conv (s : ConvSpec)

/-- 字句の書き方。 -/
def Piece.text : Piece → List UInt8
  | .lit c _ => [c]
  | .percent => [0x25, 0x25]
  | .conv s => 0x25 :: s.text

/-- 字句の列を書式にする。 -/
def render (ps : List Piece) : List UInt8 := ps.flatMap Piece.text

/-- 変換指定の数。 -/
def convCount : List Piece → Nat
  | [] => 0
  | .conv _ :: ps => convCount ps + 1
  | .lit _ _ :: ps => convCount ps
  | .percent :: ps => convCount ps

section Output

variable {α F : Type} [Inhabited α] (cv : ArgConv α F) (df : DoubleFormat F) (args : List α)

/-- 字句ごとに書くもの。`i` は次に取る引数の番号（1 から）。 -/
def output : List Piece → Nat → List UInt8
  | [], _ => []
  | .lit c _ :: ps, i => c :: output ps i
  | .percent :: ps, i => 0x25 :: output ps i
  | .conv s :: ps, i =>
    convert cv df (s.directive i 0) s.conv (args.getD (i - 1) default) ++ output ps (i + 1)

end Output

/-! ## byte の種類 -/

theorem isDigit_eq (c : UInt8) : isDigit c = decide (0x30 ≤ c.toNat ∧ c.toNat ≤ 0x39) := by
  simp [isDigit, UInt8.le_iff_toNat_le]

theorem isAlpha_eq (c : UInt8) :
    isAlpha c = decide ((0x41 ≤ c.toNat ∧ c.toNat ≤ 0x5a) ∨ (0x61 ≤ c.toNat ∧ c.toNat ≤ 0x7a)) := by
  simp [isAlpha, UInt8.le_iff_toNat_le]

theorem isAscii_eq (c : UInt8) : isAscii c = decide (c.toNat < 0x80) := by
  simp [isAscii, UInt8.lt_iff_toNat_lt]

/-- 数字は ASCII で英字でなく、`'%'`・`'$'` でもない。 -/
theorem digit_facts {c : UInt8} (h : isDigit c = true) :
    (isAscii c && !isAlpha c) = true ∧ c ≠ 0x25 ∧ c ≠ 0x24 := by
  rw [isDigit_eq, decide_eq_true_eq] at h
  refine ⟨?_, fun hc => ?_, fun hc => ?_⟩
  · rw [isAscii_eq, isAlpha_eq]
    simp only [Bool.and_eq_true, decide_eq_true_eq, Bool.not_eq_eq_eq_not, Bool.not_true,
      decide_eq_false_iff_not]
    omega
  · subst hc
    simp at h
  · subst hc
    simp at h

/-- 英字は数字でも修飾子でもなく、`'%'`・`'$'`・`'.'` でもない。 -/
theorem alpha_facts {c : UInt8} (h : isAlpha c = true) :
    isDigit c = false ∧ isModifierStart c = false ∧ c ≠ 0x25 ∧ c ≠ 0x24 ∧ c ≠ 0x2e := by
  rw [isAlpha_eq, decide_eq_true_eq] at h
  refine ⟨?_, ?_, fun hc => ?_, fun hc => ?_, fun hc => ?_⟩
  · rw [isDigit_eq, decide_eq_false_iff_not]
    omega
  · simp only [isModifierStart, Bool.or_eq_false_iff, decide_eq_false_iff_not]
    refine ⟨⟨⟨⟨fun hc => ?_, fun hc => ?_⟩, fun hc => ?_⟩, fun hc => ?_⟩, fun hc => ?_⟩ <;>
      (subst hc; simp at h)
  all_goals (subst hc; simp at h)

/-! ## 数字の列 -/

/-- `digitRun` が数字の列から作る値。 -/
def digitsValue (ds : List UInt8) (acc : Nat) : Nat :=
  ds.foldl (fun a c => a * 10 + (c.toNat - 0x30)) acc

theorem getD_append_length (pre l : List UInt8) : (pre ++ l).getD pre.length 0 = l.headD 0 := by
  rw [List.getD_append_right _ _ _ _ (Nat.le_refl _), Nat.sub_self]
  cases l <;> rfl

/-- `digitRun` は読み始めの位置から、最初の数字でない byte の前まで読む。 -/
theorem digitRun_append (l pre : List UInt8) (acc : Nat) :
    digitRun (pre ++ l) pre.length acc =
      .ok (digitsValue (l.takeWhile isDigit) acc, pre.length + (l.takeWhile isDigit).length) := by
  induction l generalizing pre acc with
  | nil =>
    rw [digitRun_of_not_digit _ (by simp) (by rw [getD_append_length]; decide)]
    rfl
  | cons c l ih =>
    by_cases hc : isDigit c = true
    · have hstep : digitRun (pre ++ c :: l) pre.length acc = _ :=
        digitRun_of_digit _ (by simp) (by rw [getD_append_length]; exact hc)
      rw [getD_append_length, List.headD_cons] at hstep
      have hre : pre ++ c :: l = (pre ++ [c]) ++ l := by simp
      rw [hstep, hre, show pre.length + 1 = (pre ++ [c]).length by simp, ih,
        List.takeWhile_cons_of_pos hc]
      simp only [digitsValue, List.foldl_cons, List.length_append, List.length_cons,
        List.length_nil]
      congr 2
      omega
    · rw [digitRun_of_not_digit _ (by simp) (by rw [getD_append_length]; simpa using hc),
        List.takeWhile_cons_of_neg hc]
      rfl

/-- 止まった位置の byte は、数字を落とした残りの先頭。 -/
theorem getD_takeWhile_length (l pre : List UInt8) :
    (pre ++ l).getD (pre.length + (l.takeWhile isDigit).length) 0 = (l.dropWhile isDigit).headD 0 := by
  have h := getD_append_length (pre ++ l.takeWhile isDigit) (l.dropWhile isDigit)
  rwa [List.append_assoc, List.takeWhile_append_dropWhile, List.length_append] at h

/-! ## 10 進の数字 -/

theorem toNat_toUInt8_of_isDigit {c : Char} (h : c.isDigit = true) : c.toUInt8.toNat = c.toNat := by
  simp only [Char.isDigit, Bool.and_eq_true, decide_eq_true_eq] at h
  have hle : c.val.toNat ≤ 57 := h.2
  simp only [Char.toUInt8, UInt32.toNat_toUInt8, Char.toNat]
  omega

theorem isDigit_toUInt8 {c : Char} (h : c.isDigit = true) : isDigit c.toUInt8 = true := by
  have hn := toNat_toUInt8_of_isDigit h
  simp only [Char.isDigit, Bool.and_eq_true, decide_eq_true_eq] at h
  simp only [isDigit, Bool.and_eq_true, decide_eq_true_eq, UInt8.le_iff_toNat_le, hn]
  exact ⟨h.1, h.2⟩

theorem isDigit_of_mem_decimalDigits {w : Nat} {c : UInt8} (h : c ∈ decimalDigits w) :
    isDigit c = true := by
  obtain ⟨ch, hch, rfl⟩ := List.mem_map.mp h
  exact isDigit_toUInt8 (Nat.isDigit_of_mem_toDigits (by decide) (by decide) hch)

theorem digitsValue_map_toUInt8 (cs : List Char) (h : ∀ c ∈ cs, c.isDigit = true) (acc : Nat) :
    digitsValue (cs.map Char.toUInt8) acc = Nat.ofDigitChars 10 cs acc := by
  induction cs generalizing acc with
  | nil => rfl
  | cons c cs ih =>
    have hc := toNat_toUInt8_of_isDigit (h c List.mem_cons_self)
    rw [List.map_cons, digitsValue, List.foldl_cons, ← digitsValue,
      ih (fun x hx => h x (List.mem_cons_of_mem _ hx)), Nat.ofDigitChars_cons, hc, Nat.mul_comm]
    rfl

/-- `digitRun` が 10 進の数字から作る値は、その数そのもの。 -/
theorem digitsValue_decimalDigits (w acc : Nat) :
    digitsValue (decimalDigits w) acc = 10 ^ (decimalDigits w).length * acc + w := by
  rw [decimalDigits, digitsValue_map_toUInt8 _
      (fun _ hc => Nat.isDigit_of_mem_toDigits (by decide) (by decide) hc),
    Nat.ofDigitChars_eq_ofDigitChars_zero, Nat.ofDigitChars_ten_toDigits, List.length_map]

/-- 0 でない数の 10 進は `'0'` で始まらない。 -/
theorem headD_toDigits_ne_zero {w : Nat} (hw : w ≠ 0) : (Nat.toDigits 10 w).headD '0' ≠ '0' := by
  induction w using Nat.strong_induction_on with
  | _ w ih =>
    by_cases hlt : w < 10
    · rw [Nat.toDigits_of_lt_base hlt, List.headD_cons]
      exact fun h => hw (Nat.digitChar_eq_zero.mp h)
    · -- 上の桁の先頭がそのまま先頭になる
      have hq : w / 10 ≠ 0 := by omega
      have hne := ih (w / 10) (by omega) hq
      rw [Nat.toDigits_of_base_le (by decide) (by omega)]
      obtain ⟨c, cs, hcs⟩ := List.exists_cons_of_ne_nil (Nat.toDigits_ne_nil (b := 10) (n := w / 10))
      rw [hcs] at hne ⊢
      exact hne

theorem headD_decimalDigits_ne_zero {w : Nat} (hw : w ≠ 0) : (decimalDigits w).headD 0 ≠ 0x30 := by
  have hne := headD_toDigits_ne_zero hw
  obtain ⟨c, cs, hcs⟩ := List.exists_cons_of_ne_nil (Nat.toDigits_ne_nil (b := 10) (n := w))
  have hdig : c.isDigit = true :=
    Nat.isDigit_of_mem_toDigits (by decide) (by decide) (hcs ▸ List.mem_cons_self)
  rw [hcs, List.headD_cons] at hne
  rw [decimalDigits, hcs, List.map_cons, List.headD_cons]
  intro h
  have hn : c.toNat = 48 := by rw [← toNat_toUInt8_of_isDigit hdig, h]; rfl
  exact hne (Char.toNat_inj.mp hn)

/-! ## 修飾子 -/

theorem getD_append_cons (pre l tail : List UInt8) (c : UInt8) :
    (pre ++ c :: l ++ tail).getD pre.length 0 = c := by
  rw [List.append_assoc, getD_append_length]
  rfl

/-- 修飾子を一つ読む。`'\''c` は、`'\''` が書式の最後の byte でないので二 byte で読む。 -/
theorem modifierLoop_flag (f : Flag) (pre tail : List UInt8) (m : Modifiers) :
    modifierLoop (pre ++ f.text ++ tail) pre.length m =
      modifierLoop (pre ++ f.text ++ tail) (pre ++ f.text).length (f.apply m) := by
  cases f with
  | space =>
    simp only [Flag.text, Flag.apply]
    rw [modifierLoop_pad _ (by simp) (Or.inl (getD_append_cons _ _ _ _)), getD_append_cons]
    simp
  | zero =>
    simp only [Flag.text, Flag.apply]
    rw [modifierLoop_pad _ (by simp) (Or.inr (getD_append_cons _ _ _ _)), getD_append_cons]
    simp
  | minus =>
    simp only [Flag.text, Flag.apply]
    rw [modifierLoop_minus _ (by simp) (getD_append_cons _ _ _ _)]
    simp
  | plus =>
    simp only [Flag.text, Flag.apply]
    rw [modifierLoop_plus _ (by simp) (getD_append_cons _ _ _ _)]
    simp
  | custom c =>
    simp only [Flag.text, Flag.apply]
    -- 二 byte 目が詰める文字
    have hc : (pre ++ [0x27, c] ++ tail).getD (pre.length + 1) 0 = c := by
      have h := getD_append_cons (pre ++ [0x27]) [] tail c
      simp only [List.length_append, List.length_singleton, List.append_assoc,
        List.cons_append, List.nil_append] at h ⊢
      exact h
    rw [modifierLoop_quote _ (by simp) (getD_append_cons _ _ _ _), hc]
    simp

/-- 修飾子の列を読み切り、修飾子でない byte で止まる。 -/
theorem modifierLoop_flags (flags : List Flag) (pre rest : List UInt8) (m : Modifiers)
    (hstop : isModifierStart (rest.headD 0) = false) :
    modifierLoop (pre ++ flags.flatMap Flag.text ++ rest) pre.length m =
      .ok (flags.foldl Flag.apply m, pre.length + (flags.flatMap Flag.text).length) := by
  induction flags generalizing pre m with
  | nil =>
    have hget : ([] ++ rest).getD 0 0 = rest.headD 0 := getD_append_length [] rest
    simp only [List.flatMap_nil, List.append_nil, List.foldl_nil, List.length_nil, Nat.add_zero]
    simp only [isModifierStart, Bool.or_eq_false_iff, decide_eq_false_iff_not] at hstop
    obtain ⟨⟨⟨⟨h1, h2⟩, h3⟩, h4⟩, h5⟩ := hstop
    rw [← getD_append_length pre rest] at h1 h2 h3 h4 h5
    exact modifierLoop_stop _ (by simp) ⟨h1, h2, h3, h4⟩ (fun h => h5 h.1)
  | cons f fs ih =>
    have e1 : pre ++ (f :: fs).flatMap Flag.text ++ rest =
        pre ++ f.text ++ (fs.flatMap Flag.text ++ rest) := by simp
    have e2 : pre ++ f.text ++ (fs.flatMap Flag.text ++ rest) =
        (pre ++ f.text) ++ fs.flatMap Flag.text ++ rest := by simp
    rw [e1, modifierLoop_flag, e2, ih]
    simp only [List.foldl_cons, List.flatMap_cons, List.length_append, Nat.add_assoc]

/-! ## 変換指定を読む -/

open Infra.Except

/-- 修飾子の後の数字の列を落とすと、先頭はほかの修飾子か変換の文字で、`'$'` ではない。 -/
theorem dropWhile_isDigit_flags (flags : List Flag) (rest : List UInt8)
    (hrest : (rest.dropWhile isDigit).headD 0 ≠ 0x24) :
    ((flags.flatMap Flag.text ++ rest).dropWhile isDigit).headD 0 ≠ 0x24 := by
  induction flags with
  | nil => simpa using hrest
  | cons f fs ih =>
    rw [List.flatMap_cons, List.append_assoc]
    cases f with
    | zero =>
      -- `'0'` は数字なので落ちる
      rw [show Flag.text .zero = [0x30] from rfl, List.singleton_append,
        List.dropWhile_cons_of_pos (by decide)]
      exact ih
    | space =>
      rw [show Flag.text .space = [0x20] from rfl, List.singleton_append,
        List.dropWhile_cons_of_neg (by decide), List.headD_cons]
      decide
    | minus =>
      rw [show Flag.text .minus = [0x2d] from rfl, List.singleton_append,
        List.dropWhile_cons_of_neg (by decide), List.headD_cons]
      decide
    | plus =>
      rw [show Flag.text .plus = [0x2b] from rfl, List.singleton_append,
        List.dropWhile_cons_of_neg (by decide), List.headD_cons]
      decide
    | custom c =>
      rw [show Flag.text (.custom c) = [0x27, c] from rfl, List.cons_append,
        List.dropWhile_cons_of_neg (by decide), List.headD_cons]
      decide

theorem dropWhile_isDigit_text (s : ConvSpec) (tail : List UInt8) :
    ((s.text ++ tail).dropWhile isDigit).headD 0 ≠ 0x24 := by
  have hconv := alpha_facts s.conv_alpha
  have hw : ∀ c ∈ widthText s.width, isDigit c = true := by
    intro c hc
    unfold widthText at hc
    split_ifs at hc
    · exact absurd hc List.not_mem_nil
    · exact isDigit_of_mem_decimalDigits hc
  rw [ConvSpec.text, ConvSpec.flagsText, List.append_assoc, List.append_assoc]
  refine dropWhile_isDigit_flags _ _ ?_
  rw [List.dropWhile_append_of_pos hw, List.singleton_append,
    List.dropWhile_cons_of_neg (by simp [hconv.1])]
  exact hconv.2.2.2.1

/-- 書いた変換指定には `n$` がないので、引数は順に取る。 -/
theorem parseArgnum_text (s : ConvSpec) (pre tail : List UInt8) (currarg : Nat) :
    parseArgnum (pre ++ s.text ++ tail) pre.length currarg = .ok (currarg, pre.length, currarg + 1) := by
  have hle : pre.length + ((s.text ++ tail).takeWhile isDigit).length ≤
      (pre ++ (s.text ++ tail)).length := by
    have := (List.takeWhile_prefix (p := isDigit) (l := s.text ++ tail)).length_le
    simp only [List.length_append] at this ⊢
    omega
  unfold parseArgnum skipDigits
  rw [List.append_assoc, digitRun_append]
  refine bind_eq_ok.mpr ⟨_, rfl, ?_⟩
  refine bind_eq_ok.mpr ⟨_, fmtAt_of_le _ hle, ?_⟩
  rw [getD_takeWhile_length, if_neg (dropWhile_isDigit_text s tail)]
  rfl

/-- 幅の数字を読む。幅が 0 なら何も読まない。 -/
theorem parseWidth_widthText (w : Nat) (hw : w < INT_MAX) (pre tail : List UInt8) (c : UInt8)
    (hc : isDigit c = false) :
    parseWidth (pre ++ widthText w ++ c :: tail) pre.length =
      .ok (w, pre.length + (widthText w).length) := by
  unfold parseWidth
  by_cases hw0 : w = 0
  · subst hw0
    rw [show widthText 0 = [] from rfl, List.append_nil]
    refine bind_eq_ok.mpr ⟨_, fmtAt_of_le _ (by simp), ?_⟩
    rw [getD_append_length, List.headD_cons, if_neg (by simp [hc])]
    rfl
  · have hwt : widthText w = decimalDigits w := if_neg hw0
    rw [hwt]
    obtain ⟨d, ds, hds⟩ := List.exists_cons_of_ne_nil
      (by simp [decimalDigits, Nat.toDigits_ne_nil] : decimalDigits w ≠ [])
    have hd : isDigit d = true := isDigit_of_mem_decimalDigits (hds ▸ List.mem_cons_self)
    refine bind_eq_ok.mpr ⟨_, fmtAt_of_le _ (by simp), ?_⟩
    rw [List.append_assoc, getD_append_length, hds, List.cons_append, List.headD_cons, if_pos hd,
      ← List.cons_append, ← hds]
    -- 数字の列は変換の文字の前で止まり、値は `w`
    have htw : (decimalDigits w ++ c :: tail).takeWhile isDigit = decimalDigits w := by
      rw [List.takeWhile_append_of_pos (fun _ h => isDigit_of_mem_decimalDigits h),
        List.takeWhile_cons_of_neg (by simp [hc]), List.append_nil]
    have hnum : getnumber (pre ++ (decimalDigits w ++ c :: tail)) pre.length =
        .ok (w, pre.length + (decimalDigits w).length) := by
      rw [getnumber, digitRun_append, htw, digitsValue_decimalDigits, Nat.mul_zero, Nat.zero_add]
      simp only [Except.map, ge_iff_le, if_neg (Nat.not_le.mpr hw)]
    refine bind_eq_ok.mpr ⟨_, hnum, ?_⟩
    simp only [Int.natCast_nonneg, not_lt.mpr, if_false, Int.toNat_natCast]
    rfl

/-- 変換の文字は `'.'` でないので、精度は読まない。 -/
theorem parsePrecision_conv (pre tail : List UInt8) (c : UInt8) (hc : c ≠ 0x2e) :
    parsePrecision (pre ++ c :: tail) pre.length = .ok (0, false, false, c, pre.length) := by
  unfold parsePrecision
  refine bind_eq_ok.mpr ⟨_, fmtAt_of_le _ (by simp), ?_⟩
  rw [getD_append_length, List.headD_cons, if_neg hc]
  rfl

/-- 幅の一 byte 目は `'0'` でない数字。 -/
theorem headD_widthText {w : Nat} (hw : w ≠ 0) (rest : List UInt8) :
    isDigit ((widthText w ++ rest).headD 0) = true ∧ (widthText w ++ rest).headD 0 ≠ 0x30 := by
  have hwt : widthText w = decimalDigits w := if_neg hw
  have hne := headD_decimalDigits_ne_zero hw
  obtain ⟨d, ds, hds⟩ := List.exists_cons_of_ne_nil
    (by simp [decimalDigits, Nat.toDigits_ne_nil] : decimalDigits w ≠ [])
  have hd : isDigit d = true := isDigit_of_mem_decimalDigits (hds ▸ List.mem_cons_self)
  rw [hds, List.headD_cons] at hne
  rw [hwt, hds, List.cons_append, List.headD_cons]
  exact ⟨hd, hne⟩

/-- `'0'` でない数字は修飾子でない。 -/
theorem isModifierStart_of_digit {d : UInt8} (hd : isDigit d = true) (h0 : d ≠ 0x30) :
    isModifierStart d = false := by
  simp only [isModifierStart, Bool.or_eq_false_iff, decide_eq_false_iff_not]
  refine ⟨⟨⟨⟨fun h => ?_, h0⟩, fun h => ?_⟩, fun h => ?_⟩, fun h => ?_⟩ <;>
    (subst h; exact absurd hd (by decide))

/-- 修飾子の後の byte（幅の一 byte 目か変換の文字）は修飾子でない。 -/
theorem isModifierStart_after_flags (s : ConvSpec) (tail : List UInt8) :
    isModifierStart ((widthText s.width ++ s.conv :: tail).headD 0) = false := by
  by_cases hw : s.width = 0
  · rw [hw, show widthText 0 = [] from rfl, List.nil_append, List.headD_cons]
    exact (alpha_facts s.conv_alpha).2.1
  · obtain ⟨hd, h0⟩ := headD_widthText hw (s.conv :: tail)
    exact isModifierStart_of_digit hd h0

/-- 変換指定の一 byte 目は `'%'` でない。修飾子か幅があれば、それは ASCII で英字でない。 -/
theorem headD_text (s : ConvSpec) (tail : List UInt8) :
    (s.text ++ tail).headD 0 ≠ 0x25 ∧
      (¬(s.flags = [] ∧ s.width = 0) →
        (isAscii ((s.text ++ tail).headD 0) && !isAlpha ((s.text ++ tail).headD 0)) = true) := by
  have hconv := alpha_facts s.conv_alpha
  rw [ConvSpec.text, ConvSpec.flagsText]
  cases hf : s.flags with
  | cons f fs =>
    -- 一つ目の修飾子の一 byte 目
    rw [List.flatMap_cons, List.append_assoc, List.append_assoc, List.append_assoc]
    cases f <;> simp only [Flag.text, List.cons_append, List.nil_append, List.headD_cons] <;>
      exact ⟨by decide, fun _ => by decide⟩
  | nil =>
    rw [List.flatMap_nil, List.nil_append, List.append_assoc, List.singleton_append]
    by_cases hw : s.width = 0
    · rw [hw, show widthText 0 = [] from rfl, List.nil_append, List.headD_cons]
      exact ⟨hconv.2.2.1, fun h => absurd ⟨rfl, rfl⟩ h⟩
    · obtain ⟨hd, -⟩ := headD_widthText hw (s.conv :: tail)
      exact ⟨(digit_facts hd).2.1, fun _ => (digit_facts hd).1⟩

/-- 書いた変換指定は、そのまま `Directive` として読み戻される。 -/
theorem parseDirective_text (s : ConvSpec) (pre tail : List UInt8) (currarg : Nat) :
    parseDirective (pre ++ s.text ++ tail) pre.length currarg =
      .ok (s.directive currarg (pre.length + s.flagsText.length + (widthText s.width).length),
        currarg + 1) := by
  have hconv := alpha_facts s.conv_alpha
  have hget : (pre ++ s.text ++ tail).getD pre.length 0 = (s.text ++ tail).headD 0 := by
    rw [List.append_assoc, getD_append_length]
  by_cases hplain : s.flags = [] ∧ s.width = 0
  · -- 修飾子も幅もなければ、`'%'` の次が変換の文字
    have hft : s.flagsText = [] := by rw [ConvSpec.flagsText, hplain.1, List.flatMap_nil]
    have hwt : widthText s.width = [] := by rw [hplain.2]; rfl
    have htext : s.text = [s.conv] := by rw [ConvSpec.text, hft, hwt]; rfl
    have hmods : s.mods = Modifiers.default := by rw [ConvSpec.mods, hplain.1]; rfl
    rw [parseDirective_of_alpha _ (by simp) (by rw [hget, htext]; simp [s.conv_alpha])]
    rw [hget, htext, hft, hwt]
    simp only [ConvSpec.directive, hmods, hplain.2, List.singleton_append, List.headD_cons,
      List.length_nil, Nat.add_zero]
  · have hm : modifierLoop (pre ++ s.text ++ tail) pre.length Modifiers.default =
        .ok (s.mods, pre.length + s.flagsText.length) := by
      have e : pre ++ s.text ++ tail =
          pre ++ s.flags.flatMap Flag.text ++ (widthText s.width ++ s.conv :: tail) := by
        simp [ConvSpec.text, ConvSpec.flagsText]
      rw [e]
      exact modifierLoop_flags _ _ _ _ (isModifierStart_after_flags s tail)
    have hw : parseWidth (pre ++ s.text ++ tail) (pre.length + s.flagsText.length) =
        .ok (s.width, pre.length + s.flagsText.length + (widthText s.width).length) := by
      have e : pre ++ s.text ++ tail = (pre ++ s.flagsText) ++ widthText s.width ++ s.conv :: tail := by
        simp [ConvSpec.text]
      rw [e, show pre.length + s.flagsText.length = (pre ++ s.flagsText).length by simp]
      exact parseWidth_widthText _ s.width_lt _ _ _ hconv.1
    have hp : parsePrecision (pre ++ s.text ++ tail)
        (pre.length + s.flagsText.length + (widthText s.width).length) =
          .ok (0, false, false, s.conv,
            pre.length + s.flagsText.length + (widthText s.width).length) := by
      have e : pre ++ s.text ++ tail = (pre ++ s.flagsText ++ widthText s.width) ++ s.conv :: tail := by
        simp [ConvSpec.text]
      rw [e, show pre.length + s.flagsText.length + (widthText s.width).length =
        (pre ++ s.flagsText ++ widthText s.width).length by simp only [List.length_append]]
      exact parsePrecision_conv _ _ _ hconv.2.2.2.2
    rw [parseDirective_of_parts _ (by simp) (by rw [hget]; exact (headD_text s tail).2 hplain)
      (parseArgnum_text s pre tail currarg) hm hw hp]
    rfl

/-! ## 修飾子が決めるもの -/

/-- 詰める文字を決める修飾子：`' '`・`'0'`・`'\''c`。 -/
def Flag.padding? : Flag → Option UInt8
  | .space => some 0x20
  | .zero => some 0x30
  | .custom c => some c
  | .minus => none
  | .plus => none

/-- `'-'` があれば左寄せ。 -/
theorem foldl_apply_alignment (flags : List Flag) (m : Modifiers) :
    (flags.foldl Flag.apply m).alignment = if Flag.minus ∈ flags then .left else m.alignment := by
  induction flags generalizing m with
  | nil => simp
  | cons f fs ih =>
    rw [List.foldl_cons, ih]
    cases f <;> by_cases h : Flag.minus ∈ fs <;> simp [Flag.apply, h]

/-- `'+'` があれば非負の数にも符号を書く。 -/
theorem foldl_apply_alwaysSign (flags : List Flag) (m : Modifiers) :
    (flags.foldl Flag.apply m).alwaysSign = (m.alwaysSign || decide (Flag.plus ∈ flags)) := by
  induction flags generalizing m with
  | nil => simp
  | cons f fs ih =>
    rw [List.foldl_cons, ih]
    cases f <;> simp [Flag.apply]

/-- 詰める文字は、最後の `' '`・`'0'`・`'\''c` が決める。 -/
theorem foldl_apply_padding (flags : List Flag) (m : Modifiers) :
    (flags.foldl Flag.apply m).padding =
      ((flags.filterMap Flag.padding?).getLast?).getD m.padding := by
  induction flags generalizing m with
  | nil => simp
  | cons f fs ih =>
    rw [List.foldl_cons, ih]
    cases f <;> simp only [Flag.apply, Flag.padding?, List.filterMap_cons, List.getLast?_cons,
      Option.getD_some]

namespace ConvSpec

theorem mods_alignment (s : ConvSpec) :
    s.mods.alignment = if Flag.minus ∈ s.flags then .left else .right :=
  foldl_apply_alignment s.flags _

theorem mods_alwaysSign (s : ConvSpec) : s.mods.alwaysSign = decide (Flag.plus ∈ s.flags) := by
  rw [mods, foldl_apply_alwaysSign]
  rfl

theorem mods_padding (s : ConvSpec) :
    s.mods.padding = ((s.flags.filterMap Flag.padding?).getLast?).getD 0x20 :=
  foldl_apply_padding s.flags _

end ConvSpec

/-! ## 書式全体 -/

theorem render_cons (p : Piece) (ps : List Piece) : render (p :: ps) = p.text ++ render ps :=
  List.flatMap_cons

section Render

variable {α F : Type} [Inhabited α] (cv : ArgConv α F) (df : DoubleFormat F) (args : List α)

/-- 字句の列を書き出した書式を、`printfLoop` は字句ごとに読んで書く。引数は `currarg` 番目から順に
取り、足りていれば失敗しない。 -/
theorem printfLoop_render (ps : List Piece) (pre : List UInt8) (currarg : Nat)
    (hargs : currarg + convCount ps ≤ args.length + 1) :
    printfLoop cv df (pre ++ render ps) args pre.length currarg =
      .ok (output cv df args ps currarg) := by
  induction ps generalizing pre currarg with
  | nil => exact printfLoop_end _ cv df args (by simp [render])
  | cons p ps ih =>
    have e : pre ++ render (p :: ps) = pre ++ p.text ++ render ps := by
      rw [render_cons, List.append_assoc]
    rw [e]
    cases p with
    | lit c hc =>
      simp only [Piece.text]
      have hget : (pre ++ [c] ++ render ps).getD pre.length 0 = c := getD_append_cons _ _ _ _
      rw [printfLoop_literal _ cv df args (by simp) (by rw [hget]; exact hc), hget,
        show pre.length + 1 = (pre ++ [c]).length by simp,
        ih _ _ (by simpa [convCount] using hargs)]
      rfl
    | percent =>
      simp only [Piece.text]
      have hget1 : (pre ++ [0x25, 0x25] ++ render ps).getD (pre.length + 1) 0 = 0x25 := by
        simp
      rw [printfLoop_percent _ cv df args (by simp) (getD_append_cons _ _ _ _) hget1,
        show pre.length + 2 = (pre ++ [0x25, 0x25]).length by simp,
        ih _ _ (by simpa [convCount] using hargs)]
      rfl
    | conv s =>
      simp only [Piece.text]
      have hcc : convCount (.conv s :: ps) = convCount ps + 1 := rfl
      rw [hcc] at hargs
      -- `'%'` の次から変換指定を読む
      have e' : pre ++ 0x25 :: s.text ++ render ps = (pre ++ [0x25]) ++ s.text ++ render ps := by
        simp
      rw [e']
      have hd := parseDirective_text s (pre ++ [0x25]) (render ps) currarg
      rw [List.length_append, List.length_singleton] at hd
      have hc : ((pre ++ [0x25]) ++ s.text ++ render ps).getD pre.length 0 = 0x25 := by
        rw [List.append_assoc, List.append_assoc, getD_append_length]
        rfl
      have hget1 : ((pre ++ [0x25]) ++ s.text ++ render ps).getD (pre.length + 1) 0 ≠ 0x25 := by
        rw [List.append_assoc, show pre.length + 1 = (pre ++ [0x25]).length by simp,
          getD_append_length]
        exact (headD_text s _).1
      have harg : (s.directive currarg (pre.length + 1 + s.flagsText.length +
          (widthText s.width).length)).argnum ≤ args.length := by
        simp only [ConvSpec.directive]
        omega
      rw [printfLoop_directive _ cv df args (by simp) hc (by simp) hget1 hd harg s.conv_ne_l]
      have hpos : (s.directive currarg (pre.length + 1 + s.flagsText.length +
          (widthText s.width).length)).inpos + 1 = (pre ++ [0x25] ++ s.text).length := by
        simp only [ConvSpec.directive, ConvSpec.text, List.length_append, List.length_singleton]
        omega
      rw [hpos, ih _ _ (by omega)]
      rfl

/-- `string_printf` は、字句の列を書き出した書式について、リテラルの byte・`'%'`・変換の結果を
字句の順に並べる。引数は変換指定の数だけあればよい。 -/
theorem stringPrintf_render (ps : List Piece) (hargs : convCount ps ≤ args.length) :
    stringPrintf cv df (render ps) args = .ok (output cv df args ps 1) := by
  unfold stringPrintf
  split_ifs with h0
  · -- 空の書式は字句がない
    cases ps with
    | nil => rfl
    | cons p ps =>
      rw [render_cons, List.length_append] at h0
      cases p <;> simp [Piece.text] at h0
  · exact printfLoop_render cv df args ps [] 1 (by omega)

/-- **`string_printf` は書いた書式を字句ごとに読む。** 字句の列として書いた書式を、引数が足りて
いれば失敗せずに読み、リテラルの byte・`'%'`・変換の結果を字句の順に並べる。変換指定の修飾子は、
`'-'` があれば左寄せ、`'+'` があれば非負にも符号、詰める文字は最後の `' '`・`'0'`・`'\''c`。精度の
ない変換が書くものは：`%s` は文字列、`%d` は符号と絶対値の 10 進、`%u` は符号なしの 10 進、`%c` は
一 byte、`%o`・`%x`・`%X`・`%b` は 8・16・16（大文字）・2 進を、幅まで詰めたもの。精度つきの
`%o`・`%x`・`%X`・`%b` は、`append2n` が `appendstring` に精度 0 を渡すので、詰める文字だけを書く。 -/
theorem printf_reads_written_format :
    (∀ ps : List Piece, convCount ps ≤ args.length →
      stringPrintf cv df (render ps) args = .ok (output cv df args ps 1)) ∧
    (∀ s : ConvSpec, s.mods.alignment = (if Flag.minus ∈ s.flags then .left else .right) ∧
      s.mods.alwaysSign = decide (Flag.plus ∈ s.flags) ∧
      s.mods.padding = ((s.flags.filterMap Flag.padding?).getLast?).getD 0x20) ∧
    (∀ (d : Directive) (tmp : α), d.expprec = false →
      convert cv df d 0x73 tmp = padTo (cv.toString tmp) d.width d.mods.padding d.mods.alignment ∧
      convert cv df d 0x64 tmp =
        padSigned (signText (cv.toInt64 tmp) d.mods.alwaysSign)
          (decimalDigits (cv.toInt64 tmp).toInt.natAbs) d.width d.mods.padding d.mods.alignment ∧
      convert cv df d 0x75 tmp =
        padTo (decimalDigits (cv.toInt64 tmp).toUInt64.toNat) d.width
          (if d.mods.alignment = .left ∧ d.mods.padding = 0x30 then 0x20 else d.mods.padding)
          d.mods.alignment ∧
      convert cv df d 0x63 tmp = [cv.toByte tmp] ∧
      convert cv df d 0x6f tmp =
        padTo ((Nat.toDigits 8 (cv.toInt64 tmp).toUInt64.toNat).map Char.toUInt8) d.width
          d.mods.padding d.mods.alignment ∧
      convert cv df d 0x78 tmp =
        padTo ((Nat.toDigits 16 (cv.toInt64 tmp).toUInt64.toNat).map Char.toUInt8) d.width
          d.mods.padding d.mods.alignment ∧
      convert cv df d 0x58 tmp =
        padTo ((Nat.toDigits 16 (cv.toInt64 tmp).toUInt64.toNat).map (fun c => c.toUpper.toUInt8))
          d.width d.mods.padding d.mods.alignment ∧
      convert cv df d 0x62 tmp =
        padTo ((Nat.toDigits 2 (cv.toInt64 tmp).toUInt64.toNat).map Char.toUInt8) d.width
          d.mods.padding d.mods.alignment) ∧
    ∀ (d : Directive) (tmp : α), d.expprec = true → ∀ ch : UInt8,
      (ch = 0x6f ∨ ch = 0x78 ∨ ch = 0x58 ∨ ch = 0x62) →
      convert cv df d ch tmp = List.replicate d.width d.mods.padding := by
  refine ⟨fun ps hargs => stringPrintf_render cv df args ps hargs,
    fun s => ⟨s.mods_alignment, s.mods_alwaysSign, s.mods_padding⟩, fun d tmp h => ?_,
    fun d tmp h _ hch => convert_2n_expprec cv df tmp h hch⟩
  have hs : convert cv df d 0x73 tmp =
      padTo (cv.toString tmp) d.width d.mods.padding d.mods.alignment := by
    rw [convert_s, if_neg (by rw [h]; decide)]
  exact ⟨hs, convert_d cv df d tmp, convert_u cv df d tmp, convert_c cv df d tmp,
    convert_o cv df tmp h, convert_x cv df tmp h, convert_X cv df tmp h, convert_b cv df tmp h⟩

end Render

/-- 引数は `int64_t` そのもの。 -/
def int64Conv : ArgConv Int64 Unit :=
  ⟨fun n => decimalDigits n.toInt.natAbs, id, fun _ => .nan, fun n => n.toUInt64.toUInt8⟩

/-- `double` を使わない書式のための、何も書かない `php_conv_fp`・`php_gcvt`。 -/
def noDoubleFormat : DoubleFormat Unit := ⟨fun _ _ _ _ => (false, []), fun _ _ _ _ => [], 0x2e⟩

/-- `%+05d`：`'+'` と `'0'` の修飾子、幅 5。 -/
def plusZeroD : ConvSpec := ⟨[.plus, .zero], 5, 0x64, by decide, by decide, by decide⟩

/-- `%x`：修飾子も幅もない。 -/
def plainX : ConvSpec := ⟨[], 0, 0x78, by decide, by decide, by decide⟩

/-- 書式 `"%+05d|%x"`。 -/
def plusZeroHex : List Piece := [.conv plusZeroD, .lit 0x7c (by decide), .conv plainX]

example : render plusZeroHex = [0x25, 0x2b, 0x30, 0x35, 0x64, 0x7c, 0x25, 0x78] := by decide

/-- `"%+05d|%x"` に 42 と 255：`"+0042|ff"`。 -/
theorem printf_reads_written_format_plusZeroHex :
    stringPrintf int64Conv noDoubleFormat (render plusZeroHex) [42, 255] =
      .ok [0x2b, 0x30, 0x30, 0x34, 0x32, 0x7c, 0x66, 0x66] := by
  obtain ⟨hrender, -, hconv, -⟩ := printf_reads_written_format int64Conv noDoubleFormat [42, 255]
  have hd := (hconv (plusZeroD.directive 1 0) 42 rfl).2.1
  have hx := (hconv (plainX.directive 2 0) 255 rfl).2.2.2.2.2.1
  rw [hrender plusZeroHex (by decide)]
  show Except.ok (convert int64Conv noDoubleFormat (plusZeroD.directive 1 0) 0x64 42 ++
      0x7c :: (convert int64Conv noDoubleFormat (plainX.directive 2 0) 0x78 255 ++ [])) = _
  rw [hd, hx]
  decide

end Hhvm.Zend
