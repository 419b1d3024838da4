import Hhvm.Zend.Printf

/-!
# `string_printf` の性質

* 読む位置：`string_printf` は書式を終端の NUL（位置 `len`）より先で読まない
  （`stringPrintf_ne_readPastEnd`）。
* 無限大と NaN：`appenddouble` は `"INF"`・`"NaN"` を幅 3 で `appendstring` に渡し、符号は別の
  引数で渡す。`appendstring` が符号を書くのは右寄せで `'0'` で詰めるときだけで、そのときも一文字目を
  飛ばして書く。`-INF` は `"INF"` に、`'0'` で詰めると `"-NF"` になる
  （`appenddouble_inf`、`sprintf_inf_loses_sign`）。
-/

namespace Hhvm.Zend

open Infra.Except

/-! ## 一歩ずつの式 -/

section Steps

variable (format : List UInt8)

theorem fmtAt_of_le {i : Nat} (h : i ≤ format.length) : fmtAt format i = .ok (format.getD i 0) := by
  rw [fmtAt, if_pos h]

theorem fmtAt_of_lt {i : Nat} (h : format.length < i) : fmtAt format i = .error .readPastEnd := by
  rw [fmtAt, if_neg (by omega)]

theorem digitRun_of_digit {pos acc : Nat} (h : pos ≤ format.length)
    (hc : isDigit (format.getD pos 0) = true) :
    digitRun format pos acc =
      digitRun format (pos + 1) (acc * 10 + ((format.getD pos 0).toNat - 0x30)) := by
  rw [digitRun, dif_pos h]
  simp only [hc, if_true]

theorem digitRun_of_not_digit {pos acc : Nat} (h : pos ≤ format.length)
    (hc : isDigit (format.getD pos 0) = false) : digitRun format pos acc = .ok (acc, pos) := by
  rw [digitRun, dif_pos h]
  simp only [hc, Bool.false_eq_true, if_false]

theorem modifierLoop_pad {inpos : Nat} {m : Modifiers} (h : inpos ≤ format.length)
    (hc : format.getD inpos 0 = 0x20 ∨ format.getD inpos 0 = 0x30) :
    modifierLoop format inpos m =
      modifierLoop format (inpos + 1) { m with padding := format.getD inpos 0 } := by
  rw [modifierLoop, dif_pos h]
  simp only [if_pos hc]

theorem modifierLoop_minus {inpos : Nat} {m : Modifiers} (h : inpos ≤ format.length)
    (hc : format.getD inpos 0 = 0x2d) :
    modifierLoop format inpos m = modifierLoop format (inpos + 1) { m with alignment := .left } := by
  rw [modifierLoop, dif_pos h]
  simp only [hc]
  rfl

theorem modifierLoop_plus {inpos : Nat} {m : Modifiers} (h : inpos ≤ format.length)
    (hc : format.getD inpos 0 = 0x2b) :
    modifierLoop format inpos m = modifierLoop format (inpos + 1) { m with alwaysSign := true } := by
  rw [modifierLoop, dif_pos h]
  simp only [hc]
  rfl

theorem modifierLoop_quote {inpos : Nat} {m : Modifiers} (h : inpos + 1 < format.length)
    (hc : format.getD inpos 0 = 0x27) :
    modifierLoop format inpos m =
      modifierLoop format (inpos + 2) { m with padding := format.getD (inpos + 1) 0 } := by
  rw [modifierLoop, dif_pos (by omega)]
  have hq : True ∧ inpos ≠ format.length - 1 := ⟨trivial, by omega⟩
  simp only [hc]
  rw [if_neg (by decide), if_neg (by decide), if_neg (by decide), if_pos hq,
    fmtAt_of_le format (by omega)]

/-- 修飾子でない文字で止まる。 -/
theorem modifierLoop_stop {inpos : Nat} {m : Modifiers} (h : inpos ≤ format.length)
    (hc : format.getD inpos 0 ≠ 0x20 ∧ format.getD inpos 0 ≠ 0x30 ∧ format.getD inpos 0 ≠ 0x2d ∧
      format.getD inpos 0 ≠ 0x2b)
    (hq : ¬(format.getD inpos 0 = 0x27 ∧ inpos ≠ format.length - 1)) :
    modifierLoop format inpos m = .ok (m, inpos) := by
  obtain ⟨h1, h2, h3, h4⟩ := hc
  rw [modifierLoop, dif_pos h]
  simp only [if_neg (not_or.mpr ⟨h1, h2⟩), if_neg h3, if_neg h4, if_neg hq]

/-- 英字でない文字で始まる変換指定は、argnum・修飾子・幅・精度をこの順に読む。 -/
theorem parseDirective_of_parts {inpos currarg a p1 c1 p2 w p3 pr p4 : Nat} {m : Modifiers}
    {adj ep : Bool} {ch : UInt8} (h : inpos ≤ format.length)
    (hc : (isAscii (format.getD inpos 0) && !isAlpha (format.getD inpos 0)) = true)
    (ha : parseArgnum format inpos currarg = .ok (a, p1, c1))
    (hm : modifierLoop format p1 Modifiers.default = .ok (m, p2))
    (hw : parseWidth format p2 = .ok (w, p3))
    (hp : parsePrecision format p3 = .ok (pr, adj, ep, ch, p4)) :
    parseDirective format inpos currarg = .ok (⟨a, m, w, pr, adj, ep, ch, p4⟩, c1) := by
  unfold parseDirective
  refine bind_eq_ok.mpr ⟨_, fmtAt_of_le format h, ?_⟩
  rw [if_pos hc]
  refine bind_eq_ok.mpr ⟨_, ha, ?_⟩
  refine bind_eq_ok.mpr ⟨_, hm, ?_⟩
  refine bind_eq_ok.mpr ⟨_, hw, ?_⟩
  refine bind_eq_ok.mpr ⟨_, hp, ?_⟩
  rfl

/-- `'%'` の直後が英字（か ASCII でない byte）なら、それが変換の文字で、引数は順に取る。 -/
theorem parseDirective_of_alpha {inpos currarg : Nat} (h : inpos ≤ format.length)
    (hc : (isAscii (format.getD inpos 0) && !isAlpha (format.getD inpos 0)) = false) :
    parseDirective format inpos currarg =
      .ok (⟨currarg, Modifiers.default, 0, 0, false, false, format.getD inpos 0, inpos⟩,
        currarg + 1) := by
  unfold parseDirective
  refine bind_eq_ok.mpr ⟨_, fmtAt_of_le format h, ?_⟩
  rw [if_neg (ne_true_of_eq_false hc)]
  rfl

section Loop

variable {α F : Type} [Inhabited α] (cv : ArgConv α F) (df : DoubleFormat F) (args : List α)

theorem printfLoop_end {inpos currarg : Nat} (h : format.length ≤ inpos) :
    printfLoop cv df format args inpos currarg = .ok [] := by
  rw [printfLoop, dif_neg (by omega)]

/-- `'%'` でない byte はそのまま書く。 -/
theorem printfLoop_literal {inpos currarg : Nat} (h : inpos < format.length)
    (hc : format.getD inpos 0 ≠ 0x25) :
    printfLoop cv df format args inpos currarg =
      (format.getD inpos 0 :: ·) <$> printfLoop cv df format args (inpos + 1) currarg := by
  rw [printfLoop, dif_pos h]
  simp only [if_pos hc]

/-- `"%%"` は `'%'` を書く。 -/
theorem printfLoop_percent {inpos currarg : Nat} (h : inpos + 1 < format.length)
    (hc : format.getD inpos 0 = 0x25) (h1 : format.getD (inpos + 1) 0 = 0x25) :
    printfLoop cv df format args inpos currarg =
      (0x25 :: ·) <$> printfLoop cv df format args (inpos + 2) currarg := by
  rw [printfLoop, dif_pos (by omega)]
  simp only [hc, ne_eq, not_true_eq_false, if_false, fmtAt_of_le format (show inpos + 1 ≤ format.length by omega), h1, if_true]

/-- 変換指定を一つ読んで書く（`'l'` のない場合）。 -/
theorem printfLoop_directive {inpos currarg currarg' : Nat} {d : Directive}
    (h : inpos < format.length) (hc : format.getD inpos 0 = 0x25)
    (h1 : inpos + 1 ≤ format.length) (h1' : format.getD (inpos + 1) 0 ≠ 0x25)
    (hd : parseDirective format (inpos + 1) currarg = .ok (d, currarg'))
    (harg : d.argnum ≤ args.length) (hl : d.ch ≠ 0x6c) :
    printfLoop cv df format args inpos currarg =
      (convert cv df d d.ch (args.getD (d.argnum - 1) default) ++ ·) <$>
        printfLoop cv df format args (d.inpos + 1) currarg' := by
  rw [printfLoop, dif_pos h]
  simp only [hc, ne_eq, not_true_eq_false, if_false, fmtAt_of_le format h1, h1', if_false]
  split
  · rename_i e he
    rw [hd] at he
    exact absurd he (by simp)
  · rename_i d' c' he
    -- `hd` と同じ結果なので `d' = d`
    obtain ⟨rfl, rfl⟩ := Prod.mk.inj (Except.ok.inj (he.symm.trans hd))
    simp only [gt_iff_lt, if_neg (Nat.not_lt.mpr harg), if_neg hl]

/-- 書式が一つの変換指定だけからなるとき。 -/
theorem stringPrintf_directive {d : Directive} {currarg' : Nat} (hlen : d.inpos + 1 = format.length)
    (hc : format.getD 0 0 = 0x25) (h1 : 1 ≤ format.length) (h1' : format.getD 1 0 ≠ 0x25)
    (hd : parseDirective format 1 1 = .ok (d, currarg')) (harg : d.argnum ≤ args.length)
    (hl : d.ch ≠ 0x6c) :
    stringPrintf cv df format args = .ok (convert cv df d d.ch (args.getD (d.argnum - 1) default)) := by
  rw [stringPrintf, if_neg (by omega),
    printfLoop_directive format cv df args (by omega) hc h1 h1' hd harg hl,
    printfLoop_end format cv df args (by omega)]
  exact congrArg Except.ok (List.append_nil _)

end Loop

/-- 浮動小数点の変換（`'e'`・`'E'`・`'f'`・`'F'`・`'g'`・`'G'`）は `appenddouble` に渡す。 -/
theorem convert_double {α F : Type} [Inhabited α] (cv : ArgConv α F) (df : DoubleFormat F)
    (d : Directive) (tmp : α) {ch : UInt8}
    (hch : ch = 0x67 ∨ ch = 0x47 ∨ ch = 0x65 ∨ ch = 0x45 ∨ ch = 0x66 ∨ ch = 0x46) :
    convert cv df d ch tmp =
      appenddouble df (cv.toDouble tmp) d.width d.mods.padding d.mods.alignment d.precision
        d.adjPrecision ch d.mods.alwaysSign := by
  have hs : ch ≠ 0x73 := by rcases hch with h | h | h | h | h | h <;> (subst h; decide)
  have hd : ch ≠ 0x64 := by rcases hch with h | h | h | h | h | h <;> (subst h; decide)
  have hu : ch ≠ 0x75 := by rcases hch with h | h | h | h | h | h <;> (subst h; decide)
  rw [convert, if_neg hs, if_neg hd, if_neg hu, if_pos hch]

end Steps

/-! ## 読む位置は `len` を越えない -/

section Bounds

variable {format : List UInt8}

/-- 終端より先の byte は 0 と読まれるので、0 でない byte は `len` より前にある。 -/
theorem lt_length_of_getD_ne_zero {p : Nat} (h : format.getD p 0 ≠ 0) : p < format.length := by
  by_contra hp
  exact h (List.getD_eq_default _ _ (by omega))

theorem isDigit_ne_zero {c : UInt8} (h : isDigit c = true) : c ≠ 0 := by
  rintro rfl
  exact absurd h (by decide)

/-- 結果の位置が `len` を越えず、終端より先を読んで失敗しない。 -/
def InBounds {β : Type} (format : List UInt8) (pos : β → Nat) : Except PrintfError β → Prop :=
  Post (fun r => pos r ≤ format.length) (· ≠ .readPastEnd)

theorem fmtAt_post {i : Nat} (h : i ≤ format.length) :
    Post (· = format.getD i 0) (· ≠ .readPastEnd) (fmtAt format i) := by
  rw [fmtAt_of_le format h]
  exact rfl

theorem digitRun_inBounds {pos acc : Nat} :
    pos ≤ format.length → InBounds format Prod.snd (digitRun format pos acc) := by
  fun_induction digitRun format pos acc with
  | case1 pos acc _ c hc ih =>
    -- 数字は 0 でないので、次の位置も `len` 以下
    intro _
    exact ih (lt_length_of_getD_ne_zero (isDigit_ne_zero hc))
  | case2 pos acc hle => exact fun _ => hle
  | case3 pos acc hle => exact fun h => absurd h hle

theorem getnumber_inBounds {pos : Nat} (h : pos ≤ format.length) :
    InBounds format Prod.snd (getnumber format pos) :=
  Post.map (digitRun_inBounds h) fun _ hr => hr

theorem modifierLoop_inBounds {inpos : Nat} {m : Modifiers} :
    inpos ≤ format.length → InBounds format Prod.snd (modifierLoop format inpos m) := by
  -- 修飾子の文字はどれも 0 でないので、読み進めた先も `len` 以下
  fun_induction modifierLoop format inpos m with
  | case1 inpos m _ ch hc ih =>
    have hc0 : ch ≠ 0 := by rcases hc with hc | hc <;> (rw [hc]; decide)
    exact fun _ => ih (lt_length_of_getD_ne_zero hc0)
  | case2 inpos m _ ch _ hc ih =>
    have hc0 : ch ≠ 0 := by rw [hc]; decide
    exact fun _ => ih (lt_length_of_getD_ne_zero hc0)
  | case3 inpos m _ ch _ _ hc ih =>
    have hc0 : ch ≠ 0 := by rw [hc]; decide
    exact fun _ => ih (lt_length_of_getD_ne_zero hc0)
  | case4 inpos m _ ch _ _ _ hc _ _ ih =>
    have hc0 : ch ≠ 0 := by rw [hc.1]; decide
    have hlt := lt_length_of_getD_ne_zero hc0
    exact fun _ => ih (by omega)
  | case5 inpos m hle ch _ _ _ hc e he =>
    -- `inpos + 1 ≤ len` なので `fmtAt` は失敗しない
    have hlt := lt_length_of_getD_ne_zero (show ch ≠ 0 by rw [hc.1]; decide)
    rw [fmtAt_of_le format (by omega)] at he
    cases he
  | case6 inpos m hle => exact fun _ => hle
  | case7 inpos m hle => exact fun h => absurd h hle

theorem parseWidth_inBounds {inpos : Nat} (h : inpos ≤ format.length) :
    InBounds format Prod.snd (parseWidth format inpos) := by
  unfold parseWidth
  refine Post.bind (fmtAt_post h) fun ch _ => ?_
  split_ifs
  · refine Post.bind (getnumber_inBounds h) fun ⟨w, p⟩ hp => ?_
    dsimp only
    split_ifs
    · exact Post.throw (by decide)
    · exact Post.pure hp
  · exact Post.pure h

/-- 精度を読んだ後の位置は `len` 以下で、返す文字はその位置の byte。 -/
theorem parsePrecision_post {inpos : Nat} (h : inpos ≤ format.length) :
    Post (fun r => r.2.2.2.2 ≤ format.length ∧ r.2.2.2.1 = format.getD r.2.2.2.2 0)
      (· ≠ .readPastEnd) (parsePrecision format inpos) := by
  unfold parsePrecision
  refine Post.bind (fmtAt_post h) fun ch hch => ?_
  split_ifs with hdot
  · -- `'.'` は 0 でないので、次の位置も読める
    have hlt : inpos < format.length :=
      lt_length_of_getD_ne_zero (show format.getD inpos 0 ≠ 0 by rw [← hch, hdot]; decide)
    refine Post.bind (fmtAt_post (show inpos + 1 ≤ format.length by omega)) fun ch' hch' => ?_
    split_ifs
    · refine Post.bind (getnumber_inBounds (show inpos + 1 ≤ format.length by omega))
        fun ⟨pr, p⟩ hp => ?_
      dsimp only
      split_ifs
      · exact Post.throw (by decide)
      · exact Post.bind (fmtAt_post hp) fun c hc => Post.pure ⟨hp, hc⟩
    · exact Post.pure ⟨show inpos + 1 ≤ format.length by omega, hch'⟩
  · exact Post.pure ⟨h, hch⟩

theorem parseArgnum_inBounds {inpos currarg : Nat} (h : inpos ≤ format.length) :
    InBounds format (fun r => r.2.1) (parseArgnum format inpos currarg) := by
  unfold parseArgnum skipDigits getnumber
  have hd : InBounds format Prod.snd (digitRun format inpos 0) := digitRun_inBounds h
  -- `skipDigits` と `getnumber` は同じ数字の列を読む
  cases hr : digitRun format inpos 0 with
  | error e =>
    rw [hr] at hd
    exact hd
  | ok r =>
    obtain ⟨n, p⟩ := r
    rw [hr] at hd
    refine Post.bind (P := (· = p)) rfl fun t ht => ?_
    subst ht
    refine Post.bind (fmtAt_post hd) fun c hc => ?_
    split_ifs with hdollar
    · -- `'$'` は 0 でないので、その次の位置も `len` 以下
      have hlt : t < format.length :=
        lt_length_of_getD_ne_zero (show format.getD t 0 ≠ 0 by rw [← hc, hdollar]; decide)
      refine Post.bind (P := fun r : Int × Nat => r.2 = t) rfl fun ⟨a, q⟩ hq => ?_
      dsimp only at hq ⊢
      subst hq
      split_ifs
      · exact Post.throw (by decide)
      · exact Post.pure (show q + 1 ≤ format.length by omega)
    · exact Post.pure h

/-- 変換指定を読んだ後の位置は `len` 以下で、変換の文字はその位置の byte。 -/
theorem parseDirective_post {inpos currarg : Nat} (h : inpos ≤ format.length) :
    Post (fun r => r.1.inpos ≤ format.length ∧ r.1.ch = format.getD r.1.inpos 0)
      (· ≠ .readPastEnd) (parseDirective format inpos currarg) := by
  unfold parseDirective
  refine Post.bind (fmtAt_post h) fun ch hch => ?_
  split_ifs
  · refine Post.bind (parseArgnum_inBounds h) fun ⟨a, p1, c1⟩ hp1 => ?_
    refine Post.bind (modifierLoop_inBounds hp1) fun ⟨m, p2⟩ hp2 => ?_
    refine Post.bind (parseWidth_inBounds hp2) fun ⟨w, p3⟩ hp3 => ?_
    refine Post.bind (parsePrecision_post hp3) fun ⟨pr, adj, ep, c, p4⟩ hp4 => ?_
    exact Post.pure hp4
  · exact Post.pure ⟨h, hch⟩

section Loop

variable {α F : Type} [Inhabited α] (cv : ArgConv α F) (df : DoubleFormat F) (args : List α)

theorem printfLoop_post {inpos currarg : Nat} :
    Post (fun _ => True) (· ≠ .readPastEnd) (printfLoop cv df format args inpos currarg) := by
  fun_induction printfLoop cv df format args inpos currarg with
  | case1 inpos currarg _ _ _ ih => exact Post.map ih fun _ _ => trivial
  | case2 inpos currarg hlt _ _ e he =>
    rw [fmtAt_of_le format (by omega)] at he
    cases he
  | case3 inpos currarg _ _ _ _ ih => exact Post.map ih fun _ _ => trivial
  | case4 inpos currarg hlt _ _ _ _ _ e hd =>
    have hpost : Post _ _ (parseDirective format (inpos + 1) currarg) :=
      parseDirective_post (show inpos + 1 ≤ format.length by omega)
    rw [hd] at hpost
    exact hpost
  | case5 => exact Post.throw (by decide)
  | case6 inpos currarg hlt _ _ _ _ _ d c' hd _ ip e he =>
    have hpost : Post _ _ (parseDirective format (inpos + 1) currarg) :=
      parseDirective_post (show inpos + 1 ≤ format.length by omega)
    rw [hd] at hpost
    obtain ⟨hle, hch⟩ := hpost
    split at he
    · -- `'l'` は 0 でないので、`d.inpos < len` で次も読める
      rename_i hl
      have hlt' : d.inpos < format.length :=
        lt_length_of_getD_ne_zero (show format.getD d.inpos 0 ≠ 0 by rw [← hch, hl]; decide)
      rw [show ip = d.inpos + 1 from dif_pos hl, fmtAt_of_le format (by omega)] at he
      cases he
    · cases he
  | case7 inpos currarg _ _ _ _ _ _ _ _ _ _ _ _ _ ih => exact Post.map ih fun _ _ => trivial
  | case8 => trivial

/-- `string_printf` は書式を終端の NUL（位置 `len`）より先で読まない。 -/
theorem stringPrintf_ne_readPastEnd :
    stringPrintf cv df format args ≠ .error .readPastEnd := by
  unfold stringPrintf
  split_ifs
  · exact fun h => nomatch h
  · exact (printfLoop_post cv df args).ne_error (by simp)

end Loop

end Bounds

/-! ## 無限大と NaN -/

section NonFinite

variable {F : Type} (df : DoubleFormat F) (width : Nat) (padding : UInt8) (alignment : Alignment)
  (precision : Nat) (adjPrecision : Bool) (fmt : UInt8) (alwaysSign : Bool)

/-- 長さ 3 の文字列を幅 3 で渡すと、詰め物はなく、符号は `'0'` で右に詰めるときだけ一文字目に
上書きされる。 -/
theorem appendstring_three (add : List UInt8) (hadd : add.length = 3) (neg : Bool) :
    appendstring add 3 0 padding alignment 3 neg false alwaysSign =
      if alignment = .right ∧ (neg || alwaysSign) = true ∧ padding = 0x30 then
        (if neg then 0x2d else 0x2b) :: add.drop 1
      else add := by
  have htake : add.take 3 = add := List.take_of_length_le (by omega)
  cases alignment with
  | right =>
    simp only [appendstring, Bool.false_eq_true, if_false, Nat.sub_self, List.replicate_zero,
      List.nil_append, htake, true_and, Bool.and_eq_true, decide_eq_true_eq]
    split_ifs <;> simp [hadd]
  | left => simp [appendstring, htake]

/-- `±INF`：幅を無視して三文字を書き、負の符号は `'0'` で右に詰めるときしか書かない。 -/
theorem appenddouble_inf (neg : Bool) :
    appenddouble df (.inf neg) width padding alignment precision adjPrecision fmt alwaysSign =
      if alignment = .right ∧ (neg || alwaysSign) = true ∧ padding = 0x30 then
        [if neg then 0x2d else 0x2b, 0x4e, 0x46]
      else [0x49, 0x4e, 0x46] := by
  simp only [appenddouble]
  exact appendstring_three padding alignment alwaysSign _ rfl neg

/-- `NaN`：`'+'` と `'0'` と右寄せがそろうと `"+aN"` になる。 -/
theorem appenddouble_nan :
    appenddouble df .nan width padding alignment precision adjPrecision fmt alwaysSign =
      if alignment = .right ∧ alwaysSign = true ∧ padding = 0x30 then [0x2b, 0x61, 0x4e]
      else [0x4e, 0x61, 0x4e] := by
  simp only [appenddouble]
  rw [appendstring_three padding alignment alwaysSign _ rfl false]
  simp only [Bool.false_or, Bool.false_eq_true, if_false]
  rfl

end NonFinite

/-- 無限大の符号が消える：`sprintf("%f", -INF)` は `"INF"`、`sprintf("%+f", INF)` も `"INF"`、
`sprintf("%0f", -INF)` は `"-NF"`。引数は値そのもの（`toDouble` が恒等）とする。 -/
theorem sprintf_inf_loses_sign {F : Type} (df : DoubleFormat F) (ts : Double F → List UInt8)
    (ti : Double F → Int64) (tb : Double F → UInt8) :
    stringPrintf ⟨ts, ti, id, tb⟩ df [0x25, 0x66] [.inf true] = .ok [0x49, 0x4e, 0x46] ∧
      stringPrintf ⟨ts, ti, id, tb⟩ df [0x25, 0x2b, 0x66] [.inf false] = .ok [0x49, 0x4e, 0x46] ∧
      stringPrintf ⟨ts, ti, id, tb⟩ df [0x25, 0x30, 0x66] [.inf true] = .ok [0x2d, 0x4e, 0x46] := by
  have hf : (0x66 : UInt8) = 0x67 ∨ (0x66 : UInt8) = 0x47 ∨ (0x66 : UInt8) = 0x65 ∨
      (0x66 : UInt8) = 0x45 ∨ (0x66 : UInt8) = 0x66 ∨ (0x66 : UInt8) = 0x46 := by decide
  refine ⟨?_, ?_, ?_⟩
  · -- `"%f"`：`'f'` は英字なので修飾子を読まない
    have hd : parseDirective [0x25, 0x66] 1 1 =
        .ok (⟨1, Modifiers.default, 0, 0, false, false, 0x66, 1⟩, 2) :=
      parseDirective_of_alpha _ (by decide) (by decide)
    rw [stringPrintf_directive _ _ _ _ rfl (by decide) (by decide) (by decide) hd (Nat.le_refl _)
      (by decide), convert_double _ _ _ _ hf]
    show Except.ok (appenddouble df (.inf true) 0 0x20 .right 0 false 0x66 false) = _
    rw [appenddouble_inf]
    rfl
  · -- `"%+f"`：`'+'` は `alwaysSign` を立てるが、詰め物は空白のまま
    have hm : modifierLoop [0x25, 0x2b, 0x66] 1 Modifiers.default =
        .ok (⟨.right, 0x20, true⟩, 2) := by
      rw [modifierLoop_plus _ (by decide) (by decide),
        modifierLoop_stop _ (by decide) (by decide) (by decide)]
      rfl
    have ha : parseArgnum [0x25, 0x2b, 0x66] 1 1 = .ok (1, 1, 2) := by
      unfold parseArgnum skipDigits
      rw [digitRun_of_not_digit _ (by decide) (by decide)]
      rfl
    have hw : parseWidth [0x25, 0x2b, 0x66] 2 = .ok (0, 2) := rfl
    have hp : parsePrecision [0x25, 0x2b, 0x66] 2 = .ok (0, false, false, 0x66, 2) := rfl
    have hd := parseDirective_of_parts [0x25, 0x2b, 0x66] (by decide) (by decide) ha hm hw hp
    rw [stringPrintf_directive _ _ _ _ rfl (by decide) (by decide) (by decide) hd (Nat.le_refl _)
      (by decide), convert_double _ _ _ _ hf]
    show Except.ok (appenddouble df (.inf false) 0 0x20 .right 0 false 0x66 true) = _
    rw [appenddouble_inf]
    rfl
  · -- `"%0f"`：`'0'` で右に詰めると、`"INF"` の一文字目が `'-'` に置き換わる
    have hm : modifierLoop [0x25, 0x30, 0x66] 1 Modifiers.default =
        .ok (⟨.right, 0x30, false⟩, 2) := by
      rw [modifierLoop_pad _ (by decide) (by decide),
        modifierLoop_stop _ (by decide) (by decide) (by decide)]
      rfl
    have ha : parseArgnum [0x25, 0x30, 0x66] 1 1 = .ok (1, 1, 2) := by
      unfold parseArgnum skipDigits
      rw [digitRun_of_digit _ (by decide) (by decide), digitRun_of_not_digit _ (by decide) (by decide)]
      rfl
    have hw : parseWidth [0x25, 0x30, 0x66] 2 = .ok (0, 2) := rfl
    have hp : parsePrecision [0x25, 0x30, 0x66] 2 = .ok (0, false, false, 0x66, 2) := rfl
    have hd := parseDirective_of_parts [0x25, 0x30, 0x66] (by decide) (by decide) ha hm hw hp
    rw [stringPrintf_directive _ _ _ _ rfl (by decide) (by decide) (by decide) hd (Nat.le_refl _)
      (by decide), convert_double _ _ _ _ hf]
    show Except.ok (appenddouble df (.inf true) 0 0x30 .right 0 false 0x66 false) = _
    rw [appenddouble_inf]
    rfl

end Hhvm.Zend
