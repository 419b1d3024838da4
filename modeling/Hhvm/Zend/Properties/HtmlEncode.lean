import Mathlib.Data.Nat.Digits.Defs
import Hhvm.Infra.Bytes
import Hhvm.Zend.Html

/-!
# HTML の文字参照への置き換えの性質

`string_html_encode_extra` のループが一文字ずつ何を書くかを、入力の種類ごとに示す。

* `encodeLoop_length_le`：出力は入力の 8 倍を越えない。`malloc(len * 8 + 1)` で足りる。
* `encodeLoop_of_ascii`：NUL でない ASCII の byte は、表に bit があれば名前か `&#NNN;`、
  なければそのまま。
* `encodeLoop_utf8EncodeChar`：UTF-8 の指定のとき、正しい UTF-8 の入力は code point ごとに
  書かれる。ASCII でない code point は、`NBSP` の指定があって値が `0xC2A0` なら `&nbsp;`、
  `HIGH` の指定があれば `&#x..;`、それ以外はもとの byte のまま（`charOut_of_nonascii`）。
* `encodeLoop_iso`：ISO-8859-1 のとき、byte ごとに書かれる。
* `test_foldl_addExtra`：`HtmlEncodeExtra` が表に足すのは、`extra` の各文字列の先頭の byte の
  下 7 bit の文字。

`&nbsp;` の判定が比べるのは code point で、`0xC2A0` は U+00A0 の UTF-8 の並びの値である。
U+00A0 はそのまま書かれ、U+C2A0 が `&nbsp;` になる（`HtmlEncodeExtra_nbsp_compares_bytes`）。
NUL も正しい code point だが、UTF-8 の指定のときは `U8_NEXT` の値 0 が `curCodePoint <= 0` の枝に
入り、捨てられるか U+FFFD になる。
-/

namespace Hhvm.Zend

open Infra.Utf8 Infra.Bytes

variable (u : U8Macros)

/-! ## 一文字ぶんの出力 -/

/-- NUL でない ASCII の byte の出力。 -/
def asciiOut (am : AsciiMap) (b : UInt8) : List UInt8 :=
  if am.test b.toNat then escapeAscii b.toNat else [b]

/-- ISO-8859-1 のときの、ASCII でない byte（と NUL）の出力。 -/
def isoOut (flags : StringHtmlEncoding) (b : UInt8) : List UInt8 :=
  if b.toNat = 0xa0 then nbspRef
  else if flags.high then decimalRef (if b.toNat ≥ 200 then '2' else '1') b.toNat
  else [b]

/-- UTF-8 の指定のときの、code point 一つの出力。 -/
def charOut (flags : StringHtmlEncoding) (am : AsciiMap) (c : Char) : List UInt8 :=
  if c.toNat ≠ 0 ∧ c.toNat < 128 then asciiOut am (UInt8.ofNat c.toNat)
  else utf8Out u flags (some c.toNat)

section Loop

variable (flags : StringHtmlEncoding) (am : AsciiMap)

theorem encodeLoop_nil : encodeLoop u flags am [] = [] := by
  rw [encodeLoop]

theorem encodeLoop_cons (b : UInt8) (rest : List UInt8) :
    encodeLoop u flags am (b :: rest) =
      (encodeOne u flags am (b :: rest)).1 ++
        encodeLoop u flags am ((b :: rest).drop (encodeOne u flags am (b :: rest)).2) := by
  rw [encodeLoop]

/-- 先頭の一回りが `n` byte を読んで `out` を書くなら、残りはその後ろから。 -/
theorem encodeLoop_append {pre rest out : List UInt8} (hne : pre ≠ [])
    (h : encodeOne u flags am (pre ++ rest) = (out, pre.length)) :
    encodeLoop u flags am (pre ++ rest) = out ++ encodeLoop u flags am rest := by
  obtain ⟨b, pre', rfl⟩ := List.exists_cons_of_ne_nil hne
  rw [List.cons_append, encodeLoop_cons, ← List.cons_append, h, List.drop_left]

/-! ## 一回りの式 -/

theorem encodeOne_ascii {b : UInt8} (hb : b.toNat ≠ 0 ∧ b.toNat < 128) (rest : List UInt8) :
    encodeOne u flags am (b :: rest) = (asciiOut am b, 1) := by
  simp only [encodeOne, if_pos hb, asciiOut]

theorem encodeOne_utf8 (hf : flags.utf8 = true) {b : UInt8} (hb : ¬(b.toNat ≠ 0 ∧ b.toNat < 128))
    (rest : List UInt8) :
    encodeOne u flags am (b :: rest) = (utf8Out u flags (u.next (b :: rest)).1, (u.next (b :: rest)).2) := by
  simp only [encodeOne, if_neg hb, hf, if_true]

theorem encodeOne_iso (hf : flags.utf8 = false) {b : UInt8} (hb : ¬(b.toNat ≠ 0 ∧ b.toNat < 128))
    (rest : List UInt8) :
    encodeOne u flags am (b :: rest) = (isoOut flags b, 1) := by
  simp only [encodeOne, if_neg hb, hf, Bool.false_eq_true, if_false, isoOut]

/-- 一回りは残りの入力を越えて読まない。 -/
theorem encodeOne_snd_le (bs : List UInt8) : (encodeOne u flags am bs).2 ≤ bs.length := by
  match bs with
  | [] => simp [encodeOne]
  | b :: rest =>
    by_cases hb : b.toNat ≠ 0 ∧ b.toNat < 128
    · rw [encodeOne_ascii u flags am hb]
      simp
    · cases hf : flags.utf8
      · rw [encodeOne_iso u flags am hf hb]
        simp
      · rw [encodeOne_utf8 u flags am hf hb]
        exact (u.next_snd_pos_le _ (List.cons_ne_nil b rest)).2

end Loop

/-! ## 出力の長さ -/

theorem length_bytesOf (s : List Char) : (bytesOf s).length = s.length := List.length_map _

theorem escapeAscii_length_le (c : Nat) : (escapeAscii c).length ≤ 6 := by
  unfold escapeAscii decimalRef
  split_ifs <;> simp [length_bytesOf]

theorem hexRef_length_le {v k : Nat} (hk : 0 < k) (hv : v < 16 ^ k) : (hexRef v).length ≤ 4 + k := by
  have := Nat.toDigits_length 16 v k hk hv
  simp only [hexRef, length_bytesOf, List.length_append, List.length_cons, List.length_nil]
  omega

/-- `U8_NEXT` の一回りは、読んだ byte 数の 8 倍を越えて書かない。 -/
theorem utf8Out_length_le {u : U8Macros} (hu : u.Documented) (flags : StringHtmlEncoding)
    {bs : List UInt8} (hne : bs ≠ []) :
    (utf8Out u flags (u.next bs).1).length ≤ 8 * (u.next bs).2 := by
  have hpos := (u.next_snd_pos_le _ hne).1
  unfold utf8Out
  split_ifs with hn hz hr hh hh'
  · simp [nbspRef, length_bytesOf]
    omega
  · simp [hexFffdRef, length_bytesOf]
    omega
  · simp [rep]
    omega
  · simp
  · -- 読めた値：1 byte なら ASCII で 16 進 2 桁、そうでなければ 21 bit で 16 進 6 桁
    obtain ⟨v, hv⟩ : ∃ v, (u.next bs).1 = some v := by
      cases h : (u.next bs).1 with
      | none => simp [h, codePointLeZero] at hz
      | some v => exact ⟨v, rfl⟩
    obtain ⟨hlt, hone⟩ := hu.next_fst_lt hv
    rw [hv, Option.getD_some]
    by_cases h1 : (u.next bs).2 = 1
    · have := hexRef_length_le (by decide : 0 < 2) (show v < 16 ^ 2 by have := hone h1; omega)
      omega
    · have := hexRef_length_le (by decide : 0 < 6) (show v < 16 ^ 6 by omega)
      omega
  · have := hu.appendUnsafe_length_le ((u.next bs).1.getD 0)
    omega

theorem isoOut_length_le (flags : StringHtmlEncoding) (b : UInt8) : (isoOut flags b).length ≤ 6 := by
  unfold isoOut decimalRef
  split_ifs <;> simp [nbspRef, length_bytesOf]

theorem asciiOut_length_le (am : AsciiMap) (b : UInt8) : (asciiOut am b).length ≤ 6 := by
  unfold asciiOut
  split_ifs
  · exact escapeAscii_length_le _
  · simp

/-- 一回りは、読んだ byte 数の 8 倍を越えて書かない。 -/
theorem encodeOne_length_le {u : U8Macros} (hu : u.Documented) (flags : StringHtmlEncoding)
    (am : AsciiMap) (bs : List UInt8) :
    (encodeOne u flags am bs).1.length ≤ 8 * (encodeOne u flags am bs).2 := by
  match bs with
  | [] => simp [encodeOne]
  | b :: rest =>
    by_cases hb : b.toNat ≠ 0 ∧ b.toNat < 128
    · rw [encodeOne_ascii u flags am hb]
      exact (asciiOut_length_le am b).trans (by simp)
    · cases hf : flags.utf8
      · rw [encodeOne_iso u flags am hf hb]
        exact (isoOut_length_le flags b).trans (by simp)
      · rw [encodeOne_utf8 u flags am hf hb]
        exact utf8Out_length_le hu flags (List.cons_ne_nil b rest)

/-- **出力は入力の 8 倍を越えない。** `malloc(len * 8 + 1)` の置き場所の外には書かない。 -/
theorem encodeLoop_length_le {u : U8Macros} (hu : u.Documented) (flags : StringHtmlEncoding)
    (am : AsciiMap) (input : List UInt8) :
    (encodeLoop u flags am input).length ≤ 8 * input.length := by
  match input with
  | [] => simp [encodeLoop_nil]
  | b :: rest =>
    -- 一回りぶんと、残りについての帰納法の仮定
    have hstep := encodeOne_length_le hu flags am (b :: rest)
    have hle := encodeOne_snd_le u flags am (b :: rest)
    have ih := encodeLoop_length_le hu flags am ((b :: rest).drop (encodeOne u flags am (b :: rest)).2)
    rw [encodeLoop_cons, List.length_append]
    rw [List.length_drop] at ih
    have : 8 * ((b :: rest).length - (encodeOne u flags am (b :: rest)).2) =
        8 * (b :: rest).length - 8 * (encodeOne u flags am (b :: rest)).2 := Nat.mul_sub _ _ _
    omega
termination_by input.length
decreasing_by
  have := encodeOne_snd_pos u flags am b rest
  simp only [List.length_drop, List.length_cons]
  omega

/-! ## 入力の種類ごとの出力 -/

section Runs

variable (flags : StringHtmlEncoding) (am : AsciiMap)

/-- **NUL でない ASCII だけの入力は、byte ごとに `asciiOut` で書かれる。** -/
theorem encodeLoop_of_ascii :
    ∀ input : List UInt8, (∀ b ∈ input, b.toNat ≠ 0 ∧ b.toNat < 128) →
      encodeLoop u flags am input = input.flatMap (asciiOut am)
  | [], _ => by rw [encodeLoop_nil, List.flatMap_nil]
  | b :: rest, h => by
    have hb := h b List.mem_cons_self
    have ih := encodeLoop_of_ascii rest (fun x hx => h x (List.mem_cons_of_mem _ hx))
    rw [← List.singleton_append,
      encodeLoop_append u flags am (List.cons_ne_nil _ _) (encodeOne_ascii u flags am hb rest), ih,
      List.singleton_append, List.flatMap_cons]

/-- ISO-8859-1 のときの byte 一つの出力。 -/
def isoByteOut (b : UInt8) : List UInt8 :=
  if b.toNat ≠ 0 ∧ b.toNat < 128 then asciiOut am b else isoOut flags b

/-- **ISO-8859-1 のとき、どの入力も byte ごとに書かれる。** -/
theorem encodeLoop_iso (hf : flags.utf8 = false) :
    ∀ input : List UInt8, encodeLoop u flags am input = input.flatMap (isoByteOut flags am)
  | [] => by rw [encodeLoop_nil, List.flatMap_nil]
  | b :: rest => by
    -- 一回りはいつも 1 byte
    have hone : encodeOne u flags am ([b] ++ rest) = (isoByteOut flags am b, [b].length) := by
      unfold isoByteOut
      split_ifs with hb
      · exact encodeOne_ascii u flags am hb rest
      · exact encodeOne_iso u flags am hf hb rest
    rw [← List.singleton_append, encodeLoop_append u flags am (List.cons_ne_nil _ _) hone,
      encodeLoop_iso hf rest, List.singleton_append, List.flatMap_cons]

/-- UTF-8 の指定のとき、正しい並びの先頭の code point 一つの一回り。 -/
theorem encodeOne_utf8EncodeChar (hu : u.Documented) (hf : flags.utf8 = true) (c : Char)
    (rest : List UInt8) :
    encodeOne u flags am (String.utf8EncodeChar c ++ rest) =
      (charOut u flags am c, (String.utf8EncodeChar c).length) := by
  obtain ⟨b, tail, henc, hascii, hhigh⟩ := utf8EncodeChar_head c
  unfold charOut
  split_ifs with hc
  · -- ASCII：1 byte の並び
    have htail : tail = [] := by
      have hlen := String.length_utf8EncodeChar c
      have hsize : c.utf8Size = 1 := Char.utf8Size_eq_one_iff.mpr (by
        simp only [UInt32.le_iff_toNat_le, UInt32.reduceToNat]
        exact Nat.le_of_lt_succ hc.2)
      rw [henc, hsize, List.length_cons, Nat.add_eq_right, List.length_eq_zero_iff] at hlen
      exact hlen
    have hb : b = UInt8.ofNat c.toNat := by
      apply UInt8.toNat_inj.mp
      rw [hascii hc.2, toNat_ofNat_of_lt (by omega)]
    rw [henc, htail, hb, List.cons_append, List.nil_append]
    exact encodeOne_ascii u flags am (by rw [toNat_ofNat_of_lt (by omega)]; exact hc) rest
  · -- NUL か ASCII でない文字：`U8_NEXT` がその文字を読む
    have hb : ¬(b.toNat ≠ 0 ∧ b.toNat < 128) := by
      rintro ⟨hb0, hb1⟩
      by_cases h : c.toNat < 0x80
      · exact hc ⟨by rw [← hascii h]; exact hb0, h⟩
      · have := hhigh (by omega)
        omega
    rw [henc, List.cons_append, encodeOne_utf8 u flags am hf hb, ← List.cons_append, ← henc,
      hu.next_utf8EncodeChar, String.length_utf8EncodeChar]

/-- **UTF-8 の指定のとき、正しい UTF-8 の入力は code point ごとに `charOut` で書かれる。** -/
theorem encodeLoop_utf8EncodeChar (hu : u.Documented) (hf : flags.utf8 = true) :
    ∀ cs : List Char,
      encodeLoop u flags am (cs.flatMap String.utf8EncodeChar) = cs.flatMap (charOut u flags am)
  | [] => by rw [List.flatMap_nil, encodeLoop_nil, List.flatMap_nil]
  | c :: cs => by
    rw [List.flatMap_cons, encodeLoop_append u flags am String.utf8EncodeChar_ne_nil
      (encodeOne_utf8EncodeChar u flags am hu hf c _), encodeLoop_utf8EncodeChar hu hf cs,
      List.flatMap_cons]

/-- **ASCII でない code point は、`NBSP` の指定があって値が `0xC2A0` なら `&nbsp;`、`HIGH` の
指定があれば `&#x..;`、それ以外はもとの UTF-8 の並びのまま書かれる。** -/
theorem charOut_of_nonascii (hu : u.Documented) {c : Char} (hc : 0x80 ≤ c.toNat) :
    charOut u flags am c =
      if flags.nbsp ∧ c.toNat = 0xC2A0 then nbspRef
      else if flags.high then hexRef c.toNat
      else String.utf8EncodeChar c := by
  have hz : codePointLeZero (some c.toNat) = false := by
    simp only [codePointLeZero, decide_eq_false_iff_not]
    omega
  simp only [charOut, utf8Out, Option.some.injEq, hz, Bool.false_eq_true, if_false,
    Option.getD_some, hu.appendUnsafe_toNat]
  rw [if_neg (by omega)]

theorem charOut_of_ascii {c : Char} (hc : c.toNat ≠ 0 ∧ c.toNat < 128) :
    charOut u flags am c = asciiOut am (UInt8.ofNat c.toNat) := if_pos hc

/-- 不正な並び（と NUL）は、捨てるか U+FFFD に置き換える。 -/
theorem utf8Out_of_codePointLeZero {cp : Option Nat} (hcp : codePointLeZero cp = true)
    (hn : cp ≠ some 0xC2A0) :
    utf8Out u flags cp = if flags.utf8izeReplace then (if flags.high then hexFffdRef else rep) else [] := by
  simp only [utf8Out, hcp, if_true]
  rw [if_neg (fun h => hn h.2)]

end Runs

/-! ## `AsciiMap` の bit

`AsciiMap.test` は語を右に送って最下位の bit を見る。これを `Nat.testBit` で言い直す。 -/

theorem and_64_ne_zero_iff (x : Nat) : x &&& 64 ≠ 0 ↔ 64 ≤ x % 128 := by
  rw [show (64 : Nat) = 2 ^ 6 from rfl, Nat.and_two_pow, Nat.testBit_eq_decide_div_mod_eq]
  by_cases hb : x / 2 ^ 6 % 2 = 1
  · simp only [hb, decide_true, Bool.toNat_true]
    omega
  · simp only [hb, decide_false, Bool.toNat_false]
    omega

theorem test_eq (am : AsciiMap) (c : Nat) :
    am.test c = (am.word c).toNat.testBit (c % 64) := by
  rw [AsciiMap.test, and_0x3f, Bool.eq_iff_iff, decide_eq_true_iff,
    testBit_shiftRight_and_one _ (Nat.mod_lt c (by decide))]

/-- **`addExtra` が立てるのは、先頭の byte の下 7 bit の文字の bit ただ一つ。** `char` が負でも
`& 64` と `& 63` は下の 7 bit しか見ないので、`é`（`0xC3`）は `C`（`0x43`）の bit を立てる。 -/
theorem test_addExtra (am : AsciiMap) (item : List UInt8) {c : Nat} (hc : c < 128) :
    (addExtra am item).test c = (am.test c || decide ((item.headD 0).toNat % 128 = c)) := by
  rw [test_eq, test_eq]
  unfold addExtra AsciiMap.word
  generalize (item.headD 0).toNat = b
  have hbm := Nat.mod_lt b (show 0 < 64 by decide)
  have hcm := Nat.mod_lt c (show 0 < 64 by decide)
  simp only [and_0x3f]
  have hb := and_64_ne_zero_iff b
  have hc' := and_64_ne_zero_iff c
  -- どちらの語の bit かで四つに分ける。語が違えば `c` の bit は変わらない
  by_cases hb6 : b &&& 64 ≠ 0 <;> by_cases hc6 : c &&& 64 ≠ 0
  · simp only [if_pos hb6, if_pos hc6, testBit_or_one_shiftLeft _ hbm hcm]
    congr 1
    simp only [decide_eq_decide]
    omega
  · simp only [if_pos hb6, if_neg hc6]
    simp only [decide_eq_false (show b % 128 ≠ c by omega), Bool.or_false]
  · simp only [if_neg hb6, if_pos hc6]
    simp only [decide_eq_false (show b % 128 ≠ c by omega), Bool.or_false]
  · simp only [if_neg hb6, if_neg hc6, testBit_or_one_shiftLeft _ hbm hcm]
    congr 1
    simp only [decide_eq_decide]
    omega

/-- **`extra` の全体では、各文字列の先頭の byte の下 7 bit の文字が足される。** -/
theorem test_foldl_addExtra {c : Nat} (hc : c < 128) :
    ∀ (am : AsciiMap) (extra : List (List UInt8)), (extra.foldl addExtra am).test c =
      (am.test c || extra.any fun item => decide ((item.headD 0).toNat % 128 = c))
  | am, [] => by rw [List.foldl_nil, List.any_nil, Bool.or_false]
  | am, item :: extra => by
    rw [List.foldl_cons, test_foldl_addExtra hc _ extra, test_addExtra am item hc, List.any_cons,
      Bool.or_assoc]

/-! ## `HtmlEncodeExtra` -/

/-- 入力が `INT_MAX / 8` 以下なら、出力は `INT_MAX` を越えない。 -/
theorem stringHtmlEncodeExtra_of_le (hu : u.Documented) (input : List UInt8)
    (flags : StringHtmlEncoding) (am : AsciiMap) (hlen : 8 * input.length ≤ intMax) :
    stringHtmlEncodeExtra u input flags am = some (encodeLoop u flags am input) := by
  have h := encodeLoop_length_le hu flags am input
  rw [stringHtmlEncodeExtra, if_neg (by omega)]

/-- `ENT_NOQUOTES` で charset を指定しないとき：UTF-8 で、表は `mapNoQuotes` に `extra` を足したもの。 -/
theorem HtmlEncodeExtra_No (hu : u.Documented) (r nbsp : Bool) {input : List UInt8}
    (hne : input ≠ []) (extra : List (List UInt8)) (hlen : 8 * input.length ≤ intMax) :
    HtmlEncodeExtra u r input .No [] nbsp extra =
      .ok (encodeLoop u ⟨true, nbsp, false, r⟩ (extra.foldl addExtra mapNoQuotes) input) := by
  -- `extra` が空なら表は `mapNoQuotes` のままで、`foldl` も同じ
  have ham : (if extra = [] then mapNoQuotes else extra.foldl addExtra mapNoQuotes) =
      extra.foldl addExtra mapNoQuotes := by
    split_ifs with h
    · rw [h, List.foldl_nil]
    · rfl
  simp [HtmlEncodeExtra, List.isEmpty_iff, hne, stringHtmlEncodeExtra_of_le u hu _ _ _ hlen]
  rw [ham]
  rfl

/-- U+00A0（`C2 A0`）は `NBSP` の指定があってもそのまま書かれ、U+C2A0（`EC 8A A0`）が `&nbsp;` に
なる。NUL は正しい code point だが `curCodePoint <= 0` の枝で捨てられる。`extra` の `é` は表の `C`
の bit を立て、`C` が `&#067;` になる。ICU の二つの macro については文書が述べることしか使わない。 -/
theorem HtmlEncodeExtra_nbsp_compares_bytes (hu : u.Documented) :
    HtmlEncodeExtra u false [0xC2, 0xA0] .No [] true [] = .ok [0xC2, 0xA0] ∧
      HtmlEncodeExtra u false [0xEC, 0x8A, 0xA0] .No [] true [] = .ok nbspRef ∧
      HtmlEncodeExtra u false [0x41, 0x00, 0x42] .No [] false [] = .ok [0x41, 0x42] ∧
      HtmlEncodeExtra u false [0x43] .No [] false [[0xC3, 0xA9]] =
        .ok (bytesOf ['&', '#', '0', '6', '7', ';']) := by
  refine ⟨?_, ?_, ?_, ?_⟩
  · have hin : ([0xC2, 0xA0] : List UInt8) = [Char.ofNat 0xA0].flatMap String.utf8EncodeChar := by
      decide
    rw [HtmlEncodeExtra_No u hu false true (List.cons_ne_nil _ _) [] (by decide), hin,
      encodeLoop_utf8EncodeChar u _ _ hu rfl, List.flatMap_singleton,
      charOut_of_nonascii u _ _ hu (by decide)]
    decide
  · have hin : ([0xEC, 0x8A, 0xA0] : List UInt8) =
        [Char.ofNat 0xC2A0].flatMap String.utf8EncodeChar := by
      decide
    rw [HtmlEncodeExtra_No u hu false true (List.cons_ne_nil _ _) [] (by decide), hin,
      encodeLoop_utf8EncodeChar u _ _ hu rfl, List.flatMap_singleton,
      charOut_of_nonascii u _ _ hu (by decide)]
    decide
  · -- NUL は `charOut` の `utf8Out` の枝に入り、`codePointLeZero` で捨てられる
    have hin : ([0x41, 0x00, 0x42] : List UInt8) =
        ['A', Char.ofNat 0, 'B'].flatMap String.utf8EncodeChar := by
      decide
    rw [HtmlEncodeExtra_No u hu false false (List.cons_ne_nil _ _) [] (by decide), hin,
      encodeLoop_utf8EncodeChar u _ _ hu rfl]
    have h0 : charOut u ⟨true, false, false, false⟩ mapNoQuotes (Char.ofNat 0) = [] := by
      rw [charOut, if_neg (by decide), utf8Out_of_codePointLeZero u _ rfl (by decide)]
      rfl
    simp only [List.foldl_nil, List.flatMap_cons, List.flatMap_nil, h0,
      charOut_of_ascii u _ _ (show 'A'.toNat ≠ 0 ∧ 'A'.toNat < 128 by decide),
      charOut_of_ascii u _ _ (show 'B'.toNat ≠ 0 ∧ 'B'.toNat < 128 by decide)]
    decide
  · -- `0xC3 % 128 = 0x43`：`é` が `C` の bit を立てる
    have hbit : ([[0xC3, 0xA9]].foldl addExtra mapNoQuotes).test (0x43 : UInt8).toNat = true := by
      rw [test_foldl_addExtra (by decide)]
      decide
    rw [HtmlEncodeExtra_No u hu false false (List.cons_ne_nil _ _) _ (by decide),
      encodeLoop_of_ascii u _ _ [0x43] (fun b hb => by rw [List.mem_singleton.mp hb]; decide),
      List.flatMap_singleton, asciiOut, if_pos hbit]
    decide

theorem HtmlEncodeExtra_nbsp_compares_bytes_table :
    tableMacros.Documented ∧
      HtmlEncodeExtra tableMacros false [0xC2, 0xA0] .No [] true [] = .ok [0xC2, 0xA0] ∧
      HtmlEncodeExtra tableMacros false [0xEC, 0x8A, 0xA0] .No [] true [] = .ok nbspRef ∧
      HtmlEncodeExtra tableMacros false [0x41, 0x00, 0x42] .No [] false [] = .ok [0x41, 0x42] ∧
      HtmlEncodeExtra tableMacros false [0x43] .No [] false [[0xC3, 0xA9]] =
        .ok (bytesOf ['&', '#', '0', '6', '7', ';']) :=
  ⟨tableMacros_documented, HtmlEncodeExtra_nbsp_compares_bytes tableMacros tableMacros_documented⟩

end Hhvm.Zend
