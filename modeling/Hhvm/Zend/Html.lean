import Hhvm.Infra.Utf8

/-!
# HTML の文字参照への置き換え

`hphp/zend/zend-html.cpp` の `string_html_encode_extra` と、それを呼ぶ
`hphp/runtime/base/string-util.cpp` の `StringUtil::HtmlEncodeExtra`
（`fb_htmlspecialchars` などの本体）。

`string_html_encode_extra` は入力を先頭から一文字ずつ読む。

* NUL でない ASCII の byte は、`AsciiMap` に bit が立っていれば `&quot;`・`&#039;`・`&lt;`・
  `&gt;`・`&amp;`、それ以外は `&#NNN;` に置き換え、立っていなければそのまま書く。
* UTF-8 の指定があれば、ICU の `U8_NEXT` で code point を一つ読む。ICU の二つの macro は
  `Infra.Utf8.U8Macros` の引数 `u` で受け取る。
  `NBSP` の指定があって code point が `0xC2A0` なら `&nbsp;`、読めなかった（または NUL の）
  ときは捨てるか U+FFFD に、`HIGH` の指定があれば `&#x..;`、なければ `U8_APPEND_UNSAFE` で
  書き戻す。
* ISO-8859-1 なら、byte `0xA0` は `&nbsp;`、`HIGH` の指定があれば `&#NNN;`、なければそのまま。

出力の置き場所は `malloc(len * 8 + 1)` で、出力が `INT_MAX` を越えれば `nullptr`。`malloc` の
失敗はここでは起きない。`StringHtmlEncoding` の四つの bit は `Bool` の場で、`AsciiMap` の
`uint64_t map[2]` は二つの場で持つ。
-/

namespace Hhvm.Zend

open Infra.Utf8

/-! ## 指定と表 -/

/-- `StringHtmlEncoding`：`UTF8 = 1`・`NBSP = 2`・`HIGH = 4`・`UTF8IZE_REPLACE = 8` の四つの bit。 -/
structure StringHtmlEncoding where
  utf8 : Bool
  nbsp : Bool
  high : Bool
  utf8izeReplace : Bool
deriving DecidableEq, Repr

/-- `AsciiMap`：ASCII の 128 文字の bit の表。`map[0]` が 0..63、`map[1]` が 64..127。 -/
structure AsciiMap where
  map0 : UInt64
  map1 : UInt64
deriving DecidableEq, Repr

/-- `map[c & 64 ? 1 : 0]`。 -/
def AsciiMap.word (am : AsciiMap) (c : Nat) : UInt64 :=
  if c &&& 64 ≠ 0 then am.map1 else am.map0

/-- `(asciiMap->map[c & 64 ? 1 : 0] >> (c & 63)) & 1`。 -/
def AsciiMap.test (am : AsciiMap) (c : Nat) : Bool :=
  (am.word c >>> (c &&& 63).toUInt64) &&& 1 ≠ 0

/-! ## 書く byte 列 -/

/-- ASCII の文字の列をそのまま byte にする。 -/
def bytesOf (s : List Char) : List UInt8 := s.map Char.toUInt8

/-- `&nbsp;`。 -/
def nbspRef : List UInt8 := bytesOf ['&', 'n', 'b', 's', 'p', ';']

/-- `u8"\ufffd"`：U+FFFD の UTF-8。 -/
def rep : List UInt8 := [0xef, 0xbf, 0xbd]

/-- `&#xfffd;`。 -/
def hexFffdRef : List UInt8 := bytesOf ['&', '#', 'x', 'f', 'f', 'f', 'd', ';']

/-- `sprintf(q, "&#x%x;", curCodePoint)`：小文字の 16 進。 -/
def hexRef (cp : Nat) : List UInt8 := bytesOf (['&', '#', 'x'] ++ Nat.toDigits 16 cp ++ [';'])

/-- `&#` と 3 桁の 10 進と `;`。百の位は呼び手が決める（ASCII は `0`/`1`、ISO-8859-1 は `1`/`2`）。 -/
def decimalRef (hundreds : Char) (c : Nat) : List UInt8 :=
  bytesOf ['&', '#', hundreds] ++
    [UInt8.ofNat ((c / 10) % 10 + '0'.toNat), UInt8.ofNat (c % 10 + '0'.toNat)] ++ bytesOf [';']

/-- ASCII の `switch (c)`：`"`（0x22）・`'`（0x27）・`<`・`>`・`&` の名前、他は `&#NNN;`。 -/
def escapeAscii (c : Nat) : List UInt8 :=
  if c = 0x22 then bytesOf ['&', 'q', 'u', 'o', 't', ';']
  else if c = 0x27 then bytesOf ['&', '#', '0', '3', '9', ';']
  else if c = 0x3c then bytesOf ['&', 'l', 't', ';']
  else if c = 0x3e then bytesOf ['&', 'g', 't', ';']
  else if c = 0x26 then bytesOf ['&', 'a', 'm', 'p', ';']
  else decimalRef (if c ≥ 100 then '1' else '0') c

/-- `curCodePoint <= 0`：`U_SENTINEL`（`-1`）か NUL。 -/
def codePointLeZero : Option Nat → Bool
  | none => true
  | some v => v = 0

/-- UTF-8 の指定のときに、`U8_NEXT` が読んだ値について書くもの。 -/
def utf8Out (u : U8Macros) (flags : StringHtmlEncoding) (cp : Option Nat) : List UInt8 :=
  if flags.nbsp ∧ cp = some 0xC2A0 then nbspRef
  else if codePointLeZero cp then
    if flags.utf8izeReplace then (if flags.high then hexFffdRef else rep) else []
  else if flags.high then hexRef (cp.getD 0)
  else u.appendUnsafe (cp.getD 0)

/-! ## ループ -/

/-- ループの一回り：入力の先頭の文字について書くものと、読んだ byte 数。 -/
def encodeOne (u : U8Macros) (flags : StringHtmlEncoding) (am : AsciiMap) :
    List UInt8 → List UInt8 × Nat
  | [] => ([], 0)
  | b :: rest =>
    let c := b.toNat
    if c ≠ 0 ∧ c < 128 then
      (if am.test c then escapeAscii c else [b], 1)
    else if flags.utf8 then
      let r := u.next (b :: rest)
      (utf8Out u flags r.1, r.2)
    else
      (if c = 0xa0 then nbspRef
        else if flags.high then decimalRef (if c ≥ 200 then '2' else '1') c
        else [b], 1)

/-- ループの一回りは少なくとも 1 byte 読む。 -/
theorem encodeOne_snd_pos (u : U8Macros) (flags : StringHtmlEncoding) (am : AsciiMap) (b : UInt8)
    (rest : List UInt8) : 1 ≤ (encodeOne u flags am (b :: rest)).2 := by
  simp only [encodeOne]
  split
  · exact Nat.le_refl 1
  · split
    · exact (u.next_snd_pos_le _ (List.cons_ne_nil b rest)).1
    · exact Nat.le_refl 1

/-- `for (srcPosBytes = 0; srcPosBytes < len; )` の全体：書いた byte の列。 -/
def encodeLoop (u : U8Macros) (flags : StringHtmlEncoding) (am : AsciiMap) : List UInt8 → List UInt8
  | [] => []
  | b :: rest =>
    (encodeOne u flags am (b :: rest)).1 ++
      encodeLoop u flags am ((b :: rest).drop (encodeOne u flags am (b :: rest)).2)
termination_by l => l.length
decreasing_by
  have := encodeOne_snd_pos u flags am b rest
  simp only [List.length_drop, List.length_cons]
  omega

/-- `INT_MAX`。 -/
def intMax : Nat := 2 ^ 31 - 1

/-- `string_html_encode_extra`：出力が `INT_MAX` を越えれば `nullptr`（`none`）。 -/
def stringHtmlEncodeExtra (u : U8Macros) (input : List UInt8) (flags : StringHtmlEncoding)
    (am : AsciiMap) : Option (List UInt8) :=
  let out := encodeLoop u flags am input
  if out.length > intMax then none else some out

/-! ## `StringUtil::HtmlEncodeExtra` -/

/-- `A1(v, ch)`：`ch` が 0..63 なら `map[0]` の bit を立てる。 -/
def a1 (v : UInt64) (ch : Char) : UInt64 :=
  v ||| (if ch.toNat &&& 64 ≠ 0 then 0 else (1 : UInt64) <<< (ch.toNat &&& 63).toUInt64)

/-- `A2(v, ch)`：`ch` が 64..127 なら `map[1]` の bit を立てる。 -/
def a2 (v : UInt64) (ch : Char) : UInt64 :=
  v ||| (if ch.toNat &&& 64 ≠ 0 then (1 : UInt64) <<< (ch.toNat &&& 63).toUInt64 else 0)

/-- `mapNoQuotes`：`<`・`>`・`&`・`{`・`}`・`@`。 -/
def mapNoQuotes : AsciiMap :=
  ⟨a1 (a1 (a1 (a1 (a1 (a1 0 '<') '>') '&') '{') '}') '@',
    a2 (a2 (a2 (a2 (a2 (a2 0 '<') '>') '&') '{') '}') '@'⟩

/-- `mapDoubleQuotes`：`mapNoQuotes` と `"`（0x22）。 -/
def mapDoubleQuotes : AsciiMap :=
  ⟨a1 (a1 (a1 (a1 (a1 (a1 (a1 0 '<') '>') '&') '{') '}') '@') (Char.ofNat 0x22),
    a2 (a2 (a2 (a2 (a2 (a2 (a2 0 '<') '>') '&') '{') '}') '@') (Char.ofNat 0x22)⟩

/-- `mapBothQuotes`：`mapDoubleQuotes` と `'`（0x27）。 -/
def mapBothQuotes : AsciiMap :=
  ⟨a1 (a1 (a1 (a1 (a1 (a1 (a1 (a1 0 '<') '>') '&') '{') '}') '@') (Char.ofNat 0x22)) (Char.ofNat 0x27),
    a2 (a2 (a2 (a2 (a2 (a2 (a2 (a2 0 '<') '>') '&') '{') '}') '@') (Char.ofNat 0x22)) (Char.ofNat 0x27)⟩

/-- `mapNothing`。 -/
def mapNothing : AsciiMap := ⟨0, 0⟩

/-- `QuoteStyle`。値は `QUOTE_STYLES` のもの。 -/
inductive QuoteStyle where
  | FBUtf8Only
  | FBUtf8
  | Xhtml
  | Xml1
  | Substitute
  | Ignore
  | Both
  | Double
  | No
deriving DecidableEq, Repr

/-- `QUOTE_STYLES` の値。 -/
def QuoteStyle.toInt : QuoteStyle → Nat
  | .FBUtf8Only => 65536
  | .FBUtf8 => 32768
  | .Xhtml => 32
  | .Xml1 => 16
  | .Substitute => 8
  | .Ignore => 4
  | .Both => 3
  | .Double => 2
  | .No => 0

/-- `HtmlEncodeExtra` の三つの失敗。 -/
inductive HtmlEncodeError where
  /-- `throw_not_implemented(charset)`：`"%s is not implemented yet."`。 -/
  | notImplemented (feature : List UInt8)
  /-- `raise_error("Unknown quote style: %d", (int)quoteStyle)`。 -/
  | unknownQuoteStyle (style : Nat)
  /-- `raise_error("HtmlEncode called on too large input (%d)", len)`。 -/
  | tooLarge (len : Nat)
deriving DecidableEq, Repr

/-- C の `tolower`：`A`..`Z` だけを小文字にする。 -/
def toLowerByte (b : UInt8) : UInt8 := if 0x41 ≤ b ∧ b ≤ 0x5a then b + 0x20 else b

/-- `strcasecmp(a, b) == 0`。 -/
def strcasecmpEq (a b : List UInt8) : Bool := a.map toLowerByte = b.map toLowerByte

/-- `extra` の各文字列の先頭の `char` の bit を立てる。空の文字列は終端の NUL。`char` は符号つき
だが、`& 64` と `& 63` は下の 7 bit しか見ないので byte の値で計算してよい。 -/
def addExtra (am : AsciiMap) (item : List UInt8) : AsciiMap :=
  let c := (item.headD 0).toNat
  if c &&& 64 ≠ 0 then { am with map1 := am.map1 ||| (1 : UInt64) <<< (c &&& 63).toUInt64 }
  else { am with map0 := am.map0 ||| (1 : UInt64) <<< (c &&& 63).toUInt64 }

/-- `StringUtil::HtmlEncodeExtra`。`utf8izeReplace` は `RuntimeOption::Utf8izeReplace`、`extra` は
配列の値を `toString` した列。 -/
def HtmlEncodeExtra (u : U8Macros) (utf8izeReplace : Bool) (input : List UInt8)
    (quoteStyle : QuoteStyle) (charset : List UInt8) (nbsp : Bool) (extra : List (List UInt8)) :
    Except HtmlEncodeError (List UInt8) := do
  if input.isEmpty then return input
  let flags : StringHtmlEncoding := ⟨true, nbsp, false, utf8izeReplace⟩
  let flags ←
    if charset.isEmpty || strcasecmpEq charset (bytesOf ['U', 'T', 'F', '-', '8']) then pure flags
    else if strcasecmpEq charset (bytesOf ['I', 'S', 'O', '-', '8', '8', '5', '9', '-', '1']) then
      pure { flags with utf8 := false }
    else throw (.notImplemented charset)
  let (am, flags) ← match quoteStyle with
    | .FBUtf8Only => pure (mapNothing, { flags with high := true })
    | .FBUtf8 => pure (mapBothQuotes, { flags with high := true })
    | .Both => pure (mapBothQuotes, flags)
    | .Double => pure (mapDoubleQuotes, flags)
    | .No => pure (mapNoQuotes, flags)
    | _ => throw (.unknownQuoteStyle quoteStyle.toInt)
  let am := if quoteStyle ≠ .FBUtf8Only ∧ !extra.isEmpty then extra.foldl addExtra am else am
  match stringHtmlEncodeExtra u input flags am with
  | some out => pure out
  | none => throw (.tooLarge input.length)

end Hhvm.Zend
