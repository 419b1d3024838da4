import Hhvm.Array.VanillaDict
import Hhvm.Infra.OrderedMap
import Hhvm.Infra.SortedSearch

/-!
# 配列による `strtr`

`hphp/runtime/ext/string/ext_string.cpp` の `HHVM_FUNCTION(strtr)` のうち、`from` が配列で
`to` が null の道と、その下の三つの実装。

* `strtr_fast` / `strtr_slow` — key が 64 個以下で、どれも 16 byte 以下のとき。位置ごとの
  64 bit の mask で候補を絞り、`strtr_slow` が長い順に部分文字列を配列から引く。
* `WuManberReplacement` — それ以外。key の先頭 `m` byte の末尾 `B` byte の hash で飛ばす幅の表を
  作り、飛ばせない位置では同じ hash の bucket を長い順に調べる。
* 仕様 `strtrSpec` — 左から読み、残りの先頭に一致する key の文字列のうち最長のものを置き換える。

配列は `ArrayIter` の順の (key, 値) の列で、値は `toString` したもので持つ（`tvCastToString` と
`Variant::toString` は同じ変換）。`ArrayData::get(const StringData*)` は文字列の key だけを引く
（`nvGetStr`）。辞書の実装がこの抽象に従うことは `Hhvm/Array/Properties/` で示してある。

`to` が null でない道（`StringUtil::Translate`）と、配列でない `from` の警告はここでは扱わない。
key が 1000 個以上のときの `wuManberCache` は、`murmur_hash_64A` の衝突がない限り同じ表を作り直す
ことと同じなので、作り直すものとして書く。
-/

namespace Hhvm.Ext

open Infra.OrderedMap Infra.SortedSearch

/-- `strtr` に渡る配列：`ArrayIter` の順の (key, `toString` した値) の列。 -/
abbrev StrtrArray := List (Key (List UInt8) × List UInt8)

/-- `String(int64_t)`：10 進の表記。負なら `-` が付く。 -/
def intToString (i : Int) : List UInt8 :=
  (if i < 0 then [0x2d] else []) ++ (Nat.toDigits 10 i.natAbs).map Char.toUInt8

/-- key の `toString()`。 -/
def keyToString : Key (List UInt8) → List UInt8
  | .int k => intToString k.toInt
  | .str s => s

/-! ## 仕様 -/

/-- 残り `t` の先頭に一致する key の文字列のうち、最長のものの長さ（無ければ 0）。 -/
def longestKeyLen (pats : List (List UInt8)) (t : List UInt8) : Nat :=
  Nat.findGreatest (fun n => 0 < n ∧ t.take n ∈ pats) t.length

theorem longestKeyLen_le (pats : List (List UInt8)) (t : List UInt8) :
    longestKeyLen pats t ≤ t.length :=
  Nat.findGreatest_le _

/-- 仕様：`pairs` は (`toString(k)`, `toString(arr[k])`) の列。左から読み、最長の key を置き換え、
一致が無ければ一 byte を写す。 -/
def strtrSpec (pairs : List (List UInt8 × List UInt8)) : List UInt8 → List UInt8
  | [] => []
  | b :: rest =>
    let n := longestKeyLen (keys pairs) (b :: rest)
    if hn : n = 0 then b :: strtrSpec pairs rest
    else (get? pairs ((b :: rest).take n)).getD [] ++ strtrSpec pairs ((b :: rest).drop n)
termination_by t => t.length
decreasing_by
  · simp only [List.length_cons]
    omega
  · have := longestKeyLen_le (keys pairs) (b :: rest)
    simp only [List.length_drop, List.length_cons] at this ⊢
    omega

/-! ## `strtr_fast` と `strtr_slow` -/

/-- `PatternMask`：`mask[pos][c]` の bit `p` は、`p` 番目の key の `pos` 番目の byte が `c` のとき
立つ。`mask[i][slice[i]] |= (1LL << pattern_id)` を key の順に重ねたもの。 -/
def buildMask (arr : StrtrArray) (pos : Nat) (c : UInt8) : UInt64 :=
  arr.zipIdx.foldl (fun acc x =>
    if (keyToString x.1.1)[pos]? = some c then acc ||| (1 : UInt64) <<< x.2.toUInt64 else acc) 0

/-- `for (pos = 0; pos < maxlen; pos++)`：mask を重ね、`pos >= minlen - 1` まで 0 にならなければ
`possible_match`。`u` は `s + i` からの `maxlen` byte。 -/
def matchLoop (mask : Nat → UInt8 → UInt64) (minlen : Nat) (m : UInt64) (pos : Nat) :
    List UInt8 → Bool
  | [] => false
  | c :: u =>
    let m := m &&& mask pos c
    if m = 0 then false
    else if minlen ≤ pos + 1 then true
    else matchLoop mask minlen m (pos + 1) u

/-- `for (len = maxlen; len >= minlen; len--)`：`key` の先頭 `len` byte を文字列の key として引く。
`strtr` は空の key を先に断るので `minlen ≥ 1` で、長さ 0 は引かない。 -/
def slowLoop (arr : StrtrArray) (key : List UInt8) (minlen : Nat) : Nat → Option (List UInt8 × Nat)
  | 0 => none
  | len + 1 =>
    if len + 1 < minlen then none
    else match get? arr (.str (key.take (len + 1))) with
      | some v => some (v, len + 1)
      | none => slowLoop arr key minlen len

/-- `strtr_slow`：`s + pos` から `maxlen` byte を `key` に写して長い順に引く。置き換える文字列と
進む長さを返す（`replace` が空なら `append` しないが、書くものは同じ）。 -/
def strtrSlow (arr : StrtrArray) (t : List UInt8) (minlen maxlen : Nat) :
    Option (List UInt8 × Nat) :=
  slowLoop arr (t.take maxlen) minlen maxlen

theorem slowLoop_pos {arr : StrtrArray} {key : List UInt8} {minlen : Nat} :
    ∀ {len : Nat} {v : List UInt8} {n : Nat}, slowLoop arr key minlen len = some (v, n) → 0 < n
  | 0, _, _, h => by simp [slowLoop] at h
  | len + 1, v, n, h => by
    simp only [slowLoop] at h
    split_ifs at h
    split at h
    · simp only [Option.some.injEq, Prod.mk.injEq] at h
      omega
    · exact slowLoop_pos h

/-- 一つの位置で：`possible_match` なら `strtr_slow` を呼ぶ。置き換える文字列と進む長さ。 -/
def fastFound (arr : StrtrArray) (mask : Nat → UInt8 → UInt64) (minlen maxlen : Nat)
    (t : List UInt8) : Option (List UInt8 × Nat) :=
  if matchLoop mask minlen (~~~0) 0 (t.take maxlen) then strtrSlow arr t minlen maxlen else none

theorem fastFound_pos {arr : StrtrArray} {mask : Nat → UInt8 → UInt64} {minlen maxlen : Nat}
    {t v : List UInt8} {n : Nat} (h : fastFound arr mask minlen maxlen t = some (v, n)) : 0 < n := by
  unfold fastFound at h
  split_ifs at h
  exact slowLoop_pos h

/-- `strtr_fast` の `for (i = 0; i < slen;)`。`t` は `s + i` からの残りで、`maxlen` は
`(i + maxlen) > slen` のとき `slen - i` に縮み、縮んだまま次へ渡る。 -/
def fastLoop (arr : StrtrArray) (mask : Nat → UInt8 → UInt64) (minlen : Nat) (maxlen : Nat) :
    List UInt8 → List UInt8
  | [] => []
  | b :: rest =>
    let maxlen := if (b :: rest).length < maxlen then (b :: rest).length else maxlen
    match h : fastFound arr mask minlen maxlen (b :: rest) with
    | some (v, len) => v ++ fastLoop arr mask minlen maxlen ((b :: rest).drop len)
    | none => b :: fastLoop arr mask minlen maxlen rest
termination_by t => t.length
decreasing_by
  · have hpos := fastFound_pos h
    simp only [List.length_drop, List.length_cons]
    omega
  · simp only [List.length_cons]
    omega

/-- `strtr_fast`。 -/
def strtrFast (str : List UInt8) (arr : StrtrArray) (minlen maxlen : Nat) : List UInt8 :=
  fastLoop arr (buildMask arr) minlen maxlen str

/-! ## `WuManberReplacement` -/

/-- `SHIFT_TAB_SIZE`：`1 << 13`。 -/
def SHIFT_TAB_SIZE : Nat := 2 ^ 13

/-- `HASH_TAB_SIZE`：`1 << 10`。 -/
def HASH_TAB_SIZE : Nat := 2 ^ 10

/-- `SHIFT_TAB_MASK`。 -/
def SHIFT_TAB_MASK : UInt16 := 0x1fff

/-- `HASH_TAB_MASK`。 -/
def HASH_TAB_MASK : UInt16 := 0x3ff

/-- `strtr_hash`：`res = res * 33 + c` を `uint16_t` で。 -/
def strtrHash (s : List UInt8) : UInt16 :=
  s.foldl (fun res c => res * 33 + c.toUInt16) 0

/-- `PatAndRepl`。 -/
structure PatAndRepl where
  pat : List UInt8
  repl : List UInt8
deriving DecidableEq, Repr

/-- `PatAndRepl::hash(start, len)`。 -/
def PatAndRepl.hash (p : PatAndRepl) (start len : Nat) : UInt16 :=
  strtrHash ((p.pat.drop start).take len)

/-- `strtr_compare_hash_suffix`：`a` が `b` より前。末尾 `B` byte の hash の昇順、同じ hash では
長い順。 -/
def strtrCompareHashSuffix (m B : Nat) (a b : PatAndRepl) : Bool :=
  let hashA := a.hash (m - B) B &&& HASH_TAB_MASK
  let hashB := b.hash (m - B) B &&& HASH_TAB_MASK
  if hashA > hashB then false
  else if hashA < hashB then true
  else if a.pat.length > b.pat.length then true
  else false

/-- `initPatterns`：key を `toString` して pattern にする。空の key があれば `false`（`none`）。 -/
def initPatterns (arr : StrtrArray) : Option (List PatAndRepl) :=
  if arr.any (fun kv => (keyToString kv.1).isEmpty) then none
  else some (arr.map fun kv => ⟨keyToString kv.1, kv.2⟩)

theorem initPatterns_pat_ne_nil {arr : StrtrArray} {ps : List PatAndRepl}
    (h : initPatterns arr = some ps) : ∀ p ∈ ps, p.pat ≠ [] := by
  unfold initPatterns at h
  split_ifs at h with hany
  simp only [Option.some.injEq] at h
  subst h
  intro p hp
  obtain ⟨kv, hkv, rfl⟩ := List.mem_map.mp hp
  simpa using List.any_eq_false.mp (Bool.eq_false_iff.mpr hany) kv hkv

/-- `initTables` のループが書き進める表。`hash` の `-1` は空の bucket。 -/
structure Tables where
  lastH : UInt16
  hash : Array Int
  shift : Array Nat
  prefixTab : List UInt16

/-- `initTables` のループの一回り：`i` 番目の pattern について `hash`・`shift`・`prefix` を書く。 -/
def tablesStep (m B Bp : Nat) (st : Tables) (x : PatAndRepl × Nat) : Tables :=
  let h := x.1.hash (m - B) B &&& HASH_TAB_MASK
  let hashLast : Array Int × UInt16 :=
    if h ≠ st.lastH then (st.hash.setIfInBounds h.toNat x.2, h) else (st.hash, st.lastH)
  let shift := (List.range (m - B + 1)).foldl (fun sh j =>
    let h2 := (x.1.hash j B &&& SHIFT_TAB_MASK).toNat
    sh.setIfInBounds h2 (min (sh.getD h2 0) (m - j - B))) st.shift
  ⟨hashLast.2, hashLast.1, shift, st.prefixTab ++ [x.1.hash 0 Bp]⟩

/-- `initTables`：pattern を並べ、表を作り、空の bucket の `hash` を次の bucket の先頭で埋める。
`std::sort` は同順位の順を決めないが、同じ hash で同じ長さの二つの pattern が同じ位置で
どちらも一致することはないので、`sortWith` の安定な整列で代える。 -/
def initTables (m B Bp : Nat) (patterns : List PatAndRepl) : List PatAndRepl × Tables :=
  let sorted := sortWith (strtrCompareHashSuffix m B) patterns
  let st := sorted.zipIdx.foldl (tablesStep m B Bp)
    ⟨0xffff, Array.replicate (HASH_TAB_SIZE + 1) (-1), Array.replicate SHIFT_TAB_SIZE (m - B + 1), []⟩
  let hash := st.hash.setIfInBounds HASH_TAB_SIZE sorted.length
  let hash := (List.range HASH_TAB_SIZE).reverse.foldl
    (fun hs i => if hs.getD i 0 = -1 then hs.setIfInBounds i (hs.getD (i + 1) 0) else hs) hash
  (sorted, { st with hash })

/-- `WuManberReplacement`。pattern はどれも空でない（`initPatterns` が断る）。 -/
structure WuManberReplacement where
  m : Nat
  B : Nat
  Bp : Nat
  patterns : List PatAndRepl
  prefixTab : List UInt16
  shift : Array Nat
  hash : Array Int
  valid : Bool
  pat_ne_nil : ∀ p ∈ patterns, p.pat ≠ []

/-- コンストラクタ：`m(minLen), B(MIN(m,2)), Bp(MIN(m,2)), valid(initPatterns(arr))`。
`valid` が偽なら表は使われないので、空のままにする。 -/
def WuManberReplacement.make (arr : StrtrArray) (minLen : Nat) : WuManberReplacement :=
  let m := minLen
  let B := min m 2
  match h : initPatterns arr with
  | none => ⟨m, B, B, [], [], #[], #[], false, fun _ hp => by simp at hp⟩
  | some ps =>
    let r := initTables m B B ps
    ⟨m, B, B, r.1, r.2.prefixTab, r.2.shift, r.2.hash, true, fun p hp =>
      initPatterns_pat_ne_nil h p (mem_sortWith.mp hp)⟩

/-- 飛ばせない位置での bucket の走査：`prefix` の hash が合い、`pat` がその位置から一致する
最初の組。 -/
def scanBucket (source : List UInt8) (pos : Nat) (prefixH : UInt16) :
    List (UInt16 × PatAndRepl) → Option PatAndRepl
  | [] => none
  | (ph, pnr) :: rest =>
    if ph ≠ prefixH then scanBucket source pos prefixH rest
    else if pnr.pat.length > source.length - pos ∨ (source.drop pos).take pnr.pat.length ≠ pnr.pat
    then scanBucket source pos prefixH rest
    else some pnr

theorem scanBucket_mem {source : List UInt8} {pos : Nat} {prefixH : UInt16} :
    ∀ {l : List (UInt16 × PatAndRepl)} {p : PatAndRepl},
      scanBucket source pos prefixH l = some p → ∃ ph, (ph, p) ∈ l
  | [], _, h => by simp [scanBucket] at h
  | (ph, pnr) :: rest, p, h => by
    simp only [scanBucket] at h
    split_ifs at h
    · obtain ⟨ph', hm⟩ := scanBucket_mem h
      exact ⟨ph', List.mem_cons_of_mem _ hm⟩
    · obtain ⟨ph', hm⟩ := scanBucket_mem h
      exact ⟨ph', List.mem_cons_of_mem _ hm⟩
    · simp only [Option.some.injEq] at h
      subst h
      exact ⟨ph, List.mem_cons_self⟩

/-- `h2` の bucket：`hash[h2]` から `hash[h2 + 1]` の手前までの (prefix, pattern)。 -/
def WuManberReplacement.bucket (w : WuManberReplacement) (h2 : Nat) : List (UInt16 × PatAndRepl) :=
  ((w.prefixTab.zip w.patterns).drop (w.hash.getD h2 0).toNat).take
    (w.hash.getD (h2 + 1) 0 - w.hash.getD h2 0).toNat

theorem WuManberReplacement.mem_bucket {w : WuManberReplacement} {h2 : Nat} {ph : UInt16}
    {p : PatAndRepl} (h : (ph, p) ∈ w.bucket h2) : p ∈ w.patterns :=
  (List.of_mem_zip (List.mem_of_mem_drop (List.mem_of_mem_take h))).2

/-- `translate` の `while (pos <= lastpos)`。書いた byte の列を返す。 -/
def translateLoop (w : WuManberReplacement) (source : List UInt8) (lastpos : Nat)
    (pos nextwpos : Nat) : List UInt8 :=
  if hp : pos ≤ lastpos then
    let h := strtrHash ((source.drop (pos + w.m - w.B)).take w.B) &&& SHIFT_TAB_MASK
    let shiftPos := w.shift.getD h.toNat 0
    if hs : shiftPos > 0 then translateLoop w source lastpos (pos + shiftPos) nextwpos
    else
      let h2 := h &&& HASH_TAB_MASK
      let prefixH := strtrHash ((source.drop pos).take w.Bp)
      match hb : scanBucket source pos prefixH (w.bucket h2.toNat) with
      | some pnr =>
        (source.drop nextwpos).take (pos - nextwpos) ++ pnr.repl ++
          translateLoop w source lastpos (pos + pnr.pat.length) (pos + pnr.pat.length)
      | none => translateLoop w source lastpos (pos + 1) nextwpos
  else source.drop nextwpos
termination_by lastpos + 1 - pos
decreasing_by
  · simp only [shiftPos, h] at hs
    omega
  · obtain ⟨ph, hm⟩ := scanBucket_mem hb
    have hne := w.pat_ne_nil pnr (WuManberReplacement.mem_bucket hm)
    have hlen : 0 < pnr.pat.length := List.length_pos_iff.mpr hne
    omega
  · omega

/-- `WuManberReplacement::translate`。`false` は `none`。 -/
def WuManberReplacement.translate (w : WuManberReplacement) (source : List UInt8) :
    Option (List UInt8) :=
  if !w.valid then none
  else if w.m > source.length then some source
  else some (translateLoop w source (source.length - w.m) 0 0)

/-! ## `HHVM_FUNCTION(strtr)` -/

/-- `kBitsPerQword`。 -/
def kBitsPerQword : Nat := 64

/-- key の長さの走査：空の key があれば `return false`（`none`）。`(maxlen, minlen)` を返し、
`minlen` の `-1` は `none`。 -/
def scanKeyLens (maxlen : Nat) (minlen : Option Nat) : StrtrArray → Option (Nat × Option Nat)
  | [] => some (maxlen, minlen)
  | (k, _) :: rest =>
    let len := (keyToString k).length
    if len < 1 then none
    else scanKeyLens (if maxlen < len then len else maxlen)
      (match minlen with
        | none => some len
        | some m => if m > len then some len else some m) rest

/-- `HHVM_FUNCTION(strtr)(str, arr)`：`false` は `none`。`arr` が空でなければ `minlen` は
`none` にならない。 -/
def strtr (str : List UInt8) (arr : StrtrArray) : Option (List UInt8) :=
  if str.isEmpty then some str
  else if arr.isEmpty then some str
  else match scanKeyLens 0 none arr with
    | none => none
    | some (maxlen, minlen) =>
      if arr.length ≤ kBitsPerQword ∧ maxlen ≤ 16 then
        some (strtrFast str arr (minlen.getD 0) maxlen)
      else (WuManberReplacement.make arr (minlen.getD 0)).translate str

end Hhvm.Ext
