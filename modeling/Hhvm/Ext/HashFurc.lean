import Mathlib.Logic.Function.Basic

/-!
# `furc_hash`

`hphp/runtime/ext/hash/hash_furc.cpp` と `hash_murmur.cpp`。Mark Rabkin の二分決定木による
consistent hash を、再帰から反復に直したもの。決定木がたどるビット列は、鍵の MurmurHash64A
`H 0` と、それを次々に `murmur_rehash_64A` した `H 1, H 2, …` を 64 ビットずつ並べたもので、
`furc_get_bit` はこれを `hash[]` に必要な所まで遅延して埋めながら読む。

* `hash[]` は初期化されないスタックの配列なので、その初めの中身を引数に取る。
* `d`、`a`、`num` などの `uint32_t` は、`m <= furc_maximum_pool_size()`（`assertx`）のもとで
  どれも `2^32` に届かないので `Nat` で持つ。ハッシュ値の計算は `UInt64` の剰余演算のまま。
-/

namespace Hhvm.Ext

/-! ## MurmurHash64A -/

/-- `const int SEED = 4193360111ul;`：`int` に入らない値なので、入るのは `4193360111 - 2^32`。 -/
def SEED : Int32 := -101607185

/-- `const uint64_t m = 0xc6a4a7935bd1e995ULL;` -/
def murmurM : UInt64 := 0xc6a4a7935bd1e995

/-- `const int r = 47;` -/
def murmurR : UInt64 := 47

/-- `*data` の 8 バイトの語（リトルエンディアン）。 -/
def loadWord (bs : List UInt8) : UInt64 := bs.foldr (fun b acc => (acc <<< 8) ||| b.toUInt64) 0

/-- 一語を混ぜる：`k *= m; k ^= k >> r; k *= m; h ^= k; h *= m;` -/
def murmurMix (h k : UInt64) : UInt64 :=
  let k := k * murmurM
  let k := k ^^^ (k >>> murmurR)
  let k := k * murmurM
  (h ^^^ k) * murmurM

/-- `while(data != end)`：先頭から `n` 語を順に混ぜる。 -/
def murmurBody : Nat → UInt64 → List UInt8 → UInt64
  | 0, h, _ => h
  | n + 1, h, data => murmurBody n (murmurMix h (loadWord (data.take 8))) (data.drop 8)

/-- `switch(len & 7)`：残りのバイト `data2[i]` を `i` の大きい方から `<< 8i` して XOR し、一つでも
あれば `h *= m`（`case 1` に落ちてくる）。 -/
def murmurTail (h : UInt64) (tail : List UInt8) : UInt64 :=
  if tail.length = 0 then h
  else
    let h := (List.range tail.length).reverse.foldl
      (fun h i => h ^^^ ((tail.getD i 0).toUInt64 <<< (8 * i).toUInt64)) h
    h * murmurM

/-- 最後の攪拌：`h ^= h >> r; h *= m; h ^= h >> r;` -/
def murmurFinal (h : UInt64) : UInt64 :=
  let h := h ^^^ (h >>> murmurR)
  let h := h * murmurM
  h ^^^ (h >>> murmurR)

/-- `murmur_hash_64A(key, len, seed)`。 -/
def murmurHash64A (key : List UInt8) (seed : UInt32) : UInt64 :=
  let len := key.length
  let h := seed.toUInt64 ^^^ (len.toUInt64 * murmurM)
  let h := murmurBody (len / 8) h key
  murmurFinal (murmurTail h (key.drop (len / 8 * 8)))

/-- `murmur_rehash_64A(k)`：八バイトの鍵 `k` の MurmurHash64A を種 `(uint64_t)SEED` で。`SEED` は
負の `int` なので、ここで符号拡張される（`murmur_hash_64A` に渡す `uint32_t` とは上位が違う）。 -/
def murmurRehash64A (k : UInt64) : UInt64 :=
  let h := SEED.toInt64.toUInt64 ^^^ (8 * murmurM)
  murmurFinal (murmurMix h k)

/-! ## `furc_get_bit` -/

/-- `uint64_t hash[FURC_CACHE_SIZE]` と `old_ord`。 -/
structure FurcCache where
  hash : Nat → UInt64
  oldOrd : Int

/-- `for (n = *old_ord_p + 1; n <= ord; n++) hash[n] = n == 0 ? murmur_hash_64A(key, len, SEED)
: murmur_rehash_64A(hash[n-1]);` -/
def furcFill (key : List UInt8) (hash : Nat → UInt64) (start ord : Nat) : Nat → UInt64 :=
  (List.range' start (ord + 1 - start)).foldl
    (fun h n => Function.update h n
      (if n = 0 then murmurHash64A key SEED.toUInt32 else murmurRehash64A (h (n - 1))))
    hash

/-- `furc_get_bit(key, len, idx, hash, &old_ord)`（`key` が `NULL` でないとき）：`hash[idx >> 6]` まで
埋めて、その `idx & 0x3f` ビット目を返す。 -/
def furcGetBit (key : List UInt8) (idx : Nat) (c : FurcCache) : UInt32 × FurcCache :=
  let ord := idx >>> 6
  let c : FurcCache :=
    if c.oldOrd < ord then ⟨furcFill key c.hash (c.oldOrd + 1).toNat ord, ord⟩ else c
  (((c.hash ord >>> (idx &&& 0x3f).toUInt64) &&& 1).toUInt32, c)

/-! ## `furc_hash_internal` -/

/-- `#define MAX_TRIES 32` -/
def MAX_TRIES : Nat := 32

/-- `#define FURC_SHIFT 23` -/
def FURC_SHIFT : Nat := 23

/-- `furc_maximum_pool_size()`：`1 << FURC_SHIFT`。 -/
def furcMaximumPoolSize : Nat := 1 <<< FURC_SHIFT

/-- `for (d = 0; m > (1ul << d); d++);`：`m` 以上の最小の二冪の指数。 -/
def furcDepthLoop (m d : Nat) : Nat :=
  if m > 1 <<< d then furcDepthLoop m (d + 1) else d
termination_by m - d
decreasing_by
  have : d < 2 ^ d := Nat.lt_two_pow_self
  omega

/-- `while (!furc_get_bit(key, len, a, ...)) { if (--d == 0) return 0; a = d; }`。`none` は
`return 0`。`d` は 1 以上で入る（`d = 0` の `--d` は `uint32_t` では一周するが、ここへは来ない）。 -/
def furcDescend (key : List UInt8) (d a : Nat) (c : FurcCache) : Option (Nat × Nat × FurcCache) :=
  let r := furcGetBit key a c
  if r.1 = 0 then
    if d - 1 = 0 then none else furcDescend key (d - 1) (d - 1) r.2
  else some (d, a, r.2)
termination_by d
decreasing_by omega

/-- `for (i = 0; i < d-1; i++) { num = (num << 1) | furc_get_bit(...); a += FURC_SHIFT; }` の
残り `k` 回。 -/
def furcReadNum (key : List UInt8) : Nat → Nat → Nat → FurcCache → Nat × Nat × FurcCache
  | 0, num, a, c => (num, a, c)
  | k + 1, num, a, c =>
    let r := furcGetBit key a c
    furcReadNum key k ((num <<< 1) ||| r.1.toNat) (a + FURC_SHIFT) r.2

/-- `for (tries = 0; tries < MAX_TRIES; tries++)` の残り `t` 回。`none` はループを抜けたこと
（`// Give up; return 0`）。 -/
def furcTries (key : List UInt8) (m : Nat) : Nat → Nat → Nat → FurcCache → Option Nat
  | 0, _, _, _ => none
  | t + 1, d, a, c =>
    match furcDescend key d a c with
    | none => some 0
    | some (d, a, c) =>
      let r := furcReadNum key (d - 1) 1 (a + FURC_SHIFT) c
      if r.1 < m then some r.1 else furcTries key m t d r.2.1 r.2.2

/-- `furc_hash_internal(key, len, m)`。`hash` は `hash[]` の初めの中身で、`furc_get_bit(NULL, ...)`
が `old_ord = -1` にする。 -/
def furcHashInternal (key : List UInt8) (m : Nat) (hash : Nat → UInt64) : Nat :=
  if m ≤ 1 then 0
  else
    let d := furcDepthLoop m 0
    (furcTries key m MAX_TRIES d d ⟨hash, -1⟩).getD 0

/-- `furchash_hphp_ext(key, len, nPart)`：`len` を `[0, key.size()]` に収め、`furc_hash` マクロが
`nPart` を `furc_maximum_pool_size()` で頭打ちにする（`uint64_t` で比べるので負の `nPart` も）。 -/
def furchashHphpExt (key : List UInt8) (len nPart : Int64) (hash : Nat → UInt64) : Nat :=
  let len := max (min len.toInt key.length) 0
  let m := if nPart.toUInt64.toNat > furcMaximumPoolSize then furcMaximumPoolSize
    else nPart.toUInt64.toNat
  furcHashInternal (key.take len.toNat) m hash

end Hhvm.Ext
