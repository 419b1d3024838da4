import Hhvm.Vm.Properties.Iva

/-!
# immediate の往復

`decode_named_local`、`decode_member_key`、`decodeLocalRange`、`decodeIterArgs`、
`decodeFCallArgs` は、それぞれ対応する書き手が書いた byte をちょうど読み切り、書いた値を返す。

どの書き手も値を `emitIVA` に渡すので、その値は 31 bit に収まらなければならない
（`emitIVA` の `assertx`）。符号つきの値では、それは値が非負であること（`NamedLocal` の名前と
`IterArgs` の key は 1 足した値が非負であること）である。各節の `Encodable` がその条件を
まとめる。

`MW` の member key は readonly op を書かないので、読み戻すと `MemberKey()`、すなわち
`ReadonlyOp::Any` になる。
-/

namespace Hhvm.Vm

open Infra.Bytes

variable {Str : Type}

/-! ## 符号つきの 32 bit -/

/-- `int32_t` の値は、bit の並びの値から、最上位 bit が立っていれば `2 ^ 32` を引いたもの。 -/
theorem toInt_eq_toUInt32 (x : Int32) :
    x.toInt = if x.toUInt32.toNat < 2 ^ 31 then (x.toUInt32.toNat : Int)
      else (x.toUInt32.toNat : Int) - 2 ^ 32 := by
  rw [← Int32.toNat_toBitVec, ← Int32.toInt_toBitVec, BitVec.toInt_eq_toNat_cond]
  split <;> split <;> omega

/-- bit の並びが 31 bit に収まるのは、値が非負のときである。 -/
theorem toUInt32_lt_iff (x : Int32) : x.toUInt32.toNat < 2 ^ 31 ↔ 0 ≤ x.toInt := by
  have hx := x.toUInt32.toNat_lt
  rw [toInt_eq_toUInt32]
  split <;> omega

/-- 1 足した値の bit の並びが 31 bit に収まるのは、値が `-1` 以上 `2 ^ 31 - 1` 未満のとき。 -/
theorem toUInt32_add_one_lt_iff (x : Int32) :
    (x + 1).toUInt32.toNat < 2 ^ 31 ↔ -1 ≤ x.toInt ∧ x.toInt < 2 ^ 31 - 1 := by
  have hx := x.toUInt32.toNat_lt
  have hadd : (x + 1).toUInt32.toNat = (x.toUInt32.toNat + 1) % 2 ^ 32 := by
    rw [Int32.toUInt32_add, UInt32.toNat_add]
    rfl
  rw [hadd, toInt_eq_toUInt32]
  split <;> omega

/-- `decode_raw<int32_t>` は `emitInt32` が書いた bit の並びを読み戻す。 -/
theorem readI32_emitInt32 (x : Int32) (rest : List UInt8) :
    readI32.run (emitInt32 x.toUInt32 ++ rest) = some (x, rest) := by
  rw [readI32, emitInt32, run_map_of_run (readU32_bytesU32 _ rest), Int32.toInt32_toUInt32]

theorem readI64_emitInt64 (x : Int64) (rest : List UInt8) :
    readI64.run (emitInt64 x ++ rest) = some (x, rest) := by
  rw [readI64, emitInt64, run_map_of_run (readU64_bytesU64 _ rest), Int64.toInt64_toUInt64]

/-! ## 名前つきの局所変数 -/

/-- `emitNamedLocal` が書ける局所変数：名前は `kInvalidLocalName = -1` 以上で、1 足しても
`int32_t` で桁あふれしない。番号は非負。 -/
def NamedLocal.Encodable (loc : NamedLocal) : Prop :=
  -1 ≤ loc.name.toInt ∧ loc.name.toInt < 2 ^ 31 - 1 ∧ 0 ≤ loc.id.toInt

instance : DecidablePred NamedLocal.Encodable := fun _ =>
  inferInstanceAs (Decidable (_ ∧ _ ∧ _))

/-- **`decode_named_local` と `emitNamedLocal` の往復。** -/
theorem decodeNamedLocal_emitNamedLocal {loc : NamedLocal} (h : loc.Encodable)
    (rest : List UInt8) : decodeNamedLocal.run (emitNamedLocal loc ++ rest) = some (loc, rest) := by
  obtain ⟨hlo, hhi, hid⟩ := h
  have hname := (toUInt32_add_one_lt_iff loc.name).mpr ⟨hlo, hhi⟩
  have hid' := (toUInt32_lt_iff loc.id).mpr hid
  have hval : (⟨((loc.name + 1).toUInt32 - 1).toInt32, loc.id.toUInt32.toInt32⟩ : NamedLocal)
      = loc := by
    simp
  unfold decodeNamedLocal emitNamedLocal
  rw [List.append_assoc, run_bind_of_run (decodeIVA_emitIVA hname _),
    run_bind_of_run (decodeIVA_emitIVA hid' _), run_pure, hval]

/-! ## 局所変数の範囲と iterator の引数 -/

/-- `encodeLocalRange` が書ける範囲：先頭と個数が 31 bit に収まる。 -/
def LocalRange.Encodable (range : LocalRange) : Prop :=
  range.first.toNat < 2 ^ 31 ∧ range.count.toNat < 2 ^ 31

instance : DecidablePred LocalRange.Encodable := fun _ =>
  inferInstanceAs (Decidable (_ ∧ _))

/-- **`decodeLocalRange` と `encodeLocalRange` の往復。** -/
theorem decodeLocalRange_encodeLocalRange {range : LocalRange} (h : range.Encodable)
    (rest : List UInt8) :
    decodeLocalRange.run (encodeLocalRange range ++ rest) = some (range, rest) := by
  unfold decodeLocalRange encodeLocalRange
  rw [List.append_assoc, run_bind_of_run (decodeIVA_emitIVA h.1 _),
    run_bind_of_run (decodeIVA_emitIVA h.2 _), run_pure]

/-- `encodeIterArgs` が書ける引数：iterator と値の局所変数は非負、key は `kNoKey = -1` か
非負で、`kNoKey` を引いても `int32_t` で桁あふれしない。 -/
def IterArgs.Encodable (args : IterArgs) : Prop :=
  0 ≤ args.iterId.toInt ∧ -1 ≤ args.keyId.toInt ∧ args.keyId.toInt < 2 ^ 31 - 1 ∧
    0 ≤ args.valId.toInt

instance : DecidablePred IterArgs.Encodable := fun _ =>
  inferInstanceAs (Decidable (_ ∧ _ ∧ _ ∧ _))

theorem sub_kNoKey (x : Int32) : x - kNoKey = x + 1 := by
  unfold kNoKey
  simp

/-- **`decodeIterArgs` と `encodeIterArgs` の往復。** -/
theorem decodeIterArgs_encodeIterArgs {args : IterArgs} (h : args.Encodable)
    (rest : List UInt8) :
    decodeIterArgs.run (encodeIterArgs args ++ rest) = some (args, rest) := by
  obtain ⟨hiter, hklo, hkhi, hval⟩ := h
  have hkey : (args.keyId - kNoKey).toUInt32.toNat < 2 ^ 31 := by
    rw [sub_kNoKey]
    exact (toUInt32_add_one_lt_iff _).mpr ⟨hklo, hkhi⟩
  have hargs : (⟨args.iterId.toUInt32.toInt32, (args.keyId - kNoKey).toUInt32.toInt32 + kNoKey,
      args.valId.toUInt32.toInt32, args.flags⟩ : IterArgs) = args := by
    simp
  unfold decodeIterArgs encodeIterArgs
  rw [emitByte, List.append_assoc, List.append_assoc, List.append_assoc, List.singleton_append,
    run_bind_of_run (readByte_cons _ _),
    run_bind_of_run (decodeIVA_emitIVA ((toUInt32_lt_iff _).mpr hiter) _),
    run_bind_of_run (decodeIVA_emitIVA hkey _),
    run_bind_of_run (decodeIVA_emitIVA ((toUInt32_lt_iff _).mpr hval) _), run_pure, hargs]

/-! ## member key -/

@[simp] theorem MemberCode.ofUInt8?_toUInt8 (c : MemberCode) : MemberCode.ofUInt8? c.toUInt8 = some c := by
  cases c <;> rfl

@[simp] theorem ReadonlyOp.ofUInt8?_toUInt8 (rop : ReadonlyOp) :
    ReadonlyOp.ofUInt8? rop.toUInt8 = some rop := by
  cases rop <;> rfl

theorem decodeReadonlyOp_cons (rop : ReadonlyOp) (rest : List UInt8) :
    decodeReadonlyOp.run (rop.toUInt8 :: rest) = some (rop, rest) := by
  unfold decodeReadonlyOp
  rw [run_bind_of_run (readByte_cons _ _), ReadonlyOp.ofUInt8?_toUInt8]
  rfl

/-- 表に入れた文字列の番号を読むと、その文字列を引く。 -/
theorem decodeLitstr_emitInt32 (u : LitstrTable Str) (s : Str) (rest : List UInt8) :
    (decodeLitstr u).run (emitInt32 (u.merge s).toUInt32 ++ rest) = some (s, rest) := by
  unfold decodeLitstr
  rw [run_bind_of_run (readI32_emitInt32 _ rest), u.lookup_merge, run_pure]

/-- `encode_member_key` が書ける key：stack の番号は非負、局所変数は `emitNamedLocal` が書けるもの。 -/
def MemberKey.Encodable : MemberKey Str → Prop
  | ⟨.MEC, _, iva⟩ | ⟨.MPC, _, iva⟩ => 0 ≤ Int32.toInt iva
  | ⟨.MEL, _, loc⟩ | ⟨.MPL, _, loc⟩ => NamedLocal.Encodable loc
  | _ => True

/-- **`decode_member_key` と `encode_member_key` の往復。** 書いた byte をちょうど読み切る。
`MW` では readonly op を書かないので、戻るのは `MemberKey()` である。 -/
theorem decodeMemberKey_encodeMemberKey (u : LitstrTable Str) {mk : MemberKey Str}
    (h : mk.Encodable) (rest : List UInt8) :
    (decodeMemberKey u).run (encodeMemberKey u mk ++ rest)
      = some (if mk.mcode = .MW then ⟨.MW, .Any, ()⟩ else mk, rest) := by
  obtain ⟨mcode, rop, imm⟩ := mk
  unfold decodeMemberKey encodeMemberKey
  simp only [emitByte, List.cons_append, List.nil_append]
  rw [run_bind_of_run (readByte_cons _ _), MemberCode.ofUInt8?_toUInt8]
  -- member code ごとに、書いた成分を読み、続く readonly op の byte を読む
  cases mcode with
  | MEC | MPC =>
    change Int32 at imm
    dsimp only
    rw [List.append_assoc, List.cons_append,
      run_bind_of_run (decodeIVA_emitIVA ((toUInt32_lt_iff _).mpr h) _),
      run_bind_of_run (decodeReadonlyOp_cons _ _), run_pure, if_neg (by decide),
      Int32.toInt32_toUInt32, List.nil_append]
  | MEL | MPL =>
    change NamedLocal at imm
    dsimp only
    rw [List.append_assoc, List.cons_append,
      run_bind_of_run (decodeNamedLocal_emitNamedLocal h _),
      run_bind_of_run (decodeReadonlyOp_cons _ _), run_pure, if_neg (by decide), List.nil_append]
  | MEI =>
    change Int64 at imm
    dsimp only
    rw [List.append_assoc, List.cons_append, run_bind_of_run (readI64_emitInt64 _ _),
      run_bind_of_run (decodeReadonlyOp_cons _ _), run_pure, if_neg (by decide), List.nil_append]
  | MET | MPT | MQT =>
    change Str at imm
    dsimp only
    rw [List.append_assoc, List.cons_append, run_bind_of_run (decodeLitstr_emitInt32 u _ _),
      run_bind_of_run (decodeReadonlyOp_cons _ _), run_pure, if_neg (by decide), List.nil_append]
  | MW =>
    -- `MW` は成分も readonly op も書かず、読む側は `MemberKey()` を返す
    dsimp only
    rw [List.nil_append, run_pure, if_pos rfl]

/-- `MW` でない key、または readonly op が `Any` の `MW` の key は、書いたとおりに戻る。 -/
theorem decodeMemberKey_encodeMemberKey_of (u : LitstrTable Str) {mk : MemberKey Str}
    (h : mk.Encodable) (hmw : mk.mcode = .MW → mk.rop = .Any) (rest : List UInt8) :
    (decodeMemberKey u).run (encodeMemberKey u mk ++ rest) = some (mk, rest) := by
  rw [decodeMemberKey_encodeMemberKey u h]
  split
  · next hc =>
    obtain ⟨mcode, rop, imm⟩ := mk
    dsimp only at hc hmw
    subst hc
    change Unit at imm
    rw [hmw rfl]
  · rfl

/-! ## FCall の引数 -/

open FCallArgsFlags

/-- 構築子の条件 `!(flags & ~kInternalFlags)` から、内部の flags は下位 7 bit に収まる。 -/
theorem FCallArgsBase.toNat_flags_lt (fca : FCallArgsBase) : fca.flags.toNat < 2 ^ 7 := by
  have h := congrArg UInt16.toNat fca.flags_internal
  rw [UInt16.toNat_and, UInt16.toNat_not, UInt16.toNat_zero] at h
  change fca.flags.toNat &&& ((2 ^ 9 - 1) <<< 7) = 0 at h
  rw [and_ones_shiftLeft, Nat.shiftLeft_eq, Nat.shiftRight_eq_div_pow] at h
  have := fca.flags.toNat_lt
  omega

/-- `uint32_t` で計算する `(numArgs + 1) << kFirstNumArgsBit <= kLimit` は、`numArgs + 1` の
下位 20 bit が 16 未満であることである。それより上の bit は shift で落ちる。 -/
theorem smallNumArgs_iff (n : UInt32) :
    (n + 1) <<< kFirstNumArgsBit ≤ kLimit ↔ (n.toNat + 1) % 2 ^ 20 < 16 := by
  rw [UInt32.le_iff_toNat_le, UInt32.toNat_shiftLeft, UInt32.toNat_add]
  show ((n.toNat + 1) % 2 ^ 32) <<< 12 % 2 ^ 32 ≤ 65535 ↔ _
  rw [Nat.shiftLeft_eq]
  omega

/-- 16 bit に収まるとき、flags に入るのは `numArgs + 1` の下位 20 bit を 12 bit ずらしたもの。 -/
theorem toNat_numArgsBits {n : UInt32} (h : (n.toNat + 1) % 2 ^ 20 < 16) :
    ((n + 1) <<< kFirstNumArgsBit).toUInt16.toNat = 2 ^ 12 * ((n.toNat + 1) % 2 ^ 20) := by
  rw [UInt32.toNat_toUInt16, UInt32.toNat_shiftLeft, UInt32.toNat_add]
  show ((n.toNat + 1) % 2 ^ 32) <<< 12 % 2 ^ 32 % 2 ^ 16 = _
  rw [Nat.shiftLeft_eq]
  omega

/-- 空いている bit に flag を立てると、その重みが足される。 -/
theorem toNat_orFlag {x c : UInt16} {k v : Nat} (hx : x.toNat = v) (hc : c.toNat = 2 ^ k)
    (hv : v / 2 ^ k % 2 = 0) (p : Prop) [Decidable p] :
    (if p then x ||| c else x).toNat = v + 2 ^ k * (decide p).toNat := by
  by_cases hp : p
  · rw [if_pos hp, UInt16.toNat_or, hx, hc, or_two_pow_eq_add hv, decide_eq_true hp,
      Bool.toNat_true, Nat.mul_one]
  · rw [if_neg hp, hx, decide_eq_false hp, Bool.toNat_false, Nat.mul_zero, Nat.add_zero]

/-- **`encodeFCallArgsBase` が書く flags の語。** 内部の flags の 7 bit、`ExplicitContext` から
`HasAsyncEagerOffset` までの bit、そして 16 bit に収まると判定されたときは `numArgs + 1` の
下位 20 bit を 12 bit 目から。 -/
theorem encodeFCallArgsBase_eq (fca : FCallArgsBase)
    (hasInoutArgs hasReadonlyArgs hasAsyncEagerOffset hasContext : Bool) :
    ∃ F : UInt16, encodeFCallArgsBase fca hasInoutArgs hasReadonlyArgs hasAsyncEagerOffset
        hasContext = emitInt16 F ++
          (if (fca.numArgs + 1) <<< kFirstNumArgsBit ≤ kLimit then [] else emitIVA fca.numArgs) ++
          (if fca.numRets ≠ 1 then emitIVA fca.numRets else []) ∧
      F.toNat = fca.flags.toNat + 2 ^ 7 * hasContext.toNat +
        2 ^ 8 * (decide (fca.numRets ≠ 1)).toNat + 2 ^ 9 * hasInoutArgs.toNat +
        2 ^ 10 * hasReadonlyArgs.toNat + 2 ^ 11 * hasAsyncEagerOffset.toNat +
        2 ^ 12 * (if (fca.numArgs + 1) <<< kFirstNumArgsBit ≤ kLimit then
          (fca.numArgs.toNat + 1) % 2 ^ 20 else 0) := by
  refine ⟨_, rfl, ?_⟩
  have hf := fca.toNat_flags_lt
  -- `numArgs + 1` を上位 4 bit に入れる：内部の flags とは重ならない
  have h0 : (if (fca.numArgs + 1) <<< kFirstNumArgsBit ≤ kLimit then
        fca.flags ||| ((fca.numArgs + 1) <<< kFirstNumArgsBit).toUInt16 else fca.flags).toNat
      = fca.flags.toNat + 2 ^ 12 * (if (fca.numArgs + 1) <<< kFirstNumArgsBit ≤ kLimit then
          (fca.numArgs.toNat + 1) % 2 ^ 20 else 0) := by
    split
    · next hs =>
      rw [UInt16.toNat_or, toNat_numArgsBits ((smallNumArgs_iff _).mp hs), Nat.lor_comm,
        Nat.mul_comm, ← Nat.shiftLeft_eq, shiftLeft_or_eq_add (by omega), Nat.add_comm]
    · rw [Nat.mul_zero, Nat.add_zero]
  have hm : (if (fca.numArgs + 1) <<< kFirstNumArgsBit ≤ kLimit then
      (fca.numArgs.toNat + 1) % 2 ^ 20 else 0) < 16 := by
    split
    · next hs => exact (smallNumArgs_iff _).mp hs
    · decide
  have hr := Bool.toNat_le (decide (fca.numRets ≠ 1))
  have hi := Bool.toNat_le (decide (hasInoutArgs = true))
  have hro := Bool.toNat_le (decide (hasReadonlyArgs = true))
  have ha := Bool.toNat_le (decide (hasAsyncEagerOffset = true))
  -- 残りの flag を、source の順に一つずつ立てる
  have h1 := toNat_orFlag (c := HasInOut) (k := 8) h0 rfl (by omega) (fca.numRets ≠ 1)
  have h2 := toNat_orFlag (c := EnforceInOut) (k := 9) h1 rfl (by omega) (hasInoutArgs = true)
  have h3 := toNat_orFlag (c := EnforceReadonly) (k := 10) h2 rfl (by omega)
    (hasReadonlyArgs = true)
  have h4 := toNat_orFlag (c := HasAsyncEagerOffset) (k := 11) h3 rfl (by omega)
    (hasAsyncEagerOffset = true)
  have h5 := toNat_orFlag (c := ExplicitContext) (k := 7) h4 rfl (by omega) (hasContext = true)
  refine h5.trans ?_
  simp only [Bool.decide_eq_true]
  omega

/-- 語の各部分を取り出す：下位 7 bit、`2 ^ 7` から `2 ^ 11` の各 bit、12 bit 目から上。 -/
theorem flagsWord_fields {F f a b c d e m : Nat}
    (hF : F = f + 2 ^ 7 * a + 2 ^ 8 * b + 2 ^ 9 * c + 2 ^ 10 * d + 2 ^ 11 * e + 2 ^ 12 * m)
    (hf : f < 2 ^ 7) (ha : a ≤ 1) (hb : b ≤ 1) (hc : c ≤ 1) (hd : d ≤ 1) (he : e ≤ 1) :
    F % 2 ^ 7 = f ∧ F / 2 ^ 7 % 2 = a ∧ F / 2 ^ 8 % 2 = b ∧ F / 2 ^ 9 % 2 = c ∧
      F / 2 ^ 10 % 2 = d ∧ F / 2 ^ 11 % 2 = e ∧ F / 2 ^ 12 = m := by
  subst hF
  omega

/-- 一つの bit の flag を見る：`x & c` は、`c` の bit が `x` で立っているときだけ 0 でない。 -/
theorem and_flag_ne_zero_iff {x c : UInt16} {k : Nat} {b : Bool} (hc : c.toNat = 2 ^ k)
    (hb : x.toNat / 2 ^ k % 2 = b.toNat) : x &&& c ≠ 0 ↔ b = true := by
  rw [Ne, ← UInt16.toNat_inj, UInt16.toNat_and, hc, and_two_pow, hb, UInt16.toNat_zero,
    Nat.mul_eq_zero]
  cases b <;> simp

/-- `StringDecoder` が null のときに `ExplicitContext` を落としても、`numArgs` の 4 bit は変わらない。 -/
theorem clearContext_shiftRight (x : UInt16) : (x &&& ~~~ExplicitContext) >>> 12 = x >>> 12 := by
  apply UInt16.toNat.inj
  rw [UInt16.toNat_shiftRight, UInt16.toNat_shiftRight, UInt16.toNat_and, UInt16.toNat_not]
  show (x.toNat &&& 65407) >>> 12 = x.toNat >>> 12
  rw [Nat.shiftRight_and_distrib, show 65407 >>> 12 = 2 ^ 4 - 1 from rfl,
    Nat.and_two_pow_sub_one_eq_mod, Nat.shiftRight_eq_div_pow]
  have := x.toNat_lt
  omega

/-- `numArgs` を読む段：flags の上位 4 bit が 0 でなければそこから、0 なら IVA から。 -/
theorem readNumArgs {F : UInt16} {n : UInt32} (hn : n.toNat < 2 ^ 31) {small : Prop}
    [Decidable small] (h12 : F.toNat / 2 ^ 12 = if small then n.toNat + 1 else 0) (rest : List UInt8) :
    (if F >>> 12 ≠ 0 then pure ((F >>> 12).toUInt32 - 1) else decodeIVA).run
      ((if small then [] else emitIVA n) ++ rest) = some (n, rest) := by
  have hshift : (F >>> 12).toNat = if small then n.toNat + 1 else 0 := by
    rw [UInt16.toNat_shiftRight, ← h12, Nat.shiftRight_eq_div_pow]
    rfl
  apply run_ite_of_run
  · intro hne
    -- 上位 4 bit が 0 でないのは、16 bit に収まると判定されたとき
    have hs : small := by
      by_contra hs
      apply hne
      apply UInt16.toNat.inj
      rw [hshift, if_neg hs]
      rfl
    rw [if_pos hs] at hshift
    have hval : (F >>> 12).toUInt32 - 1 = n := by
      have hle : (1 : UInt32) ≤ (F >>> 12).toUInt32 := by
        rw [UInt32.le_iff_toNat_le, UInt16.toNat_toUInt32, hshift]
        exact Nat.le_add_left _ _
      apply UInt32.toNat.inj
      rw [UInt32.toNat_sub_of_le _ _ hle, UInt16.toNat_toUInt32, hshift]
      rfl
    rw [if_pos hs, List.nil_append, hval, run_pure]
  · intro heq
    have hs : ¬small := by
      intro hs
      rw [not_not] at heq
      have := congrArg UInt16.toNat heq
      rw [hshift, if_pos hs] at this
      exact Nat.succ_ne_zero _ this
    rw [if_neg hs]
    exact decodeIVA_emitIVA hn rest

/-- `numRets` を読む段：`HasInOut` が立っていれば IVA から、でなければ 1。 -/
theorem readNumRets {flags : UInt16} {r : UInt32} (hr : r.toNat < 2 ^ 31)
    (hflag : flags &&& HasInOut ≠ 0 ↔ r ≠ 1) (rest : List UInt8) :
    (if flags &&& HasInOut ≠ 0 then decodeIVA else pure 1).run
      ((if r ≠ 1 then emitIVA r else []) ++ rest) = some (r, rest) := by
  apply run_ite_of_run
  · intro hne
    rw [if_pos (hflag.mp hne)]
    exact decodeIVA_emitIVA hr rest
  · intro heq
    have hr1 : r = 1 := not_not.mp (mt hflag.mpr heq)
    rw [if_neg (not_not.mpr hr1), List.nil_append, hr1, run_pure]

/-- bool の列を読む段：flag が立っていれば、書かれた長さだけそのまま読む。 -/
theorem readBoolVec {flags c : UInt16} {len : Nat} {l? : Option (List UInt8)}
    (hflag : flags &&& c ≠ 0 ↔ l?.isSome = true) (hlen : ∀ l ∈ l?, l.length = len)
    (rest : List UInt8) :
    (if flags &&& c ≠ 0 then some <$> readBytes len else pure none).run (l?.getD [] ++ rest)
      = some (l?, rest) := by
  apply run_ite_of_run
  · intro hne
    obtain ⟨l, rfl⟩ := Option.isSome_iff_exists.mp (hflag.mp hne)
    exact run_map_of_run (readBytes_append (hlen l rfl) rest)
  · intro heq
    have hnone : l? = none := Option.not_isSome_iff_eq_none.mp (mt hflag.mpr heq)
    rw [hnone, Option.getD_none, List.nil_append, run_pure]

/-- async eager offset を読む段：無ければ `kInvalidOffset`。 -/
theorem readAsyncEagerOffset {flags : UInt16} {o? : Option Int32}
    (hflag : flags &&& HasAsyncEagerOffset ≠ 0 ↔ o?.isSome = true) (rest : List UInt8) :
    (if flags &&& HasAsyncEagerOffset ≠ 0 then readI32 else pure kInvalidOffset).run
      (((fun o => emitInt32 o.toUInt32) <$> o?).getD [] ++ rest) = some (o?.getD kInvalidOffset, rest) := by
  apply run_ite_of_run
  · intro hne
    obtain ⟨o, rfl⟩ := Option.isSome_iff_exists.mp (hflag.mp hne)
    exact readI32_emitInt32 o rest
  · intro heq
    have hnone : o? = none := Option.not_isSome_iff_eq_none.mp (mt hflag.mpr heq)
    rw [hnone]
    rfl

/-- context を読む段：`ExplicitContext` が生の flags で立っていれば番号を読み、表があれば引く。 -/
theorem readContext (u : Option (LitstrTable Str)) {raw : UInt16} {id? : Option Int32}
    (hflag : raw &&& ExplicitContext ≠ 0 ↔ id?.isSome = true) (rest : List UInt8) :
    (if ¬(raw &&& ExplicitContext = 0) then decodeString u else pure none).run
      (((fun id => emitInt32 id.toUInt32) <$> id?).getD [] ++ rest)
      = some (u.bind fun t => t.lookup <$> id?, rest) := by
  apply run_ite_of_run
  · intro hne
    obtain ⟨id, rfl⟩ := Option.isSome_iff_exists.mp (hflag.mp hne)
    cases u with
    | none => exact run_bind_of_run (readI32_emitInt32 id rest)
    | some t =>
      exact run_map_of_run (run_bind_of_run (readI32_emitInt32 id rest))
  · intro heq
    have hnone : id? = none := Option.not_isSome_iff_eq_none.mp (mt hflag.mpr (by simpa using heq))
    rw [hnone]
    cases u <;> rfl

/-- 二つの `FCallArgsBase` は、flags と二つの数が等しければ等しい。 -/
theorem FCallArgsBase.eq_of_fields {a b : FCallArgsBase} (hf : a.flags = b.flags)
    (hn : a.numArgs = b.numArgs) (hr : a.numRets = b.numRets) : a = b := by
  obtain ⟨_, _, _, _⟩ := a
  obtain ⟨_, _, _, _⟩ := b
  subst hf hn hr
  rfl

/-- `encodeFCallArgsBase` が正しく書ける `FCallArgsBase`：二つの数は 31 bit に収まり
（`emitIVA` の `assertx`）、`numArgs` は `uint32_t` の `(numArgs + 1) << 12` が桁あふれして
16 bit に収まって見える値ではない。 -/
def FCallArgsBase.Encodable (fca : FCallArgsBase) : Prop :=
  fca.numArgs.toNat < 2 ^ 31 ∧ ((fca.numArgs.toNat + 1) % 2 ^ 20 < 16 → fca.numArgs.toNat + 1 < 16) ∧
    fca.numRets.toNat < 2 ^ 31

instance : DecidablePred FCallArgsBase.Encodable := fun _ =>
  inferInstanceAs (Decidable (_ ∧ _ ∧ _))

/-- **`decodeFCallArgs` と `encodeFCallArgs` の往復。** 呼び出し元は、inout と readonly の
bool の列を `(numArgs + 7) / 8` byte、async eager offset と context の文字列の番号を
`emitInt32` で書く。読む側は書いた byte をちょうど読み切り、`FCallArgsBase` と各部分を返す。
`StringDecoder` が null なら context の番号は読み飛ばして null を返す。 -/
theorem decodeFCallArgs_encodeFCallArgs (u : Option (LitstrTable Str)) {fca : FCallArgsBase}
    (h : fca.Encodable) {inoutArgs readonlyArgs : Option (List UInt8)}
    (hio : ∀ l ∈ inoutArgs, l.length = (fca.numArgs.toNat + 7) / 8)
    (hro : ∀ l ∈ readonlyArgs, l.length = (fca.numArgs.toNat + 7) / 8)
    (asyncEagerOffset context : Option Int32) (rest : List UInt8) :
    (decodeFCallArgs u).run (encodeFCallArgs fca inoutArgs readonlyArgs
        ((fun o => emitInt32 o.toUInt32) <$> asyncEagerOffset)
        ((fun id => emitInt32 id.toUInt32) <$> context) ++ rest)
      = some (⟨fca, asyncEagerOffset.getD kInvalidOffset, inoutArgs, readonlyArgs,
          u.bind fun t => t.lookup <$> context⟩, rest) := by
  obtain ⟨hargs, hwrap, hrets⟩ := h
  obtain ⟨F, hE, hF⟩ := encodeFCallArgsBase_eq fca inoutArgs.isSome readonlyArgs.isSome
    ((fun o => emitInt32 o.toUInt32) <$> asyncEagerOffset).isSome
    ((fun id => emitInt32 id.toUInt32) <$> context).isSome
  simp only [Option.map_eq_map, Option.isSome_map] at hF
  -- flags の語の各部分
  obtain ⟨hlow, h7, h8, h9, h10, h11, h12⟩ := flagsWord_fields hF fca.toNat_flags_lt
    (Bool.toNat_le _) (Bool.toNat_le _) (Bool.toNat_le _) (Bool.toNat_le _) (Bool.toNat_le _)
  have hnum : F.toNat / 2 ^ 12 = if (fca.numArgs + 1) <<< kFirstNumArgsBit ≤ kLimit then
      fca.numArgs.toNat + 1 else 0 := by
    rw [h12]
    split
    · next hs =>
      have := hwrap ((smallNumArgs_iff _).mp hs)
      omega
    · rfl
  -- `StringDecoder` が null なら `ExplicitContext` を落とすが、ほかの bit はそのまま
  obtain ⟨flags, hfl, hsh, hand⟩ : ∃ flags, (if u.isNone = true then F &&& ~~~ExplicitContext
      else F) = flags ∧ flags >>> 12 = F >>> 12 ∧
      ∀ m, ~~~ExplicitContext &&& m = m → flags &&& m = F &&& m := by
    refine ⟨_, rfl, ?_, ?_⟩
    · split
      · exact clearContext_shiftRight F
      · rfl
    · intro m hm
      split
      · rw [UInt16.and_assoc, hm]
      · rfl
  have hlen : ((fca.numArgs + 7) / 8).toNat = (fca.numArgs.toNat + 7) / 8 := by
    rw [UInt32.toNat_div, UInt32.toNat_add]
    show (fca.numArgs.toNat + 7) % 2 ^ 32 / 8 = _
    omega
  have hbase : (⟨flags &&& kInternalFlags, fca.numArgs, fca.numRets,
      and_kInternalFlags_internal flags⟩ : FCallArgsBase) = fca := by
    refine FCallArgsBase.eq_of_fields ?_ rfl rfl
    show flags &&& kInternalFlags = fca.flags
    rw [hand _ (by decide)]
    apply UInt16.toNat.inj
    rw [UInt16.toNat_and, show kInternalFlags.toNat = 2 ^ 7 - 1 from rfl,
      Nat.and_two_pow_sub_one_eq_mod, hlow]
  -- 各部分の flag は、その部分を書いたときだけ立っている
  have hretsFlag : flags &&& HasInOut ≠ 0 ↔ fca.numRets ≠ 1 := by
    rw [hand _ (by decide)]
    exact (and_flag_ne_zero_iff rfl h8).trans decide_eq_true_iff
  have hioFlag : flags &&& EnforceInOut ≠ 0 ↔ inoutArgs.isSome = true := by
    rw [hand _ (by decide)]
    exact and_flag_ne_zero_iff rfl h9
  have hroFlag : flags &&& EnforceReadonly ≠ 0 ↔ readonlyArgs.isSome = true := by
    rw [hand _ (by decide)]
    exact and_flag_ne_zero_iff rfl h10
  have haeoFlag : flags &&& HasAsyncEagerOffset ≠ 0 ↔ asyncEagerOffset.isSome = true := by
    rw [hand _ (by decide)]
    exact and_flag_ne_zero_iff rfl h11
  -- 書いた順に一段ずつ読む
  unfold encodeFCallArgs decodeFCallArgs
  rw [hE]
  simp only [List.append_assoc]
  rw [emitInt16, run_bind_of_run (readU16_bytesU16 F _), hfl, hsh,
    run_bind_of_run (readNumArgs hargs hnum _), run_bind_of_run (readNumRets hrets hretsFlag _),
    hlen, run_bind_of_run (readBoolVec hioFlag hio _),
    run_bind_of_run (readBoolVec hroFlag hro _),
    run_bind_of_run (readAsyncEagerOffset haeoFlag _),
    run_bind_of_run (readContext u (and_flag_ne_zero_iff rfl h7) _), run_pure, hbase]

/-- 表を持つ読み手では、context の文字列も書いたとおりに戻る。 -/
theorem decodeFCallArgs_encodeFCallArgs_litstr (u : LitstrTable Str) {fca : FCallArgsBase}
    (h : fca.Encodable) {inoutArgs readonlyArgs : Option (List UInt8)}
    (hio : ∀ l ∈ inoutArgs, l.length = (fca.numArgs.toNat + 7) / 8)
    (hro : ∀ l ∈ readonlyArgs, l.length = (fca.numArgs.toNat + 7) / 8)
    (asyncEagerOffset : Option Int32) (context : Option Str) (rest : List UInt8) :
    (decodeFCallArgs (some u)).run (encodeFCallArgs fca inoutArgs readonlyArgs
        ((fun o => emitInt32 o.toUInt32) <$> asyncEagerOffset)
        ((fun s => emitInt32 (u.merge s).toUInt32) <$> context) ++ rest)
      = some (⟨fca, asyncEagerOffset.getD kInvalidOffset, inoutArgs, readonlyArgs, context⟩,
          rest) := by
  have hctx : (fun s => emitInt32 (u.merge s).toUInt32) <$> context
      = (fun id => emitInt32 id.toUInt32) <$> (u.merge <$> context) := by
    cases context <;> rfl
  have hlookup : ((some u).bind fun t => t.lookup <$> (u.merge <$> context)) = context := by
    cases context with
    | none => rfl
    | some s => exact congrArg some (u.lookup_merge s)
  rw [hctx, decodeFCallArgs_encodeFCallArgs (some u) h hio hro asyncEagerOffset _ rest, hlookup]

end Hhvm.Vm
