import Hhvm.Vm.HhbcCodec

/-!
# opcode と IVA の往復

`encode_op` と `decode_op_unchecked`、`emitIVA` と `decode_iva` は互いに逆で、読む側は書いた
byte をちょうど読み切る。その長さは `encoded_op_size` と `encoded_iva_size`（先頭の byte）が
返す値に等しい。

IVA の 4 byte 形は、下位 7 bit に継続の bit `0x80` を立て、7 bit 目より上を 1 bit 上へずらす。
読む側は先頭の byte の下位 7 bit と、語の 8 bit 目より上を 1 bit 下へずらしたものを合わせる。
mask と shift を `toNat` の割り算と余りに直して確かめる。
-/

namespace Hhvm.Vm

open Infra.Bytes

/-! ## opcode -/

/-- **opcode の往復。** `0x1fe` より小さい番号は、書いた byte をちょうど読んで戻る。 -/
theorem decodeOpUnchecked_encodeOp {op : Op} (h : op.toNat < 0x1fe) (rest : List UInt8) :
    decodeOpUnchecked.run (encodeOp op ++ rest) = some (op, rest) := by
  unfold encodeOp decodeOpUnchecked
  dsimp only
  split
  · next hge =>
    -- 合図の `0xff` の後に、`0xff` を引いた値
    have hb : (UInt8.ofNat (op.toNat - 0xff)).toNat = op.toNat - 0xff := by
      rw [UInt8.toNat_ofNat', Nat.mod_eq_of_lt (by omega)]
    have hop : (UInt8.ofNat (op.toNat - 0xff)).toUInt16 + 0xff = op := by
      apply UInt16.toNat.inj
      rw [UInt16.toNat_add, UInt8.toNat_toUInt16, hb]
      show (op.toNat - 0xff + 0xff) % 2 ^ 16 = op.toNat
      omega
    rw [List.cons_append, List.cons_append, run_bind_of_run (readByte_cons _ _),
      if_neg (not_not.mpr rfl), run_bind_of_run (readByte_cons _ _), hop]
    rfl
  · next hlt =>
    have hb : (UInt8.ofNat op.toNat).toNat = op.toNat := by
      rw [UInt8.toNat_ofNat', Nat.mod_eq_of_lt (by omega)]
    have hne : UInt8.ofNat op.toNat ≠ 0xff := by
      intro heq
      rw [heq] at hb
      exact hlt (by rw [← hb]; decide)
    have hop : (UInt8.ofNat op.toNat).toUInt16 = op := by
      apply UInt16.toNat.inj
      rw [UInt8.toNat_toUInt16, hb]
    rw [List.cons_append, List.nil_append, run_bind_of_run (readByte_cons _ _), if_pos hne, hop]
    rfl

theorem length_encodeOp (op : Op) : (encodeOp op).length = encodedOpSize op := by
  unfold encodeOp encodedOpSize
  dsimp only
  split <;> split <;> first | rfl | omega

/-! ## byte の符号 -/

/-- `int8_t(b) < 0` は最上位 bit が立っていることである。 -/
theorem toInt8_neg_iff (b : UInt8) : b.toInt8 < 0 ↔ 128 ≤ b.toNat := by
  rw [Int8.lt_iff_toInt_lt]
  simp [UInt8.toInt8, Int8.toInt, BitVec.toInt]
  have hb : ({ toUInt8 := b } : Int8).toBitVec.toNat = b.toNat := rfl
  omega

theorem encodedIvaSize_eq (b : UInt8) : encodedIvaSize b = if b.toNat < 128 then 1 else 4 := by
  unfold encodedIvaSize
  have h := toInt8_neg_iff b
  by_cases hb : b.toNat < 128
  · have hge : b.toInt8 ≥ 0 := Int8.not_lt.mp fun hn => absurd (h.mp hn) (by omega)
    rw [if_pos hge, if_pos hb]
  · have hlt : ¬b.toInt8 ≥ 0 := Int8.not_le.mpr (h.mpr (by omega))
    rw [if_neg hlt, if_neg hb]

/-! ## mask と shift -/

theorem toNat_and_0x7f (x : UInt32) : (x &&& 0x7f).toNat = x.toNat % 2 ^ 7 := by
  rw [UInt32.toNat_and, show (0x7f : UInt32).toNat = 2 ^ 7 - 1 from rfl,
    Nat.and_two_pow_sub_one_eq_mod]

theorem toNat_and_0x7fffff80 (x : UInt32) :
    (x &&& 0x7fffff80).toNat = x.toNat / 2 ^ 7 % 2 ^ 24 * 2 ^ 7 := by
  rw [UInt32.toNat_and, show (0x7fffff80 : UInt32).toNat = (2 ^ 24 - 1) <<< 7 from rfl,
    and_ones_shiftLeft, Nat.shiftLeft_eq, Nat.shiftRight_eq_div_pow]

theorem toNat_and_0xffffff00 (x : UInt32) :
    (x &&& 0xffffff00).toNat = x.toNat / 2 ^ 8 % 2 ^ 24 * 2 ^ 8 := by
  rw [UInt32.toNat_and, show (0xffffff00 : UInt32).toNat = (2 ^ 24 - 1) <<< 8 from rfl,
    and_ones_shiftLeft, Nat.shiftLeft_eq, Nat.shiftRight_eq_div_pow]

/-- 下位 `i` bit が空いている値に、`2 ^ i` 未満の値を `|||` で足す。 -/
theorem mul_or_eq_add {a b i : Nat} (hb : b < 2 ^ i) : a * 2 ^ i ||| b = a * 2 ^ i + b := by
  rw [← Nat.shiftLeft_eq]
  exact shiftLeft_or_eq_add hb a

/-! ## IVA -/

theorem and_0x7f_eq_iff (n : UInt32) : n &&& 0x7f = n ↔ n.toNat < 128 := by
  rw [← UInt32.toNat_inj, toNat_and_0x7f]
  constructor
  · intro h
    rw [← h]
    exact Nat.mod_lt _ (by decide)
  · exact Nat.mod_eq_of_lt

theorem emitIVA_of_lt {n : UInt32} (h : n.toNat < 128) : emitIVA n = [n.toUInt8] := by
  rw [emitIVA, if_pos ((and_0x7f_eq_iff n).mpr h)]
  rfl

theorem emitIVA_of_ge {n : UInt32} (h : 128 ≤ n.toNat) :
    emitIVA n = emitInt32 (((n &&& 0x7fffff80) <<< 1) ||| 0x80 ||| (n &&& 0x7f)) := by
  rw [emitIVA, if_neg (fun he => absurd ((and_0x7f_eq_iff n).mp he) (by omega))]

/-- 4 byte 形の語：7 bit 目より上を 1 bit ずらし、継続の bit と下位 7 bit を並べる。 -/
theorem toNat_ivaWord {n : UInt32} (h : n.toNat < 2 ^ 31) :
    (((n &&& 0x7fffff80) <<< 1) ||| 0x80 ||| (n &&& 0x7f)).toNat
      = n.toNat / 2 ^ 7 * 2 ^ 8 + 2 ^ 7 + n.toNat % 2 ^ 7 := by
  have hshift : ((n &&& 0x7fffff80) <<< 1).toNat = n.toNat / 2 ^ 7 * 2 ^ 8 := by
    rw [UInt32.toNat_shiftLeft, toNat_and_0x7fffff80, show (1 : UInt32).toNat % 32 = 1 from rfl,
      Nat.shiftLeft_eq]
    omega
  have hcont : n.toNat / 2 ^ 7 * 2 ^ 8 ||| 2 ^ 7 = n.toNat / 2 ^ 7 * 2 ^ 8 + 2 ^ 7 :=
    mul_or_eq_add (by decide)
  have hlow : n.toNat / 2 ^ 7 * 2 ^ 8 + 2 ^ 7 ||| n.toNat % 2 ^ 7
      = n.toNat / 2 ^ 7 * 2 ^ 8 + 2 ^ 7 + n.toNat % 2 ^ 7 := by
    rw [show n.toNat / 2 ^ 7 * 2 ^ 8 + 2 ^ 7 = (n.toNat / 2 ^ 7 * 2 + 1) * 2 ^ 7 by omega,
      mul_or_eq_add (Nat.mod_lt _ (by decide))]
  rw [UInt32.toNat_or, UInt32.toNat_or, hshift, toNat_and_0x7f,
    show (0x80 : UInt32).toNat = 2 ^ 7 from rfl, hcont, hlow]

/-- 4 byte 形を読み戻す：語の 8 bit 目より上を 1 bit 下げ、先頭の byte の下位 7 bit を足す。 -/
theorem toNat_ivaRead {large : UInt32} {small : UInt8} (hsmall : small.toNat = large.toNat % 2 ^ 8) :
    (((large &&& 0xffffff00) >>> 1) ||| (small.toUInt32 &&& 0x7f)).toNat
      = large.toNat / 2 ^ 8 * 2 ^ 7 + large.toNat % 2 ^ 7 := by
  have hl := large.toNat_lt
  have hhigh : ((large &&& 0xffffff00) >>> 1).toNat = large.toNat / 2 ^ 8 * 2 ^ 7 := by
    rw [UInt32.toNat_shiftRight, toNat_and_0xffffff00, show (1 : UInt32).toNat % 32 = 1 from rfl,
      Nat.shiftRight_eq_div_pow]
    omega
  have hlow : (small.toUInt32 &&& 0x7f).toNat = large.toNat % 2 ^ 7 := by
    rw [toNat_and_0x7f, UInt8.toNat_toUInt32, hsmall]
    omega
  rw [UInt32.toNat_or, hhigh, hlow, mul_or_eq_add (Nat.mod_lt _ (by decide))]

/-- **IVA の往復。** 31 bit に収まる値（`emitIVA` の `assertx`）は、書いた byte をちょうど読んで
戻る。 -/
theorem decodeIVA_emitIVA {n : UInt32} (h : n.toNat < 2 ^ 31) (rest : List UInt8) :
    decodeIVA.run (emitIVA n ++ rest) = some (n, rest) := by
  unfold decodeIVA
  by_cases hs : n.toNat < 128
  · -- 1 byte 形：先頭の byte は非負で、そのまま値になる
    have hb : n.toUInt8.toNat = n.toNat := by
      rw [UInt32.toNat_toUInt8]
      omega
    have hnn : ¬n.toUInt8.toInt8 < 0 := by
      rw [toInt8_neg_iff]
      omega
    have hval : n.toUInt8.toUInt32 = n := by
      apply UInt32.toNat.inj
      rw [UInt8.toNat_toUInt32, hb]
    rw [emitIVA_of_lt hs, List.singleton_append, run_bind_of_run (peekByte_cons _ _), if_neg hnn,
      run_bind_of_run (readByte_cons _ _), hval]
    rfl
  · -- 4 byte 形：先頭の byte は継続の bit が立っている
    set large := ((n &&& 0x7fffff80) <<< 1) ||| 0x80 ||| (n &&& 0x7f) with hlarge
    have hword := toNat_ivaWord h
    rw [← hlarge] at hword
    obtain ⟨tail, hE, -⟩ := bytesU32_eq_cons large
    have hsmall : large.toUInt8.toNat = large.toNat % 2 ^ 8 := UInt32.toNat_toUInt8 large
    have hneg : large.toUInt8.toInt8 < 0 := by
      rw [toInt8_neg_iff, hsmall, hword]
      omega
    have hval : ((large &&& 0xffffff00) >>> 1) ||| (large.toUInt8.toUInt32 &&& 0x7f) = n := by
      apply UInt32.toNat.inj
      rw [toNat_ivaRead hsmall, hword]
      omega
    have hread : readU32.run (large.toUInt8 :: (tail ++ rest)) = some (large, rest) := by
      rw [← List.cons_append, ← hE]
      exact readU32_bytesU32 large rest
    rw [emitIVA_of_ge (by omega), emitInt32, hE, List.cons_append,
      run_bind_of_run (peekByte_cons _ _), if_pos hneg, run_bind_of_run hread, hval]
    rfl

/-- IVA は 7 bit に収まれば 1 byte、そうでなければ 4 byte。 -/
theorem length_emitIVA (n : UInt32) : (emitIVA n).length = if n.toNat < 128 then 1 else 4 := by
  by_cases hs : n.toNat < 128
  · rw [emitIVA_of_lt hs, if_pos hs]
    rfl
  · rw [emitIVA_of_ge (by omega), if_neg hs, emitInt32, length_bytesU32]

/-- **`encoded_iva_size` は、書いた先頭の byte から IVA の長さを言い当てる。** -/
theorem encodedIvaSize_head {n : UInt32} (h : n.toNat < 2 ^ 31) (rest : List UInt8) :
    encodedIvaSize <$> (emitIVA n ++ rest).head? = some (emitIVA n).length := by
  rw [length_emitIVA]
  by_cases hs : n.toNat < 128
  · have hb : n.toUInt8.toNat = n.toNat := by
      rw [UInt32.toNat_toUInt8]
      omega
    rw [emitIVA_of_lt hs, List.singleton_append, List.head?_cons, Option.map_eq_map,
      Option.map_some, encodedIvaSize_eq, hb, if_pos hs]
  · set large := ((n &&& 0x7fffff80) <<< 1) ||| 0x80 ||| (n &&& 0x7f) with hlarge
    have hword := toNat_ivaWord h
    rw [← hlarge] at hword
    obtain ⟨tail, hE, -⟩ := bytesU32_eq_cons large
    have hsmall : large.toUInt8.toNat = large.toNat % 2 ^ 8 := UInt32.toNat_toUInt8 large
    rw [emitIVA_of_ge (by omega), emitInt32, hE, List.cons_append, List.head?_cons,
      Option.map_eq_map, Option.map_some, encodedIvaSize_eq, if_neg (by omega), if_neg hs]

end Hhvm.Vm
