import Mathlib
import Hhvm.Vm.Properties.Immediates

/-!
# 命令の長さ

`immSize` は immediate の長さを、書き手とも読み手とも別の三つ目のやり方で計算する。
固定長の型は `immSizeTable`、IVA を含む型は先頭の byte から `encoded_iva_size`、`LAR`・`ITA`・
`FCA` は読み手を走らせた `pc - immPC`、可変長の列は個数の IVA と要素の大きさから。

`ImmFits t v` は、型 `t` の immediate として値 `v` が書けること（書き手の `assertx`）。
型が合った値の列を書いた命令では、`instrLen` は書いた byte の数を返す。`RATA` の長さは
`encodedRATSize`（引数 `ratSize`）に任せ、それが `encodeRAT` の書いた長さを返すことを仮定する。
-/

namespace Hhvm.Vm

open Infra.Bytes

variable {Str : Type} (ratSize : List UInt8 → Option Nat)

/-- 読み手が書いた列をちょうど読み切るなら、`pc - immPC` はその長さである。 -/
theorem consumed_of_run {α : Type} {r : Reader α} {l rest : List UInt8} {a : α}
    (h : r.run (l ++ rest) = some (a, rest)) : consumed r (l ++ rest) = some l.length := by
  unfold consumed
  rw [h, List.length_append]
  simp

/-- 同じ長さの塊を並べた列の長さ。 -/
theorem length_flatten_map {α : Type} {f : α → List UInt8} {k : Nat} (hf : ∀ x, (f x).length = k)
    (l : List α) : (l.map f).flatten.length = k * l.length := by
  induction l with
  | nil => rfl
  | cons x xs ih =>
    rw [List.map_cons, List.flatten_cons, List.length_append, ih, hf, List.length_cons,
      Nat.mul_succ, Nat.add_comm]

/-- 書いた IVA の先頭の byte から、`encoded_iva_size` はその長さを言い当てる（`Option` の bind の形）。 -/
theorem ivaSize_head {n : UInt32} (h : n.toNat < 2 ^ 31) (rest : List UInt8) :
    ∃ b, (emitIVA n ++ rest).head? = some b ∧ encodedIvaSize b = (emitIVA n).length := by
  have hsize := encodedIvaSize_head h rest
  cases hb : (emitIVA n ++ rest).head? with
  | none => rw [hb] at hsize; cases hsize
  | some b =>
    rw [hb] at hsize
    exact ⟨b, rfl, Option.some.inj hsize⟩

/-- 名前つきの局所変数の二つの IVA：先頭の byte から名前の長さ、その長さだけ進んだ byte から
番号の長さが分かり、和は書いた長さである。 -/
theorem namedLocal_heads {loc : NamedLocal} (h : loc.Encodable) (rest : List UInt8) :
    ∃ b1 b2, (emitNamedLocal loc ++ rest).head? = some b1 ∧
      ((emitNamedLocal loc ++ rest).drop (encodedIvaSize b1)).head? = some b2 ∧
      encodedIvaSize b1 + encodedIvaSize b2 = (emitNamedLocal loc).length := by
  obtain ⟨hlo, hhi, hid⟩ := h
  have hname := (toUInt32_add_one_lt_iff loc.name).mpr ⟨hlo, hhi⟩
  have hid' := (toUInt32_lt_iff loc.id).mpr hid
  obtain ⟨b1, hb1, hs1⟩ := ivaSize_head hname (emitIVA loc.id.toUInt32 ++ rest)
  obtain ⟨b2, hb2, hs2⟩ := ivaSize_head hid' rest
  unfold emitNamedLocal
  refine ⟨b1, b2, ?_, ?_, ?_⟩
  · rw [List.append_assoc, hb1]
  · rw [List.append_assoc, hs1, List.drop_left' rfl, hb2]
  · rw [hs1, hs2, List.length_append]

/-- 可変長の列の長さ：個数の IVA を読み、要素の大きさ `k` を掛けて足す。 -/
theorem vecSize {α : Type} {f : α → List UInt8} {k : Nat} (hf : ∀ x, (f x).length = k)
    {items : List α} (h : items.length < 2 ^ 31) (rest : List UInt8) :
    (do
      let (size, r) ← decodeIVA.run
        (emitIVA (UInt32.ofNat items.length) ++ ((items.map f).flatten ++ rest))
      pure ((emitIVA (UInt32.ofNat items.length) ++ ((items.map f).flatten ++ rest)).length -
        r.length + k * size.toNat) : Option Nat)
      = some (emitIVA (UInt32.ofNat items.length) ++ (items.map f).flatten).length := by
  have hlen : (UInt32.ofNat items.length).toNat = items.length :=
    UInt32.toNat_ofNat_of_lt' (Nat.lt_trans h (by decide))
  rw [decodeIVA_emitIVA (by rw [hlen]; exact h)]
  simp only [Option.bind_eq_bind, Option.bind_some, Option.pure_def, Option.some.injEq,
    List.length_append, length_flatten_map hf, hlen]
  omega

/-- 型が合った値を書いたとき、その immediate の長さ。 -/
inductive ImmFits : ArgType → ImmValue Str → Prop where
  | iva {t : ArgType} {n : UInt32} (ht : t = .IVA ∨ t = .LA ∨ t = .ILA ∨ t = .IA)
      (hn : n.toNat < 2 ^ 31) : ImmFits t (.iva n)
  | nla {loc : NamedLocal} (h : loc.Encodable) : ImmFits .NLA (.nla loc)
  | i64 (n : Int64) : ImmFits .I64A (.i64 n)
  | dbl (bits : UInt64) : ImmFits .DA (.dbl bits)
  | id {t : ArgType} (n : Int32) (ht : t = .SA ∨ t = .AA ∨ t = .BA) : ImmFits t (.id n)
  | oa (b : UInt8) : ImmFits .OA (.oa b)
  | rat {bytes : List UInt8} (h : ∀ rest, ratSize (bytes ++ rest) = some bytes.length) :
      ImmFits .RATA (.rat bytes)
  | ka {mk : MemberKey Str} (h : mk.Encodable) : ImmFits .KA (.ka mk)
  | lar {range : LocalRange} (h : range.Encodable) : ImmFits .LAR (.lar range)
  | ita {args : IterArgs} (h : args.Encodable) : ImmFits .ITA (.ita args)
  | fca {base : FCallArgsBase} {inoutArgs readonlyArgs : Option (List UInt8)}
      (asyncEagerOffset : Option Int32) (context : Option Str) (h : base.Encodable)
      (hio : ∀ l ∈ inoutArgs, l.length = (base.numArgs.toNat + 7) / 8)
      (hro : ∀ l ∈ readonlyArgs, l.length = (base.numArgs.toNat + 7) / 8) :
      ImmFits .FCA (.fca base inoutArgs readonlyArgs asyncEagerOffset context)
  | vec {t : ArgType} {items : List Int32} (ht : t = .BLA ∨ t = .VSA)
      (h : items.length < 2 ^ 31) : ImmFits t (.vec items)
  | svec {items : List (Int32 × Int32)} (h : items.length < 2 ^ 31) : ImmFits .SLA (.svec items)

/-- member key の長さ：member code と readonly op の 2 byte に、成分の長さを足す。 -/
theorem memberKeySize (u : LitstrTable Str) {mk : MemberKey Str} (h : mk.Encodable)
    (rest : List UInt8) :
    immSize ratSize .KA (encodeMemberKey u mk ++ rest) = some (encodeMemberKey u mk).length := by
  obtain ⟨mcode, rop, imm⟩ := mk
  unfold immSize encodeMemberKey
  simp only [emitByte, List.cons_append, List.nil_append, List.head?_cons, Option.bind_eq_bind,
    Option.bind_some, MemberCode.ofUInt8?_toUInt8, List.drop_succ_cons, List.drop_zero]
  -- member code の byte の後、code ごとの成分と readonly op の byte
  cases mcode with
  | MEC | MPC =>
    change Int32 at imm
    dsimp only
    obtain ⟨b, hb, hs⟩ := ivaSize_head ((toUInt32_lt_iff _).mpr h) ([rop.toUInt8] ++ rest)
    rw [List.append_assoc, hb]
    simp only [Option.bind_some, Option.pure_def, hs, Option.some.injEq, List.length_cons,
      List.length_append, List.length_nil]
    omega
  | MEL | MPL =>
    change NamedLocal at imm
    dsimp only
    obtain ⟨b1, b2, h1, h2, hsum⟩ := namedLocal_heads h ([rop.toUInt8] ++ rest)
    rw [List.append_assoc, h1]
    simp only [Option.bind_some]
    rw [Nat.add_comm 1, List.drop_succ_cons, h2]
    simp only [Option.bind_some, Option.pure_def, Option.some.injEq, List.length_cons,
      List.length_append, List.length_nil]
    omega
  | MEI =>
    change Int64 at imm
    rfl
  | MET | MPT | MQT =>
    change Str at imm
    rfl
  | MW => rfl

/-- **`immSize` は、型の合った値を書いた immediate の長さを返す。** -/
theorem immSize_encodeImm (u : LitstrTable Str) {t : ArgType} {v : ImmValue Str}
    (h : ImmFits ratSize t v) (rest : List UInt8) :
    immSize ratSize t (encodeImm u v ++ rest) = some (encodeImm u v).length := by
  cases h with
  | iva ht hn =>
    rcases ht with rfl | rfl | rfl | rfl <;> exact encodedIvaSize_head hn rest
  | @nla loc h =>
    obtain ⟨b1, b2, h1, h2, hsum⟩ := namedLocal_heads h rest
    unfold encodeImm immSize
    dsimp only
    simp only [h1, Option.bind_eq_bind, Option.bind_some, h2, Option.pure_def, hsum]
  | i64 n => rfl
  | dbl bits => rfl
  | id n ht => rcases ht with rfl | rfl | rfl <;> rfl
  | oa b => rfl
  | rat h => exact h rest
  | ka h => exact memberKeySize ratSize u h rest
  | @lar range h =>
    have hrun : (do let _ ← decodeIVA; let _ ← decodeIVA; pure () : Reader Unit).run
        (encodeLocalRange range ++ rest) = some ((), rest) := by
      unfold encodeLocalRange
      rw [List.append_assoc, run_bind_of_run (decodeIVA_emitIVA h.1 _),
        run_bind_of_run (decodeIVA_emitIVA h.2 _), run_pure]
    exact consumed_of_run hrun
  | ita h => exact consumed_of_run (decodeIterArgs_encodeIterArgs h rest)
  | @fca base inoutArgs readonlyArgs asyncEagerOffset context h hio hro =>
    -- `immSize` は `StringDecoder` なしで読むので、context は番号として読み飛ばされる
    have henc : encodeImm u (.fca base inoutArgs readonlyArgs asyncEagerOffset context)
        = encodeFCallArgs base inoutArgs readonlyArgs
            ((fun o => emitInt32 o.toUInt32) <$> asyncEagerOffset)
            ((fun id => emitInt32 id.toUInt32) <$> (u.merge <$> context)) := by
      cases context <;> rfl
    rw [henc]
    exact consumed_of_run (decodeFCallArgs_encodeFCallArgs (none : Option (LitstrTable Unit)) h
      hio hro asyncEagerOffset _ rest)
  | @vec t items ht h =>
    -- `BLA` の `Offset` も `VSA` の `Id` も 4 byte
    unfold encodeImm
    dsimp only
    rw [List.append_assoc]
    rcases ht with rfl | rfl <;>
    · unfold immSize
      exact vecSize (fun _ => length_bytesU32 _) h rest
  | svec h =>
    -- `StrVecItem` は文字列の番号と offset の 8 byte
    unfold encodeImm
    dsimp only
    rw [List.append_assoc]
    unfold immSize
    exact vecSize (fun _ => by rw [List.length_append, emitInt32, emitInt32, length_bytesU32,
      length_bytesU32]) h rest

/-- **型の合った値の列を書くと、`immsLen` はその長さを返す。** immediate ごとに、`immSize` が
返した長さだけ進むと次の immediate の先頭に着く。 -/
theorem immsLen_encode (u : LitstrTable Str) {types : List ArgType} {imms : List (ImmValue Str)}
    (h : List.Forall₂ (ImmFits ratSize) types imms) (rest : List UInt8) :
    immsLen ratSize types ((imms.map (encodeImm u)).flatten ++ rest)
      = some (imms.map (encodeImm u)).flatten.length := by
  induction h with
  | nil => rfl
  | @cons t v ts vs hfit _ ih =>
    rw [List.map_cons, List.flatten_cons, List.append_assoc]
    unfold immsLen
    rw [immSize_encodeImm ratSize u hfit]
    simp only [Option.bind_eq_bind, Option.bind_some, List.drop_left', ih, Option.pure_def,
      List.length_append]

/-- **命令の長さ。** opcode と型の合った immediate を書いた命令では、`instrLen` は書いた byte の
数を返す。 -/
theorem instrLen_encodeInstr (immTypes : Op → List ArgType) (u : LitstrTable Str) {op : Op}
    (hop : op.toNat < 0x1fe) {imms : List (ImmValue Str)}
    (h : List.Forall₂ (ImmFits ratSize) (immTypes op) imms) (rest : List UInt8) :
    instrLen ratSize immTypes (encodeInstr u op imms ++ rest)
      = some (encodeInstr u op imms).length := by
  unfold instrLen encodeInstr
  rw [List.append_assoc, decodeOpUnchecked_encodeOp hop]
  simp only [Option.bind_eq_bind, Option.bind_some, immsLen_encode ratSize u h rest,
    Option.pure_def, Option.some.injEq, List.length_append]
  omega

/-! ## 符号化の全体 -/

/-- **bytecode の符号化は、書き手の条件のもとで自己区切りかつ可逆である。** opcode、IVA、
名前つきの局所変数、member key（`MW` なら readonly op が `Any` のもの）、局所変数の範囲、
iterator の引数、FCall の引数は、書いた byte をちょうど読み切って書いた値を返す。
`encoded_op_size`・`encoded_iva_size`・`instrLen` は書いた長さを返す。 -/
theorem bytecode_encoding_roundtrip :
    (∀ op : Op, op.toNat < 0x1fe → ∀ rest,
      decodeOpUnchecked.run (encodeOp op ++ rest) = some (op, rest) ∧
        (encodeOp op).length = encodedOpSize op) ∧
    (∀ n : UInt32, n.toNat < 2 ^ 31 → ∀ rest,
      decodeIVA.run (emitIVA n ++ rest) = some (n, rest) ∧
        encodedIvaSize <$> (emitIVA n ++ rest).head? = some (emitIVA n).length ∧
        (emitIVA n).length = if n.toNat < 128 then 1 else 4) ∧
    (∀ loc : NamedLocal, loc.Encodable → ∀ rest,
      decodeNamedLocal.run (emitNamedLocal loc ++ rest) = some (loc, rest)) ∧
    (∀ (Str : Type) (u : LitstrTable Str) (mk : MemberKey Str), mk.Encodable →
      (mk.mcode = .MW → mk.rop = .Any) → ∀ rest,
      (decodeMemberKey u).run (encodeMemberKey u mk ++ rest) = some (mk, rest)) ∧
    (∀ range : LocalRange, range.Encodable → ∀ rest,
      decodeLocalRange.run (encodeLocalRange range ++ rest) = some (range, rest)) ∧
    (∀ args : IterArgs, args.Encodable → ∀ rest,
      decodeIterArgs.run (encodeIterArgs args ++ rest) = some (args, rest)) ∧
    (∀ (Str : Type) (u : LitstrTable Str) (fca : FCallArgsBase), fca.Encodable →
      ∀ inoutArgs readonlyArgs : Option (List UInt8),
      (∀ l ∈ inoutArgs, l.length = (fca.numArgs.toNat + 7) / 8) →
      (∀ l ∈ readonlyArgs, l.length = (fca.numArgs.toNat + 7) / 8) →
      ∀ (asyncEagerOffset : Option Int32) (context : Option Str) rest,
      (decodeFCallArgs (some u)).run (encodeFCallArgs fca inoutArgs readonlyArgs
          ((fun o => emitInt32 o.toUInt32) <$> asyncEagerOffset)
          ((fun s => emitInt32 (u.merge s).toUInt32) <$> context) ++ rest)
        = some (⟨fca, asyncEagerOffset.getD kInvalidOffset, inoutArgs, readonlyArgs, context⟩,
            rest)) ∧
    (∀ (ratSize : List UInt8 → Option Nat) (immTypes : Op → List ArgType) (Str : Type)
      (u : LitstrTable Str) (op : Op), op.toNat < 0x1fe → ∀ imms : List (ImmValue Str),
      List.Forall₂ (ImmFits ratSize) (immTypes op) imms → ∀ rest,
      instrLen ratSize immTypes (encodeInstr u op imms ++ rest)
        = some (encodeInstr u op imms).length) :=
  ⟨fun op hop rest => ⟨decodeOpUnchecked_encodeOp hop rest, length_encodeOp op⟩,
    fun n hn rest => ⟨decodeIVA_emitIVA hn rest, encodedIvaSize_head hn rest, length_emitIVA n⟩,
    fun _ h rest => decodeNamedLocal_emitNamedLocal h rest,
    fun _ u _ h hmw rest => decodeMemberKey_encodeMemberKey_of u h hmw rest,
    fun _ h rest => decodeLocalRange_encodeLocalRange h rest,
    fun _ h rest => decodeIterArgs_encodeIterArgs h rest,
    fun _ u _ h _ _ hio hro asyncEagerOffset context rest =>
      decodeFCallArgs_encodeFCallArgs_litstr u h hio hro asyncEagerOffset context rest,
    fun ratSize immTypes _ u _ hop _ h rest => instrLen_encodeInstr ratSize immTypes u hop h rest⟩

/-- 文字列の番号をそのまま文字列とみなす単位の文字列表。 -/
def idLitstr : LitstrTable Int32 := ⟨id, id, fun _ => rfl⟩

/-- 書き手の条件を満たす値で：2 byte の opcode `0x1fd`、4 byte の IVA `300`、名前の無い（`-1`）局所変数、
局所変数の member key、範囲、key の無い iterator、inout の bool と async eager offset と context を持つ
FCall、そして三つの immediate を持つ命令。どれも書いた byte をちょうど読み切り、後ろの `7` を残す。 -/
theorem bytecode_encoding_roundtrip_samples :
    decodeOpUnchecked.run (encodeOp 0x1fd ++ [7]) = some (0x1fd, [7]) ∧
    decodeIVA.run (emitIVA 300 ++ [7]) = some (300, [7]) ∧
    decodeNamedLocal.run (emitNamedLocal ⟨-1, 5⟩ ++ [7]) = some (⟨-1, 5⟩, [7]) ∧
    (decodeMemberKey idLitstr).run
        (encodeMemberKey idLitstr ⟨.MEL, .Readonly, (⟨3, 4⟩ : NamedLocal)⟩ ++ [7]) =
      some (⟨.MEL, .Readonly, (⟨3, 4⟩ : NamedLocal)⟩, [7]) ∧
    decodeLocalRange.run (encodeLocalRange ⟨2, 200⟩ ++ [7]) = some (⟨2, 200⟩, [7]) ∧
    decodeIterArgs.run (encodeIterArgs ⟨1, kNoKey, 2, 0⟩ ++ [7]) = some (⟨1, kNoKey, 2, 0⟩, [7]) ∧
    (decodeFCallArgs (some idLitstr)).run
        (encodeFCallArgs ⟨0, 3, 1, by decide⟩ (some [5]) none (some (emitInt32 (100 : Int32).toUInt32))
          (some (emitInt32 (idLitstr.merge 42).toUInt32)) ++ [7]) =
      some (⟨⟨0, 3, 1, by decide⟩, 100, some [5], none, some 42⟩, [7]) ∧
    instrLen (fun _ => none) (fun _ => [.IVA, .KA, .ITA])
        (encodeInstr idLitstr 0x1fd
          [.iva 300, .ka ⟨.MEL, .Readonly, (⟨3, 4⟩ : NamedLocal)⟩, .ita ⟨1, kNoKey, 2, 0⟩] ++ [7]) =
      some (encodeInstr idLitstr 0x1fd
          [.iva 300, .ka ⟨.MEL, .Readonly, (⟨3, 4⟩ : NamedLocal)⟩, .ita ⟨1, kNoKey, 2, 0⟩]).length := by
  obtain ⟨hop, hiva, hnl, hmk, hlr, hit, hfca, hlen⟩ := bytecode_encoding_roundtrip
  have hkey : (⟨.MEL, .Readonly, (⟨3, 4⟩ : NamedLocal)⟩ : MemberKey Int32).Encodable := by
    show NamedLocal.Encodable _
    decide
  refine ⟨(hop 0x1fd (by decide) [7]).1, (hiva 300 (by decide) [7]).1, hnl _ (by decide) [7],
    hmk Int32 idLitstr _ hkey (by decide) [7], hlr _ (by decide) [7], hit _ (by decide) [7],
    hfca Int32 idLitstr _ (by decide) (some [5]) none (by simp) (by simp) (some 100) (some 42) [7],
    hlen (fun _ => none) (fun _ => [.IVA, .KA, .ITA]) Int32 idLitstr 0x1fd (by decide) _ ?_ [7]⟩
  exact .cons (.iva (Or.inl rfl) (by decide)) (.cons (.ka hkey) (.cons (.ita (by decide)) .nil))

/-- 書き手の条件を外れると、読み戻した値が書いた値と違う。
* `numArgs = 2 ^ 20`（`numArgs < 2 ^ 31` の範囲内）：`uint32_t` の `(numArgs + 1) << 12` が
  `1 << 12` に桁あふれして 16 bit に収まると判定され、flags に 1 が入る。`numArgs = 0` が戻る。
* `MW` の key は readonly op を書かないので、`Readonly` が `Any` になる。
* `keyId = INT32_MAX`（非負）：`keyId - kNoKey` が `INT32_MIN` に桁あふれし、IVA の 31 bit を
  超える（`emitIVA` の `assertx`）。key は `kNoKey` として戻る。
* `numRets = 2 ^ 31`：IVA の 31 bit を超え、`numRets = 0` が戻る。 -/
theorem bytecode_encoding_loses_fields :
    (decodeFCallArgs (none : Option (LitstrTable Unit))).run
        (encodeFCallArgs ⟨0, 2 ^ 20, 1, by decide⟩ none none none none)
      = some (⟨⟨0, 0, 1, by decide⟩, kInvalidOffset, none, none, none⟩, []) ∧
    (∀ (Str : Type) (u : LitstrTable Str),
      (decodeMemberKey u).run (encodeMemberKey u ⟨.MW, .Readonly, ()⟩)
        = some (⟨.MW, .Any, ()⟩, [])) ∧
    decodeIterArgs.run (encodeIterArgs ⟨0, 0x7fffffff, 1, 0⟩) = some (⟨0, kNoKey, 1, 0⟩, []) ∧
    (decodeFCallArgs (none : Option (LitstrTable Unit))).run
        (encodeFCallArgs ⟨0, 0, 2 ^ 31, by decide⟩ none none none none)
      = some (⟨⟨0, 0, 0, by decide⟩, kInvalidOffset, none, none, none⟩, []) :=
  ⟨rfl, fun _ _ => rfl, by decide, rfl⟩

end Hhvm.Vm
