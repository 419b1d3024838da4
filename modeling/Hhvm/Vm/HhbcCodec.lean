import Hhvm.Infra.Bytes

/-!
# bytecode の符号化

`hhbc-codec.h`・`hhbc-codec.cpp`（読み書き）、`func-emitter-inl.h`（`emitIVA`、
`emitNamedLocal`）、`hhbc.cpp`（`encoded_iva_size`、`immSize`、`instrLen`）を写す。

* 書く側（`FuncEmitter` の `emit*`）は、書いた byte の列を返す。
* 読む側は `Reader`：`PC` の先の列を状態に持ち、読んだ分だけ進める。`decode_raw` は
  `memcpy` なので、多 byte の値は little-endian で読み書きする。列の外を読むと `none`。
* `assertx` は写さない。その条件（`emitIVA` の 31 bit など）は定理の仮定に現れる。
* 整数は C++ の型どおり `UInt8`・`UInt16`・`UInt32`・`Int32`・`Int64` で持ち、符号つきの値を
  `emitIVA` や `emitInt32` に渡すところは bit の並びをそのまま `UInt32` に移す。
-/

namespace Hhvm.Vm

open Infra.Bytes

/-! ## opcode -/

/-- `enum class Op : uint16_t`。番号だけを持つ。`static_assert(Op_count <= 0x1fe)` により、どの
opcode も `0x1fe` より小さい。 -/
abbrev Op := UInt16

/-- `encode_op`：`0xff` 以上なら合図の `0xff` を書き、`0xff` を引いた値を書く。 -/
def encodeOp (op : Op) : List UInt8 :=
  let rawVal := op.toNat
  if rawVal ≥ 0xff then [0xff, UInt8.ofNat (rawVal - 0xff)]
  else [UInt8.ofNat rawVal]

/-- `decode_op_unchecked`。 -/
def decodeOpUnchecked : Reader Op := do
  let raw ← readByte
  if raw ≠ 0xff then pure raw.toUInt16
  else
    let b ← readByte
    pure (b.toUInt16 + 0xff)

/-- `encoded_op_size`。 -/
def encodedOpSize (op : Op) : Nat := if op.toNat < 0xff then 1 else 2

/-! ## `FuncEmitter` の書き込み -/

def emitByte (n : UInt8) : List UInt8 := [n]

def emitInt16 (n : UInt16) : List UInt8 := bytesU16 n

/-- `emitInt32(int)`：bit の並びで受ける。 -/
def emitInt32 (n : UInt32) : List UInt8 := bytesU32 n

def emitInt64 (n : Int64) : List UInt8 := bytesU64 n.toUInt64

/-- `decode_raw<int32_t>`（`Id`、`Offset`）。 -/
def readI32 : Reader Int32 := UInt32.toInt32 <$> readU32

/-- `decode_raw<int64_t>`。 -/
def readI64 : Reader Int64 := UInt64.toInt64 <$> readU64

/-! ## IVA -/

/-- `FuncEmitter::emitIVA`：7 bit に収まれば 1 byte。そうでなければ下位 7 bit に継続の bit
`0x80` を立て、残りの bit を 1 bit 上にずらした 4 byte。 -/
def emitIVA (n : UInt32) : List UInt8 :=
  if n &&& 0x7f = n then emitByte n.toUInt8
  else emitInt32 (((n &&& 0x7fffff80) <<< 1) ||| 0x80 ||| (n &&& 0x7f))

/-- `decode_iva`：先頭の byte が `int8_t` として負なら 4 byte を読み、継続の bit を除いて戻す。 -/
def decodeIVA : Reader UInt32 := do
  let small ← peekByte
  if small.toInt8 < 0 then
    let large ← readU32
    pure (((large &&& 0xffffff00) >>> 1) ||| (small.toUInt32 &&& 0x7f))
  else
    let _ ← readByte
    pure small.toUInt32

/-- `encoded_iva_size(lowByte)`：最上位 bit が立っていれば 4 byte。 -/
def encodedIvaSize (lowByte : UInt8) : Nat := if lowByte.toInt8 ≥ 0 then 1 else 4

/-! ## 名前つきの局所変数 -/

/-- `NamedLocal`：`LocalName name`（`kInvalidLocalName = -1`）と `int32_t id`。 -/
structure NamedLocal where
  name : Int32
  id : Int32
deriving DecidableEq, Repr

/-- `FuncEmitter::emitNamedLocal`：名前は 1 足して書く（`-1` が 1 byte の `0` になる）。 -/
def emitNamedLocal (loc : NamedLocal) : List UInt8 :=
  emitIVA (loc.name + 1).toUInt32 ++ emitIVA loc.id.toUInt32

/-- `decode_named_local`。 -/
def decodeNamedLocal : Reader NamedLocal := do
  let lname ← decodeIVA
  let id ← decodeIVA
  pure ⟨(lname - 1).toInt32, id.toInt32⟩

/-! ## member key -/

/-- `enum MemberCode : uint8_t`。 -/
inductive MemberCode where
  | MEC | MPC | MEL | MPL | MET | MPT | MQT | MEI | MW
deriving DecidableEq, Repr

namespace MemberCode

def toUInt8 : MemberCode → UInt8
  | MEC => 0 | MPC => 1 | MEL => 2 | MPL => 3 | MET => 4 | MPT => 5 | MQT => 6 | MEI => 7
  | MW => 8

/-- `static_cast<MemberCode>`。番号に無い byte は `none`（`decode_member_key` の `not_reached`）。 -/
def ofUInt8? (b : UInt8) : Option MemberCode :=
  match b.toNat with
  | 0 => some MEC | 1 => some MPC | 2 => some MEL | 3 => some MPL | 4 => some MET
  | 5 => some MPT | 6 => some MQT | 7 => some MEI | 8 => some MW
  | _ => none

/-- `MemberKey` の共用体のうち、その member code が使う成分の型。 -/
def Imm (Str : Type) : MemberCode → Type
  | MEC | MPC => Int32
  | MEL | MPL => NamedLocal
  | MET | MPT | MQT => Str
  | MEI => Int64
  | MW => Unit

end MemberCode

/-- `enum class ReadonlyOp : uint8_t`。 -/
inductive ReadonlyOp where
  | Any | Readonly | Mutable | CheckROCOW | CheckMutROCOW
deriving DecidableEq, Repr

namespace ReadonlyOp

def toUInt8 : ReadonlyOp → UInt8
  | Any => 0 | Readonly => 1 | Mutable => 2 | CheckROCOW => 3 | CheckMutROCOW => 4

/-- `decode_oa<ReadonlyOp>`：番号に無い byte は `none`。 -/
def ofUInt8? (b : UInt8) : Option ReadonlyOp :=
  match b.toNat with
  | 0 => some Any | 1 => some Readonly | 2 => some Mutable | 3 => some CheckROCOW
  | 4 => some CheckMutROCOW
  | _ => none

end ReadonlyOp

/-- `MemberKey`：member code、readonly op、共用体のうち member code が使う成分。
`MemberKey()` は `MW` に `ReadonlyOp::Any`。 -/
structure MemberKey (Str : Type) where
  mcode : MemberCode
  rop : ReadonlyOp
  imm : mcode.Imm Str

/-- 単位の文字列表：`UnitEmitter::mergeLitstr` が番号を振り、`lookupLitstr` がそれを引く。 -/
structure LitstrTable (Str : Type) where
  merge : Str → Int32
  lookup : Int32 → Str
  lookup_merge : ∀ s, lookup (merge s) = s

variable {Str : Type}

/-- 文字列の番号を読んで表で引く。 -/
def decodeLitstr (u : LitstrTable Str) : Reader Str := do
  let id ← readI32
  pure (u.lookup id)

/-- `decode_string`：番号を読み、表があれば引く（`StringDecoder` が null なら `nullptr`）。 -/
def decodeString : Option (LitstrTable Str) → Reader (Option Str)
  | none => do
    let _ ← readI32
    pure none
  | some u => some <$> decodeLitstr u

def decodeReadonlyOp : Reader ReadonlyOp := do
  let b ← readByte
  match ReadonlyOp.ofUInt8? b with
  | some rop => pure rop
  | none => failure

/-- `encode_member_key`：member code の byte、使う成分、readonly op の byte。`MW` は何も足さない。 -/
def encodeMemberKey (u : LitstrTable Str) (mk : MemberKey Str) : List UInt8 :=
  emitByte mk.mcode.toUInt8 ++
    match mk with
    | ⟨.MEC, rop, iva⟩ | ⟨.MPC, rop, iva⟩ =>
      emitIVA (Int32.toUInt32 iva) ++ emitByte rop.toUInt8
    | ⟨.MEL, rop, loc⟩ | ⟨.MPL, rop, loc⟩ => emitNamedLocal loc ++ emitByte rop.toUInt8
    | ⟨.MEI, rop, i⟩ => emitInt64 i ++ emitByte rop.toUInt8
    | ⟨.MET, rop, s⟩ | ⟨.MPT, rop, s⟩ | ⟨.MQT, rop, s⟩ =>
      emitInt32 (u.merge s).toUInt32 ++ emitByte rop.toUInt8
    | ⟨.MW, _, _⟩ => []

/-- `decode_member_key`。成分を読んでから readonly op を読む。`MW` は `MemberKey()`。 -/
def decodeMemberKey (u : LitstrTable Str) : Reader (MemberKey Str) := do
  let b ← readByte
  match MemberCode.ofUInt8? b with
  | some .MEC =>
    let iva ← decodeIVA
    let rop ← decodeReadonlyOp
    pure ⟨.MEC, rop, iva.toInt32⟩
  | some .MPC =>
    let iva ← decodeIVA
    let rop ← decodeReadonlyOp
    pure ⟨.MPC, rop, iva.toInt32⟩
  | some .MEL =>
    let loc ← decodeNamedLocal
    let rop ← decodeReadonlyOp
    pure ⟨.MEL, rop, loc⟩
  | some .MPL =>
    let loc ← decodeNamedLocal
    let rop ← decodeReadonlyOp
    pure ⟨.MPL, rop, loc⟩
  | some .MEI =>
    let i ← readI64
    let rop ← decodeReadonlyOp
    pure ⟨.MEI, rop, i⟩
  | some .MET =>
    let s ← decodeLitstr u
    let rop ← decodeReadonlyOp
    pure ⟨.MET, rop, s⟩
  | some .MPT =>
    let s ← decodeLitstr u
    let rop ← decodeReadonlyOp
    pure ⟨.MPT, rop, s⟩
  | some .MQT =>
    let s ← decodeLitstr u
    let rop ← decodeReadonlyOp
    pure ⟨.MQT, rop, s⟩
  | some .MW => pure ⟨.MW, .Any, ()⟩
  | none => failure

/-! ## 局所変数の範囲と iterator の引数 -/

/-- `LocalRange`。 -/
structure LocalRange where
  first : UInt32
  count : UInt32
deriving DecidableEq, Repr

def encodeLocalRange (range : LocalRange) : List UInt8 :=
  emitIVA range.first ++ emitIVA range.count

def decodeLocalRange : Reader LocalRange := do
  let first ← decodeIVA
  let restCount ← decodeIVA
  pure ⟨first, restCount⟩

/-- `IterArgs`。key の無い iterator は `keyId = kNoKey`。 -/
structure IterArgs where
  iterId : Int32
  keyId : Int32
  valId : Int32
  flags : UInt8
deriving DecidableEq, Repr

/-- `IterArgs::kNoKey`。 -/
def kNoKey : Int32 := -1

/-- `encodeIterArgs`：key は `kNoKey` を引いて（1 足して）書く。 -/
def encodeIterArgs (args : IterArgs) : List UInt8 :=
  emitByte args.flags ++ emitIVA args.iterId.toUInt32 ++ emitIVA (args.keyId - kNoKey).toUInt32 ++
    emitIVA args.valId.toUInt32

def decodeIterArgs : Reader IterArgs := do
  let flags ← readByte
  let iterId ← decodeIVA
  let keyId ← decodeIVA
  let valId ← decodeIVA
  pure ⟨iterId.toInt32, keyId.toInt32 + kNoKey, valId.toInt32, flags⟩

/-! ## FCall の引数 -/

namespace FCallArgsFlags

def ExplicitContext : UInt16 := (1 : UInt16) <<< 7
def HasInOut : UInt16 := (1 : UInt16) <<< 8
def EnforceInOut : UInt16 := (1 : UInt16) <<< 9
def EnforceReadonly : UInt16 := (1 : UInt16) <<< 10
def HasAsyncEagerOffset : UInt16 := (1 : UInt16) <<< 11

/-- `kInternalFlags`：`HasUnpack` から `EnforceReadonlyThis` までの 7 bit。 -/
def kInternalFlags : UInt16 := 0x7f

/-- `kFirstNumArgsBit`。 -/
def kFirstNumArgsBit : UInt32 := 12

/-- `numeric_limits<uint16_t>::max()`。 -/
def kLimit : UInt32 := 0xffff

end FCallArgsFlags

open FCallArgsFlags

/-- `FCallArgsBase`。構築子の `assertx(!(flags & ~kInternalFlags))` を field に持つ。 -/
structure FCallArgsBase where
  flags : UInt16
  numArgs : UInt32
  numRets : UInt32
  flags_internal : flags &&& ~~~kInternalFlags = 0

/-- `FCallArgs`。`inoutArgs` と `readonlyArgs` は bytecode の中の bool の列、
`asyncEagerOffset` は無ければ `kInvalidOffset`、`context` は無ければ null。 -/
structure FCallArgs (Str : Type) extends FCallArgsBase where
  asyncEagerOffset : Int32
  inoutArgs : Option (List UInt8)
  readonlyArgs : Option (List UInt8)
  context : Option Str

/-- `kInvalidOffset = numeric_limits<Offset>::max()`。 -/
def kInvalidOffset : Int32 := 0x7fffffff

/-- `encodeFCallArgsBase`。`(numArgs + 1) << kFirstNumArgsBit` が 16 bit に収まるなら
`numArgs + 1` を flags の上位 4 bit に入れ、そうでなければ IVA で書く。判定は `uint32_t` で
計算される。 -/
def encodeFCallArgsBase (fca : FCallArgsBase)
    (hasInoutArgs hasReadonlyArgs hasAsyncEagerOffset hasContext : Bool) : List UInt8 :=
  let smallNumArgs := ((fca.numArgs + 1) <<< kFirstNumArgsBit) ≤ kLimit
  let flags := fca.flags
  let flags := if smallNumArgs then flags ||| ((fca.numArgs + 1) <<< kFirstNumArgsBit).toUInt16
    else flags
  let flags := if fca.numRets ≠ 1 then flags ||| HasInOut else flags
  let flags := if hasInoutArgs then flags ||| EnforceInOut else flags
  let flags := if hasReadonlyArgs then flags ||| EnforceReadonly else flags
  let flags := if hasAsyncEagerOffset then flags ||| HasAsyncEagerOffset else flags
  let flags := if hasContext then flags ||| ExplicitContext else flags
  emitInt16 flags ++ (if smallNumArgs then [] else emitIVA fca.numArgs) ++
    (if fca.numRets ≠ 1 then emitIVA fca.numRets else [])

/-- `encodeFCallArgs`：呼び出し元が渡す四つの部分は、それぞれが書く byte の列（無ければ
`none`）として受ける。 -/
def encodeFCallArgs (fca : FCallArgsBase) (inoutArgs readonlyArgs asyncEagerOffset context :
    Option (List UInt8)) : List UInt8 :=
  encodeFCallArgsBase fca inoutArgs.isSome readonlyArgs.isSome asyncEagerOffset.isSome
      context.isSome ++
    inoutArgs.getD [] ++ readonlyArgs.getD [] ++ asyncEagerOffset.getD [] ++ context.getD []

/-- 内部の flags だけを残すと、構築子の条件を満たす。 -/
theorem and_kInternalFlags_internal (f : UInt16) :
    (f &&& kInternalFlags) &&& ~~~kInternalFlags = 0 := by
  rw [UInt16.and_assoc, UInt16.and_not_self, UInt16.and_zero]

/-- `decodeFCallArgs`。`StringDecoder` が null なら `ExplicitContext` を落とす（`immSize` の呼び方）。
`numArgs` は flags の上位 4 bit が 0 でなければそこから、0 なら IVA から読む。条件つきの段は
括弧で一つの項にして、続きが枝ごとに複製されないようにする。 -/
def decodeFCallArgs (u : Option (LitstrTable Str)) : Reader (FCallArgs Str) := do
  let rawFlags ← readU16
  let skipContext := rawFlags &&& ExplicitContext = 0
  let flags := if u.isNone then rawFlags &&& ~~~ExplicitContext else rawFlags
  let numArgs ← (if (flags >>> 12) ≠ 0 then pure ((flags >>> 12).toUInt32 - 1) else decodeIVA)
  let numRets ← (if flags &&& HasInOut ≠ 0 then decodeIVA else pure 1)
  let inoutArgs ← (if flags &&& EnforceInOut ≠ 0 then
      some <$> readBytes ((numArgs + 7) / 8).toNat
    else pure none)
  let readonlyArgs ← (if flags &&& EnforceReadonly ≠ 0 then
      some <$> readBytes ((numArgs + 7) / 8).toNat
    else pure none)
  let asyncEagerOffset ←
    (if flags &&& HasAsyncEagerOffset ≠ 0 then readI32 else pure kInvalidOffset)
  let context ← (if ¬skipContext then decodeString u else pure none)
  pure ⟨⟨flags &&& kInternalFlags, numArgs, numRets, and_kInternalFlags_internal flags⟩,
    asyncEagerOffset, inoutArgs, readonlyArgs, context⟩

/-! ## 命令の長さ -/

/-- `enum ArgType`。 -/
inductive ArgType where
  | NA | BLA | SLA | IVA | I64A | LA | NLA | ILA | IA | DA | SA | AA | RATA | BA | OA | KA | LAR
  | ITA | FCA | VSA
deriving DecidableEq, Repr

/-- `immSizeTable`：固定長の immediate の大きさ（`sizeof`）。ほかの型は `immSize` が先に扱うので、
表のその値は読まれない。 -/
def immSizeTable : ArgType → Nat
  | .NA => 8 | .I64A => 8 | .DA => 8 | .SA => 4 | .AA => 4 | .BA => 4 | .OA => 1
  | _ => 0

/-- 読んだ byte の数（`pc - immPC`）。 -/
def consumed {α : Type} (r : Reader α) (pc : List UInt8) : Option Nat :=
  (fun p => pc.length - p.2.length) <$> r.run pc

variable (ratSize : List UInt8 → Option Nat)

/-- `immSize(op, type, immPC)`。`RATA` の長さ（`encodedRATSize`）は引数 `ratSize` で受ける。 -/
def immSize : ArgType → List UInt8 → Option Nat
  | .IVA, pc | .LA, pc | .ILA, pc | .IA, pc => encodedIvaSize <$> pc.head?
  | .NLA, pc => do
    let nameSize := encodedIvaSize (← pc.head?)
    let locSize := encodedIvaSize (← (pc.drop nameSize).head?)
    pure (nameSize + locSize)
  | .KA, pc => do
    -- member code の 1 byte と readonly op の 1 byte
    match MemberCode.ofUInt8? (← pc.head?) with
    | some .MW => pure 1
    | some .MEC | some .MPC => pure (2 + encodedIvaSize (← (pc.drop 1).head?))
    | some .MEL | some .MPL =>
      let nameSize := encodedIvaSize (← (pc.drop 1).head?)
      let locSize := encodedIvaSize (← (pc.drop (1 + nameSize)).head?)
      pure (2 + nameSize + locSize)
    | some .MEI => pure (2 + 8)
    | some .MET | some .MPT | some .MQT => pure (2 + 4)
    | none => none
  | .RATA, pc => ratSize pc
  | .LAR, pc => consumed (do let _ ← decodeIVA; let _ ← decodeIVA; pure ()) pc
  | .ITA, pc => consumed decodeIterArgs pc
  | .FCA, pc => consumed (decodeFCallArgs (none : Option (LitstrTable Unit))) pc
  | .BLA, pc => do
    let (size, rest) ← decodeIVA.run pc
    pure (pc.length - rest.length + 4 * size.toNat)
  | .SLA, pc => do
    let (size, rest) ← decodeIVA.run pc
    pure (pc.length - rest.length + 8 * size.toNat)
  | .VSA, pc => do
    let (size, rest) ← decodeIVA.run pc
    pure (pc.length - rest.length + 4 * size.toNat)
  | type, _ => some (immSizeTable type)

/-- 命令の immediate を順に飛ばした長さの和。 -/
def immsLen : List ArgType → List UInt8 → Option Nat
  | [], _ => some 0
  | type :: types, pc => do
    let n ← immSize ratSize type pc
    let m ← immsLen types (pc.drop n)
    pure (n + m)

/-- `instrLen`：opcode を読み、その immediate の型（`immType`、引数 `immTypes`）を順に飛ばす。 -/
def instrLen (immTypes : Op → List ArgType) (pc : List UInt8) : Option Nat := do
  let (op, rest) ← decodeOpUnchecked.run pc
  let n ← immsLen ratSize (immTypes op) rest
  pure (pc.length - rest.length + n)

/-! ## 命令の書き込み

`hhbbc/emit.cpp` の `IMM_*` は、immediate の型ごとに決まった書き手を呼ぶ。その値と書き手。 -/

/-- immediate の値。 -/
inductive ImmValue (Str : Type) where
  /-- `IVA`・`LA`・`ILA`・`IA`：`emitIVA`。 -/
  | iva (n : UInt32)
  /-- `NLA`：`emitNamedLocal`。 -/
  | nla (loc : NamedLocal)
  /-- `I64A`：`emitInt64`。 -/
  | i64 (n : Int64)
  /-- `DA`：`emitDouble`（8 byte の bit の並び）。 -/
  | dbl (bits : UInt64)
  /-- `SA`・`AA`・`BA`：`emitInt32`（文字列・配列の番号、分岐の offset）。 -/
  | id (n : Int32)
  /-- `OA`：`emitByte`。 -/
  | oa (b : UInt8)
  /-- `RATA`：`encodeRAT` が書いた byte の列。 -/
  | rat (bytes : List UInt8)
  /-- `KA`：`encode_member_key`。 -/
  | ka (mk : MemberKey Str)
  /-- `LAR`：`encodeLocalRange`。 -/
  | lar (range : LocalRange)
  /-- `ITA`：`encodeIterArgs`。 -/
  | ita (args : IterArgs)
  /-- `FCA`：`encodeFCallArgs` と、呼び出し元が書く各部分。 -/
  | fca (base : FCallArgsBase) (inoutArgs readonlyArgs : Option (List UInt8))
      (asyncEagerOffset : Option Int32) (context : Option Str)
  /-- `BLA`・`VSA`：`emitIVA(size)` の後に 4 byte ずつ（`emit_switch`、`emit_vsa`）。 -/
  | vec (items : List Int32)
  /-- `SLA`：`emitIVA(size)` の後に文字列の番号と offset の組（`emit_sswitch`）。 -/
  | svec (items : List (Int32 × Int32))

/-- 値を書く。文字列は単位の文字列表に入れて番号を書く。 -/
def encodeImm (u : LitstrTable Str) : ImmValue Str → List UInt8
  | .iva n => emitIVA n
  | .nla loc => emitNamedLocal loc
  | .i64 n => emitInt64 n
  | .dbl bits => bytesU64 bits
  | .id n => emitInt32 n.toUInt32
  | .oa b => emitByte b
  | .rat bytes => bytes
  | .ka mk => encodeMemberKey u mk
  | .lar range => encodeLocalRange range
  | .ita args => encodeIterArgs args
  | .fca base inoutArgs readonlyArgs asyncEagerOffset context =>
    encodeFCallArgs base inoutArgs readonlyArgs
      ((fun o => emitInt32 o.toUInt32) <$> asyncEagerOffset)
      ((fun s => emitInt32 (u.merge s).toUInt32) <$> context)
  | .vec items => emitIVA (UInt32.ofNat items.length) ++
      (items.map fun n => emitInt32 n.toUInt32).flatten
  | .svec items => emitIVA (UInt32.ofNat items.length) ++
      (items.map fun p => emitInt32 p.1.toUInt32 ++ emitInt32 p.2.toUInt32).flatten

/-- 命令を書く：opcode の後に immediate を順に。 -/
def encodeInstr (u : LitstrTable Str) (op : Op) (imms : List (ImmValue Str)) : List UInt8 :=
  encodeOp op ++ (imms.map (encodeImm u)).flatten

end Hhvm.Vm
