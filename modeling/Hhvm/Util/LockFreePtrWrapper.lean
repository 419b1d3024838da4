import Hhvm.Infra.Interleaving
import Mathlib.Data.Fintype.Basic

/-!
# `LockFreePtrWrapper<T>`

`hphp/util/lock-free-ptr-wrapper.h`。ポインタの語 `bits` の下位二 bit に書き手の錠を置く。
`kLockNoWaitersBit`（1）は「錠が取られていて待つスレッドはいない」、`kLockWithWaitersBit`（2）は
「錠が取られていて待つスレッドがいるかもしれない」。読み手は `bits` を読んで下位二 bit を落とす
だけで、錠を見ない（`unlocked()`）。

## 交互実行のモデル

スレッドは `bits` への操作ごとに入れ替わる（`Infra.Interleaving`）。

* `raw()`（`bits.load`）、`compare_exchange_weak`、`exchange` はそれぞれ一歩。
  `compare_exchange_weak` は期待した値でも失敗してよく（`cas t false`）、失敗すると `c` に
  その時の `bits` が入る。
* `futex_wait(&low_bits, c)` は `low_bits`（`bits` の下位 32 bit。little endian）がまだ `c` なら
  眠り、そうでなければすぐ戻る。
* `futex_wake(&low_bits, 1)` は眠っているスレッドを一つ起こす（`futexWake t u`：どれを起こすかは
  決まっていない）か、眠っているスレッドがいなければ何もしない（`futexWakeNone t`）。
* `unlock` と `update_and_unlock` を呼ぶのは錠を持っているスレッドだけ。`update_and_unlock(v)` の
  `v` は下位二 bit が空いている（`Holder` の `assertx`）。

`raw_type` は `uintptr_t`（`sizeof(T) == 8`）とする。幽霊の欄 `published` は初めの値と、
`exchange` を済ませた `update_and_unlock` の引数を順に記す。
-/

namespace Hhvm.LockFreePtrWrapper

open Infra.Interleaving

/-- `kPtrMask`：`static_cast<raw_type>(-4)`。 -/
def kPtrMask : UInt64 := 0xFFFFFFFFFFFFFFFC

/-- `kLockNoWaitersBit` -/
def kLockNoWaitersBit : UInt64 := 1

/-- `kLockWithWaitersBit` -/
def kLockWithWaitersBit : UInt64 := 2

/-- `notLocked()`：下位二 bit が空いている。 -/
def notLocked (bits : UInt64) : Bool := bits &&& ~~~kPtrMask == 0

/-- `lock_for_update` の `lockBit`：初めは `kLockNoWaitersBit`、`futex_wait` から戻った後は
`kLockWithWaitersBit`。`waited` は `futex_wait` から戻ったことがあるか。 -/
def lockBit (waited : Bool) : UInt64 := if waited then kLockWithWaitersBit else kLockNoWaitersBit

/-- スレッドがどこにいるか。 -/
inductive Pc where
  /-- どの操作の中にもいない。 -/
  | idle
  /-- `lock_for_update`：`auto c = raw() & kPtrMask;` -/
  | lockLoad (waited : Bool)
  /-- `lock_for_update`：`bits.compare_exchange_weak(c, c + lockBit)` -/
  | lockCas (waited : Bool) (c : UInt64)
  /-- `lock_for_update`：`bits.compare_exchange_weak(c, (c & kPtrMask) + kLockWithWaitersBit)` -/
  | lockMark (waited : Bool) (c : UInt64)
  /-- `lock_for_update`：`futex_wait(&low_bits, static_cast<uint32_t>(c))` -/
  | lockWait (c : UInt64)
  /-- `lock_for_update`：futex の待ち行列で眠っている。 -/
  | lockBlocked
  /-- 錠を持っている。 -/
  | held
  /-- `try_lock_for_update`：`auto c = raw() & kPtrMask;` -/
  | tryLoad
  /-- `try_lock_for_update`：`bits.compare_exchange_weak(c, c + kLockNoWaitersBit)` -/
  | tryCas (c : UInt64)
  /-- `unlock`：`raw() & kPtrMask` -/
  | unlockLoad
  /-- `unlock_helper(rep)`：`bits.exchange(rep)`。`update` は `update_and_unlock` から呼ばれたか。 -/
  | exchange (rep : UInt64) (update : Bool)
  /-- `unlock_helper`：`futex_wake(&low_bits, 1)`。`r` は返す値 `c & kPtrMask`。 -/
  | wake (r : UInt64)
  /-- `unlock_helper` が `r` を返す。 -/
  | ret (r : UInt64)
  deriving DecidableEq, Repr

namespace Pc

/-- `raw()` を読むところにいる。 -/
def isLoad : Pc → Bool
  | lockLoad _ | tryLoad | unlockLoad => true
  | _ => false

/-- `compare_exchange_weak` の期待する値。 -/
def expected : Pc → Option UInt64
  | lockCas _ c | lockMark _ c | tryCas c => some c
  | _ => none

/-- `futex_wait` を呼ぶところにいる。 -/
def isWait : Pc → Bool
  | lockWait _ => true
  | _ => false

/-- `bits.exchange` を呼ぶところにいる。 -/
def isExchange : Pc → Bool
  | exchange _ _ => true
  | _ => false

/-- `futex_wake` を呼ぶところにいる。 -/
def isWake : Pc → Bool
  | wake _ => true
  | _ => false

/-- `unlock_helper` から返るところにいる。 -/
def isRet : Pc → Bool
  | ret _ => true
  | _ => false

end Pc

/-- `bits` とスレッドの場所。 -/
structure Sys (τ : Type) where
  /-- `bits` -/
  bits : UInt64
  /-- スレッドの場所。 -/
  pc : τ → Pc
  /-- 幽霊：初めの値と、`exchange` を済ませた `update_and_unlock` の引数。 -/
  published : List UInt64

/-- 一歩。どれもスレッド `t` の一歩。 -/
inductive Event (τ : Type) where
  /-- `lock_for_update()` を呼ぶ。 -/
  | callLock (t : τ)
  /-- `try_lock_for_update()` を呼ぶ。 -/
  | callTryLock (t : τ)
  /-- `unlock()` を呼ぶ。 -/
  | callUnlock (t : τ)
  /-- `update_and_unlock(v)` を呼ぶ。 -/
  | callUpdate (t : τ) (v : UInt64)
  /-- `raw()`：`bits.load` -/
  | load (t : τ)
  /-- `compare_exchange_weak`。`ok` は成功したか。 -/
  | cas (t : τ) (ok : Bool)
  /-- `futex_wait(&low_bits, c)` -/
  | futexWait (t : τ)
  /-- `bits.exchange(rep)` -/
  | exchange (t : τ)
  /-- `futex_wake(&low_bits, 1)` が眠っているスレッド `u` を起こす。 -/
  | futexWake (t u : τ)
  /-- `futex_wake(&low_bits, 1)`：眠っているスレッドはいない。 -/
  | futexWakeNone (t : τ)
  /-- `unlock_helper` から返る。 -/
  | ret (t : τ)

/-- 事象を起こすスレッド。 -/
def Event.tid {τ : Type} : Event τ → τ
  | .callLock t | .callTryLock t | .callUnlock t | .callUpdate t _ | .load t | .cas t _
  | .futexWait t | .exchange t | .futexWake t _ | .futexWakeNone t | .ret t => t

namespace Sys

variable {τ : Type}

/-- `LockFreePtrWrapper(const T& v)`：`bits` は `v`。 -/
def init (v : UInt64) : Sys τ := ⟨v, fun _ => .idle, [v]⟩

/-- `low_bits`：`bits` と重なる `uint32_t`。little endian なので下位 32 bit。 -/
def lowBits (s : Sys τ) : UInt32 := s.bits.toUInt32

/-- `unlocked()`：`bits.load(std::memory_order_acquire) & kPtrMask` -/
def unlocked (s : Sys τ) : UInt64 := s.bits &&& kPtrMask

/-- `get()`：`unlocked()` の bit を `T` と読んだもの。 -/
def get (s : Sys τ) : UInt64 := s.unlocked

/-- `copy()`：`get()` の bit の写し。 -/
def copy (s : Sys τ) : UInt64 := s.get

variable [DecidableEq τ]

/-- スレッド `t` を場所 `p` に移す。 -/
def setPc (s : Sys τ) (t : τ) (p : Pc) : Sys τ := { s with pc := Function.update s.pc t p }

/-- `lock_for_update` の最初の `compare_exchange_weak` が失敗した後。`c` には見つけた値が入って
いる。`kLockNoWaitersBit` なら待つ印を付けに行き、`kLockWithWaitersBit` なら `futex_wait`、
どちらでもなければ（弱い失敗）ループの頭に戻る。 -/
def afterFailedCas (waited : Bool) (c : UInt64) : Pc :=
  if c &&& kLockNoWaitersBit ≠ 0 then .lockMark waited c
  else if c &&& kLockWithWaitersBit ≠ 0 then .lockWait c
  else .lockLoad waited

/-- 事象を起こせるか：スレッドがその操作の場所にいること。`compare_exchange_weak` が成功するのは
`bits` が期待した値のとき。`futex_wake` が起こすのは眠っているスレッド。 -/
def Enabled (s : Sys τ) : Event τ → Prop
  | .callLock t | .callTryLock t => s.pc t = .idle
  | .callUnlock t => s.pc t = .held
  | .callUpdate t v => s.pc t = .held ∧ notLocked v = true
  | .load t => (s.pc t).isLoad = true
  | .cas t ok => (s.pc t).expected.isSome = true ∧ (ok = true → (s.pc t).expected = some s.bits)
  | .futexWait t => (s.pc t).isWait = true
  | .exchange t => (s.pc t).isExchange = true
  | .futexWake t u => (s.pc t).isWake = true ∧ s.pc u = .lockBlocked
  | .futexWakeNone t => (s.pc t).isWake = true ∧ ∀ u, s.pc u ≠ .lockBlocked
  | .ret t => (s.pc t).isRet = true

/-- 事象を起こした後の状態。 -/
def next (s : Sys τ) : Event τ → Sys τ
  | .callLock t => s.setPc t (.lockLoad false)
  | .callTryLock t => s.setPc t .tryLoad
  | .callUnlock t => s.setPc t .unlockLoad
  | .callUpdate t v => s.setPc t (.exchange v true)
  | .load t =>
    match s.pc t with
    | .lockLoad w => s.setPc t (.lockCas w (s.bits &&& kPtrMask))
    | .tryLoad => s.setPc t (.tryCas (s.bits &&& kPtrMask))
    | .unlockLoad => s.setPc t (.exchange (s.bits &&& kPtrMask) false)
    | _ => s
  | .cas t ok =>
    match s.pc t with
    | .lockCas w c =>
      if ok then { s.setPc t .held with bits := c + lockBit w }
      else s.setPc t (afterFailedCas w s.bits)
    | .lockMark w c =>
      if ok then
        { s.setPc t (.lockWait ((c &&& kPtrMask) + kLockWithWaitersBit)) with
          bits := (c &&& kPtrMask) + kLockWithWaitersBit }
      else s.setPc t (.lockLoad w)
    | .tryCas c =>
      if ok then { s.setPc t .held with bits := c + kLockNoWaitersBit } else s.setPc t .idle
    | _ => s
  | .futexWait t =>
    match s.pc t with
    | .lockWait c => s.setPc t (if s.lowBits = c.toUInt32 then .lockBlocked else .lockLoad true)
    | _ => s
  | .exchange t =>
    match s.pc t with
    | .exchange rep upd =>
      { s.setPc t (if s.bits &&& kLockWithWaitersBit ≠ 0 then .wake (s.bits &&& kPtrMask)
          else .ret (s.bits &&& kPtrMask)) with
        bits := rep
        published := if upd then s.published ++ [rep] else s.published }
    | _ => s
  | .futexWake t u =>
    match s.pc t with
    | .wake r => (s.setPc u (.lockLoad true)).setPc t (.ret r)
    | _ => s
  | .futexWakeNone t =>
    match s.pc t with
    | .wake r => s.setPc t (.ret r)
    | _ => s
  | .ret t =>
    match s.pc t with
    | .ret _ => s.setPc t .idle
    | _ => s

/-- 事象を起こせるかは、スレッドが有限なら計算できる。 -/
instance [Fintype τ] (s : Sys τ) : (e : Event τ) → Decidable (s.Enabled e)
  | .callLock t | .callTryLock t => inferInstanceAs (Decidable (s.pc t = .idle))
  | .callUnlock t => inferInstanceAs (Decidable (s.pc t = .held))
  | .callUpdate t v => inferInstanceAs (Decidable (s.pc t = .held ∧ notLocked v = true))
  | .load t => inferInstanceAs (Decidable ((s.pc t).isLoad = true))
  | .cas t ok => inferInstanceAs (Decidable ((s.pc t).expected.isSome = true ∧
      (ok = true → (s.pc t).expected = some s.bits)))
  | .futexWait t => inferInstanceAs (Decidable ((s.pc t).isWait = true))
  | .exchange t => inferInstanceAs (Decidable ((s.pc t).isExchange = true))
  | .futexWake t u => inferInstanceAs (Decidable ((s.pc t).isWake = true ∧ s.pc u = .lockBlocked))
  | .futexWakeNone t =>
    inferInstanceAs (Decidable ((s.pc t).isWake = true ∧ ∀ u, s.pc u ≠ .lockBlocked))
  | .ret t => inferInstanceAs (Decidable ((s.pc t).isRet = true))

/-- 初めの値 `v` の `LockFreePtrWrapper<T>` を使うスレッドの交互実行。 -/
def system (v : UInt64) : System (Sys τ) (Event τ) := ⟨init v, Enabled, next⟩

instance [Fintype τ] (v : UInt64) (s : Sys τ) (e : Event τ) : Decidable ((system v).Enabled s e) :=
  inferInstanceAs (Decidable (s.Enabled e))

end Sys

end Hhvm.LockFreePtrWrapper
