import Hhvm.Infra.Interleaving
import Mathlib.Data.Fintype.Basic

/-!
# `LockFreeLazy<T>`

`hphp/util/lock-free-lazy.h`。値を初めて `get(f)` されたときに `f` で作る。状態の語
`m_state`（`Present`、`Updating`、`Empty`）を `compare_exchange_weak` で `Updating` に
した一つのスレッドだけが `f` を呼び、ほかのスレッドは `futex_wait` で待つ。`reset()` は
`Present` と `Empty` の役を入れ替えた同じ手順で値を壊す。

## 交互実行のモデル

スレッドは `m_state` への操作ごとに入れ替わる（`Infra.Interleaving`）。一歩は事象 `Event` の
一つで、どのスレッドの一歩かは事象が持つ。

* `load`、`store`、`compare_exchange_weak` はそれぞれ一歩。`compare_exchange_weak` は
  `m_state` が期待した値でも失敗してよい（`cas t false`）。
* `futex_wait(&m_state, Updating)` は、`m_state` がまだ `Updating` なら眠り、そうでなければ
  すぐ戻る。`m_state` は `uint32_t` の列挙なので、futex が比べる語の等しさは状態の等しさ。
* `futex_wake(&m_state, INT_MAX)` は眠っているスレッドを全員起こす（`wakeAll`）。
* `f()` の呼び出しは一歩で、値を返す（`m_storage` にそれが作られる）か例外を投げる。
  例外のときは `SCOPE_FAIL` が `Empty` を書き、全員を起こす。
* `reset()` は `get()` と重ならない：`get` を始めるのは `reset` の中にいるスレッドがいないとき、
  `reset` を始めるのは `get` の中にいるスレッドがいないときに限る。

幽霊の欄 `calls` と `produced` は、最後に値を壊してから `f` が正常に返った回数とその値を記す。
-/

namespace Hhvm.LockFreeLazy

open Infra.Interleaving

/-- `LockFreeLazy<T>::State`。 -/
inductive State where
  | Present
  | Updating
  | Empty
  deriving DecidableEq, Repr

/-- スレッドが `get` と `reset` のどこにいるか。 -/
inductive Pc where
  /-- どちらの中にもいない。 -/
  | idle
  /-- `get`：ループの頭の `m_state.load`。 -/
  | getLoad
  /-- `get`：`futex_wait(&m_state, Updating)` を呼ぶところ。 -/
  | getWait
  /-- `get`：futex の待ち行列で眠っている。 -/
  | getBlocked
  /-- `get`：`compare_exchange_weak(Empty, Updating)`。 -/
  | getCas
  /-- `get`：`f()` を呼び、値を `m_storage` に作る。 -/
  | getCall
  /-- `get`：`m_state.store(Present)`。 -/
  | getStore
  /-- `get`：`futex_wake(&m_state, INT_MAX)`。 -/
  | getWake
  /-- `get`：`m_storage` の値への参照を返す。 -/
  | getRet
  /-- `get` の `SCOPE_FAIL`：`m_state.store(Empty)`。 -/
  | getUndoStore
  /-- `get` の `SCOPE_FAIL`：`futex_wake(&m_state, INT_MAX)`、そして例外が抜ける。 -/
  | getUndoWake
  /-- `reset`：ループの頭の `m_state.load`。 -/
  | resetLoad
  /-- `reset`：`futex_wait(&m_state, Updating)` を呼ぶところ。 -/
  | resetWait
  /-- `reset`：futex の待ち行列で眠っている。 -/
  | resetBlocked
  /-- `reset`：`compare_exchange_weak(Present, Updating)`。 -/
  | resetCas
  /-- `reset`：`~T()`。 -/
  | resetDestroy
  /-- `reset`：`m_state.store(Empty)`。 -/
  | resetStore
  /-- `reset`：`futex_wake(&m_state, INT_MAX)`。 -/
  | resetWake
  deriving DecidableEq, Repr

namespace Pc

/-- `get` の中にいる。 -/
def inGet : Pc → Bool
  | getLoad | getWait | getBlocked | getCas | getCall | getStore | getWake | getRet
  | getUndoStore | getUndoWake => true
  | _ => false

/-- `reset` の中にいる。 -/
def inReset : Pc → Bool
  | resetLoad | resetWait | resetBlocked | resetCas | resetDestroy | resetStore | resetWake => true
  | _ => false

/-- futex の待ち行列にいる。 -/
def asleep : Pc → Bool
  | getBlocked | resetBlocked => true
  | _ => false

/-- 起こされたスレッドはループの頭に戻る。 -/
def resume : Pc → Pc
  | getBlocked => getLoad
  | resetBlocked => resetLoad
  | p => p

end Pc

/-- 共有の状態とスレッドの場所。 -/
structure Sys (τ T : Type) where
  /-- `m_state` -/
  state : State
  /-- `m_storage`：値が作られていれば `some`。 -/
  storage : Option T
  /-- スレッドの場所。 -/
  pc : τ → Pc
  /-- 幽霊：最後に値を壊してから `f` が正常に返った回数。 -/
  calls : Nat
  /-- 幽霊：そのとき `f` が返した値。 -/
  produced : Option T

/-- 一歩。どれもスレッド `t` の一歩。 -/
inductive Event (τ T : Type) where
  /-- `get(f)` を呼ぶ。 -/
  | callGet (t : τ)
  /-- `reset()` を呼ぶ。 -/
  | callReset (t : τ)
  /-- `m_state.load`。 -/
  | load (t : τ)
  /-- `futex_wait(&m_state, Updating)`。 -/
  | futexWait (t : τ)
  /-- `compare_exchange_weak`。`ok` は成功したか。 -/
  | cas (t : τ) (ok : Bool)
  /-- `f()` が `v` を返し、`m_storage` に値が作られる。 -/
  | fReturn (t : τ) (v : T)
  /-- `f()` が例外を投げる。 -/
  | fThrow (t : τ)
  /-- `~T()` -/
  | destroy (t : τ)
  /-- `m_state.store` -/
  | store (t : τ)
  /-- `futex_wake(&m_state, INT_MAX)` -/
  | futexWake (t : τ)
  /-- `get` が `m_storage` の値 `v` への参照を返す。 -/
  | ret (t : τ) (v : T)

namespace Sys

variable {τ T : Type} [DecidableEq τ]

/-- 始め：`Empty`、値は無く、どのスレッドも外にいる。 -/
def init : Sys τ T := ⟨.Empty, none, fun _ => .idle, 0, none⟩

/-- スレッド `t` を場所 `p` に移す。 -/
def setPc (s : Sys τ T) (t : τ) (p : Pc) : Sys τ T := { s with pc := Function.update s.pc t p }

/-- `futex_wake(&m_state, INT_MAX)` の後、スレッド `t` を場所 `p` に移す。 -/
def wake (s : Sys τ T) (t : τ) (p : Pc) : Sys τ T :=
  { s with pc := Function.update (wakeAll Pc.asleep Pc.resume s.pc) t p }

/-- 事象を起こせるか：スレッドがその操作の場所にいること。`compare_exchange_weak` が成功するのは
`m_state` が期待した値のとき。参照を返すときの値は `m_storage` にあるもの。 -/
def Enabled (s : Sys τ T) : Event τ T → Prop
  | .callGet t => s.pc t = .idle ∧ ∀ u, (s.pc u).inReset = false
  | .callReset t => s.pc t = .idle ∧ ∀ u, (s.pc u).inGet = false
  | .load t => s.pc t = .getLoad ∨ s.pc t = .resetLoad
  | .futexWait t => s.pc t = .getWait ∨ s.pc t = .resetWait
  | .cas t ok =>
    (s.pc t = .getCas ∧ (ok = true → s.state = .Empty)) ∨
      (s.pc t = .resetCas ∧ (ok = true → s.state = .Present))
  | .fReturn t _ => s.pc t = .getCall
  | .fThrow t => s.pc t = .getCall
  | .destroy t => s.pc t = .resetDestroy
  | .store t => s.pc t = .getStore ∨ s.pc t = .getUndoStore ∨ s.pc t = .resetStore
  | .futexWake t => s.pc t = .getWake ∨ s.pc t = .getUndoWake ∨ s.pc t = .resetWake
  | .ret t v => s.pc t = .getRet ∧ s.storage = some v

/-- 事象を起こした後の状態。 -/
def next (s : Sys τ T) : Event τ T → Sys τ T
  | .callGet t => s.setPc t .getLoad
  | .callReset t => s.setPc t .resetLoad
  | .load t =>
    match s.pc t, s.state with
    | .getLoad, .Present => s.setPc t .getRet
    | .getLoad, .Updating => s.setPc t .getWait
    | .getLoad, .Empty => s.setPc t .getCas
    | .resetLoad, .Empty => s.setPc t .idle
    | .resetLoad, .Updating => s.setPc t .resetWait
    | .resetLoad, .Present => s.setPc t .resetCas
    | _, _ => s
  | .futexWait t =>
    match s.pc t with
    | .getWait => s.setPc t (if s.state = .Updating then .getBlocked else .getLoad)
    | .resetWait => s.setPc t (if s.state = .Updating then .resetBlocked else .resetLoad)
    | _ => s
  | .cas t ok =>
    match s.pc t with
    | .getCas => if ok then { s.setPc t .getCall with state := .Updating } else s.setPc t .getLoad
    | .resetCas =>
      if ok then { s.setPc t .resetDestroy with state := .Updating } else s.setPc t .resetLoad
    | _ => s
  | .fReturn t v =>
    match s.pc t with
    | .getCall =>
      { s.setPc t .getStore with storage := some v, calls := s.calls + 1, produced := some v }
    | _ => s
  | .fThrow t =>
    match s.pc t with
    | .getCall => s.setPc t .getUndoStore
    | _ => s
  | .destroy t =>
    match s.pc t with
    | .resetDestroy => { s.setPc t .resetStore with storage := none, calls := 0, produced := none }
    | _ => s
  | .store t =>
    match s.pc t with
    | .getStore => { s.setPc t .getWake with state := .Present }
    | .getUndoStore => { s.setPc t .getUndoWake with state := .Empty }
    | .resetStore => { s.setPc t .resetWake with state := .Empty }
    | _ => s
  | .futexWake t =>
    match s.pc t with
    | .getWake => s.wake t .getRet
    | .getUndoWake => s.wake t .idle
    | .resetWake => s.wake t .idle
    | _ => s
  | .ret t _ =>
    match s.pc t with
    | .getRet => s.setPc t .idle
    | _ => s

/-- 事象を起こせるかは、スレッドが有限なら計算できる。 -/
instance [Fintype τ] [DecidableEq T] (s : Sys τ T) : (e : Event τ T) → Decidable (s.Enabled e)
  | .callGet t => inferInstanceAs (Decidable (s.pc t = .idle ∧ ∀ u, (s.pc u).inReset = false))
  | .callReset t => inferInstanceAs (Decidable (s.pc t = .idle ∧ ∀ u, (s.pc u).inGet = false))
  | .load t => inferInstanceAs (Decidable (s.pc t = .getLoad ∨ s.pc t = .resetLoad))
  | .futexWait t => inferInstanceAs (Decidable (s.pc t = .getWait ∨ s.pc t = .resetWait))
  | .cas t ok => inferInstanceAs (Decidable ((s.pc t = .getCas ∧ (ok = true → s.state = .Empty)) ∨
      (s.pc t = .resetCas ∧ (ok = true → s.state = .Present))))
  | .fReturn t _ | .fThrow t => inferInstanceAs (Decidable (s.pc t = .getCall))
  | .destroy t => inferInstanceAs (Decidable (s.pc t = .resetDestroy))
  | .store t => inferInstanceAs
      (Decidable (s.pc t = .getStore ∨ s.pc t = .getUndoStore ∨ s.pc t = .resetStore))
  | .futexWake t => inferInstanceAs
      (Decidable (s.pc t = .getWake ∨ s.pc t = .getUndoWake ∨ s.pc t = .resetWake))
  | .ret t v => inferInstanceAs (Decidable (s.pc t = .getRet ∧ s.storage = some v))

/-- `LockFreeLazy<T>` を使うスレッドの交互実行。 -/
def system : System (Sys τ T) (Event τ T) := ⟨init, Enabled, next⟩

instance [Fintype τ] [DecidableEq T] (s : Sys τ T) (e : Event τ T) :
    Decidable ((system : System (Sys τ T) (Event τ T)).Enabled s e) :=
  inferInstanceAs (Decidable (s.Enabled e))

end Sys

end Hhvm.LockFreeLazy
