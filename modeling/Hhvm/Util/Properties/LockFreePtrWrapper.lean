import Hhvm.Util.LockFreePtrWrapper
import Hhvm.Infra.Bytes
import Mathlib.Tactic.FinCases

/-!
# `LockFreePtrWrapper` の錠と読み手

どの交互実行でたどり着く状態でも成り立つ不変量 `Inv` を置き、事象ごとに保たれることを示す。

* `bits` の下位二 bit は 0、1、2 のどれかで、0 でないのは錠を持つ（`holds`：取ってから `exchange`
  で手放すまで）スレッドがいるときだけ。錠を持つスレッドは多くとも一つ。
* 読み手が見る値 `unlocked()` は、初めの値か、`exchange` を済ませた `update_and_unlock` の引数。
* 眠っているスレッドがいれば、`kLockWithWaitersBit` が立っているか、`futex_wake` を呼ぼうとしている
  スレッドがいるか、起きていて `kLockWithWaitersBit` で錠を取りに行くスレッドがいる（`WakeupDue`）。

`bits` の算術は `toNat` に移して `omega` で閉じる。`bits` を変える一歩（錠を取る、待つ印を付ける、
`exchange`）はそれぞれの補題で扱い、スレッドが場所を移るだけの一歩は `Inv.setPc` 一つで済む。
-/

namespace Hhvm.LockFreePtrWrapper

open Infra.Interleaving

/-! ## 語の bit -/

theorem ne_zero_iff_toNat (x : UInt64) : x ≠ 0 ↔ x.toNat ≠ 0 := by
  rw [Ne, Ne, ← UInt64.toNat_inj, UInt64.toNat_zero]

/-- `x & kPtrMask` は下位二 bit を落とす。 -/
theorem toNat_and_kPtrMask (x : UInt64) : (x &&& kPtrMask).toNat = x.toNat / 4 * 4 := by
  have hm : kPtrMask.toNat = (2 ^ 62 - 1) <<< 2 := rfl
  have hx := x.toNat_lt
  rw [UInt64.toNat_and, hm, Infra.Bytes.and_ones_shiftLeft, Nat.shiftLeft_eq,
    Nat.shiftRight_eq_div_pow, Nat.mod_eq_of_lt (by omega)]

theorem and_kLockNoWaitersBit_ne_zero (x : UInt64) :
    x &&& kLockNoWaitersBit ≠ 0 ↔ x.toNat % 2 = 1 := by
  rw [ne_zero_iff_toNat, UInt64.toNat_and, show kLockNoWaitersBit.toNat = 1 from rfl,
    Nat.and_one_is_mod]
  omega

theorem and_kLockWithWaitersBit_ne_zero (x : UInt64) :
    x &&& kLockWithWaitersBit ≠ 0 ↔ x.toNat / 2 % 2 = 1 := by
  rw [ne_zero_iff_toNat, UInt64.toNat_and, show kLockWithWaitersBit.toNat = 2 ^ 1 from rfl,
    Infra.Bytes.and_two_pow]
  omega

theorem notLocked_iff (x : UInt64) : notLocked x = true ↔ x.toNat % 4 = 0 := by
  have h3 : ~~~kPtrMask = 3 := by decide
  rw [notLocked, h3, beq_iff_eq, ← UInt64.toNat_inj, UInt64.toNat_and,
    show (3 : UInt64).toNat = 2 ^ 2 - 1 from rfl, Nat.and_two_pow_sub_one_eq_mod, UInt64.toNat_zero]

/-- 下位二 bit の空いた語に 4 未満を足しても桁は溢れない。 -/
theorem toNat_add_of_mod_four {c b : UInt64} (hc : c.toNat % 4 = 0) (hb : b.toNat < 4) :
    (c + b).toNat = c.toNat + b.toNat := by
  have := c.toNat_lt
  rw [UInt64.toNat_add, Nat.mod_eq_of_lt (by omega)]

theorem toNat_lockBit (w : Bool) : (lockBit w).toNat = if w then 2 else 1 := by
  cases w <;> rfl

/-- `low_bits` が等しければ、`kLockWithWaitersBit` も等しい。 -/
theorem bit_of_toUInt32_eq {a b : UInt64} (h : a.toUInt32 = b.toUInt32) :
    a.toNat / 2 % 2 = b.toNat / 2 % 2 := by
  have h' := congrArg UInt32.toNat h
  rw [UInt64.toNat_toUInt32, UInt64.toNat_toUInt32] at h'
  omega

/-! ## 場所の分類 -/

namespace Pc

/-- 錠を取ってから、それを `exchange` で手放すまで。 -/
def holds : Pc → Bool
  | held | unlockLoad | exchange _ _ => true
  | _ => false

/-- 起きていて、錠を取るなら `kLockWithWaitersBit` で取り、眠るならその bit が立っている間だけ
眠るスレッド：`futex_wait` から戻った後の `lock_for_update` のループと、`futex_wait` を呼ぶところ。 -/
def waiting : Pc → Bool
  | lockLoad true | lockCas true _ | lockMark true _ | lockWait _ => true
  | _ => false

/-- `lock_for_update` の中にいる。 -/
def inLock : Pc → Bool
  | lockLoad _ | lockCas _ _ | lockMark _ _ | lockWait _ | lockBlocked => true
  | _ => false

theorem isLoad_iff {p : Pc} :
    p.isLoad = true ↔ (∃ w, p = lockLoad w) ∨ p = tryLoad ∨ p = unlockLoad := by
  cases p <;> simp [isLoad]

theorem expected_isSome_iff {p : Pc} : p.expected.isSome = true ↔
    (∃ w c, p = lockCas w c) ∨ (∃ w c, p = lockMark w c) ∨ ∃ c, p = tryCas c := by
  cases p <;> simp [expected]

theorem isWait_iff {p : Pc} : p.isWait = true ↔ ∃ c, p = lockWait c := by
  cases p <;> simp [isWait]

theorem isExchange_iff {p : Pc} : p.isExchange = true ↔ ∃ rep upd, p = exchange rep upd := by
  cases p <;> simp [isExchange]

theorem isWake_iff {p : Pc} : p.isWake = true ↔ ∃ r, p = wake r := by
  cases p <;> simp [isWake]

theorem isRet_iff {p : Pc} : p.isRet = true ↔ ∃ r, p = ret r := by
  cases p <;> simp [isRet]

end Pc

namespace Sys

variable {τ : Type} {s : Sys τ} {t : τ}

/-! ## 不変量 -/

/-- 場所ごとに分かること。`compare_exchange_weak` の期待する値と `futex_wait` の値は、そこへ
来た道が決める。`unlock` の `exchange` が書く値は、その時の `unlocked()`。 -/
def AtPc (s : Sys τ) : Pc → Prop
  | .lockCas _ c | .tryCas c => c.toNat % 4 = 0
  | .lockMark _ c => c.toNat % 2 = 1
  | .lockWait c => c.toNat / 2 % 2 = 1
  | .exchange rep true => rep.toNat % 4 = 0
  | .exchange rep false => rep = s.unlocked
  | _ => True

/-- 眠っているスレッドを起こす当てがある：`kLockWithWaitersBit` が立っている（錠を持つスレッドが
手放すときに `futex_wake` を呼ぶ）か、`futex_wake` を呼ぼうとしているスレッドがいるか、起きて
待っているスレッドがいる。 -/
def WakeupDue (s : Sys τ) : Prop :=
  s.bits.toNat / 2 % 2 = 1 ∨ (∃ w, (s.pc w).isWake = true) ∨ ∃ w, (s.pc w).waiting = true

/-- 期待した値なのに失敗した `compare_exchange_weak`（弱い失敗）。 -/
def spurious (s : Sys τ) : Event τ → Bool
  | .cas t false => (s.pc t).expected == some s.bits
  | _ => false

/-- たどり着く状態の不変量。 -/
structure Inv (s : Sys τ) : Prop where
  atPc : ∀ t, s.AtPc (s.pc t)
  low_ne_three : s.bits.toNat % 4 ≠ 3
  locked : s.bits.toNat % 4 ≠ 0 → ∃ t, (s.pc t).holds = true
  holds : ∀ t, (s.pc t).holds = true → s.bits.toNat % 4 ≠ 0
  holder_unique : ∀ t u, (s.pc t).holds = true → (s.pc u).holds = true → t = u
  published : s.unlocked ∈ s.published
  sleeper : ∀ u, s.pc u = .lockBlocked → s.WakeupDue

theorem toNat_unlocked (s : Sys τ) : s.unlocked.toNat = s.bits.toNat / 4 * 4 :=
  toNat_and_kPtrMask s.bits

/-- `unlocked()` は `bits` の下位二 bit より上だけで決まる。 -/
theorem unlocked_eq {s' : Sys τ} (h : s'.bits.toNat / 4 = s.bits.toNat / 4) :
    s'.unlocked = s.unlocked := by
  apply UInt64.toNat_inj.mp
  rw [toNat_unlocked, toNat_unlocked, h]

/-- 場所について分かることは、`unlocked()` が同じなら変わらない。 -/
theorem AtPc.of_unlocked {s' : Sys τ} {p : Pc} (h : s.AtPc p) (hu : s'.unlocked = s.unlocked) :
    s'.AtPc p := by
  cases p
  case exchange rep upd =>
    cases upd
    · exact h.trans hu.symm
    · exact h
  all_goals exact h

/-- 錠を持たない場所について分かることは、状態によらない。 -/
theorem AtPc.of_not_holds {s' : Sys τ} {p : Pc} (h : s.AtPc p) (hp : p.holds = false) :
    s'.AtPc p := by
  cases p
  case exchange => cases hp
  all_goals exact h

theorem init_inv {v : UInt64} (h0 : notLocked v = true) : (init v : Sys τ).Inv := by
  rw [notLocked_iff] at h0
  have hv : (init v : Sys τ).unlocked = v := by
    apply UInt64.toNat_inj.mp
    rw [toNat_unlocked]
    show v.toNat / 4 * 4 = v.toNat
    omega
  refine ⟨fun _ => trivial, ?_, ?_, ?_, ?_, ?_, ?_⟩
  · show v.toNat % 4 ≠ 3
    omega
  · intro h
    exact absurd h0 h
  · intro _ h
    cases h
  · intro _ _ h
    cases h
  · rw [hv]
    exact List.mem_singleton_self v
  · intro _ h
    cases h

/-- `Inv` から：錠を持つスレッドがいれば下位二 bit は 0 でない。 -/
theorem Inv.not_holds (hi : s.Inv) (h : s.bits.toNat % 4 = 0) (u : τ) :
    (s.pc u).holds = false := by
  cases hu : (s.pc u).holds
  · rfl
  · exact absurd h (hi.holds u hu)

/-- 錠を持つスレッドが `t` なら、ほかのスレッドは持たない。 -/
theorem Inv.not_holds_of_ne (hi : s.Inv) (ht : (s.pc t).holds = true) {u : τ} (hu : u ≠ t) :
    (s.pc u).holds = false := by
  cases h : (s.pc u).holds
  · rfl
  · exact absurd (hi.holder_unique u t h ht) hu

variable [DecidableEq τ]

/-! ## スレッドを移す -/

@[simp] theorem setPc_bits (s : Sys τ) (t : τ) (p : Pc) : (s.setPc t p).bits = s.bits := rfl

@[simp] theorem setPc_published (s : Sys τ) (t : τ) (p : Pc) :
    (s.setPc t p).published = s.published := rfl

theorem setPc_pc (s : Sys τ) (t : τ) (p : Pc) (u : τ) :
    (s.setPc t p).pc u = if u = t then p else s.pc u := Function.update_apply ..

@[simp] theorem setPc_pc_self (s : Sys τ) (t : τ) (p : Pc) : (s.setPc t p).pc t = p :=
  Function.update_self ..

theorem setPc_pc_ne (s : Sys τ) (p : Pc) {u : τ} (hu : u ≠ t) : (s.setPc t p).pc u = s.pc u :=
  Function.update_of_ne hu ..

/-- 場所の性質 `Q` が `t` の新しい場所 `p` で前の場所と同じなら、どのスレッドでも変わらない。 -/
theorem setPc_flag {Q : Pc → Bool} {p : Pc} (hp : Q p = Q (s.pc t)) (u : τ) :
    Q ((s.setPc t p).pc u) = Q (s.pc u) := by
  rw [setPc_pc]
  split
  · subst u; exact hp
  · rfl

/-- `t` の場所で `Q` が成り立っていたなら新しい場所でも成り立つとき、`Q` の成り立つスレッドは
移った後もいる。 -/
theorem exists_setPc {Q : Pc → Bool} {p : Pc} (hp : Q (s.pc t) = true → Q p = true)
    (h : ∃ w, Q (s.pc w) = true) : ∃ w, Q ((s.setPc t p).pc w) = true := by
  obtain ⟨w, hw⟩ := h
  by_cases hwt : w = t
  · subst hwt
    exact ⟨w, by rw [setPc_pc_self]; exact hp hw⟩
  · exact ⟨w, by rw [setPc_pc_ne s p hwt]; exact hw⟩

/-- 起こす当ては、`t` が起こす役や待つ役を降りなければ残る。 -/
theorem WakeupDue.setPc {p : Pc} (h : s.WakeupDue) (hwk : (s.pc t).isWake = true → p.isWake = true)
    (hwt : (s.pc t).waiting = true → p.waiting = true) : (s.setPc t p).WakeupDue := by
  rcases h with h | h | h
  · exact Or.inl h
  · exact Or.inr (Or.inl (exists_setPc hwk h))
  · exact Or.inr (Or.inr (exists_setPc hwt h))

/-- `bits` も幽霊の欄も変えず、スレッド `t` が場所を移るだけの一歩は不変量を保つ。錠を持つか
どうかは変わらず、眠っているスレッドを起こす当てが残る。 -/
theorem Inv.setPc (hi : s.Inv) {p : Pc} (hat : s.AtPc p) (hhold : p.holds = (s.pc t).holds)
    (hsl : p = .lockBlocked → (s.setPc t p).WakeupDue)
    (hdue : ∀ u, u ≠ t → s.pc u = .lockBlocked → (s.setPc t p).WakeupDue) :
    (s.setPc t p).Inv := by
  have hflag := setPc_flag (s := s) (t := t) hhold
  refine ⟨?_, hi.low_ne_three, ?_, ?_, ?_, hi.published, ?_⟩
  · intro u
    rw [setPc_pc]
    split
    · exact hat.of_unlocked rfl
    · exact (hi.atPc u).of_unlocked rfl
  · intro h
    obtain ⟨u, hu⟩ := hi.locked h
    exact ⟨u, (hflag u).trans hu⟩
  · intro u hu
    exact hi.holds u ((hflag u).symm.trans hu)
  · intro u v hu hv
    exact hi.holder_unique u v ((hflag u).symm.trans hu) ((hflag v).symm.trans hv)
  · intro u hu
    by_cases hut : u = t
    · rw [hut, setPc_pc_self] at hu
      exact hsl hu
    · rw [setPc_pc_ne s p hut] at hu
      exact hdue u hut hu

/-- `q` から `p` へ、錠を持つかどうかも起こす役や待つ役も変えず、眠りもせずに移る一歩。 -/
theorem Inv.move (hi : s.Inv) {q p : Pc} (hpc : s.pc t = q) (hat : s.AtPc p)
    (hflags : p.holds = q.holds ∧ (q.isWake = true → p.isWake = true) ∧
      (q.waiting = true → p.waiting = true) ∧ p ≠ .lockBlocked) : (s.setPc t p).Inv := by
  subst hpc
  obtain ⟨hh, hwk, hwt, hb⟩ := hflags
  exact hi.setPc hat hh (fun h => absurd h hb)
    (fun u _ hu => (hi.sleeper u hu).setPc hwk hwt)

/-! ## `bits` を書く一歩 -/

/-- 錠を取る：下位二 bit の空いた `bits = c` を `c + b` にして、`t` が錠を持つ。`b` は
`kLockNoWaitersBit` か `kLockWithWaitersBit` で、待つ役だった `t` は後者で取る。 -/
theorem Inv.acquire (hi : s.Inv) {c b : UInt64} (hbits : s.bits = c) (hc : c.toNat % 4 = 0)
    (hb : b.toNat = 1 ∨ b.toNat = 2) (hwk : (s.pc t).isWake = false)
    (hwt : (s.pc t).waiting = true → b.toNat = 2) :
    ({ s.setPc t .held with bits := c + b } : Sys τ).Inv := by
  have hsum : (c + b).toNat = c.toNat + b.toNat := toNat_add_of_mod_four hc (by omega)
  have hfree : s.bits.toNat % 4 = 0 := hbits ▸ hc
  have hu : ({ s.setPc t .held with bits := c + b } : Sys τ).unlocked = s.unlocked :=
    unlocked_eq (by show (c + b).toNat / 4 = s.bits.toNat / 4; rw [hsum, hbits]; omega)
  refine ⟨?_, ?_, fun _ => ⟨t, ?_⟩, fun _ _ => ?_, ?_, hu ▸ hi.published, ?_⟩
  · intro u
    show AtPc _ ((s.setPc t .held).pc u)
    by_cases hut : u = t
    · rw [hut, setPc_pc_self]; trivial
    · rw [setPc_pc_ne s _ hut]; exact (hi.atPc u).of_unlocked hu
  · show (c + b).toNat % 4 ≠ 3
    omega
  · show ((s.setPc t .held).pc t).holds = true
    rw [setPc_pc_self]; rfl
  · show (c + b).toNat % 4 ≠ 0
    omega
  · -- 錠は空いていたので、持つのは `t` だけ
    intro u v hu hv
    have hown : ∀ w, ((s.setPc t .held).pc w).holds = true → w = t := fun w hw => by
      by_cases hwt : w = t
      · exact hwt
      · rw [setPc_pc_ne s _ hwt, hi.not_holds hfree w] at hw; exact absurd hw (by decide)
    rw [hown u hu, hown v hv]
  · intro u hu
    rcases hb with hb | hb
    · -- `kLockNoWaitersBit` で取った：起こす当ては `t` 以外のスレッド
      have hwt' : (s.pc t).waiting = false := by
        cases h : (s.pc t).waiting
        · rfl
        · have := hwt h; omega
      have hut : u ≠ t := fun h => by
        rw [h] at hu; exact absurd hu (by rw [setPc_pc_self]; decide)
      rw [show (s.setPc t .held).pc u = s.pc u from setPc_pc_ne s _ hut] at hu
      rcases hi.sleeper u hu with h | h | h
      · omega
      · exact Or.inr (Or.inl (exists_setPc (fun h' => absurd (hwk ▸ h') (by decide)) h))
      · exact Or.inr (Or.inr (exists_setPc (fun h' => absurd (hwt' ▸ h') (by decide)) h))
    · -- `kLockWithWaitersBit` で取った
      exact Or.inl (show (c + b).toNat / 2 % 2 = 1 by omega)

/-- 待つ印を付ける：`kLockNoWaitersBit` の立った `bits = c` を `(c & kPtrMask) + kLockWithWaitersBit`
にして、`t` はその値で `futex_wait` を呼びに行く。錠を持つスレッドは変わらない。 -/
theorem Inv.mark (hi : s.Inv) {c : UInt64} (hbits : s.bits = c) (hc : c.toNat % 2 = 1)
    (hht : (s.pc t).holds = false) :
    ({ s.setPc t (.lockWait ((c &&& kPtrMask) + kLockWithWaitersBit)) with
        bits := (c &&& kPtrMask) + kLockWithWaitersBit } : Sys τ).Inv := by
  have hmask : (c &&& kPtrMask).toNat = c.toNat / 4 * 4 := toNat_and_kPtrMask c
  have hd : ((c &&& kPtrMask) + kLockWithWaitersBit).toNat = c.toNat / 4 * 4 + 2 := by
    rw [toNat_add_of_mod_four (by omega) (by decide), hmask]; rfl
  have hlow := hi.low_ne_three
  rw [hbits] at hlow
  have hu : ({ s.setPc t (.lockWait ((c &&& kPtrMask) + kLockWithWaitersBit)) with
      bits := (c &&& kPtrMask) + kLockWithWaitersBit } : Sys τ).unlocked = s.unlocked :=
    unlocked_eq (by show ((c &&& kPtrMask) + kLockWithWaitersBit).toNat / 4 = _; rw [hd, hbits]; omega)
  have hflag := setPc_flag (s := s) (t := t) (p := .lockWait ((c &&& kPtrMask) + kLockWithWaitersBit))
    (Q := Pc.holds) (hht ▸ rfl)
  refine ⟨?_, ?_, fun _ => ?_, fun _ _ => ?_, ?_, hu ▸ hi.published, fun _ _ => Or.inl ?_⟩
  · intro u
    show AtPc _ ((s.setPc t _).pc u)
    by_cases hut : u = t
    · rw [hut, setPc_pc_self]
      show ((c &&& kPtrMask) + kLockWithWaitersBit).toNat / 2 % 2 = 1
      omega
    · rw [setPc_pc_ne s _ hut]; exact (hi.atPc u).of_unlocked hu
  · show ((c &&& kPtrMask) + kLockWithWaitersBit).toNat % 4 ≠ 3
    omega
  · -- 錠を持っていたスレッドが持ち続ける
    obtain ⟨w, hw⟩ := hi.locked (by rw [hbits]; omega)
    exact ⟨w, (hflag w).trans hw⟩
  · show ((c &&& kPtrMask) + kLockWithWaitersBit).toNat % 4 ≠ 0
    omega
  · intro u v hu hv
    exact hi.holder_unique u v ((hflag u).symm.trans hu) ((hflag v).symm.trans hv)
  · show ((c &&& kPtrMask) + kLockWithWaitersBit).toNat / 2 % 2 = 1
    omega

/-- `unlock_helper` の `exchange`：錠を持つ `t` が下位二 bit の空いた `rep` を書いて錠を手放し、
`q`（`futex_wake` か、返るところ）へ移る。`kLockWithWaitersBit` が立っていたなら `q` は起こす役。 -/
theorem Inv.release (hi : s.Inv) (ht : (s.pc t).holds = true) {q : Pc} {rep : UInt64}
    {pub : List UInt64} (hrep : rep.toNat % 4 = 0) (hpub : rep ∈ pub) (hq : q.holds = false)
    (hqb : q ≠ .lockBlocked) (hat : ({ s.setPc t q with bits := rep, published := pub } : Sys τ).AtPc q)
    (hbit : s.bits.toNat / 2 % 2 = 1 → q.isWake = true) :
    ({ s.setPc t q with bits := rep, published := pub } : Sys τ).Inv := by
  -- `t` は起こす役でも待つ役でもなかった
  have hwk : (s.pc t).isWake = false := by
    revert ht; cases s.pc t <;> simp [Pc.holds, Pc.isWake]
  have hwt : (s.pc t).waiting = false := by
    revert ht; cases s.pc t <;> simp [Pc.holds, Pc.waiting]
  -- 錠を持つスレッドはいなくなる
  have hnone : ∀ u, ((s.setPc t q).pc u).holds = false := fun u => by
    by_cases hut : u = t
    · rw [hut, setPc_pc_self]; exact hq
    · rw [setPc_pc_ne s q hut]; exact hi.not_holds_of_ne ht hut
  have hu : ({ s.setPc t q with bits := rep, published := pub } : Sys τ).unlocked = rep := by
    apply UInt64.toNat_inj.mp
    rw [toNat_unlocked]
    show rep.toNat / 4 * 4 = rep.toNat
    omega
  refine ⟨?_, ?_, fun h => absurd hrep h, fun u hu' => ?_, fun u _ hu' _ => ?_, ?_, ?_⟩
  · intro u
    show AtPc _ ((s.setPc t q).pc u)
    by_cases hut : u = t
    · rw [hut, setPc_pc_self]; exact hat
    · rw [setPc_pc_ne s q hut]; exact (hi.atPc u).of_not_holds (hi.not_holds_of_ne ht hut)
  · show rep.toNat % 4 ≠ 3
    omega
  · exact absurd hu' (by rw [hnone u]; decide)
  · exact absurd hu' (by rw [hnone u]; decide)
  · show _ ∈ pub
    rw [hu]
    exact hpub
  · intro u hu'
    have hut : u ≠ t := fun h => hqb (by rw [h] at hu'; rw [← hu', setPc_pc_self])
    have hold : s.pc u = .lockBlocked := by rw [← setPc_pc_ne s q hut]; exact hu'
    rcases hi.sleeper u hold with h | h | h
    · -- `kLockWithWaitersBit` が立っていた：`t` が `futex_wake` を呼ぶ
      exact Or.inr (Or.inl ⟨t, by show ((s.setPc t q).pc t).isWake = true; rw [setPc_pc_self]; exact hbit h⟩)
    · exact Or.inr (Or.inl (exists_setPc (fun h' => absurd (hwk ▸ h') (by decide)) h))
    · exact Or.inr (Or.inr (exists_setPc (fun h' => absurd (hwt ▸ h') (by decide)) h))

/-- `lock_for_update` の最初の `compare_exchange_weak` が失敗した後の三つの行き先。 -/
theorem afterFailedCas_cases (w : Bool) (c : UInt64) :
    (afterFailedCas w c = .lockMark w c ∧ c.toNat % 2 = 1) ∨
      (afterFailedCas w c = .lockWait c ∧ c.toNat / 2 % 2 = 1) ∨ afterFailedCas w c = .lockLoad w := by
  unfold afterFailedCas
  split
  · next h => exact Or.inl ⟨rfl, (and_kLockNoWaitersBit_ne_zero c).mp h⟩
  · split
    · next h => exact Or.inr (Or.inl ⟨rfl, (and_kLockWithWaitersBit_ne_zero c).mp h⟩)
    · exact Or.inr (Or.inr rfl)

/-! ## 事象ごとの保存 -/

theorem Inv.callLock (hi : s.Inv) (he : s.Enabled (.callLock t)) : (s.next (.callLock t)).Inv :=
  hi.move he trivial (by simp [Pc.holds, Pc.isWake, Pc.waiting])

theorem Inv.callTryLock (hi : s.Inv) (he : s.Enabled (.callTryLock t)) :
    (s.next (.callTryLock t)).Inv :=
  hi.move he trivial (by simp [Pc.holds, Pc.isWake, Pc.waiting])

theorem Inv.callUnlock (hi : s.Inv) (he : s.Enabled (.callUnlock t)) :
    (s.next (.callUnlock t)).Inv :=
  hi.move he trivial (by simp [Pc.holds, Pc.isWake, Pc.waiting])

theorem Inv.callUpdate (hi : s.Inv) {v : UInt64} (he : s.Enabled (.callUpdate t v)) :
    (s.next (.callUpdate t v)).Inv :=
  hi.move he.1 ((notLocked_iff v).mp he.2) (by simp [Pc.holds, Pc.isWake, Pc.waiting])

theorem Inv.load (hi : s.Inv) (he : s.Enabled (.load t)) : (s.next (.load t)).Inv := by
  have hc : (s.bits &&& kPtrMask).toNat % 4 = 0 := by rw [toNat_and_kPtrMask]; omega
  rcases Pc.isLoad_iff.mp he with ⟨w, hpc⟩ | hpc | hpc <;> simp only [next, hpc]
  · exact hi.move hpc hc (by cases w <;> simp [Pc.holds, Pc.isWake, Pc.waiting])
  · exact hi.move hpc hc (by simp [Pc.holds, Pc.isWake, Pc.waiting])
  · -- `unlock` が書く値は、いま読んだ `unlocked()`
    exact hi.move hpc rfl (by simp [Pc.holds, Pc.isWake, Pc.waiting])

omit [DecidableEq τ] in
/-- 成功する `compare_exchange_weak` は、`bits` が期待した値のとき。 -/
theorem cas_bits {p : Pc} {c : UInt64} (he : s.Enabled (.cas t true)) (hpc : s.pc t = p)
    (hc : p.expected = some c) : s.bits = c := by
  have h := he.2 rfl
  rw [hpc, hc] at h
  exact (Option.some_inj.mp h).symm

theorem Inv.cas (hi : s.Inv) {ok : Bool} (he : s.Enabled (.cas t ok)) : (s.next (.cas t ok)).Inv := by
  have hat := hi.atPc t
  rcases Pc.expected_isSome_iff.mp he.1 with ⟨w, c, hpc⟩ | ⟨w, c, hpc⟩ | ⟨c, hpc⟩ <;>
    rw [hpc] at hat <;> cases ok <;> simp only [next, hpc, Bool.false_eq_true, ↓reduceIte]
  · -- 失敗：見つけた値で行き先が決まる
    rcases afterFailedCas_cases w s.bits with ⟨h, hb⟩ | ⟨h, hb⟩ | h <;> rw [h]
    · exact hi.move hpc hb (by cases w <;> simp [Pc.holds, Pc.isWake, Pc.waiting])
    · exact hi.move hpc hb (by cases w <;> simp [Pc.holds, Pc.isWake, Pc.waiting])
    · exact hi.move hpc trivial (by cases w <;> simp [Pc.holds, Pc.isWake, Pc.waiting])
  · -- 成功：錠を取る
    have hbits := cas_bits he hpc rfl
    refine hi.acquire hbits hat ?_ (by rw [hpc]; rfl) ?_
    · rw [toNat_lockBit]; cases w <;> simp
    · rw [hpc, toNat_lockBit]; cases w <;> simp [Pc.waiting]
  · exact hi.move hpc trivial (by cases w <;> simp [Pc.holds, Pc.isWake, Pc.waiting])
  · -- 成功：待つ印を付ける
    have hbits := cas_bits he hpc rfl
    exact hi.mark hbits hat (by rw [hpc]; rfl)
  · exact hi.move hpc trivial (by simp [Pc.holds, Pc.isWake, Pc.waiting])
  · have hbits := cas_bits he hpc rfl
    exact hi.acquire hbits hat (Or.inl rfl) (by rw [hpc]; rfl) (by rw [hpc]; intro h; cases h)

theorem Inv.futexWait (hi : s.Inv) (he : s.Enabled (.futexWait t)) :
    (s.next (.futexWait t)).Inv := by
  obtain ⟨c, hpc⟩ := Pc.isWait_iff.mp he
  have hat := hi.atPc t
  rw [hpc] at hat
  simp only [next, hpc]
  split
  · -- `low_bits` がまだ `c` なので眠る。そのとき `kLockWithWaitersBit` が立っている
    next h =>
    have hbit : s.bits.toNat / 2 % 2 = 1 := (bit_of_toUInt32_eq h).trans hat
    exact hi.setPc trivial (by rw [hpc]; rfl) (fun _ => Or.inl hbit) (fun _ _ _ => Or.inl hbit)
  · exact hi.move hpc trivial (by simp [Pc.holds, Pc.isWake, Pc.waiting])

theorem Inv.exchange (hi : s.Inv) (he : s.Enabled (.exchange t)) : (s.next (.exchange t)).Inv := by
  obtain ⟨rep, upd, hpc⟩ := Pc.isExchange_iff.mp he
  have hat := hi.atPc t
  rw [hpc] at hat
  have hrep : rep.toNat % 4 = 0 := by
    cases upd
    · rw [show rep = s.unlocked from hat, toNat_unlocked]; omega
    · exact hat
  have hpub : rep ∈ (if upd = true then s.published ++ [rep] else s.published) := by
    cases upd
    · exact (show rep = s.unlocked from hat) ▸ hi.published
    · exact List.mem_append_right _ (List.mem_singleton_self rep)
  simp only [next, hpc]
  refine hi.release (by rw [hpc]; rfl) hrep hpub (by split <;> rfl) (by split <;> nofun)
    (by split <;> trivial) (fun hb => ?_)
  rw [if_pos ((and_kLockWithWaitersBit_ne_zero _).mpr hb)]
  rfl

theorem Inv.futexWake (hi : s.Inv) {u : τ} (he : s.Enabled (.futexWake t u)) :
    (s.next (.futexWake t u)).Inv := by
  obtain ⟨r, hpc⟩ := Pc.isWake_iff.mp he.1
  have hut : u ≠ t := fun h => by
    have hb := he.2
    rw [h, hpc] at hb
    cases hb
  simp only [next, hpc]
  -- 起こされた `u` はループの頭から `kLockWithWaitersBit` で錠を取りに行く
  have hwoken : ∀ p, ((s.setPc u (.lockLoad true)).setPc t p).pc u = .lockLoad true := fun p => by
    rw [setPc_pc_ne _ p hut, setPc_pc_self]
  have hi1 : (s.setPc u (.lockLoad true)).Inv :=
    hi.setPc trivial (by rw [he.2]; rfl) nofun
      (fun _ _ _ => Or.inr (Or.inr ⟨u, by rw [setPc_pc_self]; rfl⟩))
  refine hi1.setPc trivial ?_ nofun (fun _ _ _ => Or.inr (Or.inr ⟨u, by rw [hwoken]; rfl⟩))
  rw [setPc_pc_ne _ _ (Ne.symm hut), hpc]
  rfl

theorem Inv.futexWakeNone (hi : s.Inv) (he : s.Enabled (.futexWakeNone t)) :
    (s.next (.futexWakeNone t)).Inv := by
  obtain ⟨r, hpc⟩ := Pc.isWake_iff.mp he.1
  simp only [next, hpc]
  -- 眠っているスレッドはいない
  exact hi.setPc trivial (by rw [hpc]; rfl) nofun (fun u _ hu => absurd hu (he.2 u))

theorem Inv.ret (hi : s.Inv) (he : s.Enabled (.ret t)) : (s.next (.ret t)).Inv := by
  obtain ⟨r, hpc⟩ := Pc.isRet_iff.mp he
  simp only [next, hpc]
  exact hi.move hpc trivial (by simp [Pc.holds, Pc.isWake, Pc.waiting])

/-- 起こせる事象はどれも不変量を保つ。 -/
theorem Inv.next (hi : s.Inv) {e : Event τ} (he : s.Enabled e) : (s.next e).Inv := by
  cases e with
  | callLock => exact hi.callLock he
  | callTryLock => exact hi.callTryLock he
  | callUnlock => exact hi.callUnlock he
  | callUpdate => exact hi.callUpdate he
  | load => exact hi.load he
  | cas => exact hi.cas he
  | futexWait => exact hi.futexWait he
  | exchange => exact hi.exchange he
  | futexWake => exact hi.futexWake he
  | futexWakeNone => exact hi.futexWakeNone he
  | ret => exact hi.ret he

/-- どの交互実行でたどり着く状態でも不変量が成り立つ。 -/
theorem reachable_inv {v : UInt64} (h0 : notLocked v = true) (hs : Reachable (system v) s) :
    s.Inv :=
  Reachable.inv (I := Inv) (init_inv h0) (fun _ _ _ hi he => hi.next he) hs

/-! ## 錠と読み手 -/

/-- 幽霊の欄は後ろに伸びるだけ。 -/
theorem next_published (s : Sys τ) (e : Event τ) : ∃ l, (s.next e).published = s.published ++ l := by
  cases e <;> simp only [next] <;> repeat' split
  all_goals first
    | exact ⟨[], (List.append_nil _).symm⟩
    | exact ⟨[_], rfl⟩

/-- 幽霊の欄の頭は初めの値。 -/
theorem published_head {v : UInt64} (hs : Reachable (system v) s) : ∃ l, s.published = v :: l := by
  refine Reachable.inv (I := fun s : Sys τ => ∃ l, s.published = v :: l) ⟨[], rfl⟩ ?_ hs
  intro s e _ hl _
  obtain ⟨l, hl⟩ := hl
  obtain ⟨l', hl'⟩ := next_published s e
  exact ⟨l ++ l', by rw [show (system v).next s e = s.next e from rfl, hl', hl]; rfl⟩

/-- `exchange` の後に返る値は、その時の `unlocked()`。 -/
theorem exchange_returns {rep : UInt64} {upd : Bool} (hpc : s.pc t = .exchange rep upd) :
    (s.next (.exchange t)).pc t = .wake s.get ∨ (s.next (.exchange t)).pc t = .ret s.get := by
  simp only [next, hpc]
  show (s.setPc t _).pc t = _ ∨ (s.setPc t _).pc t = _
  rw [setPc_pc_self]
  split
  · exact Or.inl rfl
  · exact Or.inr rfl

/-- どの交互実行でも：`bits` の下位二 bit が立っているのは錠を持つスレッドがいるときだけで、
錠を取ってから手放すまでのスレッドは多くとも一つ。`get()` と `copy()` は下位二 bit の空いた
同じ値を返し、それは初めの値か、`exchange` を済ませた `update_and_unlock` の引数。
`update_and_unlock` は `exchange` の時の値を返す。眠っているスレッドがいれば、錠を持つスレッドが
いて `kLockWithWaitersBit` が立っている（手放すときに `futex_wake` を呼ぶ）か、`futex_wake` を
呼ぼうとしているスレッドがいるか、起きていて `kLockWithWaitersBit` で錠を取りに行くスレッドが
いる：起こし損ねはない。 -/
theorem lock_for_update_excludes {v : UInt64} (h0 : notLocked v = true)
    (hs : Reachable (system v) s) :
    ((notLocked s.bits = false ↔ ∃ t, (s.pc t).holds = true) ∧
      ∀ t u, (s.pc t).holds = true → (s.pc u).holds = true → t = u) ∧
    (notLocked s.get = true ∧ s.copy = s.get ∧ s.get ∈ s.published ∧ s.published.head? = some v ∧
      ∀ t rep upd, s.pc t = .exchange rep upd →
        (s.next (.exchange t)).pc t = .wake s.get ∨ (s.next (.exchange t)).pc t = .ret s.get) ∧
    ∀ u, s.pc u = .lockBlocked →
      (s.bits &&& kLockWithWaitersBit ≠ 0 ∧ ∃ h, (s.pc h).holds = true) ∨
        (∃ w, (s.pc w).isWake = true) ∨ ∃ w, (s.pc w).waiting = true := by
  have hi := reachable_inv h0 hs
  have hlocked : notLocked s.bits = false ↔ s.bits.toNat % 4 ≠ 0 := by
    rw [← Bool.not_eq_true, notLocked_iff]
  refine ⟨⟨?_, hi.holder_unique⟩, ⟨?_, rfl, hi.published, ?_, fun t _ _ => exchange_returns⟩, ?_⟩
  · rw [hlocked]
    exact ⟨hi.locked, fun ⟨t, ht⟩ => hi.holds t ht⟩
  · rw [notLocked_iff, get, toNat_unlocked]
    omega
  · obtain ⟨l, hl⟩ := published_head hs
    rw [hl]
    rfl
  · intro u hu
    rcases hi.sleeper u hu with h | h | h
    · -- `kLockWithWaitersBit` が立っていれば、下位二 bit は 0 でなく、錠を持つスレッドがいる
      exact Or.inl ⟨(and_kLockWithWaitersBit_ne_zero _).mpr h, hi.locked (by omega)⟩
    · exact Or.inr (Or.inl h)
    · exact Or.inr (Or.inr h)

/-! ## 飢え

起こし損ねはないが、`lock_for_update` が返らないことはありうる。起こされたスレッドが錠を取りに
行く前にほかのスレッドが `kLockNoWaitersBit` で錠を取ると、起こされたスレッドは待つ印を付け直して
また眠る。二つのスレッドが交互に錠を取っては手放すと、これがいつまでも続く。どのスレッドも
何度でも一歩を進め、錠を持つスレッドはいつか手放し、`compare_exchange_weak` の弱い失敗も使わない。 -/

omit [DecidableEq τ] in
theorem eq_of_pc {s s' : Sys τ} (hb : s.bits = s'.bits) (hp : ∀ t, s.pc t = s'.pc t)
    (hl : s.published = s'.published) : s = s' := by
  obtain ⟨b, pc, l⟩ := s
  obtain ⟨b', pc', l'⟩ := s'
  simp only at hb hl hp
  subst hb hl
  rw [funext hp]

/-- 輪の頭：スレッド 0 は眠って待ち、1 は `kLockWithWaitersBit` の付いた錠を持ち、2 は外にいる。
初めの値は 16。 -/
def starveStart : Sys (Fin 3) :=
  ⟨18, fun t => if t = 0 then .lockBlocked else if t = 1 then .held else .idle, [16]⟩

/-- `a` が錠を手放してスレッド 0 を起こし、`b` が `kLockNoWaitersBit` で錠を取る。起きた 0 は
錠を取り損ね、待つ印を付け直して眠る。 -/
def handOver (a b : Fin 3) : List (Event (Fin 3)) :=
  [.callUnlock a, .load a, .exchange a, .futexWake a 0, .ret a, .callLock b, .load b, .cas b true,
    .load 0, .cas 0 false, .cas 0 true, .futexWait 0]

/-- 錠を 1 から 2 へ、2 から 1 へ渡して輪の頭に戻る。 -/
def starveCycle : List (Event (Fin 3)) := handOver 1 2 ++ handOver 2 1

/-- 初めの状態から輪の頭まで：1 が錠を取り、0 が待つ印を付けて眠る。 -/
def starvePrefix : List (Event (Fin 3)) :=
  [.callLock 1, .load 1, .cas 1 true, .callLock 0, .load 0, .cas 0 false, .cas 0 true, .futexWait 0]

theorem starvePrefix_valid : Valid (system 16) (init 16) starvePrefix := by
  decide

theorem starvePrefix_run : run (system 16) (init 16) starvePrefix = starveStart :=
  eq_of_pc (by decide) (by decide) (by decide)

theorem starveStart_reachable : Reachable (system 16) starveStart := by
  rw [← starvePrefix_run]
  exact (Reachable.init (S := system 16)).run starvePrefix_valid

/-- 輪の頭で：錠を持つのは 1 だけで、読み手は初めの値 16 を見る。眠っている 0 には、
`kLockWithWaitersBit` の付いた錠を持つスレッドがいる。 -/
theorem lock_for_update_excludes_starveStart :
    notLocked (16 : UInt64) = true ∧ Reachable (system 16) starveStart ∧
    ((notLocked starveStart.bits = false ↔ ∃ t, (starveStart.pc t).holds = true) ∧
      ∀ t u, (starveStart.pc t).holds = true → (starveStart.pc u).holds = true → t = u) ∧
    (notLocked starveStart.get = true ∧ starveStart.copy = starveStart.get ∧
      starveStart.get ∈ starveStart.published ∧ starveStart.published.head? = some 16 ∧
      ∀ t rep upd, starveStart.pc t = .exchange rep upd →
        (starveStart.next (.exchange t)).pc t = .wake starveStart.get ∨
          (starveStart.next (.exchange t)).pc t = .ret starveStart.get) ∧
    ∀ u, starveStart.pc u = .lockBlocked →
      (starveStart.bits &&& kLockWithWaitersBit ≠ 0 ∧ ∃ h, (starveStart.pc h).holds = true) ∨
        (∃ w, (starveStart.pc w).isWake = true) ∨ ∃ w, (starveStart.pc w).waiting = true :=
  ⟨by decide, starveStart_reachable,
    lock_for_update_excludes (by decide) starveStart_reachable⟩

theorem starveCycle_valid : Valid (system 16) starveStart starveCycle := by
  decide

theorem starveCycle_run : run (system 16) starveStart starveCycle = starveStart :=
  eq_of_pc (by decide) (by decide) (by decide)

/-- 輪を繰り返す無限の実行で、スレッド 0 の `lock_for_update` は返らない。たどり着く状態から
始まり、どのスレッドも何度でも一歩を進め、錠を持つスレッドはいつか手放し、弱い失敗はない。 -/
theorem lock_for_update_starves :
    ∃ r : Run (system (τ := Fin 3) 16), Reachable (system 16) (r.st 0) ∧
      (∀ t n, ∃ m, n ≤ m ∧ (r.ev m).tid = t) ∧
      (∀ t n, ∃ m, n ≤ m ∧ ((r.st m).pc t).holds = false) ∧
      (∀ n, (r.st n).spurious (r.ev n) = false) ∧
      ∀ n, ((r.st n).pc 0).inLock = true := by
  refine ⟨Run.cycle starveStart starveCycle (by decide) starveCycle_valid starveCycle_run,
    ?_, ?_, ?_, ?_, ?_⟩
  · show Reachable _ (run _ starveStart (starveCycle.take (0 % starveCycle.length)))
    rw [Nat.zero_mod, List.take_zero, run_nil]
    exact starveStart_reachable
  · -- どのスレッドも輪の中で一歩を進める
    intro t n
    fin_cases t
    · refine Run.cycle_exists_ev (Q := fun e : Event (Fin 3) => e.tid = 0) (i := 8) ?_ ?_ n <;>
        decide
    · refine Run.cycle_exists_ev (Q := fun e : Event (Fin 3) => e.tid = 1) (i := 0) ?_ ?_ n <;>
        decide
    · refine Run.cycle_exists_ev (Q := fun e : Event (Fin 3) => e.tid = 2) (i := 5) ?_ ?_ n <;>
        decide
  · -- どのスレッドも輪の中で錠を持たない時がある
    intro t n
    fin_cases t
    · refine Run.cycle_exists_st (Q := fun s : Sys (Fin 3) => (s.pc 0).holds = false) (i := 0)
        ?_ ?_ n <;> decide +kernel
    · refine Run.cycle_exists_st (Q := fun s : Sys (Fin 3) => (s.pc 1).holds = false) (i := 5)
        ?_ ?_ n <;> decide +kernel
    · refine Run.cycle_exists_st (Q := fun s : Sys (Fin 3) => (s.pc 2).holds = false) (i := 0)
        ?_ ?_ n <;> decide +kernel
  · refine Run.cycle_forall (Q := fun (s : Sys (Fin 3)) e => s.spurious e = false) ?_
    decide +kernel
  · refine Run.cycle_forall (Q := fun (s : Sys (Fin 3)) _ => (s.pc 0).inLock = true) ?_
    decide +kernel

end Sys

end Hhvm.LockFreePtrWrapper
