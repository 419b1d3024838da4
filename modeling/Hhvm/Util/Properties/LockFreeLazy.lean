import Hhvm.Util.LockFreeLazy

/-!
# `LockFreeLazy` の不変量

どの交互実行でたどり着く状態でも成り立つ不変量 `Inv` を置き、事象ごとに保たれることを示す。

* `m_state` が `Updating` の間、手順の途中にいる（`isOwner`）スレッドはちょうど一つで、
  `Present` と `Empty` のときはいない。`Present` なら `f` は一回だけ正常に返っていて、その値が
  `m_storage` にある（`HasValue`）。`Empty` ならまだ返っていない（`NoValue`）。
* 参照を返そうとしているスレッドがいる間は `Present`。
* `get` と `reset` の中に同時にいるスレッドはない。
* 眠っているスレッドがいれば、`m_state` は `Updating` か、`futex_wake` を呼ぼうとしているスレッドが
  いる（起こし損ねがない）。

状態を変えずにスレッドが一歩進むだけの事象は `Inv.setPc` 一つで済み、状態の語や値を書く事象
（`compare_exchange_weak` の成功、`f` が返る、値を壊す、`store`、`futex_wake`）はそれぞれの補題で扱う。
-/

namespace Hhvm.LockFreeLazy

open Infra.Interleaving

namespace Pc

/-- `m_state` を `Updating` にして手順の途中にいる：値を作るか壊し、状態の語を書き戻すまで。 -/
def isOwner : Pc → Bool
  | getCall | getStore | getUndoStore | resetDestroy | resetStore => true
  | _ => false

/-- `futex_wake(&m_state, INT_MAX)` を呼ぼうとしている。 -/
def isWaker : Pc → Bool
  | getWake | getUndoWake | resetWake => true
  | _ => false

/-- `m_storage` の値への参照を返そうとしている。 -/
def isReturning : Pc → Bool
  | getWake | getRet => true
  | _ => false

theorem isWaker_iff {p : Pc} : p.isWaker = true ↔ p = getWake ∨ p = getUndoWake ∨ p = resetWake := by
  cases p <;> decide

theorem inReset_of_inGet {p : Pc} (h : p.inGet = true) : p.inReset = false := by
  cases p <;> revert h <;> decide

theorem not_asleep_resume (p : Pc) (h : p.asleep = true) : p.resume.asleep = false := by
  cases p <;> revert h <;> decide

/-- 起こされても、`get` と `reset` のどちらの中にいるか、手順の途中か、起こす役かは変わらない。 -/
theorem resume_flags (p : Pc) (h : p.asleep = true) :
    p.resume.inGet = p.inGet ∧ p.resume.inReset = p.inReset ∧ p.resume.isOwner = p.isOwner ∧
      p.resume.isWaker = p.isWaker := by
  cases p <;> revert h <;> decide

end Pc

/-- 事象を起こすスレッド。 -/
def Event.tid {τ T : Type} : Event τ T → τ
  | .callGet t | .callReset t | .load t | .futexWait t | .cas t _ | .fReturn t _ | .fThrow t
  | .destroy t | .store t | .futexWake t | .ret t _ => t

namespace Sys

variable {τ T : Type} {s : Sys τ T} {t : τ}

/-! ## 不変量 -/

/-- 値が無い：最後に値を壊してから `f` はまだ正常に返っていない。 -/
def NoValue (s : Sys τ T) : Prop := s.calls = 0 ∧ s.storage = none

/-- 値がある：`f` はちょうど一回正常に返り、その値が `m_storage` にある。 -/
def HasValue (s : Sys τ T) : Prop := s.calls = 1 ∧ ∃ v, s.storage = some v ∧ s.produced = some v

/-- 場所ごとに、共有の状態について分かること。 -/
def AtPc (s : Sys τ T) : Pc → Prop
  | .getCall | .getUndoStore | .resetStore => s.state = .Updating ∧ s.NoValue
  | .getStore | .resetDestroy => s.state = .Updating ∧ s.HasValue
  | .getWake | .getRet => s.state = .Present
  | _ => True

/-- たどり着く状態の不変量。 -/
structure Inv (s : Sys τ T) : Prop where
  atPc : ∀ t, s.AtPc (s.pc t)
  owner_unique : ∀ t u, (s.pc t).isOwner = true → (s.pc u).isOwner = true → t = u
  updating : s.state = .Updating → ∃ t, (s.pc t).isOwner = true
  present : s.state = .Present → s.HasValue
  empty : s.state = .Empty → s.NoValue
  modes : ∀ t u, (s.pc t).inGet = true → (s.pc u).inReset = false
  asleep : ∀ t, (s.pc t).asleep = true → s.state = .Updating ∨ ∃ u, (s.pc u).isWaker = true

/-- 手順の途中の場所では `m_state` は `Updating`。 -/
theorem AtPc.updating_of_isOwner {p : Pc} (h : s.AtPc p) (hp : p.isOwner = true) :
    s.state = .Updating := by
  cases p <;> first | exact h.1 | exact absurd hp (by decide)

/-- 参照を返そうとしている場所では `m_state` は `Present`。 -/
theorem AtPc.present_of_isReturning {p : Pc} (h : s.AtPc p) (hp : p.isReturning = true) :
    s.state = .Present := by
  cases p <;> first | exact h | exact absurd hp (by decide)

/-- 手順の途中でない場所について分かることは、状態の語だけによる。 -/
theorem AtPc.of_state {s' : Sys τ T} {p : Pc} (h : s.AtPc p) (hp : p.isOwner = false)
    (hs : s'.state = s.state) : s'.AtPc p := by
  cases p <;> first | trivial | exact hs.trans h

/-- 場所について分かることは、スレッドの場所によらない。 -/
theorem AtPc.withPc {p : Pc} (h : s.AtPc p) (f : τ → Pc) : ({ s with pc := f } : Sys τ T).AtPc p := by
  cases p <;> exact h

/-- 起こされたスレッドの場所（ループの頭）には、分かることはない。 -/
theorem AtPc.resume (s : Sys τ T) {p : Pc} (hp : p.asleep = true) : s.AtPc p.resume := by
  cases p <;> trivial

/-- 手順の途中でも参照を返すところでもない場所には、分かることはない。 -/
theorem AtPc.of_idle (s' : Sys τ T) {p : Pc} (hp : p.isOwner = false)
    (hr : p.isReturning = false) : s'.AtPc p := by
  cases p <;> trivial

theorem init_inv : (init : Sys τ T).Inv where
  atPc _ := trivial
  owner_unique _ _ h := by simp [init, Pc.isOwner] at h
  updating h := by simp [init] at h
  present h := by simp [init] at h
  empty _ := ⟨rfl, rfl⟩
  modes _ _ h := by simp [init, Pc.inGet] at h
  asleep _ h := by simp [init, Pc.asleep] at h

/-- `t` がいまと同じ側（`get` か `reset`）に留まるなら、`get` と `reset` に同時にいることにはならない。 -/
theorem Inv.stay_get (hi : s.Inv) {p : Pc} (hp : p.inGet = (s.pc t).inGet) :
    p.inGet = true → ∀ u, u ≠ t → (s.pc u).inReset = false :=
  fun h u _ => hi.modes t u (hp ▸ h)

theorem Inv.stay_reset (hi : s.Inv) {p : Pc} (hp : p.inReset = (s.pc t).inReset) :
    p.inReset = true → ∀ u, u ≠ t → (s.pc u).inGet = false := by
  intro h u _
  cases hu : (s.pc u).inGet
  · rfl
  · have := hi.modes u t hu
    rw [← hp, h] at this
    exact absurd this (by decide)

/-- `t` だけが手順の途中にいる。 -/
theorem Inv.not_owner_of_ne (hi : s.Inv) (ht : (s.pc t).isOwner = true) {u : τ} (hu : u ≠ t) :
    (s.pc u).isOwner = false := by
  cases h : (s.pc u).isOwner
  · rfl
  · exact absurd (hi.owner_unique u t h ht) hu

/-- `Updating` でなければ、手順の途中のスレッドはいない。 -/
theorem Inv.not_owner (hi : s.Inv) (hs : s.state ≠ .Updating) (u : τ) :
    (s.pc u).isOwner = false := by
  cases h : (s.pc u).isOwner
  · rfl
  · exact absurd ((hi.atPc u).updating_of_isOwner h) hs

/-- `Present` でなければ、参照を返そうとしているスレッドはいない。 -/
theorem Inv.not_returning (hi : s.Inv) (hs : s.state ≠ .Present) (u : τ) :
    (s.pc u).isReturning = false := by
  cases h : (s.pc u).isReturning
  · rfl
  · exact absurd ((hi.atPc u).present_of_isReturning h) hs

/-- `reset` の中にいるスレッドがあれば、参照を返そうとしているスレッドはいない。 -/
theorem Inv.not_returning_of_inReset (hi : s.Inv) (ht : (s.pc t).inReset = true) (u : τ) :
    (s.pc u).isReturning = false := by
  cases h : (s.pc u).isReturning
  · rfl
  · have hg : (s.pc u).inGet = true := by
      revert h
      cases s.pc u <;> simp [Pc.isReturning, Pc.inGet]
    rw [hi.modes u t hg] at ht
    exact absurd ht (by decide)

/-- 起こされても、`get` と `reset` のどちらの中にいるか、手順の途中か、起こす役かは変わらない。 -/
theorem wakeAll_flags (pc : τ → Pc) (u : τ) :
    (wakeAll Pc.asleep Pc.resume pc u).inGet = (pc u).inGet ∧
      (wakeAll Pc.asleep Pc.resume pc u).inReset = (pc u).inReset ∧
      (wakeAll Pc.asleep Pc.resume pc u).isOwner = (pc u).isOwner ∧
      (wakeAll Pc.asleep Pc.resume pc u).isWaker = (pc u).isWaker := by
  cases h : (pc u).asleep
  · rw [wakeAll_of_not_asleep h]
    exact ⟨rfl, rfl, rfl, rfl⟩
  · rw [wakeAll_of_asleep h]
    exact Pc.resume_flags _ h

/-- 起こした後のどの場所にも、前と同じことが分かる。 -/
theorem AtPc.wakeAll {pc : τ → Pc} {u : τ} (h : s.AtPc (pc u)) :
    s.AtPc (wakeAll Pc.asleep Pc.resume pc u) := by
  cases ha : (pc u).asleep
  · rw [wakeAll_of_not_asleep ha]; exact h
  · rw [wakeAll_of_asleep ha]; exact AtPc.resume s ha

/-! ## 不変量から読めること -/

/-- 手順の途中では、`f` が正常に返った回数は多くとも一回。 -/
theorem AtPc.calls_le_one {p : Pc} (h : s.AtPc p) (hp : p.isOwner = true) : s.calls ≤ 1 := by
  cases p <;> simp_all [AtPc, Pc.isOwner, NoValue, HasValue]

/-- 最後に値を壊してから、`f` が正常に返ったのは多くとも一回。 -/
theorem Inv.calls_le_one (hi : s.Inv) : s.calls ≤ 1 := by
  cases hst : s.state
  · exact Nat.le_of_eq (hi.present hst).1
  · obtain ⟨t, ht⟩ := hi.updating hst
    exact (hi.atPc t).calls_le_one ht
  · rw [(hi.empty hst).1]; exact Nat.zero_le 1

/-- `f` を呼べるのは、まだ一度も正常に返っていないとき。 -/
theorem Inv.calls_of_fReturn (hi : s.Inv) {v : T} (he : s.Enabled (.fReturn t v)) :
    s.calls = 0 := by
  have hat := hi.atPc t
  rw [show s.pc t = .getCall from he] at hat
  exact hat.2.1

/-- `get` が返す参照の値は、正常に返った `f` の値で、そのとき `m_state` は `Present`。 -/
theorem Inv.ret_produced (hi : s.Inv) {v : T} (he : s.Enabled (.ret t v)) :
    s.state = .Present ∧ s.produced = some v := by
  have hat := hi.atPc t
  rw [he.1] at hat
  obtain ⟨-, w, hw, hp⟩ := hi.present hat
  rw [he.2, Option.some_inj] at hw
  exact ⟨hat, hw ▸ hp⟩

theorem enabled_futexWake_iff : s.Enabled (.futexWake t) ↔ (s.pc t).isWaker = true :=
  Pc.isWaker_iff.symm

variable [DecidableEq τ]

/-! ## スレッドを移す -/

@[simp] theorem setPc_state (s : Sys τ T) (t : τ) (p : Pc) : (s.setPc t p).state = s.state := rfl

@[simp] theorem setPc_storage (s : Sys τ T) (t : τ) (p : Pc) :
    (s.setPc t p).storage = s.storage := rfl

@[simp] theorem setPc_calls (s : Sys τ T) (t : τ) (p : Pc) : (s.setPc t p).calls = s.calls := rfl

@[simp] theorem setPc_produced (s : Sys τ T) (t : τ) (p : Pc) :
    (s.setPc t p).produced = s.produced := rfl

theorem setPc_pc (s : Sys τ T) (t : τ) (p : Pc) (u : τ) :
    (s.setPc t p).pc u = if u = t then p else s.pc u := Function.update_apply ..

@[simp] theorem setPc_pc_self (s : Sys τ T) (t : τ) (p : Pc) : (s.setPc t p).pc t = p :=
  Function.update_self ..

theorem setPc_pc_ne (s : Sys τ T) (p : Pc) {u : τ} (hu : u ≠ t) : (s.setPc t p).pc u = s.pc u :=
  Function.update_of_ne hu ..

theorem wake_pc_self (s : Sys τ T) (t : τ) (p : Pc) : (s.wake t p).pc t = p :=
  Function.update_self ..

theorem wake_pc_ne (s : Sys τ T) (p : Pc) {u : τ} (hu : u ≠ t) :
    (s.wake t p).pc u = wakeAll Pc.asleep Pc.resume s.pc u :=
  Function.update_of_ne hu ..

/-- `futex_wake(&m_state, INT_MAX)` の後、眠っているスレッドはいない。 -/
theorem wake_not_asleep {p : Pc} (hp : p.asleep = false) (u : τ) : ((s.wake t p).pc u).asleep = false := by
  by_cases hut : u = t
  · rw [hut, wake_pc_self]; exact hp
  · rw [wake_pc_ne s p hut]; exact not_asleep_wakeAll Pc.not_asleep_resume s.pc u

/-- 場所の性質 `Q` が `t` の新しい場所 `p` で前の場所と同じなら、どのスレッドでも変わらない。 -/
theorem setPc_flag {Q : Pc → Bool} {p : Pc} (hp : Q p = Q (s.pc t)) (u : τ) :
    Q ((s.setPc t p).pc u) = Q (s.pc u) := by
  rw [setPc_pc]
  split
  · subst u; exact hp
  · rfl

/-- `t` のほかのスレッドが `get` と `reset` のどちらにいるかが変わらず、`t` の新しい場所が
ほかと食い違わなければ、`get` と `reset` に同時にいるスレッドはない。 -/
theorem Inv.modes_update (hi : s.Inv) {pc' : τ → Pc}
    (hflag : ∀ u, u ≠ t → (pc' u).inGet = (s.pc u).inGet ∧ (pc' u).inReset = (s.pc u).inReset)
    (hg : (pc' t).inGet = true → ∀ u, u ≠ t → (s.pc u).inReset = false)
    (hr : (pc' t).inReset = true → ∀ u, u ≠ t → (s.pc u).inGet = false) (u v : τ)
    (hu : (pc' u).inGet = true) : (pc' v).inReset = false := by
  by_cases hut : u = t <;> by_cases hvt : v = t
  · rw [hvt, ← hut]; exact Pc.inReset_of_inGet hu
  · rw [hut] at hu; rw [(hflag v hvt).2]; exact hg hu v hvt
  · -- `t` が `reset` に入ったのなら、`get` の中には誰もいない
    rw [hvt]
    cases hp : (pc' t).inReset
    · rfl
    · rw [(hflag u hut).1, hr hp u hut] at hu; exact absurd hu (by decide)
  · rw [(hflag u hut).1] at hu; rw [(hflag v hvt).2]; exact hi.modes u v hu

/-- 状態の語も値も変えず、スレッド `t` が場所を移るだけの一歩は不変量を保つ。手順の途中かどうかは
変わらず、起こす役の場所から離れるのではなく、眠るのは `Updating` のときで、`get` と `reset` の
中に同時にいることにならない。 -/
theorem Inv.setPc (hi : s.Inv) {p : Pc} (hat : s.AtPc p) (hown : p.isOwner = (s.pc t).isOwner)
    (hwk : (s.pc t).isWaker = false) (hsl : p.asleep = true → s.state = .Updating)
    (hg : p.inGet = true → ∀ u, u ≠ t → (s.pc u).inReset = false)
    (hr : p.inReset = true → ∀ u, u ≠ t → (s.pc u).inGet = false) : (s.setPc t p).Inv := by
  have howner := setPc_flag (s := s) (t := t) hown
  have hflag u (hu : u ≠ t) := And.intro (congrArg Pc.inGet (setPc_pc_ne s p hu))
    (congrArg Pc.inReset (setPc_pc_ne s p hu))
  refine ⟨?_, ?_, ?_, hi.present, hi.empty, ?_, ?_⟩
  · intro u
    rw [setPc_pc]
    split
    · exact hat.withPc _
    · exact (hi.atPc u).withPc _
  · intro u v hu hv
    exact hi.owner_unique u v ((howner u).symm.trans hu) ((howner v).symm.trans hv)
  · intro hs
    obtain ⟨u, hu⟩ := hi.updating hs
    exact ⟨u, (howner u).trans hu⟩
  · exact hi.modes_update hflag (by rw [setPc_pc_self]; exact hg) (by rw [setPc_pc_self]; exact hr)
  · intro u hu
    rw [setPc_pc] at hu
    split at hu
    · exact Or.inl (hsl hu)
    · rcases hi.asleep u hu with h | ⟨w, hw⟩
      · exact Or.inl h
      · -- 起こす役は `t` ではない
        have hwt : w ≠ t := fun h => by rw [h, hwk] at hw; exact absurd hw (by decide)
        exact Or.inr ⟨w, by rw [setPc_pc_ne s p hwt]; exact hw⟩

/-- `q` から `p` へ、`get` と `reset` の別も手順の途中かどうかも変えずに移る一歩。 -/
theorem Inv.move (hi : s.Inv) {q p : Pc} (hpc : s.pc t = q) (hat : s.AtPc p)
    (hflags : p.isOwner = q.isOwner ∧ q.isWaker = false ∧ p.inGet = q.inGet ∧ p.inReset = q.inReset)
    (hsl : p.asleep = true → s.state = .Updating) : (s.setPc t p).Inv := by
  subst hpc
  obtain ⟨ho, hw, hg, hr⟩ := hflags
  exact hi.setPc hat ho hw hsl (hi.stay_get hg) (hi.stay_reset hr)

/-- 手順の途中でも起こす役でもない場所 `q` から、`get` と `reset` の外へ出る一歩。 -/
theorem Inv.leave (hi : s.Inv) {q : Pc} (hpc : s.pc t = q)
    (hflags : q.isOwner = false ∧ q.isWaker = false) : (s.setPc t .idle).Inv := by
  subst hpc
  exact hi.setPc trivial hflags.1.symm hflags.2 (fun h => absurd h (by decide)) (fun h => absurd h (by decide))
    (fun h => absurd h (by decide))

/-! ## 状態の語や値を書く一歩 -/

/-- `compare_exchange_weak` の成功：`Updating` でなかった語を `Updating` にして、`t` が手順に入る。 -/
theorem Inv.claim (hi : s.Inv) (hs : s.state ≠ .Updating) {p : Pc} (hp : p.isOwner = true)
    (hat : ({ s.setPc t p with state := .Updating } : Sys τ T).AtPc p)
    (hret : ∀ u, u ≠ t → (s.pc u).isReturning = false)
    (hg : p.inGet = true → ∀ u, u ≠ t → (s.pc u).inReset = false)
    (hr : p.inReset = true → ∀ u, u ≠ t → (s.pc u).inGet = false) :
    ({ s.setPc t p with state := .Updating } : Sys τ T).Inv := by
  -- ほかのスレッドは手順の途中でなく、参照を返そうともしていない
  have hown : ∀ u, u ≠ t → ((s.setPc t p).pc u).isOwner = false := fun u hu => by
    rw [setPc_pc_ne s p hu]; exact hi.not_owner hs u
  have hflag u (hu : u ≠ t) := And.intro (congrArg Pc.inGet (setPc_pc_ne s p hu))
    (congrArg Pc.inReset (setPc_pc_ne s p hu))
  refine ⟨?_, ?_, fun _ => ⟨t, ?_⟩, by simp, by simp, ?_, fun _ _ => Or.inl rfl⟩
  · intro u
    show AtPc _ ((s.setPc t p).pc u)
    by_cases hu : u = t
    · rw [hu, setPc_pc_self]; exact hat
    · rw [setPc_pc_ne s p hu]; exact AtPc.of_idle _ (hi.not_owner hs u) (hret u hu)
  · intro u v hu hv
    by_cases hut : u = t
    · by_cases hvt : v = t
      · rw [hut, hvt]
      · exact absurd hv (by rw [hown v hvt]; decide)
    · exact absurd hu (by rw [hown u hut]; decide)
  · show ((s.setPc t p).pc t).isOwner = true
    rw [setPc_pc_self]; exact hp
  · exact hi.modes_update hflag (by rw [setPc_pc_self]; exact hg) (by rw [setPc_pc_self]; exact hr)

/-- 手順の途中の `t` が値を書き換えて、手順の中の次の場所へ移る一歩（`f` が返る、`~T()`）。 -/
theorem Inv.ownerStep (hi : s.Inv) {q p : Pc} (hpc : s.pc t = q) (hq : q.isOwner = true)
    (hp : p.isOwner = true) (hflags : p.inGet = q.inGet ∧ p.inReset = q.inReset)
    {sto : Option T} {c : Nat} {pr : Option T}
    (hat : ({ s.setPc t p with storage := sto, calls := c, produced := pr } : Sys τ T).AtPc p) :
    ({ s.setPc t p with storage := sto, calls := c, produced := pr } : Sys τ T).Inv := by
  subst hpc
  have hs : s.state = .Updating := (hi.atPc t).updating_of_isOwner hq
  have howner := setPc_flag (s := s) (t := t) (hp.trans hq.symm)
  have hflag u (hu : u ≠ t) := And.intro (congrArg Pc.inGet (setPc_pc_ne s p hu))
    (congrArg Pc.inReset (setPc_pc_ne s p hu))
  refine ⟨?_, ?_, fun _ => ⟨t, ?_⟩, fun h => ?_, fun h => ?_, ?_, fun _ _ => Or.inl hs⟩
  · intro u
    show AtPc _ ((s.setPc t p).pc u)
    by_cases hu : u = t
    · rw [hu, setPc_pc_self]; exact hat
    · rw [setPc_pc_ne s p hu]
      exact (hi.atPc u).of_state (hi.not_owner_of_ne hq hu) rfl
  · intro u v hu hv
    exact hi.owner_unique u v ((howner u).symm.trans hu) ((howner v).symm.trans hv)
  · show ((s.setPc t p).pc t).isOwner = true
    rw [setPc_pc_self]; exact hp
  · exact absurd (hs.symm.trans h) (by decide)
  · exact absurd (hs.symm.trans h) (by decide)
  · exact hi.modes_update hflag (by rw [setPc_pc_self, hflags.1]; exact hi.stay_get rfl)
      (by rw [setPc_pc_self, hflags.2]; exact hi.stay_reset rfl)

/-- `m_state.store`：手順の途中の `t` が `Updating` でない語 `x` を書き、起こす役になる。 -/
theorem Inv.release (hi : s.Inv) {q p : Pc} (hpc : s.pc t = q) (hq : q.isOwner = true)
    (hflags : p.isOwner = false ∧ p.isWaker = true ∧ p.inGet = q.inGet ∧ p.inReset = q.inReset)
    {x : State} (hx : x ≠ .Updating) (hat : ({ s.setPc t p with state := x } : Sys τ T).AtPc p)
    (hpres : x = .Present → s.HasValue) (hemp : x = .Empty → s.NoValue) :
    ({ s.setPc t p with state := x } : Sys τ T).Inv := by
  subst hpc
  obtain ⟨hpo, hpw, hpg, hpr⟩ := hflags
  have hs : s.state = .Updating := (hi.atPc t).updating_of_isOwner hq
  -- 手順の途中にいたのは `t` だけで、`t` も手順を出る
  have hown : ∀ u, ((s.setPc t p).pc u).isOwner = false := fun u => by
    by_cases hu : u = t
    · rw [hu, setPc_pc_self]; exact hpo
    · rw [setPc_pc_ne s p hu]; exact hi.not_owner_of_ne hq hu
  have hflag u (hu : u ≠ t) := And.intro (congrArg Pc.inGet (setPc_pc_ne s p hu))
    (congrArg Pc.inReset (setPc_pc_ne s p hu))
  refine ⟨?_, fun u _ hu _ => ?_, fun h => absurd h hx, hpres, hemp, ?_, fun _ _ => Or.inr ⟨t, ?_⟩⟩
  · intro u
    show AtPc _ ((s.setPc t p).pc u)
    by_cases hu : u = t
    · rw [hu, setPc_pc_self]; exact hat
    · rw [setPc_pc_ne s p hu]
      exact AtPc.of_idle _ (hi.not_owner_of_ne hq hu) (hi.not_returning (by rw [hs]; decide) u)
  · exact absurd hu (by rw [hown u]; decide)
  · exact hi.modes_update hflag (by rw [setPc_pc_self, hpg]; exact hi.stay_get rfl)
      (by rw [setPc_pc_self, hpr]; exact hi.stay_reset rfl)
  · show ((s.setPc t p).pc t).isWaker = true
    rw [setPc_pc_self]; exact hpw

/-- `futex_wake(&m_state, INT_MAX)`：眠っているスレッドを全員起こし、起こす役の `t` は先へ進む。 -/
theorem Inv.wake (hi : s.Inv) {q p : Pc} (hpc : s.pc t = q) (hq : q.isWaker = true)
    (hflags : p.isOwner = false ∧ p.asleep = false) (hat : s.AtPc p)
    (hg : p.inGet = true → ∀ u, u ≠ t → (s.pc u).inReset = false)
    (hr : p.inReset = true → ∀ u, u ≠ t → (s.pc u).inGet = false) : (s.wake t p).Inv := by
  subst hpc
  have hqo : (s.pc t).isOwner = false := by revert hq; cases s.pc t <;> decide
  have hown : ∀ u, ((s.wake t p).pc u).isOwner = true → u ≠ t ∧ (s.pc u).isOwner = true :=
    fun u hu => by
      by_cases hut : u = t
      · rw [hut, wake_pc_self, hflags.1] at hu; exact absurd hu (by decide)
      · rw [wake_pc_ne s p hut, (wakeAll_flags s.pc u).2.2.1] at hu; exact ⟨hut, hu⟩
  have hflag u (hu : u ≠ t) : ((s.wake t p).pc u).inGet = (s.pc u).inGet ∧
      ((s.wake t p).pc u).inReset = (s.pc u).inReset := by
    rw [wake_pc_ne s p hu]; exact ⟨(wakeAll_flags s.pc u).1, (wakeAll_flags s.pc u).2.1⟩
  refine ⟨?_, fun u v hu hv => hi.owner_unique u v (hown u hu).2 (hown v hv).2, fun h => ?_,
    hi.present, hi.empty, ?_, fun u hu => ?_⟩
  · intro u
    by_cases hu : u = t
    · rw [hu, wake_pc_self]; exact hat.withPc _
    · rw [wake_pc_ne s p hu]; exact (hi.atPc u).wakeAll.withPc _
  · -- 手順の途中のスレッドは `t` ではなく、起こされもしない
    obtain ⟨w, hw⟩ := hi.updating h
    have hwt : w ≠ t := fun h => by rw [h, hqo] at hw; exact absurd hw (by decide)
    exact ⟨w, by rw [wake_pc_ne s p hwt, (wakeAll_flags s.pc w).2.2.1]; exact hw⟩
  · exact hi.modes_update hflag (by rw [wake_pc_self]; exact hg) (by rw [wake_pc_self]; exact hr)
  · -- 起こした後に眠っているスレッドはいない
    rw [wake_not_asleep hflags.2 u] at hu
    exact absurd hu (by decide)

/-! ## 一歩の式

事象ごとの `next` の式。事象ごとの保存は `next` を開かずにこれらを引く。 -/

theorem next_load (s : Sys τ T) (t : τ) :
    s.next (.load t) =
      match s.pc t, s.state with
      | .getLoad, .Present => s.setPc t .getRet
      | .getLoad, .Updating => s.setPc t .getWait
      | .getLoad, .Empty => s.setPc t .getCas
      | .resetLoad, .Empty => s.setPc t .idle
      | .resetLoad, .Updating => s.setPc t .resetWait
      | .resetLoad, .Present => s.setPc t .resetCas
      | _, _ => s := rfl

theorem next_futexWait (s : Sys τ T) (t : τ) :
    s.next (.futexWait t) =
      match s.pc t with
      | .getWait => s.setPc t (if s.state = .Updating then .getBlocked else .getLoad)
      | .resetWait => s.setPc t (if s.state = .Updating then .resetBlocked else .resetLoad)
      | _ => s := rfl

theorem next_cas (s : Sys τ T) (t : τ) (ok : Bool) :
    s.next (.cas t ok) =
      match s.pc t with
      | .getCas => if ok then { s.setPc t .getCall with state := .Updating } else s.setPc t .getLoad
      | .resetCas =>
        if ok then { s.setPc t .resetDestroy with state := .Updating } else s.setPc t .resetLoad
      | _ => s := rfl

theorem next_fReturn (s : Sys τ T) (t : τ) (v : T) :
    s.next (.fReturn t v) =
      match s.pc t with
      | .getCall =>
        { s.setPc t .getStore with storage := some v, calls := s.calls + 1, produced := some v }
      | _ => s := rfl

theorem next_fThrow (s : Sys τ T) (t : τ) :
    s.next (.fThrow t) =
      match s.pc t with
      | .getCall => s.setPc t .getUndoStore
      | _ => s := rfl

theorem next_destroy (s : Sys τ T) (t : τ) :
    s.next (.destroy t) =
      match s.pc t with
      | .resetDestroy => { s.setPc t .resetStore with storage := none, calls := 0, produced := none }
      | _ => s := rfl

theorem next_store (s : Sys τ T) (t : τ) :
    s.next (.store t) =
      match s.pc t with
      | .getStore => { s.setPc t .getWake with state := .Present }
      | .getUndoStore => { s.setPc t .getUndoWake with state := .Empty }
      | .resetStore => { s.setPc t .resetWake with state := .Empty }
      | _ => s := rfl

theorem next_futexWake (s : Sys τ T) (t : τ) :
    s.next (.futexWake t) =
      match s.pc t with
      | .getWake => s.wake t .getRet
      | .getUndoWake => s.wake t .idle
      | .resetWake => s.wake t .idle
      | _ => s := rfl

theorem next_ret (s : Sys τ T) (t : τ) (v : T) :
    s.next (.ret t v) =
      match s.pc t with
      | .getRet => s.setPc t .idle
      | _ => s := rfl

/-! ## 事象ごとの保存 -/

theorem Inv.callGet (hi : s.Inv) (he : s.Enabled (.callGet t)) : (s.next (.callGet t)).Inv := by
  obtain ⟨hpc, hr⟩ := he
  exact hi.setPc trivial (by rw [hpc]; rfl) (by rw [hpc]; rfl) (fun h => absurd h (by decide))
    (fun _ u _ => hr u) (fun h => absurd h (by decide))

theorem Inv.callReset (hi : s.Inv) (he : s.Enabled (.callReset t)) :
    (s.next (.callReset t)).Inv := by
  obtain ⟨hpc, hg⟩ := he
  exact hi.setPc trivial (by rw [hpc]; rfl) (by rw [hpc]; rfl) (fun h => absurd h (by decide))
    (fun h => absurd h (by decide)) (fun _ u _ => hg u)

theorem Inv.load (hi : s.Inv) (he : s.Enabled (.load t)) : (s.next (.load t)).Inv := by
  rcases he with hpc | hpc
  · -- `get`：`Present` なら参照を返し、`Updating` なら待ち、`Empty` なら `compare_exchange_weak` へ
    cases hst : s.state <;> simp only [next_load, hpc, hst]
    · exact hi.move hpc hst (by decide) (fun h => absurd h (by decide))
    · exact hi.move hpc trivial (by decide) (fun h => absurd h (by decide))
    · exact hi.move hpc trivial (by decide) (fun h => absurd h (by decide))
  · -- `reset`：`Empty` なら何もせずに出る
    cases hst : s.state <;> simp only [next_load, hpc, hst]
    · exact hi.move hpc trivial (by decide) (fun h => absurd h (by decide))
    · exact hi.move hpc trivial (by decide) (fun h => absurd h (by decide))
    · exact hi.leave hpc (by decide)

theorem Inv.futexWait (hi : s.Inv) (he : s.Enabled (.futexWait t)) :
    (s.next (.futexWait t)).Inv := by
  -- 眠るのは `m_state` がまだ `Updating` のときだけ
  rcases he with hpc | hpc <;> simp only [next_futexWait, hpc] <;> split
  · next h => exact hi.move hpc trivial (by decide) fun _ => h
  · exact hi.move hpc trivial (by decide) (fun h => absurd h (by decide))
  · next h => exact hi.move hpc trivial (by decide) fun _ => h
  · exact hi.move hpc trivial (by decide) (fun h => absurd h (by decide))

theorem Inv.cas (hi : s.Inv) {ok : Bool} (he : s.Enabled (.cas t ok)) :
    (s.next (.cas t ok)).Inv := by
  rcases he with ⟨hpc, hok⟩ | ⟨hpc, hok⟩ <;> cases ok
  · -- 失敗（語が `Empty` でも起こりうる）：ループの頭へ戻る
    simp only [next_cas, hpc, Bool.false_eq_true, ↓reduceIte]
    exact hi.move hpc trivial (by decide) (fun h => absurd h (by decide))
  · -- `Empty` を `Updating` にして `f` を呼びに行く
    have hst := hok rfl
    simp only [next_cas, hpc, ↓reduceIte]
    exact hi.claim (by rw [hst]; decide) rfl ⟨rfl, hi.empty hst⟩
      (fun u _ => hi.not_returning (by rw [hst]; decide) u) (hi.stay_get (by rw [hpc]; rfl))
      (fun h => absurd h (by decide))
  · simp only [next_cas, hpc, Bool.false_eq_true, ↓reduceIte]
    exact hi.move hpc trivial (by decide) (fun h => absurd h (by decide))
  · -- `Present` を `Updating` にして値を壊しに行く
    have hst := hok rfl
    simp only [next_cas, hpc, ↓reduceIte]
    exact hi.claim (by rw [hst]; decide) rfl ⟨rfl, hi.present hst⟩
      (fun u _ => hi.not_returning_of_inReset (by rw [hpc]; rfl) u) (fun h => absurd h (by decide))
      (hi.stay_reset (by rw [hpc]; rfl))

theorem Inv.fReturn (hi : s.Inv) {v : T} (he : s.Enabled (.fReturn t v)) :
    (s.next (.fReturn t v)).Inv := by
  have hat := hi.atPc t
  rw [show s.pc t = .getCall from he] at hat
  simp only [next_fReturn, show s.pc t = .getCall from he]
  -- `f` が返るのは値が無いときだけで、返った後はちょうど一回
  have hone : s.calls + 1 = 1 := by rw [hat.2.1]
  refine hi.ownerStep (p := .getStore) he rfl rfl ⟨rfl, rfl⟩ ?_
  exact ⟨hat.1, hone, v, rfl, rfl⟩

theorem Inv.fThrow (hi : s.Inv) (he : s.Enabled (.fThrow t)) : (s.next (.fThrow t)).Inv := by
  have hat := hi.atPc t
  rw [show s.pc t = .getCall from he] at hat
  simp only [next_fThrow, show s.pc t = .getCall from he]
  exact hi.move he hat (by decide) (fun h => absurd h (by decide))

theorem Inv.destroy (hi : s.Inv) (he : s.Enabled (.destroy t)) : (s.next (.destroy t)).Inv := by
  have hat := hi.atPc t
  rw [show s.pc t = .resetDestroy from he] at hat
  simp only [next_destroy, show s.pc t = .resetDestroy from he]
  refine hi.ownerStep (p := .resetStore) he rfl rfl ⟨rfl, rfl⟩ ?_
  exact ⟨hat.1, rfl, rfl⟩

theorem Inv.store (hi : s.Inv) (he : s.Enabled (.store t)) : (s.next (.store t)).Inv := by
  have hat := hi.atPc t
  rcases he with hpc | hpc | hpc <;> rw [hpc] at hat <;> simp only [next_store, hpc]
  · -- 値を作り終えて `Present` を書く
    exact hi.release hpc rfl (by decide) (by decide) rfl (fun _ => hat.2)
      (fun h => absurd h (by decide))
  · -- `SCOPE_FAIL`：`Empty` に戻す
    exact hi.release hpc rfl (by decide) (by decide) trivial (fun h => absurd h (by decide))
      (fun _ => hat.2)
  · exact hi.release hpc rfl (by decide) (by decide) trivial (fun h => absurd h (by decide))
      (fun _ => hat.2)

theorem Inv.futexWake (hi : s.Inv) (he : s.Enabled (.futexWake t)) :
    (s.next (.futexWake t)).Inv := by
  have hat := hi.atPc t
  rcases he with hpc | hpc | hpc <;> rw [hpc] at hat <;> simp only [next_futexWake, hpc]
  · exact hi.wake hpc rfl ⟨rfl, rfl⟩ hat (hi.stay_get (by rw [hpc]; rfl)) (fun h => absurd h (by decide))
  · exact hi.wake hpc rfl ⟨rfl, rfl⟩ trivial (fun h => absurd h (by decide)) (fun h => absurd h (by decide))
  · exact hi.wake hpc rfl ⟨rfl, rfl⟩ trivial (fun h => absurd h (by decide)) (fun h => absurd h (by decide))

theorem Inv.ret (hi : s.Inv) {v : T} (he : s.Enabled (.ret t v)) : (s.next (.ret t v)).Inv := by
  simp only [next_ret, he.1]
  exact hi.leave he.1 (by decide)

/-- 起こせる事象はどれも不変量を保つ。 -/
theorem Inv.next (hi : s.Inv) {e : Event τ T} (he : s.Enabled e) : (s.next e).Inv := by
  cases e with
  | callGet => exact hi.callGet he
  | callReset => exact hi.callReset he
  | load => exact hi.load he
  | futexWait => exact hi.futexWait he
  | cas => exact hi.cas he
  | fReturn => exact hi.fReturn he
  | fThrow => exact hi.fThrow he
  | destroy => exact hi.destroy he
  | store => exact hi.store he
  | futexWake => exact hi.futexWake he
  | ret => exact hi.ret he

/-- どの交互実行でたどり着く状態でも不変量が成り立つ。 -/
theorem reachable_inv (hs : Reachable system s) : s.Inv :=
  Reachable.inv (I := Inv) init_inv (fun _ _ _ hi he => hi.next he) hs

/-! ## 値は一度だけ作られ、眠ったスレッドは起こされる -/

/-- `SCOPE_FAIL` の `store(Empty)` の後、値は無い。 -/
theorem Inv.undoStore (hi : s.Inv) (hpc : s.pc t = .getUndoStore) :
    (s.next (.store t)).state = .Empty ∧ (s.next (.store t)).NoValue := by
  have hat := hi.atPc t
  rw [hpc] at hat
  have hn : s.next (.store t) = { s.setPc t .getUndoWake with state := .Empty } := by
    simp only [Sys.next, hpc]
  rw [hn]
  exact ⟨rfl, hat.2⟩

/-- 起こす役の `futex_wake(&m_state, INT_MAX)` の後、眠っているスレッドはいない。 -/
theorem futexWake_not_asleep (hw : (s.pc t).isWaker = true) (u : τ) :
    ((s.next (.futexWake t)).pc u).asleep = false := by
  obtain h | h | h := Pc.isWaker_iff.mp hw <;> simp only [next_futexWake, h] <;> exact wake_not_asleep rfl u

/-- `Empty` を読んだ `get` は `compare_exchange_weak` に進み、それは成功しうる。 -/
theorem load_empty_cas (hst : s.state = .Empty) (hpc : s.pc t = .getLoad) :
    (s.next (.load t)).Enabled (.cas t true) := by
  simp only [next_load, hpc, hst]
  exact Or.inl ⟨setPc_pc_self s t _, fun _ => hst⟩

/-- 眠っていないスレッドの場所は、ほかのスレッドの事象では変わらない。 -/
theorem next_pc_of_ne {e : Event τ T} {u : τ} (hu : u ≠ e.tid) (hs : (s.pc u).asleep = false) :
    (s.next e).pc u = s.pc u := by
  cases e <;> simp only [Event.tid] at hu <;> simp only [next] <;> repeat' split
  all_goals first
    | rfl
    | exact setPc_pc_ne s _ hu
    | exact (wake_pc_ne s _ hu).trans (wakeAll_of_not_asleep hs)

/-- どの交互実行でも：最後に値を壊してから `f` が正常に返るのは多くとも一回で、`get` が返す
参照はその値を指し、そのとき `m_state` は `Updating` ではなく `Present`。`f` が例外を投げれば
`m_state` は `Empty` に戻って値は無く、`futex_wake` で全員が起き、`Empty` を読んだ `get` はもう一度
`compare_exchange_weak` を試せる。`Updating` でないのに眠っているスレッドがいれば、起こす役の
スレッドがいて、その `futex_wake` はほかのスレッドが何をしても起こせるままで、起こした後に眠って
いるスレッドはいない。 -/
theorem get_once_and_wakes (hs : Reachable system s) :
    (s.calls ≤ 1 ∧ (∀ t v, s.Enabled (.fReturn t v) → s.calls = 0) ∧
      ∀ t v, s.Enabled (.ret t v) → s.state = .Present ∧ s.produced = some v) ∧
    ((∀ t, s.pc t = .getUndoStore →
        (s.next (.store t)).state = .Empty ∧ (s.next (.store t)).NoValue) ∧
      (∀ t, s.pc t = .getUndoWake → ∀ u, ((s.next (.futexWake t)).pc u).asleep = false) ∧
      ∀ t, s.state = .Empty → s.pc t = .getLoad → (s.next (.load t)).Enabled (.cas t true)) ∧
    ∀ u, (s.pc u).asleep = true → s.state ≠ .Updating →
      ∃ w, s.Enabled (.futexWake w) ∧ (∀ e : Event τ T, w ≠ e.tid → (s.next e).Enabled (.futexWake w)) ∧
        ∀ v, ((s.next (.futexWake w)).pc v).asleep = false := by
  have hi := reachable_inv hs
  refine ⟨⟨hi.calls_le_one, fun t v he => hi.calls_of_fReturn he, fun t v he => hi.ret_produced he⟩,
    ⟨fun t => hi.undoStore, fun t hpc => futexWake_not_asleep (by rw [hpc]; rfl),
      fun t => load_empty_cas⟩, ?_⟩
  intro u hu hst
  -- 眠っているスレッドがいて `Updating` でなければ、起こす役がいる
  obtain ⟨w, hw⟩ := (hi.asleep u hu).resolve_left hst
  have hws : (s.pc w).asleep = false := by
    obtain h | h | h := Pc.isWaker_iff.mp hw <;> rw [h] <;> rfl
  refine ⟨w, enabled_futexWake_iff.mpr hw, fun e he => ?_, futexWake_not_asleep hw⟩
  rw [enabled_futexWake_iff, next_pc_of_ne he hws]
  exact hw

/-- スレッド `false` が `f` を呼んで 7 を作り `Present` を書いたところ。`true` は `Updating` を
読んで眠り、まだ起こされていない。 -/
def onceTrace : List (Event Bool Nat) :=
  [.callGet false, .load false, .cas false true, .callGet true, .load true, .futexWait true,
    .fReturn false 7, .store false]

theorem onceTrace_valid : Valid system init onceTrace := by
  decide

/-- `onceTrace` の後の状態。 -/
def onceState : Sys Bool Nat := run system init onceTrace

theorem onceState_reachable : Reachable system onceState :=
  (Reachable.init (S := system)).run onceTrace_valid

/-- `f` が一度返り、`true` が `Present` の下で眠っている状態で：起こす役は `false`。 -/
theorem get_once_and_wakes_onceState :
    Reachable system onceState ∧ onceState.calls = 1 ∧ onceState.state = .Present ∧
      (onceState.pc true).asleep = true ∧
    ((onceState.calls ≤ 1 ∧ (∀ t v, onceState.Enabled (.fReturn t v) → onceState.calls = 0) ∧
      ∀ t v, onceState.Enabled (.ret t v) →
        onceState.state = .Present ∧ onceState.produced = some v) ∧
    ((∀ t, onceState.pc t = .getUndoStore →
        (onceState.next (.store t)).state = .Empty ∧ (onceState.next (.store t)).NoValue) ∧
      (∀ t, onceState.pc t = .getUndoWake →
        ∀ u, ((onceState.next (.futexWake t)).pc u).asleep = false) ∧
      ∀ t, onceState.state = .Empty → onceState.pc t = .getLoad →
        (onceState.next (.load t)).Enabled (.cas t true)) ∧
    ∀ u, (onceState.pc u).asleep = true → onceState.state ≠ .Updating →
      ∃ w, onceState.Enabled (.futexWake w) ∧
        (∀ e : Event Bool Nat, w ≠ e.tid → (onceState.next e).Enabled (.futexWake w)) ∧
        ∀ v, ((onceState.next (.futexWake w)).pc v).asleep = false) :=
  ⟨onceState_reachable, by decide, by decide, by decide, get_once_and_wakes onceState_reachable⟩

end Sys

end Hhvm.LockFreeLazy
