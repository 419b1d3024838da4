import Mathlib.Logic.Basic

/-!
# `Except` の結果の逆算

`do` で書かれた失敗しうる計算が `.ok` を返したとき、各段がどの値を返したかを取り出す。
モデルの操作の性質はすべて、これらの補題で段ごとに分けて示す。
-/

namespace Infra.Except

variable {ε α β : Type}

/-- `x >>= f` が `.ok` を返すのは、`x` が `.ok a` を返し、`f a` が `.ok` を返すときである。 -/
theorem bind_eq_ok {x : Except ε α} {f : α → Except ε β} {b : β} :
    x >>= f = .ok b ↔ ∃ a, x = .ok a ∧ f a = .ok b := by
  cases x with
  | error e =>
    constructor
    · intro h
      cases h
    · rintro ⟨a, h, -⟩
      cases h
  | ok a =>
    constructor
    · intro h
      exact ⟨a, rfl, h⟩
    · rintro ⟨a', h, hf⟩
      cases h
      exact hf

/-- `x >>= f` が失敗するのは、`x` が失敗するか、`x` の値で `f` が失敗するときである。 -/
theorem bind_eq_error {x : Except ε α} {f : α → Except ε β} {e : ε} :
    x >>= f = .error e ↔ x = .error e ∨ ∃ a, x = .ok a ∧ f a = .error e := by
  cases x with
  | error e' =>
    have hb : (Except.error e' : Except ε α) >>= f = .error e' := rfl
    rw [hb]
    constructor
    · intro h
      cases h
      exact Or.inl rfl
    · rintro (h | ⟨_, h, _⟩)
      · cases h
        rfl
      · cases h
  | ok a =>
    constructor
    · intro h
      exact Or.inr ⟨a, rfl, h⟩
    · rintro (h | ⟨a', h, hf⟩)
      · cases h
      · cases h
        exact hf

theorem map_eq_ok {x : Except ε α} {f : α → β} {b : β} :
    x.map f = .ok b ↔ ∃ a, x = .ok a ∧ f a = b := by
  cases x with
  | error e =>
    constructor
    · intro h
      cases h
    · rintro ⟨a, h, -⟩
      cases h
  | ok a =>
    constructor
    · intro h
      cases h
      exact ⟨a, rfl, rfl⟩
    · rintro ⟨a', h, rfl⟩
      cases h
      rfl

theorem ok_bind (a : α) (f : α → Except ε β) : (Except.ok a >>= f) = f a := rfl

theorem error_bind (e : ε) (f : α → Except ε β) : (Except.error e >>= f) = Except.error e := rfl

theorem pure_eq (a : α) : (pure a : Except ε α) = .ok a := rfl

theorem pure_eq_ok {a b : α} : (pure a : Except ε α) = .ok b ↔ a = b :=
  ⟨fun h => Except.ok.inj h, fun h => h ▸ rfl⟩

theorem throw_ne_ok {e : ε} {b : α} : (throw e : Except ε α) ≠ .ok b :=
  fun h => nomatch h

/-! ## 事後条件

成功の値と失敗の誤りの両方についての条件。`do` の各段に一つずつ規則を当てて示す。 -/

/-- `x` の結果が、成功なら値について `P` を、失敗なら誤りについて `Q` を満たす。 -/
def Post (P : α → Prop) (Q : ε → Prop) : Except ε α → Prop
  | .ok a => P a
  | .error e => Q e

section Post

variable {P P' : α → Prop} {R : β → Prop} {Q : ε → Prop}

@[simp]
theorem post_ok {a : α} : Post P Q (.ok a : Except ε α) ↔ P a := Iff.rfl

@[simp]
theorem post_error {e : ε} : Post P Q (.error e : Except ε α) ↔ Q e := Iff.rfl

theorem Post.pure {a : α} (h : P a) : Post P Q (pure a : Except ε α) := h

theorem Post.throw {e : ε} (h : Q e) : Post P Q (throw e : Except ε α) := h

/-- 逐次合成：`x` の値が `P` を満たせば `f` が事後条件を保つ。 -/
theorem Post.bind {x : Except ε α} {f : α → Except ε β} (hx : Post P Q x)
    (hf : ∀ a, P a → Post R Q (f a)) : Post R Q (x >>= f) := by
  cases x with
  | error e => exact hx
  | ok a => exact hf a hx

theorem Post.map {x : Except ε α} {f : α → β} (hx : Post P Q x) (hf : ∀ a, P a → R (f a)) :
    Post R Q (x.map f) := by
  cases x with
  | error e => exact hx
  | ok a => exact hf a hx

theorem Post.mono {x : Except ε α} (hx : Post P Q x) (h : ∀ a, P a → P' a) : Post P' Q x := by
  cases x with
  | error e => exact hx
  | ok a => exact h a hx

/-- 誤りの条件 `Q` を満たさない誤りで失敗することはない。 -/
theorem Post.ne_error {x : Except ε α} {e : ε} (hx : Post P Q x) (he : ¬Q e) : x ≠ .error e := by
  rintro rfl
  exact he hx

end Post

end Infra.Except
