import Mathlib.Data.UInt

/-!
# 10 進の文字列

自然数の 10 進表記 `Nat.toDigits 10` を byte の列として扱う。

* `digits n` は `n` の 10 進の数字の byte。最後の桁は末尾から外れる（`digits_of_le`）。
* `value l acc` は数字の byte の列を先頭から `a * 10 + d` で読む値で、`digits` の逆
  （`value_digits`）。
* 0 でない数の表記は `'0'` で始まらず（`headD_digits_ne_zero`）、`'0'` で始まらない数字の列は
  その値の表記そのもの（`digits_value`）。
-/

namespace Infra.Decimal

/-- `'0'` から `'9'` までの byte。 -/
def IsDigit (c : UInt8) : Prop := 0x30 ≤ c.toNat ∧ c.toNat ≤ 0x39

instance : DecidablePred IsDigit := fun _ => inferInstanceAs (Decidable (_ ∧ _))

/-- `n` の 10 進の数字の byte の列。 -/
def digits (n : Nat) : List UInt8 := (Nat.toDigits 10 n).map Char.toUInt8

/-- 数字の byte の列を先頭から読んだ値。 -/
def value (l : List UInt8) (acc : Nat) : Nat := l.foldl (fun a c => a * 10 + (c.toNat - 0x30)) acc

/-! ## 一桁 -/

theorem toUInt8_digitChar {d : Nat} (h : d < 10) : (Nat.digitChar d).toUInt8 = UInt8.ofNat (0x30 + d) := by
  have hall : ∀ e ∈ List.range 10, (Nat.digitChar e).toUInt8 = UInt8.ofNat (0x30 + e) := by decide
  exact hall d (List.mem_range.mpr h)

theorem toNat_ofNat_digit {d : Nat} (h : d < 10) : (UInt8.ofNat (0x30 + d)).toNat = 0x30 + d :=
  UInt8.toNat_ofNat_of_lt' (by rw [UInt8.size]; omega)

theorem isDigit_ofNat {d : Nat} (h : d < 10) : IsDigit (UInt8.ofNat (0x30 + d)) := by
  have hn := toNat_ofNat_digit h
  unfold IsDigit
  omega

/-- 数字の byte は、その値から作り直せる。 -/
theorem ofNat_toNat_sub {c : UInt8} (h : IsDigit c) : UInt8.ofNat (0x30 + (c.toNat - 0x30)) = c := by
  unfold IsDigit at h
  apply UInt8.toNat_inj.mp
  rw [UInt8.toNat_ofNat_of_lt' (by rw [UInt8.size]; omega)]
  omega

/-! ## 表記 -/

theorem digits_of_lt {n : Nat} (h : n < 10) : digits n = [UInt8.ofNat (0x30 + n)] := by
  rw [digits, Nat.toDigits_of_lt_base h, List.map_singleton, toUInt8_digitChar h]

/-- 10 以上なら、最後の桁が末尾から外れる。 -/
theorem digits_of_le {n : Nat} (h : 10 ≤ n) :
    digits n = digits (n / 10) ++ [UInt8.ofNat (0x30 + n % 10)] := by
  rw [digits, Nat.toDigits_of_base_le (by decide) h, List.map_append, List.map_singleton,
    toUInt8_digitChar (Nat.mod_lt _ (by decide))]
  rfl

theorem digits_ne_nil (n : Nat) : digits n ≠ [] := by
  rw [digits, ne_eq, List.map_eq_nil_iff]
  exact Nat.toDigits_ne_nil

theorem isDigit_of_mem_digits {n : Nat} {c : UInt8} (h : c ∈ digits n) : IsDigit c := by
  induction n using Nat.strong_induction_on with
  | _ n ih =>
    by_cases hn : n < 10
    · rw [digits_of_lt hn, List.mem_singleton] at h
      subst h
      exact isDigit_ofNat hn
    · rw [digits_of_le (by omega), List.mem_append, List.mem_singleton] at h
      rcases h with h | h
      · exact ih (n / 10) (by omega) h
      · subst h
        exact isDigit_ofNat (Nat.mod_lt _ (by decide))

/-- 0 でない数の表記は `'0'` で始まらない。 -/
theorem headD_digits_ne_zero {n : Nat} (hn : n ≠ 0) : (digits n).headD 0 ≠ 0x30 := by
  induction n using Nat.strong_induction_on with
  | _ n ih =>
    by_cases hlt : n < 10
    · rw [digits_of_lt hlt, List.headD_cons]
      intro h
      have := congrArg UInt8.toNat h
      rw [toNat_ofNat_digit hlt] at this
      exact hn (by simpa using this)
    · -- 上の桁の先頭がそのまま先頭になる
      have hne := ih (n / 10) (by omega) (by omega)
      rw [digits_of_le (by omega)]
      obtain ⟨c, cs, hcs⟩ := List.exists_cons_of_ne_nil (digits_ne_nil (n / 10))
      rw [hcs] at hne ⊢
      exact hne

/-- `k` 桁に収まる数の表記は `k` byte 以下。 -/
theorem length_digits_le {n k : Nat} (hk : 0 < k) (h : n < 10 ^ k) : (digits n).length ≤ k := by
  induction k generalizing n with
  | zero => omega
  | succ k ih =>
    by_cases hlt : n < 10
    · rw [digits_of_lt hlt, List.length_singleton]
      omega
    · have hq : n / 10 < 10 ^ k := by
        rw [Nat.pow_succ] at h
        omega
      have hk' : 0 < k := by
        rcases k with _ | k
        · rw [Nat.pow_zero] at hq
          omega
        · omega
      rw [digits_of_le (by omega), List.length_append, List.length_singleton]
      have := ih hk' hq
      omega

/-! ## 値 -/

theorem value_append_singleton (l : List UInt8) (c : UInt8) (acc : Nat) :
    value (l ++ [c]) acc = value l acc * 10 + (c.toNat - 0x30) := by
  rw [value, List.foldl_append, List.foldl_cons, List.foldl_nil]
  rfl

theorem value_cons (c : UInt8) (l : List UInt8) (acc : Nat) :
    value (c :: l) acc = value l (acc * 10 + (c.toNat - 0x30)) := by
  rw [value, value, List.foldl_cons]

theorem le_value (l : List UInt8) (acc : Nat) : acc ≤ value l acc := by
  induction l generalizing acc with
  | nil => exact Nat.le_refl _
  | cons c l ih =>
    rw [value_cons]
    have := ih (acc * 10 + (c.toNat - 0x30))
    omega

/-- 表記を読むと元の数。`acc` から読み始めれば、その分だけ上の桁に残る。 -/
theorem value_digits (n acc : Nat) : value (digits n) acc = 10 ^ (digits n).length * acc + n := by
  induction n using Nat.strong_induction_on generalizing acc with
  | _ n ih =>
    by_cases hlt : n < 10
    · rw [digits_of_lt hlt, value_cons, toNat_ofNat_digit hlt, List.length_singleton, Nat.pow_one]
      show acc * 10 + (0x30 + n - 0x30) = 10 * acc + n
      omega
    · rw [digits_of_le (by omega), value_append_singleton, ih (n / 10) (by omega),
        toNat_ofNat_digit (Nat.mod_lt _ (by decide)), List.length_append, List.length_singleton,
        Nat.pow_succ]
      -- `n = (n / 10) * 10 + n % 10`
      have hn := Nat.div_add_mod n 10
      have e : (10 ^ (digits (n / 10)).length * acc + n / 10) * 10 + (0x30 + n % 10 - 0x30) =
          10 ^ (digits (n / 10)).length * 10 * acc + (10 * (n / 10) + n % 10) := by
        rw [Nat.add_mul, Nat.mul_right_comm]
        omega
      rw [e, hn]

/-- 数字の列の値は、その長さの桁に収まる。 -/
theorem value_lt (l : List UInt8) (hd : ∀ c ∈ l, IsDigit c) (acc : Nat) :
    value l acc < (acc + 1) * 10 ^ l.length := by
  induction l generalizing acc with
  | nil =>
    show acc < (acc + 1) * 1
    omega
  | cons c l ih =>
    have hc := hd c List.mem_cons_self
    unfold IsDigit at hc
    rw [value_cons, List.length_cons, Nat.pow_succ]
    have := ih (fun x hx => hd x (List.mem_cons_of_mem _ hx)) (acc * 10 + (c.toNat - 0x30))
    have hle : (acc * 10 + (c.toNat - 0x30) + 1) * 10 ^ l.length ≤ (acc + 1) * (10 ^ l.length * 10) := by
      rw [Nat.mul_comm (10 ^ l.length) 10, ← Nat.mul_assoc]
      exact Nat.mul_le_mul_right _ (by omega)
    omega

/-- `'0'` で始まらない数字の列（一桁の `"0"` は許す）は、その値の表記そのもの。 -/
theorem digits_value (l : List UInt8) (hne : l ≠ []) (hd : ∀ c ∈ l, IsDigit c)
    (h0 : 1 < l.length → l.headD 0 ≠ 0x30) : digits (value l 0) = l := by
  induction l using List.reverseRecOn with
  | nil => exact absurd rfl hne
  | append_singleton l c ih =>
    have hc := hd c (List.mem_append_right _ List.mem_cons_self)
    have hl : ∀ x ∈ l, IsDigit x := fun x hx => hd x (List.mem_append_left _ hx)
    unfold IsDigit at hc
    rw [value_append_singleton]
    rcases l with _ | ⟨a, l'⟩
    · -- 一桁
      rw [show value [] 0 = 0 from rfl, Nat.zero_mul, Nat.zero_add,
        digits_of_lt (by omega), ofNat_toNat_sub hc]
      rfl
    · -- 上の桁は 1 以上で、その表記は `a :: l'`
      have ha := hl a List.mem_cons_self
      have ha0 : a ≠ 0x30 := by
        have := h0 (by simp)
        simpa using this
      have hpos : 1 ≤ value (a :: l') 0 := by
        rw [value_cons]
        have := le_value l' (0 * 10 + (a.toNat - 0x30))
        have : a.toNat ≠ 0x30 := fun h => ha0 (UInt8.toNat_inj.mp h)
        unfold IsDigit at ha
        omega
      have hih := ih (List.cons_ne_nil _ _) hl (fun _ => by simpa using ha0)
      rw [digits_of_le (by omega)]
      have hdiv : (value (a :: l') 0 * 10 + (c.toNat - 0x30)) / 10 = value (a :: l') 0 := by omega
      have hmod : (value (a :: l') 0 * 10 + (c.toNat - 0x30)) % 10 = c.toNat - 0x30 := by omega
      rw [hdiv, hmod, hih, ofNat_toNat_sub hc]

end Infra.Decimal
