import Mathlib.Data.List.Basic
import Mathlib.Tactic.Ring

set_option autoImplicit false

namespace OmryaKv.Lib

variable {α β γ : Type}

section

variable [Ord γ]

-- Two codewords compare as what they encode, whatever follows them, and what
-- follows decides only a tie.
def Sorts (code : α → List γ) (order : α → α → Ordering) : Prop :=
  ∀ a b x y, compare (code a ++ x) (code b ++ y) = (order a b).then (compare x y)

theorem compare_append_same_length (u v x y : List γ) (same : u.length = v.length) :
    compare (u ++ x) (v ++ y) = (compare u v).then (compare x y) := by
  induction u generalizing v with
  | nil =>
    rw [List.eq_nil_of_length_eq_zero same.symm]
    rfl
  | cons a u ih =>
    cases v with
    | nil => cases same
    | cons b v =>
      rw [List.cons_append, List.cons_append, List.compare_cons_cons, List.compare_cons_cons, ih v (Nat.succ.inj same),
        Ordering.then_assoc]

theorem sorts_fixed_length (code : α → List γ) (order : α → α → Ordering) (width : Nat)
    (fixed : ∀ a, (code a).length = width) (ordered : ∀ a b, compare (code a) (code b) = order a b) : Sorts code order := by
  intro a b x y
  rw [compare_append_same_length _ _ _ _ ((fixed a).trans (fixed b).symm), ordered]

-- A word coded letter by letter and closed by a letter below all of those.
theorem sorts_terminated [Ord β] [Std.OrientedOrd γ] (letter : β → List γ) (stop : γ) (sorted : Sorts letter compare)
    (low : ∀ b, ∃ head tail, letter b = head :: tail ∧ compare stop head = .lt) :
    Sorts (fun word : List β => word.flatMap letter ++ [stop]) compare := by
  intro a b x y
  induction a generalizing b with
  | nil =>
    cases b with
    | nil => simp [List.compare_cons_cons, Std.ReflCmp.compare_self]
    | cons other b =>
      obtain ⟨head, tail, starts, below⟩ := low other
      simp [List.flatMap_cons, starts, List.compare_cons_cons, below]
  | cons letter' a ih =>
    cases b with
    | nil =>
      obtain ⟨head, tail, starts, below⟩ := low letter'
      have above : compare head stop = .gt := Std.OrientedCmp.gt_of_lt below
      simp [List.flatMap_cons, starts, List.compare_cons_cons, above]
    | cons other b =>
      have rest := ih b
      simp only [List.flatMap_cons, List.append_assoc] at rest ⊢
      rw [sorted, rest, List.compare_cons_cons, Ordering.then_assoc]

theorem sorts_cancel [Std.LawfulEqOrd γ] (code : α → List γ) (order : α → α → Ordering) (sorted : Sorts code order)
    (same : ∀ a b, order a b = .eq → a = b) (a b : α) (x y : List γ) : code a ++ x = code b ++ y ↔ a = b ∧ x = y := by
  constructor
  · intro equal
    have tie : (order a b).then (compare x y) = .eq := by
      rw [← sorted a b x y, equal]
      exact Std.ReflCmp.compare_self
    rw [Ordering.then_eq_eq] at tie
    exact ⟨same a b tie.1, Std.LawfulEqCmp.eq_of_compare tie.2⟩
  · rintro ⟨rfl, rfl⟩
    rfl

theorem sorts_prefix [Std.LawfulEqOrd γ] (code : α → List γ) (order : α → α → Ordering) (sorted : Sorts code order)
    (same : ∀ a b, order a b = .eq → a = b) (a b : α) (x y : List γ) : code a ++ x <+: code b ++ y ↔ a = b ∧ x <+: y := by
  constructor
  · rintro ⟨more, joined⟩
    rw [List.append_assoc, sorts_cancel code order sorted same] at joined
    exact ⟨joined.1, more, joined.2⟩
  · rintro ⟨rfl, more, rfl⟩
    exact ⟨more, List.append_assoc _ _ _⟩

end

def beBytes : Nat → Nat → List UInt8
  | 0, _ => []
  | width + 1, n => UInt8.ofNat (n / 256 ^ width) :: beBytes width (n % 256 ^ width)

def beNat : List UInt8 → Nat
  | [] => 0
  | byte :: bytes => byte.toNat * 256 ^ bytes.length + beNat bytes

@[simp] theorem be_bytes_length (width n : Nat) : (beBytes width n).length = width := by
  induction width generalizing n with
  | zero => rfl
  | succ width ih => simp [beBytes, ih]

theorem be_nat_lt (bytes : List UInt8) : beNat bytes < 256 ^ bytes.length := by
  induction bytes with
  | nil => exact Nat.one_pos
  | cons byte bytes ih =>
    have digit : byte.toNat ≤ 255 := Nat.le_of_lt_succ byte.toNat_lt
    calc byte.toNat * 256 ^ bytes.length + beNat bytes
        < byte.toNat * 256 ^ bytes.length + 256 ^ bytes.length := Nat.add_lt_add_left ih _
      _ ≤ 255 * 256 ^ bytes.length + 256 ^ bytes.length := Nat.add_le_add_right (Nat.mul_le_mul_right _ digit) _
      _ = 256 ^ (bytes.length + 1) := by ring

theorem be_digit (width n : Nat) (fits : n < 256 ^ (width + 1)) : (UInt8.ofNat (n / 256 ^ width)).toNat = n / 256 ^ width := by
  rw [UInt8.toNat_ofNat']
  exact Nat.mod_eq_of_lt (Nat.div_lt_of_lt_mul (by rwa [pow_succ] at fits))

theorem be_nat_be_bytes (width n : Nat) (fits : n < 256 ^ width) : beNat (beBytes width n) = n := by
  induction width generalizing n with
  | zero => exact (Nat.lt_one_iff.mp fits).symm
  | succ width ih =>
    rw [beBytes, beNat, be_digit width n fits, be_bytes_length, ih _ (Nat.mod_lt _ (Nat.pos_of_neZero _))]
    exact Nat.div_add_mod' n (256 ^ width)

theorem be_bytes_be_nat (bytes : List UInt8) : beBytes bytes.length (beNat bytes) = bytes := by
  induction bytes with
  | nil => rfl
  | cons byte bytes ih =>
    have small := be_nat_lt bytes
    have high : (byte.toNat * 256 ^ bytes.length + beNat bytes) / 256 ^ bytes.length = byte.toNat := by
      rw [Nat.mul_comm, Nat.mul_add_div (Nat.pos_of_neZero _), Nat.div_eq_of_lt small, Nat.add_zero]
    have low : (byte.toNat * 256 ^ bytes.length + beNat bytes) % 256 ^ bytes.length = beNat bytes := by
      rw [Nat.mul_comm, Nat.mul_add_mod, Nat.mod_eq_of_lt small]
    rw [List.length_cons, beBytes, beNat, high, low, ih, UInt8.ofNat_toNat]

theorem compare_byte (a b : UInt8) : compare a b = compare a.toNat b.toNat := by
  change compareOfLessAndEq a b = compareOfLessAndEq a.toNat b.toNat
  simp only [compareOfLessAndEq, UInt8.lt_iff_toNat_lt, UInt8.toNat_inj]

theorem compare_div_mod (base m n : Nat) :
    (compare (m / base) (n / base)).then (compare (m % base) (n % base)) = compare m n := by
  have mSplit := Nat.div_add_mod m base
  have nSplit := Nat.div_add_mod n base
  rcases Nat.lt_trichotomy (m / base) (n / base) with less | equal | more
  · have smaller : m < n := lt_of_not_ge fun ge => Nat.not_lt.mpr (Nat.div_le_div_right ge) less
    rw [Nat.compare_eq_lt.mpr less, Nat.compare_eq_lt.mpr smaller]
    rfl
  · rw [equal] at mSplit ⊢
    have less : m % base < n % base ↔ m < n := by omega
    have more : n % base < m % base ↔ n < m := by omega
    rw [Nat.compare_eq_eq.mpr rfl]
    simp only [Ordering.then, Nat.compare_eq_ite_lt, less, more]
  · have larger : n < m := lt_of_not_ge fun ge => Nat.not_lt.mpr (Nat.div_le_div_right ge) more
    rw [Nat.compare_eq_gt.mpr more, Nat.compare_eq_gt.mpr larger]
    rfl

theorem compare_be_bytes (width m n : Nat) (mFits : m < 256 ^ width) (nFits : n < 256 ^ width) :
    compare (beBytes width m) (beBytes width n) = compare m n := by
  induction width generalizing m n with
  | zero =>
    rw [Nat.lt_one_iff.mp mFits, Nat.lt_one_iff.mp nFits]
    rfl
  | succ width ih =>
    have pos : 0 < 256 ^ width := Nat.pos_of_neZero _
    rw [beBytes, beBytes, List.compare_cons_cons, ih _ _ (Nat.mod_lt m pos) (Nat.mod_lt n pos), compare_byte,
      be_digit width m mFits, be_digit width n nFits, compare_div_mod]

-- Flipping the sign bit of a two's complement number moves the negative ones below.
theorem xor_top_bit (width n : Nat) (fits : n < 2 ^ (width + 1)) :
    n ^^^ 2 ^ width = if n < 2 ^ width then n + 2 ^ width else n - 2 ^ width := by
  have pos : 0 < 2 ^ width := Nat.two_pow_pos width
  have double : 2 ^ (width + 1) = 2 ^ width + 2 ^ width := by ring
  have high : (n ^^^ 2 ^ width) / 2 ^ width = n / 2 ^ width ^^^ 1 := by rw [Nat.xor_div_two_pow, Nat.div_self pos]
  have low : (n ^^^ 2 ^ width) % 2 ^ width = n % 2 ^ width := by rw [Nat.xor_mod_two_pow, Nat.mod_self, Nat.xor_zero]
  have joined := Nat.div_add_mod (n ^^^ 2 ^ width) (2 ^ width)
  have split := Nat.div_add_mod n (2 ^ width)
  rw [high, low] at joined
  by_cases small : n < 2 ^ width
  · rw [Nat.div_eq_of_lt small] at joined
    rw [if_pos small, ← joined, Nat.mod_eq_of_lt small, Nat.zero_xor, Nat.mul_one, Nat.add_comm]
  · have one : n / 2 ^ width = 1 := Nat.div_eq_of_lt_le (by omega) (by omega)
    rw [one] at joined split
    rw [if_neg small, ← joined, Nat.xor_self, Nat.mul_zero]
    omega

end OmryaKv.Lib
