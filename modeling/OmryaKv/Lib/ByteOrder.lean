import Mathlib.Data.List.Lex

set_option autoImplicit false

namespace OmryaKv.Lib

instance byteLinearOrder : LinearOrder UInt8 where
  le_refl := UInt8.le_refl
  le_trans _ _ _ := UInt8.le_trans
  lt_iff_le_not_ge a b := by
    simp only [UInt8.lt_iff_toNat_lt, UInt8.le_iff_toNat_le]
    omega
  le_antisymm _ _ := UInt8.le_antisymm
  le_total := UInt8.le_total
  toDecidableLE := inferInstance
  compare_eq_compareOfLessAndEq _ _ := rfl

theorem compare_lt_iff (a b : List UInt8) : compare a b = .lt ↔ a < b := by
  induction a generalizing b with
  | nil => cases b <;> simp
  | cons first a ih =>
    cases b with
    | nil => simp
    | cons other b =>
      rw [List.compare_cons_cons, List.cons_lt_cons_iff, Ordering.then_eq_lt, ih, compare_lt_iff_lt, compare_eq_iff_eq]

-- The least string above all those that start with the given one, if there is one.
def successor : List UInt8 → Option (List UInt8)
  | [] => none
  | byte :: rest =>
    match successor rest with
    | some next => some (byte :: next)
    | none => if byte = 255 then none else some [byte + 1]

theorem lt_succ_byte (byte other : UInt8) (room : byte ≠ 255) : other < byte + 1 ↔ other ≤ byte := by
  have below : byte.toNat ≠ 255 := fun top => room (UInt8.toNat_inj.mp top)
  have bounded := byte.toNat_lt
  rw [UInt8.lt_iff_toNat_lt, UInt8.le_iff_toNat_le, UInt8.toNat_add, UInt8.toNat_one]
  omega

theorem prefix_iff_between (pfx key : List UInt8) :
    pfx <+: key ↔ pfx ≤ key ∧ ∀ next, successor pfx = some next → key < next := by
  rw [← not_lt]
  induction pfx generalizing key with
  | nil => simp [successor]
  | cons byte rest ih =>
    cases key with
    | nil => simp
    | cons other key =>
      have head : ¬ other < byte ↔ byte ≤ other := not_lt
      rw [List.cons_prefix_cons, List.cons_lt_cons_iff, ih, not_or, not_and, head]
      cases above : successor rest with
      | some next =>
        simp only [successor, above, Option.some.injEq, forall_eq', List.cons_lt_cons_iff]
        constructor
        · rintro ⟨rfl, least, less⟩
          exact ⟨⟨le_refl _, fun _ => least⟩, .inr ⟨rfl, less⟩⟩
        · rintro ⟨⟨least, rest⟩, smaller | ⟨rfl, less⟩⟩
          · exact absurd smaller (not_lt.mpr least)
          · exact ⟨rfl, rest rfl, less⟩
      | none =>
        by_cases top : byte = 255
        · simp only [successor, above, top, if_true]
          constructor
          · rintro ⟨rfl, least, _⟩
            exact ⟨⟨le_refl _, fun _ => least⟩, by simp⟩
          · rintro ⟨⟨least, rest⟩, _⟩
            have same : other = 255 := le_antisymm (UInt8.le_iff_toNat_le.mpr (Nat.le_of_lt_succ other.toNat_lt)) least
            exact ⟨same.symm, rest same, by simp⟩
        · simp only [successor, above, if_neg top, Option.some.injEq, forall_eq', List.cons_lt_cons_iff,
            List.not_lt_nil, and_false, or_false, lt_succ_byte byte other top]
          constructor
          · rintro ⟨rfl, least, _⟩
            exact ⟨⟨le_refl _, fun _ => least⟩, le_refl _⟩
          · rintro ⟨⟨least, rest⟩, most⟩
            have same := le_antisymm most least
            exact ⟨same.symm, rest same, by simp⟩

end OmryaKv.Lib
