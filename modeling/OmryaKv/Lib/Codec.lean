import OmryaKv.Lib.Effect
import Mathlib.Data.List.Basic
import Mathlib.Tactic.Ring

set_option autoImplicit false

namespace OmryaKv.Lib

variable {ε β α γ : Type}

-- A decoder takes what it reads off the front of its input. A failed read
-- still leaves the reader somewhere, so an error carries the rest as well.
abbrev Decoder (ε β α : Type) := EStateM ε (List β) α

def readExact (eof : ε) (n : Nat) : Decoder ε β (List β) := fun input =>
  if input.length < n then .error eof [] else .ok (input.take n) (input.drop n)

def readByte (eof : ε) : Decoder ε β β
  | [] => .error eof []
  | byte :: rest => .ok byte rest

variable (d : Decoder ε β α)

theorem decoder_bind (f : α → Decoder ε β γ) (input : List β) : (d >>= f).run input = match d.run input with
      | .ok a rest => (f a).run rest
      | .error e rest => .error e rest := by
  change EStateM.bind d f input = _
  rw [EStateM.bind, EStateM.run]
  cases d input <;> rfl

theorem decoder_bind_ok (f : α → Decoder ε β γ) (input rest : List β) (c : γ)
    (read : (d >>= f).run input = .ok c rest) : ∃ a left, d.run input = .ok a left ∧ (f a).run left = .ok c rest :=
  bind_ok d f input rest c read

variable (eof : ε)

theorem read_exact_ok (n : Nat) (input bytes rest : List β) (read : (readExact eof n).run input = .ok bytes rest) :
    input = bytes ++ rest ∧ bytes.length = n := by
  rw [EStateM.run, readExact] at read
  split at read
  · cases read
  · next enough =>
      cases read
      refine ⟨(List.take_append_drop n input).symm, ?_⟩
      rw [List.length_take]
      omega

def Decodes (d : Decoder ε β α) (bytes : List β) (a : α) : Prop := ∀ tail, d.run (bytes ++ tail) = .ok a tail

theorem decodes_pure (a : α) : Decodes (pure a : Decoder ε β α) [] a := fun _ => rfl

theorem decodes_read_exact (n : Nat) (bytes : List β) (length : bytes.length = n) : Decodes (readExact eof n) bytes bytes := by
  intro tail
  have enough : ¬ (bytes ++ tail).length < n := by rw [List.length_append]; omega
  rw [EStateM.run, readExact, if_neg enough, ← length, List.take_left, List.drop_left]

theorem decodes_read_byte (byte : β) : Decodes (readByte eof) [byte] byte := fun _ => rfl

theorem decodes_bind (f : α → Decoder ε β γ) (front back : List β) (a : α) (c : γ) (first : Decodes d front a)
    (second : Decodes (f a) back c) : Decodes (d >>= f) (front ++ back) c := by
  intro tail
  rw [decoder_bind, List.append_assoc, first]
  exact second tail

theorem decodes_then (f : α → Decoder ε β γ) (front : List β) (a : α) (first : Decodes d front a)
    (rest : List β) : (d >>= f).run (front ++ rest) = (f a).run rest := by
  rw [decoder_bind, first]

theorem decodes_last (f : α → Decoder ε β γ) (bytes : List β) (a : α) (c : γ) (read : Decodes d bytes a)
    (returned : f a = pure c) : Decodes (d >>= f) bytes c := by
  intro tail
  rw [decoder_bind, read]
  change (f a).run tail = _
  rw [returned]
  rfl

-- What a decoder accepts is decided by the bytes it consumed, and no decoder
-- gives back more than it was given.
structure Framed (d : Decoder ε β α) : Prop where
  accepted : ∀ input a rest, d.run input = .ok a rest → ∃ used, input = used ++ rest ∧ Decodes d used a
  refused : ∀ input e rest, d.run input = .error e rest → rest.length ≤ input.length

theorem framed_pure (a : α) : Framed (pure a : Decoder ε β α) := by
  constructor
  · rintro input _ _ ⟨⟩
    exact ⟨[], rfl, decodes_pure a⟩
  · rintro input _ _ ⟨⟩

theorem framed_throw (e : ε) : Framed (throw e : Decoder ε β α) := by
  constructor
  · rintro input _ _ ⟨⟩
  · rintro input _ _ ⟨⟩
    exact Nat.le_refl _

theorem framed_read_exact (n : Nat) : Framed (readExact eof n : Decoder ε β (List β)) := by
  constructor
  · intro input a rest read
    obtain ⟨split, length⟩ := read_exact_ok eof n input a rest read
    exact ⟨a, split, decodes_read_exact eof n a length⟩
  · intro input e rest read
    rw [EStateM.run, readExact] at read
    split at read
    · cases read
      exact Nat.zero_le _
    · cases read

theorem framed_read_byte : Framed (readByte eof : Decoder ε β β) := by
  constructor
  · intro input a rest read
    cases input with
    | nil => cases read
    | cons byte tail =>
      cases read
      exact ⟨[a], rfl, decodes_read_byte eof a⟩
  · intro input e rest read
    cases input with
    | nil =>
      cases read
      exact Nat.le_refl _
    | cons byte tail => cases read

theorem framed_bind (f : α → Decoder ε β γ) (first : Framed d) (second : ∀ a, Framed (f a)) : Framed (d >>= f) := by
  constructor
  · intro input c rest read
    obtain ⟨a, left, firstRead, secondRead⟩ := decoder_bind_ok d f input rest c read
    obtain ⟨front, rfl, front_decodes⟩ := first.accepted input a left firstRead
    obtain ⟨back, rfl, back_decodes⟩ := (second a).accepted left c rest secondRead
    exact ⟨front ++ back, (List.append_assoc _ _ _).symm, decodes_bind d f front back a c front_decodes back_decodes⟩
  · intro input e rest read
    rw [decoder_bind] at read
    cases outcome : d.run input with
    | error e' left =>
      rw [outcome] at read
      cases read
      exact first.refused input e rest outcome
    | ok a left =>
      rw [outcome] at read
      obtain ⟨front, rfl, _⟩ := first.accepted input a left outcome
      have shorter := (second a).refused left e rest read
      rw [List.length_append]
      omega

def Returns (d : Decoder ε β α) (good : α → Prop) : Prop := ∀ input a rest, d.run input = .ok a rest → good a

theorem returns_pure (a : α) (good : α → Prop) (holds : good a) : Returns (pure a : Decoder ε β α) good := by
  intro input _ _ read
  cases read
  exact holds

theorem returns_bind (f : α → Decoder ε β γ) (good : γ → Prop) (each : ∀ a, Returns (f a) good) : Returns (d >>= f) good := by
  intro input c rest read
  obtain ⟨a, left, _, second⟩ := decoder_bind_ok d f input rest c read
  exact each a left c rest second

-- A record cut short and padded may still decode, but only by running into the
-- padding, so all that is left behind it is padding.
theorem torn_leaves_padding (framed : Framed d) (bytes : List β) (a : α) (decodes : Decodes d bytes a) (cut padding : Nat)
    (pad : β) (short : cut < bytes.length) (torn : α) (rest : List β)
    (read : d.run (bytes.take cut ++ List.replicate padding pad) = .ok torn rest) :
    ∃ left, left ≤ padding ∧ rest = List.replicate left pad := by
  obtain ⟨used, split, used_decodes⟩ := framed.accepted _ torn rest read
  have reaches : cut ≤ used.length := by
    by_contra early
    have inside : used <+: bytes.take cut :=
      List.prefix_of_prefix_length_le ⟨rest, split.symm⟩ (List.prefix_append _ _) (by rw [List.length_take]; omega)
    obtain ⟨more, joined⟩ := inside.trans (List.take_prefix cut bytes)
    have whole := used_decodes more
    rw [joined] at whole
    have complete := decodes []
    rw [List.append_nil, whole] at complete
    injection complete with _ nothing
    rw [← joined, nothing, List.append_nil] at short
    omega
  refine ⟨padding - (used.length - cut), by omega, ?_⟩
  have dropped := congrArg (List.drop used.length) split
  rw [List.drop_left, List.drop_append, List.drop_eq_nil_of_le (by rw [List.length_take]; omega), List.nil_append,
    List.length_take, Nat.min_eq_left (by omega), List.drop_replicate] at dropped
  exact dropped.symm

def leBytes : Nat → Nat → List UInt8
  | 0, _ => []
  | width + 1, n => UInt8.ofNat (n % 256) :: leBytes width (n / 256)

def leNat : List UInt8 → Nat
  | [] => 0
  | byte :: bytes => byte.toNat + 256 * leNat bytes

@[simp] theorem le_bytes_length (width n : Nat) : (leBytes width n).length = width := by
  induction width generalizing n with
  | zero => rfl
  | succ width ih => simp [leBytes, ih]

theorem le_bytes_mod (width n : Nat) : leBytes width (n % 256 ^ width) = leBytes width n := by
  induction width generalizing n with
  | zero => rfl
  | succ width ih =>
    rw [leBytes, leBytes, pow_succ', Nat.mod_mod_of_dvd n (Nat.dvd_mul_right _ _), Nat.mod_mul_right_div_self, ih]

theorem le_nat_le_bytes (width n : Nat) (fits : n < 256 ^ width) : leNat (leBytes width n) = n := by
  induction width generalizing n with
  | zero => simp only [pow_zero, Nat.lt_one_iff] at fits; simp [leBytes, leNat, fits]
  | succ width ih =>
    have upper : n / 256 < 256 ^ width := Nat.div_lt_of_lt_mul (by rwa [pow_succ'] at fits)
    have low : (UInt8.ofNat (n % 256)).toNat = n % 256 := by
      rw [UInt8.toNat_ofNat']
      exact Nat.mod_eq_of_lt (Nat.mod_lt n (by decide))
    rw [leBytes, leNat, ih _ upper, low]
    omega

def readLe (eof : ε) (width : Nat) : Decoder ε UInt8 Nat := do
  let bytes ← readExact eof width
  return leNat bytes

theorem decodes_read_le (width n : Nat) (fits : n < 256 ^ width) : Decodes (readLe eof width) (leBytes width n) n :=
  decodes_last _ _ _ _ _ (decodes_read_exact eof width _ (le_bytes_length width n)) (by rw [le_nat_le_bytes width n fits])

theorem read_le_ok (width n : Nat) (input rest : List UInt8) (read : (readLe eof width).run input = .ok n rest) :
    ∃ bytes, input = bytes ++ rest ∧ bytes.length = width := by
  obtain ⟨bytes, left, firstRead, returned⟩ := decoder_bind_ok _ _ _ _ _ read
  cases returned
  exact ⟨bytes, read_exact_ok eof width input bytes rest firstRead⟩

def readMany (d : Decoder ε β α) : Nat → Decoder ε β (List α)
  | 0 => pure []
  | count + 1 => do
      let a ← d
      let rest ← readMany d count
      return a :: rest

theorem decodes_read_many (encode : α → List β) (each : ∀ a, Decodes d (encode a) a) (items : List α) :
    Decodes (readMany d items.length) (items.flatMap encode) items := by
  induction items with
  | nil => exact decodes_pure []
  | cons a rest ih =>
    rw [List.flatMap_cons]
    refine decodes_bind _ _ _ _ a _ (each a) ?_
    exact decodes_last _ _ _ rest _ ih rfl

theorem framed_read_le (width : Nat) : Framed (readLe eof width) :=
  framed_bind _ _ (framed_read_exact eof width) fun bytes => framed_pure (leNat bytes)

end OmryaKv.Lib
