import Mathlib.Tactic.Common

/-!
# Base64

The encoding with the standard alphabet and padding, over bytes given as numbers. Three bytes are
read as four groups of six bits.
-/

namespace Isulad.Std.Base64

open List

/-- The character of six bits. -/
def digit (value : Nat) : Char :=
  if value < 26 then .ofNat (65 + value)
  else if value < 52 then .ofNat (71 + value)
  else if value < 62 then .ofNat (value - 4)
  else if value = 62 then '+'
  else '/'

/-- The encoding of bytes, three at a time. -/
def encode : List Nat → List Char
  | [] => []
  | [a] => [digit (a / 4), digit (a % 4 * 16), '=', '=']
  | [a, b] => [digit (a / 4), digit (a % 4 * 16 + b / 16), digit (b % 16 * 4), '=']
  | a :: b :: c :: rest =>
    digit (a / 4) :: digit (a % 4 * 16 + b / 16) :: digit (b % 16 * 4 + c / 64) ::
      digit (c % 64) :: encode rest

/-- One of the groups of six bits consists of ones. -/
def SixOnes : List Nat → Prop
  | [] => False
  | [a] => a / 4 = 63
  | [a, b] => a / 4 = 63 ∨ (a % 4 = 3 ∧ b / 16 = 15)
  | a :: b :: c :: rest =>
    a / 4 = 63 ∨ (a % 4 = 3 ∧ b / 16 = 15) ∨ (b % 16 = 15 ∧ c / 64 = 3) ∨ c % 64 = 63 ∨ SixOnes rest

theorem digit_injective : ∀ v < 64, ∀ w < 64, digit v = digit w → v = w := by decide +kernel

theorem digit_spec : ∀ v < 64, digit v ≠ '=' ∧ digit v ≠ '\x00' ∧ (digit v = '/' ↔ v = 63) := by
  decide +kernel

theorem digit_inj {v w : Nat} (left : v < 64) (right : w < 64) : digit v = digit w ↔ v = w :=
  ⟨digit_injective v left w right, congrArg digit⟩

theorem digit_ne_pad {v : Nat} (small : v < 64) : (digit v = '=') = False :=
  eq_false (digit_spec v small).1

theorem pad_ne_digit {v : Nat} (small : v < 64) : ('=' = digit v) = False :=
  eq_false (digit_spec v small).1.symm

/-- Bytes are read back from their encoding. -/
theorem encode_injective {one other : List Nat} (bytes : ∀ byte ∈ one, byte < 256)
    (otherBytes : ∀ byte ∈ other, byte < 256) (same : encode one = encode other) : one = other := by
  fun_induction encode one generalizing other with
  | case1 => fun_cases encode other <;> simp_all [encode]
  | case2 a =>
    fun_cases encode other <;>
      simp only [encode, forall_mem_cons] at same bytes otherBytes <;>
      simp (disch := omega) [digit_inj, pad_ne_digit] at same ⊢
    omega
  | case3 a b =>
    fun_cases encode other <;>
      simp only [encode, forall_mem_cons] at same bytes otherBytes <;>
      simp (disch := omega) [digit_inj, digit_ne_pad, pad_ne_digit] at same ⊢
    omega
  | case4 a b c rest ih =>
    fun_cases encode other <;>
      simp only [encode, forall_mem_cons] at same bytes otherBytes <;>
      simp (disch := omega) [digit_inj, digit_ne_pad] at same ⊢
    refine ⟨by omega, by omega, by omega, ?_⟩
    exact ih bytes.2.2.2 otherBytes.2.2.2 same.2.2.2.2

variable {bytes : List Nat}

theorem slash_mem_encode_iff (small : ∀ byte ∈ bytes, byte < 256) :
    '/' ∈ encode bytes ↔ SixOnes bytes := by
  have slash : ∀ {v}, v < 64 → ('/' = digit v ↔ v = 63) := fun {v} below => by
    rw [eq_comm, (digit_spec v below).2.2]
  fun_induction encode bytes with
  | case1 => simp [SixOnes]
  | case2 a =>
    simp only [forall_mem_cons] at small
    simp (disch := omega) [SixOnes, slash]
    omega
  | case3 a b =>
    simp only [forall_mem_cons] at small
    simp (disch := omega) [SixOnes, slash]
    omega
  | case4 a b c rest ih =>
    simp only [forall_mem_cons] at small
    have second : a % 4 * 16 + b / 16 = 63 ↔ a % 4 = 3 ∧ b / 16 = 15 := by omega
    have third : b % 16 * 4 + c / 64 = 63 ↔ b % 16 = 15 ∧ c / 64 = 3 := by omega
    simp (disch := omega) [SixOnes, slash, second, third, ih small.2.2.2]

theorem nul_notMem_encode (small : ∀ byte ∈ bytes, byte < 256) :
    '\x00' ∉ encode bytes := by
  have nul : ∀ {v}, v < 64 → ('\x00' = digit v) = False := fun {v} below =>
    eq_false (digit_spec v below).2.1.symm
  fun_induction encode bytes with
  | case1 => exact not_mem_nil
  | case4 a b c rest ih =>
    simp only [forall_mem_cons] at small
    simp (disch := omega) [nul, ih small.2.2.2]
  | _ =>
    simp only [forall_mem_cons] at small
    simp (disch := omega) [nul]

end Isulad.Std.Base64
