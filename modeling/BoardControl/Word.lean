import BoardControl.Run

namespace BoardControl.Word

-- Arithmetic on 32-bit and 64-bit words that refuses a result outside the word.
-- Each operation answers exactly when the operation on naturals stays in range.
-- These are the operations of a build with overflow checks. In a build without the
-- checks the result would wrap around instead, and such a build is not modelled.

def add (a b : UInt32) : Except Fault UInt32 :=
  if a.toNat + b.toNat < UInt32.size then .ok (a + b) else .error .AddOverflow

def sub (a b : UInt32) : Except Fault UInt32 :=
  if b ≤ a then .ok (a - b) else .error .SubOverflow

def mul (a b : UInt32) : Except Fault UInt32 :=
  if a.toNat * b.toNat < UInt32.size then .ok (a * b) else .error .MulOverflow

def div (a b : UInt32) : Except Fault UInt32 :=
  if b = 0 then .error .DivideByZero else .ok (a / b)

def addLong (a b : UInt64) : Except Fault UInt64 :=
  if a.toNat + b.toNat < UInt64.size then .ok (a + b) else .error .AddOverflow

def subLong (a b : UInt64) : Except Fault UInt64 :=
  if b ≤ a then .ok (a - b) else .error .SubOverflow

def mulLong (a b : UInt64) : Except Fault UInt64 :=
  if a.toNat * b.toNat < UInt64.size then .ok (a * b) else .error .MulOverflow

-- Addition that stays at the largest word instead of leaving the range, and
-- subtraction that stays at zero.
def addSaturating (a b : UInt32) : UInt32 :=
  if a.toNat + b.toNat < UInt32.size then a + b else 0xffffffff

def subSaturating (a b : UInt32) : UInt32 :=
  if b ≤ a then a - b else 0

-- How many blocks of `size` cover `total`.
def blocks (total size : Nat) : Nat := (total + size - 1) / size

theorem add_eq_ok_iff {a b c : UInt32} :
    add a b = .ok c ↔ c.toNat = a.toNat + b.toNat := by
  unfold add
  split
  · rename_i h
    rw [Except.ok.injEq, ← UInt32.toNat_inj, UInt32.toNat_add, Nat.mod_eq_of_lt h, eq_comm]
  · rename_i h
    have := c.toNat_lt_size
    constructor
    · intro hc; cases hc
    · intro hc; omega

theorem sub_eq_ok_iff {a b c : UInt32} :
    sub a b = .ok c ↔ b.toNat ≤ a.toNat ∧ c.toNat = a.toNat - b.toNat := by
  unfold sub
  split
  · rename_i h
    rw [Except.ok.injEq, ← UInt32.toNat_inj, UInt32.toNat_sub_of_le _ _ h]
    rw [UInt32.le_iff_toNat_le] at h
    constructor
    · intro hc; exact ⟨h, hc.symm⟩
    · intro hc; exact hc.2.symm
  · rename_i h
    rw [UInt32.le_iff_toNat_le] at h
    constructor
    · intro hc; cases hc
    · intro hc; exact absurd hc.1 h

theorem mul_eq_ok_iff {a b c : UInt32} :
    mul a b = .ok c ↔ c.toNat = a.toNat * b.toNat := by
  unfold mul
  split
  · rename_i h
    rw [Except.ok.injEq, ← UInt32.toNat_inj, UInt32.toNat_mul, Nat.mod_eq_of_lt h, eq_comm]
  · rename_i h
    have := c.toNat_lt_size
    constructor
    · intro hc; cases hc
    · intro hc; omega

-- What an operation answers on either side of its bound.

theorem add_eq_ok {a b : UInt32} (h : a.toNat + b.toNat < UInt32.size) :
    add a b = .ok (a + b) := if_pos h

theorem add_eq_error {a b : UInt32} (h : UInt32.size ≤ a.toNat + b.toNat) :
    add a b = .error .AddOverflow := if_neg (Nat.not_lt.mpr h)

theorem sub_eq_ok {a b : UInt32} (h : b.toNat ≤ a.toNat) : sub a b = .ok (a - b) :=
  if_pos (UInt32.le_iff_toNat_le.mpr h)

theorem sub_eq_error {a b : UInt32} (h : a.toNat < b.toNat) :
    sub a b = .error .SubOverflow := by
  rw [sub, if_neg]
  rw [UInt32.le_iff_toNat_le]
  exact Nat.not_le.mpr h

theorem mul_eq_ok {a b : UInt32} (h : a.toNat * b.toNat < UInt32.size) :
    mul a b = .ok (a * b) := if_pos h

theorem mul_eq_error {a b : UInt32} (h : UInt32.size ≤ a.toNat * b.toNat) :
    mul a b = .error .MulOverflow := if_neg (Nat.not_lt.mpr h)

theorem exists_addLong {a b : UInt64} (h : a.toNat + b.toNat < UInt64.size) :
    ∃ c, addLong a b = .ok c ∧ c.toNat = a.toNat + b.toNat := by
  refine ⟨a + b, if_pos h, ?_⟩
  rw [UInt64.toNat_add, Nat.mod_eq_of_lt h]

theorem exists_subLong {a b : UInt64} (h : b ≤ a) :
    ∃ c, subLong a b = .ok c ∧ c.toNat = a.toNat - b.toNat :=
  ⟨a - b, if_pos h, UInt64.toNat_sub_of_le _ _ h⟩

theorem exists_mulLong {a b : UInt64} (h : a.toNat * b.toNat < UInt64.size) :
    ∃ c, mulLong a b = .ok c ∧ c.toNat = a.toNat * b.toNat := by
  refine ⟨a * b, if_pos h, ?_⟩
  rw [UInt64.toNat_mul, Nat.mod_eq_of_lt h]

theorem toNat_addSaturating (a b : UInt32) :
    (addSaturating a b).toNat = min (a.toNat + b.toNat) (UInt32.size - 1) := by
  unfold addSaturating
  split
  · rename_i h
    rw [UInt32.toNat_add, Nat.mod_eq_of_lt h]
    omega
  · rename_i h
    have : (0xffffffff : UInt32).toNat = UInt32.size - 1 := rfl
    omega

theorem toNat_subSaturating (a b : UInt32) :
    (subSaturating a b).toNat = a.toNat - b.toNat := by
  unfold subSaturating
  split
  · rename_i h
    rw [UInt32.toNat_sub_of_le _ _ h]
  · rename_i h
    rw [UInt32.le_iff_toNat_le] at h
    have : (0 : UInt32).toNat = 0 := rfl
    omega

end BoardControl.Word
