/-!
# Powers modulo a number

A power is computed by squaring, from the high bits of the exponent down.
-/

namespace ConferenceLedger

/-- The power of `a` modulo `m` whose exponent is the low `bits` bits of `e`. -/
def powMod (m a : Nat) : (bits e : Nat) → Nat
  | 0, _ => 1 % m
  | bits + 1, e =>
    let half := powMod m a bits (e / 2)
    let square := half * half % m
    if e % 2 = 1 then square * a % m else square

/-- Squaring computes the power, for exponents of at most so many bits. -/
theorem powMod_eq (m a bits e : Nat) (h : e < Nat.pow 2 bits) :
    powMod m a bits e = Nat.pow a e % m := by
  induction bits generalizing e with
  | zero =>
    have he : e = 0 := Nat.lt_one_iff.mp h
    simp [powMod, he]
  | succ bits ih =>
    have hhalf : e / 2 < Nat.pow 2 bits := by
      have hlt : e < Nat.pow 2 bits * 2 := h
      omega
    have hsquare : Nat.pow a (e / 2) % m * (Nat.pow a (e / 2) % m) % m =
        Nat.pow a (2 * (e / 2)) % m := by
      rw [← Nat.mul_mod, Nat.two_mul]
      exact congrArg (· % m) (Nat.pow_add a _ _).symm
    simp only [powMod, ih _ hhalf]
    rw [hsquare]
    split
    · next hodd =>
      have he : e = 2 * (e / 2) + 1 := by omega
      have hstep : Nat.pow a e = Nat.pow a (2 * (e / 2)) * a := by
        conv => lhs; rw [he]
        rfl
      rw [hstep, Nat.mod_mul_mod]
    · next heven =>
      have he : 2 * (e / 2) = e := by omega
      rw [he]

end ConferenceLedger
