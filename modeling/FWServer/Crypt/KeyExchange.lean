import FWServer.Crypt.Des
import FWServer.Kernel.LittleEndian
import Mathlib.Data.ZMod.Basic
import Mathlib.Tactic.Ring

/-!
# The key exchange

`ldhexchange` and `ldhsecret` of `lualib-src/lua-crypt.c`: powers modulo a number just below `2 ^ 64`, by words of
64 bits that wrap around.  A product is added up by doubling, and a power is multiplied up by squaring; neither
wraps around, as no sum is taken that could reach `2 ^ 64` (`mul_mod_p_toNat`).
-/

namespace Crypt

/-! ### The powers -/

/-- `P` -/
def P : UInt64 := 0xffffffffffffffc5

/-- The loop of `mul_mod_p`. -/
def mul_mod_p_loop (a b m : UInt64) : UInt64 :=
  if b = 0 then m
  else
    let m :=
      if b &&& 1 ≠ 0 then
        let t := P - a
        if m ≥ t then m - t else m + a
      else m
    let a := if a ≥ P - a then a * 2 - P else a * 2
    mul_mod_p_loop a (b >>> 1) m
termination_by b.toNat
decreasing_by
  rw [UInt64.toNat_shiftRight]
  have hpos : b.toNat ≠ 0 := fun h => ‹b ≠ 0› (UInt64.toNat_inj.mp h)
  exact Nat.div_lt_self (Nat.pos_of_ne_zero hpos) Nat.one_lt_two

/-- `mul_mod_p` -/
def mul_mod_p (a b : UInt64) : UInt64 :=
  mul_mod_p_loop a b 0

/-- `pow_mod_p`, where no more than `depth` calls may be open at a time. -/
def pow_mod_p : ℕ → UInt64 → UInt64 → Option UInt64
  | 0, _, _ => none
  | depth + 1, a, b =>
      if b = 1 then some a
      else
        (pow_mod_p depth a (b >>> 1)).map fun t =>
          let t := mul_mod_p t t
          if b % 2 ≠ 0 then mul_mod_p t a else t

/-- `powmodp` -/
def powmodp (depth : ℕ) (a b : UInt64) : Option UInt64 :=
  pow_mod_p depth (if a > P then a % P else a) b

/-! ### The calls -/

/-- The number of eight bytes. -/
def read64 (x : List UInt8) : UInt64 :=
  UInt64.ofNat (LittleEndian.decode x)

/-- `push64` -/
def push64 (r : UInt64) : List UInt8 :=
  LittleEndian.encode 8 r.toNat

/-- What is pushed when `powmodp` returns. -/
def pushed : Option UInt64 → Except Fault (List UInt8)
  | some r => .ok (push64 r)
  | none => .error .undefined

/-- `G` -/
def G : UInt64 := 5

/-- `ldhexchange` -/
def ldhexchange (depth : ℕ) (x : List UInt8) : Except Fault (List UInt8) :=
  if x.length ≠ 8 then .error (.error "Invalid dh uint64 key")
  else if read64 x = 0 then .error (.error "Can't be 0")
  else pushed (powmodp depth G (read64 x))

/-- `ldhsecret` -/
def ldhsecret (depth : ℕ) (x y : List UInt8) : Except Fault (List UInt8) :=
  if x.length ≠ 8 then .error (.error "Invalid uint64 x")
  else if y.length ≠ 8 then .error (.error "Invalid uint64 y")
  else if read64 x = 0 ∨ read64 y = 0 then .error (.error "Can't be 0")
  else pushed (powmodp depth (read64 x) (read64 y))

/-! ### Sums below the modulus -/

/-- The residue that a word stands for. -/
def residue (a : UInt64) : ZMod P.toNat :=
  a.toNat

theorem toNat_P :
  P.toNat = 0xffffffffffffffc5
  := rfl

/-- The sum of two residues, by words that do not wrap around. -/
theorem residue_add {a m : UInt64} (ha : a < P) (hm : m < P) :
  (if m ≥ P - a then m - (P - a) else m + a) < P ∧
  residue (if m ≥ P - a then m - (P - a) else m + a) = residue m + residue a
  := by
  have hP := toNat_P
  have hlt := UInt64.lt_iff_toNat_lt.mp ha
  have hsub : (P - a).toNat = P.toNat - a.toNat := UInt64.toNat_sub_of_le _ _ (UInt64.le_of_lt ha)
  rw [UInt64.lt_iff_toNat_lt] at hm
  split
  · next hge =>
      have hdiff := UInt64.toNat_sub_of_le _ _ hge
      rw [ge_iff_le, UInt64.le_iff_toNat_le, hsub] at hge
      have hsum : (m - (P - a)).toNat + P.toNat = m.toNat + a.toNat := by omega
      constructor
      · rw [UInt64.lt_iff_toNat_lt]
        omega
      · have hcast := congrArg (Nat.cast (R := ZMod P.toNat)) hsum
        rw [Nat.cast_add, Nat.cast_add, ZMod.natCast_self, add_zero] at hcast
        exact hcast
  · next hlt =>
      rw [ge_iff_le, UInt64.le_iff_toNat_le, hsub, Nat.not_le] at hlt
      have hsum : (m + a).toNat = m.toNat + a.toNat := by
        rw [UInt64.toNat_add]
        omega
      constructor
      · rw [UInt64.lt_iff_toNat_lt]
        omega
      · rw [residue, hsum, Nat.cast_add]
        rfl

/-- The double of a residue. -/
theorem residue_double {a : UInt64} (ha : a < P) :
  (if a ≥ P - a then a * 2 - P else a * 2) < P ∧
  residue (if a ≥ P - a then a * 2 - P else a * 2) = residue a + residue a
  := by
  have hdouble : a * 2 = a + a := by grind
  have hless : a * 2 - P = a - (P - a) := by grind
  have hadd := residue_add ha ha
  rw [hless, hdouble]
  exact hadd

theorem residue_inj {a : UInt64} (ha : a < P) {n : ℕ} (h : residue a = n) :
  a.toNat = n % P.toNat
  := by
  have hmod := (ZMod.natCast_eq_natCast_iff' _ _ _).mp h
  rwa [Nat.mod_eq_of_lt (UInt64.lt_iff_toNat_lt.mp ha)] at hmod

/-! ### Products -/

/-- What is left of a multiple after its lowest bit. -/
theorem mul_halves {R : Type} [CommSemiring R] (a : R) (b : ℕ) :
  ((b % 2 : ℕ) : R) * a + ((b / 2 : ℕ) : R) * (a + a) = b * a
  := by
  have hsplit : ((b / 2 * 2 + b % 2 : ℕ) : R) = b := congrArg Nat.cast (Nat.div_add_mod' b 2)
  rw [Nat.cast_add, Nat.cast_mul, Nat.cast_two] at hsplit
  rw [← hsplit]
  ring

theorem toNat_and_one (b : UInt64) :
  (b &&& 1).toNat = b.toNat % 2
  := by
  rw [UInt64.toNat_and]
  apply Nat.and_one_is_mod

theorem toNat_shiftRight_one (b : UInt64) :
  (b >>> 1).toNat = b.toNat / 2
  := UInt64.toNat_shiftRight b 1

/-- The loop adds a multiple, and never leaves the residues. -/
theorem residue_mul_mod_p_loop {a b m : UInt64} (ha : a < P) (hm : m < P) :
  mul_mod_p_loop a b m < P ∧ residue (mul_mod_p_loop a b m) = residue m + b.toNat * residue a
  := by
  induction a, b, m using mul_mod_p_loop.induct with
  | case1 a m =>
      rw [mul_mod_p_loop, if_pos rfl]
      use hm
      simp
  | case2 a b m hb m' a' ih =>
      obtain ⟨ha', hdouble⟩ := residue_double ha
      change a' < P at ha'
      change residue a' = residue a + residue a at hdouble
      obtain ⟨hm', hsum⟩ : m' < P ∧ residue m' = residue m + ((b.toNat % 2 : ℕ) : ZMod P.toNat) * residue a := by
        rw [← toNat_and_one]
        by_cases hbit : b &&& 1 = 0
        · have heq : m' = m := if_neg (not_not.mpr hbit)
          rw [heq, hbit]
          use hm
          simp
        · have heq : m' = if m ≥ P - a then m - (P - a) else m + a := if_pos hbit
          have hone : (b &&& 1).toNat = 1 := by
            have hne : (b &&& 1).toNat ≠ 0 := fun h => hbit (UInt64.toNat_inj.mp h)
            rw [toNat_and_one] at hne ⊢
            omega
          rw [heq, hone, Nat.cast_one, one_mul]
          apply residue_add ha hm
      obtain ⟨hlt, hloop⟩ := ih ha' hm'
      rw [mul_mod_p_loop, if_neg hb]
      use hlt
      rw [toNat_shiftRight_one, hsum, hdouble, add_assoc, mul_halves] at hloop
      exact hloop

/-- The product of two residues. -/
theorem residue_mul_mod_p {a : UInt64} (ha : a < P) (b : UInt64) :
  mul_mod_p a b < P ∧ residue (mul_mod_p a b) = residue a * residue b
  := by
  have hzero : (0 : UInt64) < P := by decide
  obtain ⟨hlt, hloop⟩ := residue_mul_mod_p_loop (b := b) ha hzero
  use hlt
  have hres : residue 0 = 0 := Nat.cast_zero
  rw [mul_mod_p, hloop, hres, zero_add, mul_comm]
  rfl

theorem mul_mod_p_toNat {a : UInt64} (ha : a < P) (b : UInt64) :
  (mul_mod_p a b).toNat = a.toNat * b.toNat % P.toNat
  := by
  obtain ⟨hlt, hmul⟩ := residue_mul_mod_p ha b
  apply residue_inj hlt
  rw [hmul, Nat.cast_mul]
  rfl

/-! ### Powers -/

/-- What is left of a power after its lowest bit. -/
theorem pow_halves {R : Type} [CommMonoid R] (a : R) (b : ℕ) :
  a ^ (b / 2) * a ^ (b / 2) * a ^ (b % 2) = a ^ b
  := by
  rw [← pow_add, ← pow_add, ← Nat.two_mul, Nat.div_add_mod]

/-- The exponent is halved by each call, and is 1 in the last one. -/
theorem half_ne_zero {b : UInt64} (hb : b ≠ 0) (hone : b ≠ 1) :
  b >>> 1 ≠ 0
  := by
  intro h
  have hhalf := toNat_shiftRight_one b
  rw [h] at hhalf
  have hzero : b.toNat ≠ 0 := fun h => hb (UInt64.toNat_inj.mp h)
  have hone : b.toNat ≠ 1 := fun h => hone (UInt64.toNat_inj.mp h)
  have : (0 : UInt64).toNat = 0 := rfl
  omega

theorem pow_mod_p_isSome {depth : ℕ} (a : UInt64) {b : UInt64} (hb : b ≠ 0) (hdepth : b.toNat < 2 ^ depth) :
  (pow_mod_p depth a b).isSome
  := by
  induction depth generalizing b with
  | zero =>
      have hzero : b.toNat = 0 := by omega
      exact absurd (UInt64.toNat_inj.mp hzero) hb
  | succ depth ih =>
      rw [pow_mod_p]
      split
      · rfl
      · next hone =>
          rw [Option.isSome_map]
          apply ih (half_ne_zero hb hone)
          rw [toNat_shiftRight_one]
          omega

theorem toNat_mod_two {b : UInt64} (h : b % 2 ≠ 0) :
  b.toNat % 2 = 1
  := by
  have hmod : (b % 2).toNat = b.toNat % 2 := UInt64.toNat_mod b 2
  have hne : (b % 2).toNat ≠ 0 := fun hzero => h (UInt64.toNat_inj.mp hzero)
  omega

/-- What the recursion returns is the power, and below the modulus. -/
theorem residue_pow_mod_p {depth : ℕ} {a b r : UInt64} (ha : a < P) (h : pow_mod_p depth a b = some r) :
  r < P ∧ residue r = residue a ^ b.toNat
  := by
  induction depth generalizing b r with
  | zero => cases h
  | succ depth ih =>
      rw [pow_mod_p] at h
      split at h
      · next hone =>
          obtain rfl := Option.some.inj h
          use ha
          rw [hone]
          exact (pow_one _).symm
      · obtain ⟨t, ht, hr⟩ := Option.map_eq_some_iff.mp h
        obtain ⟨hlt, hpow⟩ := ih ht
        rw [toNat_shiftRight_one] at hpow
        obtain ⟨hsquare, hmul⟩ := residue_mul_mod_p hlt t
        rw [hpow] at hmul
        rw [← pow_halves (residue a) b.toNat]
        dsimp only at hr
        split at hr
        · next hodd =>
            obtain ⟨hlt, hlast⟩ := residue_mul_mod_p hsquare a
            rw [← hr, hlast, hmul, toNat_mod_two hodd, pow_one]
            exact ⟨hlt, rfl⟩
        · next heven =>
            have hzero : b.toNat % 2 = 0 := by
              rw [not_not] at heven
              have hmod := UInt64.toNat_mod b 2
              rw [heven] at hmod
              exact hmod.symm
            rw [← hr, hmul, hzero, pow_zero, mul_one]
            exact ⟨hsquare, rfl⟩

/-- A power of a residue is returned when 64 calls may be open. -/
theorem powmodp_eq {depth : ℕ} (hdepth : 64 ≤ depth) {a b : UInt64} (ha : a < P) (hb : b ≠ 0) :
  ∃ r, powmodp depth a b = some r ∧ r.toNat = a.toNat ^ b.toNat % P.toNat
  := by
  have hfew : b.toNat < 2 ^ depth := b.toNat_lt.trans_le (Nat.pow_le_pow_right Nat.two_pos hdepth)
  obtain ⟨r, hr⟩ := Option.isSome_iff_exists.mp (pow_mod_p_isSome a hb hfew)
  obtain ⟨hlt, hpow⟩ := residue_pow_mod_p ha hr
  use r
  constructor
  · have hle : ¬ a > P := UInt64.not_lt.mpr (UInt64.le_of_lt ha)
    rw [powmodp, if_neg hle, hr]
  · apply residue_inj hlt
    rw [hpow, Nat.cast_pow]
    rfl

/-! ### The exchange -/

@[simp]
theorem length_push64 (r : UInt64) :
  (push64 r).length = 8
  := LittleEndian.length_encode 8 _

@[simp]
theorem read64_push64 (r : UInt64) :
  read64 (push64 r) = r
  := by
  rw [read64, push64, LittleEndian.decode_encode r.toNat_lt, UInt64.ofNat_toNat]

/-- No power of the base is zero. -/
theorem pow_base_ne_zero (k : ℕ) :
  5 ^ k % P.toNat ≠ 0
  := by
  intro h
  have hcoprime : Nat.Coprime (5 ^ k) P.toNat := Nat.Coprime.pow_left k (by decide)
  have hdvd := Nat.dvd_of_mod_eq_zero h
  have hone := Nat.Coprime.eq_one_of_dvd hcoprime.symm hdvd
  cases hone

/-- What is sent for a secret number. -/
theorem ldhexchange_eq {depth : ℕ} (hdepth : 64 ≤ depth) {x : List UInt8} (hx : x.length = 8)
    (hzero : read64 x ≠ 0) :
  ∃ r, ldhexchange depth x = .ok (push64 r) ∧ r.toNat = 5 ^ (read64 x).toNat % P.toNat
  := by
  have hbase : G < P := by decide
  obtain ⟨r, hr, hpow⟩ := powmodp_eq hdepth hbase hzero
  use r
  constructor
  · rw [ldhexchange, if_neg (not_not.mpr hx), if_neg hzero, hr, pushed]
  · exact hpow

/-- What is made of a number that has been received. -/
theorem ldhsecret_eq {depth : ℕ} (hdepth : 64 ≤ depth) {r : UInt64} {k : ℕ} (hr : r.toNat = 5 ^ k % P.toNat)
    {y : List UInt8} (hy : y.length = 8) (hzero : read64 y ≠ 0) :
  ldhsecret depth (push64 r) y = .ok (push64 (.ofNat (5 ^ (k * (read64 y).toNat) % P.toNat)))
  := by
  have hlt : r < P := by
    rw [UInt64.lt_iff_toNat_lt, hr]
    apply Nat.mod_lt
    decide
  have hne : read64 (push64 r) ≠ 0 := by
    rw [read64_push64]
    rintro rfl
    exact pow_base_ne_zero k hr.symm
  obtain ⟨t, ht, hpow⟩ := powmodp_eq hdepth hlt hzero
  rw [hr, ← Nat.pow_mod, ← Nat.pow_mul] at hpow
  rw [ldhsecret, if_neg (not_not.mpr (length_push64 r)), if_neg (not_not.mpr hy), if_neg (not_or.mpr ⟨hne, hzero⟩),
    read64_push64, ht, pushed, ← hpow, UInt64.ofNat_toNat]

/-- Two parties agree on a secret, a power of the base; the product is that of residues, although words of 64 bits
wrap around, and the recursion ends within 64 calls. -/
theorem key_exchange_agrees :
  (∀ depth ≥ 64, ∀ x y : List UInt8, x.length = 8 → y.length = 8 → read64 x ≠ 0 → read64 y ≠ 0 →
    ∃ gx gy secret, ldhexchange depth x = .ok gx ∧ ldhexchange depth y = .ok gy ∧
      ldhsecret depth gx y = .ok secret ∧ ldhsecret depth gy x = .ok secret ∧
      secret = push64 (.ofNat (5 ^ ((read64 x).toNat * (read64 y).toNat) % P.toNat))) ∧
  (∀ a b, a < P → b < P → (mul_mod_p a b).toNat = a.toNat * b.toNat % P.toNat) ∧
  ∀ a b, b ≠ 0 → (pow_mod_p 64 a b).isSome
  := by
  refine ⟨?_, fun a b ha _ => mul_mod_p_toNat ha b, fun a b hb => pow_mod_p_isSome a hb b.toNat_lt⟩
  intro depth hdepth x y hx hy hxzero hyzero
  obtain ⟨r, hr, hpow⟩ := ldhexchange_eq hdepth hx hxzero
  obtain ⟨r', hr', hpow'⟩ := ldhexchange_eq hdepth hy hyzero
  refine ⟨push64 r, push64 r', _, hr, hr', ldhsecret_eq hdepth hpow hy hyzero, ?_, rfl⟩
  rw [Nat.mul_comm]
  apply ldhsecret_eq hdepth hpow' hx hxzero

theorem key_exchange_agrees_once :
  ∃ gx gy secret, ldhexchange 64 [3, 0, 0, 0, 0, 0, 0, 0x80] = .ok gx ∧
    ldhexchange 64 [255, 255, 255, 255, 255, 255, 255, 255] = .ok gy ∧
    ldhsecret 64 gx [255, 255, 255, 255, 255, 255, 255, 255] = .ok secret ∧
    ldhsecret 64 gy [3, 0, 0, 0, 0, 0, 0, 0x80] = .ok secret
  := by
  obtain ⟨gx, gy, secret, hgx, hgy, hsecret, hsecret', -⟩ :=
    key_exchange_agrees.1 64 (Nat.le_refl 64) [3, 0, 0, 0, 0, 0, 0, 0x80]
      [255, 255, 255, 255, 255, 255, 255, 255] rfl rfl (by decide) (by decide)
  exact ⟨gx, gy, secret, hgx, hgy, hsecret, hsecret'⟩

end Crypt
