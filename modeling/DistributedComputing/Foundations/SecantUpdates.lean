import Mathlib.Data.Matrix.Mul
import Mathlib.Algebra.Order.Field.Basic
import Mathlib.Algebra.Order.BigOperators.Ring.Finset
import Mathlib.Tactic.Module

/-!
# Secant pairs and the inverse update

A secant pair is a step `s` with the change `y` of the gradient along it, of positive curvature
`s ⬝ᵥ y`. It updates an approximation `H` of an inverse Hessian to `V H Vᵀ + ρ s sᵀ`, where `V` is
`1 - ρ s yᵀ`; pairs are applied in the order of a list, the oldest first.

The product of the updated matrix with a vector needs no matrix. `Vᵀ` is applied to the vector for
the pairs from the newest to the oldest (`reduce`), and each pair leaves a coefficient on the way;
then `V` is applied from the oldest to the newest, and each pair adds its coefficient times `s`.
`sweep c` is that second pass with the coefficients multiplied by `c`, so that passes which differ
in a sign are instances of one function, and `sweep_sub` compares them.

What is carried through both passes is one dot product: `V` and `Vᵀ` are adjoint, so only the
coefficients contribute, each with its square times the curvature (`dot_sweep`). All questions of
sign come down to `energy`, the sum of these contributions, which is never negative and is zero only
if all coefficients are (`energy_eq_zero_iff`).
-/

namespace SecantUpdates

open Matrix

variable {K ι : Type} [Field K] [LinearOrder K] [Fintype ι]

/-- A step and the change of the gradient along it. -/
structure SecantPair (K ι : Type) [Field K] [LinearOrder K] [Fintype ι] where
  s : ι → K
  y : ι → K
  rho : K
  curvature : 0 < s ⬝ᵥ y
  rho_eq : rho = 1 / (s ⬝ᵥ y)

namespace SecantPair

variable (p : SecantPair K ι)

theorem rho_mul : p.rho * (p.s ⬝ᵥ p.y) = 1 := by
  rw [p.rho_eq, one_div_mul_cancel p.curvature.ne']

theorem y_ne_zero : p.y ≠ 0 := by
  intro h
  have hzero : p.s ⬝ᵥ p.y = 0 := by rw [h, dotProduct_zero]
  exact p.curvature.ne' hzero

/-- `V v`. -/
def forward (v : ι → K) : ι → K := v - (p.rho * (p.y ⬝ᵥ v)) • p.s

/-- The coefficient that the pair leaves on a vector. -/
def coefficient (q : ι → K) : K := p.rho * (p.s ⬝ᵥ q)

/-- `Vᵀ q`. -/
def adjoint (q : ι → K) : ι → K := q - p.coefficient q • p.y

/-- The two factors are adjoint. -/
theorem dot_forward (q v : ι → K) : q ⬝ᵥ p.forward v = p.adjoint q ⬝ᵥ v := by
  simp only [forward, adjoint, coefficient, dotProduct_sub, sub_dotProduct, dotProduct_smul,
    smul_dotProduct, smul_eq_mul]
  rw [dotProduct_comm q p.s]
  ring

theorem forward_sub (v w : ι → K) : p.forward (v - w) = p.forward v - p.forward w := by
  simp only [forward, dotProduct_sub]
  module

/-- What a coefficient contributes to the dot product. -/
theorem coefficient_mul_dot (q : ι → K) :
    p.coefficient q * (q ⬝ᵥ p.s) = p.coefficient q ^ 2 * (p.s ⬝ᵥ p.y) := by
  have h : q ⬝ᵥ p.s = p.coefficient q * (p.s ⬝ᵥ p.y) := by
    rw [coefficient, mul_right_comm, p.rho_mul, one_mul, dotProduct_comm]
  rw [h]
  ring

/-- The update of an approximation, `V H Vᵀ + ρ s sᵀ`. -/
def update [DecidableEq ι] (H : Matrix ι ι K) : Matrix ι ι K :=
  (1 - p.rho • vecMulVec p.s p.y) * H * (1 - p.rho • vecMulVec p.y p.s) +
    p.rho • vecMulVec p.s p.s

variable [DecidableEq ι]

theorem mulVec_left (v : ι → K) : (1 - p.rho • vecMulVec p.s p.y) *ᵥ v = p.forward v := by
  rw [sub_mulVec, one_mulVec, smul_mulVec, vecMulVec_mulVec, forward]
  simp [smul_smul]

theorem mulVec_right (q : ι → K) : (1 - p.rho • vecMulVec p.y p.s) *ᵥ q = p.adjoint q := by
  rw [sub_mulVec, one_mulVec, smul_mulVec, vecMulVec_mulVec, adjoint, coefficient]
  simp [smul_smul]

/-- **The updated matrix** without its entries. -/
theorem update_mulVec (H : Matrix ι ι K) (q : ι → K) :
    p.update H *ᵥ q = p.forward (H *ᵥ p.adjoint q) + p.coefficient q • p.s := by
  rw [update, add_mulVec, ← mulVec_mulVec, ← mulVec_mulVec, mulVec_right, mulVec_left, smul_mulVec,
    vecMulVec_mulVec, coefficient]
  simp [smul_smul]

/-- **The secant equation**: the updated matrix takes the change of the gradient to the step. -/
theorem update_mulVec_y (H : Matrix ι ι K) : p.update H *ᵥ p.y = p.s := by
  have hcoefficient : p.coefficient p.y = 1 := p.rho_mul
  rw [update_mulVec, adjoint, hcoefficient, one_smul, sub_self, mulVec_zero, forward,
    dotProduct_zero, mul_zero, zero_smul, sub_zero, zero_add, one_smul]

end SecantPair

/-! ### The two passes -/

/-- The first pass, from the newest pair to the oldest. -/
def reduce : List (SecantPair K ι) → (ι → K) → ι → K
  | [], q => q
  | p :: newer, q => p.adjoint (reduce newer q)

/-- The coefficients of the first pass, in the order of the pairs. -/
def coefficients : List (SecantPair K ι) → (ι → K) → List K
  | [], _ => []
  | p :: newer, q => p.coefficient (reduce newer q) :: coefficients newer q

/-- The second pass, from the oldest pair to the newest. -/
def sweep (c : K) : List (SecantPair K ι × K) → (ι → K) → ι → K
  | [], d => d
  | x :: newer, d => sweep c newer (x.1.forward d + (c * x.2) • x.1.s)

/-- What the coefficients contribute. -/
def energy : List (SecantPair K ι) → (ι → K) → K
  | [], _ => 0
  | p :: newer, q => p.coefficient (reduce newer q) ^ 2 * (p.s ⬝ᵥ p.y) + energy newer q

/-- **The dot product through both passes.** -/
theorem dot_sweep (c : K) (ps : List (SecantPair K ι)) (g d : ι → K) :
    g ⬝ᵥ sweep c (ps.zip (coefficients ps g)) d = reduce ps g ⬝ᵥ d + c * energy ps g := by
  induction ps generalizing d with
  | nil => simp [sweep, coefficients, reduce, energy]
  | cons p newer ih =>
    rw [coefficients, List.zip_cons_cons, sweep, ih, dotProduct_add, p.dot_forward, dotProduct_smul,
      smul_eq_mul, mul_assoc, p.coefficient_mul_dot, reduce, energy]
    ring

/-- Second passes over the same pairs, compared. -/
theorem sweep_sub (c c' : K) (l : List (SecantPair K ι × K)) (d d' : ι → K) :
    sweep c l d - sweep c' l d' = sweep (c - c') l (d - d') := by
  induction l generalizing d d' with
  | nil => rfl
  | cons x newer ih =>
    rw [sweep, sweep, sweep, ih, x.1.forward_sub]
    congr 1
    module

/-- **The updates of a list**, applied to a vector, are the second pass. -/
theorem foldl_update_mulVec [DecidableEq ι] (ps : List (SecantPair K ι)) (H : Matrix ι ι K)
    (g : ι → K) :
    ps.foldl (fun H p => p.update H) H *ᵥ g =
      sweep 1 (ps.zip (coefficients ps g)) (H *ᵥ reduce ps g) := by
  induction ps generalizing H with
  | nil => rfl
  | cons p newer ih =>
    rw [List.foldl_cons, ih, p.update_mulVec, coefficients, List.zip_cons_cons, sweep, one_mul,
      reduce]

/-- Without coefficients the first pass changes nothing. -/
theorem reduce_eq_self {ps : List (SecantPair K ι)} {g : ι → K}
    (h : ∀ a ∈ coefficients ps g, a = 0) : reduce ps g = g := by
  induction ps with
  | nil => rfl
  | cons p newer ih =>
    have hnewer := ih fun a ha => h a (List.mem_cons_of_mem _ ha)
    have hp : p.coefficient (reduce newer g) = 0 := h _ List.mem_cons_self
    rw [reduce, SecantPair.adjoint, hp, zero_smul, sub_zero, hnewer]

/-- **There are no coefficients** exactly on the vectors that are orthogonal to every step. -/
theorem coefficients_eq_zero_iff {ps : List (SecantPair K ι)} {g : ι → K} :
    (∀ a ∈ coefficients ps g, a = 0) ↔ ∀ p ∈ ps, p.s ⬝ᵥ g = 0 := by
  induction ps with
  | nil => exact iff_of_true (List.forall_mem_nil _) (List.forall_mem_nil _)
  | cons p newer ih =>
    rw [coefficients, List.forall_mem_cons, List.forall_mem_cons, ← ih]
    refine and_congr_left fun hnewer => ?_
    rw [reduce_eq_self hnewer, SecantPair.coefficient, mul_eq_zero,
      or_iff_right (left_ne_zero_of_mul_eq_one p.rho_mul)]

/-- Without coefficients the second pass is linear. -/
theorem sweep_zero {l : List (SecantPair K ι × K)} (h : ∀ x ∈ l, x.2 = 0) (c : K) :
    sweep c l 0 = 0 := by
  induction l with
  | nil => rfl
  | cons x newer ih =>
    have hx : x.2 = 0 := h _ List.mem_cons_self
    rw [sweep, hx, SecantPair.forward, dotProduct_zero, mul_zero, mul_zero, zero_smul, sub_zero,
      add_zero, ih fun x hx => h x (List.mem_cons_of_mem _ hx)]

/-! ### Signs -/

variable [IsStrictOrderedRing K]

theorem energy_nonneg (ps : List (SecantPair K ι)) (g : ι → K) : 0 ≤ energy ps g := by
  induction ps with
  | nil => exact le_rfl
  | cons p newer ih => exact add_nonneg (mul_nonneg (sq_nonneg _) p.curvature.le) ih

/-- **Only coefficients contribute.** -/
theorem energy_eq_zero_iff {ps : List (SecantPair K ι)} {g : ι → K} :
    energy ps g = 0 ↔ ∀ a ∈ coefficients ps g, a = 0 := by
  induction ps with
  | nil => simp [energy, coefficients]
  | cons p newer ih =>
    have hp : 0 ≤ p.coefficient (reduce newer g) ^ 2 * (p.s ⬝ᵥ p.y) :=
      mul_nonneg (sq_nonneg _) p.curvature.le
    rw [energy, coefficients, List.forall_mem_cons, ← ih,
      add_eq_zero_iff_of_nonneg hp (energy_nonneg newer g), mul_eq_zero,
      or_iff_left p.curvature.ne', sq_eq_zero_iff]

theorem dot_self_nonneg (v : ι → K) : 0 ≤ v ⬝ᵥ v :=
  Finset.sum_nonneg fun i _ => mul_self_nonneg (v i)

theorem dot_self_pos {v : ι → K} (h : v ≠ 0) : 0 < v ⬝ᵥ v := by
  obtain ⟨i, hi⟩ := Function.ne_iff.1 h
  exact Finset.sum_pos' (fun j _ => mul_self_nonneg _) ⟨i, Finset.mem_univ i, mul_self_pos.2 hi⟩

/-- **The updates keep a positive multiple of the identity positive.** -/
theorem dot_foldl_update_pos [DecidableEq ι] (ps : List (SecantPair K ι)) {gamma : K}
    (hgamma : 0 < gamma) {g : ι → K} (hg : g ≠ 0) :
    0 < g ⬝ᵥ (ps.foldl (fun H p => p.update H) (gamma • (1 : Matrix ι ι K)) *ᵥ g) := by
  rw [foldl_update_mulVec, dot_sweep, smul_mulVec, one_mulVec, dotProduct_smul, smul_eq_mul,
    one_mul]
  have hsquare : 0 ≤ gamma * (reduce ps g ⬝ᵥ reduce ps g) :=
    mul_nonneg hgamma.le (Finset.sum_nonneg fun j _ => mul_self_nonneg _)
  rcases (energy_nonneg ps g).lt_or_eq with henergy | henergy
  · exact add_pos_of_nonneg_of_pos hsquare henergy
  · -- the vector came through the first pass unchanged
    have hself := reduce_eq_self (energy_eq_zero_iff.1 henergy.symm)
    rw [← henergy, add_zero, hself]
    exact mul_pos hgamma (dot_self_pos hg)

end SecantUpdates
