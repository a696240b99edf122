import DistributedComputing.Foundations.ArrayLoops
import DistributedComputing.Foundations.BoundedLoops
import DistributedComputing.Foundations.RayleighQuotient
import DistributedComputing.Fortran.NumericUtils

/-!
# Power iteration

A model of `power_iteration`, over an ordered field with a square root in place of `real(wp)`. A
division of a vector by zero has no result, and then the routine has none. The results are about the
real numbers.

In each round the product `A v` gives the Rayleigh quotient of `v`, and the normalised product is
the next iterate. Two things go wrong, both for matrices in a special position to the start vector.

* If a power of the matrix takes the start vector to zero while the loop is still running, the
  normalisation divides by zero.
* The first quotient is compared with the **initial value** `0`, and not with a quotient. If it is
  small, the loop is left in its first round, whatever the next quotient would have been.

`powerIteration_reliable_iff` says that there is nothing else. For a symmetric positive definite
matrix, the quotients increase towards the largest eigenvalue (`powerIteration_increases`).
-/

namespace DistributedComputing.Eigen

open Matrix BoundedLoop ArrayLoops RayleighQuotient

/-- The status codes of `eigen.f90`. -/
inductive EigenStatus
  | success
  | errSize
  | errLapack
  | errConvergence
  deriving DecidableEq, Repr

/-- What is returned. -/
structure PowerResult (K : Type) (n : ℕ) where
  eigenvalue : K
  eigenvector : Fin n → K
  status : EigenStatus

/-- The variables of the loop, and whether a division had no result. -/
structure PowerState (K : Type) (n : ℕ) where
  v : Fin n → K
  eigenvalue : K
  failed : Bool := false

section Model

variable {K : Type} [Field K] [LinearOrder K] {n : ℕ} (sqrt : K → K)

/-- `w / sqrt(sum(w**2))` -/
def normalise (w : Fin n → K) : Option (Fin n → K) :=
  let norm := sqrt (sumSquares w)
  if 0 < n ∧ norm = 0 then none else some fun i => w i / norm

/-- A round of the loop. -/
def powerRound (A : Matrix (Fin n) (Fin n) K) (tolerance : K) (_iter : ℕ) (s : PowerState K n) :
    Round (PowerState K n) :=
  let lambdaOld := s.eigenvalue
  let vNew := A *ᵥ s.v
  let eigenvalue := s.v ⬝ᵥ vNew
  match normalise sqrt vNew with
  | none => .exit { s with eigenvalue, failed := true }
  | some v =>
    if |eigenvalue - lambdaOld| < tolerance then .exit { s with v, eigenvalue }
    else .next { s with v, eigenvalue }

/-- What is returned after the loop. -/
def finishPower : Round (PowerState K n) → Option (PowerResult K n)
  | .exit s => if s.failed then none else some ⟨s.eigenvalue, s.v, .success⟩
  | .next s => some ⟨s.eigenvalue, s.v, .errConvergence⟩

/-- `power_iteration` behind the test of the sizes. -/
def iteratePower (A : Matrix (Fin n) (Fin n) K) (maxIterations : ℤ) (tolerance : K) :
    Option (PowerResult K n) := do
  let v ← normalise sqrt 1
  finishPower (run (powerRound sqrt A tolerance) maxIterations.toNat 1 { v, eigenvalue := 0 })

/-- `power_iteration`. With wrong sizes, `eigenvalue` and `eigenvector` are left as they were. -/
def powerIteration {m l : ℕ} (A : Matrix (Fin m) (Fin n) K) (eigenvalue : K)
    (eigenvector : Fin l → K) (maxIter : Option ℤ) (tol : Option K) : Option (PowerResult K l) :=
  if h : n = m ∧ l = m then
    iteratePower sqrt (A.submatrix (Fin.cast h.2) (Fin.cast (h.2.trans h.1.symm)))
      (maxIter.getD 1000) (tol.getD tolDefault)
  else some ⟨eigenvalue, eigenvector, .errSize⟩

theorem powerIteration_eq (A : Matrix (Fin n) (Fin n) K) (eigenvalue : K) (eigenvector : Fin n → K)
    (maxIter : Option ℤ) (tol : Option K) :
    powerIteration sqrt A eigenvalue eigenvector maxIter tol =
      iteratePower sqrt A (maxIter.getD 1000) (tol.getD tolDefault) :=
  dif_pos ⟨rfl, rfl⟩

end Model

/-! ### Iterates -/

section Iterates

variable {n : ℕ} {A : Matrix (Fin n) (Fin n) ℝ} {tolerance : ℝ} {w : Fin n → ℝ} {iter : ℕ}
  {s t : PowerState ℝ n}

/-- The vector of length 1 in the direction of `w`. -/
noncomputable def direction (w : Fin n → ℝ) : Fin n → ℝ := (Real.sqrt (sumSquares w))⁻¹ • w

theorem sqrt_sumSquares_pos (hw : w ≠ 0) : 0 < Real.sqrt (sumSquares w) := by
  rw [sumSquares_eq_dotProduct]
  exact Real.sqrt_pos.2 (SecantUpdates.dot_self_pos hw)

theorem direction_dot_self (hw : w ≠ 0) : direction w ⬝ᵥ direction w = 1 := by
  have hpos := sqrt_sumSquares_pos hw
  have hnonneg : 0 ≤ sumSquares w := Finset.sum_nonneg fun i _ => sq_nonneg (w i)
  have hsq : Real.sqrt (sumSquares w) * Real.sqrt (sumSquares w) = w ⬝ᵥ w := by
    rw [Real.mul_self_sqrt hnonneg, sumSquares_eq_dotProduct]
  rw [direction, smul_dotProduct, dotProduct_smul, ← hsq]
  simp only [smul_eq_mul]
  field_simp

theorem quotient_direction (A : Matrix (Fin n) (Fin n) ℝ) (hw : w ≠ 0) :
    quotient A (direction w) = quotient A w :=
  quotient_smul A (inv_ne_zero (sqrt_sumSquares_pos hw).ne') w

theorem normalise_of_ne_zero (hw : w ≠ 0) : normalise Real.sqrt w = some (direction w) := by
  rw [normalise, if_neg fun h => (sqrt_sumSquares_pos hw).ne' h.2]
  exact congrArg some (funext fun i => div_eq_inv_mul _ _)

theorem normalise_zero (hn : 1 ≤ n) : normalise Real.sqrt (0 : Fin n → ℝ) = none := by
  refine if_pos ⟨hn, ?_⟩
  rw [sumSquares_eq_dotProduct, dotProduct_zero, Real.sqrt_zero]

/-- The next iterate, and the quotient of the current one. -/
noncomputable def PowerState.step (A : Matrix (Fin n) (Fin n) ℝ) (s : PowerState ℝ n) :
    PowerState ℝ n :=
  { s with v := direction (A *ᵥ s.v), eigenvalue := s.v ⬝ᵥ (A *ᵥ s.v) }

/-- **A round**, unless it divides by zero. -/
theorem powerRound_eq (tolerance : ℝ) (iter : ℕ) (h : A *ᵥ s.v ≠ 0) :
    powerRound Real.sqrt A tolerance iter s =
      if |s.v ⬝ᵥ (A *ᵥ s.v) - s.eigenvalue| < tolerance then .exit (s.step A)
      else .next (s.step A) := by
  rw [powerRound]
  simp only [normalise_of_ne_zero h]
  rfl

/-- **A round that divides by zero.** -/
theorem powerRound_of_zero (hn : 1 ≤ n) (tolerance : ℝ) (iter : ℕ) (h : A *ᵥ s.v = 0) :
    ∃ u, powerRound Real.sqrt A tolerance iter s = .exit u ∧ u.failed = true := by
  rw [powerRound]
  simp only [h, normalise_zero hn]
  exact ⟨_, rfl, rfl⟩

/-- The variables before the first round. -/
noncomputable def initialState (n : ℕ) : PowerState ℝ n := { v := direction 1, eigenvalue := 0 }

theorem one_ne_zero_of_pos (hn : 1 ≤ n) : (1 : Fin n → ℝ) ≠ 0 := fun h =>
  one_ne_zero (congrFun h ⟨0, hn⟩)

theorem iteratePower_eq (hn : 1 ≤ n) (A : Matrix (Fin n) (Fin n) ℝ) (maxIterations : ℤ)
    (tolerance : ℝ) :
    iteratePower Real.sqrt A maxIterations tolerance =
      finishPower (run (powerRound Real.sqrt A tolerance) maxIterations.toNat 1
        (initialState n)) := by
  rw [iteratePower, normalise_of_ne_zero (one_ne_zero_of_pos hn)]
  rfl

/-- Round `iter` begins with the variables `s`. -/
def BeginsWith (A : Matrix (Fin n) (Fin n) ℝ) (tolerance : ℝ) (iter : ℕ) (s : PowerState ℝ n) :
    Prop :=
  Reaches (powerRound Real.sqrt A tolerance) 1 (initialState n) iter s

/-- A round that goes on has computed the next iterate. -/
theorem step_of_next (hn : 1 ≤ n) (h : powerRound Real.sqrt A tolerance iter s = .next t) :
    A *ᵥ s.v ≠ 0 ∧ t = s.step A := by
  have hne : A *ᵥ s.v ≠ 0 := by
    intro hzero
    obtain ⟨u, hu, -⟩ := powerRound_of_zero hn tolerance iter hzero
    rw [hu] at h
    cases h
  refine ⟨hne, ?_⟩
  rw [powerRound_eq tolerance iter hne] at h
  split at h
  · cases h
  · cases h
    rfl

theorem BeginsWith.unit (hn : 1 ≤ n) (h : BeginsWith A tolerance iter s) :
    s.v ⬝ᵥ s.v = 1 ∧ s.failed = false := by
  refine Reaches.invariant (I := fun _ (s : PowerState ℝ n) => s.v ⬝ᵥ s.v = 1 ∧ s.failed = false)
    ⟨direction_dot_self (one_ne_zero_of_pos hn), rfl⟩ (fun _ t u ht hround => ?_) h
  obtain ⟨hne, rfl⟩ := step_of_next hn hround
  exact ⟨direction_dot_self hne, ht.2⟩

theorem BeginsWith.ne_zero (hn : 1 ≤ n) (h : BeginsWith A tolerance iter s) : s.v ≠ 0 := by
  intro hzero
  have hunit := (h.unit hn).1
  rw [hzero, dotProduct_zero] at hunit
  exact zero_ne_one hunit

theorem BeginsWith.quotient_eq (hn : 1 ≤ n) (h : BeginsWith A tolerance iter s) :
    quotient A s.v = s.v ⬝ᵥ (A *ᵥ s.v) :=
  quotient_of_unit A (h.unit hn).1

end Iterates

/-! ### Powers of the matrix -/

section Powers

variable {n : ℕ} {A : Matrix (Fin n) (Fin n) ℝ} {tolerance : ℝ} {iter k : ℕ} {s : PowerState ℝ n}

/-- What a power of the matrix makes of the start vector, up to its length. -/
def power (A : Matrix (Fin n) (Fin n) ℝ) (k : ℕ) : Fin n → ℝ := A ^ k *ᵥ 1

/-- What the quotient of this vector is compared with: that of the vector before, and zero at the
beginning. -/
noncomputable def quotientBefore (A : Matrix (Fin n) (Fin n) ℝ) : ℕ → ℝ
  | 0 => 0
  | k + 1 => quotient A (power A k)

/-- **The first `k` rounds go on**: none of them finds quotients that are near to each other. -/
def GoesOn (A : Matrix (Fin n) (Fin n) ℝ) (tolerance : ℝ) (k : ℕ) : Prop :=
  ∀ i < k, tolerance ≤ |quotient A (power A i) - quotientBefore A i|

/-- The variables after these rounds. -/
noncomputable def powerState (A : Matrix (Fin n) (Fin n) ℝ) (k : ℕ) : PowerState ℝ n where
  v := direction (power A k)
  eigenvalue := quotientBefore A k

theorem power_zero (A : Matrix (Fin n) (Fin n) ℝ) : power A 0 = 1 := by
  rw [power, pow_zero, one_mulVec]

theorem power_succ (A : Matrix (Fin n) (Fin n) ℝ) (k : ℕ) :
    power A (k + 1) = A *ᵥ power A k := by
  rw [power, power, mulVec_mulVec, ← pow_succ']

theorem power_ne_zero (h : power A (k + 1) ≠ 0) : power A k ≠ 0 := by
  intro hzero
  rw [power_succ, hzero, mulVec_zero] at h
  exact h rfl

theorem direction_smul {c : ℝ} (hc : 0 < c) (w : Fin n → ℝ) :
    direction (c • w) = direction w := by
  have hnorm : Real.sqrt (sumSquares (c • w)) = c * Real.sqrt (sumSquares w) := by
    rw [sumSquares_eq_dotProduct, sumSquares_eq_dotProduct, smul_dotProduct, dotProduct_smul,
      smul_smul, smul_eq_mul, Real.sqrt_mul (mul_self_nonneg c), Real.sqrt_mul_self hc.le]
  rw [direction, direction, hnorm, smul_smul, mul_inv, mul_right_comm,
    inv_mul_cancel₀ hc.ne', one_mul]

/-- The product of a round is the next power, up to its length. -/
theorem exists_mulVec_powerState (h : power A k ≠ 0) :
    ∃ c : ℝ, 0 < c ∧ A *ᵥ (powerState A k).v = c • power A (k + 1) := by
  refine ⟨(Real.sqrt (sumSquares (power A k)))⁻¹, inv_pos.2 (sqrt_sumSquares_pos h), ?_⟩
  rw [powerState, direction, mulVec_smul, power_succ]

theorem mulVec_powerState_ne_zero_iff (h : power A k ≠ 0) :
    A *ᵥ (powerState A k).v ≠ 0 ↔ power A (k + 1) ≠ 0 := by
  obtain ⟨c, hc, heq⟩ := exists_mulVec_powerState h
  rw [heq, smul_ne_zero_iff, and_iff_right hc.ne']

theorem dot_mulVec_powerState (h : power A k ≠ 0) :
    (powerState A k).v ⬝ᵥ (A *ᵥ (powerState A k).v) = quotient A (power A k) :=
  (quotient_of_unit A (direction_dot_self h)).symm.trans (quotient_direction A h)

/-- **A round computes the next power.** -/
theorem step_powerState (h : power A k ≠ 0) : (powerState A k).step A = powerState A (k + 1) := by
  obtain ⟨c, hc, heq⟩ := exists_mulVec_powerState h
  rw [PowerState.step, dot_mulVec_powerState h, heq, direction_smul hc]
  rfl

theorem BeginsWith.exists_eq (hn : 1 ≤ n) (h : BeginsWith A tolerance iter s) :
    ∃ k, iter = k + 1 ∧ s = powerState A k ∧ power A k ≠ 0 ∧ GoesOn A tolerance k := by
  refine Reaches.invariant (I := fun iter s => ∃ k, iter = k + 1 ∧ s = powerState A k ∧
    power A k ≠ 0 ∧ GoesOn A tolerance k)
    ⟨0, rfl, ?_, ?_, fun _ hi => absurd hi (Nat.not_lt_zero _)⟩ ?_ h
  · rw [powerState, power_zero]
    rfl
  · rw [power_zero]
    exact one_ne_zero_of_pos hn
  · rintro _ _ t ⟨k, rfl, rfl, hne, hgo⟩ hround
    obtain ⟨himage, rfl⟩ := step_of_next hn hround
    rw [powerRound_eq tolerance _ himage, dot_mulVec_powerState hne] at hround
    refine ⟨k + 1, rfl, step_powerState hne, (mulVec_powerState_ne_zero_iff hne).1 himage,
      fun i hi => ?_⟩
    rcases Nat.lt_succ_iff_lt_or_eq.1 hi with hlt | rfl
    · exact hgo i hlt
    · split at hround
      · cases hround
      · next htest => exact not_lt.1 htest

theorem beginsWith_powerState (hne : power A k ≠ 0) (hgo : GoesOn A tolerance k) :
    BeginsWith A tolerance (k + 1) (powerState A k) := by
  induction k with
  | zero =>
    rw [powerState, power_zero]
    exact .first
  | succ k ih =>
    have hprev := power_ne_zero hne
    refine .next (ih hprev fun i hi => hgo i (Nat.lt_succ_of_lt hi)) ?_
    rw [powerRound_eq _ _ ((mulVec_powerState_ne_zero_iff hprev).2 hne), step_powerState hprev,
      dot_mulVec_powerState hprev]
    exact if_neg (hgo k (Nat.lt_succ_self k)).not_gt

end Powers

/-! ### What a success means -/

section Success

variable {n : ℕ} {A : Matrix (Fin n) (Fin n) ℝ} {tolerance : ℝ} {maxIterations : ℤ}

/-- **Real convergence**: the eigenvector has length 1, and among the rounds of the run there is one
which goes from an iterate to the next such that their quotients differ by less than the tolerance,
the later one being the eigenvalue. -/
def Converged (A : Matrix (Fin n) (Fin n) ℝ) (maxIterations : ℤ) (tolerance : ℝ)
    (r : PowerResult ℝ n) : Prop :=
  r.eigenvector ⬝ᵥ r.eigenvector = 1 ∧
    ∃ iter s, BeginsWith A tolerance iter s ∧ iter ≤ maxIterations ∧
      quotient A (direction (A *ᵥ s.v)) = r.eigenvalue ∧
      |quotient A (direction (A *ᵥ s.v)) - quotient A s.v| < tolerance

/-- No power of the matrix takes the start vector to zero, up to the first one at which the
quotients are near to each other, or to the limit. -/
def NeverVanishes (A : Matrix (Fin n) (Fin n) ℝ) (maxIterations : ℤ) (tolerance : ℝ) : Prop :=
  ∀ k : ℕ, k < maxIterations → GoesOn A tolerance k → power A (k + 1) ≠ 0

/-- If the first round leaves the loop, the first two quotients are equal. -/
def StartsSteadily (A : Matrix (Fin n) (Fin n) ℝ) (maxIterations : ℤ) (tolerance : ℝ) : Prop :=
  1 ≤ maxIterations → |quotient A (direction 1)| < tolerance →
    quotient A (A *ᵥ direction 1) = quotient A (direction 1)

/-- Without a division by zero, a result comes from the rounds. -/
theorem returns_iteratePower (hn : 1 ≤ n) (htol : 0 < tolerance)
    (hnever : NeverVanishes A maxIterations tolerance)
    (hsteady : StartsSteadily A maxIterations tolerance) :
    Returns (iteratePower Real.sqrt A maxIterations tolerance) fun r =>
      r.status = .success → Converged A maxIterations tolerance r := by
  rw [iteratePower_eq hn]
  rcases @run_cases _ (powerRound Real.sqrt A tolerance) 1 (initialState n) maxIterations.toNat with
    ⟨t, hrun, -⟩ | ⟨iter, t, u, hrun, hiter, hreach, hround⟩
  · rw [hrun]
    exact returns_some EigenStatus.noConfusion
  have hbegins : BeginsWith A tolerance iter t := hreach
  have hle := hreach.le
  have hne : A *ᵥ t.v ≠ 0 := by
    obtain ⟨k, rfl, rfl, hk, hgo⟩ := hbegins.exists_eq hn
    exact (mulVec_powerState_ne_zero_iff hk).2 (hnever k (by omega) hgo)
  rw [powerRound_eq tolerance iter hne] at hround
  split at hround
  case isFalse => cases hround
  case isTrue htest =>
    cases hround
    rw [hrun, finishPower, PowerState.step, if_neg (by rw [(hbegins.unit hn).2]; decide)]
    refine returns_some fun _ => ⟨direction_dot_self hne, ?_⟩
    -- The eigenvalue is the quotient of `t`, so the pair ends in `t` unless `t` is the first.
    rw [← hbegins.quotient_eq hn] at htest ⊢
    rcases hreach with - | ⟨hprev, hnext⟩
    · have hzero : (initialState n).eigenvalue = 0 := rfl
      rw [hzero, sub_zero] at htest
      have heq : quotient A (A *ᵥ (initialState n).v) = quotient A (initialState n).v :=
        hsteady (by omega) htest
      refine ⟨1, initialState n, hbegins, by omega, ?_⟩
      rw [quotient_direction A hne]
      refine ⟨heq, ?_⟩
      rw [heq, sub_self, abs_zero]
      exact htol
    · rename_i j s
      obtain ⟨-, rfl⟩ := step_of_next hn hnext
      have hs : BeginsWith A tolerance j s := hprev
      refine ⟨j, s, hs, by omega, rfl, ?_⟩
      rw [hs.quotient_eq hn]
      exact htest

/-- **A first round that leaves the loop.** -/
theorem powerRound_first (hn : 1 ≤ n) (hne : A *ᵥ direction 1 ≠ 0)
    (hsmall : |quotient A (direction 1)| < tolerance) :
    powerRound Real.sqrt A tolerance 1 (initialState n) = .exit ((initialState n).step A) := by
  have hunit := direction_dot_self (one_ne_zero_of_pos hn)
  have htest : |direction 1 ⬝ᵥ (A *ᵥ direction 1) - 0| < tolerance := by
    rwa [sub_zero, ← quotient_of_unit A hunit]
  exact (powerRound_eq tolerance 1 hne).trans (if_pos htest)

theorem iteratePower_first (hn : 1 ≤ n) (hmax : 1 ≤ maxIterations) (hne : A *ᵥ direction 1 ≠ 0)
    (hsmall : |quotient A (direction 1)| < tolerance) :
    iteratePower Real.sqrt A maxIterations tolerance =
      some ⟨quotient A (direction 1), direction (A *ᵥ direction 1), .success⟩ := by
  have hunit := direction_dot_self (one_ne_zero_of_pos hn)
  rw [iteratePower_eq hn, run_of_exit (by omega) (powerRound_first hn hne hsmall),
    quotient_of_unit A hunit]
  rfl

/-- There is no other pair of iterates then. -/
theorem quotient_eq_of_converged (hn : 1 ≤ n) (hne : A *ᵥ direction 1 ≠ 0)
    (hsmall : |quotient A (direction 1)| < tolerance) {r : PowerResult ℝ n}
    (h : Converged A maxIterations tolerance r) :
    quotient A (A *ᵥ direction 1) = r.eigenvalue := by
  obtain ⟨-, iter, s, hbegins, -, heq, -⟩ := h
  obtain ⟨rfl, rfl⟩ := Reaches.eq_first hbegins (powerRound_first hn hne hsmall)
  exact (quotient_direction A hne).symm.trans heq

theorem power_ne_zero_of_returns (hn : 1 ≤ n) {k : ℕ} {P : PowerResult ℝ n → Prop}
    (h : Returns (iteratePower Real.sqrt A maxIterations tolerance) P) (hk : k < maxIterations)
    (hne : power A k ≠ 0) (hgo : GoesOn A tolerance k) : power A (k + 1) ≠ 0 := by
  intro hzero
  have hproduct : A *ᵥ (powerState A k).v = 0 := by
    by_contra himage
    exact (mulVec_powerState_ne_zero_iff hne).1 himage hzero
  obtain ⟨u, hu, hfailed⟩ := powerRound_of_zero hn tolerance (k + 1) hproduct
  rw [iteratePower_eq hn, Reaches.run_of_exit (beginsWith_powerState hne hgo) hu (by omega),
    finishPower, if_pos hfailed] at h
  exact not_returns_none h

/-- **When power iteration is reliable.** It always returns, and reports success only on real
convergence, exactly if no power of the matrix takes the start vector to zero before the loop ends,
and a first round that leaves the loop has a steady quotient. -/
theorem powerIteration_reliable_iff (hn : 1 ≤ n) (A : Matrix (Fin n) (Fin n) ℝ) (eigenvalue : ℝ)
    (eigenvector : Fin n → ℝ) (maxIter : Option ℤ) (tol : Option ℝ)
    (htol : 0 < tol.getD tolDefault) :
    (Returns (powerIteration Real.sqrt A eigenvalue eigenvector maxIter tol) fun r =>
      r.status = .success → Converged A (maxIter.getD 1000) (tol.getD tolDefault) r) ↔
    NeverVanishes A (maxIter.getD 1000) (tol.getD tolDefault) ∧
      StartsSteadily A (maxIter.getD 1000) (tol.getD tolDefault) := by
  rw [powerIteration_eq]
  refine ⟨fun h => ?_, fun h => returns_iteratePower hn htol h.1 h.2⟩
  have hnever : NeverVanishes A (maxIter.getD 1000) (tol.getD tolDefault) := by
    intro k hk hgo
    induction k with
    | zero => exact power_ne_zero_of_returns hn h hk (power_zero A ▸ one_ne_zero_of_pos hn) hgo
    | succ k ih =>
      exact power_ne_zero_of_returns hn h hk
        (ih (by omega) fun i hi => hgo i (Nat.lt_succ_of_lt hi)) hgo
  refine ⟨hnever, fun hmax hsmall => ?_⟩
  have hne : A *ᵥ direction 1 ≠ 0 := by
    have hpower : power A (0 + 1) ≠ 0 :=
      hnever 0 (by omega) fun _ hi => absurd hi (Nat.not_lt_zero _)
    rw [← mulVec_powerState_ne_zero_iff (power_ne_zero hpower), powerState, power_zero] at hpower
    exact hpower
  exact quotient_eq_of_converged hn hne hsmall (h.elim (iteratePower_first hn hmax hne hsmall) rfl)

/-- For the identity, every vector is steady. -/
theorem powerIteration_reliable_iff_identity :
    Returns (powerIteration Real.sqrt (1 : Matrix (Fin 2) (Fin 2) ℝ) 0 (0 : Fin 2 → ℝ) none
      (some 1)) fun r =>
      r.status = .success → Converged 1 1000 1 r := by
  refine (powerIteration_reliable_iff one_le_two 1 0 0 none (some 1) one_pos).2
    ⟨fun k _ _ => ?_, fun _ _ => by rw [one_mulVec]⟩
  rw [power, one_pow, one_mulVec]
  exact one_ne_zero_of_pos one_le_two

/-- It takes the start vector to an eigenvector, orthogonal to it. -/
def skewed : Matrix (Fin 2) (Fin 2) ℝ := !![1, 0; -1, 0]

/-- **Two failures.** For the zero matrix, the first round divides by zero. The other matrix takes
the start vector to an eigenvector for 1, which is orthogonal to the start vector: that eigenvector
is returned in the first round, with the eigenvalue 0. -/
theorem powerIteration_unreliable :
    powerIteration Real.sqrt (0 : Matrix (Fin 1) (Fin 1) ℝ) 0 (0 : Fin 1 → ℝ) none none = none ∧
    Returns (powerIteration Real.sqrt skewed 0 (0 : Fin 2 → ℝ) none none) fun r =>
      r.status = .success ∧ r.eigenvalue = 0 ∧ skewed *ᵥ r.eigenvector = r.eigenvector ∧
        ¬ Converged skewed 1000 tolDefault r := by
  constructor
  · have hzero : (0 : Matrix (Fin 1) (Fin 1) ℝ) *ᵥ (initialState 1).v = 0 := zero_mulVec _
    obtain ⟨u, hu, hfailed⟩ := powerRound_of_zero le_rfl tolDefault 1 hzero
    rw [powerIteration_eq, iteratePower_eq le_rfl, Option.getD_none, Option.getD_none,
      run_of_exit (by decide) hu, finishPower, if_pos hfailed]
  · obtain ⟨c, hc, hstart⟩ : ∃ c : ℝ, c ≠ 0 ∧ direction (1 : Fin 2 → ℝ) = c • 1 :=
      ⟨_, inv_ne_zero (sqrt_sumSquares_pos (one_ne_zero_of_pos one_le_two)).ne', rfl⟩
    have himage : skewed *ᵥ (1 : Fin 2 → ℝ) = ![1, -1] := by
      ext i
      fin_cases i <;> simp [skewed, mulVec, dotProduct, Fin.sum_univ_two]
    have hfixed : skewed *ᵥ ![1, -1] = ![1, -1] := by
      ext i
      fin_cases i <;> simp [skewed, mulVec, dotProduct, Fin.sum_univ_two]
    have hw : skewed *ᵥ direction 1 = c • ![1, -1] := by rw [hstart, mulVec_smul, himage]
    have hne : skewed *ᵥ direction 1 ≠ 0 := by
      rw [hw]
      exact smul_ne_zero hc fun hzero => one_ne_zero (congrFun hzero 0)
    have hquotient : quotient skewed (direction 1) = 0 := by
      rw [hstart, quotient_smul _ hc, quotient, himage]
      simp [dotProduct, Fin.sum_univ_two]
    have hquotient' : quotient skewed (skewed *ᵥ direction 1) = 1 := by
      rw [hw, quotient_smul _ hc, quotient, hfixed]
      norm_num [dotProduct, Fin.sum_univ_two]
    have hsmall : |quotient skewed (direction 1)| < tolDefault := by
      rw [hquotient, abs_zero, tolDefault]
      positivity
    rw [powerIteration_eq, Option.getD_none, Option.getD_none,
      iteratePower_first one_le_two (by decide) hne hsmall]
    refine returns_some ⟨rfl, hquotient, ?_, fun hconverged => ?_⟩
    · show skewed *ᵥ direction (skewed *ᵥ direction 1) = direction (skewed *ᵥ direction 1)
      rw [hw, direction, mulVec_smul, mulVec_smul, hfixed]
    · have heq := quotient_eq_of_converged one_le_two hne hsmall hconverged
      rw [hquotient', hquotient] at heq
      exact one_ne_zero heq

end Success

/-! ### Positive definite matrices -/

section PositiveDefinite

variable {n : ℕ} {A : Matrix (Fin n) (Fin n) ℝ}

theorem state_powerRound {s : PowerState ℝ n} (h : A *ᵥ s.v ≠ 0) (tolerance : ℝ) (iter : ℕ) :
    (powerRound Real.sqrt A tolerance iter s).state = s.step A := by
  rw [powerRound_eq tolerance iter h]
  split
  · rfl
  · rfl

/-- **The quotients increase towards the largest eigenvalue.** For a symmetric positive definite
matrix, the value that a round assigns to `eigenvalue` is positive and at most the largest
eigenvalue, the iterates have length 1, and the value of the next round is not smaller. If it is the
same, the iterate was an eigenvector. -/
theorem powerIteration_increases (hn : 1 ≤ n) {A : Matrix (Fin n) (Fin n) ℝ} (hA : A.IsSymm)
    (hpos : ∀ v, v ≠ 0 → 0 < v ⬝ᵥ (A *ᵥ v)) (tolerance : ℝ) :
    ∃ μ, IsGreatest (spectrum ℝ A) μ ∧
      ∀ iter s, BeginsWith A tolerance iter s →
        (0 < (powerRound Real.sqrt A tolerance iter s).state.eigenvalue ∧
          (powerRound Real.sqrt A tolerance iter s).state.eigenvalue ≤ μ) ∧
        s.v ⬝ᵥ s.v = 1 ∧
        (powerRound Real.sqrt A tolerance iter s).state.v ⬝ᵥ
          (powerRound Real.sqrt A tolerance iter s).state.v = 1 ∧
        ∀ t, powerRound Real.sqrt A tolerance iter s = .next t →
          t.eigenvalue ≤ (powerRound Real.sqrt A tolerance (iter + 1) t).state.eigenvalue ∧
          ((powerRound Real.sqrt A tolerance (iter + 1) t).state.eigenvalue = t.eigenvalue →
            A *ᵥ s.v = t.eigenvalue • s.v) := by
  have : Nonempty (Fin n) := ⟨⟨0, hn⟩⟩
  obtain ⟨μ, hμ⟩ := exists_isGreatest_spectrum hA
  refine ⟨μ, hμ, fun iter s hbegins => ?_⟩
  have hunit := (hbegins.unit hn).1
  have hne := hbegins.ne_zero hn
  have himage := mulVec_ne_zero hpos hne
  rw [state_powerRound himage]
  refine ⟨⟨hpos s.v hne, ?_⟩, hunit, direction_dot_self himage, fun t hnext => ?_⟩
  · exact (dot_mulVec_le hA hμ.2 s.v).trans_eq (by rw [hunit, mul_one])
  -- The value of the next round is the quotient of the image.
  obtain ⟨-, rfl⟩ := step_of_next hn hnext
  have hbegins' : BeginsWith A tolerance (iter + 1) (s.step A) := .next hbegins hnext
  have himage' := mulVec_ne_zero hpos (hbegins'.ne_zero hn)
  have hvalue : (s.step A).eigenvalue = quotient A s.v := (hbegins.quotient_eq hn).symm
  have hvalue' : ((s.step A).step A).eigenvalue = quotient A (A *ᵥ s.v) :=
    (hbegins'.quotient_eq hn).symm.trans (quotient_direction A himage)
  rw [state_powerRound himage', hvalue, hvalue']
  exact ⟨quotient_le_quotient_mulVec hA hpos hne, mulVec_eq_of_quotient_eq hA hpos hne⟩

/-- A matrix that is not diagonal, and its first round. -/
theorem powerIteration_increases_coupled :
    ∃ μ, IsGreatest (spectrum ℝ (!![2, 1; 1, 2] : Matrix (Fin 2) (Fin 2) ℝ)) μ ∧
      0 < (powerRound Real.sqrt !![2, 1; 1, 2] 1 1 (initialState 2)).state.eigenvalue ∧
      (powerRound Real.sqrt !![2, 1; 1, 2] 1 1 (initialState 2)).state.eigenvalue ≤ μ := by
  have hA : (!![2, 1; 1, 2] : Matrix (Fin 2) (Fin 2) ℝ).IsSymm := by
    ext i j
    fin_cases i <;> fin_cases j <;> rfl
  have hpos : ∀ v : Fin 2 → ℝ, v ≠ 0 → 0 < v ⬝ᵥ (!![2, 1; 1, 2] *ᵥ v) := by
    intro v hv
    have hform : v ⬝ᵥ (!![2, 1; 1, 2] *ᵥ v) = v ⬝ᵥ v + (v 0 + v 1) ^ 2 := by
      simp only [mulVec, dotProduct, Fin.sum_univ_two, of_apply, cons_val', cons_val_zero,
        cons_val_one]
      ring
    rw [hform]
    exact add_pos_of_pos_of_nonneg (SecantUpdates.dot_self_pos hv) (sq_nonneg _)
  obtain ⟨μ, hμ, hrounds⟩ := powerIteration_increases one_le_two hA hpos 1
  exact ⟨μ, hμ, (hrounds 1 (initialState 2) .first).1⟩

end PositiveDefinite

end DistributedComputing.Eigen
