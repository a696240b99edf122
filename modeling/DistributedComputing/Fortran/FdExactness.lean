import Mathlib.Algebra.Polynomial.Derivative
import Mathlib.Algebra.Polynomial.Eval.Degree
import DistributedComputing.Fortran.FiniteDifference

/-!
# Differences of polynomials

`fd_derivative_1d` on the values of a polynomial at the points of a grid. Near the boundary it is as
exact as inside (`fdDerivative1d_exact`).

A cubic polynomial is expanded once about a point of the grid (`exists_expansion`), and in the
coefficients of that expansion a stencil is a linear combination with whole numbers. Each stencil is
exact where it is used (`second_central`, `second_wide`, `second_oneSided`, `first_central`,
`first_wide`), whatever the point. So all assignments store values of one function, the derivative,
and what remains is that every point is assigned, also if there are only four points and the loop of
the wide stencil is empty.
-/

namespace DistributedComputing

open ArrayLoops Polynomial

variable {K : Type} [Field K]

/-- The point `i` of the grid. -/
def gridPoint (x0 dx : K) (i : ℤ) : K := x0 + ((i - 1 : ℤ) : K) * dx

/-- The values of a polynomial on the grid. -/
noncomputable def sample (p : K[X]) (x0 dx : K) (i : ℤ) : K := p.eval (gridPoint x0 dx i)

/-! ### Stencils -/

section Stencils

variable {p : K[X]} (x0 : K) {dx : K}

/-- A cubic polynomial and its derivatives. -/
theorem eval_cubic (hp : p.natDegree ≤ 3) (x : K) :
    p.eval x = p.coeff 0 + p.coeff 1 * x + p.coeff 2 * x ^ 2 + p.coeff 3 * x ^ 3 ∧
    p.derivative.eval x = p.coeff 1 + 2 * p.coeff 2 * x + 3 * p.coeff 3 * x ^ 2 ∧
    p.derivative.derivative.eval x = 2 * p.coeff 2 + 6 * p.coeff 3 * x := by
  have hp' := natDegree_derivative_le p
  have hp'' := natDegree_derivative_le p.derivative
  refine ⟨?_, ?_, ?_⟩
  · rw [eval_eq_sum_range' (show p.natDegree < 4 by omega)]
    simp only [Finset.sum_range_succ, Finset.sum_range_zero]
    ring
  · rw [eval_eq_sum_range' (show p.derivative.natDegree < 3 by omega)]
    simp only [Finset.sum_range_succ, Finset.sum_range_zero, coeff_derivative]
    push_cast
    ring
  · rw [eval_eq_sum_range' (show p.derivative.derivative.natDegree < 2 by omega)]
    simp only [Finset.sum_range_succ, Finset.sum_range_zero, coeff_derivative]
    push_cast
    ring

/-- **The expansion of a cubic polynomial** about a point of the grid. -/
theorem exists_expansion (hp : p.natDegree ≤ 3) (dx : K) (i : ℤ) :
    ∃ c : K, sample p.derivative.derivative x0 dx i * (dx * dx) = 2 * c ∧
      ∀ j : ℤ, sample p x0 dx (i + j) = sample p x0 dx i +
        j * (sample p.derivative x0 dx i * dx) + j ^ 2 * c + j ^ 3 * (p.coeff 3 * dx ^ 3) := by
  obtain ⟨hvalue, hfirst, hsecond⟩ := eval_cubic hp (gridPoint x0 dx i)
  have hpoint : ∀ j : ℤ, gridPoint x0 dx (i + j) = gridPoint x0 dx i + j * dx := by
    intro j
    rw [gridPoint, gridPoint]
    push_cast
    ring
  refine ⟨(p.coeff 2 + 3 * p.coeff 3 * gridPoint x0 dx i) * dx ^ 2, ?_, fun j => ?_⟩
  · rw [sample, hsecond]
    ring
  · rw [sample, sample, sample, hvalue, hfirst, (eval_cubic hp _).1, hpoint]
    ring

section Cubic

variable (hp : p.natDegree ≤ 3) (hdx : dx ≠ 0)

include hp hdx

theorem second_central (i : ℤ) :
    (sample p x0 dx (i - 1) - decimal 2 0 * sample p x0 dx i + sample p x0 dx (i + 1)) *
      (1 / (dx * dx)) = sample p.derivative.derivative x0 dx i := by
  obtain ⟨c, hsecond, hshift⟩ := exists_expansion x0 hp dx i
  rw [mul_one_div, div_eq_iff (mul_ne_zero hdx hdx), hsecond, sub_eq_add_neg i, hshift, hshift,
    decimal_whole]
  push_cast
  ring

/-- The stencil at an end, in either direction. -/
theorem second_oneSided {d i i₁ i₂ i₃ : ℤ} (hd : d = 1 ∨ d = -1) (h₁ : i₁ = i + d)
    (h₂ : i₂ = i + 2 * d) (h₃ : i₃ = i + 3 * d) :
    (decimal 2 0 * sample p x0 dx i - decimal 5 0 * sample p x0 dx i₁ +
      decimal 4 0 * sample p x0 dx i₂ - sample p x0 dx i₃) * (1 / (dx * dx)) =
        sample p.derivative.derivative x0 dx i := by
  obtain ⟨c, hsecond, hshift⟩ := exists_expansion x0 hp dx i
  rw [mul_one_div, div_eq_iff (mul_ne_zero hdx hdx), hsecond, h₁, h₂, h₃, hshift, hshift, hshift]
  simp only [decimal_whole]
  rcases hd with rfl | rfl <;> push_cast <;> ring

theorem second_wide [CharZero K] (i : ℤ) :
    (-sample p x0 dx (i - 2) + decimal 16 0 * sample p x0 dx (i - 1) -
      decimal 30 0 * sample p x0 dx i + decimal 16 0 * sample p x0 dx (i + 1) -
        sample p x0 dx (i + 2)) / decimal 12 0 * (1 / (dx * dx)) =
          sample p.derivative.derivative x0 dx i := by
  obtain ⟨c, hsecond, hshift⟩ := exists_expansion x0 hp dx i
  simp only [decimal_whole]
  have htwelve : ((12 : ℕ) : K) ≠ 0 := Nat.cast_ne_zero.2 (by decide)
  rw [mul_one_div, div_eq_iff (mul_ne_zero hdx hdx), div_eq_iff htwelve, hsecond,
    sub_eq_add_neg i, sub_eq_add_neg i, hshift, hshift, hshift, hshift]
  push_cast
  ring

end Cubic

section Quadratic

variable (hp : p.natDegree ≤ 2)

include hp

theorem exists_expansion_quadratic (dx : K) (i : ℤ) :
    ∃ c : K, ∀ j : ℤ, sample p x0 dx (i + j) = sample p x0 dx i +
      j * (sample p.derivative x0 dx i * dx) + j ^ 2 * c := by
  obtain ⟨c, -, hshift⟩ := exists_expansion x0 (hp.trans (by decide)) dx i
  refine ⟨c, fun j => (hshift j).trans ?_⟩
  rw [coeff_eq_zero_of_natDegree_lt (by omega : p.natDegree < 3), zero_mul, mul_zero, add_zero]

/-- The derivative is linear, so extrapolation from two neighbours is exact. -/
theorem first_extrapolated {d i i₁ i₂ : ℤ} (h₁ : i₁ = i + d) (h₂ : i₂ = i + 2 * d) :
    decimal 2 0 * sample p.derivative x0 dx i₁ - sample p.derivative x0 dx i₂ =
      sample p.derivative x0 dx i := by
  subst h₁ h₂
  have hcubic : p.coeff 3 = 0 := coeff_eq_zero_of_natDegree_lt (by omega)
  simp only [sample, gridPoint, (eval_cubic (hp.trans (by decide)) _).2.1, hcubic, decimal_whole]
  push_cast
  ring

variable [CharZero K] (hdx : dx ≠ 0)

include hdx

theorem first_central (i : ℤ) :
    decimal 5 1 * (sample p x0 dx (i + 1) - sample p x0 dx (i - 1)) * (1 / dx) =
      sample p.derivative x0 dx i := by
  obtain ⟨c, hshift⟩ := exists_expansion_quadratic x0 hp dx i
  have hten : ((10 ^ 1 : ℕ) : K) ≠ 0 := Nat.cast_ne_zero.2 (by decide)
  rw [mul_one_div, div_eq_iff hdx, decimal, div_mul_eq_mul_div, div_eq_iff hten,
    sub_eq_add_neg i, hshift, hshift]
  push_cast
  ring

theorem first_wide (i : ℤ) :
    (sample p x0 dx (i - 2) - decimal 8 0 * sample p x0 dx (i - 1) +
      decimal 8 0 * sample p x0 dx (i + 1) - sample p x0 dx (i + 2)) / decimal 12 0 * (1 / dx) =
        sample p.derivative x0 dx i := by
  obtain ⟨c, hshift⟩ := exists_expansion_quadratic x0 hp dx i
  simp only [decimal_whole]
  have htwelve : ((12 : ℕ) : K) ≠ 0 := Nat.cast_ne_zero.2 (by decide)
  rw [mul_one_div, div_eq_iff hdx, div_eq_iff htwelve, sub_eq_add_neg i, sub_eq_add_neg i, hshift,
    hshift, hshift, hshift]
  push_cast
  ring

end Quadratic

end Stencils

/-! ### Assignments -/

section Assignments

variable {α : Type} {n : ℕ} {f : ℤ → α} {a : Array1 α}

/-- All elements but the ends are values of `f`. -/
structure InteriorExact (n : ℕ) (f : ℤ → α) (a : Array1 α) : Prop where
  size_eq : a.size = n
  elem_eq : ∀ i : ℤ, 2 ≤ i → i ≤ n - 1 → a.elem i = f i

theorem InteriorExact.get_eq (h : InteriorExact n f a) {i : ℤ} (h2 : 2 ≤ i) (hi : i ≤ n - 1) :
    a.get i = some (f i) := by
  have hsize := h.size_eq
  rw [Array1.get_of_le (by omega) (by omega), h.elem_eq i h2 hi]

/-- A loop over the interior. -/
theorem returns_interior {body : ℤ → Array1 α → Option (Array1 α)} (hsize : a.size = n)
    (hbody : ∀ (i : ℤ) a', 2 ≤ i → i ≤ n - 1 → body i a' = a'.set i (f i)) :
    Returns (doLoop 2 (n - 1) body a) (InteriorExact n f) := by
  refine ((Array1.line_within (by omega)).returns_doLoop hsize (by decide) le_rfl hbody).mono
    fun a' ha' => ⟨ha'.shape_eq.trans hsize, fun i h2 hi => ?_⟩
  have hplace : i ∈ Set.Icc 1 (a.size : ℤ) := ⟨by omega, by omega⟩
  exact ha'.on i hplace ⟨i, ⟨h2, hi⟩, rfl⟩

theorem returns_interior_wide {body : ℤ → Array1 α → Option (Array1 α)}
    {near : Array1 α → Option (Array1 α)} (hn : 4 ≤ n) (hsize : a.size = n)
    (hbody : ∀ (i : ℤ) a', 3 ≤ i → i ≤ n - 2 → body i a' = a'.set i (f i))
    (hnear : ∀ a', near a' = a'.set 2 (f 2) >>= fun a' => a'.set (n - 1) (f (n - 1))) :
    Returns (doLoop 3 (n - 2) body a >>= near) (InteriorExact n f) := by
  have hfills : Returns (doLoop 3 (n - 2) body a >>= near)
      (Array1.view.Fills f (id '' Set.Icc 3 ((n : ℤ) - 2) ∪ ({2} ∪ {(n : ℤ) - 1})) a) := by
    refine View.returns_bind ((Array1.line_within (by omega)).returns_doLoop hsize (by decide)
      le_rfl hbody) fun a₁ h₁ => ?_
    have hsize₁ : a₁.size = n := h₁.shape_eq.trans hsize
    rw [hnear]
    refine View.returns_bind (Array1.returns_set_fills (by decide) (by omega) rfl) fun a₂ h₂ => ?_
    have hsize₂ : a₂.size = n := h₂.shape_eq.trans hsize₁
    exact Array1.returns_set_fills (by omega) (by omega) rfl
  refine hfills.mono fun a' ha' => ⟨ha'.shape_eq.trans hsize, fun i h2 hi => ?_⟩
  have hplace : i ∈ Set.Icc 1 (a.size : ℤ) := ⟨by omega, by omega⟩
  refine ha'.on i hplace ?_
  simp only [Set.image_id, Set.mem_union, Set.mem_Icc, Set.mem_singleton_iff]
  omega

/-- **The ends**, which may be computed from the interior. -/
theorem returns_ends {left right : Array1 α → Option (Array1 α)} (hn : 1 ≤ n)
    (hleft : ∀ a, InteriorExact n f a → left a = a.set 1 (f 1))
    (hright : ∀ a, InteriorExact n f a → right a = a.set n (f n)) (ha : InteriorExact n f a) :
    Returns (left a >>= right) fun a' => a'.Tabulates n f := by
  have hsize := ha.size_eq
  rw [hleft a ha]
  refine Returns.bind (Array1.returns_set ⟨le_rfl, by omega⟩) fun a₁ h₁ => ?_
  have hsize₁ := h₁.size_eq
  have hinterior : InteriorExact n f a₁ := ⟨hsize₁.trans hsize, fun i h2 hi =>
    (h₁.elsewhere i (by omega)).trans (ha.elem_eq i h2 hi)⟩
  rw [hright a₁ hinterior]
  refine (Array1.returns_set ⟨by omega, by omega⟩).mono fun a₂ h₂ =>
    ⟨h₂.size_eq.trans hinterior.size_eq, fun i h1 hi => ?_⟩
  rcases eq_or_ne i n with rfl | hlast
  · exact h₂.at_index
  rw [h₂.elsewhere i hlast]
  rcases eq_or_ne i 1 with rfl | hfirst
  · exact h₁.at_index
  · exact hinterior.elem_eq i (by omega) (by omega)

end Assignments

/-! ### The second derivative -/

section Second

variable {n : ℕ} {u : Array1 K} {p : K[X]} {x0 dx : K} (hn : 4 ≤ n)
  (hu : u.Tabulates n (sample p x0 dx)) (hp : p.natDegree ≤ 3) (hdx : dx ≠ 0)

include hn hu hp hdx

theorem applyBcSecondDeriv_left_exact (du : Array1 K) :
    applyBcSecondDeriv u du 1 (1 / (dx * dx)) bcDirichlet =
      du.set 1 (sample p.derivative.derivative x0 dx 1) := by
  have hsize := hu.size_eq
  rw [applyBcSecondDeriv, if_neg (by decide), if_pos rfl, if_pos rfl]
  simp (disch := omega) only [Array1.get_bind, hu.elem_eq]
  exact congrArg (du.set 1) (second_oneSided x0 hp hdx (.inl rfl) rfl rfl rfl)

theorem applyBcSecondDeriv_right_exact (du : Array1 K) :
    applyBcSecondDeriv u du n (1 / (dx * dx)) bcDirichlet =
      du.set n (sample p.derivative.derivative x0 dx n) := by
  have hsize := hu.size_eq
  rw [applyBcSecondDeriv, if_neg (by decide), if_pos rfl, if_neg (by omega), hsize]
  simp (disch := omega) only [Array1.get_bind, hu.elem_eq]
  exact congrArg (du.set n)
    (second_oneSided x0 hp hdx (.inr rfl) (by ring) (by ring) (by ring))

theorem fdSecondDerivativeO2_exact {du : Array1 K} (hdu : du.size = n) :
    Returns (fdSecondDerivativeO2 u du (1 / (dx * dx)) bcDirichlet) fun du' =>
      du'.Tabulates n (sample p.derivative.derivative x0 dx) := by
  have hsize := hu.size_eq
  rw [fdSecondDerivativeO2, hsize]
  refine Returns.bind (returns_interior hdu fun i a h2 hi => ?_) fun a ha =>
    returns_ends (by omega) (fun a _ => applyBcSecondDeriv_left_exact hn hu hp hdx a)
      (fun a _ => applyBcSecondDeriv_right_exact hn hu hp hdx a) ha
  simp (disch := omega) only [Array1.get_bind, hu.elem_eq]
  exact congrArg (a.set i) (second_central x0 hp hdx i)

theorem nearBoundarySecond_exact (du : Array1 K) :
    nearBoundarySecond u du (1 / (dx * dx)) =
      du.set 2 (sample p.derivative.derivative x0 dx 2) >>= fun du =>
        du.set (n - 1) (sample p.derivative.derivative x0 dx (n - 1)) := by
  have hsize := hu.size_eq
  have hlast := second_central x0 hp hdx ((n : ℤ) - 1)
  rw [show (n : ℤ) - 1 - 1 = n - 2 by ring, sub_add_cancel] at hlast
  rw [nearBoundarySecond, hsize, if_pos (by omega), ← second_central x0 hp hdx 2, ← hlast]
  simp (disch := omega) only [Array1.get_bind, hu.elem_eq]
  rfl

theorem fdSecondDerivativeO4_exact [CharZero K] {du : Array1 K} (hdu : du.size = n) :
    Returns (fdSecondDerivativeO4 u du (1 / (dx * dx)) bcDirichlet) fun du' =>
      du'.Tabulates n (sample p.derivative.derivative x0 dx) := by
  have hsize := hu.size_eq
  rw [fdSecondDerivativeO4, hsize, ← bind_assoc]
  refine Returns.bind (returns_interior_wide hn hdu (fun i a h3 hi => ?_)
    (nearBoundarySecond_exact hn hu hp hdx)) fun a ha =>
      returns_ends (by omega) (fun a _ => applyBcSecondDeriv_left_exact hn hu hp hdx a)
        (fun a _ => applyBcSecondDeriv_right_exact hn hu hp hdx a) ha
  simp (disch := omega) only [Array1.get_bind, hu.elem_eq]
  exact congrArg (a.set i) (second_wide x0 hp hdx i)

end Second

/-! ### The first derivative -/

section First

variable {n : ℕ} {u : Array1 K} {p : K[X]} {x0 dx : K} (hn : 4 ≤ n)
  (hu : u.Tabulates n (sample p x0 dx)) (hp : p.natDegree ≤ 2)

include hn hp

theorem applyBcFirstDeriv_left_exact (invDx : K) {du : Array1 K}
    (hdu : InteriorExact n (sample p.derivative x0 dx) du) :
    applyBcFirstDeriv u du 1 invDx bcExtrapolate = du.set 1 (sample p.derivative x0 dx 1) := by
  rw [applyBcFirstDeriv, if_neg (by decide), if_neg (by decide), if_neg (by decide), if_pos rfl,
    if_pos rfl, hdu.get_eq (by decide) (by omega), hdu.get_eq (by decide) (by omega)]
  exact congrArg (du.set 1) (first_extrapolated x0 hp (d := 1) rfl rfl)

include hu

theorem applyBcFirstDeriv_right_exact (invDx : K) {du : Array1 K}
    (hdu : InteriorExact n (sample p.derivative x0 dx) du) :
    applyBcFirstDeriv u du n invDx bcExtrapolate = du.set n (sample p.derivative x0 dx n) := by
  have hsize := hu.size_eq
  rw [applyBcFirstDeriv, if_neg (by decide), if_neg (by decide), if_neg (by decide), if_pos rfl,
    if_neg (by omega), hsize, hdu.get_eq (by omega) (by omega), hdu.get_eq (by omega) (by omega)]
  exact congrArg (du.set n) (first_extrapolated x0 hp (d := -1) rfl (by ring))

variable [CharZero K] (hdx : dx ≠ 0)

include hdx

theorem fdFirstDerivativeO2_exact {du : Array1 K} (hdu : du.size = n) :
    Returns (fdFirstDerivativeO2 u du (1 / dx) bcExtrapolate) fun du' =>
      du'.Tabulates n (sample p.derivative x0 dx) := by
  have hsize := hu.size_eq
  rw [fdFirstDerivativeO2, hsize]
  refine Returns.bind (returns_interior hdu fun i a h2 hi => ?_) fun a ha =>
    returns_ends (by omega) (fun a => applyBcFirstDeriv_left_exact hn hp (1 / dx))
      (fun a => applyBcFirstDeriv_right_exact hn hu hp (1 / dx)) ha
  simp (disch := omega) only [Array1.get_bind, hu.elem_eq]
  exact congrArg (a.set i) (first_central x0 hp hdx i)

theorem nearBoundaryFirst_exact (du : Array1 K) :
    nearBoundaryFirst u du (1 / dx) =
      du.set 2 (sample p.derivative x0 dx 2) >>= fun du =>
        du.set (n - 1) (sample p.derivative x0 dx (n - 1)) := by
  have hsize := hu.size_eq
  have hlast := first_central x0 hp hdx ((n : ℤ) - 1)
  rw [show (n : ℤ) - 1 - 1 = n - 2 by ring, sub_add_cancel] at hlast
  rw [nearBoundaryFirst, hsize, if_pos (by omega), ← first_central x0 hp hdx 2, ← hlast]
  simp (disch := omega) only [Array1.get_bind, hu.elem_eq]
  rfl

theorem fdFirstDerivativeO4_exact {du : Array1 K} (hdu : du.size = n) :
    Returns (fdFirstDerivativeO4 u du (1 / dx) bcExtrapolate) fun du' =>
      du'.Tabulates n (sample p.derivative x0 dx) := by
  have hsize := hu.size_eq
  rw [fdFirstDerivativeO4, hsize, ← bind_assoc]
  refine Returns.bind (returns_interior_wide hn hdu (fun i a h3 hi => ?_)
    (nearBoundaryFirst_exact hn hu hp hdx)) fun a ha =>
      returns_ends (by omega) (fun a => applyBcFirstDeriv_left_exact hn hp (1 / dx))
        (fun a => applyBcFirstDeriv_right_exact hn hu hp (1 / dx)) ha
  simp (disch := omega) only [Array1.get_bind, hu.elem_eq]
  exact congrArg (a.set i) (first_wide x0 hp hdx i)

end First

/-- **Exact derivatives up to the boundary**: the second derivative of a cubic polynomial with
Dirichlet conditions, and the first derivative of a quadratic one with extrapolation. -/
theorem fdDerivative1d_exact [LinearOrder K] [IsStrictOrderedRing K] {n : ℕ} (hn : 4 ≤ n)
    {x0 dx : K} (hdx : dx ≠ 0) {p : K[X]} {u du : Array1 K} (hu : u.Tabulates n (sample p x0 dx))
    (hdu : du.size = n) {accuracy : ℤ} (haccuracy : accuracy = 2 ∨ accuracy = 4) :
    (p.natDegree ≤ 3 →
      Returns (fdDerivative1d u du dx 2 (some accuracy) (some bcDirichlet)) fun du' =>
        du'.Tabulates n (sample p.derivative.derivative x0 dx)) ∧
    (p.natDegree ≤ 2 →
      Returns (fdDerivative1d u du dx 1 (some accuracy) (some bcExtrapolate)) fun du' =>
        du'.Tabulates n (sample p.derivative x0 dx)) := by
  rcases haccuracy with rfl | rfl
  · exact ⟨fun hp => fdSecondDerivativeO2_exact hn hu hp hdx hdu,
      fun hp => fdFirstDerivativeO2_exact hn hu hp hdx hdu⟩
  · exact ⟨fun hp => fdSecondDerivativeO4_exact hn hu hp hdx hdu,
      fun hp => fdFirstDerivativeO4_exact hn hu hp hdx hdu⟩

/-- The cube on four points, where the wide stencil does not fit. -/
theorem fdDerivative1d_exact_cube :
    Returns (fdDerivative1d ⟨4, sample (X ^ 3 : ℚ[X]) 0 1⟩ ⟨4, 0⟩ 1 2 (some 4) (some bcDirichlet))
      fun du' => du'.Tabulates 4 (sample (X ^ 3 : ℚ[X]).derivative.derivative 0 1) :=
  (fdDerivative1d_exact le_rfl one_ne_zero ⟨rfl, fun _ _ _ => rfl⟩ rfl (.inr rfl)).1
    (natDegree_X_pow_le 3)

end DistributedComputing
