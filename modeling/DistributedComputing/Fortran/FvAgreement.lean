import DistributedComputing.Fortran.FiniteVolume

/-!
# Courant numbers, and the two advection routines

The first-order schemes see the velocity, the cell width and the time step only through the Courant
number `velocity * dt / dx`. The Lax-Wendroff flux of the source lacks the factor `dt / dx` in its
second term: what it changes is half the Courant number times `central - velocity * second`
(`laxWendroffFlux_sub`), where the velocity should be the Courant number. Two runs that differ in
the units alone thus agree only if nothing depends on that term (`fvAdvection1d_units_iff`).

In two dimensions, there is no such flux: the code for `FV_LAX_WENDROFF` falls under the default
case, and nothing is advected. A flow along the grid then agrees with the one-dimensional routine on
each line exactly if that does not change the line either (`fvAdvection2d_agrees_iff`).
-/

namespace DistributedComputing

open ArrayLoops PeriodicGrid

variable {K : Type} [Field K] [LinearOrder K] [IsStrictOrderedRing K]

/-! ### What the fluxes change -/

theorem laxWendroffFlux_sub (velocity h dt : K) (n : ℤ) (u : ℤ → K) (i : ℤ) :
    dt / h * (laxWendroffFlux velocity (u i) (u (next n i)) -
        laxWendroffFlux velocity (u (prev n i)) (u i)) =
      velocity * dt / h * (centralDifference n u i - velocity * secondDifference n u i) /
        decimal 2 0 := by
  rw [laxWendroffFlux, laxWendroffFlux, centralDifference, secondDifference, decimal_two_zero]
  ring

/-- What the fluxes of the other schemes change, by the Courant number. -/
def courantMove (scheme : ℤ) (courant : K) (n : ℤ) (u : ℤ → K) (i : ℤ) : K :=
  if scheme = fvUpwind ∨ scheme = fvLaxFriedrichs then
    |courant| * (u (upwindCell courant n i) - u i)
  else 0

theorem abs_courant {dx dt : K} (hdx : 0 < dx) (hdt : 0 < dt) (velocity : K) :
    |velocity| * dt / dx = |velocity * dt / dx| := by
  rw [abs_div, abs_mul, abs_of_pos hdt, abs_of_pos hdx]

theorem upwindCell_courant {dx dt : K} (hdx : 0 < dx) (hdt : 0 < dt) (velocity : K) (n i : ℤ) :
    upwindCell (velocity * dt / dx) n i = upwindCell velocity n i := by
  have hsign : 0 ≤ velocity * dt / dx ↔ 0 ≤ velocity := by
    rw [mul_div_assoc, mul_nonneg_iff_of_pos_right (div_pos hdt hdx)]
  simp only [upwindCell, hsign]

theorem flux1d_sub {scheme : ℤ} (hscheme : scheme ≠ fvLaxWendroff) {dx dt : K} (hdx : 0 < dx)
    (hdt : 0 < dt) (velocity : K) (n : ℤ) (u : ℤ → K) (i : ℤ) :
    dt / dx * (flux1d scheme velocity (u i) (u (next n i)) -
        flux1d scheme velocity (u (prev n i)) (u i)) =
      -courantMove scheme (velocity * dt / dx) n u i := by
  have hmove := upwindFlux_sub velocity dx dt n u i
  rw [abs_courant hdx hdt, ← upwindCell_courant hdx hdt] at hmove
  rw [flux1d, flux1d, courantMove]
  by_cases hup : scheme = fvUpwind
  · rw [if_pos hup, if_pos hup, if_pos (.inl hup)]
    exact hmove
  by_cases hlf : scheme = fvLaxFriedrichs
  · rw [if_neg hup, if_neg hup, if_pos hlf, if_pos hlf, if_pos (.inr hlf), laxFriedrichsFlux_eq,
      laxFriedrichsFlux_eq]
    exact hmove
  · rw [if_neg hup, if_neg hup, if_neg hlf, if_neg hlf, if_neg hscheme, if_neg hscheme,
      if_neg (not_or.2 ⟨hup, hlf⟩), sub_self, mul_zero, neg_zero]

omit [IsStrictOrderedRing K] in
theorem flux1d_laxWendroff (velocity : K) :
    flux1d fvLaxWendroff velocity = laxWendroffFlux velocity := by
  funext uLeft uRight
  rw [flux1d, if_neg (by decide), if_neg (by decide), if_pos rfl]

/-! ### Change of units -/

section Units

variable {velocity velocity' dx dx' dt dt' : K} (hdx : 0 < dx) (hdx' : 0 < dx') (hdt : 0 < dt)
  (hdt' : 0 < dt') (hcourant : velocity * dt / dx = velocity' * dt' / dx')

include hdx hdx' hdt hdt' hcourant

theorem advection1d_units {scheme : ℤ} (hscheme : scheme ≠ fvLaxWendroff) (n : ℤ) (u : ℤ → K)
    (i : ℤ) :
    advection1d scheme velocity dx dt n u i = advection1d scheme velocity' dx' dt' n u i := by
  rw [advection1d, advection1d, flux1d_sub hscheme hdx hdt, flux1d_sub hscheme hdx' hdt',
    abs_courant hdx hdt, abs_courant hdx' hdt', hcourant]

/-- For the Lax-Wendroff scheme, the velocity matters where the field is curved. -/
theorem advection1d_laxWendroff_units (hstep : ¬ 1 < |velocity * dt / dx|) (n : ℤ) (u : ℤ → K)
    (i : ℤ) :
    advection1d fvLaxWendroff velocity dx dt n u i =
        advection1d fvLaxWendroff velocity' dx' dt' n u i ↔
      velocity * dt / dx * ((velocity - velocity') * secondDifference n u i) = 0 := by
  rw [advection1d, advection1d, abs_courant hdx hdt, abs_courant hdx' hdt', ← hcourant,
    if_neg hstep, if_neg hstep, flux1d_laxWendroff, flux1d_laxWendroff, laxWendroffFlux_sub,
    laxWendroffFlux_sub, ← hcourant, sub_right_inj, decimal_two_zero]
  constructor
  · intro h
    linear_combination (-2) * h
  · intro h
    linear_combination (-1 / 2) * h

theorem courant_ne_zero (hne : velocity ≠ velocity') : velocity * dt / dx ≠ 0 := by
  intro hzero
  have hv : velocity = 0 := by
    rw [mul_div_assoc, mul_eq_zero_iff_right (div_pos hdt hdx).ne'] at hzero
    exact hzero
  have hv' : velocity' = 0 := by
    rw [hcourant, mul_div_assoc, mul_eq_zero_iff_right (div_pos hdt' hdx').ne'] at hzero
    exact hzero
  exact hne (hv.trans hv'.symm)

theorem laxWendroff_units_iff (hstep : ¬ 1 < |velocity * dt / dx|) (n : ℤ) (u : ℤ → K) :
    (∀ i, 1 ≤ i → i ≤ n → advection1d fvLaxWendroff velocity dx dt n u i =
      advection1d fvLaxWendroff velocity' dx' dt' n u i) ↔
      velocity = velocity' ∨ Constant n u := by
  simp only [advection1d_laxWendroff_units hdx hdx' hdt hdt' hcourant hstep]
  constructor
  · intro h
    rw [or_iff_not_imp_left]
    intro hne
    have hc := courant_ne_zero hdx hdx' hdt hdt' hcourant hne
    refine constant_of_secondDifference fun i h1 hi => ?_
    exact (mul_eq_zero.1 ((mul_eq_zero.1 (h i h1 hi)).resolve_left hc)).resolve_left
      (sub_ne_zero.2 hne)
  · rintro (rfl | hconst) i h1 hi
    · rw [sub_self, zero_mul, mul_zero]
    · rw [hconst.secondDifference_eq h1 hi, mul_zero, mul_zero]

/-- **When advection depends on the Courant number alone.** Two runs with one Courant number, and
with any scheme code, give the same field exactly if the scheme is not Lax-Wendroff, the step is
skipped, the velocities are equal too, or the field is constant. -/
theorem fvAdvection1d_units_iff (contents contents' : ℤ → K) {u uNew : Array1 K}
    (scheme : Option ℤ) (hn : 1 ≤ u.size) (hsize : uNew.size = u.size) :
    ∃ w w', fvAdvection1d contents u uNew velocity dx dt scheme = some w ∧
      fvAdvection1d contents' u uNew velocity' dx' dt' scheme = some w' ∧
      ((∀ i : ℤ, 1 ≤ i → i ≤ u.size → w.elem i = w'.elem i) ↔
        scheme.getD fvUpwind ≠ fvLaxWendroff ∨ 1 < |velocity * dt / dx| ∨ velocity = velocity' ∨
          Constant u.size u.elem) := by
  obtain ⟨w, hw, hval⟩ := fvAdvection1d_tabulates contents velocity dx dt scheme hn hsize
  obtain ⟨w', hw', hval'⟩ := fvAdvection1d_tabulates contents' velocity' dx' dt' scheme hn hsize
  refine ⟨w, w', hw, hw', ?_⟩
  rw [hval.forall_elem_eq_iff hval']
  by_cases hscheme : scheme.getD fvUpwind = fvLaxWendroff
  · by_cases hstep : 1 < |velocity * dt / dx|
    · -- Both runs skip the step.
      have hskip : ∀ i, advection1d (scheme.getD fvUpwind) velocity dx dt u.size u.elem i =
          advection1d (scheme.getD fvUpwind) velocity' dx' dt' u.size u.elem i := by
        intro i
        rw [advection1d, advection1d, abs_courant hdx hdt, abs_courant hdx' hdt', ← hcourant,
          if_pos hstep, if_pos hstep]
      exact iff_of_true (fun i _ _ => hskip i) (.inr (.inl hstep))
    · simp only [hscheme, ne_eq, not_true_eq_false, hstep, false_or]
      exact laxWendroff_units_iff hdx hdx' hdt hdt' hcourant hstep u.size u.elem
  · exact iff_of_true
      (fun i _ _ => advection1d_units hdx hdx' hdt hdt' hcourant hscheme u.size u.elem i)
      (.inl hscheme)

end Units

/-- With the upwind scheme, twice the velocity on cells of twice the width is the same. -/
theorem fvAdvection1d_units_iff_upwind :
    ∃ w w', fvAdvection1d 0 threeCells threeCells 1 1 (1 / 2) none = some w ∧
      fvAdvection1d 0 threeCells threeCells 2 2 (1 / 2) none = some w' ∧
      ∀ i : ℤ, 1 ≤ i → i ≤ 3 → w.elem i = w'.elem i := by
  have hpos : (0 : ℚ) < 1 / 2 := by with_unfolding_all decide
  have hcourant : (1 : ℚ) * (1 / 2) / 1 = 2 * (1 / 2) / 2 := by with_unfolding_all decide
  obtain ⟨w, w', hw, hw', hiff⟩ := fvAdvection1d_units_iff one_pos two_pos hpos hpos hcourant 0 0
    none (u := threeCells) (by decide) rfl
  exact ⟨w, w', hw, hw', hiff.2 (.inl (by decide))⟩

/-- With the Lax-Wendroff scheme, it is not. -/
theorem laxWendroff_depends_on_units :
    (1 : ℚ) * (1 / 2) / 1 = 2 * (1 / 2) / 2 ∧
      (fvAdvection1d 0 threeCells threeCells 1 1 (1 / 2) (some fvLaxWendroff)).map Array1.toList =
        some [2, 3 / 2, 5 / 2] ∧
      (fvAdvection1d 0 threeCells threeCells 2 2 (1 / 2) (some fvLaxWendroff)).map Array1.toList =
        some [11 / 4, 3 / 2, 7 / 4] := by
  with_unfolding_all decide

/-! ### Flow along the grid -/

theorem flux2d_zero (scheme : ℤ) (uLeft uRight : K) : flux2d scheme 0 uLeft uRight = 0 := by
  rw [flux2d, laxFriedrichsFlux_eq, upwindFlux, zero_mul, zero_mul, ite_self, ite_self, ite_self]

omit [IsStrictOrderedRing K] in
theorem flux2d_eq_flux1d {scheme : ℤ} (h : scheme ≠ fvLaxWendroff) (velocity : K) :
    flux2d scheme velocity = flux1d scheme velocity := by
  funext uLeft uRight
  rw [flux2d, flux1d, if_neg h]

omit [IsStrictOrderedRing K] in
theorem flux2d_laxWendroff (velocity uLeft uRight : K) :
    flux2d fvLaxWendroff velocity uLeft uRight = 0 := by
  rw [flux2d, if_neg (by decide), if_neg (by decide)]

/-- A line of the grid, as `fv_advection_2d` changes it if the flow is along the line. -/
def alongLine (scheme : ℤ) (velocity h dt : K) (n : ℤ) (u : ℤ → K) (i : ℤ) : K :=
  if 1 < |velocity| * dt / h then u i
  else u i - dt / h * (flux2d scheme velocity (u i) (u (next n i)) -
    flux2d scheme velocity (u (prev n i)) (u i))

theorem advection2d_of_vy (scheme : ℤ) (vx dx dy dt : K) (nx ny : ℤ) (u : ℤ → ℤ → K) (i j : ℤ) :
    advection2d scheme vx 0 dx dy dt nx ny u i j =
      alongLine scheme vx dx dt nx (fun i => u i j) i := by
  rw [advection2d, alongLine, abs_zero, zero_mul, zero_div, add_zero, flux2d_zero, flux2d_zero,
    sub_self, mul_zero, sub_zero]

theorem advection2d_of_vx (scheme : ℤ) (vy dx dy dt : K) (nx ny : ℤ) (u : ℤ → ℤ → K) (i j : ℤ) :
    advection2d scheme 0 vy dx dy dt nx ny u i j = alongLine scheme vy dy dt ny (u i) j := by
  rw [advection2d, alongLine, abs_zero, zero_mul, zero_div, zero_add, flux2d_zero, flux2d_zero,
    sub_self, mul_zero, sub_zero]

/-- **When the two routines agree on a line.** -/
theorem alongLine_iff (scheme : ℤ) {velocity h dt : K} (hh : 0 < h) (hdt : 0 < dt) (n : ℤ)
    (u : ℤ → K) :
    (∀ i, 1 ≤ i → i ≤ n →
      alongLine scheme velocity h dt n u i = advection1d scheme velocity h dt n u i) ↔
      scheme ≠ fvLaxWendroff ∨ 1 < |velocity| * dt / h ∨ velocity = 0 ∨ Constant n u := by
  by_cases hscheme : scheme = fvLaxWendroff
  · subst hscheme
    by_cases hstep : 1 < |velocity| * dt / h
    · refine iff_of_true (fun i _ _ => ?_) (.inr (.inl hstep))
      rw [alongLine, advection1d, if_pos hstep, if_pos hstep]
    · have hcell : ∀ i, alongLine fvLaxWendroff velocity h dt n u i =
          advection1d fvLaxWendroff velocity h dt n u i ↔
            velocity * (centralDifference n u i - velocity * secondDifference n u i) = 0 := by
        intro i
        have hne : dt / h / 2 ≠ 0 := (half_pos (div_pos hdt hh)).ne'
        have hfactor : velocity * dt / h *
            (centralDifference n u i - velocity * secondDifference n u i) / 2 = dt / h / 2 *
              (velocity * (centralDifference n u i - velocity * secondDifference n u i)) := by
          ring
        rw [alongLine, advection1d, if_neg hstep, if_neg hstep, flux2d_laxWendroff,
          flux2d_laxWendroff, sub_self, mul_zero, flux1d_laxWendroff, laxWendroffFlux_sub,
          sub_right_inj, eq_comm, decimal_two_zero, hfactor, mul_eq_zero_iff_left hne]
      simp only [hcell, ne_eq, not_true_eq_false, hstep, false_or]
      constructor
      · intro hall
        rw [or_iff_not_imp_left]
        exact fun hne => constant_of_centralDifference hne fun i h1 hi =>
          sub_eq_zero.1 ((mul_eq_zero.1 (hall i h1 hi)).resolve_left hne)
      · rintro (rfl | hconst) i h1 hi
        · rw [zero_mul]
        · rw [hconst.centralDifference_eq h1 hi, hconst.secondDifference_eq h1 hi, mul_zero,
            sub_zero, mul_zero]
  · refine iff_of_true (fun i _ _ => ?_) (.inl hscheme)
    rw [alongLine, advection1d, flux2d_eq_flux1d hscheme]

/-- **When the two advection routines agree.** With `vy = 0`, the column `j` of the result is that
of `fv_advection_1d` exactly if the scheme is not Lax-Wendroff, the step is skipped, there is no
flow at all, or the column is constant; and likewise for the rows, with `vx = 0`. -/
theorem fvAdvection2d_agrees_iff (contents : ℤ → K) (contentsX contentsY : ℤ → ℤ → K)
    (u uNew : Array2 K) {dx dy dt : K} (hdx : 0 < dx) (hdy : 0 < dy) (hdt : 0 < dt)
    (scheme : Option ℤ) (hnx : 1 ≤ u.rows) (hny : 1 ≤ u.cols) (hrows : uNew.rows = u.rows)
    (hcols : uNew.cols = u.cols) (vx vy : K) :
    (∃ w, fvAdvection2d contentsX contentsY u uNew vx 0 dx dy dt scheme = some w ∧
      ∀ j : ℤ, 1 ≤ j → j ≤ u.cols → ∀ out : Array1 K, out.size = u.rows →
        ∃ column line, u.column j = some column ∧
          fvAdvection1d contents column out vx dx dt scheme = some line ∧
          ((∀ i : ℤ, 1 ≤ i → i ≤ u.rows → w.elem i j = line.elem i) ↔
            scheme.getD fvUpwind ≠ fvLaxWendroff ∨ 1 < |vx| * dt / dx ∨ vx = 0 ∨
              Constant u.rows fun i => u.elem i j)) ∧
    ∃ w, fvAdvection2d contentsX contentsY u uNew 0 vy dx dy dt scheme = some w ∧
      ∀ i : ℤ, 1 ≤ i → i ≤ u.rows → ∀ out : Array1 K, out.size = u.cols →
        ∃ row line, u.row i = some row ∧
          fvAdvection1d contents row out vy dy dt scheme = some line ∧
          ((∀ j : ℤ, 1 ≤ j → j ≤ u.cols → w.elem i j = line.elem j) ↔
            scheme.getD fvUpwind ≠ fvLaxWendroff ∨ 1 < |vy| * dt / dy ∨ vy = 0 ∨
              Constant u.cols (u.elem i)) := by
  constructor
  · obtain ⟨w, hw, hval⟩ := fvAdvection2d_tabulates contentsX contentsY vx 0 dx dy dt scheme hnx hny
      hrows hcols
    refine ⟨w, hw, fun j h1 hj out hout => ?_⟩
    obtain ⟨line, hline, hlval⟩ := fvAdvection1d_tabulates (u := ⟨u.rows, fun i => u.elem i j⟩)
      contents vx dx dt scheme hnx hout
    refine ⟨_, line, Array2.column_eq h1 hj, hline, ?_⟩
    rw [← alongLine_iff _ hdx hdt]
    refine forall_congr' fun i => imp_congr_right fun h1' => imp_congr_right fun hi => ?_
    rw [hval.elem_eq i j h1' hi h1 hj, hlval.elem_eq i h1' hi, advection2d_of_vy]
  · obtain ⟨w, hw, hval⟩ := fvAdvection2d_tabulates contentsX contentsY 0 vy dx dy dt scheme hnx hny
      hrows hcols
    refine ⟨w, hw, fun i h1 hi out hout => ?_⟩
    obtain ⟨line, hline, hlval⟩ := fvAdvection1d_tabulates (u := ⟨u.cols, u.elem i⟩)
      contents vy dy dt scheme hny hout
    refine ⟨_, line, Array2.row_eq h1 hi, hline, ?_⟩
    rw [← alongLine_iff _ hdy hdt]
    refine forall_congr' fun j => imp_congr_right fun h1' => imp_congr_right fun hj => ?_
    rw [hval.elem_eq i j h1 hi h1' hj, hlval.elem_eq j h1' hj, advection2d_of_vx]

/-- One row of three cells in the x direction, as a field of two dimensions. -/
def threeByOne : Array2 ℚ := ⟨3, 1, fun i _ => i⟩

/-- With the upwind scheme, the routines agree on the field. -/
theorem fvAdvection2d_agrees_iff_upwind :
    ∃ w, fvAdvection2d 0 0 threeByOne threeByOne 1 0 1 1 (1 / 2) none = some w ∧
      ∀ j : ℤ, 1 ≤ j → j ≤ 1 → ∃ column line, threeByOne.column j = some column ∧
        fvAdvection1d 0 column threeCells 1 1 (1 / 2) none = some line ∧
        ∀ i : ℤ, 1 ≤ i → i ≤ 3 → w.elem i j = line.elem i := by
  have hpos : (0 : ℚ) < 1 / 2 := by with_unfolding_all decide
  obtain ⟨w, hw, hcolumns⟩ := (fvAdvection2d_agrees_iff 0 0 0 threeByOne threeByOne one_pos
    one_pos hpos none (by decide) (by decide) rfl rfl 1 1).1
  refine ⟨w, hw, fun j h1 hj => ?_⟩
  obtain ⟨column, line, hcolumn, hline, hiff⟩ := hcolumns j h1 hj threeCells rfl
  exact ⟨column, line, hcolumn, hline, hiff.2 (.inl (by decide))⟩

/-- With the Lax-Wendroff scheme, the field does not change in two dimensions. -/
theorem laxWendroff_missing_in_two_dimensions :
    (fvAdvection2d 0 0 threeByOne threeByOne 1 0 1 1 (1 / 2) (some fvLaxWendroff) >>=
      fun w => (w.column 1).map Array1.toList) = some [1, 2, 3] ∧
    (threeByOne.column 1 >>= fun column =>
      (fvAdvection1d 0 column threeCells 1 1 (1 / 2) (some fvLaxWendroff)).map Array1.toList) =
        some [2, 3 / 2, 5 / 2] := by
  with_unfolding_all decide

end DistributedComputing
