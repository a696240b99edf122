import DistributedComputing.Fortran.FiniteVolume

/-!
# Conservation of mass

Advection in one and two dimensions and diffusion in one keep the sum over all cells, for every
scheme and also where the step is skipped: what a routine adds to a cell is a difference of fluxes,
and these cancel in the sum (`PeriodicGrid.sum_flux`).

`fv_diffusion_2d` does not keep it. It computes the cells in the interior and copies those at the
edge, so that the interior exchanges mass with cells that do not take part. What it gains is stated
in `sum_diffusion2d`.
-/

namespace DistributedComputing

open ArrayLoops PeriodicGrid

variable {K : Type} [Field K]

/-- The sum over all cells. -/
def mass1d (u : Array1 K) : K := ∑ i ∈ Finset.range u.size, u.elem (i + 1)

/-- The sum over all cells. -/
def mass2d (u : Array2 K) : K :=
  ∑ i ∈ Finset.range u.rows, ∑ j ∈ Finset.range u.cols, u.elem (i + 1) (j + 1)

theorem mass1d_eq (u : Array1 K) : mass1d u = ∑ i ∈ Finset.Icc 1 (u.size : ℤ), u.elem i :=
  sum_range_cells u.size u.elem

theorem mass2d_eq (u : Array2 K) : mass2d u =
    ∑ i ∈ Finset.Icc 1 (u.rows : ℤ), ∑ j ∈ Finset.Icc 1 (u.cols : ℤ), u.elem i j := by
  simp only [← sum_range_cells]
  rfl

theorem mass1d_of_tabulates {w : Array1 K} {n : ℕ} {f : ℤ → K} (h : w.Tabulates n f) :
    mass1d w = ∑ i ∈ Finset.Icc 1 (n : ℤ), f i := by
  rw [mass1d_eq, h.size_eq]
  exact Finset.sum_congr rfl fun i hi =>
    h.elem_eq i (Finset.mem_Icc.1 hi).1 (Finset.mem_Icc.1 hi).2

theorem mass2d_of_tabulates {w : Array2 K} {m n : ℕ} {f : ℤ → ℤ → K} (h : w.Tabulates m n f) :
    mass2d w = ∑ i ∈ Finset.Icc 1 (m : ℤ), ∑ j ∈ Finset.Icc 1 (n : ℤ), f i j := by
  rw [mass2d_eq, h.rows_eq, h.cols_eq]
  refine Finset.sum_congr rfl fun i hi => Finset.sum_congr rfl fun j hj => ?_
  exact h.elem_eq i j (Finset.mem_Icc.1 hi).1 (Finset.mem_Icc.1 hi).2 (Finset.mem_Icc.1 hj).1
    (Finset.mem_Icc.1 hj).2

variable [LinearOrder K]

/-! ### Sums over the grid -/

theorem sum_advection1d (scheme : ℤ) (velocity dx dt : K) (n : ℤ) (u : ℤ → K) :
    ∑ i ∈ Finset.Icc 1 n, advection1d scheme velocity dx dt n u i = ∑ i ∈ Finset.Icc 1 n, u i := by
  simp only [advection1d]
  split_ifs
  · rfl
  · rw [Finset.sum_sub_distrib, ← Finset.mul_sum, sum_flux, mul_zero, sub_zero]

theorem sum_advection2d (scheme : ℤ) (vx vy dx dy dt : K) (nx ny : ℤ) (u : ℤ → ℤ → K) :
    ∑ i ∈ Finset.Icc 1 nx, ∑ j ∈ Finset.Icc 1 ny,
        advection2d scheme vx vy dx dy dt nx ny u i j =
      ∑ i ∈ Finset.Icc 1 nx, ∑ j ∈ Finset.Icc 1 ny, u i j := by
  simp only [advection2d]
  split_ifs
  · rfl
  · have hx : ∑ i ∈ Finset.Icc 1 nx, ∑ j ∈ Finset.Icc 1 ny,
        dt / dx * (flux2d scheme vx (u i j) (u (next nx i) j) -
          flux2d scheme vx (u (prev nx i) j) (u i j)) = 0 := by
      rw [Finset.sum_comm]
      refine Finset.sum_eq_zero fun j _ => ?_
      rw [← Finset.mul_sum, sum_flux nx (flux2d scheme vx) fun i => u i j, mul_zero]
    have hy : ∑ i ∈ Finset.Icc 1 nx, ∑ j ∈ Finset.Icc 1 ny,
        dt / dy * (flux2d scheme vy (u i j) (u i (next ny j)) -
          flux2d scheme vy (u i (prev ny j)) (u i j)) = 0 := by
      refine Finset.sum_eq_zero fun i _ => ?_
      rw [← Finset.mul_sum, sum_flux, mul_zero]
    simp only [Finset.sum_sub_distrib, hx, hy, sub_zero]

theorem sum_diffusion1d (alpha : K) (n : ℤ) (u : ℤ → K) :
    ∑ i ∈ Finset.Icc 1 n, diffusion1d alpha n u i = ∑ i ∈ Finset.Icc 1 n, u i := by
  simp only [diffusion1d]
  split_ifs
  · rfl
  · rw [Finset.sum_add_distrib, ← Finset.mul_sum, sum_secondDifference, mul_zero, add_zero]

omit [LinearOrder K] in
/-- A sum of what is zero outside the interior. -/
theorem sum_interior {nx ny : ℤ} {g : ℤ → ℤ → K}
    (hg : ∀ i j, ¬ Interior nx ny i j → g i j = 0) :
    ∑ i ∈ Finset.Icc 1 nx, ∑ j ∈ Finset.Icc 1 ny, g i j =
      ∑ i ∈ Finset.Icc 2 (nx - 1), ∑ j ∈ Finset.Icc 2 (ny - 1), g i j := by
  have hinner : ∀ n : ℤ, Finset.Icc 2 (n - 1) ⊆ Finset.Icc 1 n :=
    fun n => Finset.Icc_subset_Icc (by decide) (by omega)
  rw [← Finset.sum_subset (hinner nx)]
  · refine Finset.sum_congr rfl fun i _ => (Finset.sum_subset (hinner ny) fun j _ hj => ?_).symm
    exact hg i j fun hij => hj (Finset.mem_Icc.2 hij.2)
  · intro i _ hi
    exact Finset.sum_eq_zero fun j _ => hg i j fun hij => hi (Finset.mem_Icc.2 hij.1)

/-- **What `fv_diffusion_2d` gains.** -/
theorem sum_diffusion2d {alphaX alphaY : K} (hstable : ¬ decimal 5 1 < alphaX + alphaY) {nx ny : ℤ}
    (hnx : 2 ≤ nx) (hny : 2 ≤ ny) (u : ℤ → ℤ → K) :
    ∑ i ∈ Finset.Icc 1 nx, ∑ j ∈ Finset.Icc 1 ny, diffusion2d alphaX alphaY nx ny u i j =
      ∑ i ∈ Finset.Icc 1 nx, ∑ j ∈ Finset.Icc 1 ny, u i j +
        (alphaX * ∑ j ∈ Finset.Icc 2 (ny - 1), fromEnds nx (fun i => u i j) +
          alphaY * ∑ i ∈ Finset.Icc 2 (nx - 1), fromEnds ny (u i)) := by
  have hcell : ∀ i j, diffusion2d alphaX alphaY nx ny u i j = u i j +
      if Interior nx ny i j then alphaX * secondDifference nx (fun i => u i j) i +
        alphaY * secondDifference ny (u i) j else 0 := by
    intro i j
    rw [diffusion2d, if_neg hstable]
    split_ifs
    · rw [add_assoc]
    · rw [add_zero]
  simp only [hcell, Finset.sum_add_distrib]
  rw [sum_interior fun i j hij => if_neg hij]
  have hif : ∀ i ∈ Finset.Icc 2 (nx - 1), ∀ j ∈ Finset.Icc 2 (ny - 1), Interior nx ny i j :=
    fun i hi j hj => ⟨Finset.mem_Icc.1 hi, Finset.mem_Icc.1 hj⟩
  congr 1
  rw [Finset.sum_congr rfl fun i hi => Finset.sum_congr rfl fun j hj => if_pos (hif i hi j hj)]
  simp only [Finset.sum_add_distrib, ← Finset.mul_sum, sum_secondDifference_inner hny]
  rw [Finset.sum_comm]
  simp only [sum_secondDifference_inner hnx]

/-! ### The routines that conserve mass -/

theorem fvAdvection1d_mass (contents : ℤ → K) {u uNew : Array1 K} (velocity dx dt : K)
    (scheme : Option ℤ) (hn : 1 ≤ u.size) (hsize : uNew.size = u.size) :
    Returns (fvAdvection1d contents u uNew velocity dx dt scheme) fun w =>
      w.size = u.size ∧ mass1d w = mass1d u :=
  (fvAdvection1d_tabulates contents velocity dx dt scheme hn hsize).mono fun w hw =>
    ⟨hw.size_eq, by rw [mass1d_of_tabulates hw, sum_advection1d, mass1d_eq]⟩

variable [IsStrictOrderedRing K]

theorem fvDiffusion1d_mass {u uNew : Array1 K} (diffusivity dx dt : K) (hn : 2 ≤ u.size)
    (hsize : uNew.size = u.size) :
    Returns (fvDiffusion1d u uNew diffusivity dx dt) fun w => mass1d w = mass1d u :=
  (fvDiffusion1d_tabulates diffusivity dx dt hn hsize).mono fun w hw => by
    rw [mass1d_of_tabulates hw, sum_diffusion1d, mass1d_eq]

/-- **Advection and one-dimensional diffusion conserve mass**, for every scheme code, and also where
the stability test fails. -/
theorem fv_conserves_mass (velocity vx vy diffusivity dx dy dt : K) (scheme : Option ℤ)
    (contents contentsAdv : ℤ → K) (contentsX contentsY : ℤ → ℤ → K) :
    (∀ u uNew : Array1 K, 1 ≤ u.size → uNew.size = u.size →
      Returns (fvAdvection1d contents u uNew velocity dx dt scheme) fun w =>
        mass1d w = mass1d u) ∧
    (∀ u uNew : Array2 K, 1 ≤ u.rows → 1 ≤ u.cols → uNew.rows = u.rows → uNew.cols = u.cols →
      Returns (fvAdvection2d contentsX contentsY u uNew vx vy dx dy dt scheme) fun w =>
        mass2d w = mass2d u) ∧
    (∀ u uNew : Array1 K, 2 ≤ u.size → uNew.size = u.size →
      Returns (fvDiffusion1d u uNew diffusivity dx dt) fun w => mass1d w = mass1d u) ∧
    ∀ u uNew : Array1 K, 2 ≤ u.size → uNew.size = u.size →
      Returns (fvAdvectionDiffusion1d contents contentsAdv u uNew velocity diffusivity dx dt scheme)
        fun w => mass1d w = mass1d u := by
  refine ⟨fun u uNew hn hsize => ?_, fun u uNew hnx hny hrows hcols => ?_,
    fun u uNew hn hsize => fvDiffusion1d_mass diffusivity dx dt hn hsize,
    fun u uNew hn hsize => ?_⟩
  · exact (fvAdvection1d_mass contents velocity dx dt scheme hn hsize).mono fun w hw => hw.2
  · refine (fvAdvection2d_tabulates contentsX contentsY vx vy dx dy dt scheme hnx hny hrows
      hcols).mono fun w hw => ?_
    rw [mass2d_of_tabulates hw, sum_advection2d, mass2d_eq]
  · refine Returns.bind (fvAdvection1d_mass contents velocity dx dt scheme (by omega) rfl)
      fun uAdv hAdv => ?_
    rw [← hAdv.2]
    exact fvDiffusion1d_mass diffusivity dx dt (hAdv.1 ▸ hn) (hsize.trans hAdv.1.symm)

/-- Three times three cells, with 1 at one place of the edge. -/
def edgeField : Array2 ℚ := ⟨3, 3, fun i j => if i = 1 ∧ j = 2 then 1 else 0⟩

/-- With the Lax-Wendroff scheme, which is the one without a case in two dimensions. -/
theorem fv_conserves_mass_cells :
    Returns (fvAdvection1d 0 threeCells threeCells 1 1 (1 / 4) (some 3)) (mass1d · = 6) ∧
    Returns (fvAdvection2d 0 0 edgeField edgeField 1 1 1 1 (1 / 4) (some 3)) (mass2d · = 1) ∧
    Returns (fvDiffusion1d threeCells threeCells 1 1 (1 / 4)) (mass1d · = 6) ∧
    Returns (fvAdvectionDiffusion1d 0 0 threeCells threeCells 1 1 1 (1 / 4) (some 3))
      (mass1d · = 6) := by
  have hthree : mass1d threeCells = 6 := by with_unfolding_all decide
  have hedge : mass2d edgeField = 1 := by with_unfolding_all decide
  have h := fv_conserves_mass (1 : ℚ) 1 1 1 1 1 (1 / 4) (some 3) 0 0 0 0
  refine ⟨(h.1 threeCells threeCells (by decide) rfl).mono fun w hw => hw.trans hthree,
    (h.2.1 edgeField edgeField (by decide) (by decide) rfl rfl).mono fun w hw => hw.trans hedge,
    (h.2.2.1 threeCells threeCells (by decide) rfl).mono fun w hw => hw.trans hthree,
    (h.2.2.2 threeCells threeCells (by decide) rfl).mono fun w hw => hw.trans hthree⟩

/-! ### Diffusion in two dimensions -/

/-- A field with 1 at the place (1, 2) of the edge. -/
def unitAtEdge (nx ny : ℕ) : Array2 K := ⟨nx, ny, fun i j => if i = 1 ∧ j = 2 then 1 else 0⟩

omit [LinearOrder K] [IsStrictOrderedRing K] in
/-- All that the interior gets comes from the one place, in the x direction. -/
theorem fromEnds_unitAtEdge (nx ny : ℕ) (hnx : 3 ≤ nx) (hny : 3 ≤ ny) :
    ∑ j ∈ Finset.Icc 2 ((ny : ℤ) - 1), fromEnds nx (fun i => (unitAtEdge nx ny : Array2 K).elem i j)
      = 1 ∧
    ∑ i ∈ Finset.Icc 2 ((nx : ℤ) - 1), fromEnds ny ((unitAtEdge nx ny : Array2 K).elem i) = 0 := by
  have hat : ∀ i j : ℤ, (unitAtEdge nx ny : Array2 K).elem i j = if i = 1 ∧ j = 2 then 1 else 0 :=
    fun _ _ => rfl
  have hoff : ∀ i j : ℤ, i ≠ 1 → (unitAtEdge nx ny : Array2 K).elem i j = 0 :=
    fun i j hi => if_neg fun h => hi h.1
  constructor
  · have hline : ∀ j, fromEnds nx (fun i => (unitAtEdge nx ny : Array2 K).elem i j) =
        if j = 2 then 1 else 0 := by
      intro j
      rw [fromEnds, hoff 2 j (by decide), hoff nx j (by omega), hoff (nx - 1) j (by omega), hat]
      simp
    rw [Finset.sum_congr rfl fun j _ => hline j, Finset.sum_ite_eq',
      if_pos (Finset.mem_Icc.2 ⟨le_rfl, by omega⟩)]
  · refine Finset.sum_eq_zero fun i hi => ?_
    have hi := (Finset.mem_Icc.1 hi).1
    have hzero : ∀ j, (unitAtEdge nx ny : Array2 K).elem i j = 0 := fun j => hoff i j (by omega)
    rw [fromEnds, hzero, hzero, hzero, hzero, sub_self, add_zero]

/-- **When `fv_diffusion_2d` conserves mass.** For a single field, the mass is the same exactly if
the step is skipped or what the interior gets from the edge cancels; for all fields of a size, if
there is no interior, no diffusion, or no step. -/
theorem fvDiffusion2d_conserves_iff (nx ny : ℕ) (hnx : 2 ≤ nx) (hny : 2 ≤ ny)
    {diffusivity dx dy dt : K} (hdx : 0 < dx) (hdt : 0 < dt) :
    (∀ u uNew : Array2 K, u.rows = nx → u.cols = ny → uNew.rows = nx → uNew.cols = ny →
      Returns (fvDiffusion2d u uNew diffusivity dx dy dt) fun w => mass2d w = mass2d u ↔
        decimal 5 1 < diffusivity * dt / (dx * dx) + diffusivity * dt / (dy * dy) ∨
        diffusivity * dt / (dx * dx) *
            ∑ j ∈ Finset.Icc 2 ((ny : ℤ) - 1), fromEnds nx (fun i => u.elem i j) +
          diffusivity * dt / (dy * dy) *
            ∑ i ∈ Finset.Icc 2 ((nx : ℤ) - 1), fromEnds ny (u.elem i) = 0) ∧
    ((∀ u uNew : Array2 K, u.rows = nx → u.cols = ny → uNew.rows = nx → uNew.cols = ny →
      Returns (fvDiffusion2d u uNew diffusivity dx dy dt) fun w => mass2d w = mass2d u) ↔
      nx = 2 ∨ ny = 2 ∨ diffusivity = 0 ∨
        decimal 5 1 < diffusivity * dt / (dx * dx) + diffusivity * dt / (dy * dy)) := by
  -- What holds of all fields follows from what holds of each.
  refine (fun hiff => ⟨hiff, fun h => ?_, fun h => ?_⟩) ?_
  · rintro u uNew rfl rfl hrows hcols
    refine (fvDiffusion2d_tabulates diffusivity dx dy dt (by omega) (by omega) hrows hcols).mono
      fun w hw => ?_
    rw [mass2d_of_tabulates hw, mass2d_eq]
    by_cases hskip : decimal 5 1 < diffusivity * dt / (dx * dx) + diffusivity * dt / (dy * dy)
    · simp only [diffusion2d, hskip, if_true, true_or]
    · rw [sum_diffusion2d hskip (by omega) (by omega)]
      simp only [hskip, false_or]
      exact add_eq_left
  · by_contra hne
    simp only [not_or] at hne
    obtain ⟨hnx', hny', hdiff, hskip⟩ := hne
    obtain ⟨w, hw, hmass⟩ := hiff (unitAtEdge nx ny) (unitAtEdge nx ny) rfl rfl rfl rfl
    obtain ⟨hx, hy⟩ := fromEnds_unitAtEdge (K := K) nx ny (by omega) (by omega)
    have hgain := (hmass.1 ((h _ _ rfl rfl rfl rfl).elim hw)).resolve_left hskip
    rw [hx, hy, mul_one, mul_zero, add_zero] at hgain
    have hpos : dt / (dx * dx) ≠ 0 := (div_pos hdt (mul_pos hdx hdx)).ne'
    rw [mul_div_assoc, mul_eq_zero_iff_right hpos] at hgain
    exact hdiff hgain
  · intro u uNew hnx' hny' hrows hcols
    refine (hiff u uNew hnx' hny' hrows hcols).mono fun w hw => hw.2 ?_
    have hempty : Finset.Icc 2 (((2 : ℕ) : ℤ) - 1) = ∅ := rfl
    have hends : ∀ (s : Finset ℤ) (g : ℤ → ℤ → K), ∑ k ∈ s, fromEnds (2 : ℕ) (g k) = 0 :=
      fun s g => Finset.sum_eq_zero fun k _ => fromEnds_two (g k)
    rcases h with rfl | rfl | rfl | h
    · right
      rw [hends _ fun j i => u.elem i j, hempty, Finset.sum_empty, mul_zero, mul_zero, add_zero]
    · right
      rw [hends _ u.elem, hempty, Finset.sum_empty, mul_zero, mul_zero, add_zero]
    · right
      rw [zero_mul, zero_div, zero_div, zero_mul, zero_mul, add_zero]
    · exact .inl h

/-- As much comes from one edge as goes to the other. -/
def opposedEdges : Array2 ℚ :=
  ⟨4, 3, fun i j => if j ≠ 2 then 0 else if i = 1 then 1 else if i = 4 then -1 else 0⟩

/-- The cells inside change, but not their sum. -/
theorem fvDiffusion2d_conserves_iff_opposed :
    (fvDiffusion2d opposedEdges opposedEdges 1 1 1 (1 / 4)).map (·.elem 2 2) = some (1 / 4) ∧
      Returns (fvDiffusion2d opposedEdges opposedEdges 1 1 1 (1 / 4)) fun w =>
        mass2d w = mass2d opposedEdges := by
  have hquarter : (0 : ℚ) < 1 / 4 := by norm_num
  refine ⟨by with_unfolding_all decide, ?_⟩
  refine ((fvDiffusion2d_conserves_iff 4 3 (by decide) (by decide) one_pos hquarter).1
    opposedEdges opposedEdges rfl rfl rfl rfl).mono fun w hw => hw.2 (.inr ?_)
  with_unfolding_all decide

/-- The cell in the middle gets a quarter of what is at the edge, and the edge keeps it too. -/
theorem fvDiffusion2d_gains_mass : mass2d edgeField = 1 ∧
    (fvDiffusion2d edgeField edgeField 1 1 1 (1 / 4)).map mass2d = some (5 / 4) := by
  with_unfolding_all decide

end DistributedComputing
