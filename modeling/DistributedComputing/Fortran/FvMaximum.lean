import Mathlib.Tactic.Positivity
import DistributedComputing.Fortran.FiniteVolume

/-!
# The discrete maximum principle

For the first-order schemes and for diffusion, no step creates a value outside the range of the
field. Each new value moves from the old one towards those of the neighbours, and the weights of
this move are what the stability test of the routine bounds (`PeriodicGrid.between_relaxed`): the
Courant number for advection, and twice the diffusion numbers for diffusion. Where the test fails,
the step is skipped.

For advection, both schemes have the same fluxes. The Lax-Friedrichs flux of a linear equation, with
`|velocity|` as its viscosity, is the upwind flux (`laxFriedrichsFlux_eq`).
-/

namespace DistributedComputing

open ArrayLoops PeriodicGrid

variable {K : Type} [Field K] [LinearOrder K]

/-- The scheme is `FV_UPWIND`, which is the default, or `FV_LAX_FRIEDRICHS`. -/
def FirstOrder (scheme : Option ℤ) : Prop :=
  scheme.getD fvUpwind = fvUpwind ∨ scheme.getD fvUpwind = fvLaxFriedrichs

/-- The number lies between the minimum and the maximum of the field. -/
def InRange1d (u : Array1 K) (x : K) : Prop := Between (Finset.Icc 1 (u.size : ℤ)) u.elem x

/-- The number lies between the minimum and the maximum of the field. -/
def InRange2d (u : Array2 K) (x : K) : Prop :=
  Between (Finset.Icc 1 (u.rows : ℤ) ×ˢ Finset.Icc 1 (u.cols : ℤ)) (fun p => u.elem p.1 p.2) x

variable [IsStrictOrderedRing K]

/-! ### First-order fluxes -/

theorem flux1d_firstOrder {scheme : Option ℤ} (h : FirstOrder scheme) (velocity : K) :
    flux1d (scheme.getD fvUpwind) velocity = upwindFlux velocity := by
  funext uLeft uRight
  rcases h with h | h
  · rw [flux1d, if_pos h]
  · rw [flux1d, h, if_neg (by decide), if_pos rfl, laxFriedrichsFlux_eq]

theorem flux2d_firstOrder {scheme : Option ℤ} (h : FirstOrder scheme) (velocity : K) :
    flux2d (scheme.getD fvUpwind) velocity = upwindFlux velocity := by
  funext uLeft uRight
  rcases h with h | h
  · rw [flux2d, if_pos h]
  · rw [flux2d, h, if_neg (by decide), if_pos rfl, laxFriedrichsFlux_eq]

/-! ### One cell -/

section Cells

variable {dx dy dt : K} {scheme : Option ℤ}

theorem between_advection1d (hdx : 0 < dx) (hdt : 0 < dt) (hscheme : FirstOrder scheme)
    (velocity : K) {n : ℤ} (u : ℤ → K) {i : ℤ} (h1 : 1 ≤ i) (hi : i ≤ n) :
    Between (Finset.Icc 1 n) u (advection1d (scheme.getD fvUpwind) velocity dx dt n u i) := by
  have hp : i ∈ Finset.Icc 1 n := Finset.mem_Icc.2 ⟨h1, hi⟩
  have hup : upwindCell velocity n i ∈ Finset.Icc 1 n :=
    Finset.mem_Icc.2 (upwindCell_mem velocity h1 hi)
  have hcourant : 0 ≤ |velocity| * dt / dx := by positivity
  rw [advection1d, flux1d_firstOrder hscheme, upwindFlux_sub, sub_neg_eq_add]
  split_ifs with hcfl
  · exact between_self hp
  · convert between_relaxed (f := u) ![|velocity| * dt / dx] ![upwindCell velocity n i] hp ?_ ?_ ?_
      using 1
    · simp
    · simpa using hup
    · simpa using hcourant
    · simpa using hcfl

theorem between_advection2d (hdx : 0 < dx) (hdy : 0 < dy) (hdt : 0 < dt)
    (hscheme : FirstOrder scheme) (vx vy : K) {nx ny : ℤ} (u : ℤ → ℤ → K) {i j : ℤ} (h1 : 1 ≤ i)
    (hi : i ≤ nx) (h1' : 1 ≤ j) (hj : j ≤ ny) :
    Between (Finset.Icc 1 nx ×ˢ Finset.Icc 1 ny) (fun p => u p.1 p.2)
      (advection2d (scheme.getD fvUpwind) vx vy dx dy dt nx ny u i j) := by
  have hp : (i, j) ∈ Finset.Icc 1 nx ×ˢ Finset.Icc 1 ny := by simp [h1, hi, h1', hj]
  have hx := upwindFlux_sub vx dx dt nx (fun i => u i j) i
  have hy := upwindFlux_sub vy dy dt ny (u i) j
  have hcourant : 0 ≤ |vx| * dt / dx ∧ 0 ≤ |vy| * dt / dy := ⟨by positivity, by positivity⟩
  rw [advection2d, flux2d_firstOrder hscheme, flux2d_firstOrder hscheme, hx, hy]
  split_ifs with hcfl
  · exact between_self hp
  · convert between_relaxed (f := fun p : ℤ × ℤ => u p.1 p.2) ![|vx| * dt / dx, |vy| * dt / dy]
      ![(upwindCell vx nx i, j), (i, upwindCell vy ny j)] hp ?_ ?_ ?_ using 1
    · simp [Fin.sum_univ_two]
      ring
    · simp [Fin.forall_fin_two, upwindCell_mem vx h1 hi, upwindCell_mem vy h1' hj, h1, hi, h1', hj]
    · simpa [Fin.forall_fin_two] using hcourant
    · simpa [Fin.sum_univ_two] using hcfl

theorem between_diffusion1d {alpha : K} (halpha : 0 ≤ alpha) {n : ℤ} (u : ℤ → K) {i : ℤ}
    (h1 : 1 ≤ i) (hi : i ≤ n) : Between (Finset.Icc 1 n) u (diffusion1d alpha n u i) := by
  have hp : i ∈ Finset.Icc 1 n := Finset.mem_Icc.2 ⟨h1, hi⟩
  rw [diffusion1d, secondDifference, decimal_five_one]
  split_ifs with hskip
  · exact between_self hp
  · convert between_relaxed (f := u) ![alpha, alpha] ![next n i, prev n i] hp ?_ ?_ ?_ using 1
    · simp [Fin.sum_univ_two]
      ring
    · simp [Fin.forall_fin_two, next_mem h1 hi, prev_mem h1 hi]
    · simp [Fin.forall_fin_two, halpha]
    · rw [Fin.sum_univ_two]
      show alpha + alpha ≤ 1
      linarith

theorem between_diffusion2d {alphaX alphaY : K} (hX : 0 ≤ alphaX) (hY : 0 ≤ alphaY) {nx ny : ℤ}
    (u : ℤ → ℤ → K) {i j : ℤ} (h1 : 1 ≤ i) (hi : i ≤ nx) (h1' : 1 ≤ j) (hj : j ≤ ny) :
    Between (Finset.Icc 1 nx ×ˢ Finset.Icc 1 ny) (fun p => u p.1 p.2)
      (diffusion2d alphaX alphaY nx ny u i j) := by
  have hp : (i, j) ∈ Finset.Icc 1 nx ×ˢ Finset.Icc 1 ny := by simp [h1, hi, h1', hj]
  rw [diffusion2d, secondDifference, secondDifference, decimal_five_one]
  split_ifs with hskip
  · exact between_self hp
  · convert between_relaxed (f := fun p : ℤ × ℤ => u p.1 p.2) ![alphaX, alphaX, alphaY, alphaY]
      ![(next nx i, j), (prev nx i, j), (i, next ny j), (i, prev ny j)] hp ?_ ?_ ?_ using 1
    · simp [Fin.sum_univ_four]
      ring
    · simp [Fin.forall_fin_succ, next_mem h1 hi, prev_mem h1 hi, next_mem h1' hj, prev_mem h1' hj,
        h1, hi, h1', hj]
    · simp [Fin.forall_fin_succ, hX, hY]
    · rw [Fin.sum_univ_four]
      show alphaX + alphaX + alphaY + alphaY ≤ 1
      linarith
  · exact between_self hp

end Cells

/-! ### The routines -/

omit [Field K] [IsStrictOrderedRing K] in
theorem inRange1d_of_tabulates {u w : Array1 K} {f : ℤ → K} (h : w.Tabulates u.size f)
    (hf : ∀ i : ℤ, 1 ≤ i → i ≤ u.size → InRange1d u (f i)) :
    w.size = u.size ∧ ∀ i, w.InRange i → InRange1d u (w.elem i) := by
  refine ⟨h.size_eq, fun i hi => ?_⟩
  obtain ⟨h1, hi⟩ := hi
  rw [h.size_eq] at hi
  rw [h.elem_eq i h1 hi]
  exact hf i h1 hi

omit [Field K] [IsStrictOrderedRing K] in
theorem inRange2d_of_tabulates {u w : Array2 K} {f : ℤ → ℤ → K} (h : w.Tabulates u.rows u.cols f)
    (hf : ∀ i j : ℤ, 1 ≤ i → i ≤ u.rows → 1 ≤ j → j ≤ u.cols → InRange2d u (f i j)) :
    (w.rows = u.rows ∧ w.cols = u.cols) ∧ ∀ i j, w.InRange i j → InRange2d u (w.elem i j) := by
  refine ⟨⟨h.rows_eq, h.cols_eq⟩, fun i j hij => ?_⟩
  obtain ⟨⟨h1, hi⟩, h1', hj⟩ := hij
  rw [h.rows_eq] at hi
  rw [h.cols_eq] at hj
  rw [h.elem_eq i j h1 hi h1' hj]
  exact hf i j h1 hi h1' hj

/-- **The discrete maximum principle.** With the first-order schemes and for diffusion, every new
value lies between the minimum and the maximum of the field. -/
theorem fv_maximum_principle {dx dy dt : K} (hdx : 0 < dx) (hdy : 0 < dy) (hdt : 0 < dt) :
    (∀ (contents : ℤ → K) (u uNew : Array1 K) (velocity : K) (scheme : Option ℤ),
      FirstOrder scheme → 1 ≤ u.size → uNew.size = u.size →
      Returns (fvAdvection1d contents u uNew velocity dx dt scheme) fun w =>
        w.size = u.size ∧ ∀ i, w.InRange i → InRange1d u (w.elem i)) ∧
    (∀ (contentsX contentsY : ℤ → ℤ → K) (u uNew : Array2 K) (vx vy : K) (scheme : Option ℤ),
      FirstOrder scheme → 1 ≤ u.rows → 1 ≤ u.cols → uNew.rows = u.rows → uNew.cols = u.cols →
      Returns (fvAdvection2d contentsX contentsY u uNew vx vy dx dy dt scheme) fun w =>
        (w.rows = u.rows ∧ w.cols = u.cols) ∧
          ∀ i j, w.InRange i j → InRange2d u (w.elem i j)) ∧
    (∀ (u uNew : Array1 K) (diffusivity : K), 0 ≤ diffusivity → 2 ≤ u.size →
      uNew.size = u.size →
      Returns (fvDiffusion1d u uNew diffusivity dx dt) fun w =>
        w.size = u.size ∧ ∀ i, w.InRange i → InRange1d u (w.elem i)) ∧
    ∀ (u uNew : Array2 K) (diffusivity : K), 0 ≤ diffusivity → 1 ≤ u.rows → 1 ≤ u.cols →
      uNew.rows = u.rows → uNew.cols = u.cols →
      Returns (fvDiffusion2d u uNew diffusivity dx dy dt) fun w =>
        (w.rows = u.rows ∧ w.cols = u.cols) ∧
          ∀ i j, w.InRange i j → InRange2d u (w.elem i j) := by
  refine ⟨?_, ?_, ?_, ?_⟩
  · intro contents u uNew velocity scheme hscheme hn hsize
    exact (fvAdvection1d_tabulates contents velocity dx dt scheme hn hsize).mono fun w hw =>
      inRange1d_of_tabulates hw fun i h1 hi =>
        between_advection1d hdx hdt hscheme velocity u.elem h1 hi
  · intro contentsX contentsY u uNew vx vy scheme hscheme hnx hny hrows hcols
    exact (fvAdvection2d_tabulates contentsX contentsY vx vy dx dy dt scheme hnx hny hrows
      hcols).mono fun w hw => inRange2d_of_tabulates hw fun i j h1 hi h1' hj =>
        between_advection2d hdx hdy hdt hscheme vx vy u.elem h1 hi h1' hj
  · intro u uNew diffusivity hdiff hn hsize
    have halpha : 0 ≤ diffusivity * dt / (dx * dx) := by positivity
    exact (fvDiffusion1d_tabulates diffusivity dx dt hn hsize).mono fun w hw =>
      inRange1d_of_tabulates hw fun i h1 hi => between_diffusion1d halpha u.elem h1 hi
  · intro u uNew diffusivity hdiff hnx hny hrows hcols
    have hX : 0 ≤ diffusivity * dt / (dx * dx) := by positivity
    have hY : 0 ≤ diffusivity * dt / (dy * dy) := by positivity
    exact (fvDiffusion2d_tabulates diffusivity dx dy dt hnx hny hrows hcols).mono fun w hw =>
      inRange2d_of_tabulates hw fun i j h1 hi h1' hj =>
        between_diffusion2d hX hY u.elem h1 hi h1' hj

/-- Two cells. -/
def twoCells : Array1 ℚ := ⟨2, fun i => i⟩

/-- On two cells, with the largest time steps that are not skipped. -/
theorem fv_maximum_principle_two_cells :
    Returns (fvAdvection1d 0 twoCells twoCells 1 1 1 none)
      (fun w => w.size = 2 ∧ ∀ i, w.InRange i → InRange1d twoCells (w.elem i)) ∧
    Returns (fvDiffusion1d twoCells twoCells (1 / 2) 1 1)
      (fun w => w.size = 2 ∧ ∀ i, w.InRange i → InRange1d twoCells (w.elem i)) := by
  have h := fv_maximum_principle (K := ℚ) one_pos one_pos one_pos
  exact ⟨h.1 0 twoCells twoCells 1 none (.inl rfl) (by decide) rfl,
    h.2.2.1 twoCells twoCells (1 / 2) (by with_unfolding_all decide) (by decide) rfl⟩

end DistributedComputing
