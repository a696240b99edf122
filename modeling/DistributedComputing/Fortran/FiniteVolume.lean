import DistributedComputing.Foundations.ArrayAssignments
import DistributedComputing.Foundations.PeriodicGrid
import DistributedComputing.Fortran.Constants

/-!
# Finite volumes

A model of `finite_volume.f90`, over a linearly ordered field. Arrays are checked: a result of the
form `Returns … P` says that no index is out of range. What an allocated array contains before it is
assigned is a parameter.

The fluxes are computed three times in the source, for the cells of an array of one dimension, and
along the columns and the rows of one of two. The loops for the upwind and the Lax-Friedrichs flux
are the same each time, up to the line that they follow (`upwindFluxes`, `laxFriedrichsFluxes`); the
case for Lax-Wendroff exists in one dimension only.

The second half says what each routine computes, as a function on the periodic grid. All that the
loops and the special cases at the ends do is that the neighbours of a cell are those of the grid
(`PeriodicGrid.next`, `PeriodicGrid.prev`), with one exception: `fv_diffusion_2d` copies the cells
at the edge.
-/

namespace DistributedComputing

open ArrayLoops PeriodicGrid

/-- `FV_UPWIND` -/
def fvUpwind : ℤ := 1

/-- `FV_LAX_FRIEDRICHS` -/
def fvLaxFriedrichs : ℤ := 2

/-- `FV_LAX_WENDROFF` -/
def fvLaxWendroff : ℤ := 3

variable {K : Type} [Field K] [LinearOrder K] {σ : Type}

/-! ### Fluxes -/

/-- The Lax-Friedrichs flux between two cells. -/
def laxFriedrichsFlux (velocity uLeft uRight : K) : K :=
  decimal 5 1 * velocity * (uLeft + uRight) - decimal 5 1 * |velocity| * (uRight - uLeft)

/-- The Lax-Wendroff flux between two cells. -/
def laxWendroffFlux (velocity uLeft uRight : K) : K :=
  velocity * (uLeft + uRight) / decimal 2 0 - velocity ^ 2 * (uRight - uLeft) / decimal 2 0

/-- The upwind fluxes along a line of `n` cells. -/
def upwindFluxes (n : ℤ) (velocity : K) (u : ℤ → Option K) (line : Line σ K) (flux : σ) :
    Option σ :=
  doLoop 1 (n + 1) (fun i flux =>
    if 0 ≤ velocity then
      if i = 1 then do line.set flux i (velocity * (← u n))
      else do line.set flux i (velocity * (← u (i - 1)))
    else
      if i = n + 1 then do line.set flux i (velocity * (← u 1))
      else do line.set flux i (velocity * (← u i))) flux

/-- The Lax-Friedrichs fluxes along a line of `n` cells. -/
def laxFriedrichsFluxes (n : ℤ) (velocity : K) (u : ℤ → Option K) (line : Line σ K) (flux : σ) :
    Option σ := do
  let flux ← doLoop 2 n (fun i flux => do
    let uLeft ← u (i - 1)
    let uRight ← u i
    line.set flux i (laxFriedrichsFlux velocity uLeft uRight)) flux
  let flux ← line.set flux 1 (laxFriedrichsFlux velocity (← u n) (← u 1))
  line.set flux (n + 1) (← line.get flux 1)

/-- `fv_compute_fluxes_1d` -/
def fvComputeFluxes1d (u flux : Array1 K) (velocity : K) (scheme : ℤ) : Option (Array1 K) :=
  let n : ℤ := u.size
  if scheme = fvUpwind then upwindFluxes n velocity u.get Array1.line flux
  else if scheme = fvLaxFriedrichs then laxFriedrichsFluxes n velocity u.get Array1.line flux
  else if scheme = fvLaxWendroff then do
    let flux ← doLoop 2 n (fun i flux => do
      flux.set i (laxWendroffFlux velocity (← u.get (i - 1)) (← u.get i))) flux
    let flux ← flux.set 1 (laxWendroffFlux velocity (← u.get n) (← u.get 1))
    flux.set (n + 1) (← flux.get 1)
  else some (flux.fill 0)

/-- The fluxes in one direction, of `fv_compute_fluxes_2d`: along `count` lines of `n` cells. There
is no case for `FV_LAX_WENDROFF`. -/
def fluxesAlong (scheme count n : ℤ) (velocity : K) (u : ℤ → ℤ → Option K)
    (line : ℤ → Line (Array2 K) K) (flux : Array2 K) : Option (Array2 K) :=
  if scheme = fvUpwind then
    doLoop 1 count (fun k flux => upwindFluxes n velocity (u k) (line k) flux) flux
  else if scheme = fvLaxFriedrichs then
    doLoop 1 count (fun k flux => laxFriedrichsFluxes n velocity (u k) (line k) flux) flux
  else some (flux.fill 0)

/-- The fluxes in the x direction, along the columns `u(:, j)`. -/
def fluxesX (u fluxX : Array2 K) (vx : K) (scheme : ℤ) : Option (Array2 K) :=
  fluxesAlong scheme u.cols u.rows vx (fun j i => u.get i j) Array2.columnLine fluxX

/-- The fluxes in the y direction, along the rows `u(i, :)`. -/
def fluxesY (u fluxY : Array2 K) (vy : K) (scheme : ℤ) : Option (Array2 K) :=
  fluxesAlong scheme u.rows u.cols vy (fun i j => u.get i j) Array2.rowLine fluxY

/-- `fv_compute_fluxes_2d` -/
def fvComputeFluxes2d (u fluxX fluxY : Array2 K) (vx vy : K) (scheme : ℤ) :
    Option (Array2 K × Array2 K) := do
  let fluxX ← fluxesX u fluxX vx scheme
  let fluxY ← fluxesY u fluxY vy scheme
  return (fluxX, fluxY)

/-! ### Time steps -/

/-- `fv_advection_1d`. The fluxes are allocated with the given contents. -/
def fvAdvection1d (contents : ℤ → K) (u uNew : Array1 K) (velocity dx dt : K)
    (scheme : Option ℤ) : Option (Array1 K) :=
  let n : ℤ := u.size
  let cfl := |velocity| * dt / dx
  if 1 < cfl then uNew.assign u
  else do
    let flux := Array1.allocate (n + 1) contents
    let flux ← fvComputeFluxes1d u flux velocity (scheme.getD fvUpwind)
    doLoop 1 n (fun i uNew => do
      uNew.set i ((← u.get i) - dt / dx * ((← flux.get (i + 1)) - (← flux.get i)))) uNew

/-- `fv_advection_2d`. The fluxes are allocated with the given contents. -/
def fvAdvection2d (contentsX contentsY : ℤ → ℤ → K) (u uNew : Array2 K) (vx vy dx dy dt : K)
    (scheme : Option ℤ) : Option (Array2 K) :=
  let nx : ℤ := u.rows
  let ny : ℤ := u.cols
  let cflX := |vx| * dt / dx
  let cflY := |vy| * dt / dy
  if 1 < cflX + cflY then uNew.assign u
  else do
    let fluxX := Array2.allocate (nx + 1) ny contentsX
    let fluxY := Array2.allocate nx (ny + 1) contentsY
    let flux ← fvComputeFluxes2d u fluxX fluxY vx vy (scheme.getD fvUpwind)
    doLoop 1 ny (fun j uNew =>
      doLoop 1 nx (fun i uNew => do
        uNew.set i j ((← u.get i j) - dt / dx * ((← flux.1.get (i + 1) j) - (← flux.1.get i j)) -
          dt / dy * ((← flux.2.get i (j + 1)) - (← flux.2.get i j)))) uNew) uNew

/-- `fv_diffusion_1d` -/
def fvDiffusion1d (u uNew : Array1 K) (diffusivity dx dt : K) : Option (Array1 K) :=
  let n : ℤ := u.size
  let alpha := diffusivity * dt / (dx * dx)
  if decimal 5 1 < alpha then uNew.assign u
  else do
    let uNew ← doLoop 2 (n - 1) (fun i uNew => do
      uNew.set i ((← u.get i) +
        alpha * ((← u.get (i + 1)) - decimal 2 0 * (← u.get i) + (← u.get (i - 1))))) uNew
    let uNew ← uNew.set 1 ((← u.get 1) +
      alpha * ((← u.get 2) - decimal 2 0 * (← u.get 1) + (← u.get n)))
    uNew.set n ((← u.get n) +
      alpha * ((← u.get 1) - decimal 2 0 * (← u.get n) + (← u.get (n - 1))))

/-- `fv_diffusion_2d` -/
def fvDiffusion2d (u uNew : Array2 K) (diffusivity dx dy dt : K) : Option (Array2 K) :=
  let nx : ℤ := u.rows
  let ny : ℤ := u.cols
  let alphaX := diffusivity * dt / (dx * dx)
  let alphaY := diffusivity * dt / (dy * dy)
  if decimal 5 1 < alphaX + alphaY then uNew.assign u
  else do
    let uNew ← doLoop 2 (ny - 1) (fun j uNew =>
      doLoop 2 (nx - 1) (fun i uNew => do
        uNew.set i j ((← u.get i j) +
          alphaX * ((← u.get (i + 1) j) - decimal 2 0 * (← u.get i j) + (← u.get (i - 1) j)) +
          alphaY * ((← u.get i (j + 1)) - decimal 2 0 * (← u.get i j) + (← u.get i (j - 1)))))
        uNew) uNew
    let uNew ← uNew.setRow 1 (← u.row 1)
    let uNew ← uNew.setRow nx (← u.row nx)
    let uNew ← uNew.setColumn 1 (← u.column 1)
    uNew.setColumn ny (← u.column ny)

/-- `fv_advection_diffusion_1d`. The arrays that it allocates have the given contents. -/
def fvAdvectionDiffusion1d (contentsFlux contentsAdv : ℤ → K) (u uNew : Array1 K)
    (velocity diffusivity dx dt : K) (scheme : Option ℤ) : Option (Array1 K) := do
  let uAdv := Array1.allocate u.size contentsAdv
  let uAdv ← fvAdvection1d contentsFlux u uAdv velocity dx dt scheme
  fvDiffusion1d uAdv uNew diffusivity dx dt

/-! ### What the fluxes are -/

/-- The upwind flux between two cells. -/
def upwindFlux (velocity uLeft uRight : K) : K :=
  if 0 ≤ velocity then velocity * uLeft else velocity * uRight

/-- The flux between two cells, for a scheme in one dimension. -/
def flux1d (scheme : ℤ) (velocity uLeft uRight : K) : K :=
  if scheme = fvUpwind then upwindFlux velocity uLeft uRight
  else if scheme = fvLaxFriedrichs then laxFriedrichsFlux velocity uLeft uRight
  else if scheme = fvLaxWendroff then laxWendroffFlux velocity uLeft uRight
  else 0

/-- The flux between two cells, for a scheme in two dimensions. -/
def flux2d (scheme : ℤ) (velocity uLeft uRight : K) : K :=
  if scheme = fvUpwind then upwindFlux velocity uLeft uRight
  else if scheme = fvLaxFriedrichs then laxFriedrichsFlux velocity uLeft uRight
  else 0

/-- The cell behind the interface `p`. There is one interface more than there are cells, and the
last is the first. -/
def behind (n p : ℤ) : ℤ := if p = n + 1 then 1 else p

theorem behind_of_le {n p : ℤ} (h : p ≤ n) : behind n p = p := if_neg (by omega)

theorem behind_add_one (n i : ℤ) : behind n (i + 1) = next n i := by
  rw [behind, next]
  simp only [add_left_inj]

section Lines

variable {τ ι : Type} {V : View σ τ ι K} {shape : τ} {line : Line σ K} {cell : ℤ → ι} {n : ℤ}
  {flux : σ} {u : ℤ → Option K} {w : ℤ → K} {velocity : K} {f : ι → K}

theorem upwindFluxes_fills (hline : line.Within V shape (n + 1) cell)
    (hshape : V.shape flux = shape) (hn : 1 ≤ n) (hu : ∀ i, 1 ≤ i → i ≤ n → u i = some (w i))
    (hf : ∀ p, 1 ≤ p → p ≤ n + 1 →
      f (cell p) = upwindFlux velocity (w (prev n p)) (w (behind n p))) :
    Returns (upwindFluxes n velocity u line flux) (V.Fills f (cell '' Set.Icc 1 (n + 1)) flux) := by
  refine hline.returns_doLoop hshape le_rfl le_rfl fun i flux' h1 hi => ?_
  rw [hf i h1 hi, upwindFlux, prev, behind]
  split_ifs
  · rw [hu n hn le_rfl]; rfl
  · rw [hu (i - 1) (by omega) (by omega)]; rfl
  · rw [hu 1 le_rfl hn]; rfl
  · rw [hu i h1 (by omega)]; rfl

/-- The loop, the first interface and the last one together. -/
theorem interfaces_eq (hn : 1 ≤ n) :
    cell '' Set.Icc 2 n ∪ ({cell 1} ∪ {cell (n + 1)}) = cell '' Set.Icc 1 (n + 1) := by
  rw [← Set.image_singleton (f := cell), ← Set.image_singleton (f := cell), ← Set.image_union,
    ← Set.image_union]
  congr 1
  ext p
  simp only [Set.mem_union, Set.mem_Icc, Set.mem_singleton_iff]
  omega

omit [Field K] [LinearOrder K] in
/-- A loop over the interfaces between the cells, and the flux through the ends as that through the
first interface. The Lax-Friedrichs and the Lax-Wendroff fluxes are computed in this way. -/
theorem ends_fill (hline : line.Within V shape (n + 1) cell) (hshape : V.shape flux = shape)
    (hn : 1 ≤ n) {g : K → K → K} {body : ℤ → σ → Option σ} {first : K}
    (hf : ∀ p, 1 ≤ p → p ≤ n + 1 → f (cell p) = g (w (prev n p)) (w (behind n p)))
    (hbody : ∀ i flux', 2 ≤ i → i ≤ n → body i flux' = line.set flux' i (g (w (i - 1)) (w i)))
    (hfirst : first = g (w n) (w 1)) :
    Returns (do
      let flux ← doLoop 2 n body flux
      let flux ← line.set flux 1 first
      line.set flux (n + 1) (← line.get flux 1)) (V.Fills f (cell '' Set.Icc 1 (n + 1)) flux) := by
  have hvalue : f (cell 1) = first := by
    rw [hf 1 le_rfl (by omega), prev_first, behind, if_neg (by omega), hfirst]
  have hlast : f (cell (n + 1)) = first := by
    rw [hf (n + 1) (by omega) le_rfl, prev_of_ne (by omega), behind, if_pos rfl,
      add_sub_cancel_right, hfirst]
  rw [← interfaces_eq hn]
  refine View.returns_bind (hline.returns_doLoop hshape (by decide) (by omega)
    fun i flux' h2 hi => ?_) fun flux₁ h₁ => ?_
  · rw [hbody i flux' h2 hi, hf i (by omega) (by omega), prev_of_ne (by omega), behind,
      if_neg (by omega)]
  have hshape₁ := h₁.shape_eq.trans hshape
  refine View.returns_bind ?_ fun flux₂ h₂ => ?_
  · rw [← hvalue]
    exact hline.returns_set flux₁ 1 f hshape₁ le_rfl (by omega)
  have hshape₂ := h₂.shape_eq.trans hshape₁
  have hget : line.get flux₂ 1 = some (f (cell (n + 1))) := by
    rw [hline.get_eq flux₂ 1 hshape₂ le_rfl (by omega), hlast, ← hvalue]
    exact congrArg some (h₂.on _ (hshape₁ ▸ hline.mem_places 1 le_rfl (by omega)) rfl)
  rw [hget]
  exact hline.returns_set flux₂ (n + 1) f hshape₂ (by omega) le_rfl

theorem laxFriedrichsFluxes_fills (hline : line.Within V shape (n + 1) cell)
    (hshape : V.shape flux = shape) (hn : 1 ≤ n) (hu : ∀ i, 1 ≤ i → i ≤ n → u i = some (w i))
    (hf : ∀ p, 1 ≤ p → p ≤ n + 1 →
      f (cell p) = laxFriedrichsFlux velocity (w (prev n p)) (w (behind n p))) :
    Returns (laxFriedrichsFluxes n velocity u line flux)
      (V.Fills f (cell '' Set.Icc 1 (n + 1)) flux) := by
  rw [laxFriedrichsFluxes, hu n hn le_rfl, hu 1 le_rfl hn]
  refine ends_fill hline hshape hn hf (fun i flux' h2 hi => ?_) rfl
  rw [hu (i - 1) (by omega) (by omega), hu i (by omega) hi]
  rfl

end Lines

section OneDimension

variable {u : Array1 K} {velocity dx dt : K} {scheme : ℤ}

/-- **What `fv_compute_fluxes_1d` computes**: the flux from the cell before an interface to that
behind it. -/
theorem fvComputeFluxes1d_tabulates {flux : Array1 K} (hn : 1 ≤ u.size)
    (hsize : flux.size = u.size + 1) :
    Returns (fvComputeFluxes1d u flux velocity scheme) fun flux' =>
      flux'.Tabulates (u.size + 1) fun p =>
        flux1d scheme velocity (u.elem (prev u.size p)) (u.elem (behind u.size p)) := by
  have hread : ∀ i : ℤ, 1 ≤ i → i ≤ u.size → u.get i = some (u.elem i) :=
    fun i h1 hi => Array1.get_of_le h1 hi
  have hline : Array1.line.Within Array1.view flux.size (u.size + 1) id :=
    Array1.line_within (α := K) (by omega)
  have hn' : 1 ≤ (u.size : ℤ) := by omega
  -- Each scheme assigns all interfaces.
  refine Returns.mono (P := Array1.view.Fills _ (id '' Set.Icc 1 ((u.size : ℤ) + 1)) flux) ?_
    fun flux' h => .of_fills h hsize fun i h1 hi => ⟨i, ⟨h1, by omega⟩, rfl⟩
  by_cases hup : scheme = fvUpwind
  · rw [fvComputeFluxes1d, if_pos hup]
    exact upwindFluxes_fills hline rfl hn' hread fun p _ _ => if_pos hup
  by_cases hlf : scheme = fvLaxFriedrichs
  · rw [fvComputeFluxes1d, if_neg hup, if_pos hlf]
    refine laxFriedrichsFluxes_fills hline rfl hn' hread fun p _ _ => ?_
    rw [flux1d, if_neg hup, if_pos hlf]
    rfl
  by_cases hlw : scheme = fvLaxWendroff
  · rw [fvComputeFluxes1d, if_neg hup, if_neg hlf, if_pos hlw, hread _ hn' le_rfl,
      hread 1 le_rfl hn']
    refine ends_fill (w := u.elem) hline rfl hn' (g := laxWendroffFlux velocity) ?_ ?_ rfl
    · intro p _ _
      rw [flux1d, if_neg hup, if_neg hlf, if_pos hlw]
      rfl
    · intro i flux' h2 hi
      rw [hread (i - 1) (by omega) (by omega), hread i (by omega) hi]
      rfl
  · rw [fvComputeFluxes1d, if_neg hup, if_neg hlf, if_neg hlw]
    refine returns_some ⟨rfl, fun p _ _ => ?_, fun p hp hne => ?_⟩
    · rw [flux1d, if_neg hup, if_neg hlf, if_neg hlw]
      rfl
    · have hle : p ≤ flux.size := hp.2
      exact absurd ⟨p, ⟨hp.1, by omega⟩, rfl⟩ hne

/-- A step of `fv_advection_1d`, at a cell. -/
def advection1d (scheme : ℤ) (velocity dx dt : K) (n : ℤ) (u : ℤ → K) (i : ℤ) : K :=
  if 1 < |velocity| * dt / dx then u i
  else u i - dt / dx * (flux1d scheme velocity (u i) (u (next n i)) -
    flux1d scheme velocity (u (prev n i)) (u i))

/-- **What `fv_advection_1d` computes.** -/
theorem fvAdvection1d_tabulates (contents : ℤ → K) {uNew : Array1 K} (velocity dx dt : K)
    (scheme : Option ℤ) (hn : 1 ≤ u.size) (hsize : uNew.size = u.size) :
    Returns (fvAdvection1d contents u uNew velocity dx dt scheme) fun w =>
      w.Tabulates u.size (advection1d (scheme.getD fvUpwind) velocity dx dt u.size u.elem) := by
  rw [fvAdvection1d]
  dsimp only
  by_cases hcfl : 1 < |velocity| * dt / dx
  · rw [if_pos hcfl]
    exact (Array1.returns_assign hsize.symm).mono fun w hw =>
      hw.congr fun i _ _ => (if_pos hcfl).symm
  · rw [if_neg hcfl]
    refine (fvComputeFluxes1d_tabulates hn rfl).bind fun flux hflux => ?_
    refine Array1.returns_doLoop_tabulates hsize fun i w h1 hi => ?_
    have hleft := hflux.elem_eq i h1 (by omega)
    have hright := hflux.elem_eq (i + 1) (by omega) (by omega)
    rw [behind_of_le hi] at hleft
    rw [behind_add_one, prev_of_ne (by omega), add_sub_cancel_right] at hright
    have hflux_size := hflux.size_eq
    rw [Array1.get_of_le h1 hi, Array1.get_of_le (by omega) (by omega),
      Array1.get_of_le h1 (by omega), hleft, hright, advection1d, if_neg hcfl]
    rfl

variable [IsStrictOrderedRing K]

theorem stencil_eq (n : ℤ) (u : ℤ → K) (i : ℤ) :
    u (next n i) - decimal 2 0 * u i + u (prev n i) = secondDifference n u i := by
  rw [decimal_two_zero, secondDifference]
  ring

/-- A step of `fv_diffusion_1d`, at a cell. -/
def diffusion1d (alpha : K) (n : ℤ) (u : ℤ → K) (i : ℤ) : K :=
  if decimal 5 1 < alpha then u i else u i + alpha * secondDifference n u i

/-- **What `fv_diffusion_1d` computes.** -/
theorem fvDiffusion1d_tabulates {uNew : Array1 K} (diffusivity dx dt : K) (hn : 2 ≤ u.size)
    (hsize : uNew.size = u.size) :
    Returns (fvDiffusion1d u uNew diffusivity dx dt) fun w =>
      w.Tabulates u.size (diffusion1d (diffusivity * dt / (dx * dx)) u.size u.elem) := by
  rw [fvDiffusion1d]
  set alpha := diffusivity * dt / (dx * dx)
  by_cases halpha : decimal 5 1 < alpha
  · rw [if_pos halpha]
    exact (Array1.returns_assign hsize.symm).mono fun w hw =>
      hw.congr fun i _ _ => (if_pos halpha).symm
  · rw [if_neg halpha]
    have hvalue : ∀ i, diffusion1d alpha u.size u.elem i = u.elem i +
        alpha * (u.elem (next u.size i) - decimal 2 0 * u.elem i + u.elem (prev u.size i)) :=
      fun i => by rw [diffusion1d, if_neg halpha, stencil_eq]
    simp (disch := omega) only [Array1.get_bind]
    refine Array1.returns_interior_ends (by omega) hsize (fun i w h2 hi => ?_) ?_ ?_
    · simp (disch := omega) only [Array1.get_bind]
      rw [hvalue, next_of_ne (by omega), prev_of_ne (by omega)]
    · rw [hvalue, next_of_ne (by omega), prev_first]
      rfl
    · rw [hvalue, next_last, prev_of_ne (by omega)]

end OneDimension

section TwoDimensions

variable {u : Array2 K} {scheme : ℤ} {velocity : K}

theorem fluxesAlong_tabulates {count n : ℤ} {v : ℤ → ℤ → Option K}
    {line : ℤ → Line (Array2 K) K} {flux : Array2 K} (w : ℤ → ℤ → K) (cell : ℤ → ℤ → ℤ × ℤ)
    (f : ℤ × ℤ → K)
    (hline : ∀ k, 1 ≤ k → k ≤ count →
      (line k).Within Array2.view (flux.rows, flux.cols) (n + 1) (cell k))
    (hcover : ∀ i j : ℤ, 1 ≤ i → i ≤ flux.rows → 1 ≤ j → j ≤ flux.cols →
      ∃ k ∈ Set.Icc 1 count, ∃ p ∈ Set.Icc 1 (n + 1), cell k p = (i, j))
    (hn : 1 ≤ n) (hv : ∀ k i, 1 ≤ k → k ≤ count → 1 ≤ i → i ≤ n → v k i = some (w k i))
    (hf : ∀ k p, f (cell k p) = flux2d scheme velocity (w k (prev n p)) (w k (behind n p))) :
    Returns (fluxesAlong scheme count n velocity v line flux) fun flux' =>
      flux'.Tabulates flux.rows flux.cols fun i j => f (i, j) := by
  have hall : ∀ i j : ℤ, 1 ≤ i → i ≤ flux.rows → 1 ≤ j → j ≤ flux.cols →
      (i, j) ∈ ⋃ k ∈ Set.Icc 1 count, cell k '' Set.Icc 1 (n + 1) := by
    intro i j h1 hi h1' hj
    obtain ⟨k, hk, p, hp, hcell⟩ := hcover i j h1 hi h1' hj
    exact Set.mem_biUnion hk ⟨p, hp, hcell⟩
  refine Returns.mono (P := Array2.view.Fills f _ flux) ?_ fun flux' h => .of_fills h rfl rfl hall
  rw [fluxesAlong]
  by_cases hup : scheme = fvUpwind
  · rw [if_pos hup]
    refine View.returns_doLoop fun k flux' h1 hk hs => ?_
    exact upwindFluxes_fills (hline k h1 hk) hs hn (hv k · h1 hk) fun p _ _ =>
      (hf k p).trans (if_pos hup)
  by_cases hlf : scheme = fvLaxFriedrichs
  · rw [if_neg hup, if_pos hlf]
    refine View.returns_doLoop fun k flux' h1 hk hs => ?_
    refine laxFriedrichsFluxes_fills (hline k h1 hk) hs hn (hv k · h1 hk) fun p _ _ => ?_
    rw [hf, flux2d, if_neg hup, if_pos hlf]
  · rw [if_neg hup, if_neg hlf]
    refine returns_some ⟨rfl, fun p _ hcell => ?_, fun p hp hne => ?_⟩
    · obtain ⟨k, -, i, -, rfl⟩ := Set.mem_iUnion₂.1 hcell
      rw [hf, flux2d, if_neg hup, if_neg hlf]
      rfl
    · exact absurd (hall p.1 p.2 hp.1.1 hp.1.2 hp.2.1 hp.2.2) hne

theorem fluxesX_tabulates {fluxX : Array2 K} (hnx : 1 ≤ u.rows) (hrows : fluxX.rows = u.rows + 1)
    (hcols : fluxX.cols = u.cols) :
    Returns (fluxesX u fluxX velocity scheme) fun flux =>
      flux.Tabulates (u.rows + 1) u.cols fun p j =>
        flux2d scheme velocity (u.elem (prev u.rows p) j) (u.elem (behind u.rows p) j) := by
  rw [← hrows, ← hcols]
  exact fluxesAlong_tabulates (fun j i => u.elem i j) (fun j i => (i, j))
    (fun p => flux2d scheme velocity (u.elem (prev u.rows p.1) p.2)
      (u.elem (behind u.rows p.1) p.2))
    (fun k h1 hk => Array2.columnLine_within h1 (by omega) (by omega))
    (fun i j h1 hi h1' hj => ⟨j, ⟨h1', by omega⟩, i, ⟨h1, by omega⟩, rfl⟩) (by omega)
    (fun k i h1 hk h1' hi => Array2.get_of_le h1' hi h1 hk) fun k p => rfl

theorem fluxesY_tabulates {fluxY : Array2 K} (hny : 1 ≤ u.cols) (hrows : fluxY.rows = u.rows)
    (hcols : fluxY.cols = u.cols + 1) :
    Returns (fluxesY u fluxY velocity scheme) fun flux =>
      flux.Tabulates u.rows (u.cols + 1) fun i p =>
        flux2d scheme velocity (u.elem i (prev u.cols p)) (u.elem i (behind u.cols p)) := by
  rw [← hrows, ← hcols]
  exact fluxesAlong_tabulates (fun i j => u.elem i j) (fun i j => (i, j))
    (fun p => flux2d scheme velocity (u.elem p.1 (prev u.cols p.2))
      (u.elem p.1 (behind u.cols p.2)))
    (fun k h1 hk => Array2.rowLine_within h1 (by omega) (by omega))
    (fun i j h1 hi h1' hj => ⟨i, ⟨h1, by omega⟩, j, ⟨h1', by omega⟩, rfl⟩) (by omega)
    (fun k i h1 hk h1' hi => Array2.get_of_le h1 hk h1' hi) fun k p => rfl

/-- **What `fv_compute_fluxes_2d` computes.** -/
theorem fvComputeFluxes2d_tabulates {fluxX fluxY : Array2 K} {vx vy : K} (hnx : 1 ≤ u.rows)
    (hny : 1 ≤ u.cols) (hrowsX : fluxX.rows = u.rows + 1) (hcolsX : fluxX.cols = u.cols)
    (hrowsY : fluxY.rows = u.rows) (hcolsY : fluxY.cols = u.cols + 1) :
    Returns (fvComputeFluxes2d u fluxX fluxY vx vy scheme) fun flux =>
      (flux.1.Tabulates (u.rows + 1) u.cols fun p j =>
        flux2d scheme vx (u.elem (prev u.rows p) j) (u.elem (behind u.rows p) j)) ∧
      flux.2.Tabulates u.rows (u.cols + 1) fun i p =>
        flux2d scheme vy (u.elem i (prev u.cols p)) (u.elem i (behind u.cols p)) := by
  refine (fluxesX_tabulates hnx hrowsX hcolsX).bind fun fluxX' hX => ?_
  exact (fluxesY_tabulates hny hrowsY hcolsY).bind fun fluxY' hY => returns_some ⟨hX, hY⟩

/-- A step of `fv_advection_2d`, at a cell. -/
def advection2d (scheme : ℤ) (vx vy dx dy dt : K) (nx ny : ℤ) (u : ℤ → ℤ → K) (i j : ℤ) : K :=
  if 1 < |vx| * dt / dx + |vy| * dt / dy then u i j
  else u i j -
    dt / dx * (flux2d scheme vx (u i j) (u (next nx i) j) -
      flux2d scheme vx (u (prev nx i) j) (u i j)) -
    dt / dy * (flux2d scheme vy (u i j) (u i (next ny j)) -
      flux2d scheme vy (u i (prev ny j)) (u i j))

/-- **What `fv_advection_2d` computes.** -/
theorem fvAdvection2d_tabulates (contentsX contentsY : ℤ → ℤ → K) {uNew : Array2 K}
    (vx vy dx dy dt : K) (scheme : Option ℤ) (hnx : 1 ≤ u.rows) (hny : 1 ≤ u.cols)
    (hrows : uNew.rows = u.rows) (hcols : uNew.cols = u.cols) :
    Returns (fvAdvection2d contentsX contentsY u uNew vx vy dx dy dt scheme) fun w =>
      w.Tabulates u.rows u.cols
        (advection2d (scheme.getD fvUpwind) vx vy dx dy dt u.rows u.cols u.elem) := by
  rw [fvAdvection2d]
  dsimp only
  by_cases hcfl : 1 < |vx| * dt / dx + |vy| * dt / dy
  · rw [if_pos hcfl]
    exact (Array2.returns_assign hrows.symm hcols.symm).mono fun w hw =>
      hw.congr fun i j _ _ _ _ => (if_pos hcfl).symm
  · rw [if_neg hcfl]
    refine Returns.bind (fvComputeFluxes2d_tabulates hnx hny rfl rfl rfl rfl) fun flux hflux => ?_
    obtain ⟨hX, hY⟩ := hflux
    refine Array2.returns_doLoop_tabulates hrows hcols fun j i w h1' hj h1 hi => ?_
    have hleft := hX.elem_eq i j h1 (by omega) h1' hj
    have hright := hX.elem_eq (i + 1) j (by omega) (by omega) h1' hj
    have hdown := hY.elem_eq i j h1 hi h1' (by omega)
    have hup := hY.elem_eq i (j + 1) h1 hi (by omega) (by omega)
    rw [behind_of_le hi] at hleft
    rw [behind_of_le hj] at hdown
    rw [behind_add_one, prev_of_ne (by omega), add_sub_cancel_right] at hright hup
    have hsizes := And.intro (And.intro hX.rows_eq hX.cols_eq) (And.intro hY.rows_eq hY.cols_eq)
    simp (disch := omega) only [Array2.get_bind]
    rw [hleft, hright, hdown, hup, advection2d, if_neg hcfl]

/-- The cells that `fv_diffusion_2d` computes. -/
def Interior (nx ny i j : ℤ) : Prop := (2 ≤ i ∧ i ≤ nx - 1) ∧ 2 ≤ j ∧ j ≤ ny - 1

instance (nx ny i j : ℤ) : Decidable (Interior nx ny i j) := inferInstanceAs (Decidable (_ ∧ _))

/-- A step of `fv_diffusion_2d`, at a cell. -/
def diffusion2d (alphaX alphaY : K) (nx ny : ℤ) (u : ℤ → ℤ → K) (i j : ℤ) : K :=
  if decimal 5 1 < alphaX + alphaY then u i j
  else if Interior nx ny i j then
    u i j + alphaX * secondDifference nx (fun i => u i j) i + alphaY * secondDifference ny (u i) j
  else u i j

theorem diffusion2d_of_not_interior {alphaX alphaY : K} {nx ny i j : ℤ} (f : ℤ → ℤ → K)
    (hij : ¬ Interior nx ny i j) : diffusion2d alphaX alphaY nx ny f i j = f i j := by
  rw [diffusion2d, if_neg hij, ite_self]

section Edges

variable {w : Array2 K} (alphaX alphaY : K)
  (hshape : Array2.view.shape w = Array2.view.shape u)

include hshape

/-- The first and the last row are copied, which is what is computed there. -/
theorem setRow_edge {i : ℤ} (h1 : 1 ≤ i) (hi : i ≤ u.rows) (hend : i = 1 ∨ i = u.rows) :
    Returns (w.setRow i ⟨u.cols, u.elem i⟩) (Array2.view.Fills (fun p =>
      diffusion2d alphaX alphaY u.rows u.cols u.elem p.1 p.2) {p | p.1 = i} w) := by
  obtain ⟨hrows, hcols⟩ := Prod.ext_iff.1 hshape
  have hrows : w.rows = u.rows := hrows
  refine Array2.returns_setRow_fills h1 (hrows ▸ hi) ⟨hcols.symm, fun j _ _ => ?_⟩
  exact (diffusion2d_of_not_interior u.elem fun hij => by have := hij.1; omega).symm

theorem setColumn_edge {j : ℤ} (h1 : 1 ≤ j) (hj : j ≤ u.cols) (hend : j = 1 ∨ j = u.cols) :
    Returns (w.setColumn j ⟨u.rows, fun i => u.elem i j⟩) (Array2.view.Fills (fun p =>
      diffusion2d alphaX alphaY u.rows u.cols u.elem p.1 p.2) {p | p.2 = j} w) := by
  obtain ⟨hrows, hcols⟩ := Prod.ext_iff.1 hshape
  have hcols : w.cols = u.cols := hcols
  refine Array2.returns_setColumn_fills h1 (hcols ▸ hj) ⟨hrows.symm, fun i _ _ => ?_⟩
  exact (diffusion2d_of_not_interior u.elem fun hij => by have := hij.2; omega).symm

end Edges

theorem mem_interior_or_edge {m n : ℕ} {i j : ℤ} (h1 : 1 ≤ i) (hi : i ≤ m) (h1' : 1 ≤ j)
    (hj : j ≤ n) :
    (i, j) ∈ (⋃ j ∈ Set.Icc 2 ((n : ℤ) - 1), (fun i => (i, j)) '' Set.Icc 2 ((m : ℤ) - 1)) ∪
      ({p | p.1 = 1} ∪ ({p | p.1 = (m : ℤ)} ∪ ({p | p.2 = 1} ∪ {p | p.2 = (n : ℤ)}))) := by
  simp only [Set.mem_union, Set.mem_iUnion, Set.mem_image, Set.mem_Icc, Set.mem_ofPred_eq,
    Prod.mk.injEq, exists_prop]
  by_cases hij : Interior m n i j
  · exact .inl ⟨j, hij.2, i, hij.1, rfl, rfl⟩
  · rw [Interior] at hij
    omega

variable [IsStrictOrderedRing K]

theorem diffusion2d_of_interior {alphaX alphaY : K} (halpha : ¬ decimal 5 1 < alphaX + alphaY)
    {nx ny i j : ℤ} (f : ℤ → ℤ → K) (hij : Interior nx ny i j) :
    diffusion2d alphaX alphaY nx ny f i j = f i j +
      alphaX * (f (i + 1) j - decimal 2 0 * f i j + f (i - 1) j) +
      alphaY * (f i (j + 1) - decimal 2 0 * f i j + f i (j - 1)) := by
  have hX := stencil_eq nx (fun i => f i j) i
  have hY := stencil_eq ny (f i) j
  obtain ⟨hi, hj⟩ := id hij
  rw [next_of_ne (by omega), prev_of_ne (by omega)] at hX hY
  rw [diffusion2d, if_neg halpha, if_pos hij, ← hX, ← hY]

/-- **What `fv_diffusion_2d` computes.** -/
theorem fvDiffusion2d_tabulates {uNew : Array2 K} (diffusivity dx dy dt : K) (hnx : 1 ≤ u.rows)
    (hny : 1 ≤ u.cols) (hrows : uNew.rows = u.rows) (hcols : uNew.cols = u.cols) :
    Returns (fvDiffusion2d u uNew diffusivity dx dy dt) fun w =>
      w.Tabulates u.rows u.cols (diffusion2d (diffusivity * dt / (dx * dx))
        (diffusivity * dt / (dy * dy)) u.rows u.cols u.elem) := by
  rw [fvDiffusion2d]
  set alphaX := diffusivity * dt / (dx * dx)
  set alphaY := diffusivity * dt / (dy * dy)
  by_cases halpha : decimal 5 1 < alphaX + alphaY
  · rw [if_pos halpha]
    exact (Array2.returns_assign hrows.symm hcols.symm).mono fun w hw =>
      hw.congr fun i j _ _ _ _ => (if_pos halpha).symm
  · rw [if_neg halpha]
    have hnx' : 1 ≤ (u.rows : ℤ) := by omega
    have hny' : 1 ≤ (u.cols : ℤ) := by omega
    rw [Array2.row_eq le_rfl hnx', Array2.row_eq hnx' le_rfl, Array2.column_eq le_rfl hny',
      Array2.column_eq hny' le_rfl]
    simp only [Option.bind_eq_bind, Option.bind_some]
    have hshape : Array2.view.shape uNew = Array2.view.shape u := Prod.ext hrows hcols
    refine Returns.mono (P := Array2.view.Fills
      (fun p => diffusion2d alphaX alphaY u.rows u.cols u.elem p.1 p.2)
      ((⋃ j ∈ Set.Icc 2 ((u.cols : ℤ) - 1), (fun i => (i, j)) '' Set.Icc 2 ((u.rows : ℤ) - 1)) ∪
        ({p | p.1 = 1} ∪ ({p | p.1 = u.rows} ∪ ({p | p.2 = 1} ∪ {p | p.2 = u.cols})))) uNew) ?_
      fun w h => .of_fills h hrows hcols fun i j h1 hi h1' hj => mem_interior_or_edge h1 hi h1' hj
    refine View.returns_bind (View.returns_doLoop fun j w h2 hj hs => ?_) fun w₁ h₁ => ?_
    · have hline : (Array2.columnLine j).Within Array2.view (u.rows, u.cols) u.rows
          fun i => (i, j) := Array2.columnLine_within (α := K) (by omega) (by omega) le_rfl
      refine hline.returns_doLoop (hs.trans hshape) (by decide) (by omega) fun i w' h2' hi => ?_
      simp (disch := omega) only [Array2.get_of_le, Option.bind_some]
      rw [diffusion2d_of_interior halpha u.elem ⟨⟨h2', hi⟩, h2, hj⟩]
      rfl
    have hshape₁ := h₁.shape_eq.trans hshape
    refine View.returns_bind (setRow_edge alphaX alphaY hshape₁ le_rfl (by omega) (.inl rfl))
      fun w₂ h₂ => ?_
    have hshape₂ := h₂.shape_eq.trans hshape₁
    refine View.returns_bind (setRow_edge alphaX alphaY hshape₂ (by omega) le_rfl (.inr rfl))
      fun w₃ h₃ => ?_
    have hshape₃ := h₃.shape_eq.trans hshape₂
    refine View.returns_bind (setColumn_edge alphaX alphaY hshape₃ le_rfl (by omega) (.inl rfl))
      fun w₄ h₄ => ?_
    exact setColumn_edge alphaX alphaY (h₄.shape_eq.trans hshape₃) (by omega) le_rfl (.inr rfl)

end TwoDimensions

/-! ### First-order fluxes -/

section FirstOrder

variable [IsStrictOrderedRing K]

theorem laxFriedrichsFlux_eq (velocity uLeft uRight : K) :
    laxFriedrichsFlux velocity uLeft uRight = upwindFlux velocity uLeft uRight := by
  rw [laxFriedrichsFlux, upwindFlux, decimal_five_one]
  split_ifs with hv
  · rw [abs_of_nonneg hv]
    ring
  · rw [abs_of_neg (not_le.1 hv)]
    ring

/-- The cell that the flow comes from. -/
def upwindCell (velocity : K) (n i : ℤ) : ℤ := if 0 ≤ velocity then prev n i else next n i

/-- What upwind fluxes change is a move towards the cell that the flow comes from, by the Courant
number. -/
theorem upwindFlux_sub (velocity h dt : K) (n : ℤ) (u : ℤ → K) (i : ℤ) :
    dt / h * (upwindFlux velocity (u i) (u (next n i)) - upwindFlux velocity (u (prev n i)) (u i)) =
      -(|velocity| * dt / h * (u (upwindCell velocity n i) - u i)) := by
  rw [upwindFlux, upwindFlux, upwindCell]
  split_ifs with hv
  · rw [abs_of_nonneg hv]
    ring
  · rw [abs_of_neg (not_le.1 hv)]
    ring

omit [IsStrictOrderedRing K] in
theorem upwindCell_mem (velocity : K) {n i : ℤ} (h1 : 1 ≤ i) (hi : i ≤ n) :
    1 ≤ upwindCell velocity n i ∧ upwindCell velocity n i ≤ n := by
  rw [upwindCell]
  split_ifs
  · exact prev_mem h1 hi
  · exact next_mem h1 hi

end FirstOrder

/-- A field of three cells. -/
def threeCells : Array1 ℚ := ⟨3, fun i => i⟩

end DistributedComputing
