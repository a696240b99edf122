import DistributedComputing.Fortran.FiniteDifference

/-!
# Finite differences on a grid

A model of `fd_derivative_2d`, `fd_laplacian_2d`, `fd_gradient_2d` and `fd_curl_2d`. The derivatives
are taken slice by slice with the routine for a line; what the slice of the result contains before
each call is a parameter. The Laplacian is written out in nine cases: the interior, four edges and
four corners.

On a grid of at least two points in each direction, all of them are differences of the periodic
grid. The Laplacian is then the sum of the two second derivatives (`fdLaplacian2d_eq_sum`), and
since differences along the two axes commute, the curl of a gradient vanishes
(`fdCurl2d_gradient_eq_zero`).
-/

namespace DistributedComputing

open ArrayLoops PeriodicGrid

variable {K : Type} [Field K]

/-- `fd_derivative_2d`. Before the slice `k` is computed, `du_slice` contains `contents k`. -/
def fdDerivative2d (contents : ℤ → ℤ → K) (u du : Array2 K) (dx dy : K) (direction order : ℤ)
    (accuracy : Option ℤ) : Option (Array2 K) :=
  let nx : ℤ := u.rows
  let ny : ℤ := u.cols
  let acc := accuracy.getD 2
  if direction = 1 then
    let h := dx
    doLoop 1 ny (fun j du => do
      let uSlice ← u.column j
      let duSlice := Array1.allocate nx (contents j)
      let duSlice ← fdDerivative1d uSlice duSlice h order (some acc) (some bcPeriodic)
      du.setColumn j duSlice) du
  else
    let h := dy
    doLoop 1 nx (fun i du => do
      let uSlice ← u.row i
      let duSlice := Array1.allocate ny (contents i)
      let duSlice ← fdDerivative1d uSlice duSlice h order (some acc) (some bcPeriodic)
      du.setRow i duSlice) du

/-- `fd_gradient_2d` -/
def fdGradient2d (contentsX contentsY : ℤ → ℤ → K) (u gradX gradY : Array2 K) (dx dy : K) :
    Option (Array2 K × Array2 K) := do
  let gradX ← fdDerivative2d contentsX u gradX dx dy 1 1 (some 2)
  let gradY ← fdDerivative2d contentsY u gradY dx dy 2 1 (some 2)
  return (gradX, gradY)

/-- `fd_curl_2d`. Besides the slices, the arrays that it allocates have the given contents. -/
def fdCurl2d (contentsX contentsY allocatedX allocatedY : ℤ → ℤ → K) (fx fy curl : Array2 K)
    (dx dy : K) : Option (Array2 K) := do
  let nx : ℤ := fx.rows
  let ny : ℤ := fx.cols
  let dfyDx := Array2.allocate nx ny allocatedX
  let dfxDy := Array2.allocate nx ny allocatedY
  let dfyDx ← fdDerivative2d contentsX fy dfyDx dx dy 1 1 (some 2)
  let dfxDy ← fdDerivative2d contentsY fx dfxDy dx dy 2 1 (some 2)
  curl.assign (← dfyDx.zipWith (· - ·) dfxDy)

/-- An assignment of `fd_laplacian_2d`: the five-point stencil, with the given neighbours. -/
def setStencil (u : Array2 K) (invDx2 invDy2 : K) (i j left right down up : ℤ)
    (laplacian : Array2 K) : Option (Array2 K) := do
  laplacian.set i j
    (((← u.get left j) - decimal 2 0 * (← u.get i j) + (← u.get right j)) * invDx2 +
     ((← u.get i down) - decimal 2 0 * (← u.get i j) + (← u.get i up)) * invDy2)

/-- The interior, in `fd_laplacian_2d`. -/
def laplacianInterior (u : Array2 K) (invDx2 invDy2 : K) (laplacian : Array2 K) :
    Option (Array2 K) :=
  doLoop 2 (u.cols - 1) (fun j laplacian =>
    doLoop 2 (u.rows - 1) (fun i =>
      setStencil u invDx2 invDy2 i j (i - 1) (i + 1) (j - 1) (j + 1)) laplacian) laplacian

/-- The edges, in `fd_laplacian_2d`: bottom and top, left and right. -/
def laplacianEdges (u : Array2 K) (invDx2 invDy2 : K) (laplacian : Array2 K) :
    Option (Array2 K) := do
  let nx : ℤ := u.rows
  let ny : ℤ := u.cols
  let laplacian ← doLoop 2 (nx - 1) (fun i =>
    setStencil u invDx2 invDy2 i 1 (i - 1) (i + 1) ny 2) laplacian
  let laplacian ← doLoop 2 (nx - 1) (fun i =>
    setStencil u invDx2 invDy2 i ny (i - 1) (i + 1) (ny - 1) 1) laplacian
  let laplacian ← doLoop 2 (ny - 1) (fun j =>
    setStencil u invDx2 invDy2 1 j nx 2 (j - 1) (j + 1)) laplacian
  doLoop 2 (ny - 1) (fun j =>
    setStencil u invDx2 invDy2 nx j (nx - 1) 1 (j - 1) (j + 1)) laplacian

/-- The corners, in `fd_laplacian_2d`. -/
def laplacianCorners (u : Array2 K) (invDx2 invDy2 : K) (laplacian : Array2 K) :
    Option (Array2 K) := do
  let nx : ℤ := u.rows
  let ny : ℤ := u.cols
  let laplacian ← setStencil u invDx2 invDy2 1 1 nx 2 ny 2 laplacian
  let laplacian ← setStencil u invDx2 invDy2 nx 1 (nx - 1) 1 ny 2 laplacian
  let laplacian ← setStencil u invDx2 invDy2 1 ny nx 2 (ny - 1) 1 laplacian
  setStencil u invDx2 invDy2 nx ny (nx - 1) 1 (ny - 1) 1 laplacian

/-- `fd_laplacian_2d` -/
def fdLaplacian2d (u laplacian : Array2 K) (dx dy : K) : Option (Array2 K) := do
  let invDx2 := 1 / (dx * dx)
  let invDy2 := 1 / (dy * dy)
  let laplacian ← laplacianInterior u invDx2 invDy2 laplacian
  let laplacian ← laplacianEdges u invDx2 invDy2 laplacian
  laplacianCorners u invDx2 invDy2 laplacian

/-! ### Derivatives -/

section Derivatives

variable {u du : Array2 K}

/-- **Derivatives in the x direction** are those along the columns, whatever a derivative along a
line is. -/
theorem fdDerivative2d_x (order : ℤ) (accuracy : Option ℤ) (D : (ℤ → K) → ℤ → K)
    (contents : ℤ → ℤ → K) (dx dy : K) (hrows : du.rows = u.rows) (hcols : du.cols = u.cols)
    (hD : ∀ v dv : Array1 K, v.size = u.rows → dv.size = u.rows →
      Returns (fdDerivative1d v dv dx order (some (accuracy.getD 2)) (some bcPeriodic)) fun dv' =>
        dv'.Tabulates u.rows (D v.elem)) :
    Returns (fdDerivative2d contents u du dx dy 1 order accuracy) fun du' =>
      du'.Tabulates u.rows u.cols fun i j => D (fun i => u.elem i j) i := by
  rw [fdDerivative2d, if_pos rfl]
  refine Array2.returns_doLoop_columns hrows hcols fun j a h1 hj harows hacols => ?_
  refine ⟨_, hD ⟨u.rows, fun i => u.elem i j⟩ (.allocate u.rows (contents j)) rfl rfl, ?_⟩
  simp only [Array2.column_eq h1 hj, Option.bind_eq_bind, Option.bind_some]

theorem fdDerivative2d_y (order : ℤ) (accuracy : Option ℤ) (D : (ℤ → K) → ℤ → K)
    (contents : ℤ → ℤ → K) (dx dy : K) (hrows : du.rows = u.rows) (hcols : du.cols = u.cols)
    (hD : ∀ v dv : Array1 K, v.size = u.cols → dv.size = u.cols →
      Returns (fdDerivative1d v dv dy order (some (accuracy.getD 2)) (some bcPeriodic)) fun dv' =>
        dv'.Tabulates u.cols (D v.elem)) :
    Returns (fdDerivative2d contents u du dx dy 2 order accuracy) fun du' =>
      du'.Tabulates u.rows u.cols fun i j => D (u.elem i) j := by
  rw [fdDerivative2d, if_neg (by decide)]
  refine Array2.returns_doLoop_rows hrows hcols fun i a h1 hi harows hacols => ?_
  refine ⟨_, hD ⟨u.cols, u.elem i⟩ (.allocate u.cols (contents i)) rfl rfl, ?_⟩
  simp only [Array2.row_eq h1 hi, Option.bind_eq_bind, Option.bind_some]

/-- The first derivative along a line. -/
def firstDerivative (n : ℤ) (h : K) (f : ℤ → K) (i : ℤ) : K :=
  decimal 5 1 * centralDifference n f i * (1 / h)

/-- The second derivative along a line. -/
def secondDerivative (n : ℤ) (h : K) (f : ℤ → K) (i : ℤ) : K :=
  secondDifference n f i * (1 / (h * h))

theorem fdDerivative1d_first {n : ℕ} (hn : 2 ≤ n) (h : K) (v dv : Array1 K) (hv : v.size = n)
    (hdv : dv.size = n) :
    Returns (fdDerivative1d v dv h 1 (some 2) (some bcPeriodic)) fun dv' =>
      dv'.Tabulates n (firstDerivative n h v.elem) := by
  subst hv
  exact fdFirstDerivativeO2_periodic hn hdv (1 / h)

theorem fdDerivative1d_second {n : ℕ} (hn : 2 ≤ n) (h : K) (v dv : Array1 K) (hv : v.size = n)
    (hdv : dv.size = n) :
    Returns (fdDerivative1d v dv h 2 (some 2) (some bcPeriodic)) fun dv' =>
      dv'.Tabulates n (secondDerivative n h v.elem) := by
  subst hv
  exact fdSecondDerivativeO2_periodic hn hdv (1 / (h * h))

/-- A derivative only reads the points of the line. -/
theorem firstDerivative_congr {n : ℤ} {f g : ℤ → K} (hfg : ∀ i, 1 ≤ i → i ≤ n → f i = g i) (h : K)
    {i : ℤ} (h1 : 1 ≤ i) (hi : i ≤ n) : firstDerivative n h f i = firstDerivative n h g i := by
  have hnext := next_mem h1 hi
  have hprev := prev_mem h1 hi
  rw [firstDerivative, firstDerivative, centralDifference, centralDifference,
    hfg _ hnext.1 hnext.2, hfg _ hprev.1 hprev.2]

theorem firstDerivative_comm (f : ℤ → ℤ → K) (m n : ℤ) (dx dy : K) (i j : ℤ) :
    firstDerivative m dx (fun i => firstDerivative n dy (f i) j) i =
      firstDerivative n dy (fun j => firstDerivative m dx (fun i => f i j) i) j := by
  simp only [firstDerivative, centralDifference]
  ring

section First

variable {m n : ℕ} {f : ℤ → ℤ → K} (hu : u.Tabulates m n f) (hrows : du.rows = m)
  (hcols : du.cols = n)

include hu hrows hcols

theorem fdDerivative2d_first_x (hm : 2 ≤ m) (contents : ℤ → ℤ → K) (dx dy : K) :
    Returns (fdDerivative2d contents u du dx dy 1 1 (some 2)) fun du' =>
      du'.Tabulates m n fun i j => firstDerivative m dx (fun i => f i j) i := by
  obtain ⟨rfl, rfl, helem⟩ := hu
  refine Returns.mono (fdDerivative2d_x 1 (some 2) (firstDerivative u.rows dx) contents dx dy
    hrows hcols (fdDerivative1d_first hm dx)) fun du' h => h.congr fun i j h1 hi h1' hj => ?_
  exact firstDerivative_congr (fun k hk hk' => helem k j hk hk' h1' hj) dx h1 hi

theorem fdDerivative2d_first_y (hn : 2 ≤ n) (contents : ℤ → ℤ → K) (dx dy : K) :
    Returns (fdDerivative2d contents u du dx dy 2 1 (some 2)) fun du' =>
      du'.Tabulates m n fun i j => firstDerivative n dy (f i) j := by
  obtain ⟨rfl, rfl, helem⟩ := hu
  refine Returns.mono (fdDerivative2d_y 1 (some 2) (firstDerivative u.cols dy) contents dx dy
    hrows hcols (fdDerivative1d_first hn dy)) fun du' h => h.congr fun i j h1 hi h1' hj => ?_
  exact firstDerivative_congr (fun k hk hk' => helem i k h1 hi hk hk') dy h1' hj

end First

theorem fdCurl2d_tabulates {m n : ℕ} (hm : 2 ≤ m) (hn : 2 ≤ n) {fx fy curl : Array2 K}
    {f g : ℤ → ℤ → K} (hfx : fx.Tabulates m n f) (hfy : fy.Tabulates m n g)
    (hrows : curl.rows = m) (hcols : curl.cols = n)
    (contentsX contentsY allocatedX allocatedY : ℤ → ℤ → K) (dx dy : K) :
    Returns (fdCurl2d contentsX contentsY allocatedX allocatedY fx fy curl dx dy) fun c =>
      c.Tabulates m n fun i j =>
        firstDerivative m dx (fun i => g i j) i - firstDerivative n dy (f i) j := by
  have hallocate : ∀ contents, (Array2.allocate fx.rows fx.cols contents : Array2 K).rows = m ∧
      (Array2.allocate fx.rows fx.cols contents : Array2 K).cols = n :=
    fun _ => ⟨hfx.rows_eq, hfx.cols_eq⟩
  refine Returns.bind (fdDerivative2d_first_x hfy (hallocate _).1 (hallocate _).2 hm contentsX dx
    dy) fun dfyDx hdfyDx => ?_
  refine Returns.bind (fdDerivative2d_first_y hfx (hallocate _).1 (hallocate _).2 hn contentsY dx
    dy) fun dfxDy hdfxDy => ?_
  refine Returns.bind (Array2.returns_zipWith hdfyDx hdfxDy) fun d hd => ?_
  refine Returns.mono (Array2.returns_assign (hd.rows_eq.trans hrows.symm)
    (hd.cols_eq.trans hcols.symm)) fun c hc => ?_
  rw [hd.rows_eq, hd.cols_eq] at hc
  exact hc.congr fun i j h1 hi h1' hj => hd.elem_eq i j h1 hi h1' hj

end Derivatives

/-! ### The Laplacian -/

section Laplacian

variable {u laplacian : Array2 K} {dx dy : K}

/-- The Laplacian on the periodic grid. -/
def gridLaplacian (u : Array2 K) (dx dy : K) (p : ℤ × ℤ) : K :=
  secondDerivative u.rows dx (fun i => u.elem i p.2) p.1 +
    secondDerivative u.cols dy (u.elem p.1) p.2

/-- The stencil, with the neighbours of a point on the periodic grid. -/
theorem setStencil_fills {i j left right down up : ℤ} {a : Array2 K}
    (hshape : Array2.view.shape a = (u.rows, u.cols)) (hi : 1 ≤ i ∧ i ≤ u.rows)
    (hj : 1 ≤ j ∧ j ≤ u.cols) (hleft : prev u.rows i = left) (hright : next u.rows i = right)
    (hdown : prev u.cols j = down) (hup : next u.cols j = up) :
    Returns (setStencil u (1 / (dx * dx)) (1 / (dy * dy)) i j left right down up a)
      (Array2.view.Fills (gridLaplacian u dx dy) {(i, j)} a) := by
  subst hleft hright hdown hup
  obtain ⟨hrows, hcols⟩ := Prod.ext_iff.1 hshape
  have hrows : a.rows = u.rows := hrows
  have hcols : a.cols = u.cols := hcols
  have hprev := prev_mem hi.1 hi.2
  have hnext := next_mem hi.1 hi.2
  have hprev' := prev_mem hj.1 hj.2
  have hnext' := next_mem hj.1 hj.2
  rw [setStencil]
  simp (disch := omega) only [Array2.get_bind]
  refine Array2.returns_set_fills (by omega) (by omega) (by omega) (by omega) ?_
  rw [gridLaplacian, secondDerivative, secondDerivative, ← stencil_eq_secondDifference,
    ← stencil_eq_secondDifference]

/-- The inner points of a line in the x direction. -/
def horizontal (u : Array2 K) (j : ℤ) : Set (ℤ × ℤ) := ⋃ i ∈ Set.Icc 2 ((u.rows : ℤ) - 1), {(i, j)}

/-- The inner points of a line in the y direction. -/
def vertical (u : Array2 K) (i : ℤ) : Set (ℤ × ℤ) := ⋃ j ∈ Set.Icc 2 ((u.cols : ℤ) - 1), {(i, j)}

omit [Field K] in
theorem mem_horizontal {i j k : ℤ} :
    (i, k) ∈ horizontal u j ↔ (2 ≤ i ∧ i ≤ (u.rows : ℤ) - 1) ∧ k = j := by
  simp [horizontal]

omit [Field K] in
theorem mem_vertical {i j k : ℤ} :
    (k, j) ∈ vertical u i ↔ (2 ≤ j ∧ j ≤ (u.cols : ℤ) - 1) ∧ k = i := by
  simp [vertical, and_comm]

theorem horizontal_fills {j down up : ℤ} {a : Array2 K}
    (hshape : Array2.view.shape a = (u.rows, u.cols)) (hj : 1 ≤ j ∧ j ≤ u.cols)
    (hdown : prev u.cols j = down) (hup : next u.cols j = up) :
    Returns (doLoop 2 (u.rows - 1) (fun i =>
        setStencil u (1 / (dx * dx)) (1 / (dy * dy)) i j (i - 1) (i + 1) down up) a)
      (Array2.view.Fills (gridLaplacian u dx dy) (horizontal u j) a) :=
  View.returns_doLoop fun i a' h2 hi hs => setStencil_fills (hs.trans hshape)
    ⟨by omega, by omega⟩ hj (prev_of_ne (by omega)) (next_of_ne (by omega)) hdown hup

theorem vertical_fills {i left right : ℤ} {a : Array2 K}
    (hshape : Array2.view.shape a = (u.rows, u.cols)) (hi : 1 ≤ i ∧ i ≤ u.rows)
    (hleft : prev u.rows i = left) (hright : next u.rows i = right) :
    Returns (doLoop 2 (u.cols - 1) (fun j =>
        setStencil u (1 / (dx * dx)) (1 / (dy * dy)) i j left right (j - 1) (j + 1)) a)
      (Array2.view.Fills (gridLaplacian u dx dy) (vertical u i) a) :=
  View.returns_doLoop fun j a' h2 hj hs => setStencil_fills (hs.trans hshape) hi
    ⟨by omega, by omega⟩ hleft hright (prev_of_ne (by omega)) (next_of_ne (by omega))

section Parts

variable {a : Array2 K} (hnx : 2 ≤ u.rows) (hny : 2 ≤ u.cols)
  (hshape : Array2.view.shape a = (u.rows, u.cols))

include hshape

theorem laplacianInterior_fills (dx dy : K) :
    Returns (laplacianInterior u (1 / (dx * dx)) (1 / (dy * dy)) a)
      (Array2.view.Fills (gridLaplacian u dx dy)
        (⋃ j ∈ Set.Icc 2 ((u.cols : ℤ) - 1), horizontal u j) a) :=
  View.returns_doLoop fun j a' h2 hj hs => horizontal_fills (hs.trans hshape) ⟨by omega, by omega⟩
    (prev_of_ne (by omega)) (next_of_ne (by omega))

include hnx hny

theorem laplacianEdges_fills (dx dy : K) :
    Returns (laplacianEdges u (1 / (dx * dx)) (1 / (dy * dy)) a)
      (Array2.view.Fills (gridLaplacian u dx dy) (horizontal u 1 ∪ (horizontal u u.cols ∪
        (vertical u 1 ∪ vertical u u.rows))) a) := by
  refine View.returns_bind (horizontal_fills hshape ⟨le_rfl, by omega⟩ (prev_first _)
    (next_of_ne (by omega))) fun a₁ h₁ => ?_
  have hshape₁ := h₁.shape_eq.trans hshape
  refine View.returns_bind (horizontal_fills hshape₁ ⟨by omega, le_rfl⟩ (prev_of_ne (by omega))
    (next_last _)) fun a₂ h₂ => ?_
  have hshape₂ := h₂.shape_eq.trans hshape₁
  refine View.returns_bind (vertical_fills hshape₂ ⟨le_rfl, by omega⟩ (prev_first _)
    (next_of_ne (by omega))) fun a₃ h₃ => ?_
  exact vertical_fills (h₃.shape_eq.trans hshape₂) ⟨by omega, le_rfl⟩ (prev_of_ne (by omega))
    (next_last _)

theorem laplacianCorners_fills (dx dy : K) :
    Returns (laplacianCorners u (1 / (dx * dx)) (1 / (dy * dy)) a)
      (Array2.view.Fills (gridLaplacian u dx dy) ({(1, 1)} ∪ ({((u.rows : ℤ), 1)} ∪
        ({(1, (u.cols : ℤ))} ∪ {((u.rows : ℤ), (u.cols : ℤ))}))) a) := by
  have hright : next u.rows 1 = 2 := next_of_ne (by omega)
  have hleft : prev u.rows u.rows = u.rows - 1 := prev_of_ne (by omega)
  have hup : next u.cols 1 = 2 := next_of_ne (by omega)
  have hdown : prev u.cols u.cols = u.cols - 1 := prev_of_ne (by omega)
  refine View.returns_bind (setStencil_fills hshape ⟨le_rfl, by omega⟩ ⟨le_rfl, by omega⟩
    (prev_first _) hright (prev_first _) hup) fun a₁ h₁ => ?_
  have hshape₁ := h₁.shape_eq.trans hshape
  refine View.returns_bind (setStencil_fills hshape₁ ⟨by omega, le_rfl⟩ ⟨le_rfl, by omega⟩
    hleft (next_last _) (prev_first _) hup) fun a₂ h₂ => ?_
  have hshape₂ := h₂.shape_eq.trans hshape₁
  refine View.returns_bind (setStencil_fills hshape₂ ⟨le_rfl, by omega⟩ ⟨by omega, le_rfl⟩
    (prev_first _) hright hdown (next_last _)) fun a₃ h₃ => ?_
  exact setStencil_fills (h₃.shape_eq.trans hshape₂) ⟨by omega, le_rfl⟩ ⟨by omega, le_rfl⟩ hleft
    (next_last _) hdown (next_last _)

end Parts

omit [Field K] in
/-- The nine parts are the whole grid. -/
theorem mem_parts (u : Array2 K) {i j : ℤ} (h1 : 1 ≤ i) (hi : i ≤ u.rows) (h1' : 1 ≤ j)
    (hj : j ≤ u.cols) : (i, j) ∈ (⋃ j ∈ Set.Icc 2 ((u.cols : ℤ) - 1), horizontal u j) ∪
      ((horizontal u 1 ∪ (horizontal u u.cols ∪ (vertical u 1 ∪ vertical u u.rows))) ∪
        ({(1, 1)} ∪ ({((u.rows : ℤ), 1)} ∪ ({(1, (u.cols : ℤ))} ∪
          {((u.rows : ℤ), (u.cols : ℤ))})))) := by
  have hinner : (i, j) ∈ (⋃ j ∈ Set.Icc 2 ((u.cols : ℤ) - 1), horizontal u j) ↔
      (2 ≤ j ∧ j ≤ (u.cols : ℤ) - 1) ∧ 2 ≤ i ∧ i ≤ (u.rows : ℤ) - 1 := by
    simp only [Set.mem_iUnion, mem_horizontal, Set.mem_Icc, exists_prop]
    constructor
    · rintro ⟨k, hk, hi, rfl⟩
      exact ⟨hk, hi⟩
    · intro h
      exact ⟨j, h.1, h.2, rfl⟩
  simp only [Set.mem_union, hinner, mem_horizontal, mem_vertical, Set.mem_singleton_iff,
    Prod.mk.injEq]
  have hrow : i = 1 ∨ i = u.rows ∨ 2 ≤ i ∧ i ≤ (u.rows : ℤ) - 1 := by omega
  have hcol : j = 1 ∨ j = u.cols ∨ 2 ≤ j ∧ j ≤ (u.cols : ℤ) - 1 := by omega
  rcases hrow with hrow | hrow | hrow <;> rcases hcol with hcol | hcol | hcol <;>
    simp only [hrow, hcol, true_and, and_true, true_or, or_true]

/-- **What `fd_laplacian_2d` computes.** Each of the nine cases has the neighbours of the periodic
grid. -/
theorem fdLaplacian2d_tabulates (dx dy : K) (hnx : 2 ≤ u.rows) (hny : 2 ≤ u.cols)
    (hrows : laplacian.rows = u.rows) (hcols : laplacian.cols = u.cols) :
    Returns (fdLaplacian2d u laplacian dx dy) fun a =>
      a.Tabulates u.rows u.cols fun i j => gridLaplacian u dx dy (i, j) := by
  have hshape : Array2.view.shape laplacian = (u.rows, u.cols) := Prod.ext hrows hcols
  have hfills := View.returns_bind (laplacianInterior_fills hshape dx dy) fun a₁ h₁ =>
    View.returns_bind (laplacianEdges_fills hnx hny (h₁.shape_eq.trans hshape) dx dy) fun a₂ h₂ =>
      laplacianCorners_fills hnx hny (h₂.shape_eq.trans (h₁.shape_eq.trans hshape)) dx dy
  exact hfills.mono fun a h => .of_fills h hrows hcols fun i j h1 hi h1' hj =>
    mem_parts u h1 hi h1' hj

end Laplacian

/-! ### The two results -/

/-- **The Laplacian is the sum of the second derivatives**, at every point of the grid. -/
theorem fdLaplacian2d_eq_sum {u : Array2 K} (hnx : 2 ≤ u.rows) (hny : 2 ≤ u.cols)
    (contentsX contentsY : ℤ → ℤ → K) (dx dy : K) (laplacian ddx ddy : Array2 K)
    (hlap : laplacian.rows = u.rows ∧ laplacian.cols = u.cols)
    (hddx : ddx.rows = u.rows ∧ ddx.cols = u.cols) (hddy : ddy.rows = u.rows ∧ ddy.cols = u.cols) :
    ∃ a x y, fdLaplacian2d u laplacian dx dy = some a ∧
      fdDerivative2d contentsX u ddx dx dy 1 2 (some 2) = some x ∧
      fdDerivative2d contentsY u ddy dx dy 2 2 (some 2) = some y ∧
      ∀ i j : ℤ, 1 ≤ i → i ≤ u.rows → 1 ≤ j → j ≤ u.cols →
        a.elem i j = x.elem i j + y.elem i j := by
  obtain ⟨a, ha, hval⟩ := fdLaplacian2d_tabulates dx dy hnx hny hlap.1 hlap.2
  obtain ⟨x, hx, hxval⟩ := fdDerivative2d_x 2 (some 2) (secondDerivative u.rows dx) contentsX dx
    dy hddx.1 hddx.2 (fdDerivative1d_second hnx dx)
  obtain ⟨y, hy, hyval⟩ := fdDerivative2d_y 2 (some 2) (secondDerivative u.cols dy) contentsY dx
    dy hddy.1 hddy.2 (fdDerivative1d_second hny dy)
  refine ⟨a, x, y, ha, hx, hy, fun i j h1 hi h1' hj => ?_⟩
  rw [hval.elem_eq i j h1 hi h1' hj, hxval.elem_eq i j h1 hi h1' hj,
    hyval.elem_eq i j h1 hi h1' hj, gridLaplacian]

/-- A grid of three points by two. -/
def smallGrid : Array2 ℚ := ⟨3, 2, fun i j => i * i * j⟩

theorem fdLaplacian2d_eq_sum_smallGrid :
    ∃ a x y, fdLaplacian2d smallGrid smallGrid 1 (1 / 2) = some a ∧
      fdDerivative2d 0 smallGrid smallGrid 1 (1 / 2) 1 2 (some 2) = some x ∧
      fdDerivative2d 0 smallGrid smallGrid 1 (1 / 2) 2 2 (some 2) = some y ∧
      a.elem 3 2 = x.elem 3 2 + y.elem 3 2 := by
  obtain ⟨a, x, y, ha, hx, hy, hsum⟩ := fdLaplacian2d_eq_sum (u := smallGrid) (by decide)
    (by decide) 0 0 1 (1 / 2) smallGrid smallGrid smallGrid ⟨rfl, rfl⟩ ⟨rfl, rfl⟩ ⟨rfl, rfl⟩
  exact ⟨a, x, y, ha, hx, hy, hsum 3 2 (by decide) (by decide) (by decide) (by decide)⟩

/-- **The curl of a gradient vanishes**, at every point of the grid. -/
theorem fdCurl2d_gradient_eq_zero {u : Array2 K} (hnx : 2 ≤ u.rows) (hny : 2 ≤ u.cols)
    (contentsX contentsY contentsX' contentsY' allocatedX allocatedY : ℤ → ℤ → K) (dx dy : K)
    (gradX gradY curl : Array2 K)
    (hgradX : gradX.rows = u.rows ∧ gradX.cols = u.cols)
    (hgradY : gradY.rows = u.rows ∧ gradY.cols = u.cols)
    (hcurl : curl.rows = u.rows ∧ curl.cols = u.cols) :
    ∃ gx gy c, fdGradient2d contentsX contentsY u gradX gradY dx dy = some (gx, gy) ∧
      fdCurl2d contentsX' contentsY' allocatedX allocatedY gx gy curl dx dy = some c ∧
      ∀ i j : ℤ, 1 ≤ i → i ≤ u.rows → 1 ≤ j → j ≤ u.cols → c.elem i j = 0 := by
  have hself : u.Tabulates u.rows u.cols u.elem := ⟨rfl, rfl, fun _ _ _ _ _ _ => rfl⟩
  obtain ⟨gx, hgx, hxval⟩ := fdDerivative2d_first_x hself hgradX.1 hgradX.2 hnx contentsX dx dy
  obtain ⟨gy, hgy, hyval⟩ := fdDerivative2d_first_y hself hgradY.1 hgradY.2 hny contentsY dx dy
  obtain ⟨c, hc, hval⟩ := fdCurl2d_tabulates hnx hny hxval hyval hcurl.1 hcurl.2 contentsX'
    contentsY' allocatedX allocatedY dx dy
  refine ⟨gx, gy, c, ?_, hc, fun i j h1 hi h1' hj => ?_⟩
  · rw [fdGradient2d, hgx, hgy]
    rfl
  · rw [hval.elem_eq i j h1 hi h1' hj, sub_eq_zero]
    exact firstDerivative_comm u.elem u.rows u.cols dx dy i j

theorem fdCurl2d_gradient_eq_zero_smallGrid :
    ∃ gx gy c, fdGradient2d 0 0 smallGrid smallGrid smallGrid 1 (1 / 2) = some (gx, gy) ∧
      fdCurl2d 0 0 0 0 gx gy smallGrid 1 (1 / 2) = some c ∧ c.elem 3 2 = 0 := by
  obtain ⟨gx, gy, c, hgrad, hcurl, hzero⟩ := fdCurl2d_gradient_eq_zero (u := smallGrid)
    (by decide) (by decide) 0 0 0 0 0 0 1 (1 / 2) smallGrid smallGrid smallGrid ⟨rfl, rfl⟩
    ⟨rfl, rfl⟩ ⟨rfl, rfl⟩
  exact ⟨gx, gy, c, hgrad, hcurl, hzero 3 2 (by decide) (by decide) (by decide) (by decide)⟩

end DistributedComputing
