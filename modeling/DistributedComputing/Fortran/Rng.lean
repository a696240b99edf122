import Mathlib.Analysis.SpecialFunctions.Log.Basic
import Mathlib.Analysis.SpecialFunctions.Trigonometric.Basic

/-!
# The random number module

A model of `rng.f90`. The state of the module is the state of the intrinsic generator together with
the flag `is_seeded`; a draw on a module that is not seeded seeds it first, with a fixed number.

The intrinsic procedures are a parameter, `Intrinsics`: `random_number` may be any function of the
state, and `random_seed` reads and sets the state exactly (`seedPut_seedGet`). So are the elementary
functions of `real(wp)`, `Elementary`, as nothing here depends on what they compute.

`rng_state_save` records the state of the generator and **not the flag**, and `rng_state_restore`
sets the flag. A state saved before seeding is thus not restored exactly: the draws that would have
followed begin with the automatic seeding, those after the restore do not. That this is the only
difference is `replay_iff`.
-/

namespace DistributedComputing

variable {G R : Type}

/-- `random_seed` and `random_number`. -/
structure Intrinsics (G R : Type) where
  seedSize : ℕ
  seedGet : G → Vector Int32 seedSize
  seedPut : Vector Int32 seedSize → G
  number : G → R × G
  numbers : (n : ℕ) → G → Vector R n × G
  seedPut_seedGet : ∀ g, seedPut (seedGet g) = g

/-- The functions and constants of `real(wp)` that the distributions use. -/
structure Elementary (R : Type) where
  sqrt : R → R
  log : R → R
  cos : R → R
  twoPi : R
  tiny : R
  floor : R → Int32
  real : Int32 → R

/-- The state of the module. -/
structure RngState (G : Type) where
  generator : G
  isSeeded : Bool := false
  deriving DecidableEq, Repr

namespace Intrinsics

variable (I : Intrinsics G R)

/-! ### Seeding -/

/-- `seed_array`, with the low 32 bits of each element. -/
def seedArray (seedValue : Int64) : Vector Int32 I.seedSize :=
  .ofFn fun i => (seedValue ^^^ (Int64.ofNat (i.val + 1) * 2654435761)).toInt32

/-- `rng_seed`. -/
def rngSeed (seedValue : Int64) : StateM (RngState G) Unit :=
  set { generator := I.seedPut (I.seedArray seedValue), isSeeded := true : RngState G }

/-- `rng_state_save`. -/
def rngStateSave : StateM (RngState G) (Vector Int32 I.seedSize) := do
  return I.seedGet (← get).generator

/-- `rng_state_restore`. -/
def rngStateRestore (state : Vector Int32 I.seedSize) : StateM (RngState G) Unit :=
  set { generator := I.seedPut state, isSeeded := true : RngState G }

/-- The automatic seeding of a draw. -/
def ensureSeeded : StateM (RngState G) Unit := do
  if !(← get).isSeeded then I.rngSeed 123456789

/-! ### Draws -/

/-- `rng_uniform`. -/
def rngUniform : StateM (RngState G) R := do
  I.ensureSeeded
  modifyGet fun s => ((I.number s.generator).1, { s with generator := (I.number s.generator).2 })

/-- `rng_uniform_array`. -/
def rngUniformArray (n : ℕ) : StateM (RngState G) (Vector R n) := do
  I.ensureSeeded
  modifyGet fun s =>
    ((I.numbers n s.generator).1, { s with generator := (I.numbers n s.generator).2 })

variable [Field R] [LinearOrder R] (E : Elementary R)

/-- `rng_normal`. -/
def rngNormal (mean sigma : Option R) : StateM (RngState G) R := do
  let mu := mean.getD 0
  let sig := sigma.getD 1
  let u1 ← I.rngUniform
  let u2 ← I.rngUniform
  let u1 := max u1 E.tiny
  let z := E.sqrt (-2 * E.log u1) * E.cos (E.twoPi * u2)
  return mu + sig * z

/-- `rng_normal_array`. -/
def rngNormalArray (mean sigma : Option R) : ℕ → StateM (RngState G) (List R)
  | 0 => return []
  | n + 1 => do
    let r ← I.rngNormal E mean sigma
    let rest ← rngNormalArray mean sigma n
    return r :: rest

/-- `rng_exponential`. -/
def rngExponential (lambda : R) : StateM (RngState G) R := do
  let u ← I.rngUniform
  let u := max u E.tiny
  return -E.log u / lambda

/-- `rng_integer`. -/
def rngInteger (imin imax : Int32) : StateM (RngState G) Int32 := do
  let u ← I.rngUniform
  let r := imin + E.floor (u * E.real (imax - imin + 1))
  return min r imax

end Intrinsics

/-! ### Calls -/

/-- A call of the module. -/
inductive RngCall (R : Type)
  | seed (seedValue : Int64)
  | uniform
  | uniformArray (n : ℕ)
  | normal (mean sigma : Option R)
  | normalArray (n : ℕ) (mean sigma : Option R)
  | exponential (lambda : R)
  | integer (imin imax : Int32)

/-- What a call returns. -/
inductive Drawn (R : Type)
  | nothing
  | real (r : R)
  | array (rs : List R)
  | integer (i : Int32)

namespace Intrinsics

variable [Field R] [LinearOrder R] (I : Intrinsics G R) (E : Elementary R)

/-- One call. -/
def call : RngCall R → StateM (RngState G) (Drawn R)
  | .seed seedValue => do I.rngSeed seedValue; return .nothing
  | .uniform => return .real (← I.rngUniform)
  | .uniformArray n => return .array (← I.rngUniformArray n).toList
  | .normal mean sigma => return .real (← I.rngNormal E mean sigma)
  | .normalArray n mean sigma => return .array (← I.rngNormalArray E mean sigma n)
  | .exponential lambda => return .real (← I.rngExponential E lambda)
  | .integer imin imax => return .integer (← I.rngInteger E imin imax)

/-- Calls in sequence. -/
def calls : List (RngCall R) → StateM (RngState G) (List (Drawn R))
  | [] => return []
  | c :: cs => do
    let d ← I.call E c
    let ds ← calls cs
    return d :: ds

/-- What is drawn from a state. -/
def draws (cs : List (RngCall R)) (s : RngState G) : List (Drawn R) := ((I.calls E cs).run s).1

/-- Save, make the calls `between`, and restore. -/
def saveAndRestore (between : List (RngCall R)) : StateM (RngState G) Unit := do
  let state ← I.rngStateSave
  let _ ← I.calls E between
  I.rngStateRestore state

/-- What the automatic seeding makes of any state. -/
def fallback : RngState G := ⟨I.seedPut (I.seedArray 123456789), true⟩

/-- **A draw on a module that is not seeded** is one from the fallback state. -/
theorem draws_of_not_seeded (g : G) (cs : List (RngCall R)) :
    I.draws E cs ⟨g, false⟩ = I.draws E cs I.fallback := by
  induction cs with
  | nil => rfl
  | cons c cs ih =>
    cases c with
    | seed | uniform | uniformArray | normal | exponential | integer => rfl
    | normalArray n mean sigma =>
      cases n with
      -- an empty array draws nothing, so the module is still not seeded
      | zero => exact congrArg (_ :: ·) ih
      | succ n => rfl

/-- **After a restore** the generator is where it was, and the module is seeded. -/
theorem run_saveAndRestore (between : List (RngCall R)) (s : RngState G) :
    ((I.saveAndRestore E between).run s).2 = ⟨s.generator, true⟩ := by
  show (⟨I.seedPut (I.seedGet s.generator), true⟩ : RngState G) = _
  rw [I.seedPut_seedGet]

/-- **Replay.** Whatever is called between a save and its restore, the draws after the restore are
those that would have followed directly after the save, if the module was seeded at the save; and
otherwise only if the generator happens to give the same draws from its state as from the fallback
state. -/
theorem replay_iff (s : RngState G) :
    (∀ between later : List (RngCall R),
        I.draws E later ((I.saveAndRestore E between).run s).2 = I.draws E later s) ↔
      s.isSeeded = true ∨
        ∀ later : List (RngCall R),
          I.draws E later ⟨s.generator, true⟩ = I.draws E later I.fallback := by
  rcases s with ⟨g, - | -⟩
  · simp only [run_saveAndRestore, draws_of_not_seeded, forall_const, Bool.false_eq_true, false_or]
  · simp only [run_saveAndRestore, implies_true, true_or]

/-- `real(wp)` as the real numbers. -/
noncomputable def realElementary : Elementary ℝ where
  sqrt := Real.sqrt
  log := Real.log
  cos := Real.cos
  twoPi := 2 * Real.pi
  tiny := 2 ^ (-1022 : ℤ)
  floor := fun x => Int32.ofInt ⌊x⌋
  real := fun i => (i.toInt : ℝ)

/-- A linear congruential generator with 32 bits of state. -/
noncomputable def lcg : Intrinsics Int32 ℝ where
  seedSize := 1
  seedGet := fun g => #v[g]
  seedPut := fun v => v[0]
  number := fun g => ((g.toUInt32.toNat : ℝ) / 2 ^ 32, g * 1664525 + 1013904223)
  numbers := fun n g => (.replicate n ((g.toUInt32.toNat : ℝ) / 2 ^ 32), g * 1664525 + 1013904223)
  seedPut_seedGet := fun _ => rfl

/-- In the initial state of the module, with the generator at zero: the first draw after a save
comes from the automatic seeding, the first draw after a restore does not. -/
theorem replay_fails_before_seeding :
    ¬ ∀ between later : List (RngCall ℝ),
      lcg.draws realElementary later
          ((lcg.saveAndRestore realElementary between).run ⟨0, false⟩).2 =
        lcg.draws realElementary later ⟨0, false⟩ := by
  intro h
  have hdrawn := h [] [.uniform]
  rw [run_saveAndRestore, draws_of_not_seeded] at hdrawn
  have hfirst : ((0 : Int32).toUInt32.toNat : ℝ) / 2 ^ 32 =
      (((lcg.seedArray 123456789)[0]).toUInt32.toNat : ℝ) / 2 ^ 32 :=
    Drawn.real.inj (List.cons.inj hdrawn).1
  have hbits : (0 : Int32).toUInt32.toNat = ((lcg.seedArray 123456789)[0]).toUInt32.toNat :=
    Nat.cast_injective ((div_left_inj' (pow_ne_zero 32 (two_ne_zero' ℝ))).1 hfirst)
  exact absurd hbits (by decide)

end Intrinsics

end DistributedComputing
