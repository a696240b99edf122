import Mathlib.Data.Int.Basic
import Mathlib.Data.List.Range
import Mathlib.Algebra.Group.Nat.Defs
import Mathlib.Algebra.Group.Int.Defs

/-!
# Probing for a message

`mpi_probe_with_timeout` asks MPI for a message every millisecond until the timeout has passed. The
time that has passed and the timeout are compared in microseconds, both as `int`. Two things follow
from how the loop is written. The time is compared **before** the first probe, so that with a
timeout of zero there is none: `mpi_poll` then never sees a message. And the timeout is multiplied
by 1000 in an `int`, which overflows from 2147484 on, that is for a little more than 35 minutes.

For every timeout in between, the function gives the first answer of MPI in as many probes as the
timeout has milliseconds (`mpiProbeWithTimeout_eq`). `probe_sees_iff` is what remains of the
contract.

An overflow of a signed number is undefined, and ends the function here with `overflow`. The loop is
given a number of rounds, after which it is still `running`; more rounds than milliseconds are
enough.
-/

namespace DistributedComputing

/-- What `MPI_Iprobe` answers: an error, or whether there is a message. -/
inductive Iprobe
  | failed
  | flag (available : Bool)
  deriving DecidableEq, Repr

/-- What becomes of a call. -/
inductive ProbeOutcome
  | running
  | overflow
  | returned (v : ℤ)
  deriving DecidableEq, Repr

/-- The value of an expression of type `int`, if it has one. -/
def intValue (v : ℤ) : Option ℤ := if -(2 ^ 31) ≤ v ∧ v < 2 ^ 31 then some v else none

theorem intValue_of_lt {n : ℕ} (h : n < 2 ^ 31) : intValue n = some (n : ℤ) :=
  if_pos (by omega)

theorem intValue_of_le {n : ℕ} (h : 2 ^ 31 ≤ n) : intValue n = none :=
  if_neg (by omega)

/-- The loop of `mpi_probe_with_timeout`, at probe `k` and after the given time. -/
def probeLoop (timeoutMs : Int32) (probe : ℕ → Iprobe) : ℕ → ℕ → ℤ → ProbeOutcome
  | 0, _, _ => .running
  | rounds + 1, k, elapsedUs =>
    match intValue (timeoutMs.toInt * 1000) with
    | none => .overflow
    | some timeoutUs =>
      if elapsedUs < timeoutUs then
        match probe k with
        | .failed => .returned (-1)
        | .flag true => .returned 1
        | .flag false =>
          match intValue (elapsedUs + 1000) with
          | none => .overflow
          | some elapsedUs => probeLoop timeoutMs probe rounds (k + 1) elapsedUs
      else .returned 0

/-- `mpi_probe_with_timeout`. `blocking` is whether `MPI_Probe`, which waits, succeeds. -/
def mpiProbeWithTimeout (rounds : ℕ) (timeoutMs : Int32) (probe : ℕ → Iprobe) (blocking : Bool) :
    ProbeOutcome :=
  if timeoutMs.toInt < 0 then .returned (if blocking then 1 else -1)
  else probeLoop timeoutMs probe rounds 0 0

/-! ### What the loop does -/

/-- The first answer in some probes: 1 for a message, -1 for an error, and 0 if there was none. -/
def firstAnswer (probe : ℕ → Iprobe) : List ℕ → ℤ
  | [] => 0
  | k :: ks =>
    match probe k with
    | .failed => -1
    | .flag true => 1
    | .flag false => firstAnswer probe ks

theorem firstAnswer_flag (available : ℕ → Bool) (ks : List ℕ) :
    firstAnswer (fun k => .flag (available k)) ks =
      if ∃ k ∈ ks, available k = true then 1 else 0 := by
  induction ks with
  | nil => rfl
  | cons k ks ih =>
    rw [firstAnswer]
    rcases hk : available k with - | -
    · simp [ih, hk]
    · simp [hk]

variable {timeoutMs : Int32} {n rounds k : ℕ}

/-- **A round in time.** -/
theorem probeLoop_of_lt {elapsedUs timeoutUs nextUs : ℤ} (probe : ℕ → Iprobe)
    (ht : intValue (timeoutMs.toInt * 1000) = some timeoutUs) (hlt : elapsedUs < timeoutUs)
    (hnext : intValue (elapsedUs + 1000) = some nextUs) :
    probeLoop timeoutMs probe (rounds + 1) k elapsedUs =
      match probe k with
      | .failed => .returned (-1)
      | .flag true => .returned 1
      | .flag false => probeLoop timeoutMs probe rounds (k + 1) nextUs := by
  rw [probeLoop, ht]
  dsimp only
  rw [if_pos hlt, hnext]

/-- **The end of the time.** -/
theorem probeLoop_of_le {elapsedUs timeoutUs : ℤ} (probe : ℕ → Iprobe)
    (ht : intValue (timeoutMs.toInt * 1000) = some timeoutUs) (hle : timeoutUs ≤ elapsedUs) :
    probeLoop timeoutMs probe (rounds + 1) k elapsedUs = .returned 0 := by
  rw [probeLoop, ht]
  exact if_neg (Int.not_lt.2 hle)

theorem toInt_mul_eq (ht : timeoutMs.toInt = n) : timeoutMs.toInt * 1000 = (n * 1000 : ℕ) := by
  omega

/-- The loop with a timeout that does not overflow. By induction on the rounds; the time that has
passed is a millisecond for each probe. -/
theorem probeLoop_eq (ht : timeoutMs.toInt = n) (hn : n * 1000 < 2 ^ 31) (probe : ℕ → Iprobe)
    (hk : k ≤ n) (hrounds : n - k < rounds) :
    probeLoop timeoutMs probe rounds k (k * 1000 : ℕ) =
      .returned (firstAnswer probe (List.range' k (n - k))) := by
  have htimeout : intValue (timeoutMs.toInt * 1000) = some ((n * 1000 : ℕ) : ℤ) := by
    rw [toInt_mul_eq ht]
    exact intValue_of_lt hn
  induction rounds generalizing k with
  | zero => exact absurd hrounds (Nat.not_lt_zero _)
  | succ rounds ih =>
    rcases Nat.lt_or_ge k n with hlt | hge
    · have hrest : n - k = n - (k + 1) + 1 := by omega
      have hnext : intValue (((k * 1000 : ℕ) : ℤ) + 1000) = some (((k + 1) * 1000 : ℕ) : ℤ) := by
        have hms : ((k * 1000 : ℕ) : ℤ) + 1000 = ((k + 1) * 1000 : ℕ) := by omega
        rw [hms]
        exact intValue_of_lt (Nat.lt_of_le_of_lt (Nat.mul_le_mul_right 1000 hlt) hn)
      rw [probeLoop_of_lt probe htimeout (by omega) hnext, hrest, List.range'_succ, firstAnswer]
      rcases probe k with - | (- | -)
      · rfl
      · exact ih hlt (by omega)
      · rfl
    · rw [probeLoop_of_le probe htimeout (by omega), Nat.sub_eq_zero_of_le hge]
      rfl

/-- **A timeout that does not overflow** gives the first answer in its probes. -/
theorem mpiProbeWithTimeout_eq (ht : timeoutMs.toInt = n) (hn : n ≤ 2147483)
    (probe : ℕ → Iprobe) (blocking : Bool) (hrounds : n < rounds) :
    mpiProbeWithTimeout rounds timeoutMs probe blocking =
      .returned (firstAnswer probe (List.range n)) := by
  have hnonneg : ¬ timeoutMs.toInt < 0 := by omega
  rw [mpiProbeWithTimeout, if_neg hnonneg, List.range_eq_range']
  exact probeLoop_eq ht (by omega) probe (Nat.zero_le n) hrounds

/-- **A timeout that overflows** does so before the first probe. -/
theorem mpiProbeWithTimeout_of_overflow (ht : timeoutMs.toInt = n) (hn : 2147483 < n)
    (probe : ℕ → Iprobe) (blocking : Bool) (hrounds : n < rounds) :
    mpiProbeWithTimeout rounds timeoutMs probe blocking = .overflow := by
  have hnonneg : ¬ timeoutMs.toInt < 0 := by omega
  have hbound : intValue (timeoutMs.toInt * 1000) = none := by
    rw [toInt_mul_eq ht]
    exact intValue_of_le (by omega)
  obtain ⟨rounds, rfl⟩ := Nat.exists_eq_add_one.2 (Nat.zero_lt_of_lt hrounds)
  rw [mpiProbeWithTimeout, if_neg hnonneg, probeLoop, hbound]

/-! ### What is left of the contract -/

/-- What a call with a timeout should return: 1 if there is a message when it is called or at one of
the probes of the timeout, and 0 otherwise. -/
def probeDue (available : ℕ → Bool) (n : ℕ) : ℤ :=
  if available 0 = true ∨ ∃ k ∈ List.range n, available k = true then 1 else 0

/-- **The probe sees pending messages.** For every timeout that is not negative, every schedule of
messages and as many rounds as the loop needs: the call returns what it should, without an overflow,
exactly if the timeout is positive and below 2147484, or is zero and there is no message. -/
theorem probe_sees_iff (hnonneg : 0 ≤ timeoutMs.toInt) (available : ℕ → Bool) (blocking : Bool)
    (hrounds : timeoutMs.toInt.toNat < rounds) :
    mpiProbeWithTimeout rounds timeoutMs (fun k => .flag (available k)) blocking =
        .returned (probeDue available timeoutMs.toInt.toNat) ↔
      (0 < timeoutMs.toInt ∧ timeoutMs.toInt ≤ 2147483) ∨
        (timeoutMs.toInt = 0 ∧ available 0 = false) := by
  obtain ⟨n, hn⟩ := Int.eq_ofNat_of_zero_le hnonneg
  rw [hn, Int.toNat_natCast] at hrounds ⊢
  rcases Nat.lt_or_ge 2147483 n with hlarge | hsmall
  · rw [mpiProbeWithTimeout_of_overflow hn hlarge _ _ hrounds]
    exact iff_of_false ProbeOutcome.noConfusion (by omega)
  · rw [mpiProbeWithTimeout_eq hn hsmall _ _ hrounds, firstAnswer_flag, probeDue]
    rcases Nat.eq_zero_or_pos n with rfl | hpos
    · -- no probe at all
      rcases h0 : available 0 with - | -
      · exact iff_of_true (by simp) (.inr ⟨rfl, rfl⟩)
      · exact iff_of_false (by simp) (by simp)
    · have hfirst : available 0 = true → ∃ k ∈ List.range n, available k = true :=
        fun h => ⟨0, List.mem_range.2 hpos, h⟩
      simp only [or_iff_right_of_imp hfirst, true_iff]
      exact .inl (by omega)

/-- Five milliseconds, and a message at the fourth probe. -/
theorem probe_sees_iff_five :
    mpiProbeWithTimeout 6 5 (fun k => .flag (k == 3)) true = .returned (probeDue (· == 3) 5) ↔
      (0 < (5 : Int32).toInt ∧ (5 : Int32).toInt ≤ 2147483) ∨
        ((5 : Int32).toInt = 0 ∧ (0 == 3) = false) :=
  probe_sees_iff (by decide) (· == 3) true (by decide)

/-- There is a message, but with a timeout of zero the call returns 0, and with one of 2147484
milliseconds its arithmetic overflows. -/
theorem probe_misses_at_both_ends :
    mpiProbeWithTimeout 1 0 (fun _ => .flag true) true = .returned 0 ∧
      mpiProbeWithTimeout 1 2147484 (fun _ => .flag true) true = .overflow := by
  decide

end DistributedComputing
