import Mathlib.Tactic.FieldSimp
import Mathlib.Tactic.Positivity
import Mathlib.Tactic.Ring
import TelemetryTestbed.Lib.Accumulator
import TelemetryTestbed.Sim.Motor

/-!
# The encoder never drifts

The fraction and the counter of a motor thread are an accumulator whose whole units
are kept modulo 2^32: an iteration adds its increment to it, and the conversion to
`uint32_t` is defined because the fraction is below one and the increment below
2^32 - 1. So the counter is the whole part of all increments, however often it wraps.

What is said of a run is said of any trace of speeds: for every list of increments that are
not negative there are draws that give them (`exists_increments_eq`), so the law is not about
the few runs that a certain noise happens to have.
-/

namespace TelemetryTestbed.Sim

open TelemetryTestbed.Lib

variable {m : MotorModel} {sin : ℚ → ℚ} {a : MotorArgs}

theorem MotorArgs.rate_pos (a : MotorArgs) : 0 < a.rate := by
  unfold MotorArgs.rate
  split
  next h => exact h
  next => norm_num

/-- The speed is factored down in the window, and not below zero. -/
theorem MotorModel.rpm_nonneg (hwindow : 0 ≤ m.windowRpm) (t : ℚ) (d : Draws) :
    0 ≤ m.rpm sin t d := by
  have hclamped (x : ℚ) : 0 ≤ (if x < 0 then 0 else x) := by
    split
    next => exact le_rfl
    next h => exact not_lt.mp h
  unfold MotorModel.rpm
  dsimp only
  split
  · exact mul_nonneg (hclamped _) hwindow
  · exact hclamped _

theorem MotorModel.ticksIncReal_nonneg (hwindow : 0 ≤ m.windowRpm) (t : ℚ) (d : Draws) :
    0 ≤ m.ticksIncReal sin a t d := by
  have hrpm : 0 ≤ m.rpm sin t d := rpm_nonneg hwindow t d
  have hrate := a.rate_pos
  unfold MotorModel.ticksIncReal encTicksPerRevMotor
  positivity

/-- The variables of the thread are those of an accumulator; the counter wraps. -/
structure Counts (s : MotorState) (acc : Accumulator ℚ) : Prop where
  tickFrac_eq : s.tickFrac = acc.frac
  tickCount_eq : (s.tickCount.toNat : ℤ) = acc.whole % 2 ^ 32

@[simp] theorem MotorModel.init_t (m : MotorModel) : m.init.t = 0 := rfl

theorem counts_init (m : MotorModel) : Counts m.init .zero := ⟨rfl, rfl⟩

theorem toUint32_eq {v : ℤ} (hnonneg : 0 ≤ v) (hlt : v < 2 ^ 32) :
    ∃ u : UInt32, toUint32 v = some u ∧ (u.toNat : ℤ) = v := by
  refine ⟨.ofNat v.toNat, if_pos ⟨hnonneg, hlt⟩, ?_⟩
  rw [UInt32.toNat_ofNat']
  omega

/-- What an iteration hands on shows the counter `c`. -/
structure MotorOutput.Shows (m : MotorModel) (a : MotorArgs) (out : MotorOutput) (c : UInt32) :
    Prop where
  published : (m.topics.tics, packU32Le c) ∈ out.published
  cached : a.cache = true →
    ∃ rpm temp vps cps, out.cacheCall = some (.setMotor m.motorIndex c rpm temp vps cps)

/-- An iteration adds its increment. -/
theorem motorIteration_counts {s : MotorState} {acc : Accumulator ℚ} {total : ℚ}
    (hs : Counts s acc) (hacc : acc.Holds total) {d : Draws}
    (hnonneg : 0 ≤ m.ticksIncReal sin a s.t d)
    (hlt : m.ticksIncReal sin a s.t d < 2 ^ 32 - 1) :
    ∃ s' out, motorIteration m sin a d s = some (s', out) ∧ s'.t = s.t + 1 / a.rate ∧
      Counts s' (acc.add (m.ticksIncReal sin a s.t d)) ∧ out.Shows m a s'.tickCount := by
  obtain ⟨inc, hinc, htoNat⟩ := toUint32_eq (hacc.floor_add_nonneg hnonneg)
    (hacc.floor_add_lt (n := 2 ^ 32) (by push_cast; exact hlt))
  rw [← hs.tickFrac_eq] at hinc htoNat
  have hfrac : (inc.toNat : ℚ) = (⌊s.tickFrac + m.ticksIncReal sin a s.t d⌋ : ℤ) := by
    rw [← htoNat, Int.cast_natCast]
  refine ⟨_, _, by simp only [motorIteration, hinc, Option.map_some]; rfl, rfl, ⟨?_, ?_⟩, ?_, ?_⟩
  · simp only [Accumulator.add, ← hs.tickFrac_eq, hfrac]
  · have hcount := hs.tickCount_eq
    simp only [Accumulator.add, ← hs.tickFrac_eq, ← htoNat, UInt32.toNat_add]
    omega
  · simp
  · intro hcache
    simp only [hcache, if_true]
    exact ⟨_, _, _, _, rfl⟩

/-- A run from a state that counts `total`: the state it ends in, and what each of its
iterations shows. -/
theorem motorLoop_counts (ds : List Draws) {s : MotorState} {acc : Accumulator ℚ} {total : ℚ}
    (hs : Counts s acc) (hacc : acc.Holds total)
    (hincs : ∀ x ∈ m.increments sin a s.t ds, 0 ≤ x ∧ x < 2 ^ 32 - 1) :
    ∃ s' outs, motorLoop m sin a ds s = some (s', outs) ∧
      Counts s' ((m.increments sin a s.t ds).foldl Accumulator.add acc) ∧
      outs.length = ds.length ∧
      ∀ i out, outs[i]? = some out → ∃ c : UInt32, out.Shows m a c ∧
        (c.toNat : ℤ) = ⌊total + ((m.increments sin a s.t ds).take (i + 1)).sum⌋ % 2 ^ 32 := by
  induction ds generalizing s acc total with
  | nil => exact ⟨s, [], rfl, hs, rfl, fun i out h => nomatch h⟩
  | cons d ds ih =>
    obtain ⟨hnonneg, hlt⟩ := hincs _ List.mem_cons_self
    obtain ⟨s₁, out, hiter, ht, hs₁, hshows⟩ := motorIteration_counts hs hacc hnonneg hlt
    have hacc₁ := hacc.add (m.ticksIncReal sin a s.t d)
    obtain ⟨s', outs, hloop, hs', hlength, houts⟩ := ih hs₁ hacc₁ (by
      rw [ht]
      exact fun x hx => hincs x (List.mem_cons_of_mem _ hx))
    rw [ht] at hs' houts
    refine ⟨s', out :: outs, by simp [motorLoop, hiter, hloop], hs', by simp [hlength], ?_⟩
    rintro (_ | i) out' hout'
    · obtain rfl : out = out' := by simpa using hout'
      refine ⟨s₁.tickCount, hshows, ?_⟩
      rw [hs₁.tickCount_eq, hacc₁.whole_eq]
      simp [MotorModel.increments]
    · obtain ⟨c, hc, hfloor⟩ := houts i out' (by simpa using hout')
      refine ⟨c, hc, ?_⟩
      rw [hfloor]
      simp [MotorModel.increments, add_assoc]

/-- A thread after the iterations with the draws `ds`: the fraction is one, and the
counter, as it is and as every iteration showed it, is the whole part of the increments. -/
structure Conserved (m : MotorModel) (sin : ℚ → ℚ) (a : MotorArgs) (ds : List Draws)
    (s : MotorState) (outs : List MotorOutput) : Prop where
  frac_nonneg : 0 ≤ s.tickFrac
  frac_lt_one : s.tickFrac < 1
  count_eq : (s.tickCount.toNat : ℤ) = ⌊(m.increments sin a 0 ds).sum⌋ % 2 ^ 32
  outs_length : outs.length = ds.length
  outs_show : ∀ i out, outs[i]? = some out → ∃ c : UInt32, out.Shows m a c ∧
    (c.toNat : ℤ) = ⌊((m.increments sin a 0 ds).take (i + 1)).sum⌋ % 2 ^ 32

theorem MotorModel.increments_nonneg (hwindow : 0 ≤ m.windowRpm) (ds : List Draws) (t : ℚ) :
    ∀ x ∈ m.increments sin a t ds, 0 ≤ x := by
  induction ds generalizing t with
  | nil => simp [increments]
  | cons d ds ih => simpa [increments] using ⟨ticksIncReal_nonneg hwindow t d, ih _⟩

theorem MotorModel.exists_ticksIncReal_eq (hnoise : m.rpmNoise ≠ 0) (hwindow : 0 < m.windowRpm)
    (t : ℚ) {x : ℚ} (hx : 0 ≤ x) : ∃ d, m.ticksIncReal sin a t d = x := by
  have hrate := a.rate_pos
  let factor := if m.window t then m.windowRpm else 1
  have hfactor : 0 < factor := by
    dsimp only [factor]
    split
    · exact hwindow
    · exact one_pos
  -- the speed that gives the increment, before the window slows it down
  let speed := x * 60 * a.rate / encTicksPerRevMotor / factor
  have hspeed : 0 ≤ speed := by
    dsimp only [speed, encTicksPerRevMotor]
    positivity
  let d : Draws := ⟨0, 0, 0, 0, 0⟩
  let u := (speed - m.rpmMotor sin t (m.drive sin t d)) / (2 * m.rpmNoise) + 1 / 2
  refine ⟨{ d with rpm := u }, ?_⟩
  have hraw : m.rpmMotor sin t (m.drive sin t d) + noise u m.rpmNoise = speed := by
    dsimp only [u, noise]
    field_simp
    ring
  have hrpm : m.rpm sin t { d with rpm := u } = speed * factor := by
    have hdrive : m.drive sin t { d with rpm := u } = m.drive sin t d := rfl
    simp only [MotorModel.rpm, hdrive, hraw, if_neg (not_lt.mpr hspeed), factor]
    split
    · rfl
    · rw [mul_one]
  simp only [MotorModel.ticksIncReal, hrpm, speed, encTicksPerRevMotor]
  field_simp

/-- Any increments are those of a run: what `noise` adds to the speed is not bounded here. -/
theorem MotorModel.exists_increments_eq (hnoise : m.rpmNoise ≠ 0) (hwindow : 0 < m.windowRpm)
    (xs : List ℚ) (hxs : ∀ x ∈ xs, 0 ≤ x) (t : ℚ) : ∃ ds, m.increments sin a t ds = xs := by
  induction xs generalizing t with
  | nil => exact ⟨[], rfl⟩
  | cons x xs ih =>
    obtain ⟨d, hd⟩ : ∃ d, m.ticksIncReal sin a t d = x :=
      exists_ticksIncReal_eq hnoise hwindow t (hxs x List.mem_cons_self)
    obtain ⟨ds, hds⟩ := ih (fun y hy => hxs y (List.mem_cons_of_mem _ hy)) (t + 1 / a.rate)
    exact ⟨d :: ds, by rw [increments, hd, hds]⟩

theorem motorLoop_conserved (hwindow : 0 ≤ m.windowRpm) {ds : List Draws}
    (hincs : ∀ x ∈ m.increments sin a 0 ds, x < 2 ^ 32 - 1) :
    ∃ s outs, motorLoop m sin a ds m.init = some (s, outs) ∧ Conserved m sin a ds s outs := by
  obtain ⟨s, outs, hloop, hs, hlength, houts⟩ :=
    motorLoop_counts ds (counts_init m) Accumulator.holds_zero fun x hx =>
      ⟨MotorModel.increments_nonneg hwindow ds 0 x hx, hincs x hx⟩
  have hacc := Accumulator.holds_zero.foldl (m.increments sin a 0 ds)
  rw [zero_add] at hacc
  refine ⟨s, outs, hloop, ?_, ?_, ?_, hlength, by simpa using houts⟩
  · rw [hs.tickFrac_eq]
    exact hacc.frac_nonneg
  · rw [hs.tickFrac_eq]
    exact hacc.frac_lt_one
  · rw [hs.tickCount_eq]
    exact congrArg (· % 2 ^ 32) hacc.whole_eq

/-- **The encoder never drifts.** For both motor threads, any sine, any arguments and any list
of draws, one for each iteration: if no increment reaches 2^32 - 1, the run is defined
throughout, and at the head of every iteration the fraction is in [0, 1) and the counter is the
whole part of the sum of all increments so far, modulo 2^32, which is also what the iteration
hands on to the cache and to its topic. That an increment is not negative is no assumption: the
speed is clamped. -/
theorem encoder_ticks_conserved (sin : ℚ → ℚ) (a : MotorArgs) (ds : List Draws) :
    ((∀ x ∈ motor1.increments sin a 0 ds, x < 2 ^ 32 - 1) →
      ∃ s outs, motor1Thread sin a ds = some (s, outs) ∧ Conserved motor1 sin a ds s outs) ∧
    ((∀ x ∈ motor2.increments sin a 0 ds, x < 2 ^ 32 - 1) →
      ∃ s outs, motor2Thread sin a ds = some (s, outs) ∧ Conserved motor2 sin a ds s outs) :=
  ⟨motorLoop_conserved (by norm_num [motor1]), motorLoop_conserved (by norm_num [motor2])⟩

/-- The first terms of the series of the sine, which give its first six places up to 2.2. -/
def sinSeries (x : ℚ) : ℚ :=
  x - x ^ 3 / 6 + x ^ 5 / 120 - x ^ 7 / 5040 + x ^ 9 / 362880 - x ^ 11 / 39916800 +
    x ^ 13 / 6227020800

/-- What `frand_unit` answers in three iterations. -/
def threeDraws : List Draws :=
  [⟨0.5, 0.5, 0.5, 0.5, 0.5⟩, ⟨0.1, 0.9, 0.4, 0.7, 0.2⟩, ⟨0.8, 0.3, 0.6, 0.2, 0.9⟩]

/-- Three iterations at fifty hertz. Each counter is one ahead of the whole parts of its
increments, whose fractions have been carried along. -/
theorem encoder_ticks_conserved_thrice :
    (∃ s outs, motor1Thread sinSeries ⟨50, true⟩ threeDraws = some (s, outs) ∧
      Conserved motor1 sinSeries ⟨50, true⟩ threeDraws s outs ∧ s.tickCount.toNat = 33147 ∧
        ((motor1.increments sinSeries ⟨50, true⟩ 0 threeDraws).map Int.floor).sum = 33146) ∧
    ∃ s outs, motor2Thread sinSeries ⟨50, true⟩ threeDraws = some (s, outs) ∧
      Conserved motor2 sinSeries ⟨50, true⟩ threeDraws s outs ∧ s.tickCount.toNat = 38580 ∧
        ((motor2.increments sinSeries ⟨50, true⟩ 0 threeDraws).map Int.floor).sum = 38579 := by
  have h := encoder_ticks_conserved sinSeries ⟨50, true⟩ threeDraws
  obtain ⟨s₁, outs₁, hrun₁, hconserved₁⟩ := h.1 (by decide +kernel)
  obtain ⟨s₂, outs₂, hrun₂, hconserved₂⟩ := h.2 (by decide +kernel)
  have hcount₁ := hconserved₁.count_eq.trans
    (show ⌊(motor1.increments sinSeries ⟨50, true⟩ 0 threeDraws).sum⌋ % 2 ^ 32 = 33147 by
      decide +kernel)
  have hcount₂ := hconserved₂.count_eq.trans
    (show ⌊(motor2.increments sinSeries ⟨50, true⟩ 0 threeDraws).sum⌋ % 2 ^ 32 = 38580 by
      decide +kernel)
  exact ⟨⟨s₁, outs₁, hrun₁, hconserved₁, by exact_mod_cast hcount₁, by decide +kernel⟩,
    s₂, outs₂, hrun₂, hconserved₂, by exact_mod_cast hcount₂, by decide +kernel⟩

end TelemetryTestbed.Sim
