import TelemetryTestbed.Laws.Sim.Readings
import TelemetryTestbed.Laws.Sim.Snapshot

/-!
# The state message and the topics of the sensors

A sensor tells what it measures twice: in the state message, by way of the cache, and
on its own topics. The calls of a sensor that have returned are, in order, those of its
iterations but for the one it is inside with (`Working.handed`), so every state message
shows one whole iteration of each sensor, no message shows an older one than a message
before it, and what it shows is what that iteration published (`state_agrees_with_topics`).

The proof goes through the snapshots: a message shows the calls that had returned, each call
is of one iteration, and the values of a call are those that the iteration publishes. A
message at the start may come before a sensor's first call, and shows the zeros of the empty
cache for it.
-/

namespace TelemetryTestbed.Sim

open TelemetryTestbed.Lib TelemetryTestbed.Telemetry

/-! ## Calls and their sensors -/

def CacheCall.sensor? : CacheCall → Option Sensor
  | .setImu .. => some .imu
  | .setTilt .. => some .tilt
  | .setMotor motorIndex .. =>
    if motorIndex = 1 then some .motor1 else if motorIndex = 2 then some .motor2 else none
  | .get => none

def Sensor.owns (i : Sensor) (call : CacheCall) : Bool := call.sensor? = some i

theorem Sensor.owns_iff {i : Sensor} {call : CacheCall} :
    i.owns call = true ↔ call.sensor? = some i := decide_eq_true_iff

theorem Sensor.owns_unique {i j : Sensor} {call : CacheCall} (hi : i.owns call = true)
    (hj : j.owns call = true) : i = j :=
  Option.some.inj ((Sensor.owns_iff.mp hi).symm.trans (Sensor.owns_iff.mp hj))

theorem effective_iff_sensor {call : CacheCall} : call.effective = call.sensor?.isSome := by
  cases call with
  | setImu | setTilt | get => rfl
  | setMotor motorIndex =>
    simp only [CacheCall.effective, CacheCall.ignored, CacheCall.sensor?]
    by_cases h1 : motorIndex = 1
    · simp [h1]
    · by_cases h2 : motorIndex = 2
      · simp [h2]
      · simp [h1, h2]

/-- The call a sensor is inside with. -/
def Simulation.inFlight (s : Simulation Sensor) (i : Sensor) : Option CacheCall :=
  (s.lock.inside (.sensor i)).map Inside.call

/-- The values of a group are those of the last call of its sensor. -/
theorem latest_eq {α : Type} {set? : CacheCall → Option α} {i : Sensor}
    (hset : ∀ call, (set? call).isSome = i.owns call) (zeros : α) (calls : List CacheCall) :
    latest set? zeros calls = ((calls.filter i.owns).getLast?.bind set?).getD zeros := by
  induction calls using List.reverseRecOn with
  | nil => rfl
  | append_singleton calls call ih =>
    rw [latest_concat, List.filter_append, List.filter_singleton]
    cases howns : i.owns call with
    | true =>
      obtain ⟨v, hv⟩ := Option.isSome_iff_exists.mp ((hset call).trans howns)
      simp [hv]
    | false =>
      have hnone : set? call = none := by
        rw [← Option.not_isSome_iff_eq_none, hset call, howns]
        exact Bool.false_ne_true
      simp [hnone, ih]

/-- Every call is counted, by its sensor. -/
theorem effectiveCalls_eq {calls : List CacheCall}
    (h : ∀ call ∈ calls, ∃ i : Sensor, i.owns call = true) :
    effectiveCalls calls = (calls.filter Sensor.imu.owns).length +
      (calls.filter Sensor.tilt.owns).length + (calls.filter Sensor.motor1.owns).length +
      (calls.filter Sensor.motor2.owns).length := by
  induction calls with
  | nil => rfl
  | cons call calls ih =>
    obtain ⟨⟨i, hi⟩, hrest⟩ := List.forall_mem_cons.mp h
    have hcount : effectiveCalls (call :: calls) = effectiveCalls calls + 1 := by
      rw [effectiveCalls, List.countP_cons_of_pos, effectiveCalls]
      rw [effective_iff_sensor, Sensor.owns_iff.mp hi]
      rfl
    rw [hcount, ih hrest]
    simp only [List.filter_cons, Sensor.owns, Sensor.owns_iff.mp hi]
    cases i <;> simp <;> omega

/-! ## The runs -/

/-- What a sensor sets in the cache, with what it publishes. -/
def Sensor.Reports (lib : Libm) : Sensor → SensorOutput → Prop
  | .imu, out => ∃ ax ay az gx gy gz, out.cacheCall = some (.setImu ax ay az gx gy gz) ∧
    ImuShown lib out ⟨ax, ay, az⟩ ⟨gx, gy, gz⟩
  | .tilt, out => ∃ tx ty tz status, out.cacheCall = some (.setTilt tx ty tz status) ∧
    TiltShown lib out ⟨tx, ty, tz⟩ status
  | .motor1, out => ∃ tics rpm temp mV mA, out.cacheCall = some (.setMotor 1 tics rpm temp mV mA) ∧
    MotorShown Sim.motor1 motor1Limits out tics rpm temp mV mA
  | .motor2, out => ∃ tics rpm temp mV mA, out.cacheCall = some (.setMotor 2 tics rpm temp mV mA) ∧
    MotorShown Sim.motor2 motor2Limits out tics rpm temp mV mA

theorem Sensor.Reports.call {lib : Libm} {i : Sensor} {out : SensorOutput} (h : i.Reports lib out) :
    ∃ call, out.cacheCall = some call ∧ i.owns call = true := by
  cases i with
  | imu =>
    obtain ⟨ax, ay, az, gx, gy, gz, hcall, -⟩ := h
    exact ⟨_, hcall, rfl⟩
  | tilt =>
    obtain ⟨tx, ty, tz, status, hcall, -⟩ := h
    exact ⟨_, hcall, rfl⟩
  | motor1 | motor2 =>
    obtain ⟨tics, rpm, temp, mV, mA, hcall, -⟩ := h
    exact ⟨_, hcall, rfl⟩

/-- The invariant of the sensors: what a thread has handed on is what the cache has taken from
it or has still in hand, and each iteration reports its own sensor. -/
structure Working (lib : Libm) (s : Sensors) : Prop where
  faithful : Faithful s.sim
  handed : ∀ i, (s.outputs i).map MotorOutput.cacheCall =
    (s.sim.calls.filter i.owns ++ (s.sim.inFlight i).toList).map some
  known : ∀ call ∈ s.sim.calls, ∃ i : Sensor, i.owns call = true
  inFlight : ∀ i call, s.sim.inFlight i = some call → i.owns call = true
  reports : ∀ i, ∀ out ∈ s.outputs i, i.Reports lib out
  fraction1 : s.motor1.Fraction
  fraction2 : s.motor2.Fraction

variable {lib : Libm} {a : SensorArgs} {s s' : Sensors}

namespace Working

theorem init (lib : Libm) : Working lib .init where
  faithful := Faithful.init
  handed i := rfl
  known call h := absurd h List.not_mem_nil
  inFlight i call h := by cases h
  reports i out h := absurd h List.not_mem_nil
  fraction1 := ⟨le_rfl, zero_lt_one⟩
  fraction2 := ⟨le_rfl, zero_lt_one⟩

/-- A step of the threads inside the cache, or of the publisher. -/
theorem inside {sim : Simulation Sensor} {act : SimAction Sensor} (h : Working lib s)
    (hstep : s.sim.step act = some sim) (hcalls : sim.calls = s.sim.calls)
    (hflight : ∀ i, sim.inFlight i = s.sim.inFlight i) : Working lib { s with sim } where
  faithful := h.faithful.step hstep
  handed i := by
    dsimp only
    rw [hcalls, hflight i]
    exact h.handed i
  known := by
    dsimp only
    rw [hcalls]
    exact h.known
  inFlight i call hcall := h.inFlight i call ((hflight i).symm.trans hcall)
  reports := h.reports
  fraction1 := h.fraction1
  fraction2 := h.fraction2

theorem statement {t : Thread Sensor} {sim : Simulation Sensor} (h : Working lib s)
    (hstep : s.sim.step (.statement t) = some sim) : Working lib { s with sim } := by
  obtain ⟨lock, hlock, rfl⟩ := Option.map_eq_some_iff.mp hstep
  exact h.inside hstep rfl fun i => Locked.statement_calls hlock _

theorem ret {i : Sensor} {sim : Simulation Sensor} (h : Working lib s)
    (hstep : s.sim.step (.ret i) = some sim) : Working lib { s with sim } := by
  have hfaithful := h.faithful.step hstep
  obtain ⟨⟨lock, call, r⟩, hlock, rfl⟩ := Option.map_eq_some_iff.mp hstep
  obtain ⟨hin, hout⟩ := Locked.leave_calls hlock
  have howns : i.owns call = true := h.inFlight i call hin
  have hflight : ∀ j, ({ s.sim with lock, calls := s.sim.calls ++ [call] } :
      Simulation Sensor).inFlight j = if j = i then none else s.sim.inFlight j := fun j => by
    rw [Simulation.inFlight, hout]
    simp only [Thread.sensor.injEq]
    rfl
  constructor
  case faithful => exact hfaithful
  case handed =>
    intro j
    rw [h.handed j, hflight j]
    by_cases hj : j = i
    · subst hj
      have hin : s.sim.inFlight j = some call := hin
      simp [hin, howns]
    · have hother : j.owns call = false :=
        Bool.eq_false_of_not_eq_true fun hown => hj (Sensor.owns_unique hown howns)
      simp [hj, hother]
  case known =>
    intro c hc
    rcases List.mem_append.mp hc with hc | hc
    · exact h.known c hc
    · exact ⟨i, by rwa [List.mem_singleton.mp hc]⟩
  case inFlight =>
    intro j c hc
    rw [hflight j] at hc
    split at hc
    next => cases hc
    next => exact h.inFlight j c hc
  case reports => exact h.reports
  case fraction1 => exact h.fraction1
  case fraction2 => exact h.fraction2

/-- The publisher comes and goes: no sensor is inside with another call. -/
theorem publisher {act : SimAction Sensor} {sim : Simulation Sensor} (h : Working lib s)
    (hact : act = .pubGet ∨ act = .pubGot ∨ ∃ timestampNs allocated sent,
      act = .publish timestampNs allocated sent)
    (hstep : s.sim.step act = some sim) : Working lib { s with sim } := by
  rcases hact with rfl | rfl | ⟨timestampNs, allocated, sent, rfl⟩
  · have hsim := hstep
    simp only [Simulation.step] at hsim
    split at hsim
    · obtain ⟨lock, hlock, rfl⟩ := Option.map_eq_some_iff.mp hsim
      exact h.inside hstep rfl fun i => (Locked.enter_calls hlock).2 (.sensor i)
    · cases hsim
  · have hsim := hstep
    obtain ⟨⟨lock, call, r⟩, hlock, rfl⟩ := Option.map_eq_some_iff.mp hsim
    exact h.inside hstep rfl fun i => (Locked.leave_calls hlock).2 (.sensor i)
  · have hsim := hstep
    simp only [Simulation.step] at hsim
    split at hsim
    · split at hsim
      · cases hsim
        exact h.inside hstep rfl fun i => rfl
      · cases hsim
        exact h.inside hstep rfl fun i => rfl
    · cases hsim

/-- A sensor goes to the cache with what its iteration hands on. -/
theorem handOn {i : Sensor} {out : SensorOutput} (h : Working lib s) (hout : i.Reports lib out)
    (hstep : s.handOn i out = some s') : Working lib s' := by
  obtain ⟨call, hcall, howns⟩ := hout.call
  simp only [Sensors.handOn, hcall, Option.bind_eq_bind, Option.bind_eq_some_iff,
    Option.pure_def, Option.some.injEq] at hstep
  obtain ⟨sim, hsim, rfl⟩ := hstep
  have hfaithful := h.faithful.step hsim
  have hset : call.ignored = false := by
    have heffective : call.effective = true := by
      rw [effective_iff_sensor, Sensor.owns_iff.mp howns]
      rfl
    cases call with
    | setMotor => simpa [CacheCall.effective] using heffective
    | _ => rfl
  simp only [Simulation.step, hset, Bool.false_eq_true, if_false] at hsim
  obtain ⟨lock, hlock, rfl⟩ := Option.map_eq_some_iff.mp hsim
  obtain ⟨hfree, hlocked⟩ := Locked.enter_calls hlock
  have hflight : ∀ j, ({ s.sim with lock } : Simulation Sensor).inFlight j =
      if j = i then some call else s.sim.inFlight j := fun j => by
    rw [Simulation.inFlight, hlocked]
    simp only [Thread.sensor.injEq]
    rfl
  have hidle : s.sim.inFlight i = none := by
    rw [Simulation.inFlight, hfree]
    rfl
  constructor
  case faithful => exact hfaithful
  case handed =>
    intro j
    rw [hflight j]
    by_cases hj : j = i
    · subst hj
      have hhanded := h.handed j
      rw [hidle] at hhanded
      simp [hhanded, hcall]
    · simpa [hj] using h.handed j
  case known => exact h.known
  case inFlight =>
    intro j c hc
    rw [hflight j] at hc
    split at hc
    next hj =>
      cases hc
      rwa [hj]
    next => exact h.inFlight j c hc
  case reports =>
    intro j o ho
    by_cases hj : j = i
    · subst hj
      simp only [Function.update_self, List.mem_append, List.mem_singleton] at ho
      rcases ho with ho | rfl
      · exact h.reports j o ho
      · exact hout
    · simp only [Function.update_of_ne hj] at ho
      exact h.reports j o ho
  case fraction1 => exact h.fraction1
  case fraction2 => exact h.fraction2

end Working

/-- The draws of an action. -/
def SensorsAction.AllInUnit : SensorsAction → Prop
  | .imu d => d.AllInUnit
  | .tilt d => d.AllInUnit
  | .motor1 d => d.AllInUnit
  | .motor2 d => d.AllInUnit
  | _ => True

theorem Working.step {act : SensorsAction} (h : Working lib s) (hlib : lib.Bounded)
    (hcache : a.cache = true) (hrate : 1 / 1000 ≤ a.rate) (hact : act.AllInUnit)
    (hstep : s.step lib a act = some s') : Working lib s' := by
  cases act with
  | imu d =>
    obtain ⟨s₁, hhand, rfl⟩ := Option.map_eq_some_iff.mp hstep
    have h₁ := h.handOn (i := .imu) (imuIteration_shown hlib hcache hact s.imuT) hhand
    exact ⟨h₁.faithful, h₁.handed, h₁.known, h₁.inFlight, h₁.reports, h₁.fraction1, h₁.fraction2⟩
  | tilt d =>
    obtain ⟨s₁, hhand, rfl⟩ := Option.map_eq_some_iff.mp hstep
    have h₁ := h.handOn (i := .tilt) (tiltIteration_shown hlib hcache hact s.tiltT) hhand
    exact ⟨h₁.faithful, h₁.handed, h₁.known, h₁.inFlight, h₁.reports, h₁.fraction1, h₁.fraction2⟩
  | motor1 d =>
    obtain ⟨motor, out, tics, rpm, temp, mV, mA, hiter, hfraction, hcall, hshown⟩ :=
      motorIteration_shown (bounded_motor1 hlib) hcache hrate h.fraction1 hact
    simp only [Sensors.step, hiter, Option.bind_eq_bind, Option.bind_some, Option.pure_def,
      Option.bind_eq_some_iff, Option.some.injEq] at hstep
    obtain ⟨s₁, hhand, rfl⟩ := hstep
    have h₁ := h.handOn (i := .motor1) ⟨_, _, _, _, _, hcall, hshown⟩ hhand
    exact ⟨h₁.faithful, h₁.handed, h₁.known, h₁.inFlight, h₁.reports, hfraction, h₁.fraction2⟩
  | motor2 d =>
    obtain ⟨motor, out, tics, rpm, temp, mV, mA, hiter, hfraction, hcall, hshown⟩ :=
      motorIteration_shown (bounded_motor2 hlib) hcache hrate h.fraction2 hact
    simp only [Sensors.step, hiter, Option.bind_eq_bind, Option.bind_some, Option.pure_def,
      Option.bind_eq_some_iff, Option.some.injEq] at hstep
    obtain ⟨s₁, hhand, rfl⟩ := hstep
    have h₁ := h.handOn (i := .motor2) ⟨_, _, _, _, _, hcall, hshown⟩ hhand
    exact ⟨h₁.faithful, h₁.handed, h₁.known, h₁.inFlight, h₁.reports, h₁.fraction1, hfraction⟩
  | statement t =>
    obtain ⟨sim, hsim, rfl⟩ := Option.map_eq_some_iff.mp hstep
    exact h.statement hsim
  | ret i =>
    obtain ⟨sim, hsim, rfl⟩ := Option.map_eq_some_iff.mp hstep
    exact h.ret hsim
  | pubGet =>
    obtain ⟨sim, hsim, rfl⟩ := Option.map_eq_some_iff.mp hstep
    exact h.publisher (.inl rfl) hsim
  | pubGot =>
    obtain ⟨sim, hsim, rfl⟩ := Option.map_eq_some_iff.mp hstep
    exact h.publisher (.inr (.inl rfl)) hsim
  | publish timestampNs allocated sent =>
    obtain ⟨sim, hsim, rfl⟩ := Option.map_eq_some_iff.mp hstep
    exact h.publisher (.inr (.inr ⟨_, _, _, rfl⟩)) hsim

/-! ## The messages -/

/-- A message shows of each sensor the iteration `k i`, counted from one, or for zero what the
cache had before the first one. `done` says that the thread has come that far. -/
structure ShowsIterations (lib : Libm) (outputs : Sensor → List SensorOutput) (k : Sensor → Nat)
    (msg : PbTelemetryState) : Prop where
  done : ∀ i, k i ≤ (outputs i).length
  imu : ∃ accG gyroDps, msg.accG = some accG ∧ msg.gyroDps = some gyroDps ∧
    match ((outputs .imu).take (k .imu)).getLast? with
    | some out => ImuShown lib out accG gyroDps
    | none => accG = .zero ∧ gyroDps = .zero
  tilt : ∃ tiltDeg, msg.tiltDeg = some tiltDeg ∧
    match ((outputs .tilt).take (k .tilt)).getLast? with
    | some out => TiltShown lib out tiltDeg msg.tiltStatus
    | none => tiltDeg = .zero ∧ msg.tiltStatus = 0
  motor1 : ∃ st, msg.motor1 = some st ∧
    match ((outputs .motor1).take (k .motor1)).getLast? with
    | some out => MotorShown Sim.motor1 motor1Limits out st.tics st.rpm st.temperatureC
      st.voltagePowerStageMv st.currentPowerStageMa
    | none => (st.tics, st.rpm, st.temperatureC, st.voltagePowerStageMv,
      st.currentPowerStageMa) = (0, 0, 0, 0, 0)
  motor2 : ∃ st, msg.motor2 = some st ∧
    match ((outputs .motor2).take (k .motor2)).getLast? with
    | some out => MotorShown Sim.motor2 motor2Limits out st.tics st.rpm st.temperatureC
      st.voltagePowerStageMv st.currentPowerStageMa
    | none => (st.tics, st.rpm, st.temperatureC, st.voltagePowerStageMv,
      st.currentPowerStageMa) = (0, 0, 0, 0, 0)
  seq : ∃ header, msg.header = some header ∧
    header.seq = .ofNat (k .imu + k .tilt + k .motor1 + k .motor2)

/-- How many calls of each sensor have returned. -/
def returned (calls : List CacheCall) (i : Sensor) : Nat := (calls.filter i.owns).length

theorem Working.taken {calls : List CacheCall} (h : Working lib s) (hcalls : calls <+: s.sim.calls)
    (i : Sensor) : returned calls i ≤ (s.outputs i).length ∧
      ((s.outputs i).take (returned calls i)).map MotorOutput.cacheCall =
        (calls.filter i.owns).map some := by
  have hpre : (calls.filter i.owns).map some <+: (s.outputs i).map MotorOutput.cacheCall := by
    rw [h.handed i]
    exact ((hcalls.filter _).trans (List.prefix_append _ _)).map _
  constructor
  · simpa [returned] using hpre.length_le
  · rw [List.map_take]
    have htake := List.prefix_iff_eq_take.mp hpre
    rw [List.length_map] at htake
    exact htake.symm

/-- The values of a group are those of the last iteration that is counted. -/
theorem Working.latest_taken {calls : List CacheCall} (h : Working lib s)
    (hcalls : calls <+: s.sim.calls) {α : Type} {set? : CacheCall → Option α} {i : Sensor}
    (hset : ∀ call, (set? call).isSome = i.owns call) (zeros : α) :
    match ((s.outputs i).take (returned calls i)).getLast? with
    | some out => i.Reports lib out ∧
      ∃ call, out.cacheCall = some call ∧ set? call = some (latest set? zeros calls)
    | none => latest set? zeros calls = zeros := by
  obtain ⟨-, htaken⟩ := h.taken hcalls i
  have hlast : ((s.outputs i).take (returned calls i)).getLast?.map MotorOutput.cacheCall =
      (calls.filter i.owns).getLast?.map some := by
    rw [← List.getLast?_map, htaken, List.getLast?_map]
  rw [latest_eq hset]
  cases hout : ((s.outputs i).take (returned calls i)).getLast? with
  | none =>
    rw [hout, Option.map_none] at hlast
    rw [Option.map_eq_none_iff.mp hlast.symm]
    rfl
  | some out =>
    rw [hout, Option.map_some] at hlast
    obtain ⟨call, hcall, hsome⟩ := Option.map_eq_some_iff.mp hlast.symm
    have hmem : call ∈ calls.filter i.owns := List.mem_of_getLast? hcall
    have howns := (List.mem_filter.mp hmem).2
    obtain ⟨v, hv⟩ := Option.isSome_iff_exists.mp ((hset call).trans howns)
    refine ⟨h.reports i out (List.mem_of_mem_take (List.mem_of_getLast? hout)), call, hsome.symm,
      ?_⟩
    rw [hcall, Option.bind_some, hv, Option.getD_some]

theorem imu?_isSome (call : CacheCall) : call.imu?.isSome = Sensor.imu.owns call := by
  cases call with
  | setMotor motorIndex =>
    simp only [CacheCall.imu?, Sensor.owns, CacheCall.sensor?]
    split <;> [skip; split] <;> simp
  | _ => rfl

theorem tilt?_isSome (call : CacheCall) : call.tilt?.isSome = Sensor.tilt.owns call := by
  cases call with
  | setMotor motorIndex =>
    simp only [CacheCall.tilt?, Sensor.owns, CacheCall.sensor?]
    split <;> [skip; split] <;> simp
  | _ => rfl

theorem motor1?_isSome (call : CacheCall) :
    (call.motor? 1).isSome = Sensor.motor1.owns call := by
  cases call with
  | setMotor motorIndex =>
    simp only [CacheCall.motor?, Sensor.owns, CacheCall.sensor?]
    split <;> [skip; split] <;> simp
  | _ => rfl

theorem motor2?_isSome (call : CacheCall) :
    (call.motor? 2).isSome = Sensor.motor2.owns call := by
  cases call with
  | setMotor motorIndex =>
    simp only [CacheCall.motor?, Sensor.owns, CacheCall.sensor?]
    by_cases h1 : motorIndex = 1
    · simp [h1]
    · by_cases h2 : motorIndex = 2 <;> simp [h1, h2]
  | _ => rfl

theorem Working.shows {p : Published} (h : Working lib s) (hp : p ∈ s.sim.published) :
    ShowsIterations lib s.outputs (returned p.before) p.message := by
  obtain ⟨hbefore, timestampNs, hmsg⟩ := h.faithful.published p hp
  have hholds := holds_cacheAfter p.before
  rw [hmsg]
  generalize cacheAfter p.before = r at hholds
  constructor
  case done => exact fun i => (h.taken hbefore i).1
  case imu =>
    have hlast := h.latest_taken hbefore imu?_isSome (Vec3.zero, Vec3.zero)
    rw [← hholds.imu] at hlast
    refine ⟨_, _, rfl, rfl, ?_⟩
    split at hlast
    next out _ =>
      obtain ⟨⟨ax, ay, az, gx, gy, gz, hcall, hshown⟩, call, hcall', hset⟩ := hlast
      obtain rfl := Option.some.inj (hcall.symm.trans hcall')
      cases Option.some.inj hset
      exact hshown
    next => exact Prod.ext_iff.mp hlast
  case tilt =>
    have hlast := h.latest_taken hbefore tilt?_isSome (Vec3.zero, 0)
    rw [← hholds.tilt] at hlast
    refine ⟨_, rfl, ?_⟩
    split at hlast
    next out _ =>
      obtain ⟨⟨tx, ty, tz, status, hcall, hshown⟩, call, hcall', hset⟩ := hlast
      obtain rfl := Option.some.inj (hcall.symm.trans hcall')
      cases Option.some.inj hset
      exact hshown
    next => exact Prod.ext_iff.mp hlast
  case motor1 =>
    have hlast := h.latest_taken hbefore motor1?_isSome (0, 0, 0, 0, 0)
    rw [← hholds.motor1] at hlast
    refine ⟨_, rfl, ?_⟩
    split at hlast
    next out _ =>
      obtain ⟨⟨tics, rpm, temp, mV, mA, hcall, hshown⟩, call, hcall', hset⟩ := hlast
      obtain rfl := Option.some.inj (hcall.symm.trans hcall')
      cases Option.some.inj hset
      exact hshown
    next => exact hlast
  case motor2 =>
    have hlast := h.latest_taken hbefore motor2?_isSome (0, 0, 0, 0, 0)
    rw [← hholds.motor2] at hlast
    refine ⟨_, rfl, ?_⟩
    split at hlast
    next out _ =>
      obtain ⟨⟨tics, rpm, temp, mV, mA, hcall, hshown⟩, call, hcall', hset⟩ := hlast
      obtain rfl := Option.some.inj (hcall.symm.trans hcall')
      cases Option.some.inj hset
      exact hshown
    next => exact hlast
  case seq =>
    refine ⟨_, rfl, hholds.seq.trans (congrArg UInt32.ofNat ?_)⟩
    exact effectiveCalls_eq fun call hcall => h.known call (hbefore.subset hcall)

/-- **A state message says what the topics say.** The four sensor threads and the publisher run
in any interleaving, over exact arithmetic, with a sine and a cosine between -1 and 1, draws in
[0, 1), a cache, and a rate of at least a thousandth of a hertz. For every published message
there is a number `k i` of iterations for each sensor, which no later message falls short of,
and the message shows of sensor `i` the iteration of that number as its own topics show it;
where `k i` is zero, no call of the sensor has reached the cache yet and the message shows
zeros. Its `seq` is the sum of these numbers modulo 2^32. The next iteration of a motor thread,
with any such draws, comes to no undefined conversion. -/
theorem state_agrees_with_topics {as : List SensorsAction} (hlib : lib.Bounded)
    (hcache : a.cache = true) (hrate : 1 / 1000 ≤ a.rate) (has : ∀ act ∈ as, act.AllInUnit)
    (h : exec (Sensors.step lib a) .init as = some s) :
    (∃ ks : List (Sensor → Nat), ks.Pairwise (· ≤ ·) ∧
      List.Forall₂ (ShowsIterations lib s.outputs) ks (s.sim.published.map Published.message)) ∧
    ∀ d : Draws, d.AllInUnit → (motorIteration motor1 lib.sin a d s.motor1).isSome ∧
      (motorIteration motor2 lib.sin a d s.motor2).isSome := by
  have hguard : Guarded (Sensors.step lib a) (fun _ act => act.AllInUnit) .init as :=
    Guarded.of_forall_mem (fun act hact _ => has act hact) _
  have hworking : Working lib s := exec_invariant
    (fun _ _ _ hs hact hstep => hs.step hlib hcache hrate hact hstep) (.init lib) hguard h
  refine ⟨⟨s.sim.published.map fun p => returned p.before, ?_, ?_⟩, fun d hd => ⟨?_, ?_⟩⟩
  · rw [List.pairwise_map]
    refine hworking.faithful.ordered.imp fun hpre i => ?_
    exact (hpre.filter _).length_le
  · rw [List.forall₂_map_left_iff, List.forall₂_map_right_iff, List.forall₂_same]
    exact fun p hp => hworking.shows hp
  · obtain ⟨s', out, _, _, _, _, _, hiter, -⟩ :=
      motorIteration_shown (bounded_motor1 hlib) hcache hrate hworking.fraction1 hd
    rw [hiter]
    rfl
  · obtain ⟨s', out, _, _, _, _, _, hiter, -⟩ :=
      motorIteration_shown (bounded_motor2 hlib) hcache hrate hworking.fraction2 hd
    rw [hiter]
    rfl

/-- The IMU and a motor have been at the cache when it is read. -/
theorem state_agrees_with_topics_once :
    let lib : Libm := ⟨fun _ => 0, fun _ => 1, fun _ => ⟨0⟩⟩
    let as : List SensorsAction := [.imu ⟨0, 0, 0, 0, 0, 0⟩] ++
      List.replicate 7 (.statement (.sensor .imu)) ++ [.ret .imu, .motor1 ⟨0, 0, 0, 0, 0⟩] ++
      List.replicate 6 (.statement (.sensor .motor1)) ++ [.ret .motor1, .pubGet] ++
      List.replicate 10 (.statement .publisher) ++ [.pubGot, .publish 0 true true]
    ∃ s, exec (Sensors.step lib ⟨50, true⟩) .init as = some s ∧ s.sim.published.length = 1 ∧
      ∃ ks : List (Sensor → Nat), ks.Pairwise (· ≤ ·) ∧
        List.Forall₂ (ShowsIterations lib s.outputs) ks
          (s.sim.published.map Published.message) := by
  intro lib as
  have hrun : (exec (Sensors.step lib ⟨50, true⟩) .init as).map
      (fun s => s.sim.published.length) = some 1 := by decide +kernel
  obtain ⟨s, hs, hone⟩ := Option.map_eq_some_iff.mp hrun
  have hlib : lib.Bounded := ⟨fun _ => by norm_num [lib], fun _ => by norm_num [lib]⟩
  have hdraws : ∀ act ∈ as, act.AllInUnit := by
    have hzero : InUnit 0 := ⟨le_rfl, zero_lt_one⟩
    intro act hact
    cases act with
    | imu d =>
      obtain rfl : d = ⟨0, 0, 0, 0, 0, 0⟩ := by simpa [as, List.mem_replicate] using hact
      exact ⟨hzero, hzero, hzero, hzero, hzero, hzero⟩
    | motor1 d =>
      obtain rfl : d = ⟨0, 0, 0, 0, 0⟩ := by simpa [as, List.mem_replicate] using hact
      exact ⟨hzero, hzero, hzero, hzero, hzero⟩
    | tilt | motor2 => simp [as] at hact
    | _ => trivial
  have hrate : 1 / 1000 ≤ MotorArgs.rate ⟨50, true⟩ := by norm_num [MotorArgs.rate]
  exact ⟨s, hs, hone, (state_agrees_with_topics hlib rfl hrate hdraws hs).1⟩

end TelemetryTestbed.Sim
