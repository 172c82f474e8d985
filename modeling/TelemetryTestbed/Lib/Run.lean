import Mathlib.Data.List.Basic

/-!
# Runs of a labelled machine

A machine is a partial step function on a state, labelled by actions: an action
carries the identity of the party that moves and every choice of its
environment, so a run is a list of actions and an interleaving is one such list.

`Guarded` says that every action of a run is taken in a state that meets a
guard. It is the form a condition on runs takes: a predicate of the state before
the step and of the action, never of what the step computes. The rules below
carry an invariant along a guarded run (`exec_invariant`) and, where the guard
is exactly what a property needs, turn the two into an equivalence over the
states a run reaches (`guarded_iff_forall_reached`).

Nothing is assumed of fairness or of time. A statement about every run of a machine is a
statement about every list of actions, and an action that is not enabled ends the list, so
quantifying over lists is quantifying over interleavings.
-/

namespace TelemetryTestbed.Lib

variable {σ α : Type*}

/-- The state a list of actions leads to, if every one of them is enabled. -/
def exec (step : σ → α → Option σ) : σ → List α → Option σ
  | s, [] => some s
  | s, a :: as => (step s a).bind fun s' => exec step s' as

/-- Every action of the run is taken in a state that meets the guard. -/
def Guarded (step : σ → α → Option σ) (guard : σ → α → Prop) : σ → List α → Prop
  | _, [] => True
  | s, a :: as => guard s a ∧ ∀ s', step s a = some s' → Guarded step guard s' as

variable {step : σ → α → Option σ} {guard : σ → α → Prop} {I P : σ → Prop}

theorem exec_cons {s s' : σ} {a : α} {as : List α} (h : exec step s (a :: as) = some s') :
    ∃ m, step s a = some m ∧ exec step m as = some s' := by
  simpa only [exec, Option.bind_eq_some_iff] using h

/-- A run of two parts goes through the state between them. -/
theorem exec_append {s : σ} {as bs : List α} :
    exec step s (as ++ bs) = (exec step s as).bind fun m => exec step m bs := by
  induction as generalizing s with
  | nil => rfl
  | cons a as ih =>
    simp only [List.cons_append, exec]
    cases step s a with
    | none => rfl
    | some m => simp only [Option.bind_some, ih]

theorem exec_trans {s m s' : σ} {as bs : List α} (h : exec step s as = some m)
    (h' : exec step m bs = some s') : exec step s (as ++ bs) = some s' := by
  rw [exec_append, h, Option.bind_some, h']

/-- A guard that every action meets. -/
theorem Guarded.of_forall (h : ∀ s a, guard s a) (s : σ) (as : List α) :
    Guarded step guard s as := by
  induction as generalizing s with
  | nil => trivial
  | cons a as ih => exact ⟨h s a, fun m _ => ih m⟩

/-- A guard that every action of the run meets in any state. -/
theorem Guarded.of_forall_mem {as : List α} (h : ∀ a ∈ as, ∀ s, guard s a) (s : σ) :
    Guarded step guard s as := by
  induction as generalizing s with
  | nil => trivial
  | cons a as ih =>
    obtain ⟨ha, has⟩ := List.forall_mem_cons.mp h
    exact ⟨ha s, fun m _ => ih has m⟩

theorem Guarded.left {s : σ} {as bs : List α} (hg : Guarded step guard s (as ++ bs)) :
    Guarded step guard s as := by
  induction as generalizing s with
  | nil => trivial
  | cons a as ih => exact ⟨hg.1, fun m hm => ih (hg.2 m hm)⟩

theorem Guarded.right {s m : σ} {as bs : List α} (hg : Guarded step guard s (as ++ bs))
    (h : exec step s as = some m) : Guarded step guard m bs := by
  induction as generalizing s with
  | nil =>
    cases h
    exact hg
  | cons a as ih =>
    obtain ⟨r, hr, hrest⟩ := exec_cons h
    exact ih (hg.2 r hr) hrest

/-- A run that meets two guards meets both of them at every step. -/
theorem Guarded.and {guard' : σ → α → Prop} {s : σ} {as : List α}
    (hg : Guarded step guard s as) (hg' : Guarded step guard' s as) :
    Guarded step (fun s a => guard s a ∧ guard' s a) s as := by
  induction as generalizing s with
  | nil => trivial
  | cons a as ih => exact ⟨⟨hg.1, hg'.1⟩, fun m hm => ih (hg.2 m hm) (hg'.2 m hm)⟩

theorem Guarded.append {s : σ} {as bs : List α} (hg : Guarded step guard s as)
    (hrest : ∀ m, exec step s as = some m → Guarded step guard m bs) :
    Guarded step guard s (as ++ bs) := by
  induction as generalizing s with
  | nil => exact hrest s rfl
  | cons a as ih =>
    refine ⟨hg.1, fun m hm => ih (hg.2 m hm) fun r hr => hrest r ?_⟩
    rw [exec, hm, Option.bind_some, hr]

instance decidableGuarded [∀ s a, Decidable (guard s a)] :
    ∀ (s : σ) (as : List α), Decidable (Guarded step guard s as)
  | _, [] => isTrue trivial
  | s, a :: as =>
    have : Decidable (∀ s', step s a = some s' → Guarded step guard s' as) :=
      match step s a with
      | none => isTrue fun _ hs => by cases hs
      | some m =>
        have := decidableGuarded m as
        decidable_of_iff (Guarded step guard m as)
          ⟨fun hm s' hs => Option.some.inj hs ▸ hm, fun hall => hall m rfl⟩
    inferInstanceAs (Decidable (guard s a ∧ _))

/-- An invariant that every guarded step preserves holds in the state a guarded
run reaches. -/
theorem exec_invariant
    (preserved : ∀ s a s', I s → guard s a → step s a = some s' → I s')
    {s s' : σ} {as : List α} (h0 : I s) (hg : Guarded step guard s as)
    (h : exec step s as = some s') : I s' := by
  induction as generalizing s with
  | nil =>
    cases h
    exact h0
  | cons a as ih =>
    obtain ⟨m, hm, hrest⟩ := exec_cons h
    exact ih (preserved s a m h0 hg.1 hm) (hg.2 m hm) hrest

/-- An invariant that every step preserves holds in every state a run reaches. -/
theorem exec_preserves
    (preserved : ∀ s a s', I s → step s a = some s' → I s')
    {s s' : σ} {as : List α} (h0 : I s) (h : exec step s as = some s') : I s' := by
  induction as generalizing s with
  | nil =>
    cases h
    exact h0
  | cons a as ih =>
    obtain ⟨m, hm, hrest⟩ := exec_cons h
    exact ih (preserved s a m h0 hm) hrest

/-- A machine whose every step is matched by a guarded run of another simulates it:
every run of the one is matched by a guarded run of the other. -/
theorem exec_simulates {τ β : Type*} {step' : τ → β → Option τ} {guard' : τ → β → Prop}
    {R : σ → τ → Prop}
    (matched : ∀ s a s' t, R s t → step s a = some s' →
      ∃ bs t', exec step' t bs = some t' ∧ Guarded step' guard' t bs ∧ R s' t')
    {s s' : σ} {t : τ} {as : List α} (h0 : R s t) (h : exec step s as = some s') :
    ∃ bs t', exec step' t bs = some t' ∧ Guarded step' guard' t bs ∧ R s' t' := by
  induction as generalizing s t with
  | nil =>
    cases h
    exact ⟨[], t, rfl, trivial, h0⟩
  | cons a as ih =>
    obtain ⟨m, hm, hrest⟩ := exec_cons h
    obtain ⟨bs, u, hbs, hgbs, hmu⟩ := matched s a m t h0 hm
    obtain ⟨cs, t', hcs, hgcs, ht'⟩ := ih hmu hrest
    refine ⟨bs ++ cs, t', ?_, hgbs.append fun u' hu' => ?_, ht'⟩
    · rw [exec_append, hbs, Option.bind_some, hcs]
    · cases hbs.symm.trans hu'
      exact hgcs

/-- Where an invariant gives the property, guarded steps keep the invariant, and
a step outside the guard breaks the property at once, the runs that meet the
guard are exactly the runs whose reached states all have the property. The scope
is what both sides take for granted of every step. -/
theorem guarded_iff_forall_reached {scope : σ → α → Prop}
    (property : ∀ s, I s → P s)
    (preserved : ∀ s a s', I s → scope s a → guard s a → step s a = some s' → I s')
    (needed : ∀ s a s', I s → scope s a → step s a = some s' → P s' → guard s a)
    {s s' : σ} {as : List α} (h0 : I s) (hs : Guarded step scope s as)
    (h : exec step s as = some s') :
    Guarded step guard s as ↔
      ∀ pre post m, as = pre ++ post → exec step s pre = some m → P m := by
  induction as generalizing s with
  | nil =>
    refine ⟨fun _ pre post m happ hm => ?_, fun _ => trivial⟩
    obtain ⟨rfl, rfl⟩ := List.nil_eq_append_iff.mp happ
    cases hm
    exact property s h0
  | cons a as ih =>
    obtain ⟨m, hm, hrest⟩ := exec_cons h
    constructor
    · intro hg pre post r happ hr
      cases pre with
      | nil =>
        cases hr
        exact property s h0
      | cons b pre =>
        obtain ⟨rfl, hrest'⟩ := List.cons.inj happ
        obtain ⟨m', hm', hr⟩ := exec_cons hr
        cases hm.symm.trans hm'
        exact (ih (preserved s _ m h0 hs.1 hg.1 hm) (hs.2 m hm) hrest).mp (hg.2 m hm)
          pre post r hrest' hr
    · intro hP
      have hstep : exec step s [a] = some m := by
        simp only [exec, hm, Option.bind_some]
      have hguard : guard s a := needed s a m h0 hs.1 hm (hP [a] as m rfl hstep)
      refine ⟨hguard, fun m' hm' => ?_⟩
      cases hm.symm.trans hm'
      apply (ih (preserved s a m h0 hs.1 hguard hm) (hs.2 m hm) hrest).mpr
      intro pre post r happ hr
      apply hP (a :: pre) post r (by rw [happ, List.cons_append])
      simp only [exec, hm, Option.bind_some, hr]

end TelemetryTestbed.Lib
