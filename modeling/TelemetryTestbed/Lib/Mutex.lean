import Mathlib.Logic.Function.Basic
import TelemetryTestbed.Lib.Run

/-!
# Critical sections under one mutex

Threads run sections of statements between lock and unlock. A statement acts on the
shared memory and on the locals of its thread, and any thread that is inside may
take the next step. Only one thread is inside at a time, and a section has the
effect it would have alone, at the moment of its unlock (`Represents.leave`).

The proof of atomicity keeps beside the machine the memory as it was when the section began
(`Represents`): what the running thread has done so far, applied to that memory, is the memory
there is. At the unlock the section as a whole has been applied, and between two sections the
memory is the one that the log of whole sections gives. What runs outside of a section does
not touch the memory.
-/

namespace TelemetryTestbed.Lib

variable {ι γ σ ρ : Type}

abbrev Statement (σ ρ : Type) := σ × ρ → σ × ρ

def runStatements (fs : List (Statement σ ρ)) (x : σ × ρ) : σ × ρ := fs.foldl (fun x f => f x) x

theorem runStatements_append (fs gs : List (Statement σ ρ)) (x : σ × ρ) :
    runStatements (fs ++ gs) x = runStatements gs (runStatements fs x) := List.foldl_append

/-- What a thread does between lock and unlock: statements over the memory and over its own
variables. -/
structure CriticalSection (σ ρ : Type) where
  locals : ρ
  body : List (Statement σ ρ)

/-- A section without anything in between: what it makes of the memory, and its locals at the
end. -/
def CriticalSection.atomic (c : CriticalSection σ ρ) (m : σ) : σ × ρ :=
  runStatements c.body (m, c.locals)

/-- A thread between lock and unlock: the call it makes, its variables, and the statements that
are left. -/
structure Inside (γ σ ρ : Type) where
  call : γ
  locals : ρ
  rest : List (Statement σ ρ)

/-- The memory under a lock, who owns the lock, and the threads inside. -/
structure Locked (ι γ σ ρ : Type) where
  mem : σ
  owner : Option ι
  inside : ι → Option (Inside γ σ ρ)

namespace Locked

def init (m : σ) : Locked ι γ σ ρ := ⟨m, none, fun _ => none⟩

variable [DecidableEq ι] (code : γ → CriticalSection σ ρ)

/-- The lock is taken for a call; it has to wait while there is an owner. -/
def enter (s : Locked ι γ σ ρ) (i : ι) (call : γ) : Option (Locked ι γ σ ρ) :=
  match s.owner, s.inside i with
  | none, none => some { s with
      owner := some i
      inside := Function.update s.inside i (some ⟨call, (code call).locals, (code call).body⟩) }
  | _, _ => none

/-- A thread that is inside runs its next statement, whoever the owner is. -/
def statement (s : Locked ι γ σ ρ) (i : ι) : Option (Locked ι γ σ ρ) :=
  match s.inside i with
  | some ⟨call, r, f :: rest⟩ => some { s with
      mem := (f (s.mem, r)).1
      inside := Function.update s.inside i (some ⟨call, (f (s.mem, r)).2, rest⟩) }
  | _ => none

/-- The lock is given back; the call and its locals. -/
def leave (s : Locked ι γ σ ρ) (i : ι) : Option (Locked ι γ σ ρ × γ × ρ) :=
  match s.inside i with
  | some ⟨call, r, []⟩ =>
    some ({ s with owner := none, inside := Function.update s.inside i none }, call, r)
  | _ => none

end Locked

/-! ## Who is inside -/

section

variable [DecidableEq ι] {code : γ → CriticalSection σ ρ} {s s' : Locked ι γ σ ρ} {i t : ι}
  {x : Inside γ σ ρ}

theorem update_eq_some {β : Type} {f : ι → Option β} {v : Option β} {y : β}
    (h : Function.update f i v t = some y) : t = i ∧ v = some y ∨ f t = some y := by
  by_cases ht : t = i
  · subst ht
    rw [Function.update_self] at h
    exact .inl ⟨rfl, h⟩
  · rw [Function.update_of_ne ht] at h
    exact .inr h

theorem Locked.enter_inside {call : γ} (h : s.enter code i call = some s')
    (hx : s'.inside t = some x) : t = i ∧ x.call = call ∨ s.inside t = some x := by
  unfold Locked.enter at h
  split at h
  · cases h
    rcases update_eq_some hx with ⟨ht, hv⟩ | hx
    · cases hv
      exact .inl ⟨ht, rfl⟩
    · exact .inr hx
  · cases h

theorem Locked.statement_inside (h : s.statement i = some s') (hx : s'.inside t = some x) :
    ∃ y, s.inside t = some y ∧ y.call = x.call := by
  unfold Locked.statement at h
  split at h
  · next call r f rest hinside =>
    cases h
    rcases update_eq_some hx with ⟨rfl, hv⟩ | hx
    · cases hv
      exact ⟨_, hinside, rfl⟩
    · exact ⟨x, hx, rfl⟩
  · cases h

/-- A statement leaves every thread in the call it is in. -/
theorem Locked.statement_calls (h : s.statement i = some s') (t : ι) :
    (s'.inside t).map Inside.call = (s.inside t).map Inside.call := by
  unfold Locked.statement at h
  split at h
  · next call r f rest hinside =>
    cases h
    by_cases ht : t = i
    · subst ht
      simp only [Function.update_self, hinside, Option.map_some]
    · simp only [Function.update_of_ne ht]
  · cases h

theorem Locked.enter_calls {call : γ} (h : s.enter code i call = some s') :
    s.inside i = none ∧ ∀ t, (s'.inside t).map Inside.call =
      if t = i then some call else (s.inside t).map Inside.call := by
  unfold Locked.enter at h
  split at h
  · next _ hout =>
    cases h
    refine ⟨hout, fun t => ?_⟩
    by_cases ht : t = i
    · subst ht
      simp only [Function.update_self, Option.map_some, if_true]
    · simp only [Function.update_of_ne ht, if_neg ht]
  · cases h

theorem Locked.leave_calls {call : γ} {r : ρ} (h : s.leave i = some (s', call, r)) :
    (s.inside i).map Inside.call = some call ∧ ∀ t, (s'.inside t).map Inside.call =
      if t = i then none else (s.inside t).map Inside.call := by
  unfold Locked.leave at h
  split at h
  · next call' r' hinside =>
    cases h
    refine ⟨by rw [hinside, Option.map_some], fun t => ?_⟩
    by_cases ht : t = i
    · subst ht
      simp only [Function.update_self, Option.map_none, if_true]
    · simp only [Function.update_of_ne ht, if_neg ht]
  · cases h

theorem Locked.enter_owner {call : γ} (h : s.enter code i call = some s') : s.owner = none := by
  unfold Locked.enter at h
  split at h
  · next howner _ => exact howner
  · cases h

theorem Locked.leave_owner {call : γ} {r : ρ} (h : s.leave i = some (s', call, r)) :
    s'.owner = none := by
  unfold Locked.leave at h
  split at h
  · cases h
    rfl
  · cases h

theorem Locked.leave_inside {call : γ} {r : ρ} (h : s.leave i = some (s', call, r))
    (hx : s'.inside t = some x) : s.inside t = some x := by
  unfold Locked.leave at h
  split at h
  · cases h
    rcases update_eq_some hx with ⟨-, hv⟩ | hx
    · cases hv
    · exact hx
  · cases h

end

/-! ## Atomicity -/

/-- The memory as the finished sections have left it is `m`: nobody is inside, or the owner
alone is, with the first part of its section done. -/
inductive Represents (code : γ → CriticalSection σ ρ) (s : Locked ι γ σ ρ) (m : σ) : Prop
  | free (howner : s.owner = none) (hnobody : ∀ i, s.inside i = none) (hmem : s.mem = m)
  | held (i : ι) (call : γ) (r : ρ) (done rest : List (Statement σ ρ))
      (howner : s.owner = some i) (hinside : s.inside i = some ⟨call, r, rest⟩)
      (hbody : (code call).body = done ++ rest)
      (hdone : runStatements done (m, (code call).locals) = (s.mem, r))
      (hothers : ∀ j, j ≠ i → s.inside j = none)

variable {code : γ → CriticalSection σ ρ} {s s' : Locked ι γ σ ρ} {m : σ} {i : ι}

theorem represents_init (m : σ) : Represents code (.init m : Locked ι γ σ ρ) m :=
  .free rfl (fun _ => rfl) rfl

/-- Two threads are never inside together. -/
theorem Represents.exclusive (h : Represents code s m) {j : ι} (hi : s.inside i ≠ none)
    (hj : s.inside j ≠ none) : i = j := by
  cases h with
  | free _ hnobody _ => exact absurd (hnobody i) hi
  | held k _ _ _ _ _ _ _ _ hothers =>
    have honly : ∀ l, s.inside l ≠ none → l = k := by
      intro l hl
      by_contra hne
      exact hl (hothers l hne)
    rw [honly i hi, honly j hj]

/-- While the lock is free. -/
theorem Represents.of_owner_eq_none (h : Represents code s m) (hfree : s.owner = none) :
    (∀ i, s.inside i = none) ∧ s.mem = m := by
  cases h with
  | free _ hnobody hmem => exact ⟨hnobody, hmem⟩
  | held _ _ _ _ _ howner => cases hfree.symm.trans howner

/-- What no statement restores, and what holds behind the section that somebody is in, holds
all the way through it. -/
theorem Represents.during {P : σ → Prop} (h : Represents code s m) (hm : P m)
    (hback : ∀ call, ∀ f ∈ (code call).body, ∀ x, P (f x).1 → P x.1)
    (hatomic : ∀ i x, s.inside i = some x → P ((code x.call).atomic m).1) : P s.mem := by
  cases h with
  | free _ _ hmem => exact hmem ▸ hm
  | held i call r done rest _ hinside hbody hdone _ =>
    have hrest : ∀ rest x, (∀ f ∈ rest, f ∈ (code call).body) →
        P (runStatements rest x).1 → P x.1 := by
      intro rest
      induction rest with
      | nil => exact fun _ _ hx => hx
      | cons f rest ih =>
        intro x hmem hx
        have hf := ih (f x) (fun g hg => hmem g (List.mem_cons_of_mem _ hg)) hx
        exact hback call f (hmem f List.mem_cons_self) x hf
    apply hrest rest (s.mem, r)
    · intro f hf
      rw [hbody]
      exact List.mem_append_right _ hf
    · have hend := hatomic i _ hinside
      rw [CriticalSection.atomic, hbody, runStatements_append, hdone] at hend
      exact hend

variable [DecidableEq ι]

theorem Represents.enter {call : γ} (h : Represents code s m)
    (hstep : s.enter code i call = some s') : Represents code s' m := by
  unfold Locked.enter at hstep
  split at hstep
  · next howner hout =>
    cases hstep
    cases h with
    | free _ hnobody hmem =>
      refine .held i call (code call).locals [] (code call).body rfl (Function.update_self ..)
        rfl ?_ ?_
      · show (m, _) = (s.mem, _)
        rw [hmem]
      · intro j hj
        exact (Function.update_of_ne hj ..).trans (hnobody j)
    | held _ _ _ _ _ howned =>
      rw [howner] at howned
      cases howned
  · cases hstep

theorem Represents.statement (h : Represents code s m) (hstep : s.statement i = some s') :
    Represents code s' m := by
  unfold Locked.statement at hstep
  split at hstep
  · next call r f rest hinside =>
    cases hstep
    cases h with
    | free _ hnobody _ =>
      rw [hnobody i] at hinside
      cases hinside
    | held k call' r' done rest' howner hk hbody hdone hothers =>
      have hik : i = k := by
        by_contra hne
        rw [hothers i hne] at hinside
        cases hinside
      subst hik
      rw [hinside] at hk
      cases hk
      refine .held i call _ (done ++ [f]) rest howner (Function.update_self ..) ?_ ?_ ?_
      · rw [hbody, List.append_assoc]
        rfl
      · rw [runStatements_append, hdone]
        rfl
      · intro j hj
        exact (Function.update_of_ne hj ..).trans (hothers j hj)
  · cases hstep

/-- At its unlock a section has done to the memory what it does alone. -/
theorem Represents.leave {call : γ} {r : ρ} (h : Represents code s m)
    (hstep : s.leave i = some (s', call, r)) :
    (∃ rest, s.inside i = some ⟨call, r, rest⟩) ∧ ((code call).atomic m).2 = r ∧
      Represents code s' ((code call).atomic m).1 := by
  unfold Locked.leave at hstep
  split at hstep
  · next call' r' hinside =>
    cases hstep
    cases h with
    | free _ hnobody _ =>
      rw [hnobody i] at hinside
      cases hinside
    | held k _ _ done rest howner hk hbody hdone hothers =>
      have hik : i = k := by
        by_contra hne
        rw [hothers i hne] at hinside
        cases hinside
      subst hik
      rw [hinside] at hk
      cases hk
      rw [List.append_nil] at hbody
      have hatomic : (code call).atomic m = (s.mem, r) := by
        rw [CriticalSection.atomic, hbody, hdone]
      rw [hatomic]
      refine ⟨⟨[], hinside⟩, rfl, .free rfl ?_ rfl⟩
      intro j
      by_cases hj : j = i
      · rw [hj]
        exact Function.update_self ..
      · exact (Function.update_of_ne hj ..).trans (hothers j hj)
  · cases hstep

end TelemetryTestbed.Lib
