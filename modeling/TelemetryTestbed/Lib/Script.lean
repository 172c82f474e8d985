import Mathlib.Data.List.Basic

/-!
# Scripts of statements, cut short and run again

A script runs statements one after another on a state that outlives it. Each of them
may fail, which ends the script with an error, and the process may die at any of
them. What is left is the work of the first statements (`Realises`).

Where every statement only ensures something, and no other undoes it, the script can
be run again after it was cut short, and comes to the same end (`runAll_resume`).

The second part is a monad of statements with a fate for each: it succeeds, it fails, or the
process dies there. A run is a program with the fates that its statements meet, so a statement
about all runs quantifies over lists of fates. What a statement does when it fails is nothing,
as of a database statement that is rolled back by itself.
-/

namespace TelemetryTestbed.Lib

variable {σ : Type}

/-! ## Statements -/

/-- The statements one after another, each of which may be refused. -/
def runAll : List (σ → Option σ) → σ → Option σ
  | [], s => some s
  | f :: fs, s => (f s).bind (runAll fs)

theorem runAll_append (fs gs : List (σ → Option σ)) (s : σ) :
    runAll (fs ++ gs) s = (runAll fs s).bind (runAll gs) := by
  induction fs generalizing s with
  | nil => rfl
  | cons f fs ih =>
    rw [List.cons_append, runAll, runAll, Option.bind_assoc]
    exact congrArg (Option.bind (f s)) (funext ih)

/-- What every statement preserves, the script does. -/
theorem runAll_keeps {R : σ → σ → Prop} (hrefl : ∀ s, R s s)
    (htrans : ∀ s t u, R s t → R t u → R s u) {fs : List (σ → Option σ)}
    (h : ∀ f ∈ fs, ∀ s s', f s = some s' → R s s') {s s' : σ} (hrun : runAll fs s = some s') :
    R s s' := by
  induction fs generalizing s with
  | nil =>
    rw [← Option.some.inj hrun]
    exact hrefl s
  | cons f fs ih =>
    obtain ⟨t, ht, hrest⟩ := Option.bind_eq_some_iff.mp hrun
    exact htrans s t s' (h f List.mem_cons_self s t ht)
      (ih (fun g hg => h g (List.mem_cons_of_mem _ hg)) hrest)

/-- Statements that are not refused as long as `I` holds. -/
theorem runAll_total {I : σ → Prop} {fs : List (σ → Option σ)}
    (h : ∀ f ∈ fs, ∀ s, I s → ∃ s', f s = some s' ∧ I s') {s : σ} (hs : I s) :
    ∃ s', runAll fs s = some s' := by
  induction fs generalizing s with
  | nil => exact ⟨s, rfl⟩
  | cons f fs ih =>
    obtain ⟨t, ht, hI⟩ := h f List.mem_cons_self s hs
    obtain ⟨s', hs'⟩ := ih (fun g hg => h g (List.mem_cons_of_mem _ hg)) hI
    refine ⟨s', ?_⟩
    rw [runAll, ht]
    exact hs'

/-- Statements that have nothing to do in a state leave it as it is. -/
theorem runAll_settled {fs : List (σ → Option σ)} {s : σ} (h : ∀ f ∈ fs, f s = some s) :
    runAll fs s = some s := by
  induction fs with
  | nil => rfl
  | cons f fs ih =>
    rw [runAll, h f List.mem_cons_self]
    exact ih fun g hg => h g (List.mem_cons_of_mem _ hg)

/-! ## Resumption -/

/-- Each of the statements ensures something: done again it does nothing, whatever the others
have done since. -/
structure Ensuring (fs : List (σ → Option σ)) : Prop where
  again : ∀ f ∈ fs, ∀ s s', f s = some s' → f s' = some s'
  stable : ∀ f ∈ fs, ∀ g ∈ fs, ∀ s s', f s = some s → g s = some s' → f s' = some s'

/-- The statement brings `P` about, which nothing that follows `R` undoes. -/
structure Ensures (R : σ → σ → Prop) (f : σ → Option σ) (P : σ → Prop) : Prop where
  settled : ∀ s, P s → f s = some s
  does : ∀ s s', f s = some s' → P s' ∧ R s s'
  kept : ∀ s s', R s s' → P s → P s'

theorem Ensuring.of_ensures {fs : List (σ → Option σ)} {R : σ → σ → Prop}
    (h : ∀ f ∈ fs, ∃ P, Ensures R f P) : Ensuring fs where
  again f hf s s' hs := by
    obtain ⟨P, hP⟩ := h f hf
    exact hP.settled s' (hP.does s s' hs).1
  stable f hf g hg s s' hs hg' := by
    obtain ⟨P, hP⟩ := h f hf
    obtain ⟨Q, hQ⟩ := h g hg
    exact hP.settled s' (hP.kept s s' (hQ.does s s' hg').2 (hP.does s s hs).1)

/-- What has been run has nothing left to do. -/
theorem Ensuring.settled {fs : List (σ → Option σ)} (h : Ensuring fs) {s s' : σ}
    (hrun : runAll fs s = some s') : ∀ f ∈ fs, f s' = some s' := by
  induction fs generalizing s with
  | nil =>
    intro f hf
    cases hf
  | cons g fs ih =>
    have htail : Ensuring fs :=
      ⟨fun f hf => h.again f (List.mem_cons_of_mem _ hf), fun f hf g hg =>
        h.stable f (List.mem_cons_of_mem _ hf) g (List.mem_cons_of_mem _ hg)⟩
    obtain ⟨t, ht, hrest⟩ := Option.bind_eq_some_iff.mp hrun
    intro f hf
    rcases List.mem_cons.mp hf with rfl | hf
    · -- the first statement is done in `t`, and stays so through the others
      exact runAll_keeps (R := fun s s' => f s = some s → f s' = some s') (fun _ hs => hs)
        (fun _ _ _ h₁ h₂ hs => h₂ (h₁ hs))
        (fun g hg u u' hu hs => h.stable f List.mem_cons_self g (List.mem_cons_of_mem _ hg) u u' hs hu)
        hrest (h.again f List.mem_cons_self s t ht)
    · exact ih htail hrest f hf

/-- A script that was cut short and is run again comes to the same end. -/
theorem runAll_resume {fs pre : List (σ → Option σ)} (h : Ensuring fs) (hpre : pre <+: fs)
    {s s' : σ} (hrun : runAll pre s = some s') : runAll fs s' = runAll fs s := by
  obtain ⟨post, rfl⟩ := hpre
  have hfirst : Ensuring pre :=
    ⟨fun f hf => h.again f (List.mem_append_left _ hf), fun f hf g hg =>
      h.stable f (List.mem_append_left _ hf) g (List.mem_append_left _ hg)⟩
  rw [runAll_append, runAll_append, hrun, runAll_settled (hfirst.settled hrun)]

/-! ## Scripts -/

/-- What happens to a statement: the database answers it, it fails, or the process dies. -/
inductive Fate
  | answered
  | fails
  | dies

/-- How a script ends before its end: it stops at an error, or the process dies. -/
inductive Stop
  | error
  | died

/-- A script, over what happens to the statements to come. Those after the last one are
answered. -/
abbrev Script (σ α : Type) := EStateM Stop (σ × List Fate) α

/-- Whether the next statement is answered. -/
def ask : Script σ Bool := fun (s, fates) =>
  match fates with
  | [] => .ok true (s, [])
  | .answered :: rest => .ok true (s, rest)
  | .fails :: rest => .ok false (s, rest)
  | .dies :: rest => .error .died (s, rest)

/-- A statement that is answered, unless the state refuses it. -/
def apply (f : σ → Option σ) : Script σ Unit := fun (s, fates) =>
  match f s with
  | some s' => .ok () (s', fates)
  | none => .error .error (s, fates)

def perform (f : σ → Option σ) : Script σ Unit := do
  if ← ask then apply f else throw .error

/-- A question to the state, and what is taken for the answer where it fails. -/
def query {α : Type} (q : σ → α) (otherwise : α) : Script σ α := do
  if ← ask then return q (← get).1 else return otherwise

/-- The script runs the statements in this order, all of them where nothing goes wrong. -/
structure Realises (script : Script σ Unit) (fs : List (σ → Option σ)) : Prop where
  whole : ∀ s s', runAll fs s = some s' → script (s, []) = .ok () (s', [])
  done : ∀ s fates s' rest, script (s, fates) = .ok () (s', rest) → runAll fs s = some s'
  cut : ∀ s fates stop s' rest, script (s, fates) = .error stop (s', rest) →
    ∃ pre, pre <+: fs ∧ runAll pre s = some s'

theorem script_bind {α β : Type} (first : Script σ α) (rest : α → Script σ β)
    (x : σ × List Fate) : (first >>= rest) x =
      match first x with
      | .ok a y => rest a y
      | .error stop y => .error stop y := by
  show EStateM.bind first rest x = _
  unfold EStateM.bind
  cases first x <;> rfl

theorem realises_pure : Realises (pure () : Script σ Unit) [] where
  whole s s' h := by
    cases h
    rfl
  done s fates s' rest h := by
    cases h
    rfl
  cut s fates stop s' rest h := by cases h

theorem Realises.seq {first second : Script σ Unit} {fs gs : List (σ → Option σ)}
    (hfirst : Realises first fs) (hsecond : Realises second gs) :
    Realises (do first; second) (fs ++ gs) := by
  constructor
  · intro s s' h
    rw [runAll_append] at h
    obtain ⟨t, ht, h⟩ := Option.bind_eq_some_iff.mp h
    rw [script_bind, hfirst.whole s t ht]
    exact hsecond.whole t s' h
  · intro s fates s' rest h
    rw [script_bind] at h
    cases hone : first (s, fates) with
    | ok u y =>
      simp only [hone] at h
      rw [runAll_append, hfirst.done s fates y.1 y.2 hone]
      exact hsecond.done y.1 y.2 s' rest h
    | error stop y =>
      simp only [hone] at h
      cases h
  · intro s fates stop s' rest h
    rw [script_bind] at h
    cases hone : first (s, fates) with
    | ok u y =>
      simp only [hone] at h
      obtain ⟨pre, hpre, hrun⟩ := hsecond.cut y.1 y.2 stop s' rest h
      refine ⟨fs ++ pre, (List.prefix_append_right_inj fs).mpr hpre, ?_⟩
      rw [runAll_append, hfirst.done s fates y.1 y.2 hone]
      exact hrun
    | error stop' y =>
      simp only [hone] at h
      cases h
      obtain ⟨pre, hpre, hrun⟩ := hfirst.cut s fates stop s' rest hone
      exact ⟨pre, hpre.trans (List.prefix_append fs gs), hrun⟩

theorem runAll_singleton (f : σ → Option σ) (s : σ) : runAll [f] s = f s := by
  rw [runAll]
  cases f s <;> rfl

/-- A script of one statement, which is done or leaves the state as it was. -/
theorem Realises.of_cases {script : Script σ Unit} {f : σ → Option σ}
    (hnil : ∀ s s', f s = some s' → script (s, []) = .ok () (s', []))
    (hcases : ∀ s fates, (∃ s' rest, script (s, fates) = .ok () (s', rest) ∧ f s = some s') ∨
      ∃ stop rest, script (s, fates) = .error stop (s, rest)) :
    Realises script [f] where
  whole s s' h := hnil s s' (runAll_singleton f s ▸ h)
  done s fates s' rest h := by
    rcases hcases s fates with ⟨t, more, hrun, hf⟩ | ⟨stop, more, hrun⟩
    · rw [hrun] at h
      cases h
      exact (runAll_singleton f s).trans hf
    · rw [hrun] at h
      cases h
  cut s fates stop s' rest h := by
    rcases hcases s fates with ⟨t, more, hrun, hf⟩ | ⟨stop, more, hrun⟩
    · rw [hrun] at h
      cases h
    · rw [hrun] at h
      cases h
      exact ⟨[], List.nil_prefix, rfl⟩

theorem ask_cases (s : σ) (fates : List Fate) :
    (∃ b rest, ask (s, fates) = .ok b (s, rest)) ∨ ∃ rest, ask (s, fates) = .error .died (s, rest) := by
  unfold ask
  rcases fates with _ | ⟨_ | _ | _, rest⟩
  · exact .inl ⟨true, [], rfl⟩
  · exact .inl ⟨true, rest, rfl⟩
  · exact .inl ⟨false, rest, rfl⟩
  · exact .inr ⟨rest, rfl⟩

theorem query_cases {α : Type} (q : σ → α) (otherwise : α) (s : σ) (fates : List Fate) :
    (∃ a rest, query q otherwise (s, fates) = .ok a (s, rest) ∧ (a = q s ∨ a = otherwise)) ∨
      ∃ rest, query q otherwise (s, fates) = .error .died (s, rest) := by
  rw [query, script_bind]
  rcases ask_cases s fates with ⟨b, rest, hask⟩ | ⟨rest, hask⟩
  · rw [hask]
    cases b with
    | true => exact .inl ⟨q s, rest, rfl, .inl rfl⟩
    | false => exact .inl ⟨otherwise, rest, rfl, .inr rfl⟩
  · rw [hask]
    exact .inr ⟨rest, rfl⟩

/-- A statement is done, or the script ends in the state it found. -/
theorem perform_cases (f : σ → Option σ) (s : σ) (fates : List Fate) :
    (∃ s' rest, perform f (s, fates) = .ok () (s', rest) ∧ f s = some s') ∨
      ∃ stop rest, perform f (s, fates) = .error stop (s, rest) := by
  rw [perform, script_bind]
  rcases ask_cases s fates with ⟨b, rest, hask⟩ | ⟨rest, hask⟩
  · rw [hask]
    cases b with
    | true =>
      show (∃ s' rest', apply f (s, rest) = _ ∧ _) ∨ ∃ stop rest', apply f (s, rest) = _
      cases hf : f s with
      | some s' => exact .inl ⟨s', rest, by simp only [apply, hf], rfl⟩
      | none => exact .inr ⟨.error, rest, by simp only [apply, hf]⟩
    | false => exact .inr ⟨.error, rest, rfl⟩
  · rw [hask]
    exact .inr ⟨.died, rest, rfl⟩

theorem perform_nil {f : σ → Option σ} {s s' : σ} (h : f s = some s') :
    perform f (s, []) = .ok () (s', []) := by
  show apply f (s, []) = _
  simp only [apply, h]

theorem realises_perform (f : σ → Option σ) : Realises (perform f) [f] :=
  .of_cases (fun _ _ h => perform_nil h) (perform_cases f)

/-- A loop over a list of statements. -/
theorem realises_forM {α : Type} {script : α → Script σ Unit} {statement : α → σ → Option σ}
    (h : ∀ a, Realises (script a) [statement a]) (as : List α) :
    Realises (as.forM script) (as.map statement) := by
  induction as with
  | nil => exact realises_pure
  | cons a as ih => exact (h a).seq ih

end TelemetryTestbed.Lib
