import TelemetryTestbed.Lib.Window
import TelemetryTestbed.Ui.App

/-!
# One message and the buffer

What the two handlers make of a buffer in order: it stays so exactly if the message
continues it (`faithful_handleTelemetry`, `faithful_handleHistory`). `Order` relates the
samples that have come to the streams of those that will.

The order of a buffer is a chain of neighbours, and both handlers append to it and trim its
front, so the library of windows says when the chain goes on. A reply as long as the buffer
replaces it altogether, which is why such a one need not begin behind the last sample.
-/

namespace TelemetryTestbed.Ui

open TelemetryTestbed.Lib

/-- The buffer holds every sample once, in the order of reception, and `renderLatest`
never goes back. -/
structure App.Faithful (app : App) : Prop where
  once : app.samples.Nodup
  increasing : app.samples.Pairwise (· < ·)
  latest : app.shown.Pairwise (· ≤ ·)

/-- A message continues the buffer: a live frame comes behind its last sample, a reply
that does not fill the buffer begins behind it, and a reply that is shown does not end
before the sample shown last. -/
def App.Fits (app : App) : Message → Prop
  | .telemetry s => app.paused = false → ∀ x ∈ app.samples.getLast?, x < s
  | .history items =>
    (items.length < maxSamples → ∀ x ∈ app.samples.getLast?, ∀ y ∈ items.head?, x < y) ∧
      (app.paused = false → ∀ x ∈ app.shown.getLast?, ∀ y ∈ items.getLast?, x ≤ y)
  | .error => True

instance App.decidableFits (app : App) : ∀ msg, Decidable (app.Fits msg)
  | .telemetry s =>
    inferInstanceAs (Decidable (app.paused = false → ∀ x ∈ app.samples.getLast?, x < s))
  | .history items =>
    inferInstanceAs (Decidable ((items.length < maxSamples →
        ∀ x ∈ app.samples.getLast?, ∀ y ∈ items.head?, x < y) ∧
      (app.paused = false → ∀ x ∈ app.shown.getLast?, ∀ y ∈ items.getLast?, x ≤ y)))
  | .error => .isTrue True.intro

/-! ## The handlers -/

-- the number itself is of no use to unification
attribute [local irreducible] maxSamples

theorem one_lt_maxSamples : 1 < maxSamples := by
  unfold maxSamples
  decide

variable {app : App} {items : List Nat} {s : Nat}

theorem pushSample_eq (app : App) (s : Nat) :
    app.pushSample s = { app with samples := (app.samples ++ [s]).rtake maxSamples } := by
  have hwindow : ∀ l : List Nat,
      (if maxSamples < l.length then l.drop (l.length - maxSamples) else l) = l.rtake maxSamples := by
    intro l
    rw [List.rtake]
    split
    next => rfl
    next h => rw [Nat.sub_eq_zero_of_le (Nat.not_lt.mp h), List.drop_zero]
  rw [App.pushSample, hwindow]

theorem pushSamples_eq (h : items ≠ []) (app : App) :
    items.foldl App.pushSample app =
      { app with samples := (app.samples ++ items).rtake maxSamples } := by
  induction items using List.reverseRecOn with
  | nil => exact absurd rfl h
  | append_singleton items s ih =>
    rw [List.foldl_append, List.foldl_cons, List.foldl_nil]
    by_cases hitems : items = []
    · subst hitems
      exact pushSample_eq app s
    · rw [ih hitems, pushSample_eq, ← List.append_assoc]
      dsimp only
      rw [rtake_rtake_append]

/-- The last sample of the buffer is the last one that came. -/
theorem getLast?_push (h : items ≠ []) (samples : List Nat) :
    ((samples ++ items).rtake maxSamples).getLast? = items.getLast? := by
  rw [getLast?_rtake (Nat.zero_lt_one.trans one_lt_maxSamples),
    List.getLast?_append_of_ne_nil samples h]

theorem handleTelemetry_eq (app : App) (s : Nat) :
    app.handleTelemetry s = if app.paused then app else
      { app with
        samples := (app.samples ++ [s]).rtake maxSamples
        shown := app.shown ++ [s] } := by
  rw [App.handleTelemetry, pushSample_eq]
  rfl

theorem handleHistory_eq {z : Nat} (h : items.getLast? = some z) (app : App) :
    app.handleHistory items =
      { app with
        samples := (app.samples ++ items).rtake maxSamples
        shown := if app.paused then app.shown else app.shown ++ [z] } := by
  have hne : items ≠ [] := by
    rintro rfl
    cases h
  rw [App.handleHistory, pushSamples_eq hne]
  dsimp only
  rw [getLast?_push hne, h]
  dsimp only
  split
  · rfl
  · rfl

/-- An empty reply shows the last sample of the buffer once more. -/
theorem handleHistory_nil (app : App) :
    app.handleHistory [] =
      { app with
        shown := if app.paused then app.shown else app.shown ++ app.samples.getLast?.toList } := by
  rw [App.handleHistory, List.foldl_nil]
  cases app.samples.getLast? with
  | none =>
    simp only [Option.toList_none, List.append_nil, ite_self]
  | some z =>
    dsimp only
    split
    · rfl
    · rfl

/-! ## One message -/

theorem faithful_iff {samples shown : List Nat} {paused : Bool} :
    App.Faithful ⟨paused, samples, shown⟩ ↔
      samples.IsChain (· < ·) ∧ shown.IsChain (· ≤ ·) := by
  rw [List.isChain_iff_pairwise, List.isChain_iff_pairwise]
  constructor
  · intro h
    exact ⟨h.increasing, h.latest⟩
  · rintro ⟨hsamples, hshown⟩
    exact ⟨hsamples.imp Nat.ne_of_lt, hsamples, hshown⟩

/-- Older than all of these. -/
def Below (y : Nat) (l : List Nat) : Prop := ∀ i ∈ l, y < i

/-- What the live frames to come and the newest samples of the replies to come say about
the samples that have come. -/
structure Order (lives tops : List Nat) (app : App) : Prop where
  samples : ∀ y ∈ app.samples, Below y lives ∨ Below y tops
  shown : ∀ x ∈ app.shown, (∃ y ∈ app.samples.getLast?, x ≤ y) ∨ (Below x lives ∧ Below 0 tops)

/-- The number of samples up to the newest one of a reply. -/
def top (items : List Nat) : Nat := (items.getLast?.map (· + 1)).getD 0

variable {lives tops : List Nat}

/-- A live frame that continues the buffer continues what was shown, too. -/
theorem shown_lt_of_continues (ho : Order (s :: lives) tops app)
    (hlast : ∀ x ∈ app.samples.getLast?, x < s) : ∀ x ∈ app.shown, x < s := by
  intro x hx
  obtain ⟨y, hy, hxy⟩ | ⟨hbelow, -⟩ := ho.shown x hx
  · exact hxy.trans_lt (hlast y hy)
  · exact hbelow s List.mem_cons_self

theorem faithful_handleTelemetry (hf : app.Faithful) (ho : Order (s :: lives) tops app) :
    (app.handleTelemetry s).Faithful ↔ app.Fits (.telemetry s) := by
  obtain ⟨paused, samples, shown⟩ := app
  rw [handleTelemetry_eq]
  cases paused with
  | true =>
    rw [if_pos rfl]
    exact ⟨fun _ h => absurd h.symm Bool.false_ne_true, fun _ => hf⟩
  | false =>
    obtain ⟨hsamples, hshown⟩ := faithful_iff.mp hf
    have hone : [s].length < maxSamples := one_lt_maxSamples
    rw [if_neg Bool.false_ne_true, faithful_iff,
      isChain_rtake_append hsamples (List.isChain_singleton s), List.isChain_append]
    constructor
    · rintro ⟨hlast, -⟩ - x hx
      exact hlast hone x hx s rfl
    · intro hlast
      refine ⟨fun _ x hx y hy => ?_, hshown, List.isChain_singleton s, fun x hx y hy => ?_⟩
      · obtain rfl := Option.some.inj hy
        exact hlast rfl x hx
      · obtain rfl := Option.some.inj hy
        exact (shown_lt_of_continues ho (hlast rfl) x (List.mem_of_getLast? hx)).le

theorem order_handleTelemetry (ho : Order (s :: lives) tops app) (hlives : Below s lives)
    (hlast : app.Fits (.telemetry s)) : Order lives tops (app.handleTelemetry s) := by
  have hrest : ∀ y, Below y (s :: lives) → Below y lives := fun y h i hi =>
    h i (List.mem_cons_of_mem s hi)
  rw [handleTelemetry_eq]
  cases hpaused : app.paused with
  | true =>
    rw [if_pos rfl]
    exact ⟨fun y hy => (ho.samples y hy).imp_left (hrest y),
      fun x hx => (ho.shown x hx).imp_right (And.imp_left (hrest x))⟩
  | false =>
    rw [if_neg Bool.false_ne_true]
    constructor
    · intro y hy
      obtain hy | hy := List.mem_append.mp ((rtake_suffix _ _).subset hy)
      · exact (ho.samples y hy).imp_left (hrest y)
      · obtain rfl := List.mem_singleton.mp hy
        exact Or.inl hlives
    · intro x hx
      refine Or.inl ⟨s, ?_, ?_⟩
      · exact getLast?_push (List.cons_ne_nil s []) app.samples
      · obtain hx | hx := List.mem_append.mp hx
        · exact (shown_lt_of_continues ho (hlast hpaused) x hx).le
        · exact (List.mem_singleton.mp hx).le

theorem top_of_getLast? {z : Nat} (h : items.getLast? = some z) : top items = z + 1 := by
  rw [top, h]
  rfl

/-- The samples of a reply are older than its top. -/
theorem lt_top (hitems : items.IsChain (· < ·)) : ∀ y ∈ items, y < top items := by
  intro y hy
  have hle : items.Pairwise (· ≤ ·) := (List.isChain_iff_pairwise.mp hitems).imp Nat.le_of_lt
  obtain ⟨z, hz, hyz⟩ := rel_getLast? Nat.le_refl hle hy
  rw [top_of_getLast? hz]
  exact Nat.lt_succ_of_le hyz

/-- What an empty reply shows was not overtaken by what is shown. -/
theorem shown_le_of_nil (ho : Order lives (top [] :: tops) app) :
    ∀ x ∈ app.shown, ∀ y ∈ app.samples.getLast?, x ≤ y := by
  intro x hx y hy
  obtain ⟨z, hz, hxz⟩ | ⟨-, hzero⟩ := ho.shown x hx
  · rw [Option.mem_unique hy hz]
    exact hxz
  · exact absurd (hzero (top []) List.mem_cons_self) (Nat.lt_irrefl 0)

theorem faithful_handleHistory (hf : app.Faithful) (ho : Order lives (top items :: tops) app)
    (hitems : items.IsChain (· < ·)) :
    (app.handleHistory items).Faithful ↔ app.Fits (.history items) := by
  obtain ⟨paused, samples, shown⟩ := app
  obtain ⟨hsamples, hshown⟩ := faithful_iff.mp hf
  cases hz : items.getLast? with
  | none =>
    obtain rfl := List.getLast?_eq_none_iff.mp hz
    have hnil := shown_le_of_nil ho
    have hnone : ∀ {P : Nat → Prop}, ∀ y ∈ ([] : List Nat).head?, P y := fun y hy => by cases hy
    rw [handleHistory_nil, faithful_iff]
    refine ⟨fun _ => ⟨fun _ _ _ => hnone, fun _ _ _ => hnone⟩, fun _ => ⟨hsamples, ?_⟩⟩
    dsimp only at hnil ⊢
    split
    · exact hshown
    · cases hlast : samples.getLast? with
      | none => rwa [Option.toList_none, List.append_nil]
      | some z =>
        rw [Option.toList_some, List.isChain_append]
        refine ⟨hshown, List.isChain_singleton z, fun x hx y hy => ?_⟩
        obtain rfl := Option.some.inj hy
        exact hnil x (List.mem_of_getLast? hx) z hlast
  | some z =>
    rw [handleHistory_eq hz, faithful_iff, isChain_rtake_append hsamples hitems]
    apply and_congr_right'
    cases paused with
    | true =>
      rw [if_pos rfl]
      exact ⟨fun _ h => absurd h.symm Bool.false_ne_true, fun _ => hshown⟩
    | false =>
      rw [if_neg Bool.false_ne_true, List.isChain_append]
      constructor
      · rintro ⟨-, -, hlast⟩ - x hx y hy
        exact hlast x hx y (hz.symm.trans hy)
      · intro hlast
        refine ⟨hshown, List.isChain_singleton z, fun x hx y hy => ?_⟩
        exact hlast rfl x hx y (hz.trans hy)

theorem order_handleHistory (hf : app.Faithful) (ho : Order lives (top items :: tops) app)
    (hitems : items.IsChain (· < ·)) (htops : ∀ t ∈ tops, top items ≤ t)
    (hlast : app.Fits (.history items)) : Order lives tops (app.handleHistory items) := by
  have hrest : ∀ y, Below y (top items :: tops) → Below y tops := fun y h i hi =>
    h i (List.mem_cons_of_mem _ hi)
  have hbelow : ∀ y, y < top items → Below y tops := fun y h t ht => h.trans_le (htops t ht)
  cases hz : items.getLast? with
  | none =>
    obtain rfl := List.getLast?_eq_none_iff.mp hz
    rw [handleHistory_nil]
    refine ⟨fun y hy => (ho.samples y hy).imp_right (hrest y), fun x hx => ?_⟩
    have hx' : x ∈ app.shown ∨ x ∈ app.samples.getLast? := by
      dsimp only at hx
      split at hx
      · exact Or.inl hx
      · rwa [List.mem_append, Option.mem_toList] at hx
    obtain hx | hx := hx'
    · exact (ho.shown x hx).imp_right (And.imp_right (hrest 0))
    · exact Or.inl ⟨x, hx, le_refl x⟩
  | some z =>
    have hne : items ≠ [] := by
      rintro rfl
      cases hz
    have htop := top_of_getLast? hz
    rw [handleHistory_eq hz]
    constructor
    · intro y hy
      obtain hy | hy := List.mem_append.mp ((rtake_suffix _ _).subset hy)
      · exact (ho.samples y hy).imp_right (hrest y)
      · exact Or.inr (hbelow y (lt_top hitems y hy))
    · intro x hx
      dsimp only at hx
      cases hpaused : app.paused with
      | true =>
        rw [if_pos hpaused] at hx
        have hzero : Below 0 tops := hbelow 0 (htop ▸ Nat.succ_pos z)
        obtain ⟨y, hy, hxy⟩ | ⟨hlives, -⟩ := ho.shown x hx
        · obtain hlives | htops' := ho.samples y (List.mem_of_getLast? hy)
          · exact Or.inr ⟨fun i hi => hxy.trans_lt (hlives i hi), hzero⟩
          · have hyz : y < z + 1 := htop ▸ htops' (top items) List.mem_cons_self
            exact Or.inl ⟨z, (getLast?_push hne app.samples).trans hz, hxy.trans (Nat.le_of_lt_succ hyz)⟩
        · exact Or.inr ⟨hlives, hzero⟩
      | false =>
        rw [if_neg (by rw [hpaused]; exact Bool.false_ne_true)] at hx
        refine Or.inl ⟨z, (getLast?_push hne app.samples).trans hz, ?_⟩
        obtain hx | hx := List.mem_append.mp hx
        · obtain ⟨w, hw, hxw⟩ := rel_getLast? Nat.le_refl hf.latest hx
          exact hxw.trans (hlast.2 hpaused w hw z hz)
        · exact (List.mem_singleton.mp hx).le

end TelemetryTestbed.Ui
