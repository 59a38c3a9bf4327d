import Mathlib.Data.List.Basic

/-! Finite runs of partial, action-labelled transition systems. A disabled action
stops the run, so a run that ends in a state has taken every one of its actions. -/
namespace Machine
variable {σ τ α : Type*} {step : σ → α → Option σ}

/-- Take the actions in order. -/
def exec (step : σ → α → Option σ) : σ → List α → Option σ
  | s,[] => some s
  | s,a::as => (step s a).bind fun t => exec step t as

@[simp] theorem exec_nil (s : σ) : exec step s [] = some s := rfl

theorem exec_cons_iff {s u : σ} {a : α} {as : List α} :
    exec step s (a::as) = some u ↔ ∃ t, step s a = some t ∧ exec step t as = some u := by
  simp [exec,Option.bind_eq_some_iff]

theorem exec_append_iff {s u : σ} {as bs : List α} :
    exec step s (as++bs) = some u ↔ ∃ t, exec step s as = some t ∧ exec step t bs = some u := by
  induction as generalizing s with
  | nil => simp
  | cons a as ih =>
    simp only [List.cons_append,exec_cons_iff,ih]
    constructor
    · rintro ⟨v,hv,t,ht,hu⟩
      exact ⟨t,⟨v,hv,ht⟩,hu⟩
    · rintro ⟨t,⟨v,hv,ht⟩,hu⟩
      exact ⟨v,hv,t,ht,hu⟩

theorem exec_snoc_iff {s u : σ} {as : List α} {a : α} :
    exec step s (as++[a]) = some u ↔ ∃ t, exec step s as = some t ∧ step t a = some u := by
  simp [exec_append_iff,exec_cons_iff]

/-- Where every action is enabled, every sequence of actions is a run. -/
theorem exec_total (hstep : ∀ s a, ∃ t, step s a = some t) (s : σ) (as : List α) :
    ∃ t, exec step s as = some t := by
  induction as generalizing s with
  | nil => exact ⟨s,rfl⟩
  | cons a as ih =>
    obtain ⟨t,ht⟩ := hstep s a
    obtain ⟨u,hu⟩ := ih t
    exact ⟨u,exec_cons_iff.mpr ⟨t,ht,hu⟩⟩

/-- Every step of a run meets a condition on the state before it and its action. -/
def Throughout (step : σ → α → Option σ) (P : σ → α → Prop) : σ → List α → Prop
  | _,[] => True
  | s,a::as => P s a ∧ ∀ t, step s a = some t → Throughout step P t as

theorem throughout_of_forall {P : σ → α → Prop} {as : List α} (h : ∀ s, ∀ a ∈ as, P s a) (s : σ) :
    Throughout step P s as := by
  induction as generalizing s with
  | nil => trivial
  | cons a as ih =>
    refine ⟨h s a (by simp),fun t _ => ih (fun s b hb => h s b (by simp [hb])) t⟩

theorem Throughout.of_append {P : σ → α → Prop} {s : σ} {as bs : List α}
    (h : Throughout step P s (as++bs)) : Throughout step P s as := by
  induction as generalizing s with
  | nil => trivial
  | cons a as ih => exact ⟨h.1,fun t ht => ih (h.2 t ht)⟩

/-- Splitting a run splits the condition on its steps. -/
theorem throughout_append_iff {P : σ → α → Prop} {s t : σ} {as bs : List α}
    (h : exec step s as = some t) :
    Throughout step P s (as++bs) ↔ Throughout step P s as ∧ Throughout step P t bs := by
  induction as generalizing s with
  | nil =>
    obtain rfl : s = t := by simpa using h
    simp [Throughout]
  | cons a as ih =>
    obtain ⟨v,hv,ht⟩ := exec_cons_iff.mp h
    simp only [List.cons_append,Throughout,hv,Option.some.injEq,forall_eq']
    rw [ih ht,and_assoc]

/-- A property that every conditioned step preserves holds at the end of every
conditioned run. -/
theorem exec_invariant {I : σ → Prop} {P : σ → α → Prop}
    (hstep : ∀ s a t, I s → P s a → step s a = some t → I t)
    {s t : σ} {as : List α} (hs : I s) (hP : Throughout step P s as)
    (h : exec step s as = some t) : I t := by
  induction as generalizing s with
  | nil =>
    obtain rfl : s = t := by simpa using h
    exact hs
  | cons a as ih =>
    obtain ⟨v,hv,ht⟩ := exec_cons_iff.mp h
    exact ih (hstep s a v hs hP.1 hv) (hP.2 v hv) ht

/-- The invariant rule for runs of any steps. -/
theorem exec_preserves {I : σ → Prop} (hstep : ∀ s a t, I s → step s a = some t → I t)
    {s t : σ} {as : List α} (hs : I s) (h : exec step s as = some t) : I t := by
  apply exec_invariant (P := fun _ _ => True) _ hs (throughout_of_forall (fun _ _ _ => trivial) s) h
  intro s a t hs _ h
  exact hstep s a t hs h

/-- What every conditioned step from a state of the invariant does, every step of a
conditioned run does. -/
theorem throughout_of_invariant {I : σ → Prop} {P Q : σ → α → Prop}
    (hstep : ∀ s a t, I s → P s a → step s a = some t → I t)
    (hQ : ∀ s a t, I s → P s a → step s a = some t → Q s a)
    {s t : σ} {as : List α} (hs : I s) (hP : Throughout step P s as)
    (h : exec step s as = some t) : Throughout step Q s as := by
  induction as generalizing s with
  | nil => trivial
  | cons a as ih =>
    obtain ⟨v,hv,ht⟩ := exec_cons_iff.mp h
    refine ⟨hQ s a v hs hP.1 hv,fun w hw => ?_⟩
    obtain rfl : v = w := Option.some.inj (hv.symm.trans hw)
    exact ih (hstep s a v hs hP.1 hv) (hP.2 v hv) ht

/-- What every step from a state of the invariant does, every step of a run does. -/
theorem throughout_preserves {I : σ → Prop} {Q : σ → α → Prop}
    (hstep : ∀ s a t, I s → step s a = some t → I t) (hQ : ∀ s a t, I s → step s a = some t → Q s a)
    {s t : σ} {as : List α} (hs : I s) (h : exec step s as = some t) : Throughout step Q s as := by
  apply throughout_of_invariant (P := fun _ _ => True) _ _ hs
    (throughout_of_forall (fun _ _ _ => trivial) s) h
  · intro s a t hs _ h
    exact hstep s a t hs h
  · intro s a t hs _ h
    exact hQ s a t hs h

theorem Throughout.and {P Q : σ → α → Prop} {s : σ} {as : List α}
    (hP : Throughout step P s as) (hQ : Throughout step Q s as) :
    Throughout step (fun s a => P s a ∧ Q s a) s as := by
  induction as generalizing s with
  | nil => trivial
  | cons a as ih => exact ⟨⟨hP.1,hQ.1⟩,fun t ht => ih (hP.2 t ht) (hQ.2 t ht)⟩

/-- Every state that a run passes through, the first and the last included. -/
def Always (step : σ → α → Option σ) (I : σ → Prop) (s : σ) (as : List α) : Prop :=
  ∀ pre t, pre <+: as → exec step s pre = some t → I t

/-- The invariant rule for every state on the way. -/
theorem always_of_invariant {I : σ → Prop} {P : σ → α → Prop}
    (hstep : ∀ s a t, I s → P s a → step s a = some t → I t)
    {s : σ} {as : List α} (hs : I s) (hP : Throughout step P s as) : Always step I s as := by
  rintro pre t ⟨post,rfl⟩ ht
  exact exec_invariant hstep hs hP.of_append ht

/-- The same for any steps, where the law follows from the invariant. -/
theorem always_preserves {J I : σ → Prop} (hI : ∀ s, J s → I s)
    (hstep : ∀ s a t, J s → step s a = some t → J t) {s : σ} (hs : J s) (as : List α) :
    Always step I s as := by
  intro pre t _ ht
  exact hI t (exec_preserves hstep hs ht)

theorem Always.tail {I : σ → Prop} {s t : σ} {a : α} {as : List α} (h : Always step I s (a::as))
    (ht : step s a = some t) : Always step I t as := by
  intro pre u hpre hu
  exact h (a::pre) u (List.cons_prefix_cons.mpr ⟨rfl,hpre⟩) (exec_cons_iff.mpr ⟨t,ht,hu⟩)

/-- Where the first step off the condition ends in a state off the law, a run keeps to the
law exactly when all its steps keep to the condition. -/
theorem always_iff_throughout {J I : σ → Prop} {P : σ → α → Prop} (hI : ∀ s, J s → I s)
    (hstep : ∀ s a t, J s → P s a → step s a = some t → J t)
    (hbad : ∀ s a t, J s → ¬ P s a → step s a = some t → ¬ I t)
    {s u : σ} {as : List α} (hs : J s) (h : exec step s as = some u) :
    Always step I s as ↔ Throughout step P s as := by
  constructor
  · intro hall
    induction as generalizing s with
    | nil => trivial
    | cons a as ih =>
      obtain ⟨t,ht,hu⟩ := exec_cons_iff.mp h
      have hP : P s a := by
        by_contra hn
        exact hbad s a t hs hn ht (hall [a] t (by simp) (exec_cons_iff.mpr ⟨t,ht,rfl⟩))
      refine ⟨hP,fun v hv => ?_⟩
      obtain rfl : t = v := Option.some.inj (ht.symm.trans hv)
      exact ih (hstep s a t hs hP ht) hu (hall.tail ht)
  · intro hP pre t hpre ht
    exact hI t (always_of_invariant hstep hs hP pre t hpre ht)

/-- A total specification machine that matches every conditioned step matches
every conditioned run. -/
theorem exec_simulation {R : σ → τ → Prop} {P : σ → α → Prop} {spec : τ → α → τ}
    (hstep : ∀ s x a t, R s x → P s a → step s a = some t → R t (spec x a))
    {s t : σ} {x : τ} {as : List α} (hs : R s x) (hP : Throughout step P s as)
    (h : exec step s as = some t) : R t (as.foldl spec x) := by
  induction as generalizing s x with
  | nil =>
    obtain rfl : s = t := by simpa using h
    exact hs
  | cons a as ih =>
    obtain ⟨v,hv,ht⟩ := exec_cons_iff.mp h
    exact ih (hstep s x a v hs hP.1 hv) (hP.2 v hv) ht

end Machine
