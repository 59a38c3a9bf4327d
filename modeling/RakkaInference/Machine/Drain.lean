import RakkaInference.Machine.Runs

/-! Runs that end by themselves. Where every action of a kind takes something off a measure,
runs of such actions are bounded, and every state has a run of them to where none is left. -/
namespace Machine
variable {σ α : Type*} {step : σ → α → Option σ} {I : σ → Prop} {P : α → Prop} {μ : σ → ℕ}

/-- No action of the kind can be taken. -/
def Stuck (step : σ → α → Option σ) (P : α → Prop) (s : σ) : Prop := ∀ a, P a → step s a = none

theorem exec_length_add_le (hI : ∀ s a t, I s → step s a = some t → I t)
    (hμ : ∀ s a t, I s → P a → step s a = some t → μ t < μ s) {s t : σ} {as : List α} (hs : I s)
    (hP : ∀ a ∈ as, P a) (h : exec step s as = some t) : as.length+μ t ≤ μ s := by
  induction as generalizing s with
  | nil =>
    obtain rfl : s = t := by simpa using h
    exact Nat.le_of_eq (Nat.zero_add _)
  | cons a as ih =>
    obtain ⟨u,hu,ht⟩ := exec_cons_iff.mp h
    have hrest := ih (hI s a u hs hu) (fun b hb => hP b (List.mem_cons_of_mem a hb)) ht
    have hless := hμ s a u hs (hP a List.mem_cons_self) hu
    rw [List.length_cons]
    omega

theorem exists_exec_stuck (hI : ∀ s a t, I s → step s a = some t → I t)
    (hμ : ∀ s a t, I s → P a → step s a = some t → μ t < μ s) {s : σ} (hs : I s) :
    ∃ as t, (∀ a ∈ as, P a) ∧ exec step s as = some t ∧ Stuck step P t := by
  induction hn : μ s using Nat.strongRecOn generalizing s with
  | ind n ih =>
    by_cases hstuck : Stuck step P s
    · exact ⟨[],s,by simp,rfl,hstuck⟩
    · simp only [Stuck,not_forall] at hstuck
      obtain ⟨a,ha,hstep⟩ := hstuck
      obtain ⟨t,ht⟩ := Option.ne_none_iff_exists'.mp hstep
      have hless := hμ s a t hs ha ht
      rw [hn] at hless
      obtain ⟨as,u,has,hu,hend⟩ := ih (μ t) hless (hI s a t hs ht) rfl
      refine ⟨a::as,u,?_,exec_cons_iff.mpr ⟨t,ht,hu⟩,hend⟩
      intro b hb
      rcases List.mem_cons.mp hb with rfl | hb
      · exact ha
      · exact has b hb

end Machine
