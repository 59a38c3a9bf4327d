import RakkaInference.Machine.Runs

/-! What the steps of a run put out, in order. -/
namespace Machine
variable {σ α β : Type*} {step : σ → α → Option σ} {out : σ → α → List β}

def logged (step : σ → α → Option σ) (out : σ → α → List β) : σ → List α → List β
  | _,[] => []
  | s,a::as => out s a++(step s a).elim [] fun t => logged step out t as

@[simp] theorem logged_nil (s : σ) : logged step out s [] = [] := rfl

theorem logged_cons {s t : σ} {a : α} (h : step s a = some t) (as : List α) :
    logged step out s (a::as) = out s a++logged step out t as := by
  rw [logged,h,Option.elim_some]

theorem logged_append {s t : σ} {as : List α} (h : exec step s as = some t) (bs : List α) :
    logged step out s (as++bs) = logged step out s as++logged step out t bs := by
  induction as generalizing s with
  | nil =>
    obtain rfl : s = t := by simpa using h
    rfl
  | cons a as ih =>
    obtain ⟨u,hu,ht⟩ := exec_cons_iff.mp h
    rw [List.cons_append,logged_cons hu,logged_cons hu,ih ht,List.append_assoc]

/-- Steps that put nothing out leave nothing in the log. -/
theorem logged_eq_nil {s : σ} {as : List α} (h : ∀ t, ∀ a ∈ as, out t a = []) : logged step out s as = [] := by
  induction as generalizing s with
  | nil => rfl
  | cons a as ih =>
    rw [logged,h s a List.mem_cons_self,List.nil_append]
    cases step s a with
    | none => rfl
    | some t => exact ih fun u b hb => h u b (List.mem_cons_of_mem a hb)

/-- What the actions alone say of what is put out. -/
theorem logged_eq_flatMap {f : α → List β} {s t : σ} {as : List α} (h : exec step s as = some t) :
    logged step (fun _ a => f a) s as = as.flatMap f := by
  induction as generalizing s with
  | nil => rfl
  | cons a as ih =>
    obtain ⟨u,hu,ht⟩ := exec_cons_iff.mp h
    rw [logged_cons hu,ih ht,List.flatMap_cons]

/-- The invariant rule for a state together with what has been put out. -/
theorem exec_logged {I : σ → List β → Prop}
    (hstep : ∀ s a t l, I s l → step s a = some t → I t (l++out s a)) {s t : σ} {as : List α} {l : List β}
    (hs : I s l) (h : exec step s as = some t) : I t (l++logged step out s as) := by
  induction as generalizing s l with
  | nil =>
    obtain rfl : s = t := by simpa using h
    rwa [logged_nil,List.append_nil]
  | cons a as ih =>
    obtain ⟨u,hu,ht⟩ := exec_cons_iff.mp h
    rw [logged_cons hu,← List.append_assoc]
    exact ih (hstep s a u l hs hu) ht

/-- The same from a start with nothing put out, for what the actions alone say. -/
theorem exec_flatMap {I : σ → List β → Prop} {f : α → List β}
    (hstep : ∀ s a t l, I s l → step s a = some t → I t (l++f a)) {s t : σ} {as : List α} (hs : I s [])
    (h : exec step s as = some t) : I t (as.flatMap f) := by
  have hlogged := exec_logged hstep hs h
  rwa [List.nil_append,logged_eq_flatMap h] at hlogged

/-- Each entry of the log is as the ones before it ask. -/
def EachAfter (P : List β → β → Prop) (log : List β) : Prop := ∀ pre e post, log = pre++e::post → P pre e

theorem eachAfter_nil {P : List β → β → Prop} : EachAfter P [] := by
  intro pre e post h
  cases pre <;> cases h

theorem EachAfter.append {P : List β → β → Prop} {log l : List β} (h : EachAfter P log)
    (hl : ∀ pre e post, l = pre++e::post → P (log++pre) e) : EachAfter P (log++l) := by
  intro pre e post heq
  rcases List.append_eq_append_iff.mp heq with ⟨mid,rfl,hmid⟩ | ⟨mid,hlog,hpost⟩
  · exact hl mid e post hmid
  · rcases mid with _ | ⟨x,mid⟩
    · rw [List.append_nil] at hlog
      subst hlog
      simpa using hl [] e post hpost.symm
    · obtain ⟨rfl,rfl⟩ := List.cons.inj hpost
      exact h pre e mid hlog

theorem eachAfter_singleton {P : List β → β → Prop} {e : β} (h : P [] e) : EachAfter P [e] := by
  intro pre x post heq
  rcases pre with _ | ⟨y,pre⟩
  · cases heq
    exact h
  · cases pre <;> cases heq

/-- One more entry. -/
theorem EachAfter.concat {P : List β → β → Prop} {log : List β} {e : β} (h : EachAfter P log) (he : P log e) :
    EachAfter P (log++[e]) := by
  refine h.append (eachAfter_singleton (P := fun pre x => P (log++pre) x) ?_)
  rwa [List.append_nil]

end Machine
