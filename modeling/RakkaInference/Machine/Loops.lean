import Mathlib.Data.Nat.Init
import Mathlib.Logic.Relation

/-! Loops whose body panics, goes round again with a new state, or returns. -/
namespace Machine
variable {σ ρ τ : Type*}

/-- How a loop ends that is run for a number of rounds. -/
inductive Ended (ρ : Type*) where
  | panicked
  | exhausted
  | returned (r : ρ)

def Ended.map (f : ρ → τ) : Ended ρ → Ended τ
  | .panicked => .panicked
  | .exhausted => .exhausted
  | .returned r => .returned (f r)

def Ended.bind (f : ρ → Ended τ) : Ended ρ → Ended τ
  | .panicked => .panicked
  | .exhausted => .exhausted
  | .returned r => f r

def loop (body : σ → Option (σ ⊕ ρ)) : ℕ → σ → Ended ρ
  | 0,_ => .exhausted
  | fuel+1,s =>
    match body s with
    | none => .panicked
    | some (.inl t) => loop body fuel t
    | some (.inr r) => .returned r

/-- The loop comes from one state to another. -/
def Rounds (body : σ → Option (σ ⊕ ρ)) : σ → σ → Prop :=
  Relation.ReflTransGen fun s t => body s = some (.inl t)

variable {body : σ → Option (σ ⊕ ρ)} {s t : σ} {r : ρ} {I : σ → Prop}

theorem Rounds.invariant (hbody : ∀ s t, I s → body s = some (.inl t) → I t) (h : Rounds body s t) (hs : I s) :
    I t := by
  induction h with
  | refl => exact hs
  | tail _ hstep ih => exact hbody _ _ ih hstep

theorem loop_return (h : body s = some (.inr r)) : ∀ fuel, 0 < fuel → loop body fuel s = .returned r := by
  intro fuel hfuel
  cases fuel with
  | zero => exact nomatch hfuel
  | succ fuel => simp only [loop,h]

theorem loop_panic (h : body s = none) : ∀ fuel, 0 < fuel → loop body fuel s = .panicked := by
  intro fuel hfuel
  cases fuel with
  | zero => exact nomatch hfuel
  | succ fuel => simp only [loop,h]

theorem loop_round {n : ℕ} {e : Ended ρ} (h : body s = some (.inl t))
    (ht : ∀ fuel, n < fuel → loop body fuel t = e) : ∀ fuel, n+1 < fuel → loop body fuel s = e := by
  intro fuel hfuel
  cases fuel with
  | zero => exact nomatch hfuel
  | succ fuel =>
    simp only [loop,h]
    exact ht fuel (Nat.lt_of_succ_lt_succ hfuel)

theorem loop_of_rounds (h : Rounds body s t) (ht : body t = some (.inr r)) :
    ∃ n, ∀ fuel, n < fuel → loop body fuel s = .returned r := by
  induction h using Relation.ReflTransGen.head_induction_on with
  | refl => exact ⟨0,loop_return ht⟩
  | head hstep _ ih =>
    obtain ⟨n,hn⟩ := ih
    exact ⟨n+1,loop_round hstep hn⟩

/-- A body that brings a measure down whenever it goes round comes to a last state. -/
theorem loop_ends (m : σ → ℕ) (hbody : ∀ s t, I s → body s = some (.inl t) → I t ∧ m t < m s) (hs : I s) :
    ∃ t, Rounds body s t ∧ I t ∧
      ((body t = none ∧ ∀ fuel, m s < fuel → loop body fuel s = .panicked) ∨
        ∃ r, body t = some (.inr r) ∧ ∀ fuel, m s < fuel → loop body fuel s = .returned r) := by
  induction hm : m s using Nat.strong_induction_on generalizing s with
  | _ n ih =>
    subst hm
    cases hx : body s with
    | none => exact ⟨s,.refl,hs,.inl ⟨hx,fun fuel hfuel => loop_panic hx fuel (Nat.zero_lt_of_lt hfuel)⟩⟩
    | some x =>
      cases x with
      | inr r => exact ⟨s,.refl,hs,.inr ⟨r,hx,fun fuel hfuel => loop_return hx fuel (Nat.zero_lt_of_lt hfuel)⟩⟩
      | inl t =>
        obtain ⟨ht,hlt⟩ := hbody s t hs hx
        obtain ⟨u,htu,hu,hend⟩ := ih (m t) hlt ht rfl
        refine ⟨u,.head hx htu,hu,?_⟩
        obtain ⟨hnone,hloop⟩ | ⟨r,hr,hloop⟩ := hend
        · exact .inl ⟨hnone,fun fuel hfuel => loop_round hx hloop fuel (Nat.lt_of_le_of_lt hlt hfuel)⟩
        · exact .inr ⟨r,hr,fun fuel hfuel => loop_round hx hloop fuel (Nat.lt_of_le_of_lt hlt hfuel)⟩

/-- If it never panics it returns. -/
theorem loop_returns (m : σ → ℕ)
    (hbody : ∀ s, I s → ∃ x, body s = some x ∧ ∀ t, x = .inl t → I t ∧ m t < m s) (hs : I s) :
    ∃ t r, Rounds body s t ∧ I t ∧ body t = some (.inr r) ∧ ∀ fuel, m s < fuel → loop body fuel s = .returned r := by
  have hround : ∀ s t, I s → body s = some (.inl t) → I t ∧ m t < m s := by
    intro s t hs hst
    obtain ⟨x,hx,hon⟩ := hbody s hs
    exact hon t (Option.some.inj (hx.symm.trans hst))
  obtain ⟨t,hst,ht,⟨hnone,-⟩ | ⟨r,hr,hloop⟩⟩ := loop_ends m hround hs
  · obtain ⟨x,hx,-⟩ := hbody t ht
    exact nomatch hnone.symm.trans hx
  · exact ⟨t,r,hst,ht,hr,hloop⟩

end Machine
