import Mathlib.Data.List.Induction

/-! A store as what was last written to each of its keys. -/
namespace Machine
variable {σ ε κ β : Type*} {step : σ → ε → σ} {lookup : σ → κ → Option β} {eff : ε → κ → Option (Option β)}

/-- Each event leaves the value of a key, or replaces it by what it writes there. -/
def Writes (step : σ → ε → σ) (lookup : σ → κ → Option β) (eff : ε → κ → Option (Option β)) : Prop :=
  ∀ s e k, lookup (step s e) k = (eff e k).getD (lookup s k)

/-- The value is the last that was written to the key. -/
def LastWritten (eff : ε → κ → Option (Option β)) (es : List ε) (k : κ) (b : β) : Prop :=
  ∃ pre e post, es = pre++e::post ∧ eff e k = some (some b) ∧ ∀ m ∈ post, eff m k = none

theorem lastWritten_concat_iff {es : List ε} {e : ε} {k : κ} {b : β} : LastWritten eff (es++[e]) k b ↔
    eff e k = some (some b) ∨ eff e k = none ∧ LastWritten eff es k b := by
  constructor
  · rintro ⟨pre,x,post,heq,hx,hpost⟩
    rcases List.eq_nil_or_concat post with rfl | ⟨post,y,rfl⟩
    · obtain ⟨-,he⟩ := List.append_inj' heq rfl
      cases he
      exact .inl hx
    · right
      rw [List.concat_eq_append,← List.cons_append,← List.append_assoc] at heq
      obtain ⟨rfl,he⟩ := List.append_inj' heq rfl
      cases he
      refine ⟨hpost e (by simp),pre,x,post,rfl,hx,fun m hm => hpost m ?_⟩
      rw [List.concat_eq_append]
      exact List.mem_append_left _ hm
  · rintro (he | ⟨he,pre,x,post,rfl,hx,hpost⟩)
    · exact ⟨es,e,[],rfl,he,fun m hm => absurd hm List.not_mem_nil⟩
    · refine ⟨pre,x,post++[e],by rw [List.append_assoc,List.cons_append],hx,?_⟩
      intro m hm
      rcases List.mem_append.mp hm with hm | hm
      · exact hpost m hm
      · rw [List.mem_singleton.mp hm]
        exact he

/-- After any events, an empty store has for each key what was last written to it. -/
theorem Writes.lookup_foldl (hw : Writes step lookup eff) {s : σ} (hs : ∀ k, lookup s k = none) (es : List ε) (k : κ)
    (b : β) : lookup (es.foldl step s) k = some b ↔ LastWritten eff es k b := by
  induction es using List.reverseRecOn with
  | nil =>
    rw [List.foldl_nil,hs]
    constructor
    · intro h
      cases h
    · rintro ⟨pre,e,post,heq,-⟩
      cases pre <;> cases heq
  | append_singleton es e ih =>
    rw [List.foldl_append,List.foldl_cons,List.foldl_nil,hw,lastWritten_concat_iff,← ih]
    cases heff : eff e k with
    | none => simp
    | some o => simp

end Machine
