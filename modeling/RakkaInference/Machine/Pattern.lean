import Mathlib.Data.List.Forall2
import Mathlib.Data.List.Infix

/-! Patterns of pieces in a row, where each piece takes a part of the text. -/
namespace Machine
variable {α : Type*}

/-- A word of some words, an item that may be left out, or a run of items. -/
inductive Piece (α : Type*)
  | oneOf (words : List (List α))
  | optional (items : List α)
  | many (p : α → Bool)

namespace Piece

def Takes : Piece α → List α → Prop
  | oneOf words,w => w ∈ words
  | optional items,w => w = [] ∨ ∃ c ∈ items, w = [c]
  | many p,w => w ≠ [] ∧ ∀ c ∈ w, p c

/-- The pieces take the parts of a text one by one. -/
def Spells (ps : List (Piece α)) (ws : List (List α)) (s : List α) : Prop :=
  List.Forall₂ Takes ps ws ∧ ws.flatten = s

variable [DecidableEq α]

/-- The parts a piece can take from the start of a text, and which of them it tries first. -/
def candidates : Piece α → List α → List (List α)
  | oneOf words,s => words.filter (·.isPrefixOf s)
  | optional _,[] => [[]]
  | optional items,c::_ => if c ∈ items then [[c],[]] else [[]]
  | many p,s => ((s.takeWhile p).inits.filter (· ≠ [])).reverse

/-- The first way to split a text. -/
def split : List (Piece α) → List α → Option (List (List α))
  | [],s => if s = [] then some [] else none
  | p::ps,s => (p.candidates s).findSome? fun w => (split ps (s.drop w.length)).map (w::·)

variable {p : Piece α} {ps : List (Piece α)} {s w : List α} {ws : List (List α)}

theorem mem_candidates_iff : w ∈ p.candidates s ↔ p.Takes w ∧ w <+: s := by
  cases p with
  | oneOf words => rw [candidates,List.mem_filter,List.isPrefixOf_iff_prefix,Takes]
  | optional items =>
    cases s with
    | nil =>
      rw [candidates,List.mem_singleton,List.prefix_nil,Takes]
      exact ⟨fun h => ⟨.inl h,h⟩,fun h => h.2⟩
    | cons c s =>
      rw [candidates,Takes]
      constructor
      · intro h
        split at h
        case isTrue hc =>
          rw [List.mem_pair] at h
          cases h with
          | inl hw =>
            rw [hw]
            exact ⟨.inr ⟨c,hc,rfl⟩,[c].prefix_append s⟩
          | inr hw => exact ⟨.inl hw,hw ▸ List.nil_prefix⟩
        case isFalse =>
          have hw := List.mem_singleton.mp h
          exact ⟨.inl hw,hw ▸ List.nil_prefix⟩
      · rintro ⟨rfl | ⟨d,hd,rfl⟩,hstart⟩
        · split <;> simp
        · obtain ⟨rfl,-⟩ := List.cons_prefix_cons.mp hstart
          rw [if_pos hd]
          exact List.mem_cons_self
  | many p =>
    rw [candidates,List.mem_reverse,List.mem_filter,List.mem_inits,Takes,decide_eq_true_iff]
    constructor
    · intro h
      have hall : ∀ c ∈ w, p c := fun c hc => List.all_eq_true.mp List.all_takeWhile c (h.1.subset hc)
      exact ⟨⟨h.2,hall⟩,h.1.trans (List.takeWhile_prefix p)⟩
    · rintro ⟨⟨hne,hall⟩,t,rfl⟩
      rw [List.takeWhile_append_of_pos hall]
      exact ⟨List.prefix_append _ _,hne⟩

theorem split_spells (h : split ps s = some ws) : Spells ps ws s := by
  induction ps generalizing s ws with
  | nil =>
    rw [split,Option.ite_none_right_eq_some] at h
    obtain ⟨rfl,hws⟩ := h
    obtain rfl := Option.some.inj hws
    exact ⟨.nil,rfl⟩
  | cons p ps ih =>
    obtain ⟨w,hw,hrest⟩ := List.exists_of_findSome?_eq_some h
    obtain ⟨ws',hws',rfl⟩ := Option.map_eq_some_iff.mp hrest
    obtain ⟨htakes,hstart⟩ := mem_candidates_iff.mp hw
    obtain ⟨hall,hflat⟩ := ih hws'
    refine ⟨.cons htakes hall,?_⟩
    rw [List.flatten_cons,hflat]
    exact (List.prefix_append_drop hstart).symm

theorem split_of_spells (h : Spells ps ws s) : ∃ ws', split ps s = some ws' := by
  obtain ⟨hall,rfl⟩ := h
  induction hall with
  | nil => exact ⟨[],rfl⟩
  | @cons p w ps ws htakes hall ih =>
    obtain ⟨ws',hws'⟩ := ih
    have hw : w ∈ p.candidates (w::ws).flatten := mem_candidates_iff.mpr ⟨htakes,List.prefix_append _ _⟩
    rw [← Option.isSome_iff_exists,split,List.findSome?_isSome_iff]
    refine ⟨w,hw,?_⟩
    rw [List.flatten_cons,List.drop_left,hws']
    rfl

end Piece

variable {p : α → Bool} {a b d a' b' d' : List α}

theorem takeWhile_run (ha : ∀ c ∈ a, p c) (hb : ∀ c ∈ b.head?, p c = false) : (a++b).takeWhile p = a := by
  rw [List.takeWhile_append_of_pos ha]
  cases b with
  | nil => exact List.append_nil a
  | cons c b => rw [List.takeWhile_cons_of_neg (by simp [hb c rfl]),List.append_nil]

/-- There is only one run of a class in a text. -/
theorem run_unique (ha : ∀ c ∈ a, p c = false) (hd : d ≠ []) (hdp : ∀ c ∈ d, p c) (hb : ∀ c ∈ b, p c = false)
    (ha' : ∀ c ∈ a', p c = false) (hd' : d' ≠ []) (hdp' : ∀ c ∈ d', p c) (hb' : ∀ c ∈ b', p c = false)
    (h : a++(d++b) = a'++(d'++b')) : a = a' ∧ d = d' ∧ b = b' := by
  have hhead : ∀ {d b : List α}, d ≠ [] → (∀ c ∈ d, p c) → ∀ c ∈ (d++b).head?, (!p c) = false := by
    intro d b hne hall c hc
    rw [List.head?_append_of_ne_nil _ hne] at hc
    rw [hall c (List.mem_of_head? hc)]
    rfl
  have hbefore : a = a' := by
    have hrun := takeWhile_run (p := fun c => !p c) (fun c hc => by rw [ha c hc]; rfl) (hhead (b := b) hd hdp)
    have hrun' := takeWhile_run (p := fun c => !p c) (fun c hc => by rw [ha' c hc]; rfl) (hhead (b := b') hd' hdp')
    rw [← hrun,h,hrun']
  subst hbefore
  have hrest := List.append_cancel_left h
  have hdigits : d = d' := by
    have hrun := takeWhile_run hdp fun c hc => hb c (List.mem_of_head? hc)
    have hrun' := takeWhile_run hdp' fun c hc => hb' c (List.mem_of_head? hc)
    rw [← hrun,hrest,hrun']
  subst hdigits
  exact ⟨rfl,rfl,List.append_cancel_left hrest⟩

end Machine
