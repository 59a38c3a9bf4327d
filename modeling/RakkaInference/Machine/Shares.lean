import Mathlib.Data.Nat.Find
import Mathlib.Order.Lattice
import Mathlib.Order.Monotone.Basic
import Mathlib.Tactic.Choose

/-! A list that is shared out: every item goes to one part, and the parts keep the order. -/
namespace Machine
variable {α τ : Type*}

def SharedOut (items : List α) (parts : List (List α)) : Prop :=
  ∃ tagged : List (α × ℕ), tagged.map Prod.fst = items ∧ (∀ x ∈ tagged, x.2 < parts.length) ∧
    ∀ (j : ℕ) part, parts[j]? = some part → part = (tagged.filter fun x => x.2 = j).map Prod.fst

theorem countP_add_le {p q r : α → Bool} (hp : ∀ x, p x → r x ∧ ¬ q x) (hq : ∀ x, q x → r x) (xs : List α) :
    xs.countP p+xs.countP q ≤ xs.countP r := by
  induction xs with
  | nil => exact Nat.le_refl 0
  | cons x xs ih =>
    simp only [List.countP_cons]
    by_cases hpx : p x
    · obtain ⟨hr,hnq⟩ := hp x hpx
      rw [if_pos hpx,if_pos hr,if_neg hnq]
      omega
    · rw [if_neg hpx]
      by_cases hqx : q x
      · rw [if_pos hqx,if_pos (hq x hqx)]
        omega
      · rw [if_neg hqx]
        omega

/-- A part that picks an item has it as often as the list has. -/
theorem countP_tagged [DecidableEq α] {tagged : List (α × ℕ)} {p : α → Bool} {j : ℕ} {x : α}
    (hpart : (tagged.map Prod.fst).filter p = (tagged.filter fun y => y.2 = j).map Prod.fst) (hpx : p x) :
    tagged.countP (fun y => y.1 = x ∧ y.2 = j) = tagged.countP fun y => y.1 = x := by
  have hleft : tagged.countP (fun y => y.1 = x ∧ y.2 = j) =
      ((tagged.filter fun y => y.2 = j).map Prod.fst).countP (· = x) := by
    rw [List.countP_map,List.countP_filter]
    exact List.countP_congr fun y _ => by simp
  have hright : ((tagged.map Prod.fst).filter p).countP (· = x) = tagged.countP fun y => y.1 = x := by
    rw [List.countP_filter,List.countP_map]
    apply List.countP_congr
    intro y _
    simp only [Function.comp_apply,Bool.and_eq_true,decide_eq_true_eq,and_iff_left_iff_imp]
    rintro rfl
    exact hpx
  rw [hleft,← hpart,hright]

/-- An item that is shared out by picking is picked by one part. -/
theorem SharedOut.existsUnique {items : List α} {ps : List (α → Bool)}
    (h : SharedOut items (ps.map fun p => items.filter p)) {x : α} (hx : x ∈ items) :
    ∃! j : ℕ, ∃ p : α → Bool, ps[j]? = some p ∧ p x := by
  classical
  obtain ⟨tagged,rfl,hlt,hparts⟩ := h
  have hpart : ∀ {j : ℕ} {p : α → Bool}, ps[j]? = some p →
      (tagged.map Prod.fst).filter p = (tagged.filter fun y => y.2 = j).map Prod.fst := by
    intro j p hp
    apply hparts j
    rw [List.getElem?_map,hp,Option.map_some]
  obtain ⟨⟨y,j⟩,hmem,hy⟩ := List.mem_map.mp hx
  obtain rfl : y = x := hy
  have hj := hlt _ hmem
  rw [List.length_map] at hj
  have hp := List.getElem?_eq_getElem hj
  have hpx : ps[j] y := by
    have hin : y ∈ (tagged.filter fun y => y.2 = j).map Prod.fst :=
      List.mem_map_of_mem (List.mem_filter.mpr ⟨hmem,by simp⟩)
    rw [← hpart hp] at hin
    exact (List.mem_filter.mp hin).2
  refine ⟨j,⟨ps[j],hp,hpx⟩,?_⟩
  rintro i ⟨q,hq,hqx⟩
  by_contra hij
  have hle : tagged.countP (fun z => z.1 = y ∧ z.2 = i)+tagged.countP (fun z => z.1 = y ∧ z.2 = j) ≤
      tagged.countP fun z => z.1 = y := countP_add_le (by simp; omega) (by simp) tagged
  have hpos : 0 < tagged.countP fun z => z.1 = y := List.countP_pos_iff.mpr ⟨(y,j),hmem,by simp⟩
  rw [countP_tagged (hpart hq) hqx,countP_tagged (hpart hp) hpx] at hle
  omega

theorem sharedOut_of_existsUnique {items : List α} {ps : List (α → Bool)}
    (h : ∀ x ∈ items, ∃! j : ℕ, ∃ p : α → Bool, ps[j]? = some p ∧ p x) :
    SharedOut items (ps.map fun p => items.filter p) := by
  choose! place hplace hunique using h
  refine ⟨items.map fun x => (x,place x),?_,?_,?_⟩
  · rw [List.map_map]
    exact List.map_id items
  · intro y hy
    obtain ⟨x,hx,rfl⟩ := List.mem_map.mp hy
    obtain ⟨p,hp,-⟩ := hplace x hx
    rw [List.length_map]
    exact (List.getElem?_eq_some_iff.mp hp).1
  · intro j part hpart
    rw [List.getElem?_map] at hpart
    obtain ⟨p,hp,rfl⟩ := Option.map_eq_some_iff.mp hpart
    rw [List.filter_map,List.map_map]
    refine Eq.trans ?_ (List.map_id _).symm
    apply List.filter_congr
    intro x hx
    rw [Bool.eq_iff_iff]
    simp only [Function.comp_apply,decide_eq_true_eq]
    constructor
    · intro hpx
      exact (hunique x hx j ⟨p,hp,hpx⟩).symm
    · rintro rfl
      obtain ⟨q,hq,hqx⟩ := hplace x hx
      rw [Option.some.inj (hp.symm.trans hq)]
      exact hqx

/-- Parts that pick their items share the list out when every item is picked by one of them. -/
theorem sharedOut_filter_iff (items : List α) (ps : List (α → Bool)) :
    SharedOut items (ps.map fun p => items.filter p) ↔
      ∀ x ∈ items, ∃! j : ℕ, ∃ p : α → Bool, ps[j]? = some p ∧ p x :=
  ⟨fun h _ hx => h.existsUnique hx,sharedOut_of_existsUnique⟩

theorem sharedOut_whole (items : List α) : SharedOut items [items] := by
  have hshared := (sharedOut_filter_iff items [fun _ => true]).mpr (by
    intro x _
    refine ⟨0,⟨_,rfl,rfl⟩,?_⟩
    rintro (_ | j) ⟨p,hp,-⟩
    · rfl
    · exact nomatch hp)
  rwa [List.map_singleton,List.filter_eq_self.mpr fun _ _ => rfl] at hshared

/-- Of adjoining intervals exactly one holds another interval, if every edge between them has that
interval on exactly one side, and only then. -/
theorem existsUnique_within_iff [LinearOrder τ] {edge : ℕ → τ} (hedge : Monotone edge) {n : ℕ} {s e : τ}
    (hn : 0 < n) (hs : edge 0 ≤ s) (he : e ≤ edge n) :
    (∃! j, j < n ∧ edge j ≤ s ∧ e ≤ edge (j+1)) ↔ ∀ k, 0 < k → k < n → (e ≤ edge k ↔ ¬ edge k ≤ s) := by
  constructor
  · rintro ⟨j,⟨hj,hlow,hhigh⟩,hunique⟩ k hpos hk
    by_cases hkj : k ≤ j
    · have hks : edge k ≤ s := (hedge hkj).trans hlow
      refine iff_of_false ?_ (not_not.mpr hks)
      intro hek
      obtain ⟨i,rfl⟩ := Nat.exists_eq_succ_of_ne_zero hpos.ne'
      have hsame := hunique i ⟨by omega,(hedge (Nat.le_succ i)).trans hks,hek⟩
      omega
    · have hek : e ≤ edge k := hhigh.trans (hedge (by omega))
      refine iff_of_true hek ?_
      intro hks
      have hsame := hunique k ⟨hk,hks,hek.trans (hedge (Nat.le_succ k))⟩
      omega
  · intro hside
    classical
    -- the first interval that does not end at or before `s`
    have hfirst : ∃ j, ¬ edge (j+1) ≤ s ∨ n ≤ j+1 := ⟨n-1,.inr (by omega)⟩
    have hlow : edge (Nat.find hfirst) ≤ s := by
      cases hj : Nat.find hfirst with
      | zero => exact hs
      | succ j => exact not_not.mp fun h => Nat.find_min hfirst (hj ▸ Nat.lt_succ_self j) (.inl h)
    have hlt : Nat.find hfirst < n := (Nat.find_min' hfirst (.inr (by omega : n ≤ n-1+1))).trans_lt (by omega)
    have hhigh : e ≤ edge (Nat.find hfirst+1) := by
      obtain hend | hlast := Nat.lt_or_ge (Nat.find hfirst+1) n
      · have habove := (Nat.find_spec hfirst).resolve_right (by omega)
        exact (hside _ (Nat.succ_pos _) hend).mpr habove
      · exact he.trans (hedge hlast)
    refine ⟨Nat.find hfirst,⟨hlt,hlow,hhigh⟩,?_⟩
    -- two intervals with `[s,e]` in them have an edge between them that it touches from both sides
    have hdisjoint : ∀ {i j}, i < j → j < n → edge j ≤ s → e ≤ edge (i+1) → False := by
      intro i j hij hj hjs hei
      exact (hside (i+1) (Nat.succ_pos i) (by omega)).mp hei ((hedge hij).trans hjs)
    rintro i ⟨hi,his,hei⟩
    obtain hij | hij | hij := Nat.lt_trichotomy i (Nat.find hfirst)
    · exact (hdisjoint hij hlt hlow hei).elim
    · exact hij
    · exact (hdisjoint hij hi his hhigh).elim

end Machine
