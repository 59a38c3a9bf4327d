import Mathlib.Order.Lattice

/-! The least item of a list under a comparison of keys that some items do not have. -/
namespace Machine
variable {α κ : Type*}

/-- The later item is kept only where it is the lesser one. -/
def keepLeast (cmp : α → α → Ordering) (x y : α) : α :=
  match cmp x y with
  | .gt => y
  | _ => x

def minBy (cmp : α → α → Ordering) : List α → Option α
  | [] => none
  | x::xs => some (xs.foldl (keepLeast cmp) x)

theorem minBy_eq_none_iff {cmp : α → α → Ordering} {xs : List α} : minBy cmp xs = none ↔ xs = [] := by
  cases xs with
  | nil => exact ⟨fun _ => rfl,fun _ => rfl⟩
  | cons x xs => exact ⟨nofun,nofun⟩

variable [LinearOrder κ] {key : α → Option κ} {x y r : α} {xs : List α} {a : κ}

/-- A key that is missing cannot be compared. -/
def partialCmp : Option κ → Option κ → Option Ordering
  | some a,some b => some (compare a b)
  | _,_ => none

/-- Items that cannot be compared count as equal. -/
def cmpBy (key : α → Option κ) (x y : α) : Ordering := (partialCmp (key x) (key y)).getD .eq

theorem cmpBy_of_none (hx : key x = none) : cmpBy key x y = .eq := by
  unfold cmpBy
  rw [hx]
  rfl

theorem keepLeast_of_none (hx : key x = none) : keepLeast (cmpBy key) x y = x := by
  unfold keepLeast
  rw [cmpBy_of_none hx]

theorem keepLeast_mem : keepLeast (cmpBy key) x y = x ∨ keepLeast (cmpBy key) x y = y := by
  unfold keepLeast
  split
  · exact .inr rfl
  · exact .inl rfl

/-- Once there is a key the kept item has one, and it only gets less. -/
theorem keepLeast_of_some (hx : key x = some a) :
    ∃ b, key (keepLeast (cmpBy key) x y) = some b ∧ b ≤ a ∧ ∀ c, key y = some c → b ≤ c := by
  cases hy : key y with
  | none =>
    have hcmp : cmpBy key x y = .eq := by
      unfold cmpBy
      rw [hx,hy]
      rfl
    unfold keepLeast
    rw [hcmp]
    exact ⟨a,hx,le_rfl,nofun⟩
  | some c =>
    have hcmp : cmpBy key x y = compare a c := by
      unfold cmpBy
      rw [hx,hy]
      rfl
    unfold keepLeast
    rw [hcmp]
    split
    case h_1 hgt =>
      have hlt := compare_gt_iff_gt.mp hgt
      refine ⟨c,hy,hlt.le,?_⟩
      intro c' hc'
      exact (Option.some.inj hc').le
    case h_2 hgt =>
      have hle := le_of_not_gt fun hlt => hgt (compare_gt_iff_gt.mpr hlt)
      refine ⟨a,hx,le_rfl,?_⟩
      intro c' hc'
      exact hle.trans_eq (Option.some.inj hc')

theorem foldl_keepLeast_of_none (hx : key x = none) (xs : List α) : xs.foldl (keepLeast (cmpBy key)) x = x := by
  induction xs with
  | nil => rfl
  | cons y xs ih => rw [List.foldl_cons,keepLeast_of_none hx,ih]

theorem foldl_keepLeast_mem (xs : List α) : ∀ x, xs.foldl (keepLeast (cmpBy key)) x ∈ x::xs := by
  induction xs with
  | nil => exact fun x => List.mem_cons_self
  | cons y xs ih =>
    intro x
    have hmem := ih (keepLeast (cmpBy key) x y)
    rw [List.mem_cons] at hmem
    rw [List.foldl_cons,List.mem_cons,List.mem_cons]
    cases hmem with
    | inl heq =>
      rw [heq]
      exact keepLeast_mem.imp_right .inl
    | inr hrest => exact .inr (.inr hrest)

theorem foldl_keepLeast_of_some (xs : List α) : ∀ x a, key x = some a →
    ∃ b, key (xs.foldl (keepLeast (cmpBy key)) x) = some b ∧ ∀ y ∈ x::xs, ∀ c, key y = some c → b ≤ c := by
  induction xs with
  | nil =>
    intro x a hx
    refine ⟨a,hx,?_⟩
    intro y hy c hc
    rw [List.mem_singleton.mp hy,hx] at hc
    exact (Option.some.inj hc).le
  | cons y xs ih =>
    intro x a hx
    obtain ⟨b,hb,hba,hby⟩ := keepLeast_of_some (y := y) hx
    obtain ⟨c,hc,hleast⟩ := ih _ b hb
    rw [List.forall_mem_cons] at hleast
    have hcb := hleast.1 b hb
    refine ⟨c,hc,?_⟩
    rw [List.forall_mem_cons,List.forall_mem_cons]
    refine ⟨?_,?_,hleast.2⟩
    · intro d hd
      exact hcb.trans (hba.trans_eq (Option.some.inj (hx.symm.trans hd)))
    · intro d hd
      exact hcb.trans (hby d hd)

theorem mem_of_minBy (h : minBy (cmpBy key) xs = some r) : r ∈ xs := by
  cases xs with
  | nil => exact nomatch h
  | cons x xs =>
    obtain rfl := Option.some.inj h
    exact foldl_keepLeast_mem xs x

/-- The item has a key, and no other key is less. -/
def LeastKey (key : α → Option κ) (xs : List α) (r : α) : Prop :=
  ∃ a, key r = some a ∧ ∀ y ∈ xs, ∀ b, key y = some b → a ≤ b

/-- The first item decides: the least one is found exactly where the first one has a key, or none has. -/
theorem minBy_leastKey_iff (h : minBy (cmpBy key) xs = some r) :
    ((∃ y ∈ xs, key y ≠ none) → LeastKey key xs r) ↔ ∀ x ∈ xs.head?, key x = none → ∀ y ∈ xs, key y = none := by
  cases xs with
  | nil => exact nomatch h
  | cons x xs =>
    obtain rfl := Option.some.inj h
    have hhead : ∀ p : α → Prop, (∀ z ∈ (x::xs).head?, p z) ↔ p x := by
      intro p
      constructor
      · exact fun hall => hall x rfl
      · intro hp z hz
        rwa [← Option.some.inj hz]
    rw [hhead]
    cases hx : key x with
    | none =>
      rw [foldl_keepLeast_of_none hx]
      constructor
      · intro hleast _ y hy
        by_contra hne
        obtain ⟨a,ha,-⟩ := hleast ⟨y,hy,hne⟩
        exact nomatch hx.symm.trans ha
      · intro hnone hsome
        obtain ⟨y,hy,hne⟩ := hsome
        exact absurd (hnone rfl y hy) hne
    | some a =>
      constructor
      · exact fun _ hnone => nomatch hnone
      · exact fun _ _ => foldl_keepLeast_of_some xs x a hx

end Machine
