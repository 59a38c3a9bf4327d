import RakkaInference.Machine.Text

/-! The search for a quoted key in a text of quoted keys. -/
namespace Machine
variable {α : Type*} [DecidableEq α] {pat s t : List α}

/-- No occurrence starts in the text, whatever comes after it. -/
def Skips (pat s : List α) : Prop := ∀ rest, find pat (s++rest) = (find pat rest).map (·+s.length)

theorem skips_nil : Skips pat [] := by
  intro rest
  rw [List.nil_append,List.length_nil]
  exact Option.map_id'.symm

theorem Skips.append (hs : Skips pat s) (ht : Skips pat t) : Skips pat (s++t) := by
  intro rest
  rw [List.append_assoc,hs,ht,Option.map_map,List.length_append]
  congr 1
  funext n
  simp only [Function.comp_apply]
  omega

theorem skips_flatMap {β : Type*} {f : β → List α} {bs : List β} (h : ∀ b ∈ bs, Skips pat (f b)) :
    Skips pat (bs.flatMap f) := by
  induction bs with
  | nil => exact skips_nil
  | cons b bs ih =>
    rw [List.flatMap_cons]
    exact (h b List.mem_cons_self).append (ih fun c hc => h c (List.mem_cons_of_mem b hc))

theorem skips_intercalate {sep : List α} (hsep : Skips pat sep) {ls : List (List α)} (h : ∀ l ∈ ls, Skips pat l) :
    Skips pat (sep.intercalate ls) := by
  induction ls with
  | nil => exact skips_nil
  | cons l ls ih =>
    have hl := h l List.mem_cons_self
    have hrest := ih fun m hm => h m (List.mem_cons_of_mem l hm)
    cases ls with
    | nil => simpa [List.intercalate] using hl
    | cons m ls =>
      rw [List.intercalate_cons_cons]
      exact (hl.append hsep).append hrest

theorem skips_of_not_mem {c : α} (h : c ∉ s) : Skips (c::pat) s := fun _ => find_append_of_not_mem h

/-- The key in its quotes and with what follows the closing one. -/
def quotedKey (q e : α) (name : List α) : List α := q::(name++[q,e])

variable {q e : α} {name k : List α}

/-- Another key is skipped, its closing quote too: no key starts with what follows a quote. -/
theorem skips_quotedKey (hqe : q ≠ e) (hname : q ∉ name) (hend : e ∉ name) (hk : q ∉ k) (hne : k ≠ name) :
    Skips (quotedKey q e name) (quotedKey q e k) := by
  have hopen : ∀ rest, ¬quotedKey q e name <+: quotedKey q e k++rest := by
    intro rest hstart
    rw [quotedKey,quotedKey,List.cons_append,List.cons_prefix_cons,List.append_assoc] at hstart
    obtain ⟨u,hu⟩ := hstart.2
    rw [List.append_assoc] at hu
    have hboth := congrArg (List.takeWhile (· ≠ q)) hu
    have htake : ∀ (l m : List α), q ∉ l → (l++([q,e]++m)).takeWhile (· ≠ q) = l := by
      intro l m hl
      rw [List.takeWhile_append_of_pos fun x hx => by simpa using ne_of_mem_of_not_mem hx hl]
      simp
    rw [htake _ _ hname,htake _ _ hk] at hboth
    exact hne hboth.symm
  have hclose : ∀ rest, ¬quotedKey q e name <+: q::e::rest := by
    intro rest hstart
    rw [quotedKey,List.cons_prefix_cons] at hstart
    cases name with
    | nil => exact hqe (List.cons_prefix_cons.mp hstart.2).1
    | cons c name =>
      have hc : c = e := (List.cons_prefix_cons.mp hstart.2).1
      exact hend (hc ▸ List.mem_cons_self)
  intro rest
  have hfirst := hopen rest
  rw [show quotedKey q e k++rest = q::(k++q::e::rest) by simp [quotedKey]] at hfirst ⊢
  rw [find_cons_of_not_starts hfirst,quotedKey,find_append_of_not_mem hk]
  have hsecond := hclose rest
  rw [quotedKey] at hsecond
  have hlast : find (q::(name++[q,e])) (e::rest) = (find (q::(name++[q,e])) rest).map (·+1) :=
    find_append_of_not_mem (a := [e]) (by simpa using hqe)
  rw [find_cons_of_not_starts hsecond,hlast,Option.map_map,Option.map_map,Option.map_map]
  congr 1
  funext n
  simp only [Function.comp_apply,quotedKey,List.length_cons,List.length_append,List.length_nil]
  omega

theorem Skips.find_key (h : Skips pat s) (rest : List α) : find pat (s++(pat++rest)) = some s.length := by
  rw [h,find_of_starts (List.prefix_append pat rest),Option.map_some,Nat.zero_add]

theorem Skips.find_eq_none (h : Skips (q::pat) s) : find (q::pat) s = none := by
  have hs := h []
  rw [List.append_nil] at hs
  rw [hs]
  rfl

end Machine
