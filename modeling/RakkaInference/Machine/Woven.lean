import Mathlib.Data.List.Basic

/-! Lists that are put together from two, each kept in its order: what two senders put into one channel. -/
namespace Machine
variable {α : Type*} {as bs cs ds : List α}

/-- The last item is the last of one of the two lists. -/
inductive Woven : List α → List α → List α → Prop
  | nil : Woven [] [] []
  | left {as bs cs : List α} (a : α) (h : Woven as bs cs) : Woven (as++[a]) bs (cs++[a])
  | right {as bs cs : List α} (b : α) (h : Woven as bs cs) : Woven as (bs++[b]) (cs++[b])

namespace Woven

/-- What has come through so far is put together from what each has sent so far. -/
theorem of_prefix (h : Woven as bs cs) (hds : ds <+: cs) :
    ∃ as' bs', as' <+: as ∧ bs' <+: bs ∧ Woven as' bs' ds := by
  induction h with
  | nil =>
    rw [List.prefix_nil.mp hds]
    exact ⟨[],[],List.nil_prefix,List.nil_prefix,nil⟩
  | left a h ih =>
    rcases List.prefix_concat_iff.mp hds with rfl | hds
    · exact ⟨_,_,List.prefix_rfl,List.prefix_rfl,h.left a⟩
    · obtain ⟨as',bs',has,hbs,hw⟩ := ih hds
      exact ⟨as',bs',has.trans (List.prefix_append _ _),hbs,hw⟩
  | right b h ih =>
    rcases List.prefix_concat_iff.mp hds with rfl | hds
    · exact ⟨_,_,List.prefix_rfl,List.prefix_rfl,h.right b⟩
    · obtain ⟨as',bs',has,hbs,hw⟩ := ih hds
      exact ⟨as',bs',has,hbs.trans (List.prefix_append _ _),hw⟩

end Woven
end Machine
