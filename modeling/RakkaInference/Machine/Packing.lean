import Mathlib.Data.List.Chain

/-! Greedy packing of blocks, in their order, into packets of at most a given size. A block that fills
a packet is a packet of its own. -/
namespace Machine.Packing
variable {α : Type*}

def flush (buf : List α) : List (List α) := if buf = [] then [] else [buf]

/-- The packets, where `buf` is the open one. -/
def pack (cap : ℕ) : List α → List (List α) → List (List α)
  | buf,[] => flush buf
  | buf,b::bs =>
    if cap ≤ b.length then flush buf++b::pack cap [] bs
    else if cap < buf.length+b.length then flush buf++pack cap b bs
    else pack cap (buf++b) bs

/-- A group of adjacent blocks that may be one packet. -/
def Fits (cap : ℕ) (w : List (List α)) : Prop := w ≠ [] ∧ (w.flatten.length ≤ cap ∨ ∃ b, w = [b])

/-- A way to merge adjacent blocks. -/
def Merging (cap : ℕ) (bs ps : List (List α)) : Prop :=
  ∃ groups : List (List (List α)), groups.flatten = bs ∧ (∀ w ∈ groups, Fits cap w) ∧ ps = groups.map List.flatten

/-- The packets that are not empty. -/
def solid (ps : List (List α)) : List (List α) := ps.filter fun p => !p.isEmpty

/-- What packing comes to. No way to merge the blocks has fewer packets. -/
structure Packed (cap : ℕ) (bs out : List (List α)) : Prop where
  flatten_eq : out.flatten = bs.flatten
  capped : ∀ p ∈ out, p.length ≤ cap ∨ (p ∈ bs ∧ cap ≤ p.length)
  maximal : out.IsChain fun p q => cap < p.length+q.length
  merged : ∃ ps, Merging cap bs ps ∧ out = solid ps
  minimal : ∀ ps, Merging cap bs ps → out.length ≤ (solid ps).length

variable {cap : ℕ} {buf p : List α} {bs rest : List (List α)}

@[simp] theorem flush_nil : flush ([] : List α) = [] := rfl

theorem flush_of_ne (h : buf ≠ []) : flush buf = [buf] := if_neg h

theorem length_flush (buf : List α) : (flush buf).length = if buf.length = 0 then 0 else 1 := by
  cases buf <;> rfl

theorem solid_cons (p : List α) (ps : List (List α)) : solid (p::ps) = flush p++solid ps := by
  cases p <;> rfl

theorem solid_append (ps qs : List (List α)) : solid (ps++qs) = solid ps++solid qs := List.filter_append ..

theorem flatten_solid (ps : List (List α)) : (solid ps).flatten = ps.flatten := by
  induction ps with
  | nil => rfl
  | cons p ps ih =>
    rw [solid_cons,List.flatten_append,ih]
    cases p <;> simp [flush]

/-- A longer open packet costs one packet more at most, and never less. -/
theorem length_pack_mono (buf buf' : List α) (h : buf.length ≤ buf'.length) :
    (pack cap buf bs).length ≤ (pack cap buf' bs).length ∧
      (pack cap buf' bs).length ≤ (pack cap buf bs).length+1 := by
  induction bs generalizing buf buf' with
  | nil =>
    simp only [pack,length_flush]
    split <;> split <;> omega
  | cons b bs ih =>
    have hflush : (flush buf).length ≤ (flush buf').length ∧ (flush buf').length ≤ 1 := by
      simp only [length_flush]
      split <;> split <;> omega
    unfold pack
    split
    case isTrue hb =>
      simp only [List.length_append,List.length_cons]
      omega
    case isFalse hb =>
      by_cases hfull : cap < buf.length+b.length
      · rw [if_pos hfull,if_pos (by omega)]
        simp only [List.length_append]
        omega
      · rw [if_neg hfull]
        by_cases hfull' : cap < buf'.length+b.length
        · -- only the longer packet is closed
          have hclosed : (flush buf').length = 1 := by
            rw [length_flush,if_neg (by omega)]
          obtain ⟨hle,hsucc⟩ := ih b (buf++b) (by simp)
          rw [if_pos hfull',List.length_append,hclosed]
          omega
        · rw [if_neg hfull']
          exact ih (buf++b) (buf'++b) (by simpa using h)

/-- Blocks that make one packet cost one packet at most. -/
theorem length_pack_append (hcap : 0 < cap) (buf : List α) (w rest : List (List α))
    (h : buf.length+w.flatten.length ≤ cap) :
    (pack cap buf (w++rest)).length ≤ (pack cap [] rest).length+(flush (buf++w.flatten)).length := by
  induction w generalizing buf with
  | nil =>
    rw [List.flatten_nil,List.append_nil,List.nil_append]
    cases buf with
    | nil => exact Nat.le_add_right _ _
    | cons x buf => exact (length_pack_mono [] (x::buf) (Nat.zero_le _)).2
  | cons b w ih =>
    rw [List.flatten_cons,List.length_append] at h
    rw [List.cons_append,pack]
    split
    case isTrue hb =>
      obtain rfl : buf = [] := List.eq_nil_of_length_eq_zero (by omega)
      have hw : w.flatten = [] := List.eq_nil_of_length_eq_zero (by omega)
      have hb' : b ≠ [] := List.ne_nil_of_length_pos (by omega)
      have hrest := ih [] (by simp [hw])
      rw [hw] at hrest
      simp only [flush_nil,List.nil_append,List.length_cons,List.flatten_cons,hw,List.append_nil,flush_of_ne hb',
        List.length_nil] at hrest ⊢
      omega
    case isFalse hb =>
      rw [if_neg (by omega),List.flatten_cons,← List.append_assoc]
      exact ih (buf++b) (by rw [List.length_append]; omega)

theorem length_pack_flatten (hcap : 0 < cap) (groups : List (List (List α))) (h : ∀ w ∈ groups, Fits cap w) :
    (pack cap [] groups.flatten).length ≤ (solid (groups.map List.flatten)).length := by
  induction groups with
  | nil => exact Nat.le_refl 0
  | cons w groups ih =>
    obtain ⟨hw,hgroups⟩ := List.forall_mem_cons.mp h
    have hrest := ih hgroups
    rw [List.map_cons,solid_cons,List.length_append,List.flatten_cons]
    obtain ⟨-,hsmall | ⟨b,rfl⟩⟩ := hw
    · have hblock := length_pack_append hcap [] w groups.flatten (by simpa using hsmall)
      rw [List.nil_append] at hblock
      omega
    · by_cases hb : cap ≤ b.length
      · have hne : b ≠ [] := List.ne_nil_of_length_pos (by omega)
        simp only [List.singleton_append,pack,if_pos hb,flush_nil,List.nil_append,List.length_cons,
          List.flatten_cons,List.flatten_nil,List.append_nil,flush_of_ne hne,List.length_nil]
        omega
      · have hblock := length_pack_append hcap [] [b] groups.flatten (by simp; omega)
        rw [List.nil_append] at hblock
        omega

/-- The open packet is a group, if there is one. -/
theorem exists_open {cur : List (List α)} (hcur : cur.flatten.length ≤ cap) :
    ∃ first : List (List (List α)), first.flatten = cur ∧ (∀ w ∈ first, Fits cap w) ∧
      solid (first.map List.flatten) = flush cur.flatten := by
  cases cur with
  | nil => exact ⟨[],rfl,nofun,rfl⟩
  | cons b cur =>
    refine ⟨[b::cur],by simp,?_,?_⟩
    · intro w hw
      rw [List.mem_singleton.mp hw]
      exact ⟨List.cons_ne_nil b cur,.inl hcur⟩
    · rw [List.map_cons,List.map_nil,solid_cons]
      exact List.append_nil _

/-- The packets are those of a way to merge the blocks, but for the empty ones. -/
theorem exists_groups (hcap : 0 < cap) (cur bs : List (List α)) (hcur : cur.flatten.length ≤ cap) :
    ∃ groups : List (List (List α)), groups.flatten = cur++bs ∧ (∀ w ∈ groups, Fits cap w) ∧
      pack cap cur.flatten bs = solid (groups.map List.flatten) := by
  induction bs generalizing cur with
  | nil =>
    obtain ⟨first,hfirst,hfits,hsolid⟩ := exists_open hcur
    exact ⟨first,by rw [hfirst,List.append_nil],hfits,hsolid.symm⟩
  | cons b bs ih =>
    obtain ⟨first,hfirst,hfits,hsolid⟩ := exists_open hcur
    unfold pack
    split
    case isTrue hb =>
      obtain ⟨groups,hgroups,hrest,hpack⟩ := ih [] (Nat.zero_le cap)
      refine ⟨first++[b]::groups,?_,?_,?_⟩
      · rw [List.flatten_append,hfirst,List.flatten_cons,hgroups]
        rfl
      · simp only [List.forall_mem_append,List.forall_mem_cons]
        exact ⟨hfits,⟨List.cons_ne_nil b [],.inr ⟨b,rfl⟩⟩,hrest⟩
      · have hne : b ≠ [] := List.ne_nil_of_length_pos (by omega)
        rw [List.map_append,solid_append,hsolid,List.map_cons,solid_cons,List.flatten_singleton,flush_of_ne hne,
          ← hpack]
        rfl
    case isFalse hb =>
      split
      case isTrue hfull =>
        obtain ⟨groups,hgroups,hrest,hpack⟩ := ih [b] (by rw [List.flatten_singleton]; omega)
        refine ⟨first++groups,?_,?_,?_⟩
        · rw [List.flatten_append,hfirst,hgroups]
          rfl
        · exact List.forall_mem_append.mpr ⟨hfits,hrest⟩
        · rw [List.map_append,solid_append,hsolid,← hpack,List.flatten_singleton]
      case isFalse hroom =>
        have hflatten : (cur++[b]).flatten = cur.flatten++b := by simp
        obtain ⟨groups,hgroups,hrest,hpack⟩ := ih (cur++[b]) (by
          rw [hflatten,List.length_append]
          omega)
        refine ⟨groups,?_,hrest,?_⟩
        · rw [hgroups,List.append_assoc]
          rfl
        · rw [← hpack,hflatten]

/-- No packet is empty. -/
theorem pack_ne_nil (hcap : 0 < cap) : ∀ p ∈ pack cap buf bs, p ≠ [] := by
  have hflush : ∀ (buf : List α), ∀ p ∈ flush buf, p ≠ [] := by
    intro buf p hp
    cases buf with
    | nil => exact nomatch hp
    | cons x buf =>
      rw [List.mem_singleton.mp hp]
      exact List.cons_ne_nil x buf
  induction bs generalizing buf with
  | nil => exact hflush buf
  | cons b bs ih =>
    unfold pack
    split
    case isTrue hb =>
      have hne : b ≠ [] := List.ne_nil_of_length_pos (by omega)
      simp only [List.forall_mem_append,List.forall_mem_cons]
      exact ⟨hflush buf,hne,ih⟩
    case isFalse hb =>
      split
      · exact List.forall_mem_append.mpr ⟨hflush buf,ih⟩
      · exact ih

/-- The first packet begins with what is open. -/
theorem length_head_pack (buf : List α) (hbuf : buf ≠ []) :
    ∀ p ∈ (pack cap buf bs).head?, buf.length ≤ p.length := by
  induction bs generalizing buf with
  | nil => simp [pack,flush_of_ne hbuf]
  | cons b bs ih =>
    unfold pack
    split
    · simp [flush_of_ne hbuf]
    · split
      · simp [flush_of_ne hbuf]
      · intro p hp
        have hlen := ih (buf++b) (by simp [hbuf]) p hp
        rw [List.length_append] at hlen
        omega

theorem isChain_flush (hrest : rest.IsChain fun p q => cap < p.length+q.length)
    (hhead : buf ≠ [] → ∀ q ∈ rest.head?, cap < buf.length+q.length) :
    (flush buf++rest).IsChain fun p q => cap < p.length+q.length := by
  by_cases hbuf : buf = []
  · rw [hbuf]
    exact hrest
  · rw [flush_of_ne hbuf]
    exact List.isChain_cons.mpr ⟨hhead hbuf,hrest⟩

/-- Two packets that follow each other are more than one. -/
theorem isChain_pack (hcap : 0 < cap) (buf : List α) (bs : List (List α)) (hbuf : buf.length ≤ cap) :
    (pack cap buf bs).IsChain fun p q => cap < p.length+q.length := by
  induction bs generalizing buf with
  | nil =>
    rw [pack,← List.append_nil (flush buf)]
    exact isChain_flush List.isChain_nil fun _ => nofun
  | cons b bs ih =>
    unfold pack
    split
    case isTrue hb =>
      apply isChain_flush
      · apply List.isChain_cons.mpr ⟨_,ih [] (Nat.zero_le cap)⟩
        intro q hq
        have hpos := List.length_pos_of_ne_nil (pack_ne_nil hcap q (List.mem_of_mem_head? hq))
        omega
      · intro hne q hq
        obtain rfl : b = q := by simpa using hq
        have hpos := List.length_pos_of_ne_nil hne
        omega
    case isFalse hb =>
      split
      case isTrue hfull =>
        apply isChain_flush (ih b (by omega))
        intro _ q hq
        have hlen := length_head_pack b (List.ne_nil_of_length_pos (by omega)) q hq
        omega
      case isFalse hroom => exact ih (buf++b) (by rw [List.length_append]; omega)

/-- Packets that are more than one, each with the next, stay as they are. -/
theorem pack_of_isChain (hsolid : ∀ p ∈ bs, p ≠ []) (hchain : bs.IsChain fun p q => cap < p.length+q.length) :
    pack cap [] bs = bs ∧ ∀ p ≠ [], (∀ q ∈ bs.head?, cap < p.length+q.length) → pack cap p bs = p::bs := by
  induction bs with
  | nil => exact ⟨rfl,fun p hp _ => flush_of_ne hp⟩
  | cons b bs ih =>
    obtain ⟨hb,hbs⟩ := List.forall_mem_cons.mp hsolid
    obtain ⟨hhead,htail⟩ := List.isChain_cons.mp hchain
    obtain ⟨hsame,hopen⟩ := ih hbs htail
    constructor
    · unfold pack
      split
      · rw [hsame]
        rfl
      · split
        · exact hopen b hb hhead
        · exact hopen b hb hhead
    · intro p hp hnext
      have hfull := hnext b rfl
      unfold pack
      split
      · rw [hsame,flush_of_ne hp]
        rfl
      · rw [hopen b hb hhead,flush_of_ne hp]
        rfl

/-- Packing twice is packing once. -/
theorem pack_pack (hcap : 0 < cap) (bs : List (List α)) : pack cap [] (pack cap [] bs) = pack cap [] bs :=
  (pack_of_isChain (pack_ne_nil hcap) (isChain_pack hcap [] bs (Nat.zero_le cap))).1

theorem packed_pack (hcap : 0 < cap) (bs : List (List α)) : Packed cap bs (pack cap [] bs) := by
  obtain ⟨groups,hgroups,hfits,hpack⟩ := exists_groups hcap [] bs (Nat.zero_le cap)
  rw [List.flatten_nil] at hpack
  constructor
  case flatten_eq =>
    rw [hpack,flatten_solid,← List.flatten_flatten,hgroups]
    rfl
  case capped =>
    intro p hp
    rw [hpack] at hp
    obtain ⟨w,hw,rfl⟩ := List.mem_map.mp (List.mem_of_mem_filter hp)
    obtain hlt | hle := Nat.lt_or_ge cap w.flatten.length
    · obtain ⟨-,hsmall | ⟨b,rfl⟩⟩ := hfits w hw
      · omega
      · have hmem : b ∈ groups.flatten := List.mem_flatten.mpr ⟨[b],hw,List.mem_singleton_self b⟩
        rw [hgroups] at hmem
        rw [List.flatten_singleton] at hlt ⊢
        exact .inr ⟨hmem,hlt.le⟩
    · exact .inl hle
  case maximal => exact isChain_pack hcap [] bs (Nat.zero_le cap)
  case merged => exact ⟨_,⟨groups,hgroups,hfits,rfl⟩,hpack⟩
  case minimal =>
    rintro ps ⟨groups',rfl,hfits',rfl⟩
    exact length_pack_flatten hcap groups' hfits'

end Machine.Packing
