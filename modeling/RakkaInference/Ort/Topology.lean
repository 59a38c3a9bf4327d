import Mathlib.Tactic.Linarith
import RakkaInference.Machine.Pattern
import RakkaInference.Ort.Generate

/-! The key and value caches of a model, paired layer by layer by the names of its inputs and outputs. -/
namespace RakkaInference.Ort
open Machine

/-- The regex crate: the digits that a pattern knows, with their values, and what is captured of a text. -/
structure RegexCrate where
  value : Char → Option ℕ
  captures : List (Piece Char) → List Char → Option (List (List Char))
  /-- The digits of ASCII are known. -/
  ascii : ∀ c, c.toNat < 128 → value c = if c.isDigit then some (c.toNat-48) else none
  /-- The groups spell the text, -/
  spells : ∀ {ps s ws}, captures ps s = some ws → Piece.Spells ps ws s
  /-- and where the text can be spelled there are some. -/
  finds : ∀ {ps ws s}, Piece.Spells ps ws s → ∃ ws', captures ps s = some ws'

namespace RegexCrate

def isDigit (D : RegexCrate) (c : Char) : Bool := (D.value c).isSome

def number (D : RegexCrate) (digits : List Char) : ℕ :=
  digits.foldl (fun n c => 10*n+(D.value c).getD 0) 0

end RegexCrate

/-- A compiled pattern. -/
structure Regex where
  crate : RegexCrate
  pieces : List (Piece Char)

def kvRe (D : RegexCrate) (words : List String) : Regex where
  crate := D
  pieces := [.oneOf (words.map String.toList),.optional ['.','_'],.many D.isDigit,.optional ['.','_'],
    .oneOf ["key".toList,"value".toList]]

def pastRe (D : RegexCrate) : Regex := kvRe D ["past_key_values","past"]

def presentRe (D : RegexCrate) : Regex := kvRe D ["present","new_key_values","present_key_values"]

/-- The digits and the last word of a name that matches. -/
def captures (re : Regex) (name : String) : Option (List Char × List Char) :=
  match re.crate.captures re.pieces name.toList with
  | some [_,_,digits,_,part] => some (digits,part)
  | _ => none

/-- A word of 32 bits in decimal. -/
def parseU32 (s : List Char) : Option ℕ :=
  let digits := if s.head? = some '+' then s.tail else s
  if digits = [] ∨ ¬digits.all Char.isDigit then none
  else
    let n := digits.foldl (fun n c => 10*n+(c.toNat-48)) 0
    if n < 2^32 then some n else none

def layerIndex (digits : List Char) : ℕ := (parseU32 digits).getD 0

/-- The names of a key and of a value. -/
abbrev KvEntry := Option String × Option String

def insertName (re : Regex) (m : Std.TreeMap ℕ KvEntry) (name : String) : Std.TreeMap ℕ KvEntry :=
  match captures re name with
  | none => m
  | some (digits,part) =>
    m.alter (layerIndex digits) fun entry =>
      let entry := entry.getD (none,none)
      if part = "key".toList then some (some name,entry.2)
      else if part = "value".toList then some (entry.1,some name)
      else some entry

def byLayer (re : Regex) (names : List String) : Std.TreeMap ℕ KvEntry := names.foldl (insertName re) ∅

def kvLayer (past present : KvEntry) : Option KvLayer := do
  some {
    pastKeyInput := ← past.1
    pastValueInput := ← past.2
    presentKeyOutput := ← present.1
    presentValueOutput := ← present.2 }

/-- Each entry of the inputs takes the entry of the outputs out of the map. -/
def takeLayers : List (ℕ × KvEntry) → Std.TreeMap ℕ KvEntry → List KvLayer
  | [],_ => []
  | (idx,past)::rest,presentByLayer =>
    match presentByLayer[idx]? with
    | none => takeLayers rest presentByLayer
    | some present => (kvLayer past present).toList++takeLayers rest (presentByLayer.erase idx)

def pairKvLayers (inputs outputs : List String) (pastRe presentRe : Regex) : List KvLayer :=
  takeLayers (byLayer pastRe inputs).toList (byLayer presentRe outputs)

/-- The index a name is put under as a key or as a value. -/
def readIndex (re : Regex) (part : List Char) (name : String) : Option ℕ :=
  match captures re name with
  | some (digits,p) => if p = part then some (layerIndex digits) else none
  | none => none

/-- The last one of the names that are put under an index. -/
def lastNamed (re : Regex) (part : List Char) (i : ℕ) (names : List String) : Option String :=
  (names.filter fun name => readIndex re part name = some i).getLast?

/-- What a name is of a layer. -/
inductive KvSlot
  | pastKey
  | pastValue
  | presentKey
  | presentValue

namespace KvSlot

def names (inputs outputs : List String) : KvSlot → List String
  | pastKey | pastValue => inputs
  | presentKey | presentValue => outputs

def re (D : RegexCrate) : KvSlot → Regex
  | pastKey | pastValue => pastRe D
  | presentKey | presentValue => presentRe D

def part : KvSlot → List Char
  | pastKey | presentKey => "key".toList
  | pastValue | presentValue => "value".toList

/-- The pattern matches the name with the digits. -/
def Matches (D : RegexCrate) (slot : KvSlot) (digits : List Char) (name : String) : Prop :=
  ∃ word a b, Piece.Spells (slot.re D).pieces [word,a,digits,b,slot.part] name.toList

def HasNumber (D : RegexCrate) (slot : KvSlot) (n : ℕ) (name : String) : Prop :=
  ∃ digits, slot.Matches D digits name ∧ D.number digits = n

end KvSlot

def KvLayer.name (layer : KvLayer) : KvSlot → String
  | .pastKey => layer.pastKeyInput
  | .pastValue => layer.pastValueInput
  | .presentKey => layer.presentKeyOutput
  | .presentValue => layer.presentValueOutput

section Names
variable {D : RegexCrate} {slot : KvSlot} {digits digits' : List Char} {name : String} {n i : ℕ}

theorem isDigit_eq_false {c : Char} (hc : c.toNat < 128) (hdigit : c.isDigit = false) : D.isDigit c = false := by
  unfold RegexCrate.isDigit
  rw [D.ascii c hc,hdigit]
  rfl

theorem spells_kvRe_iff {words : List String} {ws : List (List Char)} {s : List Char} :
    Piece.Spells (kvRe D words).pieces ws s ↔
      ∃ word a d b part, ws = [word,a,d,b,part] ∧ word ∈ words.map String.toList ∧
      (a = [] ∨ ∃ c ∈ ['.','_'], a = [c]) ∧ (d ≠ [] ∧ ∀ c ∈ d, D.isDigit c) ∧ (b = [] ∨ ∃ c ∈ ['.','_'], b = [c]) ∧
      part ∈ ["key".toList,"value".toList] ∧ (word++a)++(d++(b++part)) = s := by
  constructor
  · rintro ⟨hall,rfl⟩
    obtain ⟨word,ws₁,hword,hall₁,rfl⟩ := List.forall₂_cons_left_iff.mp hall
    obtain ⟨a,ws₂,ha,hall₂,rfl⟩ := List.forall₂_cons_left_iff.mp hall₁
    obtain ⟨d,ws₃,hd,hall₃,rfl⟩ := List.forall₂_cons_left_iff.mp hall₂
    obtain ⟨b,ws₄,hb,hall₄,rfl⟩ := List.forall₂_cons_left_iff.mp hall₃
    obtain ⟨part,ws₅,hpart,hall₅,rfl⟩ := List.forall₂_cons_left_iff.mp hall₄
    obtain rfl := List.forall₂_nil_left_iff.mp hall₅
    exact ⟨word,a,d,b,part,rfl,hword,ha,hd,hb,hpart,by simp⟩
  · rintro ⟨word,a,d,b,part,rfl,hword,ha,hd,hb,hpart,rfl⟩
    exact ⟨.cons hword (.cons ha (.cons hd (.cons hb (.cons hpart .nil)))),by simp⟩

/-- Words in which there is no digit. -/
def Digitless (words : List String) : Prop := ∀ word ∈ words, ∀ c ∈ word.toList, c.toNat < 128 ∧ c.isDigit = false

theorem digitless_of_all (words : List String)
    (h : (words.all fun word => word.toList.all fun c => decide (c.toNat < 128 ∧ c.isDigit = false)) = true) :
    Digitless words := by
  intro word hword c hc
  exact of_decide_eq_true (List.all_eq_true.mp (List.all_eq_true.mp h word hword) c hc)

theorem isDigit_separator {x : List Char} (h : x = [] ∨ ∃ c ∈ ['.','_'], x = [c]) :
    ∀ c ∈ x, D.isDigit c = false := by
  obtain rfl | ⟨c,hc,rfl⟩ := h
  · exact nofun
  · intro c' hc'
    rw [List.mem_singleton.mp hc']
    obtain rfl | rfl := List.mem_pair.mp hc
    · exact isDigit_eq_false (by decide) (by decide)
    · exact isDigit_eq_false (by decide) (by decide)

theorem Digitless.isDigit {words : List String} (h : Digitless words) {x : List Char}
    (hx : x ∈ words.map String.toList) : ∀ c ∈ x, D.isDigit c = false := by
  intro c hc
  obtain ⟨w,hw,rfl⟩ := List.mem_map.mp hx
  exact isDigit_eq_false (h w hw c hc).1 (h w hw c hc).2

/-- The two parts differ in their last letters. -/
theorem part_unique {b b' part part' : List Char} (hp : part ∈ ["key".toList,"value".toList])
    (hp' : part' ∈ ["key".toList,"value".toList]) (h : b++part = b'++part') : part = part' := by
  have hlast := congrArg List.getLast? h
  have hne : ∀ {x : List Char}, x ∈ ["key".toList,"value".toList] → x ≠ [] := by
    intro x hx
    obtain rfl | rfl := List.mem_pair.mp hx
    · decide
    · decide
  rw [List.getLast?_append_of_ne_nil _ (hne hp),List.getLast?_append_of_ne_nil _ (hne hp')] at hlast
  obtain rfl | rfl := List.mem_pair.mp hp <;> obtain rfl | rfl := List.mem_pair.mp hp'
  · rfl
  · exact absurd hlast (by decide)
  · exact absurd hlast (by decide)
  · rfl

/-- The digits and the part of a name are the same, however the name is split. -/
theorem kvRe_unique {words : List String} (hwords : Digitless words)
    {word a d b part word' a' d' b' part' s : List Char} (h : Piece.Spells (kvRe D words).pieces [word,a,d,b,part] s)
    (h' : Piece.Spells (kvRe D words).pieces [word',a',d',b',part'] s) : d = d' ∧ part = part' := by
  have hpart : Digitless ["key","value"] := digitless_of_all _ (by decide)
  obtain ⟨_,_,_,_,_,heq,hw,ha,⟨hd,hdp⟩,hb,hp,hs⟩ := spells_kvRe_iff.mp h
  obtain ⟨_,_,_,_,_,heq',hw',ha',⟨hd',hdp'⟩,hb',hp',hs'⟩ := spells_kvRe_iff.mp h'
  cases heq
  cases heq'
  obtain ⟨-,hdigits,hrest⟩ := run_unique (List.forall_mem_append.mpr ⟨hwords.isDigit hw,isDigit_separator ha⟩) hd hdp
    (List.forall_mem_append.mpr ⟨isDigit_separator hb,hpart.isDigit hp⟩)
    (List.forall_mem_append.mpr ⟨hwords.isDigit hw',isDigit_separator ha'⟩) hd' hdp'
    (List.forall_mem_append.mpr ⟨isDigit_separator hb',hpart.isDigit hp'⟩) (hs.trans hs'.symm)
  exact ⟨hdigits,part_unique hp hp' hrest⟩

theorem captures_kvRe_iff {words : List String} (hwords : Digitless words) {part : List Char} :
    captures (kvRe D words) name = some (digits,part) ↔
      ∃ word a b, Piece.Spells (kvRe D words).pieces [word,a,digits,b,part] name.toList := by
  unfold captures
  constructor
  · intro h
    split at h
    case h_1 word a d b p hsplit =>
      cases h
      exact ⟨word,a,b,D.spells hsplit⟩
    case h_2 => exact nomatch h
  · rintro ⟨word,a,b,hspells⟩
    obtain ⟨ws,hsplit⟩ : ∃ ws, (kvRe D words).crate.captures (kvRe D words).pieces name.toList = some ws :=
      D.finds hspells
    have hspells' := D.spells hsplit
    obtain ⟨word',a',d',b',part',rfl,-⟩ := spells_kvRe_iff.mp hspells'
    obtain ⟨rfl,rfl⟩ := kvRe_unique hwords hspells hspells'
    rw [hsplit]

end Names

section Layers
variable {re : Regex} {part : List Char} {names : List String} {name : String} {i : ℕ}

theorem lastNamed_append (re : Regex) (part : List Char) (i : ℕ) (names : List String) (name : String) :
    lastNamed re part i (names++[name]) =
      if readIndex re part name = some i then some name else lastNamed re part i names := by
  unfold lastNamed
  rw [List.filter_append]
  split
  case isTrue h => rw [List.filter_cons_of_pos (by simpa using h),List.filter_nil,List.getLast?_concat]
  case isFalse h => rw [List.filter_cons_of_neg (by simpa using h),List.filter_nil,List.append_nil]

/-- The entry of a layer has the last key and the last value that were put there. -/
theorem entry_byLayer (re : Regex) (names : List String) (i : ℕ) :
    (byLayer re names)[i]?.getD (none,none) =
      (lastNamed re "key".toList i names,lastNamed re "value".toList i names) := by
  induction names using List.reverseRecOn with
  | nil =>
    change (∅ : Std.TreeMap ℕ KvEntry)[i]?.getD (none,none) = _
    rw [Std.TreeMap.getElem?_emptyc]
    rfl
  | append_singleton names name ih =>
    have hstep : byLayer re (names++[name]) = insertName re (byLayer re names) name := by
      unfold byLayer
      rw [List.foldl_append,List.foldl_cons,List.foldl_nil]
    rw [hstep,lastNamed_append,lastNamed_append]
    unfold insertName readIndex
    cases captures re name with
    | none => exact ih
    | some c =>
      obtain ⟨digits,part⟩ := c
      dsimp only
      rw [Std.TreeMap.getElem?_alter]
      by_cases hi : layerIndex digits = i
      · subst hi
        rw [if_pos (Nat.compare_eq_eq.mpr rfl),ih]
        by_cases hkey : part = "key".toList
        · subst hkey
          simp
        · by_cases hvalue : part = "value".toList
          · subst hvalue
            simp
          · simp only [if_neg hkey,if_neg hvalue,Option.getD_some,reduceCtorEq,if_false]
      · have hother : ∀ p : List Char, (if part = p then some (layerIndex digits) else none) ≠ some i := by
          intro p
          split
          · exact fun heq => hi (Option.some.inj heq)
          · exact nofun
        rw [if_neg (mt Nat.compare_eq_eq.mp hi),if_neg (hother _),if_neg (hother _)]
        exact ih

theorem takeLayers_eq (entries : List (ℕ × KvEntry)) (hkeys : entries.Pairwise fun a b => a.1 < b.1) :
    ∀ present : Std.TreeMap ℕ KvEntry,
      takeLayers entries present = entries.filterMap fun e => kvLayer e.2 (present[e.1]?.getD (none,none)) := by
  induction entries with
  | nil => exact fun _ => rfl
  | cons e entries ih =>
    obtain ⟨idx,past⟩ := e
    obtain ⟨hlt,hkeys⟩ := List.pairwise_cons.mp hkeys
    intro present
    have herase : takeLayers entries (present.erase idx) = takeLayers entries present := by
      rw [ih hkeys,ih hkeys]
      apply List.filterMap_congr
      intro e he
      rw [Std.TreeMap.getElem?_erase,if_neg (mt Nat.compare_eq_eq.mp (hlt e he).ne)]
    rw [takeLayers,List.filterMap_cons,← ih hkeys]
    cases hpresent : present[idx]? with
    | none =>
      have hnone : kvLayer past (none,none) = none := by
        unfold kvLayer
        cases past.1 with
        | none => rfl
        | some key => cases past.2 <;> rfl
      dsimp only
      rw [Option.getD_none,hnone]
    | some entry =>
      dsimp only
      rw [herase,Option.getD_some]
      cases kvLayer past entry with
      | none => rfl
      | some layer => rfl

/-- In a sorted list a relation holds from left to right where it holds from lesser to greater keys. -/
theorem pairwise_iff_of_sorted {ι : Type*} {key : ι → ℕ} {l : List ι} (hl : l.Pairwise fun a b => key a < key b)
    {R : ι → ι → Prop} : l.Pairwise R ↔ ∀ a ∈ l, ∀ b ∈ l, key a < key b → R a b := by
  constructor
  · intro h
    induction l with
    | nil => exact nofun
    | cons c l ih =>
      rw [List.pairwise_cons] at hl h
      intro a ha b hb hab
      rcases List.mem_cons.mp ha with rfl | ha' <;> rcases List.mem_cons.mp hb with rfl | hb'
      · exact absurd hab (Nat.lt_irrefl _)
      · exact h.1 b hb'
      · exact absurd hab (hl.1 a ha').not_gt
      · exact ih hl.2 h.2 a ha' b hb' hab
  · intro h
    exact hl.imp_of_mem fun ha hb hab => h _ ha _ hb hab

variable {pastRe presentRe : Regex} {inputs outputs : List String} {layer : KvLayer}

/-- The layer of an index, by the last names that are put there. -/
def layerAt (pastRe presentRe : Regex) (inputs outputs : List String) (i : ℕ) : Option KvLayer :=
  kvLayer (lastNamed pastRe "key".toList i inputs,lastNamed pastRe "value".toList i inputs)
    (lastNamed presentRe "key".toList i outputs,lastNamed presentRe "value".toList i outputs)

theorem ordered_toList (m : Std.TreeMap ℕ KvEntry) : m.toList.Pairwise fun a b => a.1 < b.1 :=
  Std.TreeMap.ordered_keys_toList.imp Nat.compare_eq_lt.mp

theorem pairKvLayers_eq : pairKvLayers inputs outputs pastRe presentRe =
    (byLayer pastRe inputs).toList.filterMap fun e => layerAt pastRe presentRe inputs outputs e.1 := by
  unfold pairKvLayers
  rw [takeLayers_eq _ (ordered_toList _)]
  apply List.filterMap_congr
  intro e he
  obtain ⟨i,past⟩ := e
  have hpast : (byLayer pastRe inputs)[i]? = some past := Std.TreeMap.mem_toList_iff_getElem?_eq_some.mp he
  have hentry := entry_byLayer pastRe inputs i
  rw [hpast,Option.getD_some] at hentry
  unfold layerAt
  rw [← hentry,← entry_byLayer]

theorem mem_byLayer_of_layerAt (h : layerAt pastRe presentRe inputs outputs i = some layer) :
    ∃ past, (i,past) ∈ (byLayer pastRe inputs).toList := by
  cases hpast : (byLayer pastRe inputs)[i]? with
  | none =>
    have hentry := entry_byLayer pastRe inputs i
    rw [hpast,Option.getD_none] at hentry
    unfold layerAt at h
    rw [← hentry] at h
    exact nomatch h
  | some past => exact ⟨past,Std.TreeMap.mem_toList_iff_getElem?_eq_some.mpr hpast⟩

theorem mem_pairKvLayers_iff : layer ∈ pairKvLayers inputs outputs pastRe presentRe ↔
    ∃ i, layerAt pastRe presentRe inputs outputs i = some layer := by
  rw [pairKvLayers_eq,List.mem_filterMap]
  constructor
  · rintro ⟨e,-,he⟩
    exact ⟨e.1,he⟩
  · rintro ⟨i,hi⟩
    obtain ⟨past,hpast⟩ := mem_byLayer_of_layerAt hi
    exact ⟨(i,past),hpast,hi⟩

/-- The layers come in the order of the indices. -/
theorem pairwise_pairKvLayers_iff {R : KvLayer → KvLayer → Prop} :
    (pairKvLayers inputs outputs pastRe presentRe).Pairwise R ↔
    ∀ i j a b, i < j → layerAt pastRe presentRe inputs outputs i = some a →
      layerAt pastRe presentRe inputs outputs j = some b → R a b := by
  rw [pairKvLayers_eq,List.pairwise_filterMap,pairwise_iff_of_sorted (ordered_toList _)]
  constructor
  · intro h i j a b hij ha hb
    obtain ⟨past,hpast⟩ := mem_byLayer_of_layerAt ha
    obtain ⟨past',hpast'⟩ := mem_byLayer_of_layerAt hb
    exact h _ hpast _ hpast' hij a ha b hb
  · intro h e _ e' _ hlt a ha b hb
    exact h e.1 e'.1 a b hlt ha hb

end Layers
end RakkaInference.Ort
