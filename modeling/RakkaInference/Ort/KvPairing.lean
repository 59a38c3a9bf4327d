import RakkaInference.Ort.Topology

/-! The layers that are paired have one number each, in rising order, as long as the names that are put
under layer zero do not get in each other's way. -/
namespace RakkaInference.Ort
open Machine

def KvLayer.HasNumber (D : RegexCrate) (n : ℕ) (layer : KvLayer) : Prop :=
  ∀ slot : KvSlot, slot.HasNumber D n (layer.name slot)

/-- The names of the layer are the only ones with the number. -/
def KvLayer.Sole (D : RegexCrate) (inputs outputs : List String) (n : ℕ) (layer : KvLayer) : Prop :=
  ∀ slot : KvSlot, layer.name slot ∈ slot.names inputs outputs ∧ slot.HasNumber D n (layer.name slot) ∧
    ∀ name ∈ slot.names inputs outputs, slot.HasNumber D n name → name = layer.name slot

/-- What the paired layers are promised to be. -/
structure PairingLaw (D : RegexCrate) (inputs outputs : List String) (layers : List KvLayer) : Prop where
  named : ∀ layer ∈ layers, ∃ n, ∀ slot : KvSlot,
    layer.name slot ∈ slot.names inputs outputs ∧ slot.HasNumber D n (layer.name slot)
  increasing : layers.Pairwise fun a b => ∀ m n, a.HasNumber D m → b.HasNumber D n → m < n
  complete : ∀ n (layer : KvLayer), layer.Sole D inputs outputs n → layer ∈ layers

namespace KvSlot

def readAs (D : RegexCrate) (slot : KvSlot) (name : String) : Option ℕ := readIndex (slot.re D) slot.part name

def lastAs (D : RegexCrate) (slot : KvSlot) (i : ℕ) (names : List String) : Option String :=
  lastNamed (slot.re D) slot.part i names

end KvSlot

/-- The last names that are read as layer zero have one number, which is less than that of any other whole
layer, and a layer of which only these names are there is not hidden by others that are read as zero. -/
structure ZeroApart (D : RegexCrate) (inputs outputs : List String) : Prop where
  one : ∀ layer : KvLayer, (∀ slot : KvSlot, slot.lastAs D 0 (slot.names inputs outputs) = some (layer.name slot)) →
    ∃ n, layer.HasNumber D n ∧
      ∀ i, 0 < i → i ≤ n → ¬∀ slot : KvSlot, ∃ name ∈ slot.names inputs outputs, slot.readAs D name = some i
  sole : ∀ n (layer : KvLayer), layer.Sole D inputs outputs n →
    (∃ slot : KvSlot, slot.readAs D (layer.name slot) = some 0) →
    ∀ slot : KvSlot, ∃ name, slot.lastAs D 0 (slot.names inputs outputs) = some name ∧ slot.HasNumber D n name

section Numbers
variable {D : RegexCrate} {slot : KvSlot} {digits digits' : List Char} {name : String} {names : List String}
  {m n i j : ℕ}

theorem digitless_words (slot : KvSlot) : ∃ words, slot.re D = kvRe D words ∧ Digitless words := by
  cases slot with
  | pastKey | pastValue => exact ⟨_,rfl,digitless_of_all _ (by decide)⟩
  | presentKey | presentValue => exact ⟨_,rfl,digitless_of_all _ (by decide)⟩

theorem matches_unique (h : slot.Matches D digits name) (h' : slot.Matches D digits' name) : digits = digits' := by
  obtain ⟨words,hre,hwords⟩ := digitless_words (D := D) slot
  unfold KvSlot.Matches at h h'
  rw [hre] at h h'
  obtain ⟨word,a,b,hspells⟩ := h
  obtain ⟨word',a',b',hspells'⟩ := h'
  exact (kvRe_unique hwords hspells hspells').1

theorem hasNumber_unique (h : slot.HasNumber D m name) (h' : slot.HasNumber D n name) : m = n := by
  obtain ⟨digits,hmatches,rfl⟩ := h
  obtain ⟨digits',hmatches',rfl⟩ := h'
  rw [matches_unique hmatches hmatches']

theorem readAs_eq_some_iff : slot.readAs D name = some i ↔
    ∃ digits, slot.Matches D digits name ∧ layerIndex digits = i := by
  obtain ⟨words,hre,hwords⟩ := digitless_words (D := D) slot
  have hcaptures : ∀ digits, captures (slot.re D) name = some (digits,slot.part) ↔ slot.Matches D digits name := by
    intro digits
    unfold KvSlot.Matches
    rw [hre]
    exact captures_kvRe_iff hwords
  simp only [← hcaptures]
  unfold KvSlot.readAs readIndex
  cases captures (slot.re D) name with
  | none => exact ⟨nofun,nofun⟩
  | some c =>
    obtain ⟨digits,part⟩ := c
    constructor
    · intro h
      obtain ⟨rfl,hindex⟩ := Option.ite_none_right_eq_some.mp h
      exact ⟨digits,rfl,Option.some.inj hindex⟩
    · rintro ⟨digits',hc,rfl⟩
      obtain ⟨rfl,rfl⟩ := Prod.mk.inj (Option.some.inj hc)
      exact if_pos rfl

/-- A number that is parsed is the number of the digits. -/
theorem parseU32_eq_number (hdigits : ∀ c ∈ digits, D.isDigit c) (h : parseU32 digits = some n) :
    n = D.number digits := by
  have hplus : digits.head? ≠ some '+' := by
    intro hhead
    have hplus : D.isDigit '+' = false := isDigit_eq_false (by decide) (by decide)
    rw [hdigits _ (List.mem_of_head? hhead)] at hplus
    exact nomatch hplus
  unfold parseU32 at h
  rw [if_neg hplus] at h
  dsimp only at h
  rw [Option.ite_none_left_eq_some,Option.ite_none_right_eq_some] at h
  obtain ⟨hascii,-,hn⟩ := h
  rw [← Option.some.inj hn]
  apply List.foldl_ext
  intro m c hc
  have hall : digits.all Char.isDigit := by
    by_contra hne
    exact hascii (.inr hne)
  have hdigit := List.all_eq_true.mp hall c hc
  have hsmall : c.toNat < 128 := by
    have hrange := (Char.isDigit_iff_toNat.mp hdigit).2
    exact hrange.trans_lt (by decide)
  rw [D.ascii c hsmall,if_pos hdigit,Option.getD_some]

theorem digits_of_matches (h : slot.Matches D digits name) : ∀ c ∈ digits, D.isDigit c := by
  obtain ⟨words,hre,-⟩ := digitless_words (D := D) slot
  obtain ⟨word,a,b,hspells⟩ := h
  rw [hre] at hspells
  obtain ⟨_,_,_,_,_,heq,-,-,⟨-,hdigits⟩,-⟩ := spells_kvRe_iff.mp hspells
  cases heq
  exact hdigits

theorem layerIndex_cases (h : slot.Matches D digits name) :
    layerIndex digits = D.number digits ∨ layerIndex digits = 0 := by
  unfold layerIndex
  cases hparse : parseU32 digits with
  | none => exact .inr rfl
  | some n => exact .inl (parseU32_eq_number (digits_of_matches h) hparse)

theorem readAs_of_hasNumber (h : slot.HasNumber D n name) :
    slot.readAs D name = some n ∨ slot.readAs D name = some 0 := by
  obtain ⟨digits,hmatches,rfl⟩ := h
  rw [readAs_eq_some_iff,readAs_eq_some_iff]
  exact (layerIndex_cases hmatches).imp (fun h => ⟨digits,hmatches,h⟩) fun h => ⟨digits,hmatches,h⟩

/-- An index other than zero is the number of the name. -/
theorem hasNumber_of_readAs (h : slot.readAs D name = some i) (hi : i ≠ 0) : slot.HasNumber D i name := by
  obtain ⟨digits,hmatches,rfl⟩ := readAs_eq_some_iff.mp h
  exact ⟨digits,hmatches,((layerIndex_cases hmatches).resolve_right hi).symm⟩

theorem mem_of_lastAs (h : slot.lastAs D i names = some name) : name ∈ names ∧ slot.readAs D name = some i := by
  have hmem := List.mem_of_getLast? h
  rw [List.mem_filter,decide_eq_true_iff] at hmem
  exact hmem

theorem lastAs_of_mem (hname : name ∈ names) (h : slot.readAs D name = some i) :
    ∃ last, slot.lastAs D i names = some last := by
  have hmem : name ∈ names.filter fun name => readIndex (slot.re D) slot.part name = some i :=
    List.mem_filter.mpr ⟨hname,decide_eq_true h⟩
  exact Option.isSome_iff_exists.mp (List.getLast?_isSome.mpr (List.ne_nil_of_mem hmem))

/-- The only name with an index is the last one. -/
theorem lastAs_of_sole (hname : name ∈ names) (h : slot.readAs D name = some i)
    (hsole : ∀ other ∈ names, slot.readAs D other = some i → other = name) : slot.lastAs D i names = some name := by
  obtain ⟨last,hlast⟩ := lastAs_of_mem hname h
  obtain ⟨hmem,hread⟩ := mem_of_lastAs hlast
  rw [hlast,hsole last hmem hread]

variable {inputs outputs : List String} {layer a b : KvLayer}

theorem kvLayer_eq_some_iff {past present : KvEntry} : kvLayer past present = some layer ↔
    past = (some layer.pastKeyInput,some layer.pastValueInput) ∧
    present = (some layer.presentKeyOutput,some layer.presentValueOutput) := by
  obtain ⟨pastKey,pastValue⟩ := past
  obtain ⟨presentKey,presentValue⟩ := present
  constructor
  · intro h
    cases pastKey with
    | none => exact nomatch h
    | some pk =>
      cases pastValue with
      | none => exact nomatch h
      | some pv =>
        cases presentKey with
        | none => exact nomatch h
        | some sk =>
          cases presentValue with
          | none => exact nomatch h
          | some sv =>
            obtain rfl := Option.some.inj h
            exact ⟨rfl,rfl⟩
  · intro h
    rw [h.1,h.2]
    rfl

theorem layerAt_eq_some_iff : layerAt (pastRe D) (presentRe D) inputs outputs i = some layer ↔
    ∀ slot : KvSlot, slot.lastAs D i (slot.names inputs outputs) = some (layer.name slot) := by
  unfold layerAt
  rw [kvLayer_eq_some_iff,Prod.mk.injEq,Prod.mk.injEq]
  constructor
  · rintro ⟨⟨hpk,hpv⟩,hsk,hsv⟩ slot
    cases slot with
    | pastKey => exact hpk
    | pastValue => exact hpv
    | presentKey => exact hsk
    | presentValue => exact hsv
  · exact fun h => ⟨⟨h .pastKey,h .pastValue⟩,h .presentKey,h .presentValue⟩

/-- An index other than zero is the number of its layer. -/
theorem hasNumber_of_layerAt (h : layerAt (pastRe D) (presentRe D) inputs outputs i = some layer) (hi : i ≠ 0) :
    layer.HasNumber D i :=
  fun slot => hasNumber_of_readAs (mem_of_lastAs (layerAt_eq_some_iff.mp h slot)).2 hi

theorem KvLayer.hasNumber_unique (h : layer.HasNumber D m) (h' : layer.HasNumber D n) : m = n :=
  Ort.hasNumber_unique (h .pastKey) (h' .pastKey)

/-- Where each slot has a name with the index there is a layer of the index. -/
theorem exists_layerAt (h : ∀ slot : KvSlot, ∃ name ∈ slot.names inputs outputs, slot.readAs D name = some i) :
    ∃ layer, layerAt (pastRe D) (presentRe D) inputs outputs i = some layer := by
  have hlast : ∀ slot : KvSlot, ∃ last, slot.lastAs D i (slot.names inputs outputs) = some last := by
    intro slot
    obtain ⟨name,hname,hread⟩ := h slot
    exact lastAs_of_mem hname hread
  obtain ⟨pk,hpk⟩ := hlast .pastKey
  obtain ⟨pv,hpv⟩ := hlast .pastValue
  obtain ⟨sk,hsk⟩ := hlast .presentKey
  obtain ⟨sv,hsv⟩ := hlast .presentValue
  refine ⟨⟨pk,pv,sk,sv⟩,layerAt_eq_some_iff.mpr ?_⟩
  intro slot
  cases slot with
  | pastKey => exact hpk
  | pastValue => exact hpv
  | presentKey => exact hsk
  | presentValue => exact hsv

theorem PairingLaw.zeroApart
    (h : PairingLaw D inputs outputs (pairKvLayers inputs outputs (pastRe D) (presentRe D))) :
    ZeroApart D inputs outputs := by
  constructor
  case one =>
    intro layer hlayer
    have hzero := layerAt_eq_some_iff.mpr hlayer
    obtain ⟨n,hn⟩ := h.named layer (mem_pairKvLayers_iff.mpr ⟨0,hzero⟩)
    refine ⟨n,fun slot => (hn slot).2,?_⟩
    intro i hi hin hnames
    obtain ⟨other,hother⟩ := exists_layerAt hnames
    have hlt := pairwise_pairKvLayers_iff.mp h.increasing 0 i layer other hi hzero hother n i
      (fun slot => (hn slot).2)
      (hasNumber_of_layerAt hother hi.ne')
    exact hlt.not_ge hin
  case sole =>
    intro n layer hsole hread slot
    obtain ⟨zero,hread⟩ := hread
    obtain ⟨i,hi⟩ := mem_pairKvLayers_iff.mp (h.complete n layer hsole)
    have hlast := layerAt_eq_some_iff.mp hi
    have hi' := (mem_of_lastAs (hlast zero)).2
    rw [hread] at hi'
    obtain rfl := Option.some.inj hi'
    exact ⟨layer.name slot,hlast slot,(hsole slot).2.1⟩

theorem ZeroApart.named (h : ZeroApart D inputs outputs)
    (hlayer : layerAt (pastRe D) (presentRe D) inputs outputs i = some layer) :
    ∃ n, layer.HasNumber D n ∧ ∀ j, i < j → j ≤ n →
      ¬∀ slot : KvSlot, ∃ name ∈ slot.names inputs outputs, slot.readAs D name = some j := by
  by_cases hi : i = 0
  · subst hi
    exact h.one layer (layerAt_eq_some_iff.mp hlayer)
  · exact ⟨i,hasNumber_of_layerAt hlayer hi,fun j hij hji => absurd hij (not_lt_of_ge hji)⟩

theorem ZeroApart.complete (h : ZeroApart D inputs outputs) (hsole : layer.Sole D inputs outputs n) :
    ∃ i, layerAt (pastRe D) (presentRe D) inputs outputs i = some layer := by
  by_cases hread : ∃ slot : KvSlot, slot.readAs D (layer.name slot) = some 0
  · refine ⟨0,layerAt_eq_some_iff.mpr ?_⟩
    intro slot
    obtain ⟨name,hlast,hn⟩ := h.sole n layer hsole hread slot
    rw [hlast,(hsole slot).2.2 name (mem_of_lastAs hlast).1 hn]
  · have hreadAs : ∀ slot : KvSlot, slot.readAs D (layer.name slot) = some n := fun slot =>
      (readAs_of_hasNumber (hsole slot).2.1).resolve_right fun hzero => hread ⟨slot,hzero⟩
    have hn : n ≠ 0 := by
      rintro rfl
      exact hread ⟨.pastKey,hreadAs .pastKey⟩
    refine ⟨n,layerAt_eq_some_iff.mpr ?_⟩
    intro slot
    apply lastAs_of_sole (hsole slot).1 (hreadAs slot)
    intro other hother hread'
    exact (hsole slot).2.2 other hother (hasNumber_of_readAs hread' hn)

/-- The layers are paired as promised exactly where the names that are read as zero stay apart. -/
theorem kv_pairing_iff (D : RegexCrate) (inputs outputs : List String) :
    PairingLaw D inputs outputs (pairKvLayers inputs outputs (pastRe D) (presentRe D)) ↔
      ZeroApart D inputs outputs := by
  constructor
  · exact PairingLaw.zeroApart
  intro h
  constructor
  case named =>
    intro layer hlayer
    obtain ⟨i,hi⟩ := mem_pairKvLayers_iff.mp hlayer
    obtain ⟨n,hn,-⟩ := h.named hi
    exact ⟨n,fun slot => ⟨(mem_of_lastAs (layerAt_eq_some_iff.mp hi slot)).1,hn slot⟩⟩
  case increasing =>
    apply pairwise_pairKvLayers_iff.mpr
    intro i j a b hij ha hb m n hm hn
    obtain ⟨m',hm',hbelow⟩ := h.named ha
    obtain rfl := KvLayer.hasNumber_unique hm' hm
    obtain rfl := KvLayer.hasNumber_unique (hasNumber_of_layerAt hb (Nat.ne_zero_of_lt hij)) hn
    by_contra hge
    apply hbelow j hij (not_lt.mp hge)
    intro slot
    obtain ⟨hmem,hread⟩ := mem_of_lastAs (layerAt_eq_some_iff.mp hb slot)
    exact ⟨b.name slot,hmem,hread⟩
  case complete =>
    intro n layer hsole
    exact mem_pairKvLayers_iff.mpr (h.complete hsole)

/-- The digits of ASCII alone, and the first way to spell a text. -/
def asciiRegex : RegexCrate where
  value c := if c.isDigit then some (c.toNat-48) else none
  captures := Piece.split
  ascii _ _ := rfl
  spells := Piece.split_spells
  finds := Piece.split_of_spells

/-- A number that is no word of 32 bits is read as zero, and the layer is paired with layer zero. -/
theorem kv_pairing_fails_above_u32 :
    ¬PairingLaw asciiRegex ["past.4294967296.key","past.4294967296.value"] ["present.0.key","present.0.value"]
      (pairKvLayers ["past.4294967296.key","past.4294967296.value"] ["present.0.key","present.0.value"]
        (pastRe asciiRegex) (presentRe asciiRegex)) := by
  intro hlaw
  have hlayer : layerAt (pastRe asciiRegex) (presentRe asciiRegex) ["past.4294967296.key","past.4294967296.value"]
      ["present.0.key","present.0.value"] 0 =
        some ⟨"past.4294967296.key","past.4294967296.value","present.0.key","present.0.value"⟩ :=
    kvLayer_eq_some_iff.mpr (by decide +kernel)
  obtain ⟨n,hn⟩ := hlaw.named _ (mem_pairKvLayers_iff.mpr ⟨0,hlayer⟩)
  have hpast : KvSlot.HasNumber asciiRegex .pastKey 4294967296 "past.4294967296.key" :=
    ⟨"4294967296".toList,⟨"past".toList,['.'],['.'],Piece.split_spells (by decide +kernel)⟩,by decide +kernel⟩
  have hpresent : KvSlot.HasNumber asciiRegex .presentKey 0 "present.0.key" :=
    ⟨"0".toList,⟨"present".toList,['.'],['.'],Piece.split_spells (by decide +kernel)⟩,by decide +kernel⟩
  have hlarge := hasNumber_unique hpast (hn .pastKey).2
  have hzero := hasNumber_unique hpresent (hn .presentKey).2
  omega

end Numbers
end RakkaInference.Ort
