import RakkaInference.Ort.Generate

/-! The text that the loop streams is the text of its tokens. -/
namespace RakkaInference.Ort
open Machine
variable {Rng : Type} {out : Outside Rng} {args : Args} {s t u : State Rng} {id : UInt32} {full prev : String}
  {rng : Rng}

/-- A decoding that ends with a whole character is the start of every later one. -/
def Steady (decode : List UInt32 → Except String String) (ids : List UInt32) : Prop :=
  ∀ a b text text', a ≠ [] → a <+: b → b <+: ids → decode a = .ok text → decode b = .ok text' →
    endsIncomplete text = false → text.toList <+: text'.toList

def sentText (s : State Rng) : String := String.join (s.sent.map (·.textDelta))

/-- What has been sent is a decoding of sampled tokens that ends with a whole character. -/
structure Told (out : Outside Rng) (args : Args) (s : State Rng) : Prop where
  text : sentText s = s.prevFullDecoded
  whole : ∀ c ∈ s.sent, endsIncomplete c.textDelta = false
  decoded : s.prevFullDecoded = "" ∨ ∃ a, a ≠ [] ∧ a <+: s.generated args ∧
    out.decode a = .ok s.prevFullDecoded ∧ endsIncomplete s.prevFullDecoded = false

theorem told_start (out : Outside Rng) (args : Args) (rng : Rng) : Told out args (start args rng) :=
  ⟨rfl,nofun,.inl rfl⟩

theorem prefix_append (prev rest : String) : prev.toList <+: (prev++rest).toList := by
  rw [String.toList_append]
  exact List.prefix_append _ _

theorem decodeDelta_append (prev rest : String) :
    decodeDelta prev (prev++rest) = if endsIncomplete rest then ("",false) else (rest,true) := by
  have hrest : String.ofList ((prev++rest).toList.drop prev.toList.length) = rest := by
    rw [String.toList_append,List.drop_left,String.ofList_toList]
  rw [decodeDelta,if_pos (prefix_append prev rest),hrest]

theorem endsIncomplete_append {rest : String} (h : rest ≠ "") :
    endsIncomplete (prev++rest) = endsIncomplete rest := by
  have hne : rest.toList ≠ [] := by simpa using h
  rw [endsIncomplete,endsIncomplete,String.toList_append,List.getLast?_append_of_ne_nil _ hne]

/-- The text before a step is the start of the text behind it. -/
theorem Told.prefix_of_emitted (h : Told out args s) (hs : Going args s) (hu : Emitted out args s id full u)
    (hsteady : Steady out.decode (u.generated args)) : s.prevFullDecoded.toList <+: full.toList := by
  obtain hempty | ⟨a,hne,hpre,hdecode,hwhole⟩ := h.decoded
  · rw [hempty]
    exact List.nil_prefix
  · rw [hu.generated hs] at hsteady
    have hdecoded := hu.decoded
    rw [hu.generated hs] at hdecoded
    exact hsteady a _ _ _ hne (hpre.trans (List.prefix_append _ _)) (List.prefix_refl _) hdecode hdecoded hwhole

/-- A step that sends nothing, and keeps to the same decoding. -/
theorem Told.kept (h : Told out args s) (hsent : u.sent = s.sent) (hprev : u.prevFullDecoded = s.prevFullDecoded)
    (hpre : s.generated args <+: u.generated args) : Told out args u := by
  constructor
  case text =>
    rw [sentText,hsent,hprev]
    exact h.text
  case whole =>
    rw [hsent]
    exact h.whole
  case decoded =>
    rw [hprev]
    refine h.decoded.imp_right ?_
    intro ⟨a,hne,ha,hdecode⟩
    exact ⟨a,hne,ha.trans hpre,hdecode⟩

/-- A step that sends the rest of what it decodes. -/
theorem Told.grown (h : Told out args s) {rest : String} (hrest : rest ≠ "") (hwhole : endsIncomplete rest = false)
    (hsent : u.sent = s.sent++[{ requestId := args.requestId, textDelta := rest }])
    (hprev : u.prevFullDecoded = s.prevFullDecoded++rest) (hne : u.generated args ≠ [])
    (hdecode : out.decode (u.generated args) = .ok (s.prevFullDecoded++rest)) : Told out args u := by
  constructor
  case text =>
    rw [sentText,hsent,hprev,List.map_append,String.join_append,List.map_singleton,String.join_cons,String.join_nil,
      String.append_empty]
    exact congrArg (·++rest) h.text
  case whole =>
    intro c hc
    rw [hsent,List.mem_append] at hc
    obtain hc | hc := hc
    · exact h.whole c hc
    · rw [List.mem_singleton.mp hc]
      exact hwhole
  case decoded =>
    rw [hprev]
    exact .inr ⟨u.generated args,hne,List.prefix_refl _,hdecode,(endsIncomplete_append hrest).trans hwhole⟩

/-- Each step keeps to what has been decoded. -/
theorem Told.emitted (h : Told out args s) (hs : Going args s) (hu : Emitted out args s id full u)
    (hsteady : Steady out.decode (u.generated args)) : Told out args u := by
  obtain ⟨rest,rfl⟩ := exists_of_prefix (h.prefix_of_emitted hs hu hsteady)
  have hpre := hu.prefix_generated hs
  have hsent := hu.sent
  have hprev := hu.prevFullDecoded
  rw [deltaChunks,decodeDelta_append] at hsent
  rw [decodeDelta_append] at hprev
  cases hwhole : endsIncomplete rest with
  | true =>
    rw [hwhole] at hsent hprev
    exact h.kept (hsent.trans (List.append_nil _)) hprev hpre
  | false =>
    rw [hwhole] at hsent hprev
    by_cases hrest : rest = ""
    · subst hrest
      exact h.kept (hsent.trans (List.append_nil _)) (hprev.trans String.append_empty) hpre
    · have hisEmpty : ¬ rest.isEmpty := fun hempty => hrest (String.isEmpty_iff.mp hempty)
      have hchunk := hsent.trans (congrArg (s.sent++·) (if_neg hisEmpty))
      have hne : u.generated args ≠ [] := by
        rw [hu.generated hs]
        exact List.append_ne_nil_of_right_ne_nil _ (List.cons_ne_nil _ _)
      exact h.grown hrest hwhole hchunk hprev hne hu.decoded

/-- The ids of an earlier step are the first ones of a later step. -/
theorem Steady.of_prefix {decode : List UInt32 → Except String String} {ids ids' : List UInt32}
    (h : Steady decode ids') (hpre : ids <+: ids') : Steady decode ids :=
  fun a b text text' hne hab hb => h a b text text' hne hab (hb.trans hpre)

/-- Wherever the loop comes, it has told what it decoded, if the decoding was steady that far. -/
theorem rounds_told (h : Rounds (round out args) (start args rng) s) :
    Going args s ∧ (Steady out.decode (s.generated args) → Told out args s) := by
  apply h.invariant (I := fun s => Going args s ∧ (Steady out.decode (s.generated args) → Told out args s))
  · rintro s t ⟨hs,htold⟩ hround
    refine ⟨hs.next hround,?_⟩
    intro hsteady
    obtain ⟨id,full,u,hemits,-,rfl⟩ := round_inl hround
    have hu := hemits.emitted
    have hsteady' : Steady out.decode (u.generated args) := hsteady
    obtain ⟨htext,hwhole,hdecoded⟩ := (htold (hsteady'.of_prefix (hu.prefix_generated hs))).emitted hs hu hsteady'
    exact ⟨htext,hwhole,hdecoded⟩
  · exact ⟨going_start args rng,fun _ => told_start out args rng⟩

theorem tail_append (prev rest : String) : tail prev (prev++rest) = rest := by
  unfold tail
  split
  case isTrue h =>
    rw [sliceFrom_append]
    rfl
  case isFalse h =>
    rw [byteLen_append] at h
    exact (eq_empty_of_byteLen rest (by
      by_contra hne
      exact h ⟨by omega,prefix_append prev rest⟩)).symm

/-- If every chunk is read, the texts of the chunks come to the text of all sampled tokens, and none but the
last can end within a character. Where arrays are checked as the library does, a run on a model with layers has no
token and no text. -/
theorem streamed_text_eq (out : Outside Rng) (args : Args) (rng : Rng) (hreads : ∀ n, out.reads n) :
    ∃ e, (∀ fuel, args.maxNew.toNat < fuel → runLoop out args fuel rng = e) ∧ e ≠ .exhausted ∧
      (NoStepFails out args rng → ∃ v, e = .returned (v,.ok ())) ∧
      (∀ v, e = .returned (v,.ok ()) → Steady out.decode (v.generated args) →
        out.decode (v.generated args) = .ok (sentText v) ∧
          ∀ c ∈ v.sent.dropLast, endsIncomplete c.textDelta = false) ∧
      (ChecksShape out.fromArray → args.topo.kvLayers ≠ [] →
        ∃ message, e = .returned (start args rng,.error (.badRequest message))) := by
  obtain ⟨e,hrun,hends,hok,hfinishes⟩ := runLoop_result hreads rng
  have hchecked : ChecksShape out.fromArray → args.topo.kvLayers ≠ [] →
      ∃ message, e = .returned (start args rng,.error (.badRequest message)) := by
    intro hchecks hkv
    obtain ⟨message,hrefused⟩ := runLoop_refused hchecks hkv rng
    refine ⟨message,?_⟩
    rw [← hrun _ (Nat.lt_succ_self _),hrefused _ (Nat.succ_pos _)]
  refine ⟨e,hrun,hends,hok,?_,hchecked⟩
  intro v hv hsteady
  obtain ⟨s,id,full,u,reason,hrounds,hs,hemits,-,rfl⟩ := hfinishes v hv
  have hu := hemits.emitted
  have hsteady' : Steady out.decode (u.generated args) := hsteady
  have htold := (rounds_told hrounds).2 (hsteady'.of_prefix (hu.prefix_generated hs))
  have hafter := htold.emitted hs hu hsteady'
  have hstart : u.prevFullDecoded.toList <+: full.toList := by
    rw [hu.prevFullDecoded]
    split
    · exact List.prefix_refl _
    · exact htold.prefix_of_emitted hs hu hsteady'
  obtain ⟨rest,hrest⟩ := exists_of_prefix hstart
  constructor
  · have htext : sentText { u with sent := u.sent++[lastChunk args u full reason] } = full := by
      rw [sentText,List.map_append,String.join_append,List.map_singleton,String.join_cons,String.join_nil,
        String.append_empty,lastChunk,hrest,tail_append]
      exact congrArg (·++rest) hafter.text
    rw [htext]
    exact hu.decoded
  · intro c hc
    rw [List.dropLast_concat] at hc
    exact hafter.whole c hc

theorem steady_toy (ids : List UInt32) : Steady toy.decode ids := by
  intro a b text text' _ hab _ htext htext' _
  obtain rfl := Except.ok.inj htext
  obtain rfl := Except.ok.inj htext'
  rw [String.toList_ofList,String.toList_ofList]
  exact hab.map _

/-- Without layers two tokens are sampled, and their text is sent. With a layer the first step fails. -/
theorem streamed_text_eq_toy :
    (∃ v, runLoop toy (toyArgs bareTopology 2) 3 () = .returned (v,.ok ()) ∧
      toy.decode (v.generated (toyArgs bareTopology 2)) = .ok (sentText v)) ∧
      ∃ message, runLoop toy (toyArgs toyTopology 2) 3 () =
        .returned (start (toyArgs toyTopology 2) (),.error (.badRequest message)) := by
  obtain ⟨e,hrun,-,hok,htext,-⟩ := streamed_text_eq toy (toyArgs bareTopology 2) () fun _ => rfl
  obtain ⟨e',hrun',-,-,-,hchecked⟩ := streamed_text_eq toy (toyArgs toyTopology 2) () fun _ => rfl
  obtain ⟨v,rfl⟩ := hok toy_noStepFails
  obtain ⟨message,rfl⟩ := hchecked checksShape_checkedArray (List.cons_ne_nil _ _)
  exact ⟨⟨v,hrun 3 (by decide),(htext v rfl (steady_toy _)).1⟩,message,hrun' 3 (by decide)⟩

end RakkaInference.Ort
