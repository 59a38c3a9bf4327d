import RakkaInference.Core.Audio
import RakkaInference.Machine.Endings

/-! The downlink task of a transcription session. It reads the frames of the socket, holds the
chunks back until the session ends, and then sends them out. -/
namespace RakkaInference
open Machine

/-- What the downlink task of a provider makes of a text frame. -/
structure Dialect (ε ρ : Type) where
  /-- The provider, in the texts of the errors. -/
  name : String
  /-- The JSON library decodes an envelope. -/
  fromStr : String → Except String ε
  /-- The envelopes that bring a transcript. -/
  result? : ε → Option ρ
  /-- The result will not be revised. -/
  settled : ρ → Bool
  toChunk : ρ → TranscriptChunk

namespace Downlink
variable {ε ρ : Type}

/-- What follows the loop: the last chunk is made final when no chunk is. -/
def conclude (requestId : String) (sawFinal : Bool) (produced : List TranscriptChunk) : List TranscriptChunk :=
  if sawFinal then produced
  else match produced.getLast? with
    | some last => produced.dropLast++[{ last with isFinal := true }]
    | none => [{ requestId, isFinal := true }]

/-- Whether a close code is an error. -/
def badCode (code : ℕ) : Bool := code != 1000 && code != 1005 && code != 1006

/-- The loop over what the socket returns, and the items that the task sends in the end. A task that
waits for the socket has sent nothing. -/
def receive (d : Dialect ε ρ) (requestId : String) (emitInterim sawFinal : Bool)
    (produced : List TranscriptChunk) : List Ws.Received → Option (List (Except InferenceError TranscriptChunk))
  | [] => none
  | .ok (some (.text text))::rest =>
    match d.fromStr text with
    | .ok envelope =>
      match d.result? envelope with
      | some r =>
        if !emitInterim && !d.settled r then receive d requestId emitInterim sawFinal produced rest
        else
          let chunk := d.toChunk r
          receive d requestId emitInterim (sawFinal || chunk.isFinal) (produced++[chunk]) rest
      | none => receive d requestId emitInterim sawFinal produced rest
    | .error e =>
      -- the error is sent at once, and the chunks after it
      some (.error (.internal s!"{d.name} envelope decode: {e}")::
        (conclude requestId sawFinal produced).map .ok)
  | .ok (some (.binary _))::rest | .ok (some (.ping _))::rest | .ok (some (.pong _))::rest =>
    receive d requestId emitInterim sawFinal produced rest
  | .ok (some (.close code reason))::_ =>
    if badCode code then
      some [.error (.networkError s!"{d.name} closed code={code} reason={reason}")]
    else some ((conclude requestId sawFinal produced).map .ok)
  | .ok none::_ => some ((conclude requestId sawFinal produced).map .ok)
  | .error e::_ => some [.error (.networkError s!"{d.name} ws recv: {e}")]

/-- The items that the task sends for what the socket returned. -/
def run (d : Dialect ε ρ) (requestId : String) (emitInterim : Bool) (frames : List Ws.Received) :
    Option (List (Except InferenceError TranscriptChunk)) :=
  receive d requestId emitInterim false [] frames

/-! The frames of a session, by what they are to the task. -/

/-- The socket is done. -/
def closes : Ws.Received → Bool
  | .error _ | .ok none | .ok (some (.close _ _)) => true
  | _ => false

/-- The socket is done with an error. -/
def fails : Ws.Received → Bool
  | .error _ => true
  | .ok (some (.close code _)) => badCode code
  | _ => false

/-- An envelope that does not decode. -/
def malformed (d : Dialect ε ρ) : Ws.Received → Bool
  | .ok (some (.text text)) =>
    match d.fromStr text with
    | .ok _ => false
    | .error _ => true
  | _ => false

/-- The frame ends the session. -/
def ends (d : Dialect ε ρ) (frame : Ws.Received) : Bool := closes frame || malformed d frame

/-- The chunk of a frame whose result the caller wants. -/
def wanted (d : Dialect ε ρ) (emitInterim : Bool) : Ws.Received → Option TranscriptChunk
  | .ok (some (.text text)) =>
    match d.fromStr text with
    | .ok envelope => ((d.result? envelope).filter fun r => emitInterim || d.settled r).map d.toChunk
    | .error _ => none
  | _ => none

/-- The chunks of the results that the caller wants. -/
def chunks (d : Dialect ε ρ) (emitInterim : Bool) (frames : List Ws.Received) : List TranscriptChunk :=
  frames.filterMap (wanted d emitInterim)

variable {d : Dialect ε ρ} {requestId : String} {emitInterim sawFinal : Bool}
  {produced : List TranscriptChunk} {frame : Ws.Received} {frames rest : List Ws.Received}

/-- A frame that does not end the session adds its chunk. -/
theorem receive_cons (hcloses : closes frame = false) (hmalformed : malformed d frame = false) :
    receive d requestId emitInterim sawFinal produced (frame::rest) =
      receive d requestId emitInterim (sawFinal || (wanted d emitInterim frame).any (·.isFinal))
        (produced++(wanted d emitInterim frame).toList) rest := by
  match frame with
  | .ok (some (.text text)) =>
    simp only [receive,wanted]
    simp only [malformed] at hmalformed
    cases henvelope : d.fromStr text with
    | error e => simp [henvelope] at hmalformed
    | ok envelope =>
      cases hresult : d.result? envelope with
      | none => simp [hresult]
      | some r =>
        -- kept as an interim result, as a settled one, as both, or passed by
        cases emitInterim <;> cases hsettled : d.settled r <;> simp [hresult,hsettled,Option.filter]
  | .ok (some (.binary _)) | .ok (some (.ping _)) | .ok (some (.pong _)) => simp [receive,wanted]
  | .ok (some (.close _ _)) | .ok none | .error _ => exact nomatch hcloses

/-- Frames that do not end the session add their chunks. -/
theorem receive_append (hcloses : ∀ frame ∈ frames, closes frame = false)
    (hmalformed : ∀ frame ∈ frames, malformed d frame = false) :
    receive d requestId emitInterim sawFinal produced (frames++rest) =
      receive d requestId emitInterim (sawFinal || (chunks d emitInterim frames).any (·.isFinal))
        (produced++chunks d emitInterim frames) rest := by
  induction frames generalizing sawFinal produced with
  | nil => simp [chunks]
  | cons frame frames ih =>
    obtain ⟨hframe,hframes⟩ := List.forall_mem_cons.1 hcloses
    obtain ⟨hframe',hframes'⟩ := List.forall_mem_cons.1 hmalformed
    rw [List.cons_append,receive_cons hframe hframe',ih hframes hframes']
    cases hwanted : wanted d emitInterim frame <;> simp [chunks,hwanted,Bool.or_assoc]

/-- The items of a task that has held back some chunks when the session ends. -/
def concluded (requestId : String) (held : List TranscriptChunk) : List (Except InferenceError TranscriptChunk) :=
  (conclude requestId (held.any (·.isFinal)) held).map .ok

/-- How a session ends, and what the task sends then. -/
inductive Ending (d : Dialect ε ρ) (requestId : String) (held : List TranscriptChunk) (frame : Ws.Received) :
    List (Except InferenceError TranscriptChunk) → Prop
  | malformed (hmalformed : malformed d frame = true) (e : InferenceError) :
      Ending d requestId held frame (.error e::concluded requestId held)
  | failed (hcloses : closes frame = true) (hfails : fails frame = true) (e : InferenceError) :
      Ending d requestId held frame [.error e]
  | clean (hcloses : closes frame = true) (hfails : fails frame = false) :
      Ending d requestId held frame (concluded requestId held)

theorem ending_receive (h : ends d frame = true) :
    ∃ items, receive d requestId emitInterim (produced.any (·.isFinal)) produced (frame::rest) = some items ∧
      Ending d requestId produced frame items := by
  match frame with
  | .ok (some (.text text)) =>
    have hmalformed : malformed d (.ok (some (.text text))) = true := h
    simp only [receive]
    cases henvelope : d.fromStr text with
    | error e => exact ⟨_,rfl,.malformed hmalformed _⟩
    | ok envelope => simp [malformed,henvelope] at hmalformed
  | .ok (some (.close code reason)) =>
    simp only [receive]
    by_cases hcode : badCode code = true
    · have hfails : fails (.ok (some (.close code reason))) = true := hcode
      rw [if_pos hcode]
      exact ⟨_,rfl,.failed rfl hfails _⟩
    · have hfails : fails (.ok (some (.close code reason))) = false := by simpa [fails] using hcode
      rw [if_neg hcode]
      exact ⟨_,rfl,.clean rfl hfails⟩
  | .ok none => exact ⟨_,rfl,.clean rfl rfl⟩
  | .error e => exact ⟨_,rfl,.failed rfl rfl _⟩
  | .ok (some (.binary _)) | .ok (some (.ping _)) | .ok (some (.pong _)) => exact nomatch h

/-- The task sends its items when the session ends, and reads no further. -/
theorem run_ending (requestId : String) (emitInterim : Bool) (rest : List Ws.Received)
    (hcloses : ∀ frame ∈ frames, closes frame = false)
    (hmalformed : ∀ frame ∈ frames, malformed d frame = false) (h : ends d frame = true) :
    ∃ items, run d requestId emitInterim (frames++frame::rest) = some items ∧
      Ending d requestId (chunks d emitInterim frames) frame items := by
  rw [run,receive_append hcloses hmalformed,Bool.false_or,List.nil_append]
  exact ending_receive h

theorem ends_of_closes (h : closes frame = true) : ends d frame = true := by
  rw [ends,h,Bool.true_or]

theorem ends_of_malformed (h : malformed d frame = true) : ends d frame = true := by
  rw [ends,h,Bool.or_true]

theorem fails_of_closes (h : closes frame = false) : fails frame = false := by
  match frame with
  | .error _ | .ok (some (.close _ _)) => exact nomatch h
  | .ok none | .ok (some (.text _)) | .ok (some (.binary _)) | .ok (some (.ping _)) | .ok (some (.pong _)) => rfl

theorem malformed_of_closes (h : closes frame = true) : malformed d frame = false := by
  match frame with
  | .error _ | .ok none | .ok (some (.close _ _)) => rfl
  | .ok (some (.text _)) | .ok (some (.binary _)) | .ok (some (.ping _)) | .ok (some (.pong _)) => exact nomatch h

/-- The frame that ends a session has no chunk. -/
theorem wanted_of_ending (h : ends d frame = true) : wanted d emitInterim frame = none := by
  match frame with
  | .ok (some (.text text)) =>
    have hmalformed : malformed d (.ok (some (.text text))) = true := h
    simp only [malformed] at hmalformed
    simp only [wanted]
    cases henvelope : d.fromStr text with
    | error e => rfl
    | ok envelope => simp [henvelope] at hmalformed
  | .error _ | .ok none | .ok (some (.close _ _)) | .ok (some (.binary _)) | .ok (some (.ping _))
  | .ok (some (.pong _)) => rfl

theorem chunks_snoc_of_ending (h : ends d frame = true) :
    chunks d emitInterim (frames++[frame]) = chunks d emitInterim frames := by
  rw [chunks,List.filterMap_append,List.filterMap_cons_none (wanted_of_ending h),List.filterMap_nil,
    List.append_nil,chunks]

/-! What is sent out when a session ends without an error of the socket. -/

/-- At most one error, which comes last; and without an error the last chunk is final. -/
def Terminated (items : List (Except InferenceError TranscriptChunk)) : Prop :=
  (∀ item ∈ items.dropLast, item.isOk = true) ∧
    ((∀ item ∈ items, item.isOk = true) → ∃ chunk, items.getLast? = some (.ok chunk) ∧ chunk.isFinal = true)

theorem conclude_ne_nil {held : List TranscriptChunk} :
    conclude requestId (held.any (·.isFinal)) held ≠ [] := by
  unfold conclude
  split
  case isTrue h =>
    rintro rfl
    exact nomatch h
  case isFalse h => split <;> simp

/-- The last chunk is final when no chunk was, or the last one was. -/
theorem terminated_concluded_iff {held : List TranscriptChunk} :
    Terminated (concluded requestId held) ↔
      (∀ c ∈ held, c.isFinal = false) ∨ ∃ c, held.getLast? = some c ∧ c.isFinal = true := by
  have hok : ∀ item ∈ concluded requestId held, item.isOk = true := by
    intro item hitem
    obtain ⟨c,-,rfl⟩ := List.mem_map.1 hitem
    rfl
  have hlast : Terminated (concluded requestId held) ↔
      ∃ c, (conclude requestId (held.any (·.isFinal)) held).getLast? = some c ∧ c.isFinal = true := by
    refine ⟨?_,?_⟩
    · rintro ⟨-,hfinal⟩
      obtain ⟨c,hc,hcfinal⟩ := hfinal hok
      refine ⟨c,?_,hcfinal⟩
      simpa [concluded,List.getLast?_map] using hc
    · rintro ⟨c,hc,hcfinal⟩
      refine ⟨fun item hitem => hok item ((List.dropLast_sublist _).subset hitem),fun _ => ⟨c,?_,hcfinal⟩⟩
      rw [concluded,List.getLast?_map,hc]
      rfl
  rw [hlast,conclude]
  cases hany : held.any (·.isFinal) with
  | true =>
    have hsome : ¬ ∀ c ∈ held, c.isFinal = false := by
      simpa using hany
    simp [hsome]
  | false =>
    refine iff_of_true ?_ (.inl (by simpa using hany))
    cases hheld : held.getLast? with
    | none => exact ⟨_,rfl,rfl⟩
    | some last => exact ⟨{ last with isFinal := true },by simp,rfl⟩

/-- The chunk but for its flag. -/
def unmark (c : TranscriptChunk) : TranscriptChunk := { c with isFinal := false }

/-- Besides the chunks there is at most the terminal one of an empty transcript. -/
theorem unmark_conclude {held : List TranscriptChunk} (sawFinal : Bool) :
    (conclude requestId sawFinal held).map unmark = held.map unmark ∨
      held = [] ∧ (conclude requestId sawFinal held).map unmark = [{ requestId, isFinal := false }] := by
  unfold conclude
  split
  · exact .inl rfl
  · cases hheld : held.getLast? with
    | none => exact .inr ⟨List.getLast?_eq_none_iff.1 hheld,rfl⟩
    | some last =>
      obtain ⟨init,rfl⟩ := List.getLast?_eq_some_iff.1 hheld
      left
      simp [unmark]

/-- An error that is followed by chunks is not the last item. -/
theorem not_terminated_malformed {held : List TranscriptChunk} (e : InferenceError) :
    ¬ Terminated (.error e::concluded requestId held) := by
  rintro ⟨hinit,-⟩
  have hne : concluded requestId held ≠ [] := by simpa [concluded] using conclude_ne_nil
  have hmem : (.error e : Except InferenceError TranscriptChunk) ∈
      (.error e::concluded requestId held).dropLast := by
    rw [List.dropLast_cons_of_ne_nil hne]
    exact List.mem_cons_self
  exact nomatch hinit _ hmem

theorem terminated_error (e : InferenceError) : Terminated [.error e] := by
  refine ⟨nofun,?_⟩
  intro hok
  exact nomatch hok _ List.mem_cons_self

/-- The task sends out a sequence that terminates. -/
def Terminates (d : Dialect ε ρ) (requestId : String) (emitInterim : Bool) (frames : List Ws.Received) : Prop :=
  ∃ items, run d requestId emitInterim frames = some items ∧ Terminated items

/-- A session that no malformed envelope disturbs, and that ends with an error of the socket, or
without a final chunk, or with one at the end. -/
def Undisturbed (d : Dialect ε ρ) (emitInterim : Bool) (frames : List Ws.Received) : Prop :=
  (∀ frame ∈ frames, malformed d frame = false) ∧
    ((∃ frame ∈ frames, fails frame = true) ∨ (∀ c ∈ chunks d emitInterim frames, c.isFinal = false) ∨
      ∃ c, (chunks d emitInterim frames).getLast? = some c ∧ c.isFinal = true)

/-- The first malformed envelope makes the task send an error, and its chunks after it. -/
theorem not_terminates_of_malformed {before after : List Ws.Received}
    (hcloses : ∀ x ∈ before++frame::after, closes x = false)
    (hbefore : ∀ x ∈ before, malformed d x = false) (hframe : malformed d frame = true) :
    ¬ Terminates d requestId emitInterim (before++frame::after++rest) := by
  have hinit : ∀ x ∈ before, closes x = false := fun x hx => hcloses x (by simp [hx])
  have hopen : closes frame = false := hcloses frame (by simp)
  obtain ⟨items,hrun,hending⟩ :=
    run_ending requestId emitInterim (after++rest) hinit hbefore (ends_of_malformed hframe)
  rintro ⟨items',hrun',hterminated⟩
  rw [List.append_assoc,List.cons_append,hrun] at hrun'
  obtain rfl := Option.some.inj hrun'
  cases hending with
  | malformed _ e => exact not_terminated_malformed e hterminated
  | failed hcloses _ _ => simp [hopen] at hcloses
  | clean hcloses _ => simp [hopen] at hcloses

theorem terminates_iff (h : EndsOnce closes frames) :
    Terminates d requestId emitInterim frames ↔ Undisturbed d emitInterim frames := by
  obtain ⟨init,last,rfl,hlast,hinit⟩ := h
  by_cases hmalformed : ∃ frame ∈ init, malformed d frame = true
  · obtain ⟨before,bad,after,rfl,hbad,hbefore⟩ := exists_first hmalformed
    refine iff_of_false (not_terminates_of_malformed hinit hbefore hbad) ?_
    rintro ⟨hnone,-⟩
    simp [hnone bad (by simp)] at hbad
  · have hplain : ∀ frame ∈ init, malformed d frame = false := by simpa using hmalformed
    have hall : ∀ frame ∈ init++[last], malformed d frame = false := by
      simpa [or_imp,forall_and] using ⟨hplain,malformed_of_closes hlast⟩
    obtain ⟨items,hrun,hending⟩ := run_ending requestId emitInterim [] hinit hplain (ends_of_closes hlast)
    have hterminates : Terminates d requestId emitInterim (init++[last]) ↔ Terminated items := by
      simp [Terminates,hrun]
    rw [hterminates,Undisturbed,and_iff_right hall,chunks_snoc_of_ending (ends_of_closes hlast)]
    cases hending with
    | malformed hbad _ => simp [malformed_of_closes hlast] at hbad
    | failed _ hfails e => exact iff_of_true (terminated_error e) (.inl ⟨last,by simp,hfails⟩)
    | clean _ hfails =>
      have hno : ¬ ∃ frame ∈ init++[last], fails frame = true := by
        simpa [or_imp,forall_and,hfails] using fun frame hframe => fails_of_closes (hinit frame hframe)
      rw [terminated_concluded_iff,or_iff_right hno]

/-- The task sends out the chunks, in order and each one once, up to their flags. -/
def Delivers (d : Dialect ε ρ) (requestId : String) (emitInterim : Bool) (frames : List Ws.Received) : Prop :=
  ∃ items, run d requestId emitInterim frames = some items ∧
    ((items.filterMap Except.toOption).map unmark = (chunks d emitInterim frames).map unmark ∨
      chunks d emitInterim frames = [] ∧
        (items.filterMap Except.toOption).map unmark = [{ requestId, isFinal := false }])

theorem filterMap_concluded (held : List TranscriptChunk) :
    (concluded requestId held).filterMap Except.toOption = conclude requestId (held.any (·.isFinal)) held := by
  rw [concluded,List.filterMap_map]
  exact List.filterMap_some

theorem delivers_iff (h : EndsOnce (ends d) frames) :
    Delivers d requestId emitInterim frames ↔
      (∀ frame ∈ frames, fails frame = false) ∨ chunks d emitInterim frames = [] := by
  obtain ⟨init,last,rfl,hlast,hinit⟩ := h
  have hcloses : ∀ frame ∈ init, closes frame = false := fun x hx => (Bool.or_eq_false_iff.1 (hinit x hx)).1
  have hplain : ∀ frame ∈ init, malformed d frame = false := fun x hx => (Bool.or_eq_false_iff.1 (hinit x hx)).2
  obtain ⟨items,hrun,hending⟩ := run_ending requestId emitInterim [] hcloses hplain hlast
  have hquiet : (∀ frame ∈ init++[last], fails frame = false) ↔ fails last = false := by
    simpa [or_imp,forall_and] using fun _ x hx => fails_of_closes (hcloses x hx)
  simp only [Delivers,chunks_snoc_of_ending hlast,hrun,Option.some.injEq,exists_eq_left',hquiet]
  cases hending with
  | malformed hbad e =>
    have hopen : closes last = false := by
      rw [Bool.eq_false_iff]
      intro hclosed
      simp [malformed_of_closes hclosed] at hbad
    refine iff_of_true ?_ (.inl (fails_of_closes hopen))
    rw [List.filterMap_cons_none rfl,filterMap_concluded]
    exact unmark_conclude _
  | failed _ hfails e =>
    rw [List.filterMap_cons_none rfl,List.filterMap_nil]
    refine ⟨?_,?_⟩
    · rintro (hsame | ⟨hnone,-⟩)
      · exact .inr (List.map_eq_nil_iff.1 hsame.symm)
      · exact .inr hnone
    · rintro (hquiet | hnone)
      · simp [hfails] at hquiet
      · exact .inl (by rw [hnone])
  | clean _ hfails =>
    refine iff_of_true ?_ (.inl hfails)
    rw [filterMap_concluded]
    exact unmark_conclude _

end Downlink
end RakkaInference
