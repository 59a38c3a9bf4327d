import RakkaInference.Providers.Sse

/-! The Gemini runner: the lifting of the event stream of `streamGenerateContent`, and the chunk
that is built from a response which was not streamed. -/
namespace RakkaInference.Gemini

structure ResponsePart where
  text : Option String := none

structure ResponseContent where
  parts : List ResponsePart := []

structure Candidate where
  content : Option ResponseContent := none
  finishReason : Option String := none

structure UsageMetadata where
  promptTokenCount : UInt32 := 0
  candidatesTokenCount : UInt32 := 0
  cachedContentTokenCount : UInt32 := 0

structure GenerateContentResponse where
  candidates : List Candidate := []
  usageMetadata : Option UsageMetadata := none

def mapFinish : String → FinishReason
  | "STOP" => .stop
  | "MAX_TOKENS" => .length
  | "SAFETY" => .contentFilter
  | _ => .stop

def UsageMetadata.toTokenUsage (u : UsageMetadata) : TokenUsage where
  inputTokens := u.promptTokenCount
  outputTokens := u.candidatesTokenCount
  cachedTokens := u.cachedContentTokenCount

/-- The loop over the parts of a candidate. -/
def pushParts (text : String) (c : Candidate) : String :=
  match c.content with
  | some content => content.parts.foldl (fun text p => match p.text with
      | some t => text++t
      | none => text) text
  | none => text

/-- The loop over the candidates, which stands in both branches. -/
def readCandidates (candidates : List Candidate) : String × Option FinishReason :=
  candidates.foldl (fun (text,finish) c =>
    (pushParts text c,
     match c.finishReason with
      | some s => some (mapFinish s)
      | none => finish)) ("",none)

/-- The JSON library decodes the data with `fromStr`. -/
def liftChunk (fromStr : String → Except String GenerateContentResponse) (requestId : String)
    (sc : SseChunk) : Option (Except InferenceError TokenChunk) :=
  if sc.data = "" then none
  else match fromStr sc.data with
    | .error e => some (.error (.internal s!"gemini chunk decode: {e}"))
    | .ok parsed => some (.ok
        { requestId
          textDelta := (readCandidates parsed.candidates).1
          usage := parsed.usageMetadata.map UsageMetadata.toTokenUsage
          finishReason := (readCandidates parsed.candidates).2 })

/-- The stream that `execute` hands out for a streaming batch. -/
def streamed (fromStr : String → Except String GenerateContentResponse) (requestId : String)
    (items : List (Except InferenceError SseChunk)) : List (Except InferenceError TokenChunk) :=
  liftStream (liftChunk fromStr requestId) items

/-- The one chunk that `execute` builds for a batch which does not stream. -/
def unary (requestId : String) (parsed : GenerateContentResponse) : TokenChunk where
  requestId := requestId
  textDelta := (readCandidates parsed.candidates).1
  usage := parsed.usageMetadata.map UsageMetadata.toTokenUsage
  finishReason := (readCandidates parsed.candidates).2.or (some .stop)

/-! How `streamGenerateContent` streams a response. -/

/-- The texts of the parts, in order. -/
def Candidate.texts (c : Candidate) : List String :=
  (c.content.getD {}).parts.filterMap ResponsePart.text

/-- No count is above the other's. -/
def UsageMetadata.AtMost (u v : UsageMetadata) : Prop :=
  u.promptTokenCount ≤ v.promptTokenCount ∧ u.candidatesTokenCount ≤ v.candidatesTokenCount ∧
    u.cachedContentTokenCount ≤ v.cachedContentTokenCount

/-- A stream of a response with one candidate: the chunks before the last one, and the last one.
The texts are split in any way, and the usage that a chunk reports is the total so far. -/
structure Streams (resp : GenerateContentResponse) (init : List GenerateContentResponse)
    (last : GenerateContentResponse) : Prop where
  single : resp.candidates.length = 1
  singles : ∀ chunk ∈ init++[last], chunk.candidates.length = 1
  text : String.join ((init++[last]).flatMap fun chunk => chunk.candidates.flatMap Candidate.texts) =
    String.join (resp.candidates.flatMap Candidate.texts)
  unfinished : ∀ chunk ∈ init, ∀ c ∈ chunk.candidates, c.finishReason = none
  finish : last.candidates.map Candidate.finishReason = resp.candidates.map Candidate.finishReason
  usage : last.usageMetadata = resp.usageMetadata
  totals : ((init++[last]).filterMap GenerateContentResponse.usageMetadata).Pairwise UsageMetadata.AtMost
  reported : resp.usageMetadata = none → ∀ chunk ∈ init, chunk.usageMetadata = none

structure Carries (fromStr : String → Except String GenerateContentResponse)
    (chunk : GenerateContentResponse) (sc : SseChunk) : Prop where
  data : sc.data ≠ ""
  decodes : fromStr sc.data = .ok chunk

/-- The chunk that is lifted from a decoded one. -/
def chunkOf (requestId : String) (parsed : GenerateContentResponse) : TokenChunk where
  requestId := requestId
  textDelta := (readCandidates parsed.candidates).1
  usage := parsed.usageMetadata.map UsageMetadata.toTokenUsage
  finishReason := (readCandidates parsed.candidates).2

variable {fromStr : String → Except String GenerateContentResponse} {requestId : String}
  {resp last chunk : GenerateContentResponse} {init : List GenerateContentResponse} {c : Candidate}

theorem Carries.lift {sc : SseChunk} (h : Carries fromStr chunk sc) :
    (liftChunk fromStr requestId sc).bind Except.toOption = some (chunkOf requestId chunk) := by
  rw [liftChunk,if_neg h.data,h.decodes]
  rfl

theorem pushParts_eq (text : String) (c : Candidate) : pushParts text c = text++String.join c.texts := by
  unfold pushParts Candidate.texts
  cases c.content with
  | none => simp
  | some content =>
    simp only [Option.getD_some]
    induction content.parts generalizing text with
    | nil => simp
    | cons p parts ih =>
      rw [List.foldl_cons,ih]
      cases hp : p.text with
      | none => rw [List.filterMap_cons_none hp]
      | some t => rw [List.filterMap_cons_some hp,String.join_cons,String.append_assoc]

/-- What is read from a single candidate. -/
theorem readCandidates_of_single {cs : List Candidate} (h : cs.length = 1) :
    readCandidates cs =
      (String.join (cs.flatMap Candidate.texts),(cs.map Candidate.finishReason).head?.join.map mapFinish) := by
  obtain ⟨c,rfl⟩ := List.length_eq_one_iff.1 h
  have htext : pushParts "" c = String.join c.texts := by simp [pushParts_eq]
  cases hfinish : c.finishReason <;> simp [readCandidates,htext,hfinish]

theorem join_textDelta {chunks : List GenerateContentResponse}
    (h : ∀ chunk ∈ chunks, chunk.candidates.length = 1) :
    String.join ((chunks.map (chunkOf requestId)).map TokenChunk.textDelta) =
      String.join (chunks.flatMap fun chunk => chunk.candidates.flatMap Candidate.texts) := by
  induction chunks with
  | nil => rfl
  | cons chunk chunks ih =>
    obtain ⟨hchunk,hchunks⟩ := List.forall_mem_cons.1 h
    rw [List.map_cons,List.map_cons,String.join_cons,List.flatMap_cons,String.join_append,ih hchunks,chunkOf,
      readCandidates_of_single hchunk]

namespace Streams

/-- The chunks before the last one have no finish reason. -/
theorem finishReason_init (h : Streams resp init last) (hchunk : chunk ∈ init) :
    (chunkOf requestId chunk).finishReason = none := by
  have hsingle := h.singles chunk (List.mem_append_left _ hchunk)
  obtain ⟨c,hc⟩ := List.length_eq_one_iff.1 hsingle
  have hnone := h.unfinished chunk hchunk c (by simp [hc])
  rw [chunkOf,readCandidates_of_single hsingle,hc]
  simp [hnone]

/-- The last chunk finishes as the response does. -/
theorem finishReason_last (h : Streams resp init last) :
    (chunkOf requestId last).finishReason = (readCandidates resp.candidates).2 := by
  rw [chunkOf,readCandidates_of_single (h.singles last (by simp)),readCandidates_of_single h.single,h.finish]

theorem getLast?_finishReason (h : Streams resp init last) :
    (((init++[last]).map (chunkOf requestId)).filterMap TokenChunk.finishReason).getLast? =
      (readCandidates resp.candidates).2 := by
  have hinit : (init.map (chunkOf requestId)).filterMap TokenChunk.finishReason = [] := by
    rw [List.filterMap_map,List.filterMap_eq_nil_iff]
    exact fun chunk hchunk => h.finishReason_init hchunk
  rw [List.map_append,List.filterMap_append,hinit,List.nil_append,← h.finishReason_last]
  cases hlast : (chunkOf requestId last).finishReason <;> simp [hlast]

/-- The response has a finish reason of its own. -/
theorem finish_iff (h : Streams resp init last) :
    (readCandidates resp.candidates).2 = (readCandidates resp.candidates).2.or (some .stop) ↔
      ∀ c ∈ resp.candidates, c.finishReason.isSome := by
  obtain ⟨c,hc⟩ := List.length_eq_one_iff.1 h.single
  rw [readCandidates_of_single h.single,hc]
  cases hfinish : c.finishReason <;> simp [hfinish]

/-- The totals before the last one are added to it. -/
theorem sum_usage (h : Streams resp init last) :
    (((init++[last]).map (chunkOf requestId)).filterMap TokenChunk.usage).sum =
      ((init.filterMap GenerateContentResponse.usageMetadata).map UsageMetadata.toTokenUsage).sum+
        (unary requestId resp).usage.getD 0 := by
  have hlast : ([last].map (chunkOf requestId)).filterMap TokenChunk.usage =
      (unary requestId resp).usage.toList := by
    have husage : (chunkOf requestId last).usage = (unary requestId resp).usage := by
      rw [chunkOf,unary,h.usage]
    cases hu : (unary requestId resp).usage <;> simp [husage,hu]
  have hinit : (init.map (chunkOf requestId)).filterMap TokenChunk.usage =
      (init.filterMap GenerateContentResponse.usageMetadata).map UsageMetadata.toTokenUsage := by
    rw [List.filterMap_map,List.map_filterMap]
    rfl
  rw [List.map_append,List.filterMap_append,List.sum_append,hinit,hlast]
  cases (unary requestId resp).usage <;> simp

end Streams

/-- The stream of a response and its single chunk agree when the response has a finish reason and
the totals reported before the last chunk sum up to nothing. -/
theorem streamed_content_agrees_iff (fromStr : String → Except String GenerateContentResponse)
    (requestId : String) (resp : GenerateContentResponse) (init : List GenerateContentResponse)
    (last : GenerateContentResponse) (scs : List SseChunk)
    (hstreams : Streams resp init last) (hcarries : List.Forall₂ (Carries fromStr) (init++[last]) scs) :
    (({} : Tokens).collect (okChunks (streamed fromStr requestId (scs.map .ok)))).Agrees
        (({} : Tokens).append (unary requestId resp)) ↔
      ((init.filterMap GenerateContentResponse.usageMetadata).map UsageMetadata.toTokenUsage).sum = 0 ∧
        ∀ c ∈ resp.candidates, c.finishReason.isSome := by
  have htext : String.join (((init++[last]).map (chunkOf requestId)).map TokenChunk.textDelta) =
      (unary requestId resp).textDelta := by
    rw [join_textDelta hstreams.singles,hstreams.text,unary,readCandidates_of_single hstreams.single]
  have hlifted : okChunks (streamed fromStr requestId (scs.map .ok)) = (init++[last]).map (chunkOf requestId) := by
    rw [streamed,okChunks_of_forall₂ (fun chunk sc h => h.lift) hcarries,List.filterMap_eq_map']
  rw [hlifted,Tokens.agrees_append_iff,hstreams.sum_usage,hstreams.getLast?_finishReason,
    ← hstreams.finish_iff,add_eq_right]
  exact and_iff_right htext

theorem carries_table {table : List (SseChunk × GenerateContentResponse)}
    (hdata : (table.map fun row => row.1.data).Nodup) (hne : ∀ row ∈ table, row.1.data ≠ "") :
    List.Forall₂ (Carries (decodeTable table)) (table.map Prod.snd) (table.map Prod.fst) :=
  forall₂_table fun row hrow => ⟨hne row hrow,decodeTable_of_mem hdata hrow⟩

def helChunk : GenerateContentResponse := { candidates := [{ content := some ⟨[⟨some "Hel"⟩]⟩ }] }

def loChunk : GenerateContentResponse where
  candidates := [⟨some ⟨[⟨some "lo"⟩]⟩,some "STOP"⟩]
  usageMetadata := some { promptTokenCount := 5, candidatesTokenCount := 2 }

def helloResponse : GenerateContentResponse where
  candidates := [⟨some ⟨[⟨some "Hello"⟩]⟩,some "STOP"⟩]
  usageMetadata := some { promptTokenCount := 5, candidatesTokenCount := 2 }

def loRow : SseChunk × GenerateContentResponse :=
  (⟨none,"\x7b\"candidates\":[\x7b\"content\":\x7b\"parts\":[\x7b\"text\":\"lo\"\x7d]\x7d,"++
    "\"finishReason\":\"STOP\"\x7d],"++
    "\"usageMetadata\":\x7b\"promptTokenCount\":5,\"candidatesTokenCount\":2\x7d\x7d"⟩,loChunk)

/-- The usage is on the last chunk only. -/
def helloStream : List (SseChunk × GenerateContentResponse) :=
  [(⟨none,"\x7b\"candidates\":[\x7b\"content\":\x7b\"parts\":[\x7b\"text\":\"Hel\"\x7d]\x7d\x7d]\x7d"⟩,helChunk),
   loRow]

theorem streamed_content_agrees_hello :
    (({} : Tokens).collect (okChunks (streamed (decodeTable helloStream) "r"
        ((helloStream.map Prod.fst).map .ok)))).Agrees (({} : Tokens).append (unary "r" helloResponse)) := by
  have hstreams : Streams helloResponse [helChunk] loChunk := by
    refine ⟨rfl,by decide,by decide +kernel,by decide,rfl,rfl,?_,nofun⟩
    exact List.pairwise_singleton _ _
  refine (streamed_content_agrees_iff (decodeTable helloStream) "r" helloResponse [helChunk] loChunk
    (helloStream.map Prod.fst) hstreams (carries_table (by decide +kernel) (by decide +kernel))).2 ⟨rfl,?_⟩
  intro c hc
  obtain rfl : c = _ := List.mem_singleton.1 hc
  rfl

/-- Both chunks report the total so far. -/
def countedStream : List (SseChunk × GenerateContentResponse) :=
  [(⟨none,"\x7b\"candidates\":[\x7b\"content\":\x7b\"parts\":[\x7b\"text\":\"Hel\"\x7d]\x7d\x7d],"++
      "\"usageMetadata\":\x7b\"promptTokenCount\":5,\"candidatesTokenCount\":1\x7d\x7d"⟩,
     { helChunk with usageMetadata := some { promptTokenCount := 5, candidatesTokenCount := 1 } }),loRow]

/-- The totals are added up. -/
theorem streamed_content_disagrees_counted :
    let first : GenerateContentResponse :=
      { helChunk with usageMetadata := some { promptTokenCount := 5, candidatesTokenCount := 1 } }
    let got := ({} : Tokens).collect (okChunks (streamed (decodeTable countedStream) "r"
      ((countedStream.map Prod.fst).map .ok)))
    let want := ({} : Tokens).append (unary "r" helloResponse)
    (Streams helloResponse [first] loChunk ∧
      List.Forall₂ (Carries (decodeTable countedStream)) ([first]++[loChunk]) (countedStream.map Prod.fst)) ∧
      got = { text := "Hello", usage := { inputTokens := 10, outputTokens := 3 }, finishReason := some .stop } ∧
      want = { text := "Hello", usage := { inputTokens := 5, outputTokens := 2 }, finishReason := some .stop } ∧
      ¬ got.Agrees want := by
  intro first got want
  have hstreams : Streams helloResponse [first] loChunk := by
    refine ⟨rfl,by decide,by decide +kernel,by decide,rfl,rfl,?_,nofun⟩
    exact List.pairwise_pair.2 (by simp [UsageMetadata.AtMost])
  refine ⟨⟨hstreams,carries_table (by decide +kernel) (by decide +kernel)⟩,?_,?_,?_⟩
  · decide +kernel
  · decide +kernel
  · decide +kernel

end RakkaInference.Gemini
