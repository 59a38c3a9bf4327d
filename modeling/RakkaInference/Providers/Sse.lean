import RakkaInference.Core.Tokens

/-! The stream of a remote runner. The items of the decoded event stream are lifted one by one,
and an item that lifts to nothing is passed by. -/
namespace RakkaInference

structure SseChunk where
  event : Option String := none
  data : String

/-- The `filter_map` of `execute`. -/
def liftStream (lift : SseChunk → Option (Except InferenceError TokenChunk))
    (items : List (Except InferenceError SseChunk)) : List (Except InferenceError TokenChunk) :=
  items.filterMap fun
    | .ok c => lift c
    | .error e => some (.error e)

theorem okChunks_liftStream (lift : SseChunk → Option (Except InferenceError TokenChunk))
    (scs : List SseChunk) :
    okChunks (liftStream lift (scs.map .ok)) = scs.filterMap fun sc => (lift sc).bind Except.toOption := by
  rw [okChunks,liftStream,List.filterMap_filterMap,List.filterMap_map]
  rfl

/-- When each event lifts to its own chunk, an event sequence lifts to the chunks of its events. -/
theorem okChunks_of_forall₂ {ε : Type*} {carries : ε → SseChunk → Prop}
    {lift : SseChunk → Option (Except InferenceError TokenChunk)} {chunkOf : ε → Option TokenChunk}
    (hlift : ∀ ev sc, carries ev sc → (lift sc).bind Except.toOption = chunkOf ev)
    {evs : List ε} {scs : List SseChunk} (h : List.Forall₂ carries evs scs) :
    okChunks (liftStream lift (scs.map .ok)) = evs.filterMap chunkOf := by
  rw [okChunks_liftStream]
  induction h with
  | nil => rfl
  | cons hev hevs ih => rw [List.filterMap_cons,List.filterMap_cons,hlift _ _ hev,ih]

/-- A decoder that knows the data of the given items. -/
def decodeTable {ε : Type*} (table : List (SseChunk × ε)) (data : String) : Except String ε :=
  match table.find? fun row => row.1.data = data with
  | some row => .ok row.2
  | none => .error "expected value at line 1 column 1"

theorem decodeTable_of_mem {ε : Type*} {table : List (SseChunk × ε)}
    (hdata : (table.map fun row => row.1.data).Nodup) {row : SseChunk × ε} (hrow : row ∈ table) :
    decodeTable table row.1.data = .ok row.2 := by
  induction table with
  | nil => exact absurd hrow List.not_mem_nil
  | cons first table ih =>
    obtain ⟨hfirst,hrest⟩ := List.nodup_cons.1 hdata
    cases hrow with
    | head => simp [decodeTable]
    | tail _ hrow =>
      have hne : first.1.data ≠ row.1.data := by
        intro heq
        exact hfirst (List.mem_map.2 ⟨row,hrow,heq.symm⟩)
      rw [← ih hrest hrow]
      simp [decodeTable,hne]

theorem forall₂_table {ε : Type*} {carries : ε → SseChunk → Prop} {table : List (SseChunk × ε)}
    (h : ∀ row ∈ table, carries row.2 row.1) :
    List.Forall₂ carries (table.map Prod.snd) (table.map Prod.fst) := by
  rw [List.forall₂_map_left_iff,List.forall₂_map_right_iff,List.forall₂_same]
  exact h

end RakkaInference
