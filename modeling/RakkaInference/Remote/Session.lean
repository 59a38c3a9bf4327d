import RakkaInference.Core.Error
import RakkaInference.Machine.Logs
import Mathlib.Data.List.Infix

/-! The session of a remote deployment. One actor rebuilds the client and the credential and stores them together;
a request reads the client and then, on its own, the credential, so that a store may fall between the two. -/
namespace RakkaInference
open Machine

structure SessionSnapshot (Client Secret : Type*) where
  client : Client
  credential : Secret

inductive SessionRebuildCause
  | cudaContextPoisoned
  | remoteAuthFailure
  | remoteConfigChange
  | manual
  deriving DecidableEq

/-- The reply channel is known by a number. -/
structure SessionRebuildRequest where
  cause : SessionRebuildCause
  reply : ℕ
  deriving DecidableEq

/-- Where the actor is in its handler: the client is built and the token awaited, or only the reply is left. -/
inductive SessionPhase (Client : Type*)
  | idle
  | token (req : SessionRebuildRequest) (client : Client)
  | answer (req : SessionRebuildRequest) (res : Except InferenceError Unit)

namespace SessionPhase
variable {Client : Type*}

def pending : SessionPhase Client → List SessionRebuildRequest
  | idle => []
  | token req _ | answer req _ => [req]

/-- The rebuild has been stored and not been answered. -/
def storedOk : SessionPhase Client → ℕ
  | answer _ (.ok _) => 1
  | _ => 0

@[simp] theorem pending_idle : (idle : SessionPhase Client).pending = [] := rfl

@[simp] theorem pending_token (req : SessionRebuildRequest) (client : Client) : (token req client).pending = [req] :=
  rfl

@[simp] theorem pending_answer (req : SessionRebuildRequest) (res : Except InferenceError Unit) :
    (answer req res : SessionPhase Client).pending = [req] := rfl

@[simp] theorem storedOk_idle : (idle : SessionPhase Client).storedOk = 0 := rfl

@[simp] theorem storedOk_token (req : SessionRebuildRequest) (client : Client) : (token req client).storedOk = 0 :=
  rfl

@[simp] theorem storedOk_ok (req : SessionRebuildRequest) (u : Unit) :
    (answer req (.ok u) : SessionPhase Client).storedOk = 1 := rfl

@[simp] theorem storedOk_error (req : SessionRebuildRequest) (e : InferenceError) :
    (answer req (.error e) : SessionPhase Client).storedOk = 0 := rfl

theorem storedOk_le (p : SessionPhase Client) : p.storedOk ≤ 1 := by
  unfold storedOk
  split <;> omega

end SessionPhase

/-- What a request has read of the session. -/
inductive Reading (Client Secret : Type*)
  | waiting
  | loaded (client : Client)
  | sent (client : Client) (credential : Secret)

structure RemoteSession (Client Secret : Type*) where
  snapshot : SessionSnapshot Client Secret
  phase : SessionPhase Client
  mailbox : List SessionRebuildRequest
  requests : ℕ → Reading Client Secret

/-- The messages of the actor, the answers of what it awaits, and the loads of the requests. -/
inductive SessionAction (Client Secret : Type*)
  | rebuild (req : SessionRebuildRequest)
  | client (built : Except String Client)
  | token (answer : Except InferenceError Secret)
  | reply
  | loadClient (r : ℕ)
  | loadCredential (r : ℕ)

inductive SessionEvent (Client Secret : Type*)
  | received (req : SessionRebuildRequest)
  | stored (snapshot : SessionSnapshot Client Secret)
  | answered (req : SessionRebuildRequest) (res : Except InferenceError Unit)
  | loaded (r : ℕ)
  | sent (r : ℕ) (client : Client) (credential : Secret)

variable {Client Secret : Type*}

namespace SessionEvent

@[simp] def received? : SessionEvent Client Secret → Option SessionRebuildRequest
  | received req => some req
  | _ => none

@[simp] def stored? : SessionEvent Client Secret → Option (SessionSnapshot Client Secret)
  | stored snapshot => some snapshot
  | _ => none

@[simp] def answered? : SessionEvent Client Secret → Option SessionRebuildRequest
  | answered req _ => some req
  | _ => none

@[simp] def isOk : SessionEvent Client Secret → Bool
  | answered _ (.ok _) => true
  | _ => false

end SessionEvent

namespace RemoteSession

/-- `build_snapshot`: the client, and then the credential. -/
def buildSnapshot (built : Except String Client) (token : Except InferenceError Secret) :
    Except InferenceError (SessionSnapshot Client Secret) :=
  match built with
  | .error e => .error (.internal ("build http client: "++e))
  | .ok client => token.map fun credential => ⟨client,credential⟩

/-- `bootstrap` and the spawning of the actor. -/
def bootstrap (built : Except String Client) (token : Except InferenceError Secret) :
    Except InferenceError (RemoteSession Client Secret) :=
  (buildSnapshot built token).map fun snapshot => ⟨snapshot,.idle,[],fun _ => .waiting⟩

def step (s : RemoteSession Client Secret) : SessionAction Client Secret → Option (RemoteSession Client Secret)
  | .rebuild req => some { s with mailbox := s.mailbox++[req] }
  | .client built =>
    match s.phase,s.mailbox with
    | .idle,req::rest => some { s with
        mailbox := rest
        phase := match built with
          | .ok client => .token req client
          | .error e => .answer req (.error (.internal ("build http client: "++e))) }
    | _,_ => none
  | .token answer =>
    match s.phase with
    | .token req client => match answer with
      | .ok credential => some { s with snapshot := ⟨client,credential⟩, phase := .answer req (.ok ()) }
      | .error e => some { s with phase := .answer req (.error e) }
    | _ => none
  | .reply =>
    match s.phase with
    | .answer _ _ => some { s with phase := .idle }
    | _ => none
  | .loadClient r =>
    match s.requests r with
    | .waiting => some { s with requests := Function.update s.requests r (.loaded s.snapshot.client) }
    | _ => none
  | .loadCredential r =>
    match s.requests r with
    | .loaded client => some { s with
        requests := Function.update s.requests r (.sent client s.snapshot.credential) }
    | _ => none

def event (s : RemoteSession Client Secret) : SessionAction Client Secret → List (SessionEvent Client Secret)
  | .rebuild req => [.received req]
  | .client _ => []
  | .token answer =>
    match s.phase,answer with
    | .token _ client,.ok credential => [.stored ⟨client,credential⟩]
    | _,_ => []
  | .reply =>
    match s.phase with
    | .answer req res => [.answered req res]
    | _ => []
  | .loadClient r => [.loaded r]
  | .loadCredential r =>
    match s.requests r with
    | .loaded client => [.sent r client s.snapshot.credential]
    | _ => []

/-- Everything that an action can do, and what it puts out. -/
inductive Move (s : RemoteSession Client Secret) :
    RemoteSession Client Secret → List (SessionEvent Client Secret) → Prop
  | rebuild (req : SessionRebuildRequest) : Move s { s with mailbox := s.mailbox++[req] } [.received req]
  | client {req : SessionRebuildRequest} {rest : List SessionRebuildRequest} (client : Client)
      (hp : s.phase = .idle) (hm : s.mailbox = req::rest) :
      Move s { s with mailbox := rest, phase := .token req client } []
  | clientError {req : SessionRebuildRequest} {rest : List SessionRebuildRequest} (e : String)
      (hp : s.phase = .idle) (hm : s.mailbox = req::rest) :
      Move s { s with
        mailbox := rest
        phase := .answer req (.error (.internal ("build http client: "++e))) } []
  | store {req : SessionRebuildRequest} {client : Client} (credential : Secret) (hp : s.phase = .token req client) :
      Move s { s with snapshot := ⟨client,credential⟩, phase := .answer req (.ok ()) } [.stored ⟨client,credential⟩]
  | tokenError {req : SessionRebuildRequest} {client : Client} (e : InferenceError)
      (hp : s.phase = .token req client) : Move s { s with phase := .answer req (.error e) } []
  | reply {req : SessionRebuildRequest} {res : Except InferenceError Unit} (hp : s.phase = .answer req res) :
      Move s { s with phase := .idle } [.answered req res]
  | loadClient {r : ℕ} (hr : s.requests r = .waiting) :
      Move s { s with requests := Function.update s.requests r (.loaded s.snapshot.client) } [.loaded r]
  | loadCredential {r : ℕ} {client : Client} (hr : s.requests r = .loaded client) :
      Move s { s with requests := Function.update s.requests r (.sent client s.snapshot.credential) }
        [.sent r client s.snapshot.credential]

variable {s t : RemoteSession Client Secret} {a : SessionAction Client Secret}

theorem move_of_step (h : step s a = some t) : Move s t (event s a) := by
  cases a with
  | rebuild req =>
    cases h
    exact .rebuild req
  | client built =>
    simp only [step] at h
    split at h
    · rename_i req rest hp hm
      cases h
      cases built with
      | ok client => exact .client client hp hm
      | error e => exact .clientError e hp hm
    · contradiction
  | token answer =>
    simp only [step] at h
    split at h
    · rename_i req client hp
      cases answer with
      | ok credential =>
        cases h
        simp only [event,hp]
        exact .store credential hp
      | error e =>
        cases h
        simp only [event,hp]
        exact .tokenError e hp
    · contradiction
  | reply =>
    simp only [step] at h
    split at h
    · rename_i req res hp
      cases h
      simp only [event,hp]
      exact .reply hp
    · contradiction
  | loadClient r =>
    simp only [step] at h
    split at h
    · rename_i hr
      cases h
      exact .loadClient hr
    · contradiction
  | loadCredential r =>
    simp only [step] at h
    split at h
    · rename_i client hr
      cases h
      simp only [event,hr]
      exact .loadCredential hr
    · contradiction

/-- What has been stored so far, the snapshot of the start first. -/
def history (start : SessionSnapshot Client Secret) (log : List (SessionEvent Client Secret)) :
    List (SessionSnapshot Client Secret) := start::log.filterMap SessionEvent.stored?

/-- The place in the history of what was last stored. -/
def newest (log : List (SessionEvent Client Secret)) : ℕ := (log.filterMap SessionEvent.stored?).length

variable {start : SessionSnapshot Client Secret} {log l : List (SessionEvent Client Secret)}

/-- What was stored stays in its place. -/
theorem history_append {i : ℕ} {v : SessionSnapshot Client Secret} (h : (history start log)[i]? = some v)
    (l : List (SessionEvent Client Secret)) : (history start (log++l))[i]? = some v := by
  obtain ⟨hi,-⟩ := List.getElem?_eq_some_iff.mp h
  rw [history,List.filterMap_append,← List.cons_append,← h]
  exact List.getElem?_append_left hi

theorem newest_append (log l : List (SessionEvent Client Secret)) : newest (log++l) = newest log+newest l := by
  rw [newest,List.filterMap_append,List.length_append]
  rfl

/-- The client and the credential that a request sends, against the log before it: the client is that of the
snapshot which was the newest at the first load, the credential that of the newest at the second. -/
def ReadOf (start : SessionSnapshot Client Secret) (pre : List (SessionEvent Client Secret)) (r : ℕ) (c : Client)
    (k : Secret) : Prop :=
  ∃ before between v w, pre = before++.loaded r::between ∧ (history start pre)[newest before]? = some v ∧
    (history start pre)[newest pre]? = some w ∧ c = v.client ∧ k = w.credential

/-- What every interleaving keeps. -/
structure Held (start : SessionSnapshot Client Secret) (s : RemoteSession Client Secret)
    (log : List (SessionEvent Client Secret)) : Prop where
  cell : (history start log)[newest log]? = some s.snapshot
  answers : log.filterMap SessionEvent.answered?++s.phase.pending++s.mailbox =
    log.filterMap SessionEvent.received?
  counted : newest log = log.countP SessionEvent.isOk+s.phase.storedOk
  loaded : ∀ r c, s.requests r = .loaded c →
    ∃ before between v, log = before++.loaded r::between ∧ (history start log)[newest before]? = some v ∧
      c = v.client
  ahead : ∀ pre, pre <+: log → pre.countP SessionEvent.isOk ≤ newest pre ∧
    newest pre ≤ pre.countP SessionEvent.isOk+1
  sent : EachAfter (fun pre e => ∀ r c k, e = .sent r c k → ReadOf start pre r c k) log

theorem held_bootstrap {built : Except String Client} {token : Except InferenceError Secret}
    (h : bootstrap built token = .ok s) : Held s.snapshot s [] := by
  have hs : ∃ snapshot, s = ⟨snapshot,.idle,[],fun _ => .waiting⟩ := by
    unfold bootstrap at h
    cases hb : buildSnapshot built token with
    | error e =>
      rw [hb] at h
      cases h
    | ok snapshot =>
      rw [hb] at h
      cases h
      exact ⟨snapshot,rfl⟩
  obtain ⟨snapshot,rfl⟩ := hs
  refine ⟨rfl,rfl,rfl,?_,?_,eachAfter_nil⟩
  · intro r c hr
    contradiction
  · intro pre hpre
    rw [List.prefix_nil.mp hpre]
    exact ⟨Nat.le_refl _,Nat.zero_le _⟩

/-- An event that is put out keeps the log right when it says what the state said. -/
theorem held_extend (hs : Held start s log) (hl : l.length ≤ 1)
    (hcell : (history start (log++l))[newest (log++l)]? = some t.snapshot)
    (hanswers : (log++l).filterMap SessionEvent.answered?++t.phase.pending++t.mailbox =
      (log++l).filterMap SessionEvent.received?)
    (hcounted : newest (log++l) = (log++l).countP SessionEvent.isOk+t.phase.storedOk)
    (hloaded : ∀ r c, t.requests r = .loaded c →
      s.requests r = .loaded c ∨ l = [.loaded r] ∧ c = s.snapshot.client)
    (hsent : ∀ r c k, l = [.sent r c k] → s.requests r = .loaded c ∧ k = s.snapshot.credential) :
    Held start t (log++l) := by
  refine ⟨hcell,hanswers,hcounted,?_,?_,?_⟩
  · intro r c hr
    rcases hloaded r c hr with hold | ⟨rfl,hc⟩
    · obtain ⟨before,between,v,hlog,hv,hc⟩ := hs.loaded r c hold
      refine ⟨before,between++l,v,?_,history_append hv l,hc⟩
      rw [hlog,List.append_assoc,List.cons_append]
    · exact ⟨log,[],s.snapshot,rfl,history_append hs.cell _,hc⟩
  · intro pre hpre
    have hcase : pre <+: log ∨ pre = log++l := by
      rcases l with _ | ⟨e,l⟩
      · rw [List.append_nil] at hpre
        exact .inl hpre
      · obtain rfl : l = [] := List.eq_nil_of_length_eq_zero (by rw [List.length_cons] at hl; omega)
        exact (List.prefix_concat_iff.mp hpre).symm
    rcases hcase with hold | rfl
    · exact hs.ahead pre hold
    · have hle := t.phase.storedOk_le
      omega
  · apply hs.sent.append
    intro pre e post hone r c k he
    rcases pre with _ | ⟨x,pre⟩
    · rw [List.append_nil]
      obtain rfl : post = [] := by
        rw [hone] at hl
        exact List.eq_nil_of_length_eq_zero (by simpa using hl)
      obtain ⟨hr,hk⟩ := hsent r c k (by rw [hone,he]; rfl)
      obtain ⟨before,between,v,hpre,hv,hc⟩ := hs.loaded r c hr
      exact ⟨before,between,v,s.snapshot,hpre,hv,hs.cell,hc,hk⟩
    · rw [hone] at hl
      simp at hl

/-- What the newest is after an event that stores nothing. -/
theorem cell_append {v : SessionSnapshot Client Secret} (h : (history start log)[newest log]? = some v)
    (hl : newest l = 0) : (history start (log++l))[newest (log++l)]? = some v := by
  rw [newest_append,hl,Nat.add_zero]
  exact history_append h l

theorem held_step (hs : Held start s log) (h : step s a = some t) : Held start t (log++event s a) := by
  have hm := move_of_step h
  revert hm
  generalize event s a = l
  intro hm
  have hq := hs.answers
  have hn := hs.counted
  -- only a load changes what a request has read
  have hsame : ∀ r c, s.requests r = .loaded c →
      s.requests r = .loaded c ∨ l = [.loaded r] ∧ c = s.snapshot.client :=
    fun r c hr => .inl hr
  cases hm with
  | rebuild req =>
    refine held_extend hs (by simp) (cell_append hs.cell rfl) ?_ ?_ hsame (by simp)
    · simp [List.filterMap_cons,← hq]
    · simpa [newest,List.filterMap_cons] using hn
  | client client hp hmb =>
    rw [hp,hmb] at hq
    rw [hp] at hn
    exact held_extend hs (by simp) (cell_append hs.cell rfl) (by simpa [List.filterMap_cons] using hq)
      (by simpa using hn) hsame (by simp)
  | clientError e hp hmb =>
    rw [hp,hmb] at hq
    rw [hp] at hn
    exact held_extend hs (by simp) (cell_append hs.cell rfl) (by simpa [List.filterMap_cons] using hq)
      (by simpa using hn) hsame (by simp)
  | store credential hp =>
    rw [hp] at hq hn
    refine held_extend hs (by simp) ?_ (by simpa [List.filterMap_cons] using hq) ?_ hsame (by simp)
    · simp [history,newest]
    · simpa [newest,List.filterMap_cons] using hn
  | tokenError e hp =>
    rw [hp] at hq hn
    exact held_extend hs (by simp) (cell_append hs.cell rfl) (by simpa [List.filterMap_cons] using hq)
      (by simpa using hn) hsame (by simp)
  | @reply req res hp =>
    rw [hp] at hq hn
    refine held_extend hs (by simp) (cell_append hs.cell rfl) (by simpa [List.filterMap_cons] using hq) ?_ hsame
      (by simp)
    cases res <;> simpa [newest,List.filterMap_cons] using hn
  | @loadClient r hr =>
    refine held_extend hs (by simp) (cell_append hs.cell rfl) (by simpa [List.filterMap_cons] using hq)
      (by simpa [newest,List.filterMap_cons] using hn) ?_
      (by simp)
    intro q c hq
    simp only at hq
    by_cases hqr : q = r
    · subst hqr
      rw [Function.update_self] at hq
      cases hq
      exact .inr ⟨rfl,rfl⟩
    · rw [Function.update_of_ne hqr] at hq
      exact .inl hq
  | @loadCredential r client hr =>
    refine held_extend hs (by simp) (cell_append hs.cell rfl) (by simpa [List.filterMap_cons] using hq)
      (by simpa [newest,List.filterMap_cons] using hn) ?_ ?_
    · intro q c hq
      simp only at hq
      by_cases hqr : q = r
      · subst hqr
        rw [Function.update_self] at hq
        contradiction
      · rw [Function.update_of_ne hqr] at hq
        exact .inl hq
    · intro q c k hl
      cases hl
      exact ⟨hr,rfl⟩

/-- A rebuild that nothing comes between is `buildSnapshot`: what it gives is stored, an error is only answered. -/
theorem exec_rebuild {req : SessionRebuildRequest} {rest : List SessionRebuildRequest} (hp : s.phase = .idle)
    (hm : s.mailbox = req::rest) (built : Except String Client) (token : Except InferenceError Secret) :
    ∃ as, exec step s as = some { s with
        snapshot := (buildSnapshot built token).toOption.getD s.snapshot
        mailbox := rest } ∧
      (logged step event s as).getLast? = some (.answered req ((buildSnapshot built token).map fun _ => ())) := by
  cases built with
  | error e =>
    refine ⟨[.client (.error e),.reply],?_,?_⟩ <;>
      simp [exec,logged,step,event,hp,hm,buildSnapshot,Except.toOption,Except.map]
  | ok client =>
    refine ⟨[.client (.ok client),.token token,.reply],?_,?_⟩ <;>
      cases token <;> simp [exec,logged,step,event,hp,hm,buildSnapshot,Except.toOption,Except.map]

/-- What holds of a session and of everything that has happened to it. -/
structure SessionLaw (start : SessionSnapshot Client Secret) (s : RemoteSession Client Secret)
    (log : List (SessionEvent Client Secret)) : Prop where
  cell : (history start log).getLast? = some s.snapshot
  answers : log.filterMap SessionEvent.answered?++s.phase.pending++s.mailbox = log.filterMap SessionEvent.received?
  counted : ∀ pre, pre <+: log → pre.countP SessionEvent.isOk ≤ newest pre ∧
    newest pre ≤ pre.countP SessionEvent.isOk+1
  sent : ∀ pre r c k post, log = pre++.sent r c k::post →
    ∃ before between v w, pre = before++.loaded r::between ∧ (history start log)[newest before]? = some v ∧
      (history start log)[newest before+newest between]? = some w ∧ c = v.client ∧ k = w.credential

/-- Over every interleaving of rebuilds and requests: the cell has what was stored last; the rebuilds are answered
once each and in order, and a failed one stores nothing; and a request sends the client that was the newest at its
first load with the credential that was the newest at its second. A request that loads after a rebuild was
answered `Ok` therefore reads that rebuild or a later one, and only a store between its loads can tear the two. -/
theorem session_law {built : Except String Client} {token : Except InferenceError Secret}
    {s₀ : RemoteSession Client Secret} {as : List (SessionAction Client Secret)}
    (hboot : bootstrap built token = .ok s₀) (h : exec step s₀ as = some s) :
    SessionLaw s₀.snapshot s (logged step event s₀ as) := by
  have hheld := exec_logged (I := Held s₀.snapshot) (fun s a t log hs hstep => held_step hs hstep)
    (held_bootstrap hboot) h
  rw [List.nil_append] at hheld
  refine ⟨?_,hheld.answers,hheld.ahead,?_⟩
  · rw [List.getLast?_eq_getElem?]
    exact hheld.cell
  · intro pre r c k post hlog
    obtain ⟨before,between,v,w,hpre,hv,hw,hc,hk⟩ := hheld.sent pre _ post hlog r c k rfl
    have hnewest : newest pre = newest before+newest between := by
      rw [hpre,newest_append]
      rfl
    rw [hnewest] at hw
    rw [hlog]
    exact ⟨before,between,v,w,hpre,history_append hv _,history_append hw _,hc,hk⟩

/-- A rebuild between the two loads of a request, which then sends the old client with the new credential. -/
theorem session_law_torn :
    let s₀ : RemoteSession ℕ ℕ := ⟨⟨0,0⟩,.idle,[],fun _ => .waiting⟩
    let as : List (SessionAction ℕ ℕ) := [.rebuild ⟨.manual,0⟩,.client (.ok 1),.loadClient 7,.token (.ok 1),
      .loadCredential 7,.reply]
    ∃ s, exec step s₀ as = some s ∧ SessionLaw ⟨0,0⟩ s (logged step event s₀ as) ∧
      .sent 7 0 1 ∈ logged step event s₀ as := by
  intro s₀ as
  have hsome : (exec step s₀ as).isSome = true := by decide
  obtain ⟨s,hs⟩ := Option.isSome_iff_exists.mp hsome
  have hboot : bootstrap (.ok 0) (.ok 0) = .ok s₀ := rfl
  refine ⟨s,hs,session_law hboot hs,?_⟩
  simp [as,s₀,logged,step,event]

end RemoteSession
end RakkaInference
