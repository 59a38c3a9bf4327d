import RakkaInference.Core.Deployment

/-! The rate limiter of a provider: a sixty-second window with the spend so far, and the
grow-only counters that tell the other nodes about it. -/
namespace RakkaInference

structure Permit where
  requests : ℕ
  tokens : ℕ
  deriving DecidableEq

structure AcquirePermit where
  requests : ℕ
  tokens : ℕ

structure Window where
  startedAt : Option ℕ := none
  requests : ℕ := 0
  tokens : ℕ := 0
  deriving DecidableEq

/-- The view of the window that is shared with the workers. -/
structure RateLimiterHandle where
  state : Window := {}

def RateLimiterHandle.snapshot (h : RateLimiterHandle) : ℕ × ℕ := (h.state.requests,h.state.tokens)

/-- The grow-only counter of the distributed-data library. The limiter writes it and never
reads it back. -/
class GCounter (γ : Type) where
  Delta : Type
  new : γ
  increment : γ → String → ℕ → γ
  mergeDelta : γ → Delta → γ

/-- The counter as a table of what each node has spent. -/
instance : GCounter (String → ℕ) where
  Delta := String → ℕ
  new := fun _ => 0
  increment := fun c node n k => if k = node then c k+n else c k
  mergeDelta := fun c delta k => max (c k) (delta k)

structure RateLimiterActor (γ : Type) where
  nodeId : String
  limits : RateLimits
  requestsCounter : γ
  tokensCounter : γ
  window : Window

namespace RateLimiterActor

variable {γ : Type} [GCounter γ]

def new (nodeId : String) (limits : RateLimits) : RateLimiterActor γ :=
  ⟨nodeId,limits,GCounter.new,GCounter.new,{}⟩

def handle (a : RateLimiterActor γ) : RateLimiterHandle := ⟨a.window⟩

def mergeRemoteDeltaRequests (a : RateLimiterActor γ) (delta : GCounter.Delta γ) :
    RateLimiterActor γ :=
  { a with requestsCounter := GCounter.mergeDelta a.requestsCounter delta }

def mergeRemoteDeltaTokens (a : RateLimiterActor γ) (delta : GCounter.Delta γ) :
    RateLimiterActor γ :=
  { a with tokensCounter := GCounter.mergeDelta a.tokensCounter delta }

def rotateWindowIfNeeded (a : RateLimiterActor γ) (now : ℕ) : RateLimiterActor γ :=
  let needsReset := match a.window.startedAt with
    | some started => decide (now-started ≥ Duration.fromSecs 60)
    | none => true
  if needsReset then
    { a with
      window := ⟨some now,0,0⟩
      requestsCounter := GCounter.new
      tokensCounter := GCounter.new }
  else a

/-- Spend from the budget of the window, or refuse and leave it. -/
def spend (a : RateLimiterActor γ) (req : AcquirePermit) :
    RateLimiterActor γ × Except InferenceError Permit :=
  match a.limits.requestsPerMinute.filter fun rpm => decide (a.window.requests+req.requests > rpm) with
  | some rpm => (a,.error (.backpressure
      s!"requests-per-minute limit reached ({a.window.requests}/{rpm})"))
  | none =>
    match a.limits.tokensPerMinute.filter fun tpm => decide (a.window.tokens+req.tokens > tpm) with
    | some tpm => (a,.error (.backpressure
        s!"tokens-per-minute limit reached ({a.window.tokens}/{tpm})"))
    | none =>
      ({ a with
        window := { a.window with
          requests := a.window.requests+req.requests
          tokens := a.window.tokens+req.tokens }
        requestsCounter := GCounter.increment a.requestsCounter a.nodeId req.requests
        tokensCounter := GCounter.increment a.tokensCounter a.nodeId req.tokens },.ok ⟨req.requests,req.tokens⟩)

def acquire (a : RateLimiterActor γ) (now : ℕ) (req : AcquirePermit) :
    RateLimiterActor γ × Except InferenceError Permit := (a.rotateWindowIfNeeded now).spend req

@[simp] theorem spend_startedAt (a : RateLimiterActor γ) (req : AcquirePermit) :
    (a.spend req).1.window.startedAt = a.window.startedAt := by
  unfold spend
  split
  · rfl
  · split <;> rfl

/-- An acquire in a fresh limiter starts its window, whether it is granted or not. -/
theorem acquire_startedAt {a : RateLimiterActor γ} {now : ℕ} (h : a.window.startedAt = none)
    (req : AcquirePermit) : (a.acquire now req).1.window.startedAt = some now := by
  simp [acquire,rotateWindowIfNeeded,h]

end RateLimiterActor

/-- The two budgets of a window. -/
inductive Budget
  | requests
  | tokens
  deriving DecidableEq

namespace Budget
variable {γ : Type} [GCounter γ]

def limit (limits : RateLimits) : Budget → Option ℕ
  | .requests => limits.requestsPerMinute
  | .tokens => limits.tokensPerMinute

def asked (req : AcquirePermit) : Budget → ℕ
  | .requests => req.requests
  | .tokens => req.tokens

def granted (permit : Permit) : Budget → ℕ
  | .requests => permit.requests
  | .tokens => permit.tokens

def spent (w : Window) : Budget → ℕ
  | .requests => w.requests
  | .tokens => w.tokens

def counter (a : RateLimiterActor γ) : Budget → γ
  | .requests => a.requestsCounter
  | .tokens => a.tokensCounter

/-- A request that would take the window past this budget. -/
def Exceeded (a : RateLimiterActor γ) (req : AcquirePermit) (b : Budget) : Prop :=
  ∃ limit, b.limit a.limits = some limit ∧ limit < b.spent a.window+b.asked req

end Budget

namespace RateLimiterActor
variable {γ : Type} [GCounter γ] {a : RateLimiterActor γ} {now : ℕ} {req : AcquirePermit}

/-- What a granted request leaves behind. -/
structure Charged (a : RateLimiterActor γ) (req : AcquirePermit) (a' : RateLimiterActor γ) : Prop where
  nodeId : a'.nodeId = a.nodeId
  limits : a'.limits = a.limits
  startedAt : a'.window.startedAt = a.window.startedAt
  spent : ∀ b : Budget, b.spent a'.window = b.spent a.window+b.asked req
  counter : ∀ b : Budget, b.counter a' = GCounter.increment (b.counter a) a.nodeId (b.asked req)

/-- A request is refused without a change, with the budget that it would exceed, or is
granted as asked within both budgets. -/
theorem spend_cases (a : RateLimiterActor γ) (req : AcquirePermit) :
    ((∃ b : Budget, b.Exceeded a req) ∧ (a.spend req).1 = a ∧ ∃ e, (a.spend req).2 = .error e) ∨
    ((∀ b : Budget, ¬ b.Exceeded a req) ∧ Charged a req (a.spend req).1 ∧
      (a.spend req).2 = .ok ⟨req.requests,req.tokens⟩) := by
  unfold spend
  split
  case h_1 rpm hr =>
    obtain ⟨hl,hx⟩ := Option.filter_eq_some_iff.mp hr
    exact .inl ⟨⟨.requests,rpm,hl,of_decide_eq_true hx⟩,rfl,_,rfl⟩
  case h_2 hr =>
    split
    case h_1 tpm ht =>
      obtain ⟨hl,hx⟩ := Option.filter_eq_some_iff.mp ht
      exact .inl ⟨⟨.tokens,tpm,hl,of_decide_eq_true hx⟩,rfl,_,rfl⟩
    case h_2 ht =>
      have hfree : ∀ b : Budget, ¬ b.Exceeded a req := by
        rintro b ⟨limit,hl,hx⟩
        cases b with
        | requests => exact Option.filter_eq_none_iff.mp hr limit hl (decide_eq_true hx)
        | tokens => exact Option.filter_eq_none_iff.mp ht limit hl (decide_eq_true hx)
      refine .inr ⟨hfree,⟨rfl,rfl,rfl,?_,?_⟩,rfl⟩
      · intro b
        cases b <;> rfl
      · intro b
        cases b <;> rfl

/-- A window that has not run its minute is left as it is. -/
theorem rotateWindowIfNeeded_of_lt {started : ℕ} (hs : a.window.startedAt = some started)
    (hlt : now < started+Duration.fromSecs 60) : a.rotateWindowIfNeeded now = a := by
  have hminute : 0 < Duration.fromSecs 60 := by decide
  have hrun : ¬ now-started ≥ Duration.fromSecs 60 := by omega
  simp [rotateWindowIfNeeded,hs,hrun]

/-- A window that has run its minute, or was never started, starts anew with all counters
at zero. -/
theorem rotateWindowIfNeeded_of_le
    (hs : ∀ started, a.window.startedAt = some started → started+Duration.fromSecs 60 ≤ now) :
    a.rotateWindowIfNeeded now = { a with
      window := ⟨some now,0,0⟩, requestsCounter := GCounter.new, tokensCounter := GCounter.new } := by
  cases hstart : a.window.startedAt with
  | none => simp [rotateWindowIfNeeded,hstart]
  | some started =>
    have hrun : now-started ≥ Duration.fromSecs 60 := by
      have := hs started hstart
      omega
    simp [rotateWindowIfNeeded,hstart,hrun]

end RateLimiterActor
end RakkaInference
