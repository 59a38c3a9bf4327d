import RakkaInference.Machine.Decimal
import RakkaInference.Runtime.DeploymentWire
import RakkaInference.Runtime.Placement
import RakkaInference.Machine.Text

/-! The start of a server. The deployments of the project file are applied in order, and a local one is
provisioned when the host turns out to have all that it needs. Paths are strings. -/
namespace RakkaInference
open Machine Json

/-- What a command has put out. -/
structure Output where
  success : Bool
  stdout : String
  stderr : String

/-- The host: its variables, its files, and what the commands of the probe give. -/
structure Host where
  env : String → Option String
  homeDir : Option String
  /-- The text of a file that exists, or why it cannot be read. -/
  readFile : String → Option (Except String String)
  freeBytesAt : String → Option ℕ
  parent : String → Option String
  nvidiaSmi : Except String Output
  pythonVersion : Except String Output
  importVllm : Except String Output
  parseF32 : String → Except String F32
  /-- A number with one decimal. -/
  oneDecimal : F32 → String

def trimText (s : String) : String := String.ofList (Machine.trim s.toList)

def Host.envString (h : Host) (var : String) : Option String := ((h.env var).map trimText).filter (· ≠ "")

def joinPath (base rest : String) : String :=
  if base.toList = [] ∨ base.toList.getLast? = some '/' then base++rest else base++"/"++rest

def parseU32 (s : List Char) : Except String ℕ :=
  match parseUnsigned 32 s with
  | some n => .ok n
  | none =>
    let digits := if s.head? = some '+' then s.tail else s
    if s = [] then .error "cannot parse integer from empty string"
    else if digits = [] ∨ ¬digits.all Char.isDigit then .error "invalid digit found in string"
    else .error "number too large to fit in target type"

structure HfCache where
  home : String
  hubCache : String
  tokenPath : String

namespace HfCache

def resolve (h : Host) : Except InferenceError HfCache := do
  let home ← match h.envString "HF_HOME" with
    | some home => .ok home
    | none =>
      match h.envString "XDG_CACHE_HOME" with
      | some xdg => .ok (joinPath xdg "huggingface")
      | none =>
        match h.homeDir with
        | some homeDir => .ok (joinPath (joinPath homeDir ".cache") "huggingface")
        | none => .error (.internal "hf-cache: no HF_HOME / XDG_CACHE_HOME / $HOME — cannot resolve cache")
  let hubCache := (h.envString "HF_HUB_CACHE").getD (joinPath home "hub")
  .ok ⟨home,hubCache,joinPath home "token"⟩

def discoverToken (h : Host) (cache : HfCache) : Except InferenceError (Option String) :=
  match (h.envString "HF_TOKEN").or (h.envString "HUGGING_FACE_HUB_TOKEN") with
  | some token => .ok (some token)
  | none =>
    match h.readFile cache.tokenPath with
    | none => .ok none
    | some (.error e) => .error (.internal s!"hf-cache: failed to read {cache.tokenPath}: {e}")
    | some (.ok raw) => .ok (if trimText raw = "" then none else some (trimText raw))

def freeBytes (h : Host) (cache : HfCache) : Option ℕ :=
  ((h.freeBytesAt cache.hubCache).or (h.freeBytesAt cache.home)).or (h.freeBytesAt ((h.parent cache.home).getD "/"))

end HfCache

def probeGpu (h : Host) : Except String F32 :=
  match h.nvidiaSmi with
  | .error e => .error s!"nvidia-smi not on PATH (no NVIDIA driver?): {e}"
  | .ok out =>
    if out.success then
      match (lines (Machine.trim out.stdout.toList)).head? with
      | none => .error "nvidia-smi returned empty output"
      | some line =>
        match h.parseF32 (String.ofList (Machine.trim line)) with
        | .ok freeMib => .ok (freeMib/1024)
        | .error e => .error s!"could not parse nvidia-smi output `{trimText out.stdout}`: {e}"
    else .error s!"nvidia-smi exited non-zero: {trimText out.stderr}"

def probePython (h : Host) : Except String Unit :=
  match h.pythonVersion with
  | .error e => .error s!"python3 not on PATH: {e}"
  | .ok out =>
    if out.success then do
      let combined := out.stdout++out.stderr
      let words := (combined.toList.splitOnP Machine.isWhitespace).filter (· ≠ [])
      match words[1]? with
      | none => .error s!"could not parse `{trimText combined}`"
      | some version =>
        let parts := version.splitOn '.'
        let major ← match parts.head? with
          | none => .error "missing major"
          | some part => (parseU32 part).mapError fun e => s!"bad major: {e}"
        let minor ← match parts[1]? with
          | none => .error "missing minor"
          | some part => (parseU32 part).mapError fun e => s!"bad minor: {e}"
        if major < 3 ∨ major = 3 ∧ minor < 10 then
          .error s!"Python {major}.{minor} on PATH; vLLM requires 3.10+"
        else .ok ()
    else .error "python3 --version returned non-zero exit"

def probeVllm (h : Host) : Except String String :=
  match h.importVllm with
  | .error e => .error s!"python3 spawn failed: {e}"
  | .ok out =>
    if out.success then .ok (trimText out.stdout)
    else if (find "ModuleNotFoundError".toList out.stderr.toList).isSome ∨
        (find "No module named 'vllm'".toList out.stderr.toList).isSome then
      .error "vLLM not importable in active python3"
    else .error s!"vllm import probe failed: {trimText out.stderr}"

inductive ProbeResult
  | ready (vramFreeGb : F32) (hfCache : HfCache)
  | skipped (reason hint : String)
  | error (e : InferenceError)

/-- The first check that fails decides. -/
def probe (h : Host) (modelId : String) (minVramGb minDiskGb : F32) (suggestSmallerVariant : Option String) :
    ProbeResult :=
  match HfCache.resolve h with
  | .error e => .error e
  | .ok hfCache =>
  match probeGpu h with
  | .error reason => .skipped reason <| "set ATOMR_INFER_GEMMA_AUTO=skip-quietly to suppress this message; " ++
      "set ATOMR_INFER_GEMMA_MODEL=<remote-provider> to use a remote backend"
  | .ok vramFreeGb =>
  if vramFreeGb < minVramGb then
    let free := h.oneDecimal vramFreeGb
    let needed := h.oneDecimal minVramGb
    .skipped s!"insufficient VRAM for {modelId}" (match suggestSmallerVariant with
      | some smaller => s!"free VRAM {free} GB < {needed} GB needed for {modelId}; " ++
          s!"try ATOMR_INFER_GEMMA_MODEL={smaller}"
      | none => s!"free VRAM {free} GB < {needed} GB needed for {modelId}; " ++
          "no smaller supported variant — consider a remote backend")
  else
  match probePython h with
  | .error reason => .skipped reason "install Python 3.10+ and ensure `python3` is on PATH"
  | .ok () =>
  match probeVllm h with
  | .error reason => .skipped reason "install vLLM in the active venv: `pip install 'vllm>=0.6.4'`"
  | .ok _ =>
  match hfCache.discoverToken h with
  | .error e => .error e
  | .ok none =>
    .skipped "no HuggingFace token found" <|
      "run `huggingface-cli login`, then accept the Gemma ToS at " ++ s!"https://huggingface.co/{modelId}"
  | .ok (some _) =>
  match hfCache.freeBytes h with
  | none => .ready vramFreeGb hfCache
  | some free =>
    let freeGb : F32 := free/1e9
    if freeGb < minDiskGb then
      .skipped (s!"insufficient disk for {modelId}: {h.oneDecimal freeGb} GB free at {hfCache.hubCache} " ++
          s!"(need ~{h.oneDecimal minDiskGb} GB)") "free up space or set HF_HUB_CACHE to a different mountpoint"
    else .ready vramFreeGb hfCache

structure VllmConfig where
  model : String
  tensorParallelSize : UInt32 := 1
  dtype : String := "auto"
  gpuMemoryUtilization : Option F32 := none
  maxModelLen : Option UInt32 := none
  hfCacheDir : Option String := none
  enforceEager : Option Bool := none
  enablePrefixCaching : Option Bool := none
  enableChunkedPrefill : Option Bool := none
  maxNumSeqs : Option UInt32 := none
  blockSize : Option UInt32 := none
  quantization : Option String := none
  limitMmPerPrompt : Option (List (String × UInt32)) := none
  cpuOffloadGb : Option UInt32 := none

/-- Without a value a field is written as null. -/
def VllmConfig.toValue (c : VllmConfig) : Json :=
  let word (n : UInt32) : Json := ofNat n.toNat
  .object [("model",.string c.model),("tensor_parallel_size",word c.tensorParallelSize),("dtype",.string c.dtype),
    ("gpu_memory_utilization",ofOption ofF32 c.gpuMemoryUtilization),("max_model_len",ofOption word c.maxModelLen),
    ("hf_cache_dir",ofOption .string c.hfCacheDir),("enforce_eager",ofOption .bool c.enforceEager),
    ("enable_prefix_caching",ofOption .bool c.enablePrefixCaching),
    ("enable_chunked_prefill",ofOption .bool c.enableChunkedPrefill),("max_num_seqs",ofOption word c.maxNumSeqs),
    ("block_size",ofOption word c.blockSize),("quantization",ofOption .string c.quantization),
    ("limit_mm_per_prompt",
      ofOption (fun limits => .object (limits.map fun limit => (limit.1,word limit.2))) c.limitMmPerPrompt),
    ("cpu_offload_gb",ofOption word c.cpuOffloadGb)]

structure GemmaDefaults where
  modelId : String := "google/gemma-4-E4B-it"
  deploymentName : String := "gemma-local"
  cacheDir : Option String := none
  gpuMemoryUtilization : F32 := 0.5
  maxModelLen : Option UInt32 := none
  autoProvision : Bool := true

def supportedVariants : List String :=
  ["google/gemma-4-E2B","google/gemma-4-E2B-it","google/gemma-4-E4B","google/gemma-4-E4B-it"]

def minVramGb : String → Option F32
  | "google/gemma-4-E2B" | "google/gemma-4-E2B-it" => some 2.5
  | "google/gemma-4-E4B" | "google/gemma-4-E4B-it" => some 4.5
  | _ => none

def minDiskGb : String → Option F32
  | "google/gemma-4-E2B" | "google/gemma-4-E2B-it" => some 4
  | "google/gemma-4-E4B" | "google/gemma-4-E4B-it" => some 7
  | _ => none

def fallbackVariant : String → Option String
  | "google/gemma-4-E4B-it" => some "google/gemma-4-E2B-it"
  | "google/gemma-4-E4B" => some "google/gemma-4-E2B"
  | _ => none

def validateVariant (modelId : String) : Except InferenceError Unit :=
  if modelId ∈ supportedVariants then .ok ()
  else
    let supported := ", ".intercalate supportedVariants
    .error (.badRequest s!"unsupported Gemma variant `{modelId}` — supported: {supported}")

inductive ProvisionOutcome
  | ready (deploymentName : String)
  | skipped (reason hint : String)

namespace GemmaDefaults

def fromEnv (h : Host) : GemmaDefaults where
  autoProvision :=
    match h.envString "ATOMR_INFER_GEMMA_AUTO" with
    | some v => decide (v.toLower ∉ ["0","false","no","off","skip","skip-quietly"])
    | none => true
  modelId := (h.envString "ATOMR_INFER_GEMMA_MODEL").getD "google/gemma-4-E4B-it"
  deploymentName := (h.envString "ATOMR_INFER_GEMMA_DEPLOYMENT").getD "gemma-local"
  gpuMemoryUtilization := ((h.envString "ATOMR_INFER_GEMMA_GPU_UTIL").bind fun v => (h.parseF32 v).toOption).getD 0.5
  maxModelLen :=
    ((h.envString "ATOMR_INFER_GEMMA_MAX_LEN").bind fun v => (parseU32 v.toList).toOption).map UInt32.ofNat

def vllmConfig (cfg : GemmaDefaults) : VllmConfig where
  model := cfg.modelId
  gpuMemoryUtilization := some cfg.gpuMemoryUtilization
  maxModelLen := cfg.maxModelLen
  hfCacheDir := cfg.cacheDir
  enforceEager := some true
  maxNumSeqs := some 16
  cpuOffloadGb := some 4

/-- What is registered with the manager. -/
def deployment (cfg : GemmaDefaults) : Deployment Json where
  name := cfg.deploymentName
  model := cfg.modelId
  runtime := some .vllm
  runtimeConfig := some (.vllm cfg.vllmConfig.toValue)
  gpus := some 1

end GemmaDefaults

open GemmaDefaults

/-- The catalog is that of the manager, which answers every message. -/
def provisionIfReady (h : Host) (records : Catalog Json) (cfg : GemmaDefaults) :
    Catalog Json × Except InferenceError ProvisionOutcome :=
  match validateVariant cfg.modelId with
  | .error e => (records,.error e)
  | .ok () =>
    let minVram := (minVramGb cfg.modelId).getD 4.5
    let minDisk := (minDiskGb cfg.modelId).getD 7
    match probe h cfg.modelId minVram minDisk (fallbackVariant cfg.modelId) with
    | .skipped reason hint => (records,.ok (.skipped reason hint))
    | .error e => (records,.error e)
    | .ready _ _ =>
      match records.handle (.apply cfg.deployment) with
      | (records',.done (.ok ())) => (records',.ok (.ready cfg.deploymentName))
      | (records',.done (.error e)) => (records',.error e)
      | (records',_) => (records',.error (.internal "gemma defaults: deployment manager dropped reply channel"))

/-- Each deployment is applied, and what the manager answers is only logged. -/
def applyAll (deployments : List (Deployment Json)) : Catalog Json :=
  deployments.foldl (fun records d => records.next (.apply d)) ∅

/-- The catalog of a server that has started. -/
def runServer (h : Host) (deployments : List (Deployment Json)) : Catalog Json :=
  let cfg := fromEnv h
  if cfg.autoProvision then (provisionIfReady h (applyAll deployments) cfg).1 else applyAll deployments

theorem envString_ne_empty {h : Host} {var v : String} (hv : h.envString var = some v) : v ≠ "" := by
  obtain ⟨-,hne⟩ := Option.filter_eq_some_iff.mp hv
  simpa using hne

/-- The name that the variables give is never empty. -/
theorem deploymentName_fromEnv (h : Host) : (fromEnv h).deploymentName ≠ "" := by
  unfold fromEnv
  simp only
  cases hv : h.envString "ATOMR_INFER_GEMMA_DEPLOYMENT" with
  | none => simp
  | some v => exact envString_ne_empty hv

/-- All that the probe asks for. -/
structure Fit (h : Host) (modelId : String) : Prop where
  gpu : ∃ free, probeGpu h = .ok free ∧ ¬free < (minVramGb modelId).getD 4.5
  python : probePython h = .ok ()
  vllm : ∃ version, probeVllm h = .ok version
  cache : ∃ hfCache, HfCache.resolve h = .ok hfCache ∧ (∃ token, hfCache.discoverToken h = .ok (some token)) ∧
    ∀ free, hfCache.freeBytes h = some free → ¬(free/1e9 : F32) < (minDiskGb modelId).getD 7

theorem probe_ready_iff (h : Host) (modelId : String) (smaller : Option String) :
    (∃ free hfCache, probe h modelId ((minVramGb modelId).getD 4.5) ((minDiskGb modelId).getD 7) smaller =
      .ready free hfCache) ↔ Fit h modelId := by
  constructor
  · rintro ⟨free,hfCache,hprobe⟩
    unfold probe at hprobe
    split at hprobe
    · cases hprobe
    rename_i cache hcache
    split at hprobe
    · cases hprobe
    rename_i vram hvram
    split at hprobe
    · cases hprobe
    rename_i hle
    split at hprobe
    · cases hprobe
    rename_i hpython
    split at hprobe
    · cases hprobe
    rename_i version hvllm
    split at hprobe
    · cases hprobe
    · cases hprobe
    rename_i token htoken
    refine ⟨⟨vram,hvram,hle⟩,hpython,⟨version,hvllm⟩,cache,hcache,⟨token,htoken⟩,?_⟩
    intro bytes hbytes
    rw [hbytes] at hprobe
    simp only at hprobe
    split at hprobe
    · cases hprobe
    · rename_i hdisk
      exact hdisk
  · rintro ⟨⟨vram,hvram,hle⟩,hpython,⟨version,hvllm⟩,cache,hcache,⟨token,htoken⟩,hdisk⟩
    unfold probe
    simp only [hcache,hvram,if_neg hle,hpython,hvllm,htoken]
    cases hfree : cache.freeBytes h with
    | none => exact ⟨vram,cache,rfl⟩
    | some bytes => exact ⟨vram,cache,if_neg (hdisk bytes hfree)⟩

/-- The manager is asked where the model is supported and the host is fit for it. -/
def Provisioned (h : Host) (cfg : GemmaDefaults) : Prop := cfg.modelId ∈ supportedVariants ∧ Fit h cfg.modelId

theorem provisionIfReady_of_provisioned {h : Host} {cfg : GemmaDefaults} (hcfg : Provisioned h cfg)
    (records : Catalog Json) : (provisionIfReady h records cfg).1 = records.next (.apply cfg.deployment) := by
  obtain ⟨hmodel,hfit⟩ := hcfg
  obtain ⟨free,hfCache,hprobe⟩ := (probe_ready_iff h cfg.modelId (fallbackVariant cfg.modelId)).mpr hfit
  unfold provisionIfReady validateVariant
  simp only [if_pos hmodel,hprobe,Catalog.next,Catalog.handle]
  cases cfg.deployment.validate with
  | ok u => rfl
  | error e => rfl

theorem provisionIfReady_of_not {h : Host} {cfg : GemmaDefaults} (hcfg : ¬Provisioned h cfg)
    (records : Catalog Json) : (provisionIfReady h records cfg).1 = records := by
  unfold provisionIfReady validateVariant
  by_cases hmodel : cfg.modelId ∈ supportedVariants
  · simp only [if_pos hmodel]
    have hready := (probe_ready_iff h cfg.modelId (fallbackVariant cfg.modelId)).not.mpr fun hfit =>
      hcfg ⟨hmodel,hfit⟩
    cases hprobe : probe h cfg.modelId ((minVramGb cfg.modelId).getD 4.5) ((minDiskGb cfg.modelId).getD 7)
        (fallbackVariant cfg.modelId) with
    | skipped reason hint => rfl
    | error e => rfl
    | ready free hfCache => exact absurd ⟨free,hfCache,hprobe⟩ hready
  · simp only [if_neg hmodel]

/-- The deployment that stands last among the valid ones with its name. -/
def LastValid (deployments : List (Deployment Json)) (d : Deployment Json) : Prop :=
  ∃ pre post, deployments = pre++d::post ∧ d.Valid ∧ ∀ d' ∈ post, d'.name = d.name → ¬d'.Valid

theorem inForce_apply_iff (deployments : List (Deployment Json)) (d : Deployment Json) :
    Catalog.InForce (deployments.map .apply) d ↔ LastValid deployments d := by
  constructor
  · rintro ⟨pre,post,hsplit,hvalid,-,hlast⟩
    obtain ⟨pre',rest,rfl,rfl,hrest⟩ := List.map_eq_append_iff.mp hsplit
    obtain ⟨d',post',rfl,hd,rfl⟩ := List.map_eq_cons_iff.mp hrest
    obtain rfl : d' = d := DeploymentManagerMsg.apply.inj hd
    exact ⟨pre',post',rfl,hvalid,fun d'' hmem => hlast d'' (List.mem_map.mpr ⟨d'',hmem,rfl⟩)⟩
  · rintro ⟨pre,post,rfl,hvalid,hlast⟩
    refine ⟨pre.map .apply,post.map .apply,by simp,hvalid,by simp,?_⟩
    intro d' hmem
    obtain ⟨d'',hd'',heq⟩ := List.mem_map.mp hmem
    obtain rfl := DeploymentManagerMsg.apply.inj heq
    exact hlast d'' hd''

theorem lookup_applyAll (deployments : List (Deployment Json)) (name : String) (r : DeploymentRecord Json) :
    (applyAll deployments).lookup name = some r ↔
      r.state = .pending ∧ r.deployment.name = name ∧ LastValid deployments r.deployment := by
  have hlookup := Catalog.lookup_iff (deployments.map .apply) name r
  rw [List.foldl_map] at hlookup
  rw [applyAll,hlookup]
  constructor
  · rintro ⟨d,hname,rfl,hforce⟩
    exact ⟨rfl,hname,(inForce_apply_iff deployments d).mp hforce⟩
  · rintro ⟨hstate,hname,hlast⟩
    obtain ⟨d,state⟩ := r
    obtain rfl : state = .pending := hstate
    exact ⟨d,hname,rfl,(inForce_apply_iff deployments d).mpr hlast⟩

/-- There is a local deployment. -/
def Local (h : Host) (cfg : GemmaDefaults) : Prop := cfg.autoProvision = true ∧ Provisioned h cfg

theorem runServer_of_local {h : Host} (hlocal : Local h (fromEnv h)) (deployments : List (Deployment Json)) :
    runServer h deployments = (applyAll deployments).next (.apply (fromEnv h).deployment) :=
  (if_pos hlocal.1).trans (provisionIfReady_of_provisioned hlocal.2 _)

theorem runServer_of_not {h : Host} (hlocal : ¬Local h (fromEnv h)) (deployments : List (Deployment Json)) :
    runServer h deployments = applyAll deployments := by
  unfold runServer
  by_cases hauto : (fromEnv h).autoProvision = true
  · simp only [if_pos hauto]
    exact provisionIfReady_of_not (fun hprovisioned => hlocal ⟨hauto,hprovisioned⟩) _
  · exact if_neg hauto

theorem deployment_valid {h : Host} {cfg : GemmaDefaults} (hname : cfg.deploymentName ≠ "")
    (hcfg : Provisioned h cfg) : cfg.deployment.Valid := by
  refine ⟨hname,?_,?_⟩
  · intro hmodel
    have hmem : "" ∈ supportedVariants := hmodel ▸ hcfg.1
    simp [supportedVariants] at hmem
  · change (1 : UInt32) ≠ 0
    decide

theorem lookup_runServer_local {h : Host} (hlocal : Local h (fromEnv h)) (deployments : List (Deployment Json))
    (name : String) : (runServer h deployments).lookup name =
      if (fromEnv h).deploymentName = name then some ⟨(fromEnv h).deployment,.pending⟩
      else (applyAll deployments).lookup name := by
  have hvalid := deployment_valid (deploymentName_fromEnv h) hlocal.2
  have hwrites := Catalog.writes_next (applyAll deployments) (.apply (fromEnv h).deployment) name
  rw [runServer_of_local hlocal]
  refine hwrites.trans ?_
  by_cases hname : (fromEnv h).deploymentName = name
  · have heffect : Catalog.effect (.apply (fromEnv h).deployment) name =
        some (some ⟨(fromEnv h).deployment,.pending⟩) :=
      if_pos ⟨hname,hvalid⟩
    rw [heffect,if_pos hname,Option.getD_some]
  · have heffect : Catalog.effect (.apply (fromEnv h).deployment) name = none := if_neg fun heq => hname heq.1
    rw [heffect,if_neg hname,Option.getD_none]

/-- What holds of a server that has started. -/
structure BootLaw (h : Host) (deployments : List (Deployment Json)) (cfg : GemmaDefaults) : Prop where
  found : ∀ name r, (runServer h deployments).lookup name = some r ↔ r.state = .pending ∧ r.deployment.name = name ∧
    ((Local h cfg ∧ cfg.deploymentName = name ∧ r.deployment = cfg.deployment) ∨
      (¬(Local h cfg ∧ cfg.deploymentName = name) ∧ LastValid deployments r.deployment))
  kept : ∃ j, cfg.deployment.serialize = .ok j ∧ Deployment.deserialize j = some cfg.deployment
  placed : ∀ constraints, constraints.gpuNodes ≠ [] → ∃ res, place cfg.deployment constraints = .ok res ∧
    res.assignments.map NodeAssignment.gpus = [[0]]

/-- A server that has started has the last valid deployment of each name in the project file. On top of them,
and in the place of one with its name, it has the local one if the variables do not switch it off, its model
is a supported one and the host is fit for it. That one goes to one GPU of one node, and is read back from its
JSON form. -/
theorem boot_law (h : Host) (deployments : List (Deployment Json)) : BootLaw h deployments (fromEnv h) := by
  refine ⟨?_,?_,?_⟩
  · intro name r
    have hproject := lookup_applyAll deployments name r
    by_cases hlocal : Local h (fromEnv h)
    · rw [lookup_runServer_local hlocal]
      by_cases hname : (fromEnv h).deploymentName = name
      · rw [if_pos hname,Option.some_inj]
        constructor
        · rintro rfl
          exact ⟨rfl,hname,.inl ⟨hlocal,hname,rfl⟩⟩
        · rintro ⟨hstate,-,⟨-,-,hd⟩ | ⟨hnot,-⟩⟩
          · obtain ⟨d,state⟩ := r
            rw [← hstate,← hd]
          · exact absurd ⟨hlocal,hname⟩ hnot
      · rw [if_neg hname,hproject]
        simp [hname]
    · rw [runServer_of_not hlocal,hproject]
      simp [hlocal]
  · refine (Deployment.reads_back_iff_plain _).mpr ⟨fun b hb => absurd hb (Option.not_mem_none b),?_⟩
    rintro c hc b hb
    obtain rfl := Option.some.inj hc
    obtain rfl := Option.some.inj hb
    refine ⟨_,rfl,?_⟩
    simp
  · intro constraints hnodes
    have hpool : poolOf (fromEnv h).deployment constraints (.ofRuntime (fromEnv h).deployment.effectiveRuntime) =
        some (constraints.gpuNodes,[0]) := rfl
    exact ⟨_,place_of_pool hpool hnodes,rfl⟩

end RakkaInference
