import AciContainers.Replay
import AciContainers.Net
import AciContainers.Runs

/-!
# The Kafka client for endpoints

`pkg/gbpserver/kafkac`: `AddEP` and `DeleteEP` keep a cache of endpoints and, once the marker has
come back, also queue each change; `run` compares the topic with the cache, sends the difference
and then the queue. `MsgDiff` reads the cache itself and no copy, so the cache may change between
two turns of its loops.
-/
namespace AciContainers.Kafka

open Maps Replay

structure PodIFStatus where
  podNS : String
  podName : String
  containerID : String
  epg : String
  ipAddr : String
  ifName : String
  deriving DecidableEq

/-- The fields of a message that are sent. -/
structure EPMsg where
  name : String
  ipAddr : String
  epgDN : String
  containerID : String
  subnetDN : String
  vrfDN : String
  podNameDN : String
  clusterName : String
  deriving DecidableEq

structure CapicEPMsg extends EPMsg where
  delete : Bool
  deriving DecidableEq

structure CloudInfo where
  subnet : String
  vrf : String
  clusterName : String
  deriving DecidableEq

def markerName : String := "marker.marker"

def inboxSize : Nat := 256

def getEPName (ep : PodIFStatus) : String := ep.podNS ++ "." ++ ep.podName ++ "." ++ ep.ifName

def dnToTenant (dn : String) : String :=
  let acct := "acct-[".toList
  let s := if acct.isPrefixOf dn.toList then dn.toList.drop acct.length else dn.toList
  match Net.splitOn ']' s with
  | tenant :: _ :: _ => String.ofList tenant
  | _ => ""

def getEpgDN (cloudInfo : CloudInfo) (epgToDn : Map String String) (name : String) : String :=
  (epgToDn name).getD ("uni/tn-" ++ dnToTenant cloudInfo.vrf ++ "/cloudapp-" ++ cloudInfo.clusterName ++
    "/cloudepg-" ++ name)

def getPodDN (cloudInfo : CloudInfo) (ep : PodIFStatus) : String :=
  "comp/prov-Kubernetes/ctrlr-[" ++ cloudInfo.clusterName ++ "]-" ++ cloudInfo.clusterName ++ "/ns-" ++
    ep.podNS ++ "/grp-" ++ ep.podName

/-- The message of `AddEP`. -/
def addMsg (cloudInfo : CloudInfo) (epgToDn : Map String String) (ep : PodIFStatus) : CapicEPMsg where
  name := getEPName ep
  ipAddr := ep.ipAddr
  epgDN := getEpgDN cloudInfo epgToDn ep.epg
  containerID := ep.containerID
  subnetDN := cloudInfo.subnet
  vrfDN := cloudInfo.vrf
  podNameDN := getPodDN cloudInfo ep
  clusterName := cloudInfo.clusterName
  delete := false

/-- The message of `DeleteEP`. -/
def deleteMsg (ep : PodIFStatus) : CapicEPMsg where
  name := getEPName ep
  ipAddr := ""
  epgDN := ""
  containerID := ""
  subnetDN := ""
  vrfDN := ""
  podNameDN := ""
  clusterName := ""
  delete := true

inductive SyncState where
  | markerSet | markerReceived
  deriving DecidableEq

structure PodIFCache where
  cache : Finmap fun _ : String => CapicEPMsg
  state : SyncState
  markerID : String
  /-- The keys that a loop over the cache still has to produce. A key that is deleted before the
  loop reaches it is not produced; one that is added may be. -/
  mustVisit : Finset String

/-- `%04d%08d` of two random numbers. -/
def padded (width n : Nat) : List Char :=
  let digits := Nat.toDigits 10 n
  List.replicate (width - digits.length) '0' ++ digits

def newMarkerID (a b : Nat) : String := String.ofList (padded 4 a ++ padded 8 b)

def readyToFwd (pc : PodIFCache) (key : String) (msg : CapicEPMsg) : PodIFCache × Bool :=
  if msg.containerID = pc.markerID then ({ pc with state := .markerReceived }, false)
  else
    let forward := decide (pc.state = .markerReceived)
    if msg.delete then
      ({ pc with cache := pc.cache.erase key, mustVisit := pc.mustVisit.erase key }, forward)
    else if msg.ipAddr ≠ "" then ({ pc with cache := pc.cache.insert key msg }, forward)
    else (pc, forward)

abbrev Topic := Log String EPMsg

/-- What is to be sent to bring the topic into line. -/
abbrev Diff := Finmap fun _ : String => Option EPMsg

/-- Where `run` is. -/
inductive Phase where
  /-- Waits for the cache to be ready. -/
  | waiting
  /-- In `sendOneMsg` for the marker. -/
  | marking
  /-- The consumer has read the topic up to a position. -/
  | consuming (markerOffset pos : Nat)
  /-- In the first loop of `MsgDiff`, with keys left. -/
  | comparing (todo : Finset String) (diff : Diff)
  /-- In the second loop of `MsgDiff`. -/
  | collecting (diff : Diff)
  /-- In the loop over the difference. -/
  | applying (diff : Diff)
  /-- In `sendOneMsg` for an entry of the difference. -/
  | applyingOne (key : String) (val : Option EPMsg) (diff : Diff)
  /-- Waits for the inbox. -/
  | receiving
  /-- In `sendOneMsg` for a message of the inbox. -/
  | forwarding (m : CapicEPMsg)

structure State where
  epgToDn : Map String String
  cniCache : PodIFCache
  /-- The endpoints read from the topic. -/
  kafkaCache : Finmap fun _ : String => CapicEPMsg
  inbox : List CapicEPMsg
  /-- The message that the caller is about to put into the inbox. -/
  putting : Option CapicEPMsg
  phase : Phase
  /-- The offset of an entry is its position. -/
  topic : Topic

def start (a b : Nat) (topic : Topic) : State where
  epgToDn := Map.empty
  cniCache := ⟨∅, .markerSet, newMarkerID a b, ∅⟩
  kafkaCache := ∅
  inbox := []
  putting := none
  phase := .waiting
  topic := topic

/-- One turn of the loop of `sendOneMsg`. A send that fails may have been stored all the same. -/
inductive Attempt where
  | accepted
  | failed (stored : Bool)
  deriving DecidableEq

inductive Event where
  | updateEpgDN (name dn : String)
  | addEP (ep : PodIFStatus)
  | deleteEP (ep : PodIFStatus)
  | put
  | ready
  | attempt (outcome : Attempt)
  | consume
  | compare (key : String)
  | endCompare
  | collect (key : String)
  | endCollect
  | apply (key : String)
  | endApply
  | receive

/-- `AddEP` and `DeleteEP` up to the send to the inbox, once the call before has returned. -/
def call (s : State) (msg : CapicEPMsg) : State :=
  if s.putting.isSome then s
  else
    let (pc, forward) := readyToFwd s.cniCache msg.name msg
    { s with cniCache := pc, putting := if forward then some msg else none }

/-- The value sent for a message of the inbox. -/
def sendVal (m : CapicEPMsg) : Option EPMsg := if m.delete then none else some m.toEPMsg

/-- A turn of `sendOneMsg`, with the phase after the loop. -/
def attempt (s : State) (key : String) (val : Option EPMsg) (next : Phase) : Attempt → State
  | .accepted => { s with topic := s.topic ++ [(key, val)], phase := next }
  | .failed true => { s with topic := s.topic ++ [(key, val)] }
  | .failed false => s

/-- A message that the consumer gets. -/
def consumed (cache : Finmap fun _ : String => CapicEPMsg) (key : String) :
    Option EPMsg → Finmap fun _ : String => CapicEPMsg
  | none => cache.erase key
  | some m => cache.insert key ⟨m, false⟩

def put (s : State) : State :=
  match s.putting with
  | some m => if s.inbox.length < inboxSize then { s with inbox := s.inbox ++ [m], putting := none } else s
  | none => s

def ready (s : State) : State :=
  match s.phase with
  | .waiting => if s.cniCache.state = .markerReceived then { s with phase := .marking } else s
  | _ => s

def sendOneMsg (s : State) (outcome : Attempt) : State :=
  match s.phase with
  | .marking => attempt s markerName none (.consuming s.topic.length 0) outcome
  | .applyingOne key val diff => attempt s key val (.applying diff) outcome
  | .forwarding m => attempt s m.name (sendVal m) .receiving outcome
  | _ => s

/-- A turn of the loop in `epCache.Init`. -/
def consume (s : State) : State :=
  match s.phase with
  | .consuming markerOffset pos =>
    match s.topic[pos]? with
    | none => s
    | some (key, val) =>
      if pos = markerOffset then { s with phase := .comparing s.kafkaCache.keys ∅ }
      else { s with
        kafkaCache := consumed s.kafkaCache key val
        phase := .consuming markerOffset (pos + 1) }
  | _ => s

def compare (s : State) (key : String) : State :=
  match s.phase with
  | .comparing todo diff =>
    if key ∈ todo then
      let diff := if key ∈ s.cniCache.cache then diff else diff.insert key none
      { s with phase := .comparing (todo.erase key) diff }
    else s
  | _ => s

def endCompare (s : State) : State :=
  match s.phase with
  | .comparing todo diff =>
    if todo = ∅ then
      { s with
        cniCache := { s.cniCache with mustVisit := s.cniCache.cache.keys }
        phase := .collecting diff }
    else s
  | _ => s

def collect (s : State) (key : String) : State :=
  match s.phase with
  | .collecting diff =>
    match s.cniCache.cache.lookup key with
    | none => s
    | some v =>
      let diff := if s.kafkaCache.lookup key = some v then diff else diff.insert key (some v.toEPMsg)
      { s with
        cniCache := { s.cniCache with mustVisit := s.cniCache.mustVisit.erase key }
        phase := .collecting diff }
  | _ => s

def endCollect (s : State) : State :=
  match s.phase with
  | .collecting diff => if s.cniCache.mustVisit = ∅ then { s with phase := .applying diff } else s
  | _ => s

def apply (s : State) (key : String) : State :=
  match s.phase with
  | .applying diff =>
    match diff.lookup key with
    | none => s
    | some val => { s with phase := .applyingOne key val (diff.erase key) }
  | _ => s

def endApply (s : State) : State :=
  match s.phase with
  | .applying diff => if diff.keys = ∅ then { s with phase := .receiving } else s
  | _ => s

def receive (s : State) : State :=
  match s.phase, s.inbox with
  | .receiving, m :: inbox => { s with phase := .forwarding m, inbox := inbox }
  | _, _ => s

def step (cloudInfo : CloudInfo) (s : State) : Event → State
  | .updateEpgDN name dn => { s with epgToDn := s.epgToDn.put name dn }
  | .addEP ep => call s (addMsg cloudInfo s.epgToDn ep)
  | .deleteEP ep => call s (deleteMsg ep)
  | .put => put s
  | .ready => ready s
  | .attempt outcome => sendOneMsg s outcome
  | .consume => consume s
  | .compare key => compare s key
  | .endCompare => endCompare s
  | .collect key => collect s key
  | .endCollect => endCollect s
  | .apply key => apply s key
  | .endApply => endApply s
  | .receive => receive s

/-!
# Convergence of the topic

A key that changed after the marker has its last change still to be sent, so the difference need
not be right for it. A key that did not change since is compared with one value throughout.
-/

open Runs Finmap

def entry (m : CapicEPMsg) : String × Option EPMsg := (m.name, sendVal m)

/-- The message that `run` has taken from the inbox. -/
def Phase.taken : Phase → List CapicEPMsg
  | .forwarding m => [m]
  | _ => []

namespace State

/-- The changes still to be sent, oldest first. -/
def pending (s : State) : Log String EPMsg := (s.phase.taken ++ s.inbox ++ s.putting.toList).map entry

/-- The cache of the caller. -/
def desired (s : State) : Map String EPMsg := fun k => (s.cniCache.cache.lookup k).map CapicEPMsg.toEPMsg

/-- The last value of each key. -/
def content (s : State) : Map String EPMsg := replay Map.empty s.topic

def known (s : State) : Map String EPMsg := fun k => (s.kafkaCache.lookup k).map CapicEPMsg.toEPMsg

end State

/-- What holds of the difference at a key that has no change to be sent. -/
def Settled (s : State) (k : String) : Prop :=
  match s.phase with
  | .waiting => True
  | .marking => True
  | .consuming _ _ => True
  | .comparing todo diff =>
    diff.lookup k =
      if k ∈ s.kafkaCache ∧ k ∉ todo ∧ k ∉ s.cniCache.cache then some none else none
  | .collecting diff =>
    overlay s.content (diff.lookup k) k = s.desired k ∨
      (k ∈ s.cniCache.mustVisit ∧ k ∈ s.cniCache.cache ∧ diff.lookup k = none)
  | .applying diff => overlay s.content (diff.lookup k) k = s.desired k
  | .applyingOne key val diff => overlay (assign s.content key val) (diff.lookup k) k = s.desired k
  | .receiving => s.content k = s.desired k
  | .forwarding _ => s.content k = s.desired k

/-- What the consumer has read. -/
def Reading (s : State) : Prop :=
  match s.phase with
  | .waiting => s.kafkaCache = ∅
  | .marking => s.kafkaCache = ∅
  | .consuming markerOffset pos =>
    pos ≤ markerOffset ∧ s.topic.drop markerOffset = [(markerName, none)] ∧
      s.known = replay Map.empty (s.topic.take pos)
  | .comparing todo _ => todo ⊆ s.kafkaCache.keys ∧ ∀ k ≠ markerName, s.known k = s.content k
  | .collecting _ => ∀ k ≠ markerName, s.known k = s.content k
  | _ => True

structure Inv (mid : String) (s : State) : Prop where
  marker : s.cniCache.markerID = mid
  unready : s.cniCache.state = .markerSet → s.phase = .waiting ∧ s.pending = []
  reading : Reading s
  changed : ∀ k, Touches s.pending k → ∀ m, replay m s.pending k = s.desired k
  settled : ∀ k, k ≠ markerName → ¬ Touches s.pending k → Settled s k

section Frame

variable {s s' : State}

theorem Settled.frame {k : String} (hphase : s'.phase = s.phase) (htopic : s'.topic = s.topic)
    (hkafka : s'.kafkaCache = s.kafkaCache) (hlookup : s'.cniCache.cache.lookup k = s.cniCache.cache.lookup k)
    (hvisit : k ∈ s.cniCache.mustVisit → k ∈ s'.cniCache.mustVisit) (h : Settled s k) : Settled s' k := by
  have hmem : k ∈ s'.cniCache.cache ↔ k ∈ s.cniCache.cache := by
    rw [← lookup_isSome, hlookup, lookup_isSome]
  have hdesired : s'.desired k = s.desired k := by rw [State.desired, hlookup, State.desired]
  have hcontent : s'.content = s.content := by rw [State.content, htopic, State.content]
  unfold Settled at h ⊢
  rw [hphase]
  cases hp : s.phase with
  | waiting => trivial
  | marking => trivial
  | consuming markerOffset pos => trivial
  | comparing todo diff => simpa only [hp, hkafka, hmem] using h
  | collecting diff =>
    rw [hp] at h
    dsimp only at h ⊢
    rw [hcontent, hdesired, hmem]
    exact h.imp_right fun h => ⟨hvisit h.1, h.2⟩
  | applying diff => simpa only [hp, hcontent, hdesired] using h
  | applyingOne key val diff => simpa only [hp, hcontent, hdesired] using h
  | receiving => simpa only [hp, hcontent, hdesired] using h
  | forwarding m => simpa only [hp, hcontent, hdesired] using h

theorem Reading.frame (hphase : s'.phase = s.phase) (htopic : s'.topic = s.topic)
    (hkafka : s'.kafkaCache = s.kafkaCache) (h : Reading s) : Reading s' := by
  have hknown : s'.known = s.known := by
    funext k
    rw [State.known, hkafka, State.known]
  have hcontent : s'.content = s.content := by rw [State.content, htopic, State.content]
  unfold Reading at h ⊢
  rw [hphase]
  cases hp : s.phase with
  | waiting => simpa only [hp, hkafka] using h
  | marking => simpa only [hp, hkafka] using h
  | consuming markerOffset pos => simpa only [hp, htopic, hknown] using h
  | comparing todo diff => simpa only [hp, hkafka, hknown, hcontent] using h
  | collecting diff => simpa only [hp, hknown, hcontent] using h
  | applying diff => trivial
  | applyingOne key val diff => trivial
  | receiving => trivial
  | forwarding m => trivial

end Frame

/-- What a call does to the cache. -/
structure Recorded (pc : PodIFCache) (msg : CapicEPMsg) (pc' : PodIFCache) : Prop where
  state : pc'.state = pc.state
  markerID : pc'.markerID = pc.markerID
  same : (pc'.cache.lookup msg.name).map CapicEPMsg.toEPMsg = sendVal msg
  other : ∀ k ≠ msg.name, pc'.cache.lookup k = pc.cache.lookup k
  visit : ∀ k ≠ msg.name, k ∈ pc.mustVisit → k ∈ pc'.mustVisit

theorem readyToFwd_spec (pc : PodIFCache) {msg : CapicEPMsg} (hid : msg.containerID ≠ pc.markerID)
    (hip : msg.delete = false → msg.ipAddr ≠ "") :
    ∃ pc', readyToFwd pc msg.name msg = (pc', decide (pc.state = .markerReceived)) ∧ Recorded pc msg pc' := by
  unfold readyToFwd
  rw [if_neg hid]
  cases hdel : msg.delete with
  | true =>
    refine ⟨_, rfl, rfl, rfl, ?_, ?_, ?_⟩
    · simp [sendVal, hdel]
    · exact fun k hk => lookup_erase_ne hk
    · exact fun k hk hmem => Finset.mem_erase.mpr ⟨hk, hmem⟩
  | false =>
    rw [if_neg Bool.false_ne_true, if_pos (hip hdel)]
    refine ⟨_, rfl, rfl, rfl, ?_, ?_, fun _ _ hmem => hmem⟩
    · simp [sendVal, hdel]
    · exact fun k hk => lookup_insert_of_ne _ hk

section Call

variable {mid : String} {s : State} {msg : CapicEPMsg} (hinv : Inv mid s)
include hinv

theorem inv_markerReceived (hput : s.putting = none) :
    Inv mid { s with cniCache := { s.cniCache with state := .markerReceived }, putting := none } where
  marker := hinv.marker
  unready h := by simp at h
  reading := hinv.reading.frame rfl rfl rfl
  changed := by
    have h := hinv.changed
    simp only [State.pending, hput] at h
    exact h
  settled k hk htouch := by
    refine (hinv.settled k hk ?_).frame rfl rfl rfl rfl id
    simpa only [State.pending, hput] using htouch

/-- A change that is queued is the last one of its key. -/
theorem inv_queued (hput : s.putting = none) (hready : s.cniCache.state = .markerReceived)
    {pc : PodIFCache} (hrec : Recorded s.cniCache msg pc) : Inv mid { s with cniCache := pc, putting := some msg } := by
  have hpending : State.pending { s with cniCache := pc, putting := some msg } = s.pending ++ [entry msg] := by
    simp [State.pending, hput]
  have hother : ∀ k ≠ msg.name, State.desired { s with cniCache := pc, putting := some msg } k = s.desired k := by
    intro k hk
    simp [State.desired, hrec.other k hk]
  refine ⟨?_, ?_, hinv.reading.frame rfl rfl rfl, ?_, ?_⟩
  · rw [hrec.markerID]
    exact hinv.marker
  · intro h
    rw [hrec.state, hready] at h
    simp at h
  · intro k htouch m
    rw [hpending] at htouch ⊢
    rw [replay_snoc]
    by_cases hk : k = msg.name
    · subst hk
      exact (assign_same _ _ _).trans hrec.same.symm
    · have htouch : Touches s.pending k := by simpa [entry, hk] using htouch
      rw [hother k hk, ← hinv.changed k htouch m]
      exact assign_other _ _ hk
  · intro k hmarker htouch
    rw [hpending, touches_append, not_or] at htouch
    have hk : k ≠ msg.name := by simpa [entry] using htouch.2
    have hsettled := hinv.settled k hmarker htouch.1
    exact Settled.frame (s := s) rfl rfl rfl (hrec.other k hk) (hrec.visit k hk) hsettled

/-- Before the marker, nothing is queued and `run` has not started. -/
theorem inv_unqueued (hput : s.putting = none) (hready : s.cniCache.state = .markerSet)
    {pc : PodIFCache} (hrec : Recorded s.cniCache msg pc) : Inv mid { s with cniCache := pc, putting := none } := by
  obtain ⟨hphase, hnone⟩ := hinv.unready hready
  have hpending : State.pending { s with cniCache := pc, putting := none } = [] := by
    rw [← hnone]
    simp [State.pending, hput]
  refine ⟨?_, fun _ => ⟨hphase, hpending⟩, hinv.reading.frame rfl rfl rfl, ?_, ?_⟩
  · rw [hrec.markerID]
    exact hinv.marker
  · intro k htouch
    rw [hpending] at htouch
    exact absurd htouch (not_touches_nil k)
  · simp [Settled, hphase]

theorem inv_call (hmsg : msg.containerID ≠ s.cniCache.markerID → msg.delete = false → msg.ipAddr ≠ "") :
    Inv mid (call s msg) := by
  unfold call
  cases hput : s.putting with
  | some m => exact hinv
  | none =>
    by_cases hid : msg.containerID = s.cniCache.markerID
    · simp only [readyToFwd, if_pos hid]
      exact inv_markerReceived hinv hput
    · obtain ⟨pc, hpc, hrec⟩ := readyToFwd_spec s.cniCache hid (hmsg hid)
      rw [hpc]
      cases hready : s.cniCache.state with
      | markerSet => simpa using inv_unqueued hinv hput hready hrec
      | markerReceived => simpa using inv_queued hinv hput hready hrec

theorem inv_put : Inv mid (put s) := by
  unfold put
  cases hput : s.putting with
  | none => exact hinv
  | some m =>
    dsimp only
    split
    · have hpending : State.pending { s with inbox := s.inbox ++ [m], putting := none } = s.pending := by
        simp [State.pending, hput]
      refine ⟨hinv.marker, ?_, hinv.reading.frame rfl rfl rfl, ?_, ?_⟩
      · rw [hpending]
        exact hinv.unready
      · rw [hpending]
        exact hinv.changed
      · intro k hk htouch
        rw [hpending] at htouch
        exact (hinv.settled k hk htouch).frame rfl rfl rfl rfl id
    · exact hinv

omit hinv

end Call

section Run

variable {mid : String} {s s' : State}

theorem pending_frame (htaken : s'.phase.taken = s.phase.taken) (hinbox : s'.inbox = s.inbox)
    (hputting : s'.putting = s.putting) : s'.pending = s.pending := by
  rw [State.pending, htaken, hinbox, hputting, State.pending]

variable (hinv : Inv mid s)
include hinv

/-- A step that leaves the cache and the changes to be sent has to keep what is said about the
phase. -/
theorem Inv.progress (hready : s.cniCache.state ≠ .markerSet) (hmarker : s'.cniCache.markerID = s.cniCache.markerID)
    (hstate : s'.cniCache.state = s.cniCache.state) (hcache : s'.cniCache.cache = s.cniCache.cache)
    (hpending : s'.pending = s.pending) (hreading : Reading s')
    (hsettled : ∀ k, k ≠ markerName → ¬ Touches s.pending k → Settled s' k) : Inv mid s' where
  marker := hmarker.trans hinv.marker
  unready h := absurd (hstate ▸ h) hready
  reading := hreading
  changed := by
    have hdesired : s'.desired = s.desired := by
      funext k
      rw [State.desired, hcache, State.desired]
    rw [hpending, hdesired]
    exact hinv.changed
  settled := hpending ▸ hsettled

/-- Once `run` has left its first phase, the marker has been received. -/
theorem Inv.received (h : s.phase ≠ .waiting) : s.cniCache.state ≠ .markerSet :=
  fun hset => h (hinv.unready hset).1

theorem Inv.settled_of {k : String} (hk : k ≠ markerName) (htouch : ¬ Touches s.pending k)
    {phase : Phase} (hp : s.phase = phase) : Settled { s with phase := phase } k := by
  subst hp
  exact hinv.settled k hk htouch

theorem Inv.reading_of {phase : Phase} (hp : s.phase = phase) : Reading { s with phase := phase } := by
  subst hp
  exact hinv.reading

theorem inv_ready : Inv mid (ready s) := by
  unfold ready
  cases hp : s.phase with
  | waiting =>
    dsimp only
    split
    · rename_i hready
      have hempty : s.kafkaCache = ∅ := hinv.reading_of hp
      refine hinv.progress (by simp [hready]) rfl rfl rfl (pending_frame (by rw [hp]; rfl) rfl rfl) hempty ?_
      exact fun _ _ _ => trivial
    · exact hinv
  | _ => exact hinv

omit hinv

/-- The topic gets the entry of a message that is sent. -/
theorem content_snoc (s : State) (key : String) (val : Option EPMsg) (phase : Phase) :
    State.content { s with topic := s.topic ++ [(key, val)], phase := phase } = assign s.content key val :=
  replay_snoc _ _ _

theorem inv_marking (hinv : Inv mid s) (hp : s.phase = .marking) (outcome : Attempt) :
    Inv mid (attempt s markerName none (.consuming s.topic.length 0) outcome) := by
  have hready := hinv.received (by simp [hp])
  have hempty : s.kafkaCache = ∅ := hinv.reading_of hp
  unfold attempt
  cases outcome with
  | accepted =>
    refine hinv.progress hready rfl rfl rfl (pending_frame (by rw [hp]; rfl) rfl rfl) ?_
      fun _ _ _ => trivial
    refine ⟨Nat.zero_le _, by simp, ?_⟩
    funext k
    simp [State.known, hempty]
  | failed stored =>
    cases stored with
    | false => exact hinv
    | true =>
      refine hinv.progress hready rfl rfl rfl rfl ?_ ?_
      · simpa only [Reading, hp] using hempty
      · intro k _ _
        simp [Settled, hp]

theorem inv_applyingOne (hinv : Inv mid s) {key : String} {val : Option EPMsg} {diff : Diff}
    (hp : s.phase = .applyingOne key val diff) (outcome : Attempt) :
    Inv mid (attempt s key val (.applying diff) outcome) := by
  have hready := hinv.received (by simp [hp])
  have hsettled : ∀ k, k ≠ markerName → ¬ Touches s.pending k →
      overlay (assign s.content key val) (diff.lookup k) k = s.desired k :=
    fun k hk htouch => hinv.settled_of hk htouch hp
  unfold attempt
  cases outcome with
  | accepted =>
    refine hinv.progress hready rfl rfl rfl (pending_frame (by rw [hp]; rfl) rfl rfl) trivial ?_
    intro k hk htouch
    simp only [Settled, content_snoc]
    exact hsettled k hk htouch
  | failed stored =>
    cases stored with
    | false => exact hinv
    | true =>
      refine hinv.progress hready rfl rfl rfl rfl (by simp only [Reading, hp]) ?_
      intro k hk htouch
      simp only [Settled, hp, content_snoc, assign_assign]
      exact hsettled k hk htouch

/-- The change of a key that is sent last is the one in the cache. -/
theorem inv_forwarding (hinv : Inv mid s) {m : CapicEPMsg} (hp : s.phase = .forwarding m) (outcome : Attempt) :
    Inv mid (attempt s m.name (sendVal m) .receiving outcome) := by
  have hready := hinv.received (by simp [hp])
  have hsettled : ∀ k, k ≠ markerName → ¬ Touches s.pending k → s.content k = s.desired k :=
    fun k hk htouch => hinv.settled_of hk htouch hp
  unfold attempt
  cases outcome with
  | accepted =>
    have hpending : s.pending = entry m ::
        State.pending { s with topic := s.topic ++ [(m.name, sendVal m)], phase := .receiving } := by
      simp [State.pending, hp, Phase.taken]
    refine ⟨hinv.marker, fun h => absurd h hready, trivial, ?_, ?_⟩
    · intro k htouch map
      have hchanged := hinv.changed k (by rw [hpending, touches_cons]; exact .inr htouch) map
      rw [hpending, replay_cons, replay_of_touches htouch _ map] at hchanged
      exact hchanged
    · intro k hk htouch
      simp only [Settled, content_snoc]
      by_cases hname : k = m.name
      · have hchanged := hinv.changed k (by rw [hpending, touches_cons]; exact .inl hname) s.content
        rw [hpending, replay_cons, replay_of_not_touches htouch] at hchanged
        exact hchanged
      · rw [assign_other _ _ hname]
        refine hsettled k hk ?_
        rw [hpending, touches_cons, not_or]
        exact ⟨hname, htouch⟩
  | failed stored =>
    cases stored with
    | false => exact hinv
    | true =>
      refine hinv.progress hready rfl rfl rfl rfl (by simp only [Reading, hp]) ?_
      intro k hk htouch
      have hname : k ≠ m.name := by
        rintro rfl
        refine htouch ?_
        simp [State.pending, hp, Phase.taken, entry]
      simp only [Settled, hp, content_snoc, assign_other _ _ hname]
      exact hsettled k hk htouch

theorem inv_sendOneMsg (hinv : Inv mid s) (outcome : Attempt) : Inv mid (sendOneMsg s outcome) := by
  unfold sendOneMsg
  cases hp : s.phase with
  | marking => exact inv_marking hinv hp outcome
  | applyingOne key val diff => exact inv_applyingOne hinv hp outcome
  | forwarding m => exact inv_forwarding hinv hp outcome
  | _ => exact hinv

theorem known_consumed (cache : Finmap fun _ : String => CapicEPMsg) (key : String) (val : Option EPMsg)
    (k : String) : ((consumed cache key val).lookup k).map CapicEPMsg.toEPMsg =
      assign (fun k => (cache.lookup k).map CapicEPMsg.toEPMsg) key val k := by
  by_cases hk : k = key
  · subst hk
    cases val <;> simp [consumed]
  · rw [assign_other _ _ hk]
    cases val with
    | none => rw [consumed, lookup_erase_ne hk]
    | some m => rw [consumed, lookup_insert_of_ne _ hk]

variable (hinv : Inv mid s)
include hinv

theorem inv_consume : Inv mid (consume s) := by
  unfold consume
  cases hp : s.phase with
  | consuming markerOffset pos =>
    have hready := hinv.received (by simp [hp])
    obtain ⟨hpos, hdrop, hknown⟩ := hinv.reading_of hp
    dsimp only
    cases hget : s.topic[pos]? with
    | none => exact hinv
    | some e =>
      obtain ⟨key, val⟩ := e
      dsimp only
      split
      · rename_i hmarker
        subst hmarker
        refine hinv.progress hready rfl rfl rfl (pending_frame (by rw [hp]; rfl) rfl rfl) ?_ ?_
        · refine ⟨Finset.Subset.refl _, ?_⟩
          intro k hk
          -- The marker itself is the only entry that has not been read.
          have htopic : s.topic = s.topic.take pos ++ [(markerName, none)] := by
            rw [← hdrop, List.take_append_drop]
          have hcontent : s.content = assign (replay Map.empty (s.topic.take pos)) markerName none := by
            rw [State.content, htopic, replay_snoc, ← htopic]
          calc State.known s k = replay Map.empty (s.topic.take pos) k := congrFun hknown k
            _ = s.content k := by rw [hcontent, assign_other _ _ hk]
        · intro k _ _
          simp only [Settled, mem_keys, lookup_empty]
          rw [if_neg]
          exact fun h => h.2.1 h.1
      · rename_i hne
        refine hinv.progress hready rfl rfl rfl (pending_frame (by rw [hp]; rfl) rfl rfl) ?_
          fun _ _ _ => trivial
        refine ⟨by omega, hdrop, ?_⟩
        funext k
        rw [List.take_add_one, hget, Option.toList_some, replay_snoc]
        have hread : s.known = replay Map.empty (s.topic.take pos) := hknown
        rw [← hread]
        exact known_consumed s.kafkaCache key val k
  | _ => exact hinv

/-- A key in the loop is looked up once; a key that is not in the cache gets a delete. -/
theorem inv_compare (key : String) : Inv mid (compare s key) := by
  unfold compare
  cases hp : s.phase with
  | comparing todo diff =>
    have hready := hinv.received (by simp [hp])
    obtain ⟨hsub, hknown⟩ : todo ⊆ s.kafkaCache.keys ∧ ∀ k ≠ markerName, s.known k = s.content k :=
      hinv.reading_of hp
    dsimp only
    split
    · rename_i hkey
      refine hinv.progress hready rfl rfl rfl (pending_frame (by rw [hp]; rfl) rfl rfl)
        ⟨(Finset.erase_subset _ _).trans hsub, hknown⟩ ?_
      intro k hk htouch
      have hsettled := hinv.settled_of hk htouch hp
      simp only [Settled] at hsettled ⊢
      by_cases hsame : k = key
      · subst hsame
        have hkafka : k ∈ s.kafkaCache := mem_keys.mp (hsub hkey)
        have hnone : diff.lookup k = none := by simpa [hkey] using hsettled
        by_cases hcache : k ∈ s.cniCache.cache
        · simp [hcache, hnone]
        · simp [hcache, hkafka]
      · have hdiff : lookup k (if key ∈ s.cniCache.cache then diff else diff.insert key none) =
            diff.lookup k := by
          split
          · rfl
          · exact lookup_insert_of_ne _ hsame
        rw [hdiff, hsettled]
        simp [hsame]
    · exact hinv
  | _ => exact hinv

theorem inv_endCompare : Inv mid (endCompare s) := by
  unfold endCompare
  cases hp : s.phase with
  | comparing todo diff =>
    have hready := hinv.received (by simp [hp])
    obtain ⟨-, hknown⟩ : todo ⊆ s.kafkaCache.keys ∧ ∀ k ≠ markerName, s.known k = s.content k :=
      hinv.reading_of hp
    dsimp only
    split
    · rename_i htodo
      refine hinv.progress hready rfl rfl rfl (pending_frame (by rw [hp]; rfl) rfl rfl) hknown ?_
      intro k hk htouch
      have hsettled := hinv.settled_of hk htouch hp
      simp only [Settled] at hsettled ⊢
      by_cases hcache : k ∈ s.cniCache.cache
      · refine .inr ⟨mem_keys.mpr hcache, hcache, ?_⟩
        simpa [hcache] using hsettled
      · -- A key that is not in the cache is deleted, when it is in the topic.
        left
        have hdesired : s.desired k = none := by
          simp [State.desired, lookup_eq_none.mpr hcache]
        have hcontent : s.content k = none ∨ k ∈ s.kafkaCache := by
          rw [← hknown k hk]
          by_cases hkafka : k ∈ s.kafkaCache
          · exact .inr hkafka
          · left
            simp [State.known, lookup_eq_none.mpr hkafka]
        show overlay s.content (diff.lookup k) k = s.desired k
        rw [hsettled, hdesired]
        by_cases hkafka : k ∈ s.kafkaCache
        · simp [hkafka, htodo, hcache, overlay]
        · simpa [hkafka, overlay] using hcontent
    · exact hinv
  | _ => exact hinv

/-- A key that is produced is in line, now or after the difference. -/
theorem inv_collect (key : String) : Inv mid (collect s key) := by
  unfold collect
  cases hp : s.phase with
  | collecting diff =>
    have hready := hinv.received (by simp [hp])
    have hknown : ∀ k ≠ markerName, s.known k = s.content k := hinv.reading_of hp
    cases hv : s.cniCache.cache.lookup key with
    | none => exact hinv
    | some v =>
      refine hinv.progress hready rfl rfl rfl (pending_frame (by rw [hp]; rfl) rfl rfl) hknown ?_
      intro k hk htouch
      have hsettled : overlay s.content (diff.lookup k) k = s.desired k ∨
          (k ∈ s.cniCache.mustVisit ∧ k ∈ s.cniCache.cache ∧ diff.lookup k = none) :=
        hinv.settled_of hk htouch hp
      by_cases hsame : k = key
      · subst hsame
        have hdesired : s.desired k = some v.toEPMsg := by simp [State.desired, hv]
        left
        show overlay s.content (lookup k
          (if s.kafkaCache.lookup k = some v then diff else diff.insert k (some v.toEPMsg))) k = s.desired k
        split
        · rename_i hequal
          refine hsettled.elim id ?_
          rintro ⟨-, -, hnone⟩
          have hcontent : s.content k = s.desired k := by
            rw [← hknown k hk, hdesired, State.known, hequal]
            rfl
          simpa [overlay, hnone] using hcontent
        · rw [lookup_insert, hdesired]
          rfl
      · have hdiff : lookup k (if s.kafkaCache.lookup key = some v then diff
            else diff.insert key (some v.toEPMsg)) = diff.lookup k := by
          split
          · rfl
          · exact lookup_insert_of_ne _ hsame
        simp only [Settled, hdiff]
        exact hsettled.imp_right fun h => ⟨Finset.mem_erase.mpr ⟨hsame, h.1⟩, h.2⟩
  | _ => exact hinv

theorem inv_endCollect : Inv mid (endCollect s) := by
  unfold endCollect
  cases hp : s.phase with
  | collecting diff =>
    have hready := hinv.received (by simp [hp])
    dsimp only
    split
    · rename_i hvisited
      refine hinv.progress hready rfl rfl rfl (pending_frame (by rw [hp]; rfl) rfl rfl) trivial ?_
      intro k hk htouch
      have hsettled : overlay s.content (diff.lookup k) k = s.desired k ∨
          (k ∈ s.cniCache.mustVisit ∧ k ∈ s.cniCache.cache ∧ diff.lookup k = none) :=
        hinv.settled_of hk htouch hp
      refine hsettled.resolve_right ?_
      rw [hvisited]
      exact fun h => Finset.notMem_empty k h.1
    · exact hinv
  | _ => exact hinv

theorem inv_apply (key : String) : Inv mid (apply s key) := by
  unfold apply
  cases hp : s.phase with
  | applying diff =>
    have hready := hinv.received (by simp [hp])
    dsimp only
    cases hval : diff.lookup key with
    | none => exact hinv
    | some val =>
      refine hinv.progress hready rfl rfl rfl (pending_frame (by rw [hp]; rfl) rfl rfl) trivial ?_
      intro k hk htouch
      have hsettled : overlay s.content (diff.lookup k) k = s.desired k := hinv.settled_of hk htouch hp
      show overlay (assign s.content key val) ((diff.erase key).lookup k) k = s.desired k
      rw [← hsettled]
      by_cases hsame : k = key
      · subst hsame
        simp [overlay, hval]
      · rw [lookup_erase_ne hsame, overlay, assign_other _ _ hsame, overlay]
  | _ => exact hinv

theorem inv_endApply : Inv mid (endApply s) := by
  unfold endApply
  cases hp : s.phase with
  | applying diff =>
    have hready := hinv.received (by simp [hp])
    dsimp only
    split
    · rename_i hempty
      refine hinv.progress hready rfl rfl rfl (pending_frame (by rw [hp]; rfl) rfl rfl) trivial ?_
      intro k hk htouch
      have hsettled : overlay s.content (diff.lookup k) k = s.desired k := hinv.settled_of hk htouch hp
      have hnone : diff.lookup k = none := by
        rw [lookup_eq_none, ← mem_keys, hempty]
        exact Finset.notMem_empty k
      rw [hnone] at hsettled
      exact hsettled
    · exact hinv
  | _ => exact hinv

theorem inv_receive : Inv mid (receive s) := by
  unfold receive
  split
  · rename_i m inbox hp hinbox
    have hready := hinv.received (by simp [hp])
    have hpending : State.pending { s with phase := .forwarding m, inbox := inbox } = s.pending := by
      simp [State.pending, hp, hinbox, Phase.taken]
    exact hinv.progress hready rfl rfl rfl hpending trivial fun k hk htouch => hinv.settled_of hk htouch hp
  · exact hinv

omit hinv

end Run

theorem inv_start (a b : Nat) (topic : Topic) : Inv (newMarkerID a b) (start a b topic) where
  marker := rfl
  unready _ := ⟨rfl, rfl⟩
  reading := rfl
  changed k h := absurd h (not_touches_nil k)
  settled _ _ _ := trivial

/-- The events of a caller that adds the marker and endpoints with an address. -/
def Addressed (mid : String) : Event → Prop
  | .addEP ep => ep.containerID = mid ∨ ep.ipAddr ≠ ""
  | _ => True

instance (mid : String) (e : Event) : Decidable (Addressed mid e) := by
  cases e <;> unfold Addressed <;> infer_instance

theorem inv_step (cloudInfo : CloudInfo) {mid : String} {s : State} (hinv : Inv mid s) (e : Event)
    (hok : Addressed mid e) : Inv mid (step cloudInfo s e) := by
  cases e with
  | updateEpgDN name dn =>
    exact ⟨hinv.marker, hinv.unready, hinv.reading.frame rfl rfl rfl, hinv.changed,
      fun k hk htouch => (hinv.settled k hk htouch).frame rfl rfl rfl rfl id⟩
  | addEP ep => exact inv_call hinv fun hid _ => hok.resolve_left (hinv.marker ▸ hid)
  | deleteEP ep => exact inv_call hinv fun _ hdel => absurd hdel Bool.noConfusion
  | put => exact inv_put hinv
  | ready => exact inv_ready hinv
  | attempt outcome => exact inv_sendOneMsg hinv outcome
  | consume => exact inv_consume hinv
  | compare key => exact inv_compare hinv key
  | endCompare => exact inv_endCompare hinv
  | collect key => exact inv_collect hinv key
  | endCollect => exact inv_endCollect hinv
  | apply key => exact inv_apply hinv key
  | endApply => exact inv_endApply hinv
  | receive => exact inv_receive hinv

/-- Once the difference has been applied and nothing is left to be sent, the last value of each
key in the topic is the one in the cache. -/
theorem topic_converges (cloudInfo : CloudInfo) (a b : Nat) (topic : Topic) (events : List Event)
    (hevents : ∀ e ∈ events, Addressed (newMarkerID a b) e)
    (hphase : (run (step cloudInfo) (start a b topic) events).phase = .receiving)
    (hinbox : (run (step cloudInfo) (start a b topic) events).inbox = [])
    (hputting : (run (step cloudInfo) (start a b topic) events).putting = none) (k : String) (hk : k ≠ markerName) :
    (run (step cloudInfo) (start a b topic) events).content k =
      (run (step cloudInfo) (start a b topic) events).desired k := by
  have hinv : Inv (newMarkerID a b) (run (step cloudInfo) (start a b topic) events) := by
    refine @invariant_run _ _ (step cloudInfo) (fun _ e => Addressed (newMarkerID a b) e)
      (Inv (newMarkerID a b)) ?_ _ events (inv_start a b topic) (along_of_forall _ _ hevents)
    exact fun s e hinv hok => inv_step cloudInfo hinv e hok
  refine hinv.settled_of hk ?_ hphase
  simp [State.pending, hphase, hinbox, hputting, Phase.taken]

def webPod : PodIFStatus := ⟨"default", "web", "c1", "front", "10.0.0.5", "eth0"⟩

def dbPod : PodIFStatus := ⟨"default", "db", "c2", "back", "10.0.0.6", "eth0"⟩

/-- The topic has a pod that is gone. While the difference is computed, one pod is added and the
other deleted. -/
def syncRun : List Event :=
  [.addEP webPod, .addEP ⟨"", "", newMarkerID 7 9, "", "", ""⟩, .ready, .attempt (.failed true),
    .attempt .accepted, .consume, .consume, .consume, .addEP dbPod, .compare "default.old.eth0", .put,
    .endCompare, .collect "default.web.eth0", .deleteEP webPod, .collect "default.db.eth0", .put, .endCollect,
    .apply "default.old.eth0", .attempt .accepted, .apply "default.web.eth0", .attempt .accepted,
    .apply "default.db.eth0", .attempt .accepted, .endApply, .receive, .attempt .accepted, .receive,
    .attempt .accepted]

def syncTopic : Topic :=
  [("default.old.eth0", some ⟨"default.old.eth0", "10.0.0.4", "", "c0", "", "", "", ""⟩)]

def syncCloud : CloudInfo := ⟨"subnet-1", "acct-[shop]/vrf-1", "k8s"⟩

theorem topic_converges_sync : (run (step syncCloud) (start 7 9 syncTopic) syncRun).content "default.db.eth0" =
      (run (step syncCloud) (start 7 9 syncTopic) syncRun).desired "default.db.eth0" :=
  topic_converges syncCloud 7 9 syncTopic syncRun (by decide +kernel) (by with_unfolding_all rfl)
    (by decide +kernel) (by decide +kernel) "default.db.eth0" (by decide)

/-- From the moment the difference has been applied, what the topic has with the changes still to be
sent is what the cache has, at every key but the marker. -/
theorem topic_owes (cloudInfo : CloudInfo) (a b : Nat) (topic : Topic) (events : List Event)
    (hevents : ∀ e ∈ events, Addressed (newMarkerID a b) e) :
    let s := run (step cloudInfo) (start a b topic) events
    (s.phase = .receiving ∨ ∃ m, s.phase = .forwarding m) →
      ∀ k, k ≠ markerName → replay s.content s.pending k = s.desired k := by
  intro s hphase k hk
  have hinv : Inv (newMarkerID a b) s := @invariant_run _ _ (step cloudInfo) (fun _ e => Addressed (newMarkerID a b) e)
    (Inv (newMarkerID a b)) (fun s e h hok => inv_step cloudInfo h e hok) _ events (inv_start a b topic)
    (along_of_forall _ _ hevents)
  by_cases htouch : Touches s.pending k
  · exact hinv.changed k htouch s.content
  · rw [replay_of_not_touches htouch]
    have hsettled := hinv.settled k hk htouch
    obtain hp | ⟨m, hp⟩ := hphase <;> simpa only [Settled, hp] using hsettled

/-- Two changes are still to be sent. -/
theorem topic_owes_sync : let s := run (step syncCloud) (start 7 9 syncTopic) (syncRun.take 24)
    s.inbox.length = 2 ∧ replay s.content s.pending "default.web.eth0" = s.desired "default.web.eth0" :=
  ⟨by decide +kernel, topic_owes syncCloud 7 9 syncTopic (syncRun.take 24) (by decide +kernel)
    (.inl (by with_unfolding_all rfl)) "default.web.eth0" (by decide)⟩

end AciContainers.Kafka
