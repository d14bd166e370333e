import AciContainers.Maps
import AciContainers.Runs

/-!
# Packet events

`pkg/hostagent/event_poster.go`. A dropped packet becomes an event of a pod, and the next ones of
its flow are suppressed for a while. The time of the post is kept under the two addresses one
behind the other, a text that two flows can share. Times are in nanoseconds, and a missing
entry is the zero time.
-/
namespace AciContainers.PacketEvents

open Maps Runs List

/-- An event with the time that its time stamp is parsed as. -/
structure PacketEvent where
  timeStamp : Option Int
  sourceIP : String
  destinationIP : String

structure Config where
  dropLogExpiryTime : Nat
  dropLogRepeatIntervalTime : Nat

def minutes (n : Nat) : Int := n * 60000000000

/-- A call, with the running pods off the host network that addresses lead to, and those that
`submitEvent` can refer to. -/
structure Call where
  event : PacketEvent
  currTime : Int
  pods : Map String String
  submits : String → Bool

def PacketEvent.key (e : PacketEvent) : String := e.sourceIP ++ e.destinationIP

/-- The second check of `shouldIgnore`. -/
def suppressed (cfg : Config) (submitTimes : Map String Int) (e : PacketEvent) : Bool :=
  (e.timeStamp.bind fun logTime => (submitTimes e.key).map fun lastPosted =>
    decide (logTime - lastPosted ≤ minutes cfg.dropLogRepeatIntervalTime)).getD false

def shouldIgnore (cfg : Config) (submitTimes : Map String Int) (e : PacketEvent) (currTime : Int) : Bool :=
  match e.timeStamp with
  | none => true
  | some logTime =>
    decide (minutes cfg.dropLogExpiryTime < currTime - logTime) || suppressed cfg submitTimes e

/-- The source pod gets the event before the destination pod. -/
def posts (cfg : Config) (submitTimes : Map String Int) (c : Call) : Bool :=
  if c.event.sourceIP = "" ∨ c.event.destinationIP = "" then false
  else if shouldIgnore cfg submitTimes c.event c.currTime then false
  else ((c.pods c.event.sourceIP).or (c.pods c.event.destinationIP)).any c.submits

def processPacketEvent (cfg : Config) (submitTimes : Map String Int) (c : Call) : Map String Int :=
  if posts cfg submitTimes c then submitTimes.put c.event.key c.currTime else submitTimes

/-- The call posted its event, in its place of the run. -/
def Posted (cfg : Config) (calls : List Call) (c : Call) : Prop :=
  ∃ before after, calls = before ++ c :: after ∧
    posts cfg (run (processPacketEvent cfg) Map.empty before) c

/-- Every time that is kept is the time of a post. -/
theorem posted_of_submitTime (cfg : Config) (calls : List Call) {key : String} {t : Int}
    (h : run (processPacketEvent cfg) Map.empty calls key = some t) :
    ∃ c, Posted cfg calls c ∧ c.event.key = key ∧ c.currTime = t := by
  induction calls using reverseRecOn with
  | nil => simp at h
  | append_singleton calls last ih =>
    have hold : run (processPacketEvent cfg) Map.empty calls key = some t →
        ∃ c, Posted cfg (calls ++ [last]) c ∧ c.event.key = key ∧ c.currTime = t := fun hrun => by
      obtain ⟨c, ⟨before, after, rfl, hposts⟩, hc⟩ := ih hrun
      exact ⟨c, ⟨before, after ++ [last], by simp, hposts⟩, hc⟩
    rw [run_append, run_cons, run_nil, processPacketEvent] at h
    split at h
    · next hposts =>
      by_cases hkey : key = last.event.key
      · subst hkey
        rw [put_same] at h
        exact ⟨last, ⟨calls, [], rfl, hposts⟩, rfl, Option.some.inj h⟩
      · exact hold (by rwa [put_other _ _ hkey] at h)
    · exact hold h

/-- Where no post of another flow has the text of the event, a post of its own flow suppresses it. -/
theorem suppressed_by_flow (cfg : Config) (calls : List Call) (e : PacketEvent)
    (hsup : suppressed cfg (run (processPacketEvent cfg) Map.empty calls) e)
    (hflows : ∀ c, Posted cfg calls c → c.event.key = e.key → c.event.sourceIP = e.sourceIP) :
    ∃ c logTime, Posted cfg calls c ∧ c.event.sourceIP = e.sourceIP ∧
      c.event.destinationIP = e.destinationIP ∧ e.timeStamp = some logTime ∧
      logTime - c.currTime ≤ minutes cfg.dropLogRepeatIntervalTime := by
  cases htime : e.timeStamp with
  | none => simp [suppressed, htime] at hsup
  | some logTime =>
    cases hlast : run (processPacketEvent cfg) Map.empty calls e.key with
    | none => simp [suppressed, htime, hlast] at hsup
    | some t =>
      obtain ⟨c, hc, hkey, rfl⟩ := posted_of_submitTime cfg calls hlast
      have hsource := hflows c hc hkey
      rw [PacketEvent.key, PacketEvent.key, hsource] at hkey
      refine ⟨c, logTime, hc, hsource, String.append_right_inj _ |>.mp hkey, rfl, ?_⟩
      simpa [suppressed, htime, hlast] using hsup

def first : Call :=
  ⟨⟨some 60, "1.1.1.1", "11.1.1.1"⟩, 60, fun _ => some "ns/pod", fun _ => true⟩

/-- A packet of another flow. -/
def second : Call := { first with event := ⟨some 60, "2.2.2.2", "11.1.1.1"⟩ }

theorem suppressed_by_flow_first : ∃ c logTime, Posted ⟨10, 2⟩ [first, second] c ∧
    c.event.sourceIP = "1.1.1.1" ∧ c.event.destinationIP = "11.1.1.1" ∧ some 80 = some logTime ∧
    logTime - c.currTime ≤ minutes 2 := by
  refine suppressed_by_flow ⟨10, 2⟩ [first, second] ⟨some 80, "1.1.1.1", "11.1.1.1"⟩ (by decide) ?_
  rintro c ⟨before, after, heq, -⟩
  have hmem : c ∈ [first, second] := by simp [heq]
  have hall : ∀ c ∈ [first, second], c.event.key = "1.1.1.1" ++ "11.1.1.1" → c.event.sourceIP = "1.1.1.1" := by decide
  exact hall c hmem

/-- The addresses of another flow give the same text. -/
theorem suppressed_by_other : Posted ⟨10, 2⟩ [first] first ∧
    suppressed ⟨10, 2⟩ (run (processPacketEvent ⟨10, 2⟩) Map.empty [first]) ⟨some 60, "1.1.1.11", "1.1.1.1"⟩ :=
  ⟨⟨[], [], rfl, by decide⟩, by decide⟩

/-- The calls that post, from the given times on. -/
def postedCalls (cfg : Config) : Map String Int → List Call → List Call
  | _, [] => []
  | submitTimes, c :: calls =>
    (if posts cfg submitTimes c then [c] else []) ++ postedCalls cfg (processPacketEvent cfg submitTimes c) calls

/-- The packet was dropped after the interval from time `t`, and not too long ago. -/
def Due (cfg : Config) (t : Int) (c : Call) : Prop :=
  ∃ logTime ∈ c.event.timeStamp, minutes cfg.dropLogRepeatIntervalTime < logTime - t ∧
    c.currTime - logTime ≤ minutes cfg.dropLogExpiryTime

theorem due_of_posts {cfg : Config} {submitTimes : Map String Int} {c : Call} {t : Int}
    (h : posts cfg submitTimes c) (ht : submitTimes c.event.key = some t) : Due cfg t c := by
  cases htime : c.event.timeStamp with
  | none => simp [posts, shouldIgnore, htime] at h
  | some logTime =>
    simp [posts, shouldIgnore, suppressed, htime, ht] at h
    exact ⟨logTime, htime, by omega, by omega⟩

theorem posts_of_mem {cfg : Config} {submitTimes : Map String Int} {calls : List Call} {c : Call}
    (h : c ∈ postedCalls cfg submitTimes calls) : ∃ submitTimes, posts cfg submitTimes c := by
  induction calls generalizing submitTimes with
  | nil => simp [postedCalls] at h
  | cons d calls ih =>
    rcases mem_append.mp h with h | h
    · split at h
      · next hposts => exact ⟨submitTimes, mem_singleton.mp h ▸ hposts⟩
      · exact absurd h not_mem_nil
    · exact ih h

theorem isChain_postedCalls (cfg : Config) (submitTimes : Map String Int) (calls : List Call) (key : String) :
    ((postedCalls cfg submitTimes calls).filter fun c => c.event.key = key).IsChain fun c => Due cfg c.currTime := by
  -- The first post that is left is due after the time that is kept.
  suffices h : ∀ l, l = (postedCalls cfg submitTimes calls).filter (fun c => c.event.key = key) →
      (l.IsChain fun c => Due cfg c.currTime) ∧ ∀ c ∈ l.head?, ∀ t ∈ submitTimes key, Due cfg t c from (h _ rfl).1
  induction calls generalizing submitTimes with
  | nil => simp [postedCalls]
  | cons c calls ih =>
    obtain ⟨hchain, hhead⟩ := ih (processPacketEvent cfg submitTimes c) _ rfl
    rintro l rfl
    rw [postedCalls, filter_append]
    by_cases hposts : posts cfg submitTimes c
    · rw [processPacketEvent, if_pos hposts] at hchain hhead ⊢
      by_cases hkey : c.event.key = key
      · subst hkey
        simp only [hposts, if_true, decide_true, filter_cons_of_pos, filter_nil, singleton_append, isChain_cons]
        refine ⟨⟨fun d hd => hhead d hd _ (put_same ..), hchain⟩, ?_⟩
        rintro d hd t ht
        cases hd
        exact due_of_posts hposts ht
      · rw [put_other _ _ (Ne.symm hkey)] at hhead
        simp only [hposts, hkey, if_true, decide_false, Bool.false_eq_true, not_false_eq_true, filter_cons_of_neg,
          filter_nil, nil_append]
        exact ⟨hchain, hhead⟩
    · rw [processPacketEvent, if_neg hposts] at hchain hhead ⊢
      simp only [hposts, Bool.false_eq_true, if_false, filter_nil, nil_append]
      exact ⟨hchain, hhead⟩

/-- Of the posts under one text, each is of a packet that was dropped after the interval from the
post before it; and every post is of a packet dropped not too long ago. -/
theorem posts_spaced (cfg : Config) (submitTimes : Map String Int) (calls : List Call) (key : String) :
    (((postedCalls cfg submitTimes calls).filter fun c => c.event.key = key).IsChain fun c => Due cfg c.currTime) ∧
      ∀ c ∈ postedCalls cfg submitTimes calls,
        ∃ logTime ∈ c.event.timeStamp, c.currTime - logTime ≤ minutes cfg.dropLogExpiryTime := by
  refine ⟨isChain_postedCalls cfg submitTimes calls key, fun c hc => ?_⟩
  obtain ⟨submitTimes', h⟩ := posts_of_mem hc
  cases htime : c.event.timeStamp with
  | none => simp [posts, shouldIgnore, htime] at h
  | some logTime =>
    simp [posts, shouldIgnore, htime] at h
    exact ⟨logTime, rfl, by omega⟩

end AciContainers.PacketEvents
