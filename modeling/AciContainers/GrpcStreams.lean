import AciContainers.Runs

/-!
# Streams of the GBP server

`handleMsgs` of `pkg/gbpserver/server.go` and `ListObjects` of `pkg/gbpserver/grpc_server.go` as
processes that share `gMutex` and one bounded inbox a stream. `handleMsgs` calls the listeners
with the mutex held, and a listener waits while its inbox is full. A stream whose client is gone
stops reading its inbox and asks for the mutex. A move that is not enabled leaves the state as it
is, so a list of moves is a run under any schedule.
-/
namespace AciContainers.GrpcStreams

open Runs List

def inboxSize : Nat := 256

/-- What the cases of `handleMsgs` do with the database, and what listeners make of it. -/
structure Server (Db Msg Op : Type) where
  /-- Before listeners are called: objects are added. -/
  update : Msg → Db → Db
  /-- A bad message, or one that fails, goes back to the loop at once. -/
  calls : Msg → Db → Bool
  /-- `updateFn` of a stream from this peer; `none` is nothing to send. -/
  objects : Msg → Db → String → Option Op
  /-- After listeners were called: objects are deleted. -/
  finish : Msg → Db → Db

inductive Owner (ι : Type) where
  | handler
  | stream (i : ι)
  /-- One of the HTTP handlers. -/
  | other
  deriving DecidableEq

/-- Where `ListObjects` is. -/
inductive Phase where
  | idle
  /-- At the first `gMutex.Lock`. -/
  | connecting
  | registering
  /-- In `ss.Send`. -/
  | sending
  /-- At the select. -/
  | selecting
  /-- At the `gMutex.Lock` of the case for a client that is gone. -/
  | closing
  | removing
  | exited
  deriving DecidableEq

structure Stream (Op : Type) where
  phase : Phase
  addr : String
  inbox : List Op
  /-- The context of the stream is done. -/
  done : Bool
  deriving DecidableEq

def Stream.new (Op : Type) : Stream Op := ⟨.idle, "", [], false⟩

def Stream.Room {Op : Type} (t : Stream Op) : Prop := t.inbox.length < inboxSize

instance {Op : Type} (t : Stream Op) : Decidable t.Room := inferInstanceAs (Decidable (_ < _))

/-- Where `handleMsgs` is. The listeners in `rest` were not called yet. -/
inductive Handler (ι Msg Op : Type) where
  | starting
  | receiving
  | locking (m : Msg)
  | calling (m : Msg) (rest : List ι)
  /-- In a listener, at the send to the inbox of stream `i`. -/
  | putting (m : Msg) (i : ι) (op : Op) (rest : List ι)
  | exited

structure State (ι Db Msg Op : Type) where
  gMutex : Option (Owner ι)
  handler : Handler ι Msg Op
  listeners : List (String × ι)
  streams : ι → Stream Op
  db : Db

variable {ι Db Msg Op : Type} [DecidableEq ι]

def State.set (s : State ι Db Msg Op) (i : ι) (t : Stream Op) : State ι Db Msg Op :=
  { s with streams := Function.update s.streams i t }

def registerCallBack (listeners : List (String × ι)) (id : String) (i : ι) : List (String × ι) :=
  (id, i) :: listeners.filter fun p => p.1 ≠ id

def removeCallBack (listeners : List (String × ι)) (id : String) : List (String × ι) :=
  listeners.filter fun p => p.1 ≠ id

inductive Event (ι Db Msg Op : Type) where
  -- `handleMsgs`
  | start
  | receive (m : Msg)
  | closed
  | lock
  | call (i : ι)
  | put
  | unlock
  -- `ListObjects`
  | connect (i : ι) (peer : Option String)
  | register (i : ι)
  | registered (i : ι)
  | sent (i : ι)
  | pick (i : ι)
  | leave (i : ι)
  | remove (i : ι)
  | removed (i : ι)
  -- the client
  | disconnect (i : ι)
  -- other holders of the mutex
  | otherLock
  | otherUpdate (f : Db → Db)
  | otherPut (i : ι) (op : Op)
  | otherUnlock

/-- A move of `handleMsgs`. -/
def handlerStep (srv : Server Db Msg Op) (s : State ι Db Msg Op) : Event ι Db Msg Op → State ι Db Msg Op
  | .start =>
    match s.handler, s.gMutex with
    | .starting, none => { s with handler := .receiving }
    | _, _ => s
  | .receive m =>
    match s.handler with
    | .receiving => { s with handler := .locking m }
    | _ => s
  | .closed =>
    match s.handler with
    | .receiving => { s with handler := .exited }
    | _ => s
  | .lock =>
    match s.handler, s.gMutex with
    | .locking m, none =>
      let db := srv.update m s.db
      { s with
        gMutex := some .handler
        db := db
        handler := .calling m (if srv.calls m db then s.listeners.map Prod.snd else []) }
    | _, _ => s
  | .call i =>
    match s.handler with
    | .calling m rest =>
      if i ∈ rest then
        match srv.objects m s.db (s.streams i).addr with
        | none => { s with handler := .calling m (rest.erase i) }
        | some op => { s with handler := .putting m i op (rest.erase i) }
      else s
    | _ => s
  | .put =>
    match s.handler with
    | .putting m i op rest =>
      if (s.streams i).Room then
        { s.set i { s.streams i with inbox := (s.streams i).inbox ++ [op] } with
          handler := .calling m rest }
      else s
    | _ => s
  | .unlock =>
    match s.handler with
    | .calling m [] =>
      { s with
        gMutex := none
        handler := .receiving
        db := if srv.calls m s.db then srv.finish m s.db else s.db }
    | _ => s
  | _ => s

/-- A move of stream `i`, of its client, or of another holder of the mutex. -/
def streamStep (s : State ι Db Msg Op) : Event ι Db Msg Op → State ι Db Msg Op
  | .connect i peer =>
    match (s.streams i).phase, peer with
    | .idle, some addr => s.set i { s.streams i with phase := .connecting, addr := addr }
    | .idle, none => s.set i { s.streams i with phase := .exited }
    | _, _ => s
  | .register i =>
    match (s.streams i).phase, s.gMutex with
    | .connecting, none =>
      { s.set i { s.streams i with phase := .registering } with gMutex := some (.stream i) }
    | _, _ => s
  | .registered i =>
    match (s.streams i).phase with
    | .registering =>
      { s.set i { s.streams i with phase := .sending } with
        gMutex := none
        listeners := registerCallBack s.listeners (s.streams i).addr i }
    | _ => s
  | .sent i =>
    match (s.streams i).phase with
    | .sending => s.set i { s.streams i with phase := .selecting }
    | _ => s
  | .pick i =>
    match (s.streams i).phase, (s.streams i).inbox with
    | .selecting, _ :: rest => s.set i { s.streams i with phase := .sending, inbox := rest }
    | _, _ => s
  | .leave i =>
    match (s.streams i).phase, (s.streams i).done with
    | .selecting, true => s.set i { s.streams i with phase := .closing }
    | _, _ => s
  | .remove i =>
    match (s.streams i).phase, s.gMutex with
    | .closing, none =>
      { s.set i { s.streams i with phase := .removing } with gMutex := some (.stream i) }
    | _, _ => s
  | .removed i =>
    match (s.streams i).phase with
    | .removing =>
      { s.set i { s.streams i with phase := .exited } with
        gMutex := none
        listeners := removeCallBack s.listeners (s.streams i).addr }
    | _ => s
  | .disconnect i => s.set i { s.streams i with done := true }
  | .otherLock =>
    match s.gMutex with
    | none => { s with gMutex := some .other }
    | _ => s
  | .otherUpdate f =>
    match s.gMutex with
    | some .other => { s with db := f s.db }
    | _ => s
  | .otherPut i op =>
    match s.gMutex with
    | some .other =>
      if (s.streams i).Room then
        s.set i { s.streams i with inbox := (s.streams i).inbox ++ [op] }
      else s
    | _ => s
  | .otherUnlock =>
    match s.gMutex with
    | some .other => { s with gMutex := none }
    | _ => s
  | _ => s

def step (srv : Server Db Msg Op) (s : State ι Db Msg Op) (e : Event ι Db Msg Op) : State ι Db Msg Op :=
  match e with
  | .start | .receive _ | .closed | .lock | .call _ | .put | .unlock => handlerStep srv s e
  | _ => streamStep s e

def start (db : Db) : State ι Db Msg Op := ⟨none, .starting, [], fun _ => Stream.new Op, db⟩

/-- `handleMsgs` holds the mutex and waits for room in an inbox whose stream waits for the mutex. -/
def Deadlocked (i : ι) (s : State ι Db Msg Op) : Prop :=
  s.gMutex = some .handler ∧ (∃ m op rest, s.handler = .putting m i op rest) ∧
    ¬ (s.streams i).Room ∧ (s.streams i).phase = .closing

/-- The streams that `handleMsgs` still sends to. -/
def Handler.pending : Handler ι Msg Op → List ι
  | .calling _ rest => rest
  | .putting _ i _ rest => i :: rest
  | _ => []

def Handler.holds : Handler ι Msg Op → Prop
  | .calling _ _ | .putting _ _ _ _ => True
  | _ => False

/-- The phases in which a stream has the mutex. -/
def Phase.locked : Phase → Bool
  | .registering | .removing => true
  | _ => false

/-- The phases before the listener of a stream is registered. -/
def Phase.unlisted : Phase → Bool
  | .idle | .connecting | .registering => true
  | _ => false

structure Inv (s : State ι Db Msg Op) : Prop where
  held : s.handler.holds → s.gMutex = some .handler
  owned : ∀ i, (s.streams i).phase.locked = true → s.gMutex = some (.stream i)
  listed : (s.listeners.map Prod.snd).Nodup
  later : ∀ p ∈ s.listeners, (s.streams p.2).phase.unlisted = false
  once : s.handler.pending.Nodup

/-- A stream that `handleMsgs` still sends to reads its inbox, or has room in it. -/
def Roomy (s : State ι Db Msg Op) : Prop :=
  ∀ i ∈ s.handler.pending, (s.streams i).phase = .closing → (s.streams i).Room

/-- Streams that wait for the mutex have room when `handleMsgs` takes it, and a stream that
`handleMsgs` still sends to has room when it stops reading. -/
def LeavesRoom (s : State ι Db Msg Op) : Event ι Db Msg Op → Prop
  | .lock => ∀ p ∈ s.listeners, (s.streams p.2).phase = .closing → (s.streams p.2).Room
  | .leave i => i ∈ s.handler.pending → (s.streams i).Room
  | _ => True

instance (s : State ι Db Msg Op) (e : Event ι Db Msg Op) : Decidable (LeavesRoom s e) :=
  match e with
  | .lock => inferInstanceAs (Decidable (∀ p ∈ s.listeners, _ → _))
  | .leave i => inferInstanceAs (Decidable (i ∈ s.handler.pending → _))
  | .start | .receive _ | .closed | .call _ | .put | .unlock | .connect _ _ | .register _
  | .registered _ | .sent _ | .pick _ | .remove _ | .removed _ | .disconnect _ | .otherLock
  | .otherUpdate _ | .otherPut _ _ | .otherUnlock => .isTrue trivial

variable {s : State ι Db Msg Op}

@[simp] theorem set_self (s : State ι Db Msg Op) (i : ι) (t : Stream Op) : (s.set i t).streams i = t := by
  simp [State.set]

variable {i : ι}

theorem set_other (s : State ι Db Msg Op) {j : ι} (t : Stream Op) (h : j ≠ i) :
    (s.set i t).streams j = s.streams j := by
  simp [State.set, h]

variable {t : Stream Op}

/-- A stream moves; nothing else changes. -/
theorem Inv.set (h : Inv s) (hlocked : t.phase.locked → s.gMutex = some (.stream i))
    (hlisted : (s.streams i).phase.unlisted = false → t.phase.unlisted = false) : Inv (s.set i t) := by
  refine ⟨h.held, fun j hj => ?_, h.listed, fun p hp => ?_, h.once⟩
  · by_cases hji : j = i
    · rw [hji, set_self] at hj
      exact hji ▸ hlocked hj
    · rw [set_other s t hji] at hj
      exact h.owned j hj
  · by_cases hpi : p.2 = i
    · rw [hpi, set_self]
      exact hlisted (hpi ▸ h.later p hp)
    · rw [set_other s t hpi]
      exact h.later p hp

omit [DecidableEq ι] in
/-- A process takes the free mutex. -/
theorem Inv.acquire (h : Inv s) (hfree : s.gMutex = none) (o : Owner ι) : Inv { s with gMutex := some o } := by
  refine ⟨fun hh => ?_, fun j hj => ?_, h.listed, h.later, h.once⟩
  · exact absurd ((h.held hh).symm.trans hfree) (by simp)
  · exact absurd ((h.owned j hj).symm.trans hfree) (by simp)

omit [DecidableEq ι] in
theorem inv_start (db : Db) : Inv (start db : State ι Db Msg Op) := by
  refine ⟨fun h => h.elim, fun i h => ?_, nodup_nil, fun p hp => ?_, nodup_nil⟩
  · simp [start, Stream.new, Phase.locked] at h
  · simp [start] at hp

variable (srv : Server Db Msg Op)

section

variable (h : Inv s)
include h

theorem inv_handlerStep (e : Event ι Db Msg Op) : Inv (handlerStep srv s e) := by
  unfold handlerStep
  split
  · split
    · exact ⟨fun hh => hh.elim, h.owned, h.listed, h.later, nodup_nil⟩
    · exact h
  · split
    · exact ⟨fun hh => hh.elim, h.owned, h.listed, h.later, nodup_nil⟩
    · exact h
  · split
    · exact ⟨fun hh => hh.elim, h.owned, h.listed, h.later, nodup_nil⟩
    · exact h
  · split
    · rename_i hfree
      refine ⟨fun _ => rfl, (h.acquire hfree .handler).owned, h.listed, h.later, ?_⟩
      dsimp only [Handler.pending]
      split
      · exact h.listed
      · exact nodup_nil
    · exact h
  · split
    · rename_i m rest hs
      have hrest : rest.Nodup := by simpa [hs, Handler.pending] using h.once
      have hheld : s.gMutex = some .handler := h.held (by simp [hs, Handler.holds])
      split
      · split
        · exact ⟨fun _ => hheld, h.owned, h.listed, h.later, hrest.erase _⟩
        · exact ⟨fun _ => hheld, h.owned, h.listed, h.later,
            nodup_cons.mpr ⟨hrest.not_mem_erase, hrest.erase _⟩⟩
      · exact h
    · exact h
  · split
    · rename_i m i op rest hs
      have hrest : (i :: rest).Nodup := by simpa [hs, Handler.pending] using h.once
      have hheld : s.gMutex = some .handler := h.held (by simp [hs, Handler.holds])
      split
      · have hset : Inv (s.set i { s.streams i with inbox := (s.streams i).inbox ++ [op] }) :=
          h.set (h.owned i) id
        exact ⟨fun _ => hheld, hset.owned, hset.listed, hset.later, hrest.of_cons⟩
      · exact h
    · exact h
  · split
    · rename_i m hs
      have hheld : s.gMutex = some .handler := h.held (by simp [hs, Handler.holds])
      refine ⟨fun hh => hh.elim, fun j hj => ?_, h.listed, h.later, nodup_nil⟩
      exact absurd ((h.owned j hj).symm.trans hheld) (by simp)
    · exact h
  · exact h

/-- A stream gives the mutex back. -/
theorem Inv.release (hi : (s.streams i).phase.locked) (ht : t.phase.locked = false)
    {listeners : List (String × ι)} (hlisted : (listeners.map Prod.snd).Nodup)
    (hlater : ∀ p ∈ listeners, ((s.set i t).streams p.2).phase.unlisted = false) : Inv { s.set i t with
      gMutex := none
      listeners := listeners } := by
  have howner : s.gMutex = some (.stream i) := h.owned i hi
  refine ⟨fun hh => ?_, fun j hj => ?_, hlisted, hlater, h.once⟩
  · exact absurd ((h.held hh).symm.trans howner) (by simp)
  · by_cases hji : j = i
    · subst hji
      simp [State.set, ht] at hj
    · have hj' : (s.streams j).phase.locked := by
        simpa [State.set, hji] using hj
      have hsame := (h.owned j hj').symm.trans howner
      simp [hji] at hsame

theorem inv_registered (hi : (s.streams i).phase = .registering) :
    Inv { s.set i { s.streams i with phase := .sending } with
      gMutex := none
      listeners := registerCallBack s.listeners (s.streams i).addr i } := by
  have hnew : ∀ p ∈ s.listeners, p.2 ≠ i := by
    rintro p hp rfl
    have hlater := h.later p hp
    simp [hi, Phase.unlisted] at hlater
  refine h.release (by simp [hi, Phase.locked]) rfl ?_ ?_
  · refine nodup_cons.mpr ⟨?_, h.listed.sublist (filter_sublist.map Prod.snd)⟩
    rw [mem_map]
    rintro ⟨p, hp, hpi⟩
    exact hnew p (mem_of_mem_filter hp) hpi
  · intro p hp
    rcases mem_cons.mp hp with rfl | hp
    · rw [set_self]
      rfl
    · have hp' := mem_of_mem_filter hp
      rw [set_other _ _ (hnew p hp')]
      exact h.later p hp'

theorem inv_removed (hi : (s.streams i).phase = .removing) : Inv { s.set i { s.streams i with phase := .exited } with
      gMutex := none
      listeners := removeCallBack s.listeners (s.streams i).addr } := by
  have hlocked : (s.streams i).phase.locked := by simp [hi, Phase.locked]
  have hset : Inv (s.set i { s.streams i with phase := .exited }) :=
    h.set (fun _ => h.owned i hlocked) fun _ => rfl
  refine h.release hlocked rfl (h.listed.sublist (filter_sublist.map Prod.snd)) fun p hp => ?_
  exact hset.later p (mem_of_mem_filter hp)

theorem inv_streamStep (e : Event ι Db Msg Op) : Inv (streamStep s e) := by
  unfold streamStep
  split
  · split
    · rename_i hi
      refine h.set (fun ht => by simp [Phase.locked] at ht) fun hu => ?_
      simp [hi, Phase.unlisted] at hu
    · exact h.set (fun ht => by simp [Phase.locked] at ht) fun _ => rfl
    · exact h
  · split
    · rename_i hi hfree
      refine (h.acquire hfree _).set (fun _ => rfl) fun hu => ?_
      simp [hi, Phase.unlisted] at hu
    · exact h
  · split
    · rename_i hi
      exact inv_registered h hi
    · exact h
  · split
    · exact h.set (fun ht => by simp [Phase.locked] at ht) fun _ => rfl
    · exact h
  · split
    · exact h.set (fun ht => by simp [Phase.locked] at ht) fun _ => rfl
    · exact h
  · split
    · exact h.set (fun ht => by simp [Phase.locked] at ht) fun _ => rfl
    · exact h
  · split
    · rename_i hfree
      exact (h.acquire hfree _).set (fun _ => rfl) fun _ => rfl
    · exact h
  · split
    · rename_i hi
      exact inv_removed h hi
    · exact h
  · exact h.set (h.owned _) id
  · split
    · rename_i hfree
      exact h.acquire hfree .other
    · exact h
  · split
    · exact ⟨h.held, h.owned, h.listed, h.later, h.once⟩
    · exact h
  · split
    · split
      · exact h.set (h.owned _) id
      · exact h
    · exact h
  · split
    · rename_i howner
      refine ⟨fun hh => ?_, fun j hj => ?_, h.listed, h.later, h.once⟩
      · exact absurd ((h.held hh).symm.trans howner) (by simp)
      · exact absurd ((h.owned j hj).symm.trans howner) (by simp)
    · exact h
  · exact h

theorem inv_step (e : Event ι Db Msg Op) : Inv (step srv s e) := by
  unfold step
  split
  all_goals first | exact inv_handlerStep srv h _ | exact inv_streamStep h _

end

omit [DecidableEq ι] in
theorem holds_of_pending {hd : Handler ι Msg Op} (h : i ∈ hd.pending) : hd.holds := by
  cases hd with
  | calling m rest => trivial
  | putting m j op rest => trivial
  | _ => simp [Handler.pending] at h

/-- A stream moves, and perhaps the mutex or the listeners with it. -/
theorem Roomy.set {s' : State ι Db Msg Op} (h : Roomy s) (hhandler : s'.handler = s.handler)
    (hstreams : s'.streams = Function.update s.streams i t)
    (ht : i ∈ s.handler.pending → t.phase = .closing → t.Room) : Roomy s' := by
  intro j hj hphase
  rw [hhandler] at hj
  rw [hstreams] at hphase ⊢
  by_cases hji : j = i
  · subst hji
    rw [Function.update_self] at hphase ⊢
    exact ht hj hphase
  · rw [Function.update_of_ne hji] at hphase ⊢
    exact h j hj hphase

section

variable (hinv : Inv s) (h : Roomy s) (e : Event ι Db Msg Op) (hroom : LeavesRoom s e)
include hinv h hroom

theorem roomy_handlerStep : Roomy (handlerStep srv s e) := by
  unfold handlerStep
  split
  · split
    · exact fun j hj => absurd hj not_mem_nil
    · exact h
  · split
    · exact fun j hj => absurd hj not_mem_nil
    · exact h
  · split
    · exact fun j hj => absurd hj not_mem_nil
    · exact h
  · split
    · intro j hj
      dsimp only [Handler.pending] at hj
      split at hj
      · obtain ⟨p, hp, rfl⟩ := mem_map.mp hj
        exact hroom p hp
      · exact absurd hj not_mem_nil
    · exact h
  · split
    · rename_i i m rest hs
      have hrest : ∀ j ∈ rest, (s.streams j).phase = .closing → (s.streams j).Room := by
        simpa [Roomy, hs, Handler.pending] using h
      split
      · rename_i hi
        split
        · exact fun j hj => hrest j (mem_of_mem_erase hj)
        · intro j hj
          rcases mem_cons.mp hj with rfl | hj
          · exact hrest j hi
          · exact hrest j (mem_of_mem_erase hj)
      · exact h
    · exact h
  · split
    · rename_i m i op rest hs
      have honce : (i :: rest).Nodup := by simpa [hs, Handler.pending] using hinv.once
      split
      · -- The inbox that has grown is not written to again with this message.
        intro j hj
        have hji : j ≠ i := by
          rintro rfl
          exact (nodup_cons.mp honce).1 hj
        have hj' : j ∈ s.handler.pending := by
          rw [hs]
          exact mem_cons_of_mem i hj
        simpa [State.set, hji] using h j hj'
      · exact h
    · exact h
  · split
    · exact fun j hj => absurd hj not_mem_nil
    · exact h
  · exact h

theorem roomy_streamStep : Roomy (streamStep s e) := by
  unfold streamStep
  split
  · split
    · exact h.set rfl rfl nofun
    · exact h.set rfl rfl nofun
    · exact h
  · split
    · exact h.set rfl rfl nofun
    · exact h
  · split
    · exact h.set rfl rfl nofun
    · exact h
  · split
    · exact h.set rfl rfl nofun
    · exact h
  · split
    · exact h.set rfl rfl nofun
    · exact h
  · split
    · exact h.set rfl rfl fun hi _ => hroom hi
    · exact h
  · split
    · exact h.set rfl rfl nofun
    · exact h
  · split
    · exact h.set rfl rfl nofun
    · exact h
  · exact h.set rfl rfl fun hi hc => h _ hi hc
  · split
    · exact h
    · exact h
  · split
    · exact h
    · exact h
  · split
    · rename_i howner
      split
      · refine h.set rfl rfl fun hi _ => ?_
        exact absurd ((hinv.held (holds_of_pending hi)).symm.trans howner) (by simp)
      · exact h
    · exact h
  · split
    · exact h
    · exact h
  · exact h

theorem roomy_step : Roomy (step srv s e) := by
  unfold step
  split
  all_goals first | exact roomy_handlerStep srv hinv h _ hroom | exact roomy_streamStep hinv h _ hroom

end

omit [DecidableEq ι] in
theorem Roomy.not_deadlocked (h : Roomy s) (i : ι) : ¬ Deadlocked i s := by
  rintro ⟨-, ⟨m, op, rest, hs⟩, hfull, hclosing⟩
  refine hfull (h i ?_ hclosing)
  rw [hs]
  exact mem_cons_self

/-- No stream is deadlocked with `handleMsgs` in a run that leaves room for streams that close. -/
theorem streams_run (srv : Server Db Msg Op) (db : Db) (events : List (Event ι Db Msg Op))
    (hroom : Along (step srv) LeavesRoom (start db) events) (i : ι) :
    ¬ Deadlocked i (run (step srv) (start db) events) := by
  have h : Inv (run (step srv) (start db) events) ∧ Roomy (run (step srv) (start db) events) :=
    @invariant_run _ _ (step srv) LeavesRoom (fun s => Inv s ∧ Roomy s)
      (fun s e hs he => ⟨inv_step srv hs.1 e, roomy_step srv hs.1 hs.2 e he⟩) _ events
      ⟨inv_start db, fun j hj => absurd hj not_mem_nil⟩ hroom
  exact h.2.not_deadlocked i

theorem inv_run (srv : Server Db Msg Op) (db : Db) (events : List (Event ι Db Msg Op)) :
    Inv (run (step srv) (start db) events) :=
  @invariant_run _ _ (step srv) (fun _ _ => True) Inv (fun _ e h _ => inv_step srv h e) _ events (inv_start db)
    (along_of_forall _ _ fun _ _ => trivial)

/-- The listeners that are not called yet with the message. -/
def Handler.waiting : Handler ι Msg Op → List ι
  | .calling _ rest | .putting _ _ _ rest => rest
  | _ => []

omit [DecidableEq ι] in
theorem waiting_subset (hd : Handler ι Msg Op) : hd.waiting ⊆ hd.pending := by
  cases hd <;> simp [Handler.waiting, Handler.pending]

/-- Only the moves of a stream change its phase, and a registered one does not register again. -/
theorem unlisted_step (e : Event ι Db Msg Op) (h : (s.streams i).phase.unlisted = false) :
    ((step srv s e).streams i).phase.unlisted = false := by
  have hset : ∀ {j : ι} {t : Stream Op}, (j = i → t.phase.unlisted = false) →
      (Function.update s.streams j t i).phase.unlisted = false := by
    intro j t ht
    by_cases hj : i = j
    · rw [hj, Function.update_self]
      exact ht hj.symm
    · rwa [Function.update_of_ne hj]
  cases e <;> simp only [step, handlerStep, streamStep]
  all_goals repeat' split
  all_goals first
    | exact h
    | exact hset fun hj => by subst hj; first | exact h | rfl | simp_all [Phase.unlisted]

/-- A stream is sent to from the time that `handleMsgs` takes the mutex for a message. -/
theorem pending_step (e : Event ι Db Msg Op) (h : i ∈ (step srv s e).handler.pending) :
    i ∈ s.handler.pending ∨ i ∈ s.listeners.map Prod.snd := by
  cases e <;> simp only [step, handlerStep, streamStep] at h
  all_goals repeat' split at h
  all_goals simp_all [Handler.pending, State.set]
  · exact .inl (mem_of_mem_erase h)
  · rcases h with rfl | h
    · exact .inl ‹_›
    · exact .inl (mem_of_mem_erase h)

/-- Until the mutex is taken again, nobody comes back to those that wait for their call. -/
theorem waiting_step {e : Event ι Db Msg Op} (he : e ≠ .lock) (h : i ∈ (step srv s e).handler.waiting) :
    i ∈ s.handler.waiting := by
  cases e <;> simp only [step, handlerStep, streamStep] at h
  all_goals repeat' split at h
  all_goals simp_all [Handler.waiting, State.set]
  all_goals exact mem_of_mem_erase h

theorem registered_run (srv : Server Db Msg Op) (db : Db) (events : List (Event ι Db Msg Op)) :
    ∀ i ∈ (run (step srv) (start db) events).handler.pending,
      ((run (step srv) (start db) events).streams i).phase.unlisted = false := by
  have hstep : ∀ (s : State ι Db Msg Op) e,
      (Inv s ∧ ∀ i ∈ s.handler.pending, (s.streams i).phase.unlisted = false) → True →
      (Inv (step srv s e) ∧ ∀ i ∈ (step srv s e).handler.pending, ((step srv s e).streams i).phase.unlisted =
        false) := by
    rintro s e ⟨hinv, hs⟩ -
    refine ⟨inv_step srv hinv e, fun i hi => unlisted_step srv e ?_⟩
    rcases pending_step srv e hi with hi | hi
    · exact hs i hi
    · obtain ⟨p, hp, rfl⟩ := mem_map.mp hi
      exact hinv.later p hp
  exact (invariant_run hstep _ events ⟨inv_start db, fun i hi => absurd hi not_mem_nil⟩
    (along_of_forall _ _ fun _ _ => trivial)).2

/-- A call does something only for a listener that waits for it. -/
theorem call_waiting (h : step srv s (.call i) ≠ s) : i ∈ s.handler.waiting := by
  by_contra hi
  refine h ?_
  simp only [step, handlerStep]
  cases hs : s.handler with
  | calling m rest =>
    have hrest : i ∉ rest := by simpa [hs, Handler.waiting] using hi
    simp [hrest]
  | _ => rfl

theorem not_waiting_call (hinv : Inv s) (h : step srv s (.call i) ≠ s) :
    i ∉ (step srv s (.call i)).handler.waiting := by
  simp only [step, handlerStep] at h ⊢
  cases hs : s.handler with
  | calling m rest =>
    have honce : rest.Nodup := by simpa [hs, Handler.pending] using hinv.once
    by_cases hi : i ∈ rest
    · simp only [if_pos hi]
      split <;> exact honce.not_mem_erase
    · simp [hs, hi] at h
  | _ => simp [hs] at h

/-- The mutex has one holder. Only streams that have registered are called, and a stream that was
called with a message is not called again before the mutex is taken for the next one. -/
theorem mutex_run (srv : Server Db Msg Op) (db : Db) (events : List (Event ι Db Msg Op)) :
    let s := run (step srv) (start db) events
    (∀ i, (s.streams i).phase.locked → ¬ s.handler.holds ∧ ∀ j, (s.streams j).phase.locked → j = i) ∧
      (s.listeners.map Prod.snd).Nodup ∧ s.handler.pending.Nodup ∧
      (∀ p ∈ s.listeners, (s.streams p.2).phase.unlisted = false) ∧
      (∀ i ∈ s.handler.pending, (s.streams i).phase.unlisted = false) ∧
      ∀ i, step srv s (.call i) ≠ s → (s.streams i).phase.unlisted = false ∧
        ∀ later, .lock ∉ later →
          let s' := run (step srv) (step srv s (.call i)) later
          i ∉ s'.handler.waiting ∧ step srv s' (.call i) = s' := by
  intro s
  have h : Inv s := inv_run srv db events
  have hregistered := registered_run srv db events
  refine ⟨fun i hi => ⟨fun hheld => ?_, fun j hj => ?_⟩, h.listed, h.once, h.later, hregistered, fun i hcall => ?_⟩
  · cases (h.owned i hi).symm.trans (h.held hheld)
  · cases (h.owned i hi).symm.trans (h.owned j hj)
    rfl
  · refine ⟨hregistered i (waiting_subset _ (call_waiting srv hcall)), fun later hlater => ?_⟩
    have hdone : i ∉ (run (step srv) (step srv s (.call i)) later).handler.waiting :=
      @invariant_run _ _ (step srv) (fun _ e => e ≠ .lock) (fun s => i ∉ s.handler.waiting)
        (fun s e hs he hi => hs (waiting_step srv he hi)) _ later (not_waiting_call srv h hcall)
        (along_of_forall _ _ fun e he => ne_of_mem_of_not_mem he hlater)
    exact ⟨hdone, by_contra fun hne => hdone (call_waiting srv hne)⟩

/-- `handleMsgs` waits for room. -/
theorem Deadlocked.handlerStep (h : Deadlocked i s) (e : Event ι Db Msg Op) : handlerStep srv s e = s := by
  obtain ⟨howner, ⟨m, op, rest, hs⟩, hfull, -⟩ := h
  cases e <;> simp [GrpcStreams.handlerStep, hs, hfull]

/-- Another stream moves, and leaves the mutex. -/
theorem Deadlocked.set {s' : State ι Db Msg Op} {j : ι} (h : Deadlocked i s)
    (howner : s'.gMutex = s.gMutex) (hhandler : s'.handler = s.handler)
    (hstreams : s'.streams = Function.update s.streams j t)
    (hi : i = j → t.phase = (s.streams i).phase ∧ t.inbox = (s.streams i).inbox) : Deadlocked i s' := by
  obtain ⟨hmutex, hputting, hfull, hclosing⟩ := h
  refine ⟨howner.trans hmutex, by rwa [hhandler], ?_⟩
  rw [hstreams]
  by_cases hij : i = j
  · subst hij
    obtain ⟨hphase, hinbox⟩ := hi rfl
    rw [Function.update_self, Stream.Room, hphase, hinbox]
    exact ⟨hfull, hclosing⟩
  · rw [Function.update_of_ne hij]
    exact ⟨hfull, hclosing⟩

/-- Streams wait for the mutex, or work without it. -/
theorem Deadlocked.streamStep (hinv : Inv s) (h : Deadlocked i s) (e : Event ι Db Msg Op) :
    Deadlocked i (streamStep s e) := by
  have hmutex := h.1
  have hclosing := h.2.2.2
  have hunlocked : ∀ j, (s.streams j).phase.locked = false := by
    intro j
    by_contra hj
    have howned := (hinv.owned j (by simpa using hj)).symm.trans hmutex
    simp at howned
  unfold GrpcStreams.streamStep
  split
  · split
    · rename_i hj
      exact h.set rfl rfl rfl (by rintro rfl; simp [hclosing] at hj)
    · rename_i hj
      exact h.set rfl rfl rfl (by rintro rfl; simp [hclosing] at hj)
    · exact h
  · split
    · rename_i hfree
      simp [hmutex] at hfree
    · exact h
  · split
    · rename_i j _ hj
      have hlocked := hunlocked j
      simp [hj, Phase.locked] at hlocked
    · exact h
  · split
    · rename_i hj
      exact h.set rfl rfl rfl (by rintro rfl; simp [hclosing] at hj)
    · exact h
  · split
    · rename_i hj _
      exact h.set rfl rfl rfl (by rintro rfl; simp [hclosing] at hj)
    · exact h
  · split
    · rename_i hj _
      exact h.set rfl rfl rfl (by rintro rfl; simp [hclosing] at hj)
    · exact h
  · split
    · rename_i hfree
      simp [hmutex] at hfree
    · exact h
  · split
    · rename_i j _ hj
      have hlocked := hunlocked j
      simp [hj, Phase.locked] at hlocked
    · exact h
  · exact h.set rfl rfl rfl (by rintro rfl; exact ⟨rfl, rfl⟩)
  all_goals first | exact h | simp [hmutex, h]

/-- Once deadlocked, `handleMsgs` and the stream stay so, whatever the other processes do. -/
theorem deadlock_lasts (hinv : Inv s) (h : Deadlocked i s) (events : List (Event ι Db Msg Op)) :
    Deadlocked i (run (step srv) s events) := by
  have hrun : Inv (run (step srv) s events) ∧ Deadlocked i (run (step srv) s events) := by
    refine @invariant_run _ _ (step srv) (fun _ _ => True) (fun s => Inv s ∧ Deadlocked i s) ?_ s events
      ⟨hinv, h⟩ (along_of_forall _ _ fun _ _ => trivial)
    intro s e hs _
    refine ⟨inv_step srv hs.1 e, ?_⟩
    unfold step
    split
    all_goals first | (rw [hs.2.handlerStep srv]; exact hs.2) | exact hs.2.streamStep hs.1 _
  exact hrun.2

/-- `handleMsgs` waits for a message, and a stream that has not read its inbox lately is the
only listener. -/
structure Backlog (addr : String) (i : ι) (n : Nat) (s : State ι Db Msg Op) : Prop where
  free : s.gMutex = none
  receiving : s.handler = .receiving
  listeners : s.listeners = [(addr, i)]
  phase : (s.streams i).phase = .selecting
  addr : (s.streams i).addr = addr
  length : (s.streams i).inbox.length = n

/-- The message has something for the listener, as one that adds an object does. -/
def Sends (srv : Server Db Msg Op) (m : Msg) (addr : String) : Prop :=
  ∀ db, srv.calls m (srv.update m db) = true ∧ ∃ op, srv.objects m (srv.update m db) addr = some op

def round (m : Msg) (i : ι) : List (Event ι Db Msg Op) :=
  [.receive m, .lock, .call i, .put, .unlock]

variable {addr : String} {m : Msg}

theorem backlog_round {srv : Server Db Msg Op} (hm : Sends srv m addr) {n : Nat}
    (h : Backlog addr i n s) (hn : n < inboxSize) : Backlog addr i (n + 1) (run (step srv) s (round m i)) := by
  obtain ⟨hfree, hrec, hlis, hphase, haddr, hlen⟩ := h
  obtain ⟨hcalls, op, hop⟩ := hm s.db
  have hroom : (s.streams i).Room := by rwa [Stream.Room, hlen]
  constructor <;>
    simp [round, step, handlerStep, hfree, hrec, hlis, hcalls, haddr, hop, hroom, State.set, hphase, hlen]

/-- A stream connects and its client gets the first objects. -/
def opening (addr : String) (i : ι) : List (Event ι Db Msg Op) :=
  [.start, .connect i (some addr), .register i, .registered i, .sent i]

theorem backlog_opening (db : Db) (addr : String) (i : ι) :
    Backlog addr i 0 (run (step srv) (start db) (opening addr i)) := by
  constructor <;>
    simp [opening, step, handlerStep, streamStep, start, Stream.new, State.set, registerCallBack]

theorem backlog_rounds {srv : Server Db Msg Op} (hm : Sends srv m addr) (h : Backlog addr i 0 s)
    {n : Nat} (hn : n ≤ inboxSize) : Backlog addr i n (run (step srv) s (replicate n (round m i)).flatten) := by
  induction n with
  | zero => exact h
  | succ n ih =>
    rw [replicate_succ', flatten_append, run_append]
    simpa using backlog_round hm (ih (by omega)) (by omega)

/-- The client goes away, and the stream sees it while the next message waits for room. -/
def closure (m : Msg) (i : ι) : List (Event ι Db Msg Op) :=
  [.disconnect i, .receive m, .lock, .call i, .leave i]

theorem backlog_closure {srv : Server Db Msg Op} (hm : Sends srv m addr)
    (h : Backlog addr i inboxSize s) : Deadlocked i (run (step srv) s (closure m i)) := by
  obtain ⟨hfree, hrec, hlis, hphase, haddr, hlen⟩ := h
  obtain ⟨hcalls, op, hop⟩ := hm s.db
  simp [Deadlocked, closure, step, handlerStep, streamStep, State.set,
    Stream.Room, hfree, hrec, hlis, hcalls, haddr, hop, hphase, hlen]

/-- A full inbox and one message more deadlock any server with any client that goes away. -/
theorem deadlock_reached (srv : Server Db Msg Op) (db : Db) {m : Msg} {addr : String}
    (hm : Sends srv m addr) (i : ι) : Deadlocked i (run (step srv) (start db)
      (opening addr i ++ (replicate inboxSize (round m i)).flatten ++ closure m i)) := by
  rw [run_append, run_append]
  exact backlog_closure hm (backlog_rounds hm (backlog_opening srv db addr i) le_rfl)

/-- Messages that add an EPG; an operation has the objects found under its URI. -/
def epgServer : Server (List String) String (List String) where
  update name db := name :: db
  calls _ _ := true
  objects name db _ := if name ∈ db then some [name] else none
  finish _ db := db

/-- The EPG is updated 257 times for a client that goes away. -/
theorem streams_run_fails : ∃ events : List (Event Nat (List String) String (List String)),
    Deadlocked 0 (run (step epgServer) (start []) events) := by
  refine ⟨_, @deadlock_reached Nat _ _ _ _ epgServer [] "web" "10.0.0.5:40112" ?_ 0⟩
  intro db
  simp [epgServer]

/-- A client goes away with an operation left in the inbox. -/
theorem streams_run_disconnect :
    let events : List (Event Nat (List String) String (List String)) :=
      opening "10.0.0.5:40112" 0 ++ round "web" 0 ++ [.disconnect 0, .leave 0] ++ round "db" 0
    ((run (step epgServer) (start []) events).streams 0).phase = .closing ∧
      ¬ Deadlocked 0 (run (step epgServer) (start []) events) :=
  ⟨by decide, streams_run epgServer [] _ (by decide) 0⟩

theorem deadlock_lasts_backlog : ∃ s : State Nat (List String) String (List String), Inv s ∧ Deadlocked 0 s ∧
    ∀ events, Deadlocked 0 (run (step epgServer) s events) := by
  have hsends : Sends epgServer "web" "10.0.0.5:40112" := fun db => by simp [epgServer]
  have hreached := deadlock_reached epgServer [] hsends 0
  have hinv := inv_run epgServer [] (opening "10.0.0.5:40112" 0 ++ (replicate inboxSize (round "web" 0)).flatten ++
    closure "web" 0)
  exact ⟨_, hinv, hreached, deadlock_lasts epgServer hinv hreached⟩

end AciContainers.GrpcStreams
