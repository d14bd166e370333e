import AciContainers.ApicDnIndex
import AciContainers.WorkQueue
import AciContainers.Runs

/-!
# The delta queue of a connection

`pkg/apicapi/apicapi.go`: DNs whose desired state changed, and DNs that a websocket
notification is about, are put into one queue, and one worker decides what to send for each.
The model steps from one critical section to the next. A post is answered with success or with
status 400; what else the APIC may answer restarts the connection and is not modelled.
-/
namespace AciContainers.Apic

open Maps

inductive PendingKind where
  | pendingChangeDelete
  | pendingChangeUpdate
  deriving DecidableEq

structure PendingChange where
  kind : PendingKind
  subIds : List String
  isDirty : Bool
  deriving DecidableEq

/-- What `handleQueuedDn` leaves in the place of the change it took. Its kind is the zero
value, which is that of a delete. -/
def PendingChange.marker : PendingChange := ⟨.pendingChangeDelete, [], true⟩

inductive SubKind where
  | apicSubClass
  | apicSubDn
  | apicSubTree
  deriving DecidableEq

structure Subscription where
  kind : SubKind
  /-- The response classes of the components a subscription is split into. -/
  childSubs : Map String (List String)
  respClasses : List String
  updateHook : Option (ApicObject → Bool)

structure SubIndex where
  subs : Map String Subscription
  ids : Map String String

def classDepth (rootClass : String) : Nat :=
  ([("cloudEPg", 4), ("vzBrCP", 3), ("vzFilter", 3), ("hostprotPol", 3)].lookup rootClass).getD 0

def getRootDn (dn rootClass : String) : String :=
  "/".intercalate ((dn.splitOn "/").take (classDepth rootClass))

/-- What the subscriptions of a notification ask for. -/
structure Notified where
  respClasses : List String
  updateHandlers : List (ApicObject → Bool)
  rootDn : String

def handleId (subscriptions : SubIndex) (dn : String) (n : Notified) (id : String) : Notified :=
  match (subscriptions.ids id).bind fun value => (subscriptions.subs value).map (value, ·) with
  | none => n
  | some (value, sub) =>
    { respClasses := n.respClasses ++ (sub.childSubs id).getD sub.respClasses
      updateHandlers := n.updateHandlers ++ sub.updateHook.toList
      rootDn := if sub.kind = .apicSubTree then getRootDn dn value else n.rootDn }

def notified (subscriptions : SubIndex) (dn : String) (subIds : List String) : Notified :=
  let n := subIds.foldl (handleId subscriptions dn) ⟨[], [], ""⟩
  if n.rootDn = "" then { n with rootDn := dn } else n

def ApicObject.getRn (o : ApicObject) : String := o.attributes.getStr "rn"

def ApicObject.buildDn (o : ApicObject) (parentDn : String) : String :=
  if o.getDn ≠ "" then o.getDn
  else if o.getRn ≠ "" then parentDn ++ "/" ++ o.getRn
  else ""

mutual

def prepareApicCache (parentDn : String) : ApicObject → ApicObject
  | ⟨className, hintDn, attributes, children⟩ =>
    let dn := ApicObject.buildDn ⟨className, hintDn, attributes, children⟩ parentDn
    ⟨className, hintDn, attributes.put "dn" (.str dn), sortByDn (prepareApicCaches dn children)⟩

def prepareApicCaches (parentDn : String) : List ApicObject → List ApicObject
  | [] => []
  | o :: os => prepareApicCache parentDn o :: prepareApicCaches parentDn os

end

def ApicObject.getTag (o : ApicObject) : String :=
  match o.children.find? fun c =>
    c.className = "tagAnnotation" ∧ c.attributes.getStr "key" = aciContainersAnnotKey with
  | some c => c.attributes.getStr "value"
  | none => ""

/-- A match of `[a-zA-Z0-9_]{1,31}-[a-f0-9]{32}` anywhere in a tag: what stands before the
hyphen may be cut down to one character. -/
def tagRegexp (tag : List Char) : Bool :=
  tag.tails.any fun
    | c :: '-' :: rest =>
      (c.isAlphanum || c = '_') && (rest.take 32).length = 32 &&
        (rest.take 32).all fun d => d.isDigit || ('a' ≤ d && d ≤ 'f')
    | _ => false

def isSyncTag (connPre tag : String) : Bool :=
  tagRegexp tag.toList && (connPre ++ "-").toList.isPrefixOf tag.toList

/-- The DN index after an object of the APIC is compared with it, and the DNs that are
queued. -/
def reconcileApicObject (connPre : String) (containerDns : String → Bool) (index : DnIndex)
    (aci : ApicObject) : DnIndex × List String :=
  let dn := aci.getDn
  match index.lookup dn with
  | some eobj =>
    if containerDns dn then
      let r := apicCntCmp aci eobj
      (index.insert dn r.2, applyDiff (if r.1 then [] else [r.2]) [])
    else
      let r := apicObjCmp aci eobj
      (index.insert dn r.desired, applyDiff (if r.update then [r.desired] else []) r.deletes)
  | none => (index, applyDiff [] (if isSyncTag connPre aci.getTag then [dn] else []))

/-- The local variables of `handleQueuedDn` once it released the lock. -/
structure Frame where
  dn : String
  pending : Option PendingChange
  obj : Option ApicObject

inductive Request where
  | postDn (obj : ApicObject)
  | getSubtreeDn (notified : Notified)
  | deleteDn
  | skip

/-- The request that is made for a DN. Delete hooks only tell the subscriber and are left
out. -/
def handleQueuedDn (subscriptions : SubIndex) (f : Frame) : Request :=
  match f.obj, f.pending with
  | some obj, some pending =>
    if pending.kind = .pendingChangeDelete then .postDn obj
    else .getSubtreeDn (notified subscriptions f.dn pending.subIds)
  | some obj, none => .postDn obj
  | none, some pending =>
    let n := notified subscriptions f.dn pending.subIds
    if pending.kind ≠ .pendingChangeDelete ∨ f.dn ≠ n.rootDn then .getSubtreeDn n else .skip
  | none, none => if f.dn = "" then .skip else .deleteDn

inductive Worker where
  | idle
  | got (dn : String)
  | handling (f : Frame)
  /-- In `getSubtreeDn`, with the objects still to be reconciled and the DNs to be queued. -/
  | reconciling (dn : String) (updateHandlers : List (ApicObject → Bool))
      (imdata : List ApicObject) (diff : List String)
  | returned (dn : String) (requeue : Bool)
  | tidied (dn : String)

/-- What passed between the connection and the APIC. -/
inductive Exchange where
  | posted (dn : String)
  | deleteIssued (dn : String)
  | reportedDeleted (dn : String)
  deriving DecidableEq

structure Setup where
  connPre : String
  subscriptions : SubIndex
  containerDns : String → Bool

structure Delta where
  desiredStateDn : DnIndex
  pendingSubDnUpdate : Map String PendingChange
  deltaQueue : WorkQueue String
  worker : Worker
  /-- The exchanges, the latest first. -/
  exchanges : List Exchange

def newDelta : Delta := ⟨∅, Map.empty, .empty, .idle, []⟩

inductive DeltaEvent where
  | addDesired (obj : ApicObject)
  | removeDesired (dn : String)
  | handleSocketUpdate (subIds : List String) (imdata : List ApicObject)
  /-- The delay of a rate limited entry is over. -/
  | ready (dn : String)
  | get
  | take
  | postAnswered (success : Bool)
  | subtreeAnswered (imdata : List ApicObject)
  | deleteSent
  | noRequest
  | reconcile
  | tidy
  | done

namespace Delta

def addDesired (s : Delta) (obj : ApicObject) : Delta :=
  { s with
    desiredStateDn :=
      if obj.getDn = "" then s.desiredStateDn else s.desiredStateDn.insert obj.getDn obj
    deltaQueue := s.deltaQueue.add obj.getDn }

def removeDesired (s : Delta) (dn : String) : Delta :=
  { s with
    desiredStateDn := s.desiredStateDn.erase dn
    deltaQueue := s.deltaQueue.add dn }

/-- One object of a notification; one without a DN or without a status is passed over. -/
def socketObject (subIds : List String) (s : Delta) (obj : ApicObject) : Delta :=
  match obj.attributes "dn", obj.attributes "status" with
  | some (.str dn), some (.str status) =>
    let deleted := status = "deleted"
    { s with
      pendingSubDnUpdate := s.pendingSubDnUpdate.put dn
        ⟨if deleted then .pendingChangeDelete else .pendingChangeUpdate, subIds, false⟩
      deltaQueue := s.deltaQueue.add dn
      exchanges := if deleted then .reportedDeleted dn :: s.exchanges else s.exchanges }
  | _, _ => s

def handleSocketUpdate (s : Delta) (subIds : List String) (imdata : List ApicObject) : Delta :=
  imdata.foldl (socketObject subIds) s

def get (s : Delta) : Delta :=
  match s.worker, s.deltaQueue.get with
  | .idle, some (dn, deltaQueue) => { s with deltaQueue, worker := .got dn }
  | _, _ => s

/-- The critical section of `handleQueuedDn`. -/
def take (s : Delta) : Delta :=
  match s.worker with
  | .got dn =>
    { s with
      pendingSubDnUpdate := s.pendingSubDnUpdate.put dn .marker
      worker := .handling ⟨dn, s.pendingSubDnUpdate dn, s.desiredStateDn.lookup dn⟩ }
  | _ => s

/-- The frame of `handleQueuedDn` and the request it made. -/
def request (setup : Setup) (s : Delta) : Option (Frame × Request) :=
  match s.worker with
  | .handling f => some (f, Apic.handleQueuedDn setup.subscriptions f)
  | _ => none

def postAnswered (setup : Setup) (s : Delta) (success : Bool) : Delta :=
  match s.request setup with
  | some (f, .postDn _) =>
    { s with
      worker := .returned f.dn (!success)
      exchanges := if success then .posted f.dn :: s.exchanges else s.exchanges }
  | _ => s

def subtreeAnswered (setup : Setup) (s : Delta) (imdata : List ApicObject) : Delta :=
  match s.request setup with
  | some (f, .getSubtreeDn n) =>
    { s with worker := .reconciling f.dn n.updateHandlers (imdata.map (prepareApicCache "")) [] }
  | _ => s

def deleteSent (setup : Setup) (s : Delta) : Delta :=
  match s.request setup with
  | some (f, .deleteDn) =>
    { s with worker := .returned f.dn false, exchanges := .deleteIssued f.dn :: s.exchanges }
  | _ => s

def noRequest (setup : Setup) (s : Delta) : Delta :=
  match s.request setup with
  | some (f, .skip) => { s with worker := .returned f.dn false }
  | _ => s

/-- One turn of `getSubtreeDn`: a DN of the last comparison is queued, or the next object is
compared unless a handler takes it. -/
def reconcile (setup : Setup) (s : Delta) : Delta :=
  match s.worker with
  | .reconciling dn updateHandlers imdata (d :: diff) =>
    { s with
      deltaQueue := s.deltaQueue.add d
      worker := .reconciling dn updateHandlers imdata diff }
  | .reconciling dn updateHandlers (obj :: imdata) [] =>
    if updateHandlers.any (· obj) then
      { s with worker := .reconciling dn updateHandlers imdata [] }
    else
      let r := reconcileApicObject setup.connPre setup.containerDns s.desiredStateDn obj
      { s with
        desiredStateDn := r.1
        worker := .reconciling dn updateHandlers imdata r.2 }
  | .reconciling dn _ [] [] => { s with worker := .returned dn false }
  | _ => s

/-- What `processQueue` does when `handleQueuedDn` has returned. -/
def tidy (s : Delta) : Delta :=
  match s.worker with
  | .returned dn true => { s with deltaQueue := s.deltaQueue.addAfter dn, worker := .tidied dn }
  | .returned dn false =>
    { s with
      pendingSubDnUpdate :=
        if (s.pendingSubDnUpdate dn).any (·.isDirty) then s.pendingSubDnUpdate.erase dn
        else s.pendingSubDnUpdate
      worker := .tidied dn }
  | _ => s

def done (s : Delta) : Delta :=
  match s.worker with
  | .tidied dn => { s with deltaQueue := s.deltaQueue.done dn, worker := .idle }
  | _ => s

end Delta

def deltaStep (setup : Setup) (s : Delta) : DeltaEvent → Delta
  | .addDesired obj => s.addDesired obj
  | .removeDesired dn => s.removeDesired dn
  | .handleSocketUpdate subIds imdata => s.handleSocketUpdate subIds imdata
  | .ready dn => { s with deltaQueue := s.deltaQueue.ready dn }
  | .get => s.get
  | .take => s.take
  | .postAnswered success => s.postAnswered setup success
  | .subtreeAnswered imdata => s.subtreeAnswered setup imdata
  | .deleteSent => s.deleteSent setup
  | .noRequest => s.noRequest setup
  | .reconcile => s.reconcile setup
  | .tidy => s.tidy
  | .done => s.done

/-!
# No delete is lost

As long as a post that was answered with success is followed neither by a DELETE nor by a report
that the object is gone, the DN is desired, or the queue owes it another turn, or the worker is
on the way to delete or requeue it. The marker that `handleQueuedDn` leaves in the map of pending
changes breaks this: after a post with status 400 it is still there, and the next turn takes it
for a report that the object is gone.
-/

open Runs Finmap

/-- The last post is followed by a DELETE or by a report that the object is gone. -/
def Withdrawn (x : String) (exchanges : List Exchange) : Prop :=
  ∀ later earlier, exchanges = later ++ .posted x :: earlier → .posted x ∉ later →
    .deleteIssued x ∈ later ∨ .reportedDeleted x ∈ later

def Outstanding (x : String) : List Exchange → Prop
  | [] => False
  | .posted y :: earlier => x = y ∨ Outstanding x earlier
  | .deleteIssued y :: earlier => x ≠ y ∧ Outstanding x earlier
  | .reportedDeleted y :: earlier => x ≠ y ∧ Outstanding x earlier

variable {x : String}

theorem outstanding_append {later earlier : List Exchange} (hdel : .deleteIssued x ∉ later)
    (hrep : .reportedDeleted x ∉ later) (h : Outstanding x earlier) : Outstanding x (later ++ earlier) := by
  induction later with
  | nil => exact h
  | cons e later ih =>
    obtain ⟨hdel', hdel⟩ := not_or.mp (List.mem_cons.not.mp hdel)
    obtain ⟨hrep', hrep⟩ := not_or.mp (List.mem_cons.not.mp hrep)
    have ih := ih hdel hrep
    cases e with
    | posted y => exact .inr ih
    | deleteIssued y => exact ⟨fun hxy => hdel' (hxy ▸ rfl), ih⟩
    | reportedDeleted y => exact ⟨fun hxy => hrep' (hxy ▸ rfl), ih⟩

theorem withdrawn_of_not_outstanding {exchanges : List Exchange} (h : ¬ Outstanding x exchanges) :
    Withdrawn x exchanges := by
  intro later earlier heq _
  by_contra hnot
  obtain ⟨hdel, hrep⟩ := not_or.mp hnot
  apply h
  rw [heq]
  exact outstanding_append hdel hrep (.inl rfl)

def Worker.taken : Worker → Option String
  | .got dn => some dn
  | _ => none

def Worker.frame : Worker → Option Frame
  | .handling f => some f
  | _ => none

def Frame.notified (setup : Setup) (f : Frame) : Notified :=
  Apic.notified setup.subscriptions f.dn ((f.pending.map (·.subIds)).getD [])

/-- An object of an answer that gets a DN queued for deletion. -/
def Listed (setup : Setup) (updateHandlers : List (ApicObject → Bool)) (x : String)
    (o : ApicObject) : Prop :=
  o.getDn = x ∧ updateHandlers.any (· o) = false ∧ isSyncTag setup.connPre o.getTag = true

instance (setup : Setup) (updateHandlers : List (ApicObject → Bool)) (x : String)
    (o : ApicObject) : Decidable (Listed setup updateHandlers x o) :=
  inferInstanceAs (Decidable (_ ∧ _))

namespace Delta

/-- The DN is desired or will get another turn. -/
def Kept (s : Delta) (x : String) : Prop := x ∈ s.desiredStateDn ∨ s.deltaQueue.Owes x

instance (s : Delta) (x : String) : Decidable (s.Kept x) :=
  inferInstanceAs (Decidable (_ ∨ _))

/-- A notification that the object is gone has not been handled yet. -/
def Reported (s : Delta) (x : String) : Prop :=
  ∃ p, s.pendingSubDnUpdate x = some p ∧ p.kind = .pendingChangeDelete ∧ p.isDirty = false

end Delta

/-- The condition under which a step loses no delete. A DN that is not kept is not taken up
with the marker of an earlier turn as its pending change. A post is not answered with success
while a report that its object is gone is still to be handled. And when the worker asks for the
subtree of a DN that is not kept, because of an update, the answer lists the object with the
controller's tag and no hook takes it. -/
def DeltaOk (setup : Setup) (s : Delta) : DeltaEvent → Prop
  | .take => ∀ dn ∈ s.worker.taken,
      s.Kept dn ∨ ∀ p ∈ s.pendingSubDnUpdate dn, p.isDirty = false
  | .postAnswered true => ∀ f ∈ s.worker.frame,
      ∀ p ∈ s.pendingSubDnUpdate f.dn, p.isDirty = true ∨ p.kind = .pendingChangeUpdate
  | .subtreeAnswered imdata => ∀ f ∈ s.worker.frame,
      (∃ p ∈ f.pending, p.kind = .pendingChangeDelete) ∨ s.Kept f.dn ∨
        ∃ o ∈ imdata.map (prepareApicCache ""),
          Listed setup (f.notified setup).updateHandlers f.dn o
  | _ => True

instance (setup : Setup) (s : Delta) : (e : DeltaEvent) → Decidable (DeltaOk setup s e)
  | .take => inferInstanceAs (Decidable (∀ dn ∈ s.worker.taken, _))
  | .postAnswered true => inferInstanceAs (Decidable (∀ f ∈ s.worker.frame, _))
  | .subtreeAnswered _ => inferInstanceAs (Decidable (∀ f ∈ s.worker.frame, _))
  | .postAnswered false => .isTrue trivial
  | .addDesired _ => .isTrue trivial
  | .removeDesired _ => .isTrue trivial
  | .handleSocketUpdate _ _ => .isTrue trivial
  | .ready _ => .isTrue trivial
  | .get => .isTrue trivial
  | .deleteSent => .isTrue trivial
  | .noRequest => .isTrue trivial
  | .reconcile => .isTrue trivial
  | .tidy => .isTrue trivial
  | .done => .isTrue trivial

/-- What is known of the frame of each request. -/
theorem handleQueuedDn_frame (setup : Setup) (f : Frame) : match handleQueuedDn setup.subscriptions f with
    | .postDn _ => f.obj ≠ none
    | .getSubtreeDn n => n = f.notified setup
    | .deleteDn => f.dn ≠ ""
    | .skip => f.dn = "" ∨ ∃ p ∈ f.pending, p.kind = .pendingChangeDelete := by
  obtain ⟨dn, pending, obj⟩ := f
  cases obj with
  | some obj =>
    cases pending with
    | none => exact Option.some_ne_none obj
    | some p =>
      by_cases hk : p.kind = .pendingChangeDelete
      · simp [handleQueuedDn, hk]
      · simp [handleQueuedDn, hk, Frame.notified]
  | none =>
    cases pending with
    | none => by_cases hdn : dn = "" <;> simp [handleQueuedDn, hdn]
    | some p =>
      by_cases hget : p.kind ≠ .pendingChangeDelete ∨
          dn ≠ (notified setup.subscriptions dn p.subIds).rootDn
      · simp [handleQueuedDn, hget, Frame.notified]
      · simp only [handleQueuedDn, hget, if_false]
        exact .inr ⟨p, rfl, not_not.mp (not_or.mp hget).1⟩

theorem Delta.request_eq {setup : Setup} {s : Delta} {f : Frame} {r : Request} (h : s.request setup = some (f, r)) :
    s.worker = .handling f ∧ handleQueuedDn setup.subscriptions f = r := by
  unfold Delta.request at h
  split at h
  · next hw =>
    cases h
    exact ⟨hw, rfl⟩
  · exact nomatch h

/-- Comparing an object with the index never changes which DNs are desired. -/
theorem mem_reconcileApicObject {connPre : String} {containerDns : String → Bool} {index : DnIndex}
    {aci : ApicObject} : x ∈ (reconcileApicObject connPre containerDns index aci).1 ↔ x ∈ index := by
  cases hobj : index.lookup aci.getDn with
  | none => rw [reconcileApicObject, hobj]
  | some eobj =>
    have hmem : aci.getDn ∈ index := mem_of_lookup_eq_some hobj
    have hins : ∀ o, x ∈ index.insert aci.getDn o ↔ x ∈ index := by
      intro o
      rw [mem_insert]
      exact ⟨fun hx => hx.elim (· ▸ hmem) id, .inr⟩
    simp only [reconcileApicObject, hobj]
    split
    · exact hins _
    · exact hins _

/-- An object that is listed with the controller's tag is queued where it is not desired. -/
theorem mem_reconcile_of_listed {setup : Setup} {updateHandlers : List (ApicObject → Bool)}
    {o : ApicObject} (h : Listed setup updateHandlers x o) {index : DnIndex} (hx : x ∉ index) :
    x ∈ (reconcileApicObject setup.connPre setup.containerDns index o).2 := by
  obtain ⟨rfl, -, htag⟩ := h
  rw [reconcileApicObject, lookup_eq_none.mpr hx]
  simp [applyDiff, htag]

def Worker.dn : Worker → Option String
  | .idle => none
  | .got dn | .reconciling dn _ _ _ | .returned dn _ | .tidied dn => some dn
  | .handling f => some f.dn

/-- The worker is on the way to delete the DN or to queue it. -/
def Worker.Covers (setup : Setup) (x : String) : Worker → Prop
  | .got dn => dn = x
  | .handling f => f.dn = x ∧ f.obj = none ∧ ∀ p ∈ f.pending, p.kind = .pendingChangeUpdate
  | .reconciling dn updateHandlers imdata diff =>
    dn = x ∧ (x ∈ diff ∨ ∃ o ∈ imdata, Listed setup updateHandlers x o)
  | .returned dn requeue => dn = x ∧ requeue = true
  | .idle | .tidied _ => False

theorem Worker.Covers.dn_eq {setup : Setup} {w : Worker} (h : w.Covers setup x) : w.dn = some x := by
  cases w with
  | idle => exact h.elim
  | got dn => exact congrArg some h
  | handling f => exact congrArg some h.1
  | reconciling dn updateHandlers imdata diff => exact congrArg some h.1
  | returned dn requeue => exact congrArg some h.1
  | tidied dn => exact h.elim

structure DeltaInv (setup : Setup) (s : Delta) : Prop where
  named : "" ∉ s.desiredStateDn
  posted : ¬ Outstanding "" s.exchanges
  working : ∀ dn ∈ s.worker.dn, dn ∈ s.deltaQueue.processing
  reported : ∀ x, s.Reported x → ¬ Outstanding x s.exchanges
  posting : ∀ f ∈ s.worker.frame, f.obj ≠ none → f.dn ≠ "" ∧ s.Kept f.dn
  covered : ∀ x, Outstanding x s.exchanges → s.Kept x ∨ s.worker.Covers setup x

theorem deltaInv_newDelta (setup : Setup) : DeltaInv setup newDelta where
  named := notMem_empty
  posted := id
  working := fun _ h => nomatch h
  reported := fun _ _ => id
  posting := fun _ h => nomatch h
  covered := fun _ h => h.elim

namespace DeltaInv

variable {setup : Setup} {s : Delta} (h : DeltaInv setup s)
include h

/-- Steps of the others: the worker stands still, and what was kept stays kept. -/
theorem others {s' : Delta} (hw : s'.worker = s.worker)
    (hp : s'.deltaQueue.processing = s.deltaQueue.processing) (hnamed : "" ∉ s'.desiredStateDn)
    (hkept : ∀ x, s.Kept x → s'.Kept x) (hout : ∀ x, Outstanding x s'.exchanges → Outstanding x s.exchanges)
    (hrep : ∀ x, s'.Reported x → Outstanding x s'.exchanges → s.Reported x) : DeltaInv setup s' where
  named := hnamed
  posted := fun ho => h.posted (hout "" ho)
  working := by
    rw [hw, hp]
    exact h.working
  reported := fun x hr ho => h.reported x (hrep x hr ho) (hout x ho)
  posting := by
    intro f hf hobj
    rw [hw] at hf
    exact (h.posting f hf hobj).imp_right (hkept f.dn)
  covered := by
    intro x ho
    rw [hw]
    exact (h.covered x (hout x ho)).imp_left (hkept x)

theorem addDesired (obj : ApicObject) : DeltaInv setup (s.addDesired obj) := by
  refine h.others rfl rfl ?_ ?_ (fun _ => id) fun _ hr _ => hr
  · change "" ∉ if obj.getDn = "" then s.desiredStateDn else _
    split
    · exact h.named
    · next hne =>
      rw [mem_insert]
      exact not_or.mpr ⟨fun heq => hne heq.symm, h.named⟩
  · intro x hx
    refine hx.imp (fun hx => ?_) fun hx => WorkQueue.owes_add.mpr (.inr hx)
    change x ∈ if obj.getDn = "" then s.desiredStateDn else _
    split
    · exact hx
    · exact (mem_insert).mpr (.inr hx)

theorem removeDesired (dn : String) : DeltaInv setup (s.removeDesired dn) := by
  refine h.others rfl rfl ?_ ?_ (fun _ => id) fun _ hr _ => hr
  · exact fun hx => h.named (mem_erase.mp hx).2
  · intro x hx
    by_cases hxd : x = dn
    · exact .inr (WorkQueue.owes_add.mpr (.inl hxd))
    · exact hx.imp (fun hx => mem_erase.mpr ⟨hxd, hx⟩)
        fun hx => WorkQueue.owes_add.mpr (.inr hx)

theorem ready (dn : String) : DeltaInv setup { s with deltaQueue := s.deltaQueue.ready dn } :=
  h.others rfl (WorkQueue.processing_ready _ _) h.named
    (fun _ hx => hx.imp_right WorkQueue.owes_ready.mpr) (fun _ => id) fun _ hr _ => hr

theorem socketObject (subIds : List String) (obj : ApicObject) : DeltaInv setup (s.socketObject subIds obj) := by
  unfold Delta.socketObject
  split
  · next dn status _ _ =>
    refine h.others rfl rfl h.named
      (fun _ hx => hx.imp_right fun hx => WorkQueue.owes_add.mpr (.inr hx)) ?_ ?_
    · intro x ho
      by_cases hdel : status = "deleted"
      · simp only [hdel, if_true] at ho
        exact ho.2
      · simpa only [hdel, if_false] using ho
    · rintro x ⟨p, hp, hkind, hclean⟩ ho
      by_cases hx : x = dn
      · -- the new notification is a report only where it ends what is outstanding
        subst hx
        simp only [put_same, Option.some.injEq] at hp
        subst hp
        by_cases hdel : status = "deleted"
        · simp only [hdel, if_true] at ho
          exact absurd rfl ho.1
        · simp [hdel] at hkind
      · exact ⟨p, (put_other _ _ hx).symm.trans hp, hkind, hclean⟩
  · exact h

theorem handleSocketUpdate (subIds : List String) (imdata : List ApicObject) :
    DeltaInv setup (s.handleSocketUpdate subIds imdata) := by
  induction imdata generalizing s with
  | nil => exact h
  | cons obj imdata ih => exact ih (h.socketObject subIds obj)

theorem get : DeltaInv setup s.get := by
  unfold Delta.get
  split
  · next dn q hw hq =>
    have hproc := (WorkQueue.get_eq hq).2.1
    refine ⟨h.named, h.posted, ?_, h.reported, fun f hf => (nomatch hf), ?_⟩
    · rintro _ ⟨⟩
      rw [hproc]
      exact Finset.mem_insert_self _ _
    · intro x ho
      by_cases hx : x = dn
      · exact .inr hx.symm
      · rcases h.covered x ho with hk | hc
        · exact .inl (hk.imp_right fun hk => hk.get hq hx)
        · rw [hw] at hc
          exact hc.elim
  · exact h

theorem take (hok : DeltaOk setup s .take) : DeltaInv setup s.take := by
  unfold Delta.take
  split
  · next dn hw =>
    have hok := hok dn (by rw [hw]; rfl)
    refine ⟨h.named, h.posted, ?_, ?_, ?_, ?_⟩
    · rintro _ ⟨⟩
      exact h.working dn (by rw [hw]; rfl)
    · rintro x ⟨p, hp, hkind, hclean⟩
      by_cases hx : x = dn
      · subst hx
        have hmark := (put_same s.pendingSubDnUpdate x PendingChange.marker).symm.trans hp
        cases hmark
        exact nomatch hclean
      · exact h.reported x ⟨p, (put_other _ _ hx).symm.trans hp, hkind, hclean⟩
    · rintro _ ⟨⟩ hobj
      have hmem : dn ∈ s.desiredStateDn := by
        by_contra hnot
        exact hobj (lookup_eq_none.mpr hnot)
      exact ⟨fun hdn => h.named (hdn ▸ hmem), .inl hmem⟩
    · intro x ho
      rcases h.covered x ho with hk | hc
      · exact .inl hk
      · rw [hw] at hc
        cases hc
        -- an outstanding DN that is not kept has no report, so its change is an update
        by_cases hk : s.Kept dn
        · exact .inl hk
        · refine .inr ⟨rfl, lookup_eq_none.mpr (not_or.mp hk).1, fun p hp => ?_⟩
          have hclean := hok.resolve_left hk p hp
          cases hkind : p.kind with
          | pendingChangeUpdate => rfl
          | pendingChangeDelete => exact absurd ho (h.reported dn ⟨p, hp, hkind, hclean⟩)
  · exact h

/-- The worker goes on with the DN it has and sends nothing. -/
theorem move {w : Worker} (hdn : w.dn = s.worker.dn) (hframe : w.frame = none)
    (hcov : ∀ x, s.worker.Covers setup x → Outstanding x s.exchanges →
      s.Kept x ∨ w.Covers setup x) : DeltaInv setup { s with worker := w } := by
  refine ⟨h.named, h.posted, fun dn hd => h.working dn (hdn ▸ hd), h.reported, ?_, ?_⟩
  · intro f hf
    rw [hframe] at hf
    exact nomatch hf
  · intro x ho
    rcases h.covered x ho with hk | hc
    · exact .inl hk
    · exact hcov x hc ho

theorem noRequest : DeltaInv setup (s.noRequest setup) := by
  unfold Delta.noRequest
  split
  · next f hreq =>
    obtain ⟨hw, hr⟩ := Delta.request_eq hreq
    have hf := handleQueuedDn_frame setup f
    rw [hr] at hf
    refine h.move (by rw [hw]; rfl) rfl fun x hc ho => ?_
    rw [hw] at hc
    obtain ⟨rfl, -, hupdate⟩ := hc
    rcases hf with hdn | ⟨p, hp, hkind⟩
    · exact absurd (hdn ▸ ho) h.posted
    · rw [hupdate p hp] at hkind
      exact nomatch hkind
  · exact h

theorem subtreeAnswered {imdata : List ApicObject} (hok : DeltaOk setup s (.subtreeAnswered imdata)) :
    DeltaInv setup (s.subtreeAnswered setup imdata) := by
  unfold Delta.subtreeAnswered
  split
  · next f n hreq =>
    obtain ⟨hw, hr⟩ := Delta.request_eq hreq
    have hf := handleQueuedDn_frame setup f
    rw [hr] at hf
    subst hf
    refine h.move (by rw [hw]; rfl) rfl fun x hc _ => ?_
    rw [hw] at hc
    obtain ⟨rfl, -, hupdate⟩ := hc
    rcases hok f (by rw [hw]; rfl) with ⟨p, hp, hkind⟩ | hk | hlisted
    · rw [hupdate p hp] at hkind
      exact nomatch hkind
    · exact .inl hk
    · exact .inr ⟨rfl, .inr hlisted⟩
  · exact h

theorem deleteSent : DeltaInv setup (s.deleteSent setup) := by
  unfold Delta.deleteSent
  split
  · next f hreq =>
    obtain ⟨hw, -⟩ := Delta.request_eq hreq
    refine ⟨h.named, fun ho => h.posted ho.2, ?_, fun x hr ho => h.reported x hr ho.2,
      fun f' hf' => (nomatch hf'), ?_⟩
    · rintro _ ⟨⟩
      exact h.working f.dn (by rw [hw]; rfl)
    · intro x ho
      rcases h.covered x ho.2 with hk | hc
      · exact .inl hk
      · rw [hw] at hc
        exact absurd hc.1.symm ho.1
  · exact h

theorem postAnswered {success : Bool} (hok : DeltaOk setup s (.postAnswered success)) :
    DeltaInv setup (s.postAnswered setup success) := by
  unfold Delta.postAnswered
  split
  · next f obj hreq =>
    obtain ⟨hw, hr⟩ := Delta.request_eq hreq
    have hf := handleQueuedDn_frame setup f
    rw [hr] at hf
    obtain ⟨hdn, hkept⟩ := h.posting f (by rw [hw]; rfl) hf
    cases success with
    | false =>
      refine h.move (by rw [hw]; rfl) rfl fun x hc _ => ?_
      rw [hw] at hc
      exact .inr ⟨hc.1, rfl⟩
    | true =>
      refine ⟨h.named, fun ho => ho.elim (hdn ·.symm) h.posted, ?_, ?_,
        fun f' hf' => (nomatch hf'), ?_⟩
      · rintro _ ⟨⟩
        exact h.working f.dn (by rw [hw]; rfl)
      · rintro x ⟨p, hp, hkind, hclean⟩ (rfl | ho)
        · rcases hok f (by rw [hw]; rfl) p hp with hdirty | hupd
          · rw [hclean] at hdirty
            exact nomatch hdirty
          · rw [hkind] at hupd
            exact nomatch hupd
        · exact h.reported x ⟨p, hp, hkind, hclean⟩ ho
      · rintro x (rfl | ho)
        · exact .inl hkept
        · rcases h.covered x ho with hk | hc
          · exact .inl hk
          · rw [hw] at hc
            exact .inl (hc.1 ▸ hkept)
  · exact h

theorem reconcile : DeltaInv setup (s.reconcile setup) := by
  unfold Delta.reconcile
  split
  · next dn updateHandlers imdata d diff hw =>
    have hkept : ∀ x, s.Kept x → x ∈ s.desiredStateDn ∨ (s.deltaQueue.add d).Owes x :=
      fun x hk => hk.imp_right fun hk => WorkQueue.owes_add.mpr (.inr hk)
    refine ⟨h.named, h.posted, ?_, h.reported, fun f hf => (nomatch hf), ?_⟩
    · rintro _ ⟨⟩
      exact h.working dn (by rw [hw]; rfl)
    · intro x ho
      rcases h.covered x ho with hk | hc
      · exact .inl (hkept x hk)
      · rw [hw] at hc
        rcases hc with ⟨rfl, hd | hlisted⟩
        · rcases List.mem_cons.mp hd with rfl | hd
          · exact .inl (.inr (WorkQueue.owes_add.mpr (.inl rfl)))
          · exact .inr ⟨rfl, .inl hd⟩
        · exact .inr ⟨rfl, .inr hlisted⟩
  · next dn updateHandlers obj imdata hw =>
    -- the listed object is either the one at hand or still to come
    have hcov : ∀ x, s.worker.Covers setup x → dn = x ∧ (Listed setup updateHandlers x obj ∨
        ∃ o ∈ imdata, Listed setup updateHandlers x o) := by
      intro x hc
      rw [hw] at hc
      rcases hc with ⟨rfl, hd | hlisted⟩
      · exact nomatch hd
      · exact ⟨rfl, (List.exists_mem_cons_iff ..).mp hlisted⟩
    split
    · next htaken =>
      refine h.move (by rw [hw]; rfl) rfl fun x hc _ => ?_
      obtain ⟨rfl, hl | hl⟩ := hcov x hc
      · rw [hl.2.1] at htaken
        exact nomatch htaken
      · exact .inr ⟨rfl, .inr hl⟩
    · refine ⟨mem_reconcileApicObject.not.mpr h.named, h.posted, ?_, h.reported, fun f hf => (nomatch hf), ?_⟩
      · rintro _ ⟨⟩
        exact h.working dn (by rw [hw]; rfl)
      · intro x ho
        by_cases hx : x ∈ s.desiredStateDn
        · exact .inl (.inl (mem_reconcileApicObject.mpr hx))
        · rcases h.covered x ho with hk | hc
          · exact .inl (.inr (hk.resolve_left hx))
          · obtain ⟨rfl, hl | hl⟩ := hcov x hc
            · exact .inr ⟨rfl, .inl (mem_reconcile_of_listed hl hx)⟩
            · exact .inr ⟨rfl, .inr hl⟩
  · next dn updateHandlers hw =>
    refine h.move (by rw [hw]; rfl) rfl fun x hc _ => ?_
    rw [hw] at hc
    rcases hc with ⟨-, hd | ⟨o, ho, -⟩⟩
    · exact nomatch hd
    · exact nomatch ho
  · exact h

theorem tidy : DeltaInv setup s.tidy := by
  unfold Delta.tidy
  split
  · next dn hw =>
    refine ⟨h.named, h.posted, ?_, h.reported, fun f hf => (nomatch hf), ?_⟩
    · rintro _ ⟨⟩
      exact h.working dn (by rw [hw]; rfl)
    · intro x ho
      left
      rcases h.covered x ho with hk | hc
      · exact hk.imp_right fun hk => WorkQueue.owes_addAfter.mpr (.inr hk)
      · rw [hw] at hc
        exact .inr (WorkQueue.owes_addAfter.mpr (.inl hc.1.symm))
  · next dn hw =>
    refine ⟨h.named, h.posted, ?_, ?_, fun f hf => (nomatch hf), ?_⟩
    · rintro _ ⟨⟩
      exact h.working dn (by rw [hw]; rfl)
    · rintro x ⟨p, hp, hkind, hclean⟩
      refine h.reported x ⟨p, ?_, hkind, hclean⟩
      simp only at hp
      split at hp
      · by_cases hx : x = dn
        · rw [hx, erase_same] at hp
          exact nomatch hp
        · exact (erase_other _ hx).symm.trans hp
      · exact hp
    · intro x ho
      refine (h.covered x ho).imp_right fun hc => ?_
      rw [hw] at hc
      exact nomatch hc.2
  · exact h

theorem done : DeltaInv setup s.done := by
  unfold Delta.done
  split
  · next dn hw =>
    refine ⟨h.named, h.posted, fun _ hd => (nomatch hd), h.reported, fun f hf => (nomatch hf), ?_⟩
    intro x ho
    refine (h.covered x ho).imp_right fun hc => ?_
    rw [hw] at hc
    exact hc.elim
  · exact h

theorem step (e : DeltaEvent) (hok : DeltaOk setup s e) : DeltaInv setup (deltaStep setup s e) := by
  cases e with
  | addDesired obj => exact h.addDesired obj
  | removeDesired dn => exact h.removeDesired dn
  | handleSocketUpdate subIds imdata => exact h.handleSocketUpdate subIds imdata
  | ready dn => exact h.ready dn
  | get => exact h.get
  | take => exact h.take hok
  | postAnswered success => exact h.postAnswered hok
  | subtreeAnswered imdata => exact h.subtreeAnswered hok
  | deleteSent => exact h.deleteSent
  | noRequest => exact h.noRequest
  | reconcile => exact h.reconcile
  | tidy => exact h.tidy
  | done => exact h.done

/-- Where the queue has no entry left, nothing undesired is outstanding. -/
theorem withdrawn (hx : x ∉ s.desiredStateDn) (hq : ¬ s.deltaQueue.HasEntry x) : Withdrawn x s.exchanges := by
  refine withdrawn_of_not_outstanding fun ho => hq ?_
  rcases h.covered x ho with (hk | hk) | hc
  · exact absurd hk hx
  · exact hk.hasEntry
  · exact .inr (.inl (h.working x hc.dn_eq))

omit h

end DeltaInv

/-- In a run whose steps meet the condition, a posted DN that is no longer desired and has no
entry in the queue has been deleted, or was reported as deleted, since its last post. -/
theorem deletes_never_lost (setup : Setup) (events : List DeltaEvent)
    (hok : Along (deltaStep setup) (DeltaOk setup) newDelta events) (k : Nat) (dn : String)
    (hundesired : dn ∉ (run (deltaStep setup) newDelta (events.take k)).desiredStateDn)
    (hqueue : ¬ (run (deltaStep setup) newDelta (events.take k)).deltaQueue.HasEntry dn) :
    Withdrawn dn (run (deltaStep setup) newDelta (events.take k)).exchanges :=
  (invariant_take (fun _ e h hok => h.step e hok) newDelta events (deltaInv_newDelta setup)
    hok k).withdrawn hundesired hqueue

namespace DeltaExample

def dn : String := "uni/tn-a/BD-b"

def tagOf (value : String) : ApicObject :=
  ⟨"tagAnnotation", "", ((Map.empty : Attributes).put "key" (.str aciContainersAnnotKey)).put "value"
    (.str value), []⟩

def bridgeDomain : ApicObject :=
  ⟨"fvBD", "", (Map.empty : Attributes).put "dn" (.str dn),
    [tagOf "kube-0123456789abcdef0123456789abcdef"]⟩

def modified : ApicObject :=
  ⟨"fvBD", "", ((Map.empty : Attributes).put "dn" (.str dn)).put "status" (.str "modified"), []⟩

def setup : Setup := ⟨"kube", ⟨Map.empty, Map.empty⟩, fun _ => false⟩

/-- One turn of the worker around its request. -/
def turn (request : List DeltaEvent) : List DeltaEvent := [.get, .take] ++ request ++ [.tidy, .done]

/-- An object is posted, the APIC notifies about it, and it is removed: the turn for the
notification finds it on the APIC, and the next one deletes it. -/
def afterUpdate : List DeltaEvent :=
  [.addDesired bridgeDomain] ++ turn [.postAnswered true] ++
    [.handleSocketUpdate [] [modified], .removeDesired dn] ++
    turn [.subtreeAnswered [bridgeDomain], .reconcile, .reconcile, .reconcile] ++
    turn [.deleteSent]

/-- An object is posted and posted again, the second time with status 400. The DN is in line
for its retry when the object is removed. -/
def afterRefusal : List DeltaEvent :=
  [.addDesired bridgeDomain] ++ turn [.postAnswered true] ++ [.addDesired bridgeDomain] ++
    turn [.postAnswered false] ++ [.ready dn, .removeDesired dn] ++ turn [.noRequest]

end DeltaExample

open DeltaExample in
theorem deletes_never_lost_afterUpdate :
    Exchange.posted dn ∈ (run (deltaStep setup) newDelta (afterUpdate.take 21)).exchanges ∧
      Withdrawn dn (run (deltaStep setup) newDelta (afterUpdate.take 21)).exchanges :=
  ⟨by decide +kernel,
    deletes_never_lost setup afterUpdate (by decide +kernel) 21 dn (by decide +kernel)
      (by decide +kernel)⟩

open DeltaExample in
/-- The marker of the refused post is taken for a report: nothing is sent, and the object stays
on the APIC. -/
theorem deletes_never_lost_fails : dn ∉ (run (deltaStep setup) newDelta afterRefusal).desiredStateDn ∧
      ¬ (run (deltaStep setup) newDelta afterRefusal).deltaQueue.HasEntry dn ∧
      ¬ Withdrawn dn (run (deltaStep setup) newDelta afterRefusal).exchanges := by
  have hexchanges : (run (deltaStep setup) newDelta afterRefusal).exchanges = [.posted dn] := by
    decide +kernel
  refine ⟨by decide +kernel, by decide +kernel, fun h => ?_⟩
  have hlater := h [] [] hexchanges List.not_mem_nil
  simp at hlater

end AciContainers.Apic
