import AciContainers.IpIndex
import AciContainers.Runs

/-!
# Endpoint slices and their index

`endpointSliceAdded`, `doendpointSliceUpdated` and `endpointSliceDeleted` of
`pkg/controller/services.go`, as the informer calls them, without a delay for added endpoints. The
index gives an address the services that have it. A service may have several slices, but each
handler compares only the old and the new content of one slice.
-/
namespace AciContainers.EndpointSlices

open Bytes Net Maps Runs IpIndex Option

/-- One of the texts is read as this IP. -/
def Listed (texts : Finset String) (ip : IP) : Prop := ∃ text ∈ texts, parseIP text = some ip

instance (texts : Finset String) (ip : IP) : Decidable (Listed texts ip) :=
  inferInstanceAs (Decidable (∃ text ∈ texts, parseIP text = some ip))

/-- No text is that of a network. -/
def Plain (texts : Finset String) : Prop := ∀ text ∈ texts, '/' ∉ text.toList

theorem plain_empty : Plain ∅ := fun _ h => absurd h (Finset.notMem_empty _)

section Update

variable {text : String}

theorem parseNetwork_eq_host (h : '/' ∉ text.toList) {ip : IP} (hip : ip.length = 16) :
    parseNetwork text = some (hostNetwork ip) ↔ parseIP text = some ip := by
  rw [parseNetwork_plain h, map_eq_some_iff]
  constructor
  · rintro ⟨ip', hp, hnet⟩
    rw [hp, hostNetwork_inj (length_parseIP hp) hip hnet]
  · exact fun hp => ⟨ip, hp, rfl⟩

theorem parseNetwork_covers_host (h : '/' ∉ text.toList) {ip : IP} (hip : ip.length = 16) :
    (∃ n, parseNetwork text = some n ∧ covers n (hostNetwork ip) = true) ↔ parseIP text = some ip := by
  rw [← parseNetwork_eq_host h hip]
  constructor
  · rintro ⟨n, hn, hcov⟩
    rw [parseNetwork_plain h, map_eq_some_iff] at hn
    obtain ⟨ip', hp, rfl⟩ := hn
    rw [parseNetwork_plain h, hp, (covers_hostNetwork_iff (length_parseIP hp) hip).mp hcov]
    rfl
  · exact fun hn => ⟨_, hn, covers_hostNetwork hip⟩

theorem covers_self_of_plain (h : '/' ∉ text.toList) {n : Network} (hn : parseNetwork text = some n) :
    covers n n = true := by
  rw [parseNetwork_plain h, map_eq_some_iff] at hn
  obtain ⟨ip, hp, rfl⟩ := hn
  exact covers_hostNetwork (length_parseIP hp)

variable (order : RangeOrder String) (index : Index Network) {old new : Finset String} (hold : Plain old)
  (hnew : Plain new) (key k : String) {ip : IP} (hip : ip.length = 16)
include hold hnew hip

/-- The entry of an IP after an update. -/
theorem mem_keysAt_host : k ∈ (updateIpIndex covers parseNetwork order index old new key).keysAt (hostNetwork ip) ↔
      (k ∈ index.keysAt (hostNetwork ip) ∧ ¬ (k = key ∧ ∃ text ∈ old, text ∉ new ∧ parseIP text = some ip)) ∨
      (k = key ∧ ∃ text ∈ new, text ∉ old ∧ parseIP text = some ip) := by
  rw [mem_keysAt_updateIpIndex order index fun text h _ => covers_self_of_plain (hnew text h)]
  refine or_congr (and_congr Iff.rfl (not_congr (and_congr Iff.rfl ?_))) (and_congr Iff.rfl ?_)
  · exact exists_congr fun text => and_congr_right fun h => and_congr_right fun _ =>
      parseNetwork_covers_host (hold text h) hip
  · exact exists_congr fun text => and_congr_right fun h => and_congr_right fun _ =>
      parseNetwork_eq_host (hnew text h) hip

variable {key k} in
/-- An entry that has a service for the old texts, or because of the rest of its slices, has it
for the new texts or because of the rest, when a text that goes had an IP of its own. -/
theorem mem_keysAt_replaced {rest : Prop}
    (hbefore : k ∈ index.keysAt (hostNetwork ip) ↔ (k = key ∧ Listed old ip) ∨ rest)
    (hdrop : k = key → ∀ text ∈ old, text ∉ new → parseIP text = some ip → ¬ Listed new ip ∧ ¬ rest) :
    k ∈ (updateIpIndex covers parseNetwork order index old new key).keysAt (hostNetwork ip) ↔
      (k = key ∧ Listed new ip) ∨ rest := by
  rw [mem_keysAt_host order index hold hnew key k hip, hbefore]
  by_cases hk : k = key
  · have hdrop := hdrop hk
    simp only [hk, true_and]
    constructor
    · rintro (⟨⟨text, ht, hp⟩ | hrest, hkept⟩ | ⟨text, ht, -, hp⟩)
      · by_cases htn : text ∈ new
        · exact .inl ⟨text, htn, hp⟩
        · exact absurd ⟨text, ht, htn, hp⟩ hkept
      · exact .inr hrest
      · exact .inl ⟨text, ht, hp⟩
    · rintro (⟨text, ht, hp⟩ | hrest)
      · by_cases hto : text ∈ old
        · refine .inl ⟨.inl ⟨text, hto, hp⟩, ?_⟩
          rintro ⟨gone, hgo, hgn, hgp⟩
          exact (hdrop gone hgo hgn hgp).1 ⟨text, ht, hp⟩
        · exact .inr ⟨text, ht, hto, hp⟩
      · refine .inl ⟨.inr hrest, ?_⟩
        rintro ⟨gone, hgo, hgn, hgp⟩
        exact (hdrop gone hgo hgn hgp).2 hrest
  · simp [hk]

end Update

/-- An address is an IP or the name of a host, so it has no slash. -/
structure EndpointSlice where
  ns : String
  name : String
  /-- The label that names the service. -/
  serviceName : Option String
  /-- The addresses of each endpoint. -/
  endpoints : List (List String)
  plain : ∀ text ∈ endpoints.flatten, '/' ∉ text.toList
deriving DecidableEq

namespace EndpointSlice

def key (slice : EndpointSlice) : String := slice.ns ++ "/" ++ slice.name

def getServiceKey (slice : EndpointSlice) : Option String :=
  slice.serviceName.map fun serviceName => slice.ns ++ "/" ++ serviceName

def getEndpointSliceIps (slice : EndpointSlice) : Finset String := slice.endpoints.flatten.toFinset

/-- An address of the slice is read as this IP. -/
def Lists (slice : EndpointSlice) (ip : IP) : Prop := Listed slice.getEndpointSliceIps ip

instance (slice : EndpointSlice) (ip : IP) : Decidable (slice.Lists ip) :=
  inferInstanceAs (Decidable (Listed slice.getEndpointSliceIps ip))

theorem plain_ips (slice : EndpointSlice) : Plain slice.getEndpointSliceIps :=
  fun text h => slice.plain text (List.mem_toFinset.mp h)

end EndpointSlice

def endpointSliceAdded (order : RangeOrder String) (index : Index Network) (slice : EndpointSlice) :
    Index Network :=
  match slice.getServiceKey with
  | none => index
  | some servicekey =>
    updateIpIndex covers parseNetwork order index ∅ slice.getEndpointSliceIps servicekey

def endpointSliceDeleted (order : RangeOrder String) (index : Index Network) (slice : EndpointSlice) :
    Index Network :=
  match slice.getServiceKey with
  | none => index
  | some servicekey =>
    updateIpIndex covers parseNetwork order index slice.getEndpointSliceIps ∅ servicekey

/-- The service is that of the new slice. -/
def doendpointSliceUpdated (order : RangeOrder String) (index : Index Network)
    (oldSlice newSlice : EndpointSlice) : Index Network :=
  match newSlice.getServiceKey with
  | none => index
  | some servicekey =>
    if oldSlice.getEndpointSliceIps ≠ newSlice.getEndpointSliceIps then
      updateIpIndex covers parseNetwork order index oldSlice.getEndpointSliceIps
        newSlice.getEndpointSliceIps servicekey
    else index

structure Controller where
  /-- The store of the informer. -/
  slices : List EndpointSlice
  endpointsIpIndex : Index Network

def start : Controller := ⟨[], Index.empty⟩

inductive Event where
  /-- A slice is added, or updated when there is one of its name. -/
  | set (order : RangeOrder String) (slice : EndpointSlice)
  | delete (order : RangeOrder String) (key : String)

def step (s : Controller) : Event → Controller
  | .set order slice =>
    ⟨setByKey EndpointSlice.key s.slices slice,
      match getByKey EndpointSlice.key s.slices slice.key with
      | none => endpointSliceAdded order s.endpointsIpIndex slice
      | some old => doendpointSliceUpdated order s.endpointsIpIndex old slice⟩
  | .delete order key =>
    match getByKey EndpointSlice.key s.slices key with
    | none => s
    | some slice =>
      ⟨removeByKey EndpointSlice.key s.slices key, endpointSliceDeleted order s.endpointsIpIndex slice⟩

/-- A current slice of the service lists the IP. -/
def Controller.Has (s : Controller) (servicekey : String) (ip : IP) : Prop :=
  ∃ slice ∈ s.slices, slice.getServiceKey = some servicekey ∧ slice.Lists ip

/-- The entry of an IP has exactly the services that have the IP. -/
def Controller.IndexExact (s : Controller) : Prop :=
  ∀ servicekey, ∀ ip : IP, ip.length = 16 →
    (servicekey ∈ s.endpointsIpIndex.keysAt (hostNetwork ip) ↔ s.Has servicekey ip)

/-- What an event drops from a slice is listed by no slice of the service afterwards, and an
update leaves the slice with its service. -/
def Unshared (s : Controller) : Event → Prop
  | .set _ slice =>
    ∀ old ∈ getByKey EndpointSlice.key s.slices slice.key,
      slice.getServiceKey = old.getServiceKey ∧
      ∀ text ∈ old.getEndpointSliceIps, text ∉ slice.getEndpointSliceIps → ∀ ip ∈ parseIP text,
        ¬ slice.Lists ip ∧ ∀ other ∈ s.slices, other.key ≠ slice.key →
          other.getServiceKey = slice.getServiceKey → ¬ other.Lists ip
  | .delete _ key =>
    ∀ old ∈ getByKey EndpointSlice.key s.slices key,
      ∀ text ∈ old.getEndpointSliceIps, ∀ ip ∈ parseIP text, ∀ other ∈ s.slices, other.key ≠ key →
        other.getServiceKey = old.getServiceKey → ¬ other.Lists ip

structure Inv (s : Controller) : Prop where
  nodup : (s.slices.map EndpointSlice.key).Nodup
  exact : s.IndexExact

/-- A slice with another key is of the service and lists the IP. -/
def Rest (s : Controller) (key servicekey : String) (ip : IP) : Prop :=
  ∃ other ∈ s.slices, other.key ≠ key ∧ other.getServiceKey = some servicekey ∧ other.Lists ip

variable {s : Controller}

theorem has_iff (hnodup : (s.slices.map EndpointSlice.key).Nodup) (key servicekey : String)
    (ip : IP) : s.Has servicekey ip ↔ (∃ slice ∈ getByKey EndpointSlice.key s.slices key,
        slice.getServiceKey = some servicekey ∧ slice.Lists ip) ∨ Rest s key servicekey ip := by
  constructor
  · rintro ⟨slice, hmem, hsvc, hip⟩
    by_cases hkey : slice.key = key
    · exact .inl ⟨slice, (getByKey_eq_some_iff hnodup).mpr ⟨hmem, hkey⟩, hsvc, hip⟩
    · exact .inr ⟨slice, hmem, hkey, hsvc, hip⟩
  · rintro (⟨slice, hget, hsvc, hip⟩ | ⟨other, hmem, -, hsvc, hip⟩)
    · exact ⟨slice, ((getByKey_eq_some_iff hnodup).mp hget).1, hsvc, hip⟩
    · exact ⟨other, hmem, hsvc, hip⟩

theorem has_set (s : Controller) (index : Index Network) (slice : EndpointSlice) (servicekey : String) (ip : IP) :
    Controller.Has ⟨setByKey EndpointSlice.key s.slices slice, index⟩ servicekey ip ↔
      (slice.getServiceKey = some servicekey ∧ slice.Lists ip) ∨ Rest s slice.key servicekey ip := by
  constructor
  · rintro ⟨x, hx, hsvc, hip⟩
    obtain rfl | ⟨hmem, hkey⟩ := mem_setByKey.mp hx
    · exact .inl ⟨hsvc, hip⟩
    · exact .inr ⟨x, hmem, hkey, hsvc, hip⟩
  · rintro (⟨hsvc, hip⟩ | ⟨other, hmem, hkey, hsvc, hip⟩)
    · exact ⟨slice, mem_setByKey.mpr (.inl rfl), hsvc, hip⟩
    · exact ⟨other, mem_setByKey.mpr (.inr ⟨hmem, hkey⟩), hsvc, hip⟩

theorem has_remove (s : Controller) (index : Index Network) (key servicekey : String) (ip : IP) :
    Controller.Has ⟨removeByKey EndpointSlice.key s.slices key, index⟩ servicekey ip ↔ Rest s key servicekey ip := by
  simp [Controller.Has, Rest, mem_removeByKey, and_assoc]

variable {slice : EndpointSlice}

/-- Without a slice of this key, only the rest has the IP. -/
theorem exact_added (hinv : Inv s) (order : RangeOrder String)
    (hget : getByKey EndpointSlice.key s.slices slice.key = none) :
    Controller.IndexExact ⟨setByKey EndpointSlice.key s.slices slice,
      endpointSliceAdded order s.endpointsIpIndex slice⟩ := by
  intro servicekey ip hip
  have hbefore := hinv.exact servicekey ip hip
  rw [has_iff hinv.nodup slice.key, hget] at hbefore
  rw [has_set]
  unfold endpointSliceAdded
  cases hsvc : slice.getServiceKey with
  | none => simpa using hbefore
  | some key =>
    rw [some_inj, eq_comm]
    refine mem_keysAt_replaced order _ plain_empty slice.plain_ips hip ?_ ?_
    · simpa [Listed] using hbefore
    · intro _ text h
      exact absurd h (Finset.notMem_empty _)

theorem exact_deleted (hinv : Inv s) (order : RangeOrder String) {key : String}
    (hget : getByKey EndpointSlice.key s.slices key = some slice) (hok : Unshared s (.delete order key)) :
    Controller.IndexExact ⟨removeByKey EndpointSlice.key s.slices key,
      endpointSliceDeleted order s.endpointsIpIndex slice⟩ := by
  intro servicekey ip hip
  have hbefore := hinv.exact servicekey ip hip
  rw [has_iff hinv.nodup key, hget] at hbefore
  rw [has_remove]
  unfold endpointSliceDeleted
  cases hsvc : slice.getServiceKey with
  | none => simpa [hsvc] using hbefore
  | some svc =>
    have hafter := @mem_keysAt_replaced order s.endpointsIpIndex slice.getEndpointSliceIps ∅
      slice.plain_ips plain_empty svc servicekey ip hip (Rest s key servicekey ip) ?_ ?_
    · simpa [Listed] using hafter
    · simpa [hsvc, eq_comm, EndpointSlice.Lists] using hbefore
    · rintro rfl text ht - hp
      refine ⟨by simp [Listed], ?_⟩
      rintro ⟨other, hmem, hkey, hosvc, hlists⟩
      exact hok slice hget text ht ip hp other hmem hkey (by rw [hosvc, hsvc]) hlists

theorem exact_updated (hinv : Inv s) (order : RangeOrder String) {old : EndpointSlice}
    (hget : getByKey EndpointSlice.key s.slices slice.key = some old) (hok : Unshared s (.set order slice)) :
    Controller.IndexExact ⟨setByKey EndpointSlice.key s.slices slice,
      doendpointSliceUpdated order s.endpointsIpIndex old slice⟩ := by
  intro servicekey ip hip
  obtain ⟨hsame, hdrop⟩ := hok old hget
  have hbefore := hinv.exact servicekey ip hip
  rw [has_iff hinv.nodup slice.key, hget] at hbefore
  rw [has_set]
  unfold doendpointSliceUpdated
  cases hsvc : slice.getServiceKey with
  | none => simpa [← hsame, hsvc] using hbefore
  | some svc =>
    have hbefore : servicekey ∈ s.endpointsIpIndex.keysAt (hostNetwork ip) ↔
        (servicekey = svc ∧ Listed old.getEndpointSliceIps ip) ∨ Rest s slice.key servicekey ip := by
      simpa [← hsame, hsvc, eq_comm, EndpointSlice.Lists] using hbefore
    rw [some_inj, @eq_comm _ svc]
    dsimp only
    split
    · refine mem_keysAt_replaced order _ old.plain_ips slice.plain_ips hip hbefore ?_
      rintro rfl text ht htn hp
      obtain ⟨hnew, hothers⟩ := hdrop text ht htn ip hp
      refine ⟨hnew, ?_⟩
      rintro ⟨other, hmem, hkey, hosvc, hlists⟩
      exact hothers other hmem hkey (by rw [hosvc, hsvc]) hlists
    · rename_i hips
      rw [not_not] at hips
      rw [hbefore, hips]
      rfl

theorem inv_step (hinv : Inv s) (e : Event) (hok : Unshared s e) : Inv (step s e) := by
  cases e with
  | set order slice =>
    refine ⟨nodup_setByKey hinv.nodup slice, ?_⟩
    dsimp only [step]
    cases hget : getByKey EndpointSlice.key s.slices slice.key with
    | none => exact exact_added hinv order hget
    | some old => exact exact_updated hinv order hget hok
  | delete order key =>
    dsimp only [step]
    cases hget : getByKey EndpointSlice.key s.slices key with
    | none => exact hinv
    | some slice => exact ⟨nodup_removeByKey hinv.nodup key, exact_deleted hinv order hget hok⟩

theorem inv_start : Inv start := by
  refine ⟨List.nodup_nil, ?_⟩
  intro servicekey ip _
  simp [start, Controller.Has]

instance (s : Controller) (e : Event) : Decidable (Unshared s e) := by
  cases e <;> unfold Unshared <;> infer_instance

/-- The index is exact after every run that drops from a slice only what no other slice of the
service lists. -/
theorem endpointSlices_run (events : List Event) (h : Along step Unshared start events) :
    (run step start events).IndexExact :=
  (@invariant_run _ _ step Unshared Inv (fun _ e hinv => inv_step hinv e) start events inv_start h).exact

def frontA : EndpointSlice where
  ns := "default"
  name := "front-a"
  serviceName := some "front"
  endpoints := [["10.0.0.1"], ["10.0.0.2"]]
  plain := by decide

def frontB : EndpointSlice where
  ns := "default"
  name := "front-b"
  serviceName := some "front"
  endpoints := [["10.0.0.2"]]
  plain := by decide

/-- The first slice without the address that both list. -/
def frontA1 : EndpointSlice where
  ns := "default"
  name := "front-a"
  serviceName := some "front"
  endpoints := [["10.0.0.1"]]
  plain := by decide

/-- An address moves from a slice to one that comes after it is gone from the first. -/
theorem endpointSlices_run_move :
    let events : List Event := [.set .sorted frontA, .set .sorted frontA1, .set .sorted frontB,
      .delete .sorted "default/front-a"]
    Along step Unshared start events ∧ (run step start events).IndexExact :=
  ⟨by decide +kernel, endpointSlices_run _ (by decide +kernel)⟩

/-- A service leaves the entry of an IP with an update of one of its slices, whatever the order
of the loops and whoever else lists the IP. -/
theorem notMem_frontA1 (order : RangeOrder String) (index : Index Network) : "default/front" ∉
      (doendpointSliceUpdated order index frontA frontA1).keysAt (hostNetwork (mapped 10 0 0 2)) := by
  have hupdate : doendpointSliceUpdated order index frontA frontA1 =
      updateIpIndex covers parseNetwork order index frontA.getEndpointSliceIps
        frontA1.getEndpointSliceIps "default/front" := by
    have hkey : frontA1.getServiceKey = some "default/front" := by decide
    have hips : frontA.getEndpointSliceIps ≠ frontA1.getEndpointSliceIps := by decide
    simp [doendpointSliceUpdated, hkey, if_pos hips]
  rw [hupdate, mem_keysAt_host order index frontA.plain_ips frontA1.plain_ips _ _ (by decide)]
  have hgone : ∃ text ∈ frontA.getEndpointSliceIps,
      text ∉ frontA1.getEndpointSliceIps ∧ parseIP text = some (mapped 10 0 0 2) := by decide
  have hnew : ¬ ∃ text ∈ frontA1.getEndpointSliceIps,
      text ∉ frontA.getEndpointSliceIps ∧ parseIP text = some (mapped 10 0 0 2) := by decide
  rintro (⟨-, hkept⟩ | ⟨-, hadded⟩)
  · exact hkept ⟨rfl, hgone⟩
  · exact hnew hadded

/-- With the second slice there first, the address is lost to the index when it leaves the first
one. -/
theorem endpointSlices_run_fails :
    ¬ (run step start [.set .sorted frontA, .set .sorted frontB, .set .sorted frontA1]).IndexExact := by
  intro h
  have hhas : (run step start [.set .sorted frontA, .set .sorted frontB,
      .set .sorted frontA1]).Has "default/front" (mapped 10 0 0 2) := ⟨frontB, by decide +kernel⟩
  exact notMem_frontA1 _ _ ((h "default/front" (mapped 10 0 0 2) (by decide)).mpr hhas)

end AciContainers.EndpointSlices
