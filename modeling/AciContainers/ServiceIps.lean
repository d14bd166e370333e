import AciContainers.Maps
import AciContainers.IpCache

/-!
# Load-balancer addresses of services

`allocateServiceIps` and `clearLbService` of `pkg/controller/services.go`. A service
owns addresses of the dynamic pool in `ingressIps` and addresses of the static pool in
`staticIngressIps`; after a reconcile the first list contains the second one as well.
The results of the two kinds of status write, of the ingress list and of the condition,
are an argument.
-/
namespace AciContainers.Services

open Net Ipam Maps

structure ServiceMeta where
  requestedIps : List IP
  ingressIps : List IP
  staticIngressIps : List IP
  deriving DecidableEq

structure LoadBalancerIngress where
  ip : String
  hostname : String
  deriving DecidableEq

structure Condition where
  type : String
  status : String
  reason : String
  message : String
  deriving DecidableEq

/-- The parts of a service object that the allocation reads and writes. -/
structure Service where
  lbIps : Option String
  loadBalancerIP : String
  clusterIP : String
  clusterIPs : List String
  ingress : List LoadBalancerIngress
  conditions : List Condition
  deriving DecidableEq

structure Pools where
  serviceIps : IpCache
  staticServiceIps : NetPools
  deriving DecidableEq

structure State where
  pools : Pools
  serviceMetaCache : Map String ServiceMeta
  serviceSyncEnabled : Bool

/-- The index is never advanced: conditions of other types are moved to the front, but the
result ends there. -/
def removeAllConditions (conditions : List Condition) (conditionType : String) : List Condition :=
  let i := 0
  (conditions.foldl (fun cs cond => if cond.type ≠ conditionType then cs.set i cond else cs)
    conditions).take i

/-- The service with the condition, and whether the write failed. -/
def updateServiceCondition (service : Service) (success : Bool) (reason message : String)
    (writeOk : Bool) : Service × Bool :=
  let condition : Condition :=
    ⟨"LbIpamAllocation", if success then "True" else "False", reason,
      if success then "" else message⟩
  if condition ∈ service.conditions then (service, false)
  else
    let conditions := removeAllConditions service.conditions "LbIpamAllocation"
    ({ service with conditions := conditions ++ [condition] }, !writeOk)

/-- The conditions of other types stay, and one condition of the type has the result. -/
def ConditionSet (condition : Condition) (before after : List Condition) : Prop :=
  (after.filter fun c => c.type ≠ condition.type) = (before.filter fun c => c.type ≠ condition.type) ∧
    (after.filter fun c => c.type = condition.type) = [condition]

def allocationCondition (success : Bool) (reason message : String) : Condition :=
  ⟨"LbIpamAllocation", if success then "True" else "False", reason, if success then "" else message⟩

/-- Conditions of other types stay only when there is nothing to do or there are none. -/
theorem updateServiceCondition_set_iff (service : Service) (success : Bool) (reason message : String) (writeOk : Bool)
    (hone : (service.conditions.filter fun c => c.type = "LbIpamAllocation").length ≤ 1) :
    ConditionSet (allocationCondition success reason message) service.conditions
        (updateServiceCondition service success reason message writeOk).1.conditions ↔
      allocationCondition success reason message ∈ service.conditions ∨
        ∀ c ∈ service.conditions, c.type = "LbIpamAllocation" := by
  have hdef : (updateServiceCondition service success reason message writeOk).1.conditions =
      if allocationCondition success reason message ∈ service.conditions then service.conditions
      else [allocationCondition success reason message] := by
    unfold updateServiceCondition removeAllConditions allocationCondition
    rw [apply_ite Prod.fst, apply_ite Service.conditions]
    simp
  generalize hcond : allocationCondition success reason message = condition at hdef ⊢
  have htype : condition.type = "LbIpamAllocation" := by rw [← hcond]; rfl
  unfold ConditionSet
  rw [hdef, htype]
  by_cases hmem : condition ∈ service.conditions
  · have hfound : condition ∈ service.conditions.filter fun c => c.type = "LbIpamAllocation" := by
      simp [hmem, htype]
    obtain ⟨c, hc⟩ := List.length_eq_one_iff.mp (le_antisymm hone (List.length_pos_of_mem hfound))
    rw [hc, List.mem_singleton] at hfound
    rw [if_pos hmem, hc, hfound]
    simp [hfound ▸ hmem]
  · simp [hmem, htype, eq_comm (a := ([] : List Condition)), List.filter_eq_nil_iff]

/-- A condition that is there already, beside one of another type. -/
theorem updateServiceCondition_set_same : ConditionSet ⟨"LbIpamAllocation", "True", "Success", ""⟩
      [⟨"Ready", "True", "", ""⟩, ⟨"LbIpamAllocation", "True", "Success", ""⟩]
      (updateServiceCondition ⟨none, "", "", [], [],
        [⟨"Ready", "True", "", ""⟩, ⟨"LbIpamAllocation", "True", "Success", ""⟩]⟩ true "Success" ""
        true).1.conditions :=
  (updateServiceCondition_set_iff _ true "Success" "" true (by decide)).mpr (.inl (by decide))

/-- The condition of another type is lost. -/
theorem updateServiceCondition_set_fails :
    ¬ ConditionSet ⟨"LbIpamAllocation", "True", "Success", ""⟩ [⟨"Ready", "True", "", ""⟩]
      (updateServiceCondition ⟨none, "", "", [], [], [⟨"Ready", "True", "", ""⟩]⟩ true "Success" ""
        true).1.conditions := by
  unfold ConditionSet
  decide

def validateRequestedIpsLoop : List (List Char) → Option IP → Option IP →
    Option IP × Option IP × Bool
  | [], ipv4, ipv6 => (ipv4, ipv6, true)
  | lbIp :: rest, ipv4, ipv6 =>
    match parseIPChars lbIp with
    | none => validateRequestedIpsLoop rest ipv4 ipv6
    | some ip =>
      match family ip with
      | some true =>
        if ipv4.isNone then validateRequestedIpsLoop rest (some ip) ipv6 else (ipv4, ipv6, false)
      | some false =>
        if ipv6.isNone then validateRequestedIpsLoop rest ipv4 (some ip) else (ipv4, ipv6, false)
      | none => validateRequestedIpsLoop rest ipv4 ipv6

/-- At most one address of each family; the flag reports whether the list is valid. -/
def validateRequestedIps (lbIpList : List (List Char)) : Option IP × Option IP × Bool :=
  validateRequestedIpsLoop lbIpList none none

/-- The requested addresses; `none` is an invalid annotation. -/
def requestedIps (service : Service) : Option (List IP) :=
  match service.lbIps with
  | some lbIps =>
    match validateRequestedIps (splitOn ',' lbIps.toList) with
    | (ipv4, ipv6, true) => some (ipv4.toList ++ ipv6.toList)
    | (_, _, false) => none
  | none => some (parseIP service.loadBalancerIP).toList

/-- `RemoveIp` on the first list of the family. -/
def removeFirst (c : IpCache) (v4 : Bool) (ip : IP) : IpCache × Bool :=
  (c.setLists v4 ⟨((c.lists v4).front.removeIp ip).1, (c.lists v4).back⟩,
    ((c.lists v4).front.removeIp ip).2)

/-- Take an address of the status out of the pool it is free in. -/
def restoreIngress (acc : ServiceMeta × Pools) (ingress : LoadBalancerIngress) :
    ServiceMeta × Pools :=
  match parseIP ingress.ip with
  | none => acc
  | some ip =>
    match family ip with
    | none => acc
    | some v4 =>
      let first := removeFirst acc.2.serviceIps v4 ip
      if first.2 then
        ({ acc.1 with ingressIps := acc.1.ingressIps ++ [ip] },
          { acc.2 with serviceIps := first.1 })
      else
        let static := acc.2.staticServiceIps.removeIp v4 ip
        (if static.2 then { acc.1 with staticIngressIps := acc.1.staticIngressIps ++ [ip] }
          else acc.1,
          ⟨first.1, static.1⟩)

def readMeta (s : State) (servicekey : String) (service : Service) : ServiceMeta × Pools :=
  match s.serviceMetaCache servicekey with
  | some m => (m, s.pools)
  | none => service.ingress.foldl restoreIngress (⟨[], [], []⟩, s.pools)

/-- Both branches of `returnServiceIps` call `DeallocateIp`, which ignores other lengths too. -/
def returnServiceIps (c : IpCache) (ips : List IP) : IpCache := ips.foldl IpCache.deallocateIp c

def returnUnusedStaticIngressIps (pool : NetPools) (staticIngressIps requested : List IP) :
    NetPools :=
  staticIngressIps.foldl
    (fun p staticIp => if requested.any (equal · staticIp) then p else returnIps p [staticIp]) pool

/-- One requested address: it is kept if the service has it, else taken out of the static pool.
The second test also looks for an IPv4 address in the IPv6 pool. -/
def grantRequested (staticIngressIps : List IP) (acc : NetPools × List IP) (requestedIp : IP) :
    NetPools × List IP :=
  if requestedIp ∈ staticIngressIps then (acc.1, acc.2 ++ [requestedIp])
  else
    let first := if (to4 requestedIp).isSome then acc.1.removeIp true requestedIp
      else (acc.1, false)
    if first.2 then (first.1, acc.2 ++ [requestedIp])
    else
      let second := if (to16 requestedIp).isSome then first.1.removeIp false requestedIp
        else (first.1, false)
      (second.1, if second.2 then acc.2 ++ [requestedIp] else acc.2)

def grantAll (requested : List IP) (m : ServiceMeta) (p : Pools) : NetPools × List IP :=
  requested.foldl (grantRequested m.staticIngressIps) (p.staticServiceIps, [])

/-- What a request, or the end of an earlier one, does to the lists and the pools. -/
def applyRequest (requested : List IP) (m : ServiceMeta) (p : Pools) : ServiceMeta × Pools :=
  if requested ≠ [] then
    let granted := grantAll requested m p
    (⟨granted.2, [], granted.2⟩,
      ⟨returnServiceIps p.serviceIps m.ingressIps,
        returnUnusedStaticIngressIps granted.1 m.staticIngressIps granted.2⟩)
  else if m.requestedIps ≠ [] then
    ({ m with requestedIps := [], staticIngressIps := [] },
      { p with staticServiceIps := returnIps p.staticServiceIps m.staticIngressIps })
  else (m, p)

/-- The last address of each family in a list. -/
def lastOfFamily (ingressIps : List IP) (v4 : Bool) : Option IP :=
  (ingressIps.filter (fun ip => family ip = some v4)).getLast?

/-- The cluster addresses of the service. A second IPv4 address counts as the IPv6 one. -/
def clusterFamilies (service : Service) : Option IP × Option IP :=
  (service.clusterIP :: service.clusterIPs).foldl
    (fun acc ipStr =>
      match parseIP ipStr with
      | none => acc
      | some ip =>
        if (to4 ip).isSome && acc.1.isNone then (some ip, acc.2)
        else if (to16 ip).isSome && acc.2.isNone then (acc.1, some ip)
        else acc)
    (none, none)

def clusterFamily (service : Service) (v4 : Bool) : Option IP :=
  if v4 then (clusterFamilies service).1 else (clusterFamilies service).2

def removeIpFromIngressIPList (c : IpCache) (ingressIps : List IP) (ip : IP) : IpCache × List IP :=
  (returnServiceIps c [ip], ingressIps.eraseP (equal · ip))

/-- Allocate for a family that is missing, or give the last address of one that is gone back. -/
def familyStep (service : Service) (requested : List IP) (v4 : Bool) (current : Option IP)
    (acc : IpCache × List IP) : (IpCache × List IP) × Option IP :=
  match clusterFamily service v4, current with
  | some _, none =>
    if requested.length < 1 then
      let res := acc.1.allocateIp v4
      ((res.2, acc.2 ++ res.1.toList), res.1)
    else (acc, none)
  | none, some ip => (removeIpFromIngressIPList acc.1 acc.2 ip, some ip)
  | _, _ => (acc, current)

structure Outcome where
  state : State
  service : Service
  requeue : Bool

/-- The status of the service after its addresses are settled. -/
def publish (service : Service) (requested ingressIps : List IP) (writes : Bool × Bool) :
    Service × Bool :=
  let newIngress := ingressIps.map (fun ip => LoadBalancerIngress.mk (ipString ip) "")
  let changed := newIngress ≠ service.ingress
  let service' := { service with ingress := newIngress }
  if changed ∧ !writes.1 then (service', true)
  else if requested.length > 0 ∧ requested.length ≠ ingressIps.length then
    updateServiceCondition service' false "OneIpNotAllocatable"
      "One of the requested Ips is not allocatable" writes.2
  else updateServiceCondition service' true "Success" "" writes.2

def allocateServiceIps (s : State) (servicekey : String) (service : Service)
    (writes : Bool × Bool) : Outcome :=
  let read := readMeta s servicekey service
  let save (m : ServiceMeta) (p : Pools) : State :=
    { s with pools := p, serviceMetaCache := s.serviceMetaCache.put servicekey m }
  if !s.serviceSyncEnabled then ⟨save read.1 read.2, service, false⟩
  else
    match requestedIps service with
    | none =>
      let cond := updateServiceCondition service false "InvalidAnnotation"
        "Invalid Loadbalancer IP annotation" writes.2
      ⟨save read.1
        { read.2 with serviceIps := returnServiceIps read.2.serviceIps read.1.ingressIps },
        cond.1, cond.2⟩
    | some requested =>
      let req := applyRequest requested read.1 read.2
      if requested ≠ [] ∧ req.1.requestedIps.length < 1 then
        let cond := updateServiceCondition service false "RequestedIpsNotAllocatable"
          ("The requested ips for loadbalancer service are not available or not in " ++
            "extern static range") writes.2
        ⟨save req.1 req.2, cond.1, cond.2⟩
      else
        let ingressIps := req.1.ingressIps ++ req.1.staticIngressIps
        let four := familyStep service requested true (lastOfFamily ingressIps true)
          (req.2.serviceIps, ingressIps)
        let six := familyStep service requested false (lastOfFamily ingressIps false) four.1
        let state := save { req.1 with ingressIps := six.1.2 }
          { req.2 with serviceIps := six.1.1 }
        if four.2.isNone ∧ six.2.isNone then ⟨state, service, true⟩
        else
          let status := publish service requested six.1.2 writes
          ⟨state, status.1, status.2⟩

def clearLbService (s : State) (servicekey : String) : State :=
  match s.serviceMetaCache servicekey with
  | none => s
  | some m =>
    { s with
      pools := ⟨returnServiceIps s.pools.serviceIps m.ingressIps,
        returnIps s.pools.staticServiceIps m.staticIngressIps⟩
      serviceMetaCache := s.serviceMetaCache.erase servicekey }

/-- The service address part of `initIpam`, with service sync enabled. -/
def initIpam (serviceIpPool staticServiceIpPool : List IpRange) : State where
  pools := ⟨newIpCache.loadRanges serviceIpPool, loadIpRanges newNetIps staticServiceIpPool⟩
  serviceMetaCache := Map.empty
  serviceSyncEnabled := true

inductive Event where
  | allocateServiceIps (servicekey : String) (service : Service) (writes : Bool × Bool)
  | clearLbService (servicekey : String)
  deriving DecidableEq

def step (s : State) : Event → State
  | .allocateServiceIps servicekey service writes =>
    (allocateServiceIps s servicekey service writes).state
  | .clearLbService servicekey => clearLbService s servicekey

/-!
# Families of the ingress addresses

The families of the addresses that `allocateServiceIps` leaves a service that requests none. The
code takes the second IPv4 address among `ClusterIP` and `ClusterIPs` for an IPv6 address, and the
API repeats `ClusterIP` as the first of `ClusterIPs`.
-/

open List

/-- How many addresses of a family a list has. -/
def ofFamily (v4 : Bool) (ips : List IP) : Nat := ips.countP fun ip => family ip = some v4

def clusterIps (service : Service) : List IP := (service.clusterIP :: service.clusterIPs).filterMap parseIP

variable {service : Service} {v : Bool} {ips : List IP}

/-- The families that one address adds to those found before it. -/
def addCluster (acc : Option IP × Option IP) (ip : IP) : Option IP × Option IP :=
  if (to4 ip).isSome && acc.1.isNone then (some ip, acc.2)
  else if (to16 ip).isSome && acc.2.isNone then (acc.1, some ip)
  else acc

theorem clusterFamilies_eq (service : Service) :
    clusterFamilies service = (clusterIps service).foldl addCluster (none, none) := by
  rw [clusterFamilies, clusterIps, foldl_filterMap]
  congr 1
  funext acc text
  cases parseIP text <;> rfl

theorem family_sixteen {ip : IP} (h : ip.length = 16) : family ip = some (to4 ip).isSome := by
  have h16 : (to16 ip).isSome := by simp [to16, h]
  cases h4 : (to4 ip).isSome <;> simp [family, h4, h16]

/-- Each family counts the addresses that came before; an IPv4 address too many is an IPv6 one. -/
theorem foldl_addCluster (hips : ∀ ip ∈ ips, ip.length = 16) (acc : Option IP × Option IP) :
    ((ips.foldl addCluster acc).1.isSome ↔ acc.1.isSome ∨ 0 < ofFamily true ips) ∧
    ((ips.foldl addCluster acc).2.isSome ↔ acc.2.isSome ∨ 0 < ofFamily false ips ∨
      2 ≤ ofFamily true ips + acc.1.toList.length) := by
  induction ips generalizing acc with
  | nil =>
    obtain ⟨a, b⟩ := acc
    cases a <;> simp [ofFamily]
  | cons ip ips ih =>
    rw [forall_mem_cons] at hips
    have hfam := family_sixteen hips.1
    have h16 : (to16 ip).isSome := by simp [to16, hips.1]
    obtain ⟨hfour, hsix⟩ := ih hips.2 (addCluster acc ip)
    rw [foldl_cons, hfour, hsix]
    obtain ⟨a, b⟩ := acc
    cases h4 : (to4 ip).isSome with
    | true =>
      cases a with
      | none => simp [addCluster, h4, ofFamily, hfam]
      | some a =>
        cases b with
        | none => simp [addCluster, h4, h16, ofFamily, hfam]
        | some b => simp [addCluster, ofFamily, hfam]
    | false =>
      cases b with
      | none => simp [addCluster, h4, h16, ofFamily, hfam]
      | some b => simp [addCluster, h4, ofFamily, hfam]

theorem length_clusterIps : ∀ ip ∈ clusterIps service, ip.length = 16 := by
  intro ip hip
  obtain ⟨text, -, hparse⟩ := mem_filterMap.mp hip
  exact length_parseIP hparse

theorem clusterFamily_isSome : (clusterFamily service v).isSome ↔
      0 < ofFamily v (clusterIps service) ∨ (v = false ∧ 2 ≤ ofFamily true (clusterIps service)) := by
  obtain ⟨hfour, hsix⟩ := foldl_addCluster (@length_clusterIps service) (none, none)
  rw [clusterFamily, clusterFamilies_eq]
  cases v with
  | true => simpa using hfour
  | false => simpa using hsix

theorem family_of_equal {ip x : IP} (h : equal x ip) : family x = family ip := by
  unfold equal at h
  split at h
  · rw [decide_eq_true_iff.mp h]
  · split at h
    · next hlen =>
      have hmap := (decide_eq_true_iff.mp h).1
      simp [family, to4, hlen.1, hlen.2, hmap]
    · split at h
      · next hlen =>
        have hmap := (decide_eq_true_iff.mp h).1
        simp [family, to4, hlen.1, hlen.2, hmap]
      · simp at h

theorem ofFamily_cons (w : Bool) (x : IP) (l : List IP) :
    ofFamily w (x :: l) = ofFamily w l + if family x = some w then 1 else 0 := by
  simp [ofFamily, countP_cons]

/-- One address of the family goes. -/
theorem ofFamily_eraseP {ip : IP} (hmem : ip ∈ ips) (hfam : family ip = some v) (w : Bool) :
    ofFamily w (ips.eraseP (equal · ip)) = if w = v then ofFamily w ips - 1 else ofFamily w ips := by
  induction ips with
  | nil => exact absurd hmem not_mem_nil
  | cons x l ih =>
    by_cases hx : equal x ip
    · rw [eraseP_cons_of_pos (p := (equal · ip)) hx, ofFamily_cons, family_of_equal hx, hfam]
      by_cases hw : w = v
      · simp [hw]
      · have hvw : ¬ v = w := fun e => hw e.symm
        simp [hw, hvw]
    · have hself : equal ip ip := by simp [equal]
      have hl : ip ∈ l := by
        rcases mem_cons.mp hmem with rfl | hl
        · exact absurd hself hx
        · exact hl
      have hpos : 0 < ofFamily v l := countP_pos_iff.mpr ⟨ip, hl, by simpa using hfam⟩
      rw [eraseP_cons_of_neg (p := (equal · ip)) hx, ofFamily_cons, ih hl, ofFamily_cons]
      by_cases hw : w = v
      · subst hw
        simp only [if_true]
        omega
      · simp [hw]

theorem lastOfFamily_eq_none : lastOfFamily ips v = none ↔ ofFamily v ips = 0 := by
  simp [lastOfFamily, ofFamily, countP_eq_zero]

theorem lastOfFamily_eq_some {ip : IP} (h : lastOfFamily ips v = some ip) :
    ip ∈ ips ∧ family ip = some v ∧ 0 < ofFamily v ips := by
  have hmem := mem_filter.mp (mem_of_getLast? h)
  exact ⟨hmem.1, by simpa using hmem.2, countP_pos_iff.mpr ⟨ip, hmem⟩⟩

/-- The pool gives addresses of the family that it is asked for. -/
def Typed (c : IpCache) : Prop := ∀ v ip, (c.allocateIp v).1 = some ip → family ip = some v

/-- What the step of a family leaves, of both families. -/
theorem ofFamily_familyStep {acc : IpCache × List IP}
    (htyped : ∀ ip, (acc.1.allocateIp v).1 = some ip → family ip = some v)
    (hmem : ∀ ip, lastOfFamily ips v = some ip → ip ∈ acc.2) (w : Bool) :
    ofFamily w (familyStep service [] v (lastOfFamily ips v) acc).1.2 = if w = v then
        if (clusterFamily service v).isSome then
          if ofFamily v ips = 0 then ofFamily v acc.2 + (acc.1.allocateIp v).1.toList.length else ofFamily v acc.2
        else if ofFamily v ips = 0 then ofFamily v acc.2 else ofFamily v acc.2 - 1 else ofFamily w acc.2 := by
  unfold familyStep
  cases hlast : lastOfFamily ips v with
  | none =>
    have hzero := lastOfFamily_eq_none.mp hlast
    cases clusterFamily service v with
    | none => by_cases hw : w = v <;> simp [hzero, hw]
    | some c =>
      cases hip : (acc.1.allocateIp v).1 with
      | none => by_cases hw : w = v <;> simp [hip, hzero, hw]
      | some ip =>
        have hfam := htyped ip hip
        by_cases hw : w = v
        · have happ : ofFamily v (acc.2 ++ [ip]) = ofFamily v acc.2 + 1 := by simp [ofFamily, hfam]
          simp [hip, hzero, hw, happ]
        · have hvw : ¬ v = w := fun e => hw e.symm
          simp [hip, hw, ofFamily, hfam, hvw]
  | some ip =>
    obtain ⟨-, hfam, hpos⟩ := lastOfFamily_eq_some hlast
    have hne : ¬ ofFamily v ips = 0 := by omega
    cases clusterFamily service v with
    | some c => by_cases hw : w = v <;> simp [hne, hw]
    | none =>
      simp only [removeIpFromIngressIPList, ofFamily_eraseP (hmem ip hlast) hfam]
      by_cases hw : w = v <;> simp [hne, hw]

/-- At most one address of each family, and of no family that the cluster addresses do not have. -/
def FamilyLaw (service : Service) (ingressIps : List IP) : Prop :=
  ∀ v, ofFamily v ingressIps ≤ 1 ∧ (0 < ofFamily v ingressIps → 0 < ofFamily v (clusterIps service))

/-- The addresses that the service has before the families are settled. -/
def keptIps (s : State) (servicekey : String) (service : Service) : List IP :=
  let m := (applyRequest [] (readMeta s servicekey service).1 (readMeta s servicekey service).2).1
  m.ingressIps ++ m.staticIngressIps

/-- The pool that addresses are allocated from. -/
def poolOf (s : State) (servicekey : String) (service : Service) : IpCache :=
  (readMeta s servicekey service).2.serviceIps

theorem serviceIps_applyRequest_nil (m : ServiceMeta) (p : Pools) :
    (applyRequest [] m p).2.serviceIps = p.serviceIps := by
  unfold applyRequest
  split
  · next h => exact absurd rfl h
  · split <;> rfl

/-- The ingress list of a service without requested addresses. -/
def settledIps (service : Service) (c : IpCache) (kept : List IP) : List IP :=
  (familyStep service [] false (lastOfFamily kept false)
    (familyStep service [] true (lastOfFamily kept true) (c, kept)).1).1.2

theorem ingressIps_allocateServiceIps {s : State} {servicekey : String} (hsync : s.serviceSyncEnabled)
    (hrequested : requestedIps service = some []) (writes : Bool × Bool) :
    ((allocateServiceIps s servicekey service writes).state.serviceMetaCache servicekey).map ServiceMeta.ingressIps =
      some (settledIps service (poolOf s servicekey service) (keptIps s servicekey service)) := by
  rw [settledIps, poolOf, keptIps, ← serviceIps_applyRequest_nil (readMeta s servicekey service).1]
  simp only [allocateServiceIps, hsync, hrequested, Bool.not_true, Bool.false_eq_true, if_false, ne_eq,
    not_true_eq_false, false_and]
  split <;> simp

theorem allocateIp_other (c : IpCache) : (((c.allocateIp true).2).allocateIp false).1 = (c.allocateIp false).1 := by
  simp [IpCache.allocateIp]

theorem lists_deallocateIp {c : IpCache} {ip : IP} (h : family ip = some true) :
    (c.deallocateIp ip).lists false = c.lists false := by
  simp [IpCache.deallocateIp, h]

/-- The step for IPv4 leaves the IPv6 lists alone. -/
theorem allocateIp_familyStep (c : IpCache) (kept : List IP) :
    ((familyStep service [] true (lastOfFamily kept true) (c, kept)).1.1.allocateIp false).1 =
      (c.allocateIp false).1 := by
  unfold familyStep
  cases hlast : lastOfFamily kept true with
  | none => cases clusterFamily service true <;> simp [allocateIp_other]
  | some ip =>
    have hfam := (lastOfFamily_eq_some hlast).2.1
    cases clusterFamily service true with
    | none =>
      simp [removeIpFromIngressIPList, returnServiceIps, IpCache.allocateIp, lists_deallocateIp hfam]
    | some c => simp

/-- And the IPv6 addresses. -/
theorem mem_familyStep {ip : IP} (c : IpCache) {kept : List IP} (hmem : ip ∈ kept) (hfam : family ip = some false) :
    ip ∈ (familyStep service [] true (lastOfFamily kept true) (c, kept)).1.2 := by
  unfold familyStep
  cases hlast : lastOfFamily kept true with
  | none => cases clusterFamily service true <;> simp [hmem]
  | some x =>
    cases clusterFamily service true with
    | some c => simpa using hmem
    | none =>
      refine (mem_eraseP_of_neg fun he => ?_).mpr hmem
      have hx := (lastOfFamily_eq_some hlast).2.1
      rw [← family_of_equal he, hfam] at hx
      simp at hx

/-- The law holds when the service had at most one address of each family and, if its cluster
addresses are IPv4 more than once and never IPv6, has and gets no IPv6 address. -/
theorem ingress_families_iff (s : State) (servicekey : String) (service : Service) (writes : Bool × Bool)
    (hsync : s.serviceSyncEnabled = true) (hrequested : requestedIps service = some [])
    (htyped : Typed (poolOf s servicekey service)) :
    (∃ m, (allocateServiceIps s servicekey service writes).state.serviceMetaCache servicekey = some m ∧
      FamilyLaw service m.ingressIps) ↔ (∀ v, ofFamily v (keptIps s servicekey service) ≤ 1) ∧
      (ofFamily false (clusterIps service) = 0 → 2 ≤ ofFamily true (clusterIps service) →
        ofFamily false (keptIps s servicekey service) = 0 ∧
          ((poolOf s servicekey service).allocateIp false).1 = none) := by
  obtain ⟨m, hm, hlist⟩ := Option.map_eq_some_iff.mp
    (@ingressIps_allocateServiceIps service s servicekey hsync hrequested writes)
  generalize hkept : keptIps s servicekey service = kept at hlist ⊢
  generalize poolOf s servicekey service = c at htyped hlist ⊢
  have hfour := @ofFamily_familyStep service true kept (c, kept) (htyped true)
    fun ip hip => (lastOfFamily_eq_some hip).1
  have hsix := @ofFamily_familyStep service false kept
    (familyStep service [] true (lastOfFamily kept true) (c, kept)).1
    (fun ip hip => htyped false ip ((allocateIp_familyStep c kept).symm.trans hip))
    fun ip hip => mem_familyStep c (lastOfFamily_eq_some hip).1 (lastOfFamily_eq_some hip).2.1
  have hone : ∀ ip : Option IP, ip.toList.length = if ip = none then 0 else 1 := by
    intro ip
    cases ip <;> rfl
  have hlaw : (∃ m, (allocateServiceIps s servicekey service writes).state.serviceMetaCache servicekey = some m ∧
      FamilyLaw service m.ingressIps) ↔ FamilyLaw service (settledIps service c kept) := by
    rw [hm]
    simp [hlist]
  have htrue := @clusterFamily_isSome service true
  have hfalse := @clusterFamily_isSome service false
  rw [hlaw, FamilyLaw, Bool.forall_bool, Bool.forall_bool, settledIps, hsix true, hsix false, hfour true,
    hfour false, allocateIp_familyStep, hone, hone]
  simp only [Bool.true_eq_false, Bool.false_eq_true, if_false, if_true, false_and, or_false, true_and] at htrue hfalse ⊢
  simp only [htrue, hfalse]
  by_cases hpool : (c.allocateIp false).1 = none
  · simp only [hpool, if_true, and_true]
    split_ifs <;> omega
  · simp only [hpool, if_false, and_false, imp_false, not_le]
    split_ifs <;> omega

/-- A service with one IPv4 address, as the API writes it. -/
def webService (clusterIPs : List String) : Service := ⟨none, "", "10.96.0.1", clusterIPs, [], []⟩

/-- One address of each family is free. -/
def dualPool : State :=
  initIpam [⟨(parseIP "10.3.0.1").getD [], (parseIP "10.3.0.1").getD []⟩,
    ⟨(parseIP "2001:db8::1").getD [], (parseIP "2001:db8::1").getD []⟩] []

theorem typed_dualPool : Typed dualPool.pools.serviceIps := by
  have hgives : ∀ v, ((dualPool.pools.serviceIps.allocateIp v).1).map family = some (some v) := by decide +kernel
  intro v ip hip
  have hv := hgives v
  rw [hip] at hv
  exact Option.some.inj hv

/-- A dual-stack service gets an address of each family. -/
theorem ingress_families_dual :
    ∃ m, (allocateServiceIps dualPool "default/web" (webService ["10.96.0.1", "2001:db8:1::1"])
      (true, true)).state.serviceMetaCache "default/web" = some m ∧
        FamilyLaw (webService ["10.96.0.1", "2001:db8:1::1"]) m.ingressIps :=
  (ingress_families_iff dualPool "default/web" (webService ["10.96.0.1", "2001:db8:1::1"]) (true, true) rfl
    (by decide +kernel) typed_dualPool).mpr (by decide +kernel)

/-- An IPv4 service gets an IPv6 address. -/
theorem ingress_families_fails :
    let outcome := allocateServiceIps dualPool "default/web" (webService ["10.96.0.1"]) (true, true)
    outcome.requeue = false ∧ outcome.service.ingress.map LoadBalancerIngress.ip = ["10.3.0.1", "2001:db8::1"] ∧
      ofFamily false (clusterIps (webService ["10.96.0.1"])) = 0 := by
  decide +kernel

end AciContainers.Services
