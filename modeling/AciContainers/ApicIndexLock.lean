import AciContainers.ApicDnIndexExact

/-!
# The lock of the DN index

`doWriteApicObjects` holds the lock of the index while it looks up the redirect policies that
its comparison deletes, and returns with the lock held where one of them is not there. The
comparison goes by the objects of the key, the index is shared by all keys: what one key
still lists may have left the index with another key.
-/
namespace AciContainers.Apic

open Maps Merge Runs List

/-- The DNs that the stored level has without a partner in the new one, at this level or
below objects of one class that go together; objects of some classes are never dropped. -/
inductive Unmatched : List ApicObject → List ApicObject → String → Prop
  | alone {cs ds : List ApicObject} {c : ApicObject} (hc : .left c ∈ align cmpApicObject cs ds)
      (hdeletable : checkNonDeletable c.className = true) : Unmatched cs ds c.getDn
  | under {cs ds : List ApicObject} {c d : ApicObject} {dn : String} (hboth : .both c d ∈ align cmpApicObject cs ds)
      (hclass : c.className = d.className) (h : Unmatched c.children d.children dn) : Unmatched cs ds dn

theorem mem_levelDeletes_iff {cs ds : List ApicObject} {dn : String} :
    dn ∈ levelDeletes cs ds ↔ Unmatched cs ds dn := by
  constructor
  · have hchildren : ∀ (c : ApicObject) (ds : List ApicObject), dn ∈ levelDeletes c.children ds →
        Unmatched c.children ds dn := by
      intro c
      induction c using ApicObject.induction with
      | h c ih =>
        intro ds hdn
        rcases mem_levelDeletes hdn with ⟨a, ha, hdeletable, rfl⟩ | ⟨a, d, ha, hclass, hdn⟩
        · exact .alone ha hdeletable
        · exact .under ha hclass (ih a (mem_of_align_both ha).1 d.children hdn)
    intro hdn
    rcases mem_levelDeletes hdn with ⟨a, ha, hdeletable, rfl⟩ | ⟨a, d, ha, hclass, hdn⟩
    · exact .alone ha hdeletable
    · exact .under ha hclass (hchildren a d.children hdn)
  · intro h
    induction h with
    | alone hc hdeletable => exact levelDeletes_of_left hc hdeletable
    | under hboth hclass _ ih => exact levelDeletes_of_both hboth hclass ih

/-- At the roots nothing is dropped below a container. -/
def RootUnmatched (containerDns : String → Bool) (stored new : List ApicObject) (dn : String) : Prop :=
  (∃ c, .left c ∈ align cmpApicObject stored new ∧ checkNonDeletable c.className = true ∧ c.getDn = dn) ∨
    ∃ c d, .both c d ∈ align cmpApicObject stored new ∧ containerDns c.getDn = false ∧
      c.className = d.className ∧ Unmatched c.children d.children dn

theorem mem_diffDeletes_iff {containerDns : String → Bool} {stored new : List ApicObject} {dn : String} :
    dn ∈ (diffApicState containerDns stored new).deletes ↔ RootUnmatched containerDns stored new dn := by
  have hturn : ∀ x : Pairing ApicObject ApicObject, dn ∈ (rootDiff containerDns x).deletes ↔
      (∃ c, x = .left c ∧ checkNonDeletable c.className ∧ c.getDn = dn) ∨
      ∃ c d, x = .both c d ∧ containerDns c.getDn = false ∧ c.className = d.className ∧
        Unmatched c.children d.children dn := by
    intro x
    cases x with
    | left c =>
      simp only [rootDiff, extraDeletes, Pairing.left.injEq, reduceCtorEq, false_and, exists_false, or_false,
        ↓existsAndEq, true_and]
      split
      · next h => rw [mem_singleton, h, eq_self_iff_true, true_and, eq_comm]
      · next h => exact iff_of_false not_mem_nil fun hc => h hc.1
    | right d => simp [rootDiff]
    | both c d =>
      by_cases h : containerDns c.getDn
      · simp [rootDiff, h]
      · have hdeletes : (rootDiff containerDns (.both c d)).deletes = (apicObjCmp c d).deletes := by
          rw [rootDiff, if_neg h]
        rw [hdeletes, apicObjCmp_deletes]
        by_cases hclass : c.className = d.className
        · rw [if_pos hclass, mem_levelDeletes_iff]
          simp [h, hclass]
        · simp [hclass]
  simp only [diffApicState, flatMap_map, mem_flatMap, hturn, RootUnmatched]
  constructor
  · rintro ⟨x, hx, ⟨c, rfl, h⟩ | ⟨c, d, rfl, h⟩⟩
    · exact Or.inl ⟨c, hx, h⟩
    · exact Or.inr ⟨c, d, hx, h⟩
  · rintro (⟨c, hx, h⟩ | ⟨c, d, hx, h⟩)
    · exact ⟨_, hx, Or.inl ⟨c, rfl, h⟩⟩
    · exact ⟨_, hx, Or.inr ⟨c, d, rfl, h⟩⟩

theorem redirectDests_isSome_iff {index : DnIndex} {deletes : List String} :
    (redirectDests index deletes).isSome ↔ ∀ dn ∈ deletes, isRedirectPol dn → dn ∈ index := by
  unfold redirectDests
  induction deletes with
  | nil => simp
  | cons dn deletes ih =>
    rw [forall_mem_cons, ← ih]
    by_cases hpol : isRedirectPol dn
    · rw [filter_cons_of_pos hpol, mapM_cons, ← Finmap.lookup_isSome]
      cases index.lookup dn with
      | none => simp [hpol]
      | some o =>
        simp only [Option.bind_eq_bind, Option.bind_some, Option.isSome_some, implies_true, true_and]
        cases mapM (fun dn => index.lookup dn) (deletes.filter isRedirectPol) <;> rfl
    · simp [hpol]

/-- A write releases the lock if and only if the index has every redirect policy, and every
object below one, that the key drops. -/
theorem doWriteApicObjects_unlocks_iff (naming : Naming) (conn : Conn) (key : String)
    (objects : Option (List ApicObject)) (container : Bool) (h : conn.locked = false) :
    (conn.doWriteApicObjects naming key objects container).locked = false ↔
      ∀ dn, RootUnmatched conn.containerDns ((conn.desiredState key).getD [])
          (prepareApicSliceTag naming (naming.getTagFromKey key) (objects.getD [])) dn →
        isRedirectPol dn = true → dn ∈ conn.desiredStateDn := by
  have hdests := @redirectDests_isSome_iff conn.desiredStateDn
    (diffApicState conn.containerDns ((conn.desiredState key).getD [])
      (prepareApicSliceTag naming (naming.getTagFromKey key) (objects.getD []))).deletes
  simp only [mem_diffDeletes_iff] at hdests
  rw [← hdests, Conn.doWriteApicObjects, h]
  simp only [Bool.false_eq_true, if_false]
  split
  · next hnone => simp [hnone]
  · next dests hsome => simp [hsome]

/-- A redirect policy with a destination. -/
def redirectPol : ApicObject :=
  object "vnsSvcRedirectPol" "uni/tn-common/svcCont/svcRedirectPol-kube_svc" []
    [object "vnsRedirectDest" "uni/tn-common/svcCont/svcRedirectPol-kube_svc/RedirectDest_ip-[1.2.3.4]" [] []]

/-- Clearing the only key that has the policy. -/
theorem doWriteApicObjects_unlocks_first :
    let naming : Naming := ⟨"5.2", fun key => "kube-" ++ key⟩
    let conn := run (writeStep naming) (newConn true) [.writeApicObjects "svc" (some [redirectPol])]
    redirectPol.getDn ∈ conn.desiredStateDn ∧ (conn.doWriteApicObjects naming "svc" none false).locked = false := by
  intro naming conn
  have hdropped : ∀ dn ∈ (diffApicState conn.containerDns ((conn.desiredState "svc").getD [])
      (prepareApicSliceTag naming (naming.getTagFromKey "svc") [])).deletes,
      isRedirectPol dn = true → dn ∈ conn.desiredStateDn := by decide +kernel
  refine ⟨by decide +kernel, (doWriteApicObjects_unlocks_iff naming conn "svc" none false (by decide +kernel)).mpr ?_⟩
  exact fun dn hdn => hdropped dn (mem_diffDeletes_iff.mpr hdn)

/-- Two keys list one redirect policy and are cleared one after the other: the second time the
index does not have it any more. -/
theorem doWriteApicObjects_unlocks_fails :
    let naming : Naming := ⟨"5.2", fun key => "kube-" ++ key⟩
    let conn := run (writeStep naming) (newConn true)
      [.writeApicObjects "svc1" (some [redirectPol]), .writeApicObjects "svc2" (some [redirectPol]),
        .clearApicObjects "svc1"]
    conn.locked = false ∧ (conn.doWriteApicObjects naming "svc2" none false).locked = true := by
  decide +kernel

end AciContainers.Apic
