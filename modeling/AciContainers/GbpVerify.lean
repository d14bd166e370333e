import AciContainers.GbpEncaps

/-!
# Verification of the policy database

`Verify` asks for a parent of every object that is not of a listed class. The root of the tree is
in the database from the start, is not of such a class and has no parent. No message replaces or
removes it: deletion only follows children and targets, which are other objects.
-/
namespace AciContainers.Gbp

open Maps Net Outcomes Option
open List hiding splitOn

variable {bds : BDSubnet} {cfg : Config} {name : String} {db : Db} {g : Mo} {ws : List Write} {u p t : String}
  {s : Server}

def rootUri := "/"

/-- The URI is longer than that of the root. -/
def Long (u : String) : Prop := 1 < u.length

theorem Long.ne_root (h : Long u) : u ≠ rootUri := by
  rintro rfl
  unfold Long at h
  revert h
  decide +kernel

theorem Long.append (h : Long p) (t : String) : Long (p ++ t) := by
  unfold Long at *
  rw [String.length_append]
  omega

/-- The URI of an object below another one, by class and name. -/
theorem Long.segment (h : Long p) (cls name slash : String) : Long (p ++ cls ++ name ++ slash) :=
  ((h.append cls).append name).append slash

theorem long_tenantUri (tenant : String) : Long (tenantUri tenant) := by
  have hspace : Long "/PolicyUniverse/PolicySpace/" := by
    unfold Long
    decide +kernel
  exact (hspace.append tenant).append "/"

/-- A last segment that is a name stays the last one. -/
theorem long_joinUri (h : splitOn '/' name.toList = [name.toList])
    (hname : name.toList ≠ [] ∧ name.toList ≠ ['.'] ∧ name.toList ≠ ['.', '.']) : Long (joinUri u name) := by
  have hlist : (u ++ "/" ++ name).toList = u.toList ++ '/' :: name.toList := by simp
  have hclean : cleanSegments (u ++ "/" ++ name).toList = name.toList :: cleanSegments u.toList := by
    rw [hlist, cleanSegments_append, h]
    simp [cleanStep, hname]
  unfold Long joinUri
  rw [hclean, String.length_ofList]
  simp only [reverse_cons, flatMap_append, flatMap_cons, flatMap_nil, length_append, length_cons, append_nil]
  omega

theorem long_eicUri : Long (eicUri u) := long_joinUri (by decide) (by decide)

theorem long_netRsUri : Long (bds.netRsUri cfg) :=
  long_joinUri (by decide) (by decide)

theorem long_bdnwUri : Long (bds.bdnwUri cfg) :=
  long_joinUri (by decide) (by decide)

def Property.plain (p : Property) : Bool :=
  match p.value with
  | .refVal _ => false
  | _ => true

@[simp] theorem plain_str (data : String) : (Property.str name data).plain = true := rfl
@[simp] theorem plain_int (data : Int) : (Property.int name data).plain = true := rfl

theorem getTarget_plain (h : ∀ p ∈ g.properties, p.plain) : g.getTarget = none := by
  unfold Mo.getTarget
  cases hfind : g.properties.find? (·.name = propTarget) with
  | none => rfl
  | some p =>
    have hp := h p (mem_of_find?_eq_some hfind)
    obtain ⟨name, value⟩ := p
    cases value with
    | refVal r => cases hp
    | strVal _ => rfl
    | intVal _ => rfl

/-- The object is not the root and neither lists nor targets it. -/
structure Mo.Away (g : Mo) : Prop where
  uri : g.uri ≠ rootUri
  children : rootUri ∉ g.children
  target : g.getTarget ≠ some rootUri

theorem Mo.away_of_plain (huri : Long g.uri) (hchildren : ∀ c ∈ g.children, Long c)
    (h : ∀ p ∈ g.properties, p.plain) : g.Away :=
  ⟨huri.ne_root, fun hc => (hchildren _ hc).ne_root rfl, by simp [getTarget_plain h]⟩

theorem away_toMo {refSubj : Subject} {target : Reference} {parent : Parent} (huri : Long u)
    (h : target.referenceUri ≠ rootUri) : (toMo refSubj u target parent).Away :=
  ⟨huri.ne_root, by simp [toMo], by simpa [toMo, Mo.getTarget, Property.ref] using h⟩

def Write.Away : Write → Prop
  | .save g => g.Away
  | .addChild _ c => c ≠ rootUri

theorem away_linked (h : g.Away) : ∀ x ∈ linked u g, x.Away := by
  simp [linked, Write.Away, h, h.uri]

/-- The root is there, without a parent, and no other object leads to it. -/
structure Rooted (db : Db) : Prop where
  keyed : Keyed db
  root : ∃ g, db rootUri = some g ∧ g.subject = .root ∧ g.parent = none
  away : ∀ u g, db u = some g → rootUri ∉ g.children ∧ g.getTarget ≠ some rootUri

variable (h : Rooted db)
include h

theorem Rooted.away_of_ne (hu : u ≠ rootUri) (hg : db u = some g) : g.Away :=
  ⟨h.keyed u g hg ▸ hu, (h.away u g hg).1, (h.away u g hg).2⟩

theorem Rooted.put (hg : g.Away) (hu : g.uri = u) : Rooted (Map.put db u g) := by
  subst hu
  refine ⟨h.keyed.put rfl, ?_, fun k x hx => ?_⟩
  · rw [put_other _ _ hg.uri.symm]
    exact h.root
  · by_cases hk : k = g.uri
    · rw [hk, put_same, some_inj] at hx
      exact hx ▸ ⟨hg.children, hg.target⟩
    · exact h.away k x ((put_other _ _ hk).symm.trans hx)

theorem Rooted.erase (hu : u ≠ rootUri) : Rooted (Map.erase db u) := by
  refine ⟨h.keyed.erase u, ?_, fun k x hx => ?_⟩
  · rw [erase_other _ hu.symm]
    exact h.root
  · by_cases hk : k = u
    · rw [hk, erase_same] at hx
      cases hx
    · exact h.away k x ((erase_other _ hk).symm.trans hx)

theorem Rooted.addChild {c : String} (hc : c ≠ rootUri) : Rooted (db.addChild u c) := by
  refine ⟨h.keyed.write (.addChild u c), ?_, fun k x hx => ?_⟩
  · obtain ⟨g, hg, hroot⟩ := h.root
    by_cases hu : rootUri = u
    · subst hu
      exact ⟨g.addChild c, by rw [addChild_same, hg]; rfl, hroot⟩
    · exact ⟨g, by rw [addChild_other _ _ hu, hg], hroot⟩
  · by_cases hk : k = u
    · subst hk
      rw [addChild_same, map_eq_some_iff] at hx
      obtain ⟨y, hy, rfl⟩ := hx
      obtain ⟨hchildren, htarget⟩ := h.away k y hy
      refine ⟨?_, htarget⟩
      simp [Mo.addChild, hchildren, hc.symm]
    · exact h.away k x ((addChild_other _ _ hk).symm.trans hx)

theorem Rooted.writes (hws : ∀ x ∈ ws, x.Away) : Rooted (db.writes ws) := by
  refine writes_invariant h fun db x hx h => ?_
  cases x with
  | save g => exact h.put (hws _ hx) rfl
  | addChild u c => exact h.addChild (hws _ hx)

omit h

theorem Rooted.delRecursive (depth : Nat) {g : Mo} {db : Db} (h : Rooted db) (hg : g.Away) :
    Ends (fun _ => True) Rooted (Gbp.delRecursive depth g db) := by
  induction depth generalizing g db with
  | zero => trivial
  | succ depth ih =>
    rw [Gbp.delRecursive]
    split
    · exact h
    · -- the children, then the target, then the object itself
      refine (Ends.foldlM h fun db c hc h => ?_).bind fun db₁ h₁ => ?_
      · cases hdb : db c with
        | none => exact h
        | some cMo => exact ih h (h.away_of_ne (fun e => hg.children (e ▸ hc)) hdb)
      · cases ht : g.getTarget.bind db₁ with
        | none => exact h₁.erase hg.uri
        | some rMo =>
          obtain ⟨ref, href, hdb⟩ := bind_eq_some_iff.mp ht
          refine (ih h₁ (h₁.away_of_ne (fun e => hg.target (e ▸ href)) hdb)).bind fun db₂ h₂ => ?_
          exact h₂.erase hg.uri

theorem Rooted.deleteTree (h : Rooted db) (depth : Nat) (hu : u ≠ rootUri) :
    Ends (fun _ => True) Rooted (Gbp.deleteTree depth u db) := by
  rw [Gbp.deleteTree]
  cases hg : db u with
  | none => exact h
  | some g => exact h.delRecursive depth (h.away_of_ne hu hg)

theorem EPG.long_getURI (e : EPG) : Long e.getURI := (long_tenantUri e.tenant).segment _ _ _

theorem rooted_delete (e : EPG) (h : Rooted s.policyDB) : Rooted (e.delete s).policyDB := by
  rw [EPG.delete]
  cases hg : s.policyDB e.getURI with
  | none => exact h
  | some base =>
    have hne : e.getURI ≠ rootUri := e.long_getURI.ne_root
    refine Rooted.erase ?_ hne
    refine @foldl_invariant _ _ (fun s : Server => Rooted s.policyDB) _ _ _ h fun s c hc hs => ?_
    rw [policyDB_deleteChild]
    exact hs.erase fun e' => (h.away _ _ hg).1 (e' ▸ hc)

theorem away_addSubnet {ssUri uri : String} (h : Long uri) : ∀ x ∈ addSubnet ssUri name uri, x.Away := by
  unfold addSubnet
  cases hsub : makeSubnet name uri with
  | none => simp [Write.Away, rootUri]
  | some sub =>
    refine away_linked ?_
    unfold makeSubnet at hsub
    split at hsub
    · split at hsub
      · obtain rfl := some.inj hsub
        exact Mo.away_of_plain h (by simp) (by simp)
      · cases hsub
    · cases hsub

theorem away_actionRef (tenantName : String) (pSubj : Subject) (h : Long p) :
    ∀ x ∈ addActionRef tenantName pSubj p, x.Away := by
  have huri : Long (actionUri tenantName) := (long_tenantUri _).append _
  refine forall_mem_cons.mpr ⟨Mo.away_of_plain huri (by simp [actionMo]) (by simp [actionMo]), ?_⟩
  exact away_linked (away_toMo (h.segment _ _ _) huri.ne_root)

namespace Contract

variable (c : Contract)

theorem long_getURI : Long c.getURI := (long_tenantUri c.tenant).segment _ _ _

theorem long_getFilterURI : Long c.getFilterURI := ((c.long_getURI.segment _ _ _).append _).append _

theorem away_ruleWrites (r : WLRule) (dir : String) : ∀ x ∈ c.ruleWrites r dir, x.Away := by
  have huri : Long (c.getClassifierURI dir r) := (long_tenantUri c.tenant).segment _ _ _
  refine forall_mem_cons.mpr ⟨Mo.away_of_plain huri (by simp [classifier]) ?_, ?_⟩
  · have hports : ∀ p ∈ portProperties r dir, p.plain := by
      unfold portProperties
      split <;> split <;> simp
    simp only [classifier, forall_mem_append]
    refine ⟨⟨by simp, ?_⟩, hports⟩
    split <;> simp
  · exact away_linked (away_toMo (c.long_getFilterURI.segment _ _ _) huri.ne_root)

theorem away_allWrites (tenantName : String) : ∀ x ∈ c.allWrites tenantName, x.Away := by
  have hsubj : Long c.subjURI := c.long_getURI.segment _ _ _
  simp only [allWrites, treeWrites, forall_mem_append, forall_mem_cons, forall_mem_flatMap]
  refine ⟨⟨⟨?_, ?_, ?_⟩, fun r _ => c.away_ruleWrites r.1 r.2⟩, away_actionRef _ _ c.long_getFilterURI⟩
  · exact Mo.away_of_plain c.long_getURI (by simp [contractMo]) (by simp [contractMo])
  · exact away_linked (Mo.away_of_plain hsubj (by simp [subjMo]) (by simp [subjMo]))
  · exact away_linked (Mo.away_of_plain c.long_getFilterURI (by simp [filterMo]) (by simp [filterMo]))

end Contract

namespace HpSubjChild

variable (hsc : HpSubjChild) (tenantName : String)

theorem long_classifierUri (cname : String) : Long (classifierUri tenantName cname) :=
  (long_tenantUri tenantName).segment _ _ _

theorem away_classifier (order : RangeOrder String) (cname : String) :
    (hsc.classifier tenantName order cname).Away := by
  have hattr : ∀ key prop, attrToProperties hsc.attributes key = some prop → prop.plain := by
    intro key prop h
    unfold attrToProperties at h
    split at h
    · obtain rfl := some.inj h
      rfl
    · split at h
      · obtain ⟨data, -, rfl⟩ := map_eq_some_iff.mp h
        rfl
      · split at h
        · split at h
          all_goals first | (obtain rfl := some.inj h; rfl) | cases h
        · cases h
  have hport : ∀ apicName gbpName, ∀ prop ∈ hsc.portProperty apicName gbpName, prop.plain := by
    intro apicName gbpName
    unfold portProperty
    dsimp only
    split <;> simp
  refine Mo.away_of_plain (long_classifierUri tenantName cname) (by simp [classifier]) ?_
  simp only [classifier, forall_mem_cons, forall_mem_append, mem_filterMap]
  exact ⟨rfl, ⟨fun prop ⟨key, _, h⟩ => hattr key prop h, hport _ _⟩, hport _ _⟩

theorem away_addSubnets {pUri : String} (h : Long pUri) (name : String) :
    ∀ x ∈ hsc.addSubnets tenantName pUri name, x.Away := by
  have hset : Long (subnetSetUri tenantName name) := (long_tenantUri tenantName).segment _ _ _
  simp only [addSubnets, forall_mem_append, forall_mem_cons, forall_mem_flatMap]
  exact ⟨⟨Mo.away_of_plain hset (by simp [subnetSet]) (by simp [subnetSet]),
    fun addr _ => away_addSubnet (hset.segment _ _ _)⟩, away_linked (away_toMo (h.segment _ _ _) hset.ne_root)⟩

theorem away_make (order : RangeOrder String) {ruleUri : String} (h : Long ruleUri) (subjName npName : String) :
    ∀ x ∈ hsc.make tenantName order ruleUri subjName npName, x.Away := by
  simp only [make, forall_mem_append, forall_mem_cons]
  have htocf : Long (tocfURI ruleUri (hsc.classifierName subjName npName)) := (h.append _).append _
  exact ⟨hsc.away_classifier tenantName order _,
    ⟨away_linked (away_toMo htocf (long_classifierUri tenantName _).ne_root), away_actionRef _ _ h⟩,
    hsc.away_addSubnets tenantName h _⟩

end HpSubjChild

variable {pSub : Subject} {more : List Property}

theorem HpSubj.away_makeRules (hs : HpSubj) (tenantName : String) (order : RangeOrder String) {hsUri : String}
    (h : Long hsUri) (npName : String) (cList : List HpSubjChild) :
    ∀ x ∈ (hs.makeRules tenantName order hsUri npName cList).1, x.Away := by
  induction cList with
  | nil => simp [HpSubj.makeRules]
  | cons c cList ih =>
    rw [HpSubj.makeRules]
    split
    · simp
    · have hrule : Long (c.ruleUri hsUri) := h.segment _ _ _
      simp only [forall_mem_append]
      refine ⟨⟨away_linked ?_, c.away_make tenantName order hrule _ _⟩, ih⟩
      exact Mo.away_of_plain hrule (by simp [HpSubjChild.ruleMo]) (by simp [HpSubjChild.ruleMo])

theorem NetworkPolicy.long_uriOf (tenantName name : String) : Long (uriOf tenantName name) :=
  (long_tenantUri tenantName).segment _ _ _

theorem NetworkPolicy.away_make (np : NetworkPolicy) (tenantName : String) (order : RangeOrder String) :
    ∀ x ∈ (np.make tenantName order).1, x.Away := by
  have hgroup : (np.groupMo tenantName).Away :=
    Mo.away_of_plain (long_uriOf tenantName np.name) (by simp [groupMo]) (by simp [groupMo])
  rw [NetworkPolicy.make]
  split
  · simp
  · cases np.hostprotPol.getChild "hostprotSubj" with
    | none => simpa [Write.Away] using hgroup
    | some c =>
      have hsubj : Long (np.subjUri tenantName c) := (long_uriOf tenantName np.name).segment _ _ _
      dsimp only
      split
      · simpa [Write.Away] using hgroup
      · simp only [forall_mem_cons, forall_mem_append]
        refine ⟨hgroup, away_linked ?_, c.away_makeRules tenantName order hsubj np.name _⟩
        exact Mo.away_of_plain hsubj (by simp [subjMo]) (by simp [subjMo])

theorem away_eicMo {enc : Int} {classID : Nat} (h : ∀ p ∈ more, p.plain) : (eicMo pSub u enc classID more).Away := by
  refine Mo.away_of_plain long_eicUri (by simp [eicMo]) ?_
  simpa [eicMo] using h

theorem rooted_writes (h : Rooted s.policyDB) (hws : ∀ x ∈ ws, x.Away) : Rooted (s.writes ws).policyDB :=
  h.writes hws

theorem rooted_createEIC {draws : Nat → Fin numClassIDs} (h : Rooted s.policyDB) (hmore : ∀ p ∈ more, p.plain) :
    Ends (fun _ => True) (fun s' => Rooted s'.policyDB) (createEIC draws pSub u more s) := by
  cases hget : s.getEncapClass draws (eicUri u) with
  | error fault => simp [createEIC, hget, error_bind, ends_error]
  | ok r =>
    obtain ⟨c, s₁⟩ := r
    have hdb : s₁.policyDB = s.policyDB := by
      rcases getEncapClass_cases hget with hold | hnew
      · rw [hold.2]
      · exact hnew.2.2.2.1
    have h₁ : Rooted s₁.policyDB := hdb ▸ h
    have hmake : createEIC draws pSub u more s =
        .ok (s₁.writes [.save (eicMo pSub u (encapFromClass c) c more)]) := by
      simp [createEIC, hget, ok_bind]
    rw [hmake]
    exact rooted_writes h₁ (forall_mem_singleton.mpr (away_eicMo hmore))

namespace BDSubnet

variable (bds : BDSubnet) (cfg : Config)

theorem away_createSubnet : ∀ x ∈ bds.createSubnet cfg, x.Away := by
  have hset : Long (bds.subnetsUri cfg) := (long_tenantUri _).segment _ _ _
  refine forall_mem_cons.mpr ⟨?_, away_addSubnet (hset.segment _ _ _)⟩
  exact Mo.away_of_plain hset (by simp [HpSubjChild.subnetSet]) (by simp [HpSubjChild.subnetSet])

theorem away_bdWrites : ∀ x ∈ bds.bdWrites cfg ++ bds.createFD cfg, x.Away := by
  have hset : Long (bds.subnetsUri cfg) := (long_tenantUri _).segment _ _ _
  have hvrf : Long cfg.vrfUri := (long_tenantUri _).segment _ _ _
  have hbd : Long (bds.bdUri cfg) := (long_tenantUri _).segment _ _ _
  have hfd : Long (bds.fdUri cfg) := (long_tenantUri _).segment _ _ _
  simp only [bdWrites, createFD, forall_mem_append, forall_mem_cons]
  refine ⟨⟨?_, ?_, ?_, by simp⟩, ?_, ?_, ?_, by simp⟩
  · exact away_toMo (long_netRsUri) hset.ne_root
  · exact away_toMo (long_bdnwUri) hvrf.ne_root
  · exact Mo.away_of_plain hbd (by simp [bdMo, long_eicUri, long_netRsUri, long_bdnwUri]) (by simp [bdMo])
  · exact Mo.away_of_plain (hfd.append _) (by simp [fdMcastMo]) (by simp [fdMcastMo])
  · exact away_toMo (hfd.append _) hbd.ne_root
  · refine Mo.away_of_plain hfd ?_ (by simp [fdMo])
    simp only [fdMo, forall_mem_cons]
    exact ⟨hfd.append _, hfd.append _, by simp⟩

variable (draws : Nat → Fin numClassIDs)

theorem rooted_setup (h : Rooted s.policyDB) : Ends (fun _ => True) (fun s' => Rooted s'.policyDB)
    (bds.setup cfg draws s) := by
  refine (rooted_createEIC (rooted_writes h (bds.away_createSubnet cfg)) (by simp)).bind fun s₁ h₁ => ?_
  exact rooted_writes h₁ (bds.away_bdWrites cfg)

theorem rooted_createEPG (name : String) (hu : Long u) (h : Rooted s.policyDB) :
    Ends (fun _ => True) (fun s' => Rooted s'.policyDB) (bds.createEPG cfg draws name u s) := by
  refine (rooted_createEIC h (by simp)).bind fun s₁ h₁ => rooted_writes h₁ ?_
  have hset : Long (bds.subnetsUri cfg) := (long_tenantUri _).segment _ _ _
  have hfd : Long (bds.fdUri cfg) := (long_tenantUri _).segment _ _ _
  simp only [epgWrites, forall_mem_cons, forall_mem_append]
  refine ⟨Mo.away_of_plain hu (by simp [epgMo, long_eicUri]) (by simp [epgMo]), away_linked ?_, away_linked ?_⟩
  · exact away_toMo (hu.append _) hfd.ne_root
  · exact away_toMo (hu.append _) hset.ne_root

end BDSubnet

namespace EPG

variable {gSubj refSubj : Subject} {currentC : Finmap fun _ : String => String}

theorem rooted_addRefs (hu : Long u) {targets : List String} (ht : ∀ tgt ∈ targets, tgt ≠ rootUri) {db : Db}
    (h : Rooted db) : Rooted (addRefs u gSubj refSubj currentC targets db) := by
  induction targets generalizing db with
  | nil => exact h
  | cons tgt rest ih =>
    rw [forall_mem_cons] at ht
    rw [addRefs]
    split
    · exact ih ht.2 h
    · unfold addRef
      cases db tgt with
      | none => exact h
      | some targetMo =>
        have href : Long (u ++ refSubj.text ++ "/288/" ++ escapeName (targetMo.getStringProperty propName) ++ "/") :=
          (hu.append _).segment _ _ _
        exact ih ht.2 ((h.put (away_toMo href ht.1) rfl).addChild href.ne_root)

theorem rooted_dropChild (ref : String) (hu : u ≠ rootUri) (h : Rooted db) :
    Ends (fun _ => True) Rooted (dropChild u ref db) := by
  rw [dropChild]
  cases hg : db u with
  | none => exact h
  | some g =>
    have haway := h.away_of_ne hu hg
    refine (mem_delChild ref g.children).bind fun children hsub => ?_
    exact h.put ⟨haway.uri, fun hc => haway.children (hsub _ hc), haway.target⟩ (h.keyed u g hg)

theorem rooted_dropRefs (hu : u ≠ rootUri) (hC : ∀ tgt, (currentC.lookup tgt).getD "" ≠ rootUri)
    (desiredC : Finset String) (targets : List String) {db : Db} (h : Rooted db) :
    Ends (fun _ => True) Rooted (dropRefs u currentC desiredC targets db) := by
  induction targets generalizing db with
  | nil => exact h
  | cons tgt rest ih =>
    rw [dropRefs]
    split
    · exact ih h
    · exact (rooted_dropChild _ hu h).bind fun db' h' => ih (h'.erase (hC tgt))

/-- The references of a group are among its children. -/
theorem getRefURIs_ne {children : List String} (hchildren : rootUri ∉ children)
    {result refs : Finmap fun _ : String => String} (hresult : ∀ tgt, (result.lookup tgt).getD "" ≠ rootUri)
    (h : getRefURIs db refSubj children result = some refs) (tgt : String) : (refs.lookup tgt).getD "" ≠ rootUri := by
  induction children generalizing result with
  | nil =>
    obtain rfl := some.inj h
    exact hresult tgt
  | cons c children ih =>
    rw [mem_cons, not_or] at hchildren
    rw [getRefURIs] at h
    split at h
    · cases h
    · split at h
      · split at h
        · cases h
        · next target _ =>
          refine ih hchildren.2 (fun k => ?_) h
          by_cases hk : k = target
          · rw [hk, Finmap.lookup_insert]
            exact fun e => hchildren.1 e.symm
          · rw [Finmap.lookup_insert_of_ne _ hk]
            exact hresult k
      · exact ih hchildren.2 hresult h

variable (e : EPG)

theorem long_contractURI (name : String) : Long (e.contractURI name) := by
  unfold contractURI
  split
  · exact (long_tenantUri _).segment _ _ _
  · exact (long_tenantUri _).segment _ _ _

theorem rooted_setContracts (orders : LoopOrders) (contracts : List String) (h : Rooted db) :
    Ends (fun _ => True) Rooted (e.setContracts orders contracts refSubj db) := by
  have hu := e.long_getURI
  unfold setContracts
  cases hg : db e.getURI with
  | none => exact h
  | some mo =>
    dsimp only
    cases hrefs : getRefURIs db refSubj mo.children ∅ with
    | none => exact h
    | some currentC =>
      have hC := getRefURIs_ne (h.away _ _ hg).1 (by simp [rootUri]) hrefs
      refine (rooted_dropRefs hu.ne_root hC _ _ h).bind fun db' h' => ?_
      refine rooted_addRefs hu (fun tgt htgt => ?_) h'
      rw [orders.desired.mem_visit, getContractURIs, List.mem_toFinset] at htgt
      obtain ⟨name, -, rfl⟩ := mem_map.mp htgt
      exact (e.long_contractURI name).ne_root

theorem rooted_make (w : World) (bds : Option BDSubnet) (cons prov : LoopOrders) (h : Rooted s.policyDB) :
    Ends (fun _ => True) (fun s' => Rooted s'.policyDB) (e.make w bds cons prov s) := by
  have hcreate : Ends (fun _ => True) (fun s' => Rooted s'.policyDB) (e.create w bds s) := by
    unfold create
    split
    · exact h
    · exact BDSubnet.rooted_createEPG _ _ _ _ e.long_getURI h
  refine hcreate.bind fun s₁ h₁ => ?_
  have hcontracts : Ends (fun _ => True) Rooted (e.setAllContracts cons prov s₁.policyDB) :=
    (e.rooted_setContracts cons _ h₁).bind fun db₂ h₂ => e.rooted_setContracts prov _ h₂
  exact hcontracts.bind fun db h => h

end EPG

variable {pSubj childSub : Subject} {pUri : String}

theorem rooted_addContract (cfg : Config) (c : Contract) (h : Rooted s.policyDB) :
    Rooted (s.addContract cfg c).policyDB := by
  rw [addContract_eq]
  exact rooted_writes h (c.away_allWrites _)

theorem rooted_handleMsg (w : World) (msg : Msg) (h : Rooted s.policyDB) :
    Ends (fun _ => True) (fun s' => Rooted s'.policyDB) (handleMsg w s msg) := by
  cases msg with
  | addEPG epg cons prov => exact epg.rooted_make w none cons prov h
  | delEPG epg => exact rooted_delete epg h
  | addContract c => exact rooted_addContract w.config c h
  | delContract c => exact (h.deleteTree w.depth c.long_getURI.ne_root).bind fun db h => h
  | addNetPol np order => exact rooted_writes h (np.away_make _ order)
  | delNetPol dn => exact (h.deleteTree w.depth (NetworkPolicy.long_uriOf _ _).ne_root).bind fun db h => h

theorem away_rootChild {properties : List Property} (hu : Long u) (h : ∀ p ∈ properties, p.plain) :
    ∀ x ∈ rootChild pSubj pUri childSub u properties, x.Away :=
  away_linked (Mo.away_of_plain hu (by simp) h)

theorem away_rootRef {target : Reference} (hu : Long u) (h : target.referenceUri ≠ rootUri) :
    ∀ x ∈ rootChild pSubj pUri childSub u [.ref propTarget target], x.Away :=
  away_linked ⟨hu.ne_root, by simp, by simpa [Mo.getTarget, Property.ref] using h⟩

theorem long_rootUris : Long "/DomainConfig/" ∧ Long "/InvUniverse/" ∧ Long "/PolicyUniverse/" ∧
    Long "/InvUniverse/InvRemoteEndpointInventory/" ∧ Long "/DomainConfig/DomainConfigToConfigRSrc/" ∧
    Long "/DomainConfig/DomainConfigToRemoteEndpointInventoryRSrc/" ∧ Long "/PolicyUniverse/PlatformConfig/" := by
  unfold Long
  decide +kernel

theorem rooted_root : Rooted (Db.save Map.empty { subject := .root, uri := rootUri }) := by
  refine ⟨keyed_empty.write (.save _), ⟨_, save_same _ _, rfl, rfl⟩, fun k g hg => ?_⟩
  by_cases hk : k = rootUri
  · rw [hk] at hg
    obtain rfl := some.inj ((save_same Map.empty { subject := .root, uri := rootUri }).symm.trans hg)
    simp [Mo.getTarget]
  · rw [save_other _ _ hk] at hg
    cases hg

theorem rooted_createRoot (cfg : Config) : Rooted (Db.writes Map.empty (createRoot cfg ++ createDefVrf cfg)) := by
  obtain ⟨hdomain, hinv, hpolicy, hremote, hconfig, hinventory, hplatform⟩ := long_rootUris
  have hconf : Long cfg.pConfURI := (hplatform.append _).append _
  have hvrf : Long cfg.vrfUri := (long_tenantUri _).segment _ _ _
  rw [createRoot, cons_append, writes_cons]
  refine rooted_root.writes ?_
  simp only [createDefVrf, forall_mem_append, forall_mem_cons]
  refine ⟨⟨⟨⟨⟨⟨⟨?_, ?_⟩, ?_⟩, ?_⟩, ?_⟩, ?_⟩, ?_⟩, ?_, ?_, by simp⟩
  · exact away_rootChild hdomain (by simp)
  · exact away_rootChild hinv (by simp)
  · exact away_rootChild hpolicy (by simp)
  · exact away_rootChild hconf (by simp)
  · exact away_rootChild hremote (by simp)
  · exact away_rootRef hconfig hconf.ne_root
  · exact away_rootRef hinventory hremote.ne_root
  · exact away_eicMo (by simp)
  · exact Mo.away_of_plain hvrf (by simp [long_eicUri]) (by simp)

theorem rooted_start (w : World) (state : ClassIDs) (drawn : Nat) :
    Ends (fun _ => True) (fun s => Rooted s.policyDB) (start w state drawn) := by
  rw [start, initDB]
  refine (w.config.podBDS.rooted_setup w.config w.draws (rooted_createRoot w.config)).bind fun s₁ h₁ => ?_
  refine (w.config.nodeBDS.rooted_setup w.config w.draws h₁).bind fun s₂ h₂ => ?_
  have h₃ := rooted_addContract w.config (anyContract w.config) h₂
  generalize s₂.addContract w.config (anyContract w.config) = s₃ at h₃ ⊢
  exact Ends.foldlM h₃ fun s e _ h => e.1.rooted_make w e.2 w.orders w.orders h

theorem Rooted.verify_root (h : Rooted db) : ∃ g, db rootUri = some g ∧ g.verify db = false := by
  obtain ⟨g, hg, hsubject, hparent⟩ := h.root
  exact ⟨g, hg, by simp [Mo.verify, hsubject, hparent, Subject.needParent]⟩

/-- After any messages there is an object that does not pass: the root. -/
theorem verify_fails (w : World) (state : ClassIDs) (drawn : Nat) (msgs : List Msg) (s₀ s : Server)
    (h₀ : start w state drawn = .ok s₀) (hs : msgs.foldlM (handleMsg w) s₀ = .ok s) :
    ¬ ∀ u g, s.policyDB u = some g → g.verify s.policyDB = true := by
  have hrun : Ends (fun _ => True) (fun s : Server => Rooted s.policyDB) (msgs.foldlM (handleMsg w) s₀) :=
    Ends.foldlM ((rooted_start w state drawn).of_ok h₀) fun _ msg _ h => rooted_handleMsg w msg h
  obtain ⟨g, hg, hfalse⟩ := (hrun.of_ok hs).verify_root
  intro hall
  cases hfalse.symm.trans (hall rootUri g hg)

theorem foldlM_handleMsg (w : World) (s : Server) (msg : Msg) : [msg].foldlM (handleMsg w) s = handleMsg w s msg := by
  exact bind_pure (handleMsg w s msg)

theorem verify_fails_contract : ∃ s₀ s, start plainWorld ∅ 0 = .ok s₀ ∧
    [Msg.addContract (anyContract plainWorld.config)].foldlM (handleMsg plainWorld) s₀ = .ok s ∧
    ¬ ∀ u g, s.policyDB u = some g → g.verify s.policyDB = true := by
  obtain ⟨s₀, h₀, -⟩ := start_plainWorld
  have hs := foldlM_handleMsg plainWorld s₀ (.addContract (anyContract plainWorld.config))
  exact ⟨s₀, _, h₀, hs, verify_fails plainWorld ∅ 0 _ s₀ _ h₀ hs⟩

/-- The root after the deletion of a group of the initial database. -/
theorem verify_root_fails : ∃ s₀ s, start plainWorld ∅ 0 = .ok s₀ ∧
    [Msg.delEPG (defaultEpg plainWorld.config "kubernetes|kube-default")].foldlM (handleMsg plainWorld) s₀ = .ok s ∧
    ∃ g, s.policyDB "/" = some g ∧ g.verify s.policyDB = false := by
  obtain ⟨s₀, h₀, -⟩ := start_plainWorld
  have hs := foldlM_handleMsg plainWorld s₀ (.delEPG (defaultEpg plainWorld.config "kubernetes|kube-default"))
  exact ⟨s₀, _, h₀, hs, (rooted_delete _ ((rooted_start plainWorld ∅ 0).of_ok h₀)).verify_root⟩

end AciContainers.Gbp
