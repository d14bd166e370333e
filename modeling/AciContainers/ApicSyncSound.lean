import AciContainers.ApicMetadata

/-!
# The difference brings the current state to the desired one

A level is reconciled when every current object without a desired partner is deleted unless its
class forbids it, every pair agrees after the deletes, with an update merged into it where there
is one, and every desired object without a partner is among the updates. Distinct DNs keep the
deletes of one subtree out of the others.
-/
namespace AciContainers.Apic

open Maps Merge List

/-- The attributes of a class that are compared, with their defaults. -/
def compared (className : String) : List (String × String) :=
  ((metadata className).map ApicMeta.attributes).getD []

/-- The same annotation, and the same value for every attribute of the metadata. -/
def BodyAgrees (className : String) (there desired : Attributes) : Prop :=
  (∀ a ∈ compared className, there.read a.1 a.2 = desired.read a.1 a.2) ∧
  (annotated className = true → there.read "annotation" "" = desired.read "annotation" "")

/-- What is there without being desired may not be deleted. -/
def OnlyNonDeletable (desired there : List ApicObject) : Prop :=
  ∀ o ∈ there, o.getDn ∉ desired.map ApicObject.getDn → checkNonDeletable o.className = false

mutual

/-- An object that is there agrees with a desired one, with all that is below. -/
def Agrees : ApicObject → ApicObject → Prop
  | ⟨className, _, attributes, children⟩, there =>
    there.className = className ∧ BodyAgrees className there.attributes attributes ∧
      AgreesEach children there.children ∧ OnlyNonDeletable children there.children

def AgreesEach : List ApicObject → List ApicObject → Prop
  | [], _ => True
  | d :: ds, there =>
    ((∃ o ∈ there, o.getDn = d.getDn) ∧ ∀ o ∈ there, o.getDn = d.getDn → Agrees d o) ∧
      AgreesEach ds there

end

variable {os current desired : List ApicObject} {parent : Option String} {o c d a b : ApicObject}
  {className : String} {bodyd : Attributes}

/-- The forest that is there has the objects of the desired one, in their places and with
their attributes, and beyond them only objects that may not be deleted. -/
def Reconciled (desired there : List ApicObject) : Prop :=
  AgreesEach desired there ∧ OnlyNonDeletable desired there

theorem agrees_iff (d o : ApicObject) :
    Agrees d o ↔ o.className = d.className ∧ BodyAgrees d.className o.attributes d.attributes ∧
      Reconciled d.children o.children := by
  cases d
  rfl

theorem agreesEach_iff (ds there : List ApicObject) : AgreesEach ds there ↔ ∀ d ∈ ds, (∃ o ∈ there, o.getDn = d.getDn) ∧
      ∀ o ∈ there, o.getDn = d.getDn → Agrees d o := by
  induction ds with
  | nil => simp [AgreesEach]
  | cons d ds ih => rw [AgreesEach, ih, forall_mem_cons]

/-- Siblings are sorted by DN. -/
def Sorted (os : List ApicObject) : Prop := os.Pairwise fun a b => a.getDn < b.getDn

instance (os : List ApicObject) : Decidable (Sorted os) :=
  inferInstanceAs (Decidable (os.Pairwise fun a b => a.getDn < b.getDn))

/-- Where an update lacks an attribute, or the annotation, what is there has the default. -/
def Kept (className : String) (there desired : Attributes) : Prop :=
  (∀ a ∈ compared className, desired a.1 = none → there.read a.1 a.2 = .str a.2) ∧
  (annotated className = true → desired "annotation" = none → there.read "annotation" "" = .str "")

instance (className : String) (there desired : Attributes) :
    Decidable (Kept className there desired) :=
  inferInstanceAs (Decidable (_ ∧ _))

/-- No service graph attachment is customised. -/
def NoCustomGraph (parent : Option String) (os : List ApicObject) : Prop :=
  ∀ x ∈ placesAll os parent, x.2.className = "vzRsSubjGraphAtt" → x.2.attributes "customSG" = none

instance (parent : Option String) (os : List ApicObject) : Decidable (NoCustomGraph parent os) :=
  inferInstanceAs (Decidable (∀ x ∈ placesAll os parent, _ → _))

structure WellFormed (parent : Option String) (os : List ApicObject) : Prop where
  sorted : Sorted os
  below : ∀ x ∈ placesAll os parent, Sorted x.2.children
  once : (dns os parent).Nodup
  known : ∀ x ∈ placesAll os parent, (metadata x.2.className).isSome
  custom : NoCustomGraph parent os

/-- A DN has the same class and the same parent in both forests. -/
structure Comparable (parent : Option String) (current desired : List ApicObject) : Prop where
  left : WellFormed parent current
  right : WellFormed parent desired
  places : ∀ x ∈ placesAll current parent, ∀ y ∈ placesAll desired parent,
    x.2.getDn = y.2.getDn → x.1 = y.1 ∧ x.2.className = y.2.className

/-- Attributes that an update would leave behind have their default. -/
def KeptAll (parent : Option String) (current desired : List ApicObject) : Prop :=
  ∀ x ∈ placesAll current parent, ∀ y ∈ placesAll desired parent,
    x.2.getDn = y.2.getDn → Kept x.2.className x.2.attributes y.2.attributes

instance (parent : Option String) (current desired : List ApicObject) :
    Decidable (KeptAll parent current desired) :=
  inferInstanceAs (Decidable (∀ x ∈ placesAll current parent, ∀ y ∈ placesAll desired parent, _ → _))

theorem placesAll_children (ho : o ∈ os) {x : Option String × ApicObject}
    (hx : x ∈ placesAll o.children (some o.getDn)) :
    x ∈ placesAll os parent := mem_placesAll.mpr ⟨o, ho, .inr hx⟩

theorem placesAll_root (parent : Option String) (ho : o ∈ os) :
    (parent, o) ∈ placesAll os parent := mem_placesAll.mpr ⟨o, ho, .inl rfl⟩

theorem dns_eq (os : List ApicObject) (parent : Option String) :
    dns os parent = os.flatMap fun o => o.getDn :: dns o.children (some o.getDn) := by
  induction os with
  | nil => simp [dns, placesAll]
  | cons o os ih =>
    rw [flatMap_cons, ← ih]
    simp [dns, placesAll, places_eq]

theorem WellFormed.children (h : WellFormed parent os) (ho : o ∈ os) : WellFormed (some o.getDn) o.children where
  sorted := h.below _ (placesAll_root parent ho)
  below x hx := h.below x (placesAll_children ho hx)
  once := by
    have honce := h.once
    rw [dns_eq, nodup_flatMap] at honce
    exact (nodup_cons.mp (honce.1 o ho)).2
  known x hx := h.known x (placesAll_children ho hx)
  custom x hx := h.custom x (placesAll_children ho hx)

theorem Comparable.children (h : Comparable parent current desired) (hc : c ∈ current)
    (hd : d ∈ desired) (hdn : c.getDn = d.getDn) : Comparable (some c.getDn) c.children d.children where
  left := h.left.children hc
  right := hdn ▸ h.right.children hd
  places x hx y hy := h.places x (placesAll_children hc hx) y (placesAll_children hd (hdn ▸ hy))

theorem KeptAll.children (h : KeptAll parent current desired) (hc : c ∈ current) (hd : d ∈ desired)
    (hdn : c.getDn = d.getDn) : KeptAll (some c.getDn) c.children d.children :=
  fun x hx y hy => h x (placesAll_children hc hx) y (placesAll_children hd (hdn ▸ hy))

theorem Sorted.nodup (h : Sorted os) : (os.map ApicObject.getDn).Nodup :=
  pairwise_map.mpr (h.imp fun hlt => hlt.ne)

theorem Sorted.eq_of_getDn (h : Sorted os) (ha : a ∈ os) (hb : b ∈ os) (hdn : a.getDn = b.getDn) : a = b :=
  inj_on_of_nodup_map h.nodup ha hb hdn

section

variable (h : WellFormed parent os) (ha : a ∈ os) (hb : b ∈ os)
include h ha hb

/-- Different roots have no DN in common, not even below them. -/
theorem WellFormed.disjoint (hab : a ≠ b) :
    List.Disjoint (a.getDn :: dns a.children (some a.getDn)) (b.getDn :: dns b.children (some b.getDn)) := by
  have honce := h.once
  rw [dns_eq, nodup_flatMap] at honce
  have hsymm : Std.Symm (Function.onFun List.Disjoint
      fun o : ApicObject => o.getDn :: dns o.children (some o.getDn)) := ⟨fun _ _ hd => hd.symm⟩
  exact honce.2.forall ha hb hab

/-- A root is not below any root. -/
theorem WellFormed.root_not_below : a.getDn ∉ dns b.children (some b.getDn) := by
  by_cases hab : a = b
  · have honce := h.once
    rw [dns_eq, nodup_flatMap] at honce
    rw [hab]
    exact (nodup_cons.mp (honce.1 b hb)).1
  · exact fun hmem => h.disjoint ha hb hab mem_cons_self (mem_cons_of_mem _ hmem)

/-- A DN is below one root only. -/
theorem WellFormed.eq_of_below {dn : String} (hda : dn ∈ dns a.children (some a.getDn))
    (hdb : dn ∈ dns b.children (some b.getDn)) : a = b := by
  by_contra hab
  exact h.disjoint ha hb hab (mem_cons_of_mem _ hda) (mem_cons_of_mem _ hdb)

end

/-- An object agrees with itself. -/
theorem agrees_self (d : ApicObject) :
    Sorted d.children → (∀ x ∈ placesAll d.children (some d.getDn), Sorted x.2.children) → Agrees d d := by
  induction d using ApicObject.induction with
  | h d ih =>
    intro hsorted hbelow
    rw [agrees_iff]
    refine ⟨rfl, ⟨fun _ _ => rfl, fun _ => rfl⟩, ?_, fun o ho hno => absurd (mem_map_of_mem ho) hno⟩
    rw [agreesEach_iff]
    intro c hc
    refine ⟨⟨c, hc, rfl⟩, fun o ho hdn => ?_⟩
    rw [hsorted.eq_of_getDn ho hc hdn]
    exact ih c hc (hbelow _ (placesAll_root _ hc)) fun x hx => hbelow x (placesAll_children hc hx)

/-- Deletes that leave no extra object behind, and updates for all that does not agree. -/
theorem reconciled_merge {cs ds updates : List ApicObject} {deletes : List String}
    (hds : (ds.map ApicObject.getDn).Nodup) (hself : ∀ d ∈ ds, Agrees d d) (hsub : updates.Sublist ds)
    (hleft : ∀ c ∈ cs, c.getDn ∉ ds.map ApicObject.getDn → checkNonDeletable c.className → c.getDn ∈ deletes)
    (hboth : ∀ c ∈ cs, ∀ d ∈ ds, c.getDn = d.getDn → c.getDn ∉ deletes ∧
      (d ∈ updates → Agrees d (mergeObject d (prune deletes c))) ∧ (d ∉ updates → Agrees d (prune deletes c)))
    (hright : ∀ d ∈ ds, d.getDn ∉ cs.map ApicObject.getDn → d ∈ updates) :
    Reconciled ds (mergeAll updates (pruneAll deletes cs)) := by
  have hupdates : (updates.map ApicObject.getDn).Nodup := hds.sublist (hsub.map _)
  have heq : ∀ a ∈ ds, ∀ b ∈ ds, a.getDn = b.getDn → a = b :=
    fun a ha b hb => inj_on_of_nodup_map hds ha hb
  constructor
  · rw [agreesEach_iff]
    intro d hd
    constructor
    · by_cases hpartner : ∃ c ∈ cs, c.getDn = d.getDn
      · obtain ⟨c, hc, hdn⟩ := hpartner
        have hkeep : prune deletes c ∈ pruneAll deletes cs :=
          mem_pruneAll.mpr ⟨c, hc, (hboth c hc d hd hdn).1, rfl⟩
        by_cases hu : d ∈ updates
        · refine ⟨mergeObject d (prune deletes c), ?_, by simp [hdn]⟩
          rw [mem_mergeAll hupdates]
          exact .inr (.inl ⟨d, hu, prune deletes c, hkeep, by simp [hdn], rfl⟩)
        · refine ⟨prune deletes c, ?_, by simp [hdn]⟩
          rw [mem_mergeAll hupdates]
          refine .inl ⟨hkeep, fun hmem => ?_⟩
          obtain ⟨u, hu', hudn⟩ := mem_map.mp hmem
          rw [prune_getDn, hdn] at hudn
          exact hu (heq u (hsub.subset hu') d hd hudn ▸ hu')
      · have hno : d.getDn ∉ cs.map ApicObject.getDn := by
          intro hmem
          obtain ⟨c, hc, hdn⟩ := mem_map.mp hmem
          exact hpartner ⟨c, hc, hdn⟩
        refine ⟨d, ?_, rfl⟩
        rw [mem_mergeAll hupdates]
        refine .inr (.inr ⟨hright d hd hno, fun hmem => ?_⟩)
        obtain ⟨r, hr, hrdn⟩ := mem_map.mp hmem
        obtain ⟨c, hc, -, rfl⟩ := mem_pruneAll.mp hr
        exact hpartner ⟨c, hc, by simpa using hrdn⟩
    · intro o ho hdn
      rcases (mem_mergeAll hupdates).mp ho with ⟨hr, hno⟩ | ⟨u, hu, r, hr, hur, rfl⟩ | ⟨hu, -⟩
      · obtain ⟨c, hc, -, rfl⟩ := mem_pruneAll.mp hr
        rw [prune_getDn] at hdn
        refine (hboth c hc d hd hdn).2.2 fun hu => hno ?_
        rw [prune_getDn, hdn]
        exact mem_map_of_mem hu
      · obtain ⟨c, hc, -, rfl⟩ := mem_pruneAll.mp hr
        rw [mergeObject_getDn] at hdn
        have hud : u = d := heq u (hsub.subset hu) d hd (hur.symm.trans hdn)
        rw [hud] at hu ⊢
        rw [prune_getDn] at hdn
        exact (hboth c hc d hd hdn).2.1 hu
      · rw [heq o (hsub.subset hu) d hd hdn]
        exact hself d hd
  · intro o ho hno
    rcases (mem_mergeAll hupdates).mp ho with ⟨hr, -⟩ | ⟨u, hu, r, hr, hur, rfl⟩ | ⟨hu, -⟩
    · obtain ⟨c, hc, hdel, rfl⟩ := mem_pruneAll.mp hr
      rw [prune_getDn] at hno
      rw [prune_className]
      by_contra hdeletable
      exact hdel (hleft c hc hno (Bool.eq_true_of_not_eq_false hdeletable))
    · rw [mergeObject_getDn, hur] at hno
      exact absurd (mem_map_of_mem (hsub.subset hu)) hno
    · exact absurd (mem_map_of_mem (hsub.subset hu)) hno

section

variable (h : className = "vzRsSubjGraphAtt" → bodyd "customSG" = none) (bodyc : Attributes)
include h

theorem customGraph_eq_false (p : String) : customGraph className bodyc bodyd p = false := by
  unfold customGraph
  by_cases hc : className = "vzRsSubjGraphAtt"
  · simp [h hc]
  · simp [hc]

theorem attrLoop_eq (attributes : List (String × String)) : attrLoop className bodyc attributes bodyd =
      (decide (∀ a ∈ attributes, bodyc.read a.1 a.2 = bodyd.read a.1 a.2), bodyd) := by
  induction attributes with
  | nil => simp [attrLoop]
  | cons a attributes ih =>
    obtain ⟨p, default⟩ := a
    rw [attrLoop, customGraph_eq_false h, if_neg Bool.false_ne_true]
    by_cases hp : bodyc.read p default = bodyd.read p default
    · rw [if_neg (not_not.mpr hp), ih]
      simp [hp]
    · simp [hp]

theorem apicBodyAttrCmp_snd : (apicBodyAttrCmp className bodyc bodyd).2 = bodyd := by
  unfold apicBodyAttrCmp
  split
  · rfl
  · rw [attrLoop_eq h]
    split
    · next heq => rw [← (Prod.mk.inj heq).2]
    · next heq =>
      rw [← (Prod.mk.inj heq).2]
      split <;> rfl

theorem apicBodyAttrCmp_fst (hknown : (metadata className).isSome) :
    (apicBodyAttrCmp className bodyc bodyd).1 ↔ BodyAgrees className bodyc bodyd := by
  obtain ⟨entry, hentry⟩ := Option.isSome_iff_exists.mp hknown
  simp only [apicBodyAttrCmp, BodyAgrees, compared, hentry, attrLoop_eq h, Option.map_some, Option.getD_some]
  by_cases hattrs : ∀ a ∈ entry.attributes, bodyc.read a.1 a.2 = bodyd.read a.1 a.2
  · rw [decide_eq_true hattrs]
    simp only
    split
    · next hdiffer =>
      have hdiffer' : annotated className ∧
          bodyc.read "annotation" "" ≠ bodyd.read "annotation" "" := by simpa using hdiffer
      exact ⟨fun hfalse => absurd hfalse Bool.false_ne_true,
        fun hagree => absurd (hagree.2 hdiffer'.1) hdiffer'.2⟩
    · next hsame =>
      have hsame' : annotated className →
          bodyc.read "annotation" "" = bodyd.read "annotation" "" := by simpa using hsame
      exact ⟨fun _ => ⟨hattrs, hsame'⟩, fun _ => rfl⟩
  · rw [decide_eq_false hattrs]
    exact ⟨fun hfalse => absurd hfalse Bool.false_ne_true, fun hagree => absurd hagree.1 hattrs⟩

end

theorem apicBodyAttrCmp_self {body : Attributes} (h : className = "vzRsSubjGraphAtt" → body "customSG" = none) :
    apicBodyAttrCmp className body body = (true, body) := by
  refine Prod.ext ?_ (apicBodyAttrCmp_snd h body)
  cases hmeta : metadata className with
  | none => simp [apicBodyAttrCmp, hmeta]
  | some entry =>
    exact (apicBodyAttrCmp_fst h body (by rw [hmeta]; rfl)).mpr ⟨fun _ _ => rfl, fun _ => rfl⟩

/-- The DN is not among the attributes that are compared. -/
theorem dn_not_compared : ∀ a ∈ compared className, a.1 ≠ "dn" := by
  have htable : ∀ row ∈ metadataTable, ∀ a ∈ row.2.attributes, a.1 ≠ "dn" := by
    decide +kernel
  intro a ha
  unfold compared at ha
  cases hmeta : metadata className with
  | none =>
    rw [hmeta] at ha
    exact absurd ha not_mem_nil
  | some entry =>
    rw [hmeta] at ha
    obtain ⟨l, r, hsplit, -⟩ := lookup_eq_some_iff.mp hmeta
    exact htable (className, entry) (by rw [hsplit]; simp) a ha

/-- After a merge the bodies agree. -/
theorem bodyAgrees_overlay {there desired : Attributes} (h : Kept className there desired) :
    BodyAgrees className (overlay desired there) desired := by
  have hread : ∀ p default : String, p ≠ "dn" →
      (desired p = none → there.read p default = .str default) →
        (overlay desired there).read p default = desired.read p default := by
    intro p default hp hkept
    unfold Attributes.read overlay
    rw [if_neg hp]
    cases hd : desired p with
    | none => exact hkept hd
    | some v => rfl
  constructor
  · intro a ha
    exact hread a.1 a.2 (dn_not_compared a ha) (h.1 a ha)
  · intro hannot
    exact hread "annotation" "" (by decide) (h.2 hannot)

theorem apicObjCmps_eq (cs : List ApicObject) : apicObjCmps cs = cs.map fun c => (c, apicObjCmp c) := by
  induction cs with
  | nil => rfl
  | cons c cs ih => rw [apicObjCmps, ih, map_cons]

/-- One turn of the walk through two levels. -/
def turn (x : Pairing ApicObject ApicObject) : Cmp (List ApicObject) :=
  childCmp (x.mapLeft fun c => (c, apicObjCmp c))

def levelDeletes (cs ds : List ApicObject) : List String :=
  (align cmpApicObject cs ds).flatMap fun x => (turn x).deletes

theorem apicObjCmp_eq (h : c.className = d.className) : apicObjCmp c d =
      ⟨!(apicBodyAttrCmp c.className c.attributes d.attributes).1 ||
          (align cmpApicObject c.children d.children).any fun x => (turn x).update,
        levelDeletes c.children d.children, { d with
          attributes := (apicBodyAttrCmp c.className c.attributes d.attributes).2
          children := (align cmpApicObject c.children d.children).flatMap fun x => (turn x).desired }⟩ := by
  obtain ⟨classc, hint, bodyc, cs⟩ := c
  have halign : (align (fun c d => cmpApicObject c.1 d) (apicObjCmps cs) d.children).map childCmp =
      (align cmpApicObject cs d.children).map turn := by
    rw [apicObjCmps_eq, align_map, map_map]
    rfl
  rw [apicObjCmp, if_neg (not_not.mpr h)]
  simp only [halign, any_map, flatMap_map]
  rfl

/-- What the comparison of a pair of the same DN is good for. -/
structure PairSpec (c d : ApicObject) : Prop where
  desired : (apicObjCmp c d).desired = d
  below : ∀ dn ∈ (apicObjCmp c d).deletes, dn ∈ dns c.children (some c.getDn)
  merged : Agrees d (mergeObject d (prune (apicObjCmp c d).deletes c))
  same : (apicObjCmp c d).update = false → Agrees d (prune (apicObjCmp c d).deletes c)

section Level

variable {cs ds : List ApicObject}

section

variable (h : Comparable parent cs ds)
include h

theorem Comparable.fits : ∀ x ∈ align cmpApicObject cs ds, Fits ApicObject.getDn ApicObject.getDn cs ds x :=
  fits_align h.left.sorted h.right.sorted

theorem Comparable.left_mem (hc : c ∈ cs) (hno : c.getDn ∉ ds.map ApicObject.getDn) :
    .left c ∈ align cmpApicObject cs ds := by
  rcases mem_align_left cmpApicObject cs ds hc with hl | ⟨d, hb⟩
  · exact hl
  · obtain ⟨-, hd, hdn⟩ := h.fits _ hb
    exact absurd (hdn ▸ mem_map_of_mem hd) hno

theorem Comparable.right_mem (hd : d ∈ ds) (hno : d.getDn ∉ cs.map ApicObject.getDn) :
    .right d ∈ align cmpApicObject cs ds := by
  rcases mem_align_right cmpApicObject cs ds hd with hr | ⟨c, hb⟩
  · exact hr
  · obtain ⟨hc, -, hdn⟩ := h.fits _ hb
    exact absurd (hdn ▸ mem_map_of_mem hc) hno

theorem Comparable.both_mem (hc : c ∈ cs) (hd : d ∈ ds) (hdn : c.getDn = d.getDn) :
    .both c d ∈ align cmpApicObject cs ds := by
  rcases mem_align_left cmpApicObject cs ds hc with hl | ⟨d', hb⟩
  · exact absurd hdn.symm ((h.fits _ hl).2 d hd)
  · obtain ⟨-, hd', hdn'⟩ := h.fits _ hb
    rwa [h.right.sorted.eq_of_getDn hd hd' (hdn.symm.trans hdn')]

/-- Where a delete of a level comes from. -/
theorem Comparable.mem_levelDeletes {dn : String} (hdn : dn ∈ levelDeletes cs ds) :
    (∃ c ∈ cs, c.getDn = dn ∧ checkNonDeletable c.className ∧ dn ∉ ds.map ApicObject.getDn) ∨
    ∃ c ∈ cs, ∃ d ∈ ds, c.getDn = d.getDn ∧ dn ∈ (apicObjCmp c d).deletes := by
  obtain ⟨x, hx, hturn⟩ := mem_flatMap.mp hdn
  have hfits := h.fits x hx
  cases x with
  | left c =>
    simp only [turn, Pairing.mapLeft, childCmp, extraDeletes] at hturn
    split at hturn
    · next hdeletable =>
      refine .inl ⟨c, hfits.1, (mem_singleton.mp hturn).symm, hdeletable, fun hmem => ?_⟩
      obtain ⟨d, hd, hdn'⟩ := mem_map.mp hmem
      exact hfits.2 d hd (hdn'.trans (mem_singleton.mp hturn))
    · exact absurd hturn not_mem_nil
  | right d => exact absurd hturn not_mem_nil
  | both c d => exact .inr ⟨c, hfits.1, d, hfits.2.1, hfits.2.2, hturn⟩

theorem Comparable.levelDeletes_left (hc : c ∈ cs) (hno : c.getDn ∉ ds.map ApicObject.getDn)
    (hdeletable : checkNonDeletable c.className) : c.getDn ∈ levelDeletes cs ds := by
  refine mem_flatMap.mpr ⟨_, h.left_mem hc hno, ?_⟩
  simp [turn, Pairing.mapLeft, childCmp, extraDeletes, hdeletable]

variable (hpairs : ∀ c ∈ cs, ∀ d ∈ ds, c.getDn = d.getDn → PairSpec c d)
include hpairs

/-- The deletes of a level leave the pairs themselves alone. -/
theorem Comparable.not_mem_levelDeletes (hc : c ∈ cs) (hd : d ∈ ds) (hdn : c.getDn = d.getDn) :
    c.getDn ∉ levelDeletes cs ds := by
  intro hmem
  rcases h.mem_levelDeletes hmem with ⟨_, -, -, -, hno⟩ | ⟨c', hc', d', hd', hdn', hdel⟩
  · exact hno (hdn ▸ mem_map_of_mem hd)
  · exact h.left.root_not_below hc hc' ((hpairs c' hc' d' hd' hdn').below _ hdel)

/-- Below a pair only the deletes of that pair count. -/
theorem Comparable.prune_levelDeletes (hc : c ∈ cs) (hd : d ∈ ds) (hdn : c.getDn = d.getDn) :
    prune (levelDeletes cs ds) c = prune (apicObjCmp c d).deletes c := by
  refine prune_congr c fun dn hbelow => ⟨fun hmem => ?_, fun hmem => ?_⟩
  · rcases h.mem_levelDeletes hmem with ⟨c', hc', rfl, -, -⟩ | ⟨c', hc', d', hd', hdn', hdel⟩
    · exact absurd hbelow (h.left.root_not_below hc' hc)
    · have hcc : c' = c :=
        h.left.eq_of_below hc' hc ((hpairs c' hc' d' hd' hdn').below _ hdel) hbelow
      rw [hcc] at hdn' hdel
      rwa [h.right.sorted.eq_of_getDn hd hd' (hdn.symm.trans hdn')]
  · exact mem_flatMap.mpr ⟨_, h.both_mem hc hd hdn, hmem⟩

/-- The comparisons of a level leave the desired objects as they are. -/
theorem Comparable.turn_desired : ((align cmpApicObject cs ds).flatMap fun x => (turn x).desired) = ds := by
  have hturn : ∀ x ∈ align cmpApicObject cs ds, (turn x).desired = x.second := by
    intro x hx
    cases x with
    | left c => rfl
    | right d => rfl
    | both c d =>
      obtain ⟨hc, hd, hdn⟩ := h.fits _ hx
      exact congrArg (fun d' => [d']) (hpairs c hc d hd hdn).desired
  rw [flatMap_congr hturn]
  exact align_second cmpApicObject cs ds

/-- A level is reconciled when the updates have all pairs that ask for one and all desired
objects without a partner. -/
theorem Comparable.reconciled {updates : List ApicObject} (hsub : updates.Sublist ds)
    (hskipped : ∀ c ∈ cs, ∀ d ∈ ds, c.getDn = d.getDn → d ∉ updates → (apicObjCmp c d).update = false)
    (hright : ∀ d ∈ ds, d.getDn ∉ cs.map ApicObject.getDn → d ∈ updates) :
    Reconciled ds (mergeAll updates (pruneAll (levelDeletes cs ds) cs)) := by
  refine reconciled_merge h.right.sorted.nodup ?_ hsub
    (fun c hc hno hdeletable => h.levelDeletes_left hc hno hdeletable) ?_ hright
  · intro d hd
    exact agrees_self d (h.right.below _ (placesAll_root parent hd))
      fun x hx => h.right.below x (placesAll_children hd hx)
  · intro c hc d hd hdn
    have hspec := hpairs c hc d hd hdn
    rw [h.prune_levelDeletes hpairs hc hd hdn]
    exact ⟨h.not_mem_levelDeletes hpairs hc hd hdn, fun _ => hspec.merged,
      fun hu => hspec.same (hskipped c hc d hd hdn hu)⟩

omit hpairs

end

end Level

/-- The comparison of a pair, by induction over the current object. -/
theorem pairSpec (c : ApicObject) : ∀ (parent : Option String) (cs ds : List ApicObject) (d : ApicObject),
    Comparable parent cs ds → KeptAll parent cs ds → c ∈ cs → d ∈ ds → c.getDn = d.getDn → PairSpec c d := by
  induction c using ApicObject.induction with
  | h c ih =>
    intro parent cs ds d h hkept hc hd hdn
    have hplaceC := placesAll_root parent hc
    have hplaceD := placesAll_root parent hd
    have hclass : c.className = d.className := (h.places _ hplaceC _ hplaceD hdn).2
    have hcustom : c.className = "vzRsSubjGraphAtt" → d.attributes "customSG" = none :=
      fun he => h.right.custom _ hplaceD (hclass.symm.trans he)
    have hlevel := h.children hc hd hdn
    have hpairs : ∀ c' ∈ c.children, ∀ d' ∈ d.children, c'.getDn = d'.getDn → PairSpec c' d' :=
      fun c' hc' d' hd' hdn' =>
        ih c' hc' _ _ _ d' hlevel (hkept.children hc hd hdn) hc' hd' hdn'
    have hcmp := apicObjCmp_eq hclass
    have hdeletes : (apicObjCmp c d).deletes = levelDeletes c.children d.children := by rw [hcmp]
    refine ⟨?_, ?_, ?_, ?_⟩
    · rw [hcmp, apicBodyAttrCmp_snd hcustom, hlevel.turn_desired hpairs]
      cases d
      rfl
    · intro dn hmem
      rw [hdeletes] at hmem
      rcases hlevel.mem_levelDeletes hmem with ⟨c', hc', rfl, -, -⟩ | ⟨c', hc', d', hd', hdn', hdel⟩
      · exact mem_map_of_mem (placesAll_root _ hc')
      · obtain ⟨x, hx, rfl⟩ := mem_map.mp ((hpairs c' hc' d' hd' hdn').below dn hdel)
        exact mem_map_of_mem (placesAll_children hc' hx)
    · rw [hdeletes, agrees_iff, mergeObject_eq, prune_eq]
      refine ⟨hclass, ?_, ?_⟩
      · exact hclass ▸ bodyAgrees_overlay (hkept _ hplaceC _ hplaceD hdn)
      · exact hlevel.reconciled hpairs (List.Sublist.refl _) (fun _ _ d' hd' _ hno => absurd hd' hno)
          fun d' hd' _ => hd'
    · intro hupdate
      rw [hcmp] at hupdate
      obtain ⟨hbody, hturns⟩ := Bool.or_eq_false_iff.mp hupdate
      have hturn := any_eq_false.mp hturns
      rw [hdeletes, agrees_iff, prune_eq]
      refine ⟨hclass, ?_, ?_⟩
      · exact hclass ▸ (apicBodyAttrCmp_fst hcustom c.attributes (h.left.known _ hplaceC)).mp
          (by simpa using hbody)
      · refine hlevel.reconciled hpairs (nil_sublist _) ?_ ?_
        · intro c' hc' d' hd' hdn' _
          exact Bool.eq_false_of_not_eq_true (hturn _ (hlevel.both_mem hc' hd' hdn'))
        · intro d' hd' hno
          exact absurd rfl (hturn _ (hlevel.right_mem hd' hno))

/-- An object compared with itself asks for nothing. -/
theorem apicObjCmp_self (o : ApicObject) : (o.className = "vzRsSubjGraphAtt" → o.attributes "customSG" = none) →
      NoCustomGraph (some o.getDn) o.children → (apicObjCmp o o).update = false ∧ (apicObjCmp o o).deletes = [] := by
  induction o using ApicObject.induction with
  | h o ih =>
    intro hroot hbelow
    have hself : ∀ c ∈ o.children, (apicObjCmp c c).update = false ∧ (apicObjCmp c c).deletes = [] :=
      fun c hc => ih c hc (hbelow _ (placesAll_root _ hc)) fun x hx => hbelow x (placesAll_children hc hx)
    have halign := align_self cmpApicObject o.children fun c _ => cmp_self_eq_eq c.getDn
    rw [apicObjCmp_eq rfl, apicBodyAttrCmp_self hroot]
    unfold levelDeletes
    rw [halign]
    constructor
    · simp only [Bool.not_true, Bool.false_or, any_map, any_eq_false]
      intro c hc
      exact Bool.eq_false_iff.mp (hself c hc).1
    · simp only [flatMap_map, flatMap_eq_nil_iff]
      intro c hc
      exact (hself c hc).2

/-- The difference of a forest and itself is empty. -/
theorem diffApicState_self_empty (containerDns : String → Bool) {os : List ApicObject} (h : NoCustomGraph none os) :
    (diffApicState containerDns os os).updates = [] ∧ (diffApicState containerDns os os).deletes = [] := by
  have hself : ∀ o ∈ os, (rootDiff containerDns (.both o o)).updates = [] ∧
      (rootDiff containerDns (.both o o)).deletes = [] := by
    intro o ho
    have hroot := h _ (placesAll_root none ho)
    obtain ⟨hupdate, hdeletes⟩ := apicObjCmp_self o hroot fun x hx => h x (placesAll_children ho hx)
    simp only [rootDiff]
    split
    · simp [apicCntCmp, apicBodyAttrCmp_self hroot]
    · simp [hupdate, hdeletes]
  have halign := align_self cmpApicObject os fun o _ => cmp_self_eq_eq o.getDn
  unfold diffApicState
  rw [halign]
  constructor
  · simp only [map_map, flatMap_map, flatMap_eq_nil_iff]
    exact fun o ho => (hself o ho).1
  · simp only [map_map, flatMap_map, flatMap_eq_nil_iff]
    exact fun o ho => (hself o ho).2

/-- Apply the deletes and then the updates. -/
def reconcile (diff : Diff) (current : List ApicObject) : List ApicObject :=
  mergeAll diff.updates (deleteDns diff.deletes current)

section Root

variable {dn : String} {containerDns : String → Bool} {current desired : List ApicObject}

section

variable (h : Comparable none current desired)
  (hcontainers : ∀ c ∈ current, containerDns c.getDn = false)
include h hcontainers

theorem diffApicState_deletes : (diffApicState containerDns current desired).deletes =
    levelDeletes current desired := by
  unfold diffApicState levelDeletes
  simp only [flatMap_map]
  refine flatMap_congr fun x hx => ?_
  cases x with
  | left c => rfl
  | right d => rfl
  | both c d =>
    rw [rootDiff, hcontainers c (h.fits _ hx).1]
    rfl

/-- Every update is a desired root; a root without a partner and a pair that asks for it
are updates. -/
theorem diffApicState_updates (hpairs : ∀ c ∈ current, ∀ d ∈ desired, c.getDn = d.getDn → PairSpec c d) :
    (diffApicState containerDns current desired).updates.Sublist desired ∧
      (∀ c ∈ current, ∀ d ∈ desired, c.getDn = d.getDn → (apicObjCmp c d).update →
        d ∈ (diffApicState containerDns current desired).updates) ∧
      ∀ d ∈ desired, d.getDn ∉ current.map ApicObject.getDn →
        d ∈ (diffApicState containerDns current desired).updates := by
  have hboth : ∀ c d, .both c d ∈ align cmpApicObject current desired →
      (rootDiff containerDns (.both c d)).updates = if (apicObjCmp c d).update then [d] else [] := by
    intro c d hx
    obtain ⟨hc, hd, hdn⟩ := h.fits _ hx
    rw [rootDiff, hcontainers c hc]
    simp [Bool.false_eq_true, (hpairs c hc d hd hdn).desired]
  unfold diffApicState
  simp only [flatMap_map]
  refine ⟨?_, ?_, ?_⟩
  · have hsub : ((align cmpApicObject current desired).flatMap fun x =>
        (rootDiff containerDns x).updates).Sublist
          ((align cmpApicObject current desired).flatMap Pairing.second) := by
      refine List.Sublist.flatMap_right _ fun x hx => ?_
      cases x with
      | left c => exact List.Sublist.refl _
      | right d => exact List.Sublist.refl _
      | both c d =>
        rw [hboth c d hx]
        split
        · exact List.Sublist.refl _
        · exact nil_sublist _
    rwa [align_second] at hsub
  · intro c hc d hd hdn hupdate
    refine mem_flatMap.mpr ⟨_, h.both_mem hc hd hdn, ?_⟩
    rw [hboth c d (h.both_mem hc hd hdn), hupdate]
    exact mem_singleton_self d
  · intro d hd hno
    exact mem_flatMap.mpr ⟨_, h.right_mem hd hno, mem_singleton_self d⟩

end

theorem placesAll_some {os : List ApicObject} {x : Option String × ApicObject}
    (hx : x ∈ placesAll os (some dn)) : x.1 ≠ none := by
  have hobj : ∀ (o : ApicObject) (x : Option String × ApicObject),
      x ∈ placesAll o.children (some o.getDn) → x.1 ≠ none := by
    intro o
    induction o using ApicObject.induction with
    | h o ih =>
      intro x hx
      obtain ⟨c, hc, rfl | hx⟩ := mem_placesAll.mp hx
      · exact Option.some_ne_none _
      · exact ih c hc x hx
  obtain ⟨o, -, rfl | hx⟩ := mem_placesAll.mp hx
  · exact Option.some_ne_none _
  · exact hobj o x hx

/-- A delete removes an object of the current forest. -/
theorem place_of_levelDeletes (h : Comparable none current desired)
    (hpairs : ∀ c ∈ current, ∀ d ∈ desired, c.getDn = d.getDn → PairSpec c d)
    (hdn : dn ∈ levelDeletes current desired) : ∃ x ∈ placesAll current none, x.2.getDn = dn := by
  rcases h.mem_levelDeletes hdn with ⟨c, hc, rfl, -, -⟩ | ⟨c, hc, d, hd, hcd, hdel⟩
  · exact ⟨_, placesAll_root none hc, rfl⟩
  · obtain ⟨x, hx, hxdn⟩ := mem_map.mp ((hpairs c hc d hd hcd).below dn hdel)
    exact ⟨x, placesAll_children hc hx, hxdn⟩

/-- The current forest with the deletes and updates applied has the objects of the desired
one, no DN is both deleted and updated, and no forest differs from itself. -/
theorem diffApicState_reconciles (h : Comparable none current desired) (hkept : KeptAll none current desired)
    (hcontainers : ∀ c ∈ current, containerDns c.getDn = false) :
    let diff := diffApicState containerDns current desired
    Reconciled desired (reconcile diff current) ∧ (∀ u ∈ diff.updates, u.getDn ∉ diff.deletes) ∧
    ∀ os ∈ [current, desired], (diffApicState containerDns os os).updates = [] ∧
      (diffApicState containerDns os os).deletes = [] := by
  have hpairs : ∀ c ∈ current, ∀ d ∈ desired, c.getDn = d.getDn → PairSpec c d :=
    fun c hc d hd hdn => pairSpec c none current desired d h hkept hc hd hdn
  obtain ⟨hsub, hasked, hnew⟩ := diffApicState_updates h hcontainers hpairs
  have hdeletes := diffApicState_deletes h hcontainers
  refine ⟨?_, ?_, ?_⟩
  · unfold reconcile
    rw [deleteDns_eq, hdeletes]
    refine h.reconciled hpairs hsub (fun c hc d hd hdn hno => ?_) hnew
    by_contra hupdate
    exact hno (hasked c hc d hd hdn (Bool.eq_true_of_not_eq_false hupdate))
  · intro u hu hmem
    rw [hdeletes] at hmem
    have hud := hsub.subset hu
    obtain ⟨x, hx, hdn⟩ := place_of_levelDeletes h hpairs hmem
    have hparent := (h.places x hx _ (placesAll_root none hud) hdn).1
    obtain ⟨c, hc, rfl | hbelow⟩ := mem_placesAll.mp hx
    · exact h.not_mem_levelDeletes hpairs hc hud hdn (hdn ▸ hmem)
    · exact placesAll_some hbelow hparent
  · intro os hos
    rcases mem_cons.mp hos with rfl | hos
    · exact diffApicState_self_empty containerDns h.left.custom
    · rw [mem_singleton.mp hos]
      exact diffApicState_self_empty containerDns h.right.custom

end Root

def object (className dn : String) (attributes : List (String × String))
    (children : List ApicObject) : ApicObject :=
  ⟨className, dn, fun p => (attributes.lookup p).map .str, children⟩

/-- A tenant gets another alias, loses an application profile and keeps a relation that may
not be deleted; a second tenant is new. -/
theorem diffApicState_reconciles_tenants :
    let current := [object "fvTenant" "uni/tn-a" [("name", "a"), ("nameAlias", "x")]
      [object "fvAp" "uni/tn-a/ap-b" [("name", "b")] [], object "fvRsCtx" "uni/tn-a/rsctx" [("tnFvCtxName", "c")] []]]
    let desired := [object "fvTenant" "uni/tn-a" [("name", "a"), ("nameAlias", "y")] [],
      object "fvTenant" "uni/tn-b" [("name", "b")] []]
    let diff := diffApicState (fun _ => false) current desired
    diff.updates.map ApicObject.getDn = ["uni/tn-a", "uni/tn-b"] ∧
    diff.deletes = ["uni/tn-a/ap-b"] ∧ Reconciled desired (reconcile diff current) := by
  intro current desired diff
  have hcomparable : Comparable none current desired :=
    ⟨⟨by decide, by decide, by decide, by decide, by decide⟩,
      ⟨by decide, by decide, by decide, by decide, by decide⟩, by decide⟩
  have hkept : KeptAll none current desired := by decide
  exact ⟨by decide, by decide,
    (@diffApicState_reconciles (fun _ => false) current desired hcomparable hkept fun _ _ => rfl).1⟩

/-- An attribute that the desired object does not carry keeps its value, and the annotation
of a tag is not compared. -/
theorem diffApicState_literal_fails :
    (let current := [object "fvTenant" "uni/tn-a" [("name", "a"), ("nameAlias", "x")] []]
     let desired := [object "fvTenant" "uni/tn-a" [("name", "a")] []]
     Comparable none current desired ∧
       ¬ Reconciled desired (reconcile (diffApicState (fun _ => false) current desired) current)) ∧
    (let current := [object "tagAnnotation" "uni/tn-a/annotationKey-[k]" [("annotation", "x")] []]
     let desired := [object "tagAnnotation" "uni/tn-a/annotationKey-[k]" [] []]
     Comparable none current desired ∧ ∃ o ∈ reconcile (diffApicState (fun _ => false) current desired) current,
         ∀ d ∈ desired, o.attributes.read "annotation" "" ≠ d.attributes.read "annotation" "") := by
  constructor
  · intro current desired
    refine ⟨⟨⟨by decide, by decide, by decide, by decide, by decide⟩,
      ⟨by decide, by decide, by decide, by decide, by decide⟩, by decide⟩, ?_⟩
    intro h
    obtain ⟨⟨o, ho, hdn⟩, hagrees⟩ := (agreesEach_iff _ _).mp h.1 _ mem_cons_self
    have hbody := ((agrees_iff _ _).mp (hagrees o ho hdn)).2.1.1 ("nameAlias", "") (by decide)
    have hkeeps : ∀ o ∈ reconcile (diffApicState (fun _ => false) current desired) current,
        o.attributes.read "nameAlias" "" = .str "x" := by decide
    rw [hkeeps o ho] at hbody
    exact absurd hbody (by decide)
  · exact ⟨⟨⟨by decide, by decide, by decide, by decide, by decide⟩,
      ⟨by decide, by decide, by decide, by decide, by decide⟩, by decide⟩, by decide⟩

end AciContainers.Apic
