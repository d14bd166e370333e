import AciContainers.ApicDnIndex
import AciContainers.ApicSyncSound
import AciContainers.Runs

/-!
# The DN index against the desired state

A write enters the new objects into the index and then removes what the comparison deletes.
That leaves the index exact as long as no DN changes its place between two writes: a DN that
is deleted at one place and entered at another ends up removed.
-/
namespace AciContainers.Apic

open Maps Merge Runs List Finmap

mutual

/-- The class, the DN and the children of an object. -/
def skeleton : ApicObject → ApicObject
  | ⟨className, hintDn, attributes, children⟩ =>
    ⟨className, (⟨className, hintDn, attributes, children⟩ : ApicObject).getDn, Map.empty,
      skeletonEach children⟩

def skeletonEach : List ApicObject → List ApicObject
  | [] => []
  | o :: os => skeleton o :: skeletonEach os

end

variable {className : String} {o c : ApicObject} {os os' cs : List ApicObject} {parent : Option String}
  {x y : Option String × ApicObject} {tag : String} {naming : Naming}

theorem skeletonEach_eq (os : List ApicObject) : skeletonEach os = os.map skeleton := by
  induction os with
  | nil => rfl
  | cons o os ih => rw [skeletonEach, ih, map_cons]

theorem skeleton_eq (o : ApicObject) : skeleton o = ⟨o.className, o.getDn, Map.empty, o.children.map skeleton⟩ := by
  cases o
  rw [skeleton, skeletonEach_eq]

@[simp] theorem skeleton_getDn (o : ApicObject) : (skeleton o).getDn = o.getDn := by
  rw [skeleton_eq]
  rfl

theorem skeleton_children (o : ApicObject) : (skeleton o).children = o.children.map skeleton := by
  rw [skeleton_eq]

theorem skeleton_ext {o' : ApicObject} (hclass : o.className = o'.className) (hdn : o.getDn = o'.getDn)
    (hchildren : o.children.map skeleton = o'.children.map skeleton) : skeleton o = skeleton o' := by
  rw [skeleton_eq, skeleton_eq, hclass, hdn, hchildren]

section

variable (os : List ApicObject) (parent : Option String)

theorem placesAll_eq : placesAll os parent = os.flatMap fun o => (parent, o) :: placesAll o.children
    (some o.getDn) := by
  induction os with
  | nil => rfl
  | cons o os ih => rw [placesAll, places_eq, ih, flatMap_cons]

theorem placesAll_skeleton : placesAll (os.map skeleton) parent =
      (placesAll os parent).map fun x => (x.1, skeleton x.2) := by
  have hobj : ∀ o : ApicObject, placesAll (o.children.map skeleton) (some o.getDn) =
      (placesAll o.children (some o.getDn)).map fun x => (x.1, skeleton x.2) := by
    intro o
    induction o using ApicObject.induction with
    | h o ih =>
      rw [placesAll_eq, placesAll_eq, flatMap_map, map_flatMap]
      refine flatMap_congr fun c hc => ?_
      rw [map_cons, ← ih c hc, skeleton_children, skeleton_getDn]
  rw [placesAll_eq, placesAll_eq, flatMap_map, map_flatMap]
  refine flatMap_congr fun o _ => ?_
  rw [map_cons, ← hobj o, skeleton_children, skeleton_getDn]

theorem dns_skeleton : dns (os.map skeleton) parent = dns os parent := by
  rw [dns, dns, placesAll_skeleton, map_map]
  exact map_congr_left fun x _ => skeleton_getDn x.2

end

/-- Objects that differ in their attributes only have the same places. -/
theorem mem_placesAll_of_skeleton (h : os.map skeleton = os'.map skeleton) (hx : x ∈ placesAll os parent) :
    ∃ y ∈ placesAll os' parent, y.1 = x.1 ∧ skeleton y.2 = skeleton x.2 := by
  have hmem : (x.1, skeleton x.2) ∈ placesAll (os.map skeleton) parent := by
    rw [placesAll_skeleton]
    exact mem_map_of_mem hx
  rw [h, placesAll_skeleton] at hmem
  obtain ⟨y, hy, heq⟩ := mem_map.mp hmem
  exact ⟨y, hy, (Prod.mk.inj heq).1, (Prod.mk.inj heq).2⟩

/-- A DN is not used twice, and nothing below an object without DN has one. -/
structure Named (parent : Option String) (os : List ApicObject) : Prop where
  once : ((dns os parent).filter (· ≠ "")).Nodup
  unnamed : ∀ x ∈ placesAll os parent, x.1 = some "" → x.2.getDn = ""

instance (parent : Option String) (os : List ApicObject) : Decidable (Named parent os) :=
  decidable_of_iff (((dns os parent).filter (· ≠ "")).Nodup ∧
      ∀ x ∈ placesAll os parent, x.1 = some "" → x.2.getDn = "")
    ⟨fun h => ⟨h.1, h.2⟩, fun h => ⟨h.1, h.2⟩⟩

def SortedLe (os : List ApicObject) : Prop := os.Pairwise fun a b => a.getDn ≤ b.getDn

structure Tame (parent : Option String) (os : List ApicObject) : Prop extends Named parent os where
  sorted : SortedLe os
  below : ∀ x ∈ placesAll os parent, SortedLe x.2.children

theorem Named.children (h : Named parent os) (ho : o ∈ os) : Named (some o.getDn) o.children where
  once := by
    have honce := h.once
    rw [dns_eq, filter_flatMap, nodup_flatMap] at honce
    have hsub := (sublist_cons_self o.getDn (dns o.children (some o.getDn))).filter
      fun dn => decide (dn ≠ "")
    exact (honce.1 o ho).sublist hsub
  unnamed x hx := h.unnamed x (placesAll_children ho hx)

theorem Tame.children (h : Tame parent os) (ho : o ∈ os) : Tame (some o.getDn) o.children where
  toNamed := h.toNamed.children ho
  sorted := h.below _ (placesAll_root parent ho)
  below x hx := h.below x (placesAll_children ho hx)

theorem SortedLe.of_skeleton (h : SortedLe os) (he : os.map skeleton = os'.map skeleton) : SortedLe os' := by
  have hdn : os.map ApicObject.getDn = os'.map ApicObject.getDn := by
    have hmap := congrArg (map ApicObject.getDn) he
    rw [map_map, map_map] at hmap
    rw [← map_congr_left (fun o _ => skeleton_getDn o : ∀ o ∈ os, _),
      ← map_congr_left (fun o _ => skeleton_getDn o : ∀ o ∈ os', _)]
    exact hmap
  have hle := pairwise_map.mpr h
  rw [hdn] at hle
  exact pairwise_map.mp hle

theorem Tame.of_skeleton (h : Tame parent os) (he : os.map skeleton = os'.map skeleton) : Tame parent os' where
  once := by
    rw [← dns_skeleton, ← he, dns_skeleton]
    exact h.once
  unnamed x hx hp := by
    obtain ⟨y, hy, hparent, hskel⟩ := mem_placesAll_of_skeleton he.symm hx
    rw [← skeleton_getDn, ← hskel, skeleton_getDn]
    exact h.unnamed y hy (hparent.trans hp)
  sorted := h.sorted.of_skeleton he
  below x hx := by
    obtain ⟨y, hy, -, hskel⟩ := mem_placesAll_of_skeleton he.symm hx
    refine (h.below y hy).of_skeleton ?_
    rw [← skeleton_children, ← skeleton_children, hskel]

/-- A DN has one place. -/
theorem Named.eq_of_getDn (h : Named parent os) (hx : x ∈ placesAll os parent)
    (hy : y ∈ placesAll os parent) (hdn : x.2.getDn = y.2.getDn) (hne : x.2.getDn ≠ "") : x = y := by
  have honce := h.once
  rw [dns, filter_map] at honce
  refine inj_on_of_nodup_map honce (mem_filter.mpr ⟨hx, ?_⟩)
    (mem_filter.mpr ⟨hy, ?_⟩) hdn
  · simpa using hne
  · simpa [← hdn] using hne

theorem mem_dns {dn : String} :
    dn ∈ dns os parent ↔ ∃ x ∈ placesAll os parent, x.2.getDn = dn := mem_map

/-- An object with a parent is among the children of an object with the parent's DN. -/
theorem parent_of_place (hx : x ∈ placesAll os parent) : x.1 = parent ∧ x.2 ∈ os ∨
      ∃ y ∈ placesAll os parent, x.1 = some y.2.getDn ∧ x.2 ∈ y.2.children := by
  have hobj : ∀ (o : ApicObject) (x : Option String × ApicObject),
      x ∈ placesAll o.children (some o.getDn) →
        x.1 = some o.getDn ∧ x.2 ∈ o.children ∨
          ∃ y ∈ placesAll o.children (some o.getDn), x.1 = some y.2.getDn ∧ x.2 ∈ y.2.children := by
    intro o
    induction o using ApicObject.induction with
    | h o ih =>
      intro x hx
      obtain ⟨c, hc, rfl | hx⟩ := mem_placesAll.mp hx
      · exact .inl ⟨rfl, hc⟩
      · right
        rcases ih c hc x hx with ⟨hp, hmem⟩ | ⟨y, hy, hp, hmem⟩
        · exact ⟨_, placesAll_root _ hc, hp, hmem⟩
        · exact ⟨y, placesAll_children hc hy, hp, hmem⟩
  obtain ⟨o, ho, rfl | hx⟩ := mem_placesAll.mp hx
  · exact .inl ⟨rfl, ho⟩
  · right
    rcases hobj o x hx with ⟨hp, hmem⟩ | ⟨y, hy, hp, hmem⟩
    · exact ⟨_, placesAll_root _ ho, hp, hmem⟩
    · exact ⟨y, placesAll_children ho hy, hp, hmem⟩

/-- All objects under a DN are children of the one object that has it. -/
theorem Named.mem_children (h : Named none os) (hx : x ∈ placesAll os none) (hne : x.2.getDn ≠ "")
    (hy : y ∈ placesAll os none) (hp : y.1 = some x.2.getDn) : y.2 ∈ x.2.children := by
  rcases parent_of_place hy with ⟨hnone, -⟩ | ⟨z, hz, hzp, hmem⟩
  · rw [hp] at hnone
    simp at hnone
  · have hdn : x.2.getDn = z.2.getDn := Option.some.inj (hp.symm.trans hzp)
    rwa [h.eq_of_getDn hx hz hdn hne]

theorem placesAll_trans (hx : x ∈ placesAll os parent)
    (hy : y ∈ placesAll x.2.children (some x.2.getDn)) : y ∈ placesAll os parent := by
  have hobj : ∀ (o : ApicObject) (x y : Option String × ApicObject),
      x ∈ placesAll o.children (some o.getDn) → y ∈ placesAll x.2.children (some x.2.getDn) →
        y ∈ placesAll o.children (some o.getDn) := by
    intro o
    induction o using ApicObject.induction with
    | h o ih =>
      intro x y hx hy
      obtain ⟨c, hc, rfl | hx⟩ := mem_placesAll.mp hx
      · exact placesAll_children hc hy
      · exact placesAll_children hc (ih c hc x y hx hy)
  obtain ⟨o, ho, rfl | hx⟩ := mem_placesAll.mp hx
  · exact placesAll_children ho hy
  · exact placesAll_children ho (hobj o x y hx hy)

/-- Nothing below an object without DN has one. -/
theorem Named.unnamed_below (h : Named parent os) (hx : x ∈ placesAll os parent)
    (hempty : x.2.getDn = "") (hy : y ∈ placesAll x.2.children (some x.2.getDn)) : y.2.getDn = "" := by
  obtain ⟨p, o⟩ := x
  induction o using ApicObject.induction generalizing p with
  | h o ih =>
    obtain ⟨c, hc, hy⟩ := mem_placesAll.mp hy
    have hcx := placesAll_trans hx (placesAll_root (some o.getDn) hc)
    have hcempty := h.unnamed _ hcx (congrArg some hempty)
    rcases hy with rfl | hy
    · exact hcempty
    · exact ih c hc _ hcx hcempty hy

theorem sortedLe_sortByDn (os : List ApicObject) : SortedLe (sortByDn os) := by
  exact pairwise_insertionSort _ os

theorem mem_setTagLoop (h : c ∈ (setTagLoop tag cs).2) : ∃ o ∈ cs, c.children = o.children := by
  induction cs with
  | nil => exact absurd h not_mem_nil
  | cons o os ih =>
    have hrest : c ∈ (setTagLoop tag os).2 → ∃ o' ∈ o :: os, c.children = o'.children := by
      intro h
      obtain ⟨o', ho', heq⟩ := ih h
      exact ⟨o', mem_cons_of_mem _ ho', heq⟩
    rw [setTagLoop] at h
    split at h
    · split at h
      · rcases mem_cons.mp h with rfl | h
        · exact ⟨o, mem_cons_self, rfl⟩
        · exact ⟨c, mem_cons_of_mem _ h, rfl⟩
      · exact hrest h
    · rcases mem_cons.mp h with rfl | h
      · exact ⟨c, mem_cons_self, rfl⟩
      · exact hrest h

/-- A tag has no children, and the other objects keep theirs. -/
theorem mem_tagged {attributes : Attributes} (h : c ∈ tagged naming tag className attributes cs) :
    c.children = [] ∨ ∃ o ∈ cs, c.children = o.children := by
  have hwalk : c ∈ (setTagLoop tag cs.reverse).2.reverse → ∃ o ∈ cs, c.children = o.children := by
    intro h
    obtain ⟨o, ho, heq⟩ := mem_setTagLoop (mem_reverse.mp h)
    exact ⟨o, mem_reverse.mp ho, heq⟩
  unfold tagged setTag at h
  split at h
  · simp only at h
    split at h
    · exact .inr (hwalk h)
    · rcases mem_append.mp h with h | h
      · exact .inr (hwalk h)
      · rw [mem_singleton.mp h]
        exact .inl rfl
  · exact .inr ⟨c, h, rfl⟩

section

variable (naming : Naming) (tag : String)

theorem sortedLe_prepared (os : List ApicObject) : SortedLe (prepareApicSliceTag naming tag os) := by
  rw [prepareApicSliceTag, ← sortByDn_map (prepareObject_getDn naming tag)]
  exact sortedLe_sortByDn _

theorem sortedLe_prepareObject (o : ApicObject) : SortedLe (prepareObject naming tag o).children := by
  rw [prepareObject_eq]
  exact sortedLe_prepared naming tag _

theorem sortedLe_below_prepareObject (o : ApicObject) :
    ∀ parent, ∀ x ∈ placesAll (prepareObject naming tag o).children parent, SortedLe x.2.children := by
  induction o using ApicObject.induction with
  | h o ih =>
    intro parent x hx
    obtain ⟨c, hc, hx⟩ := mem_placesAll.mp hx
    have hc' : c ∈ tagged naming tag o.className o.attributes (prepareEach naming tag o.children) := by
      cases o
      exact (mem_insertionSort _).mp hc
    rcases mem_tagged hc' with hnil | ⟨c₀, hc₀, heq⟩
    · rcases hx with rfl | hx
      · rw [hnil]
        exact List.Pairwise.nil
      · rw [hnil] at hx
        exact absurd hx not_mem_nil
    · rw [prepareEach_eq] at hc₀
      obtain ⟨o', ho', rfl⟩ := mem_map.mp hc₀
      rcases hx with rfl | hx
      · rw [heq]
        exact sortedLe_prepareObject naming tag o'
      · rw [heq] at hx
        exact ih o' ho' _ x hx

end

/-- Prepared objects with one object for a DN can be compared. -/
theorem tame_prepared (h : Named none (prepareApicSliceTag naming tag os)) :
    Tame none (prepareApicSliceTag naming tag os) where
  toNamed := h
  sorted := sortedLe_prepared naming tag os
  below x hx := by
    obtain ⟨o', ho', hx⟩ := mem_placesAll.mp hx
    obtain ⟨o, -, rfl⟩ := mem_map.mp ho'
    rcases hx with rfl | hx
    · exact sortedLe_prepareObject naming tag o
    · exact sortedLe_below_prepareObject naming tag o _ x hx

theorem getStr_attrLoop (bodyc : Attributes) (l : List (String × String)) (bodyd : Attributes) :
    (attrLoop className bodyc l bodyd).2.getStr "dn" = bodyd.getStr "dn" := by
  induction l generalizing bodyd with
  | nil => rfl
  | cons a l ih =>
    obtain ⟨p, default⟩ := a
    rw [attrLoop]
    split
    · next hcustom =>
      have hp : p = "tnVnsAbsGraphName" := by
        simp only [customGraph, Bool.and_eq_true, decide_eq_true_eq] at hcustom
        exact hcustom.1.1.2
      rw [ih, Attributes.getStr, put_other _ _ (by rw [hp]; decide), Attributes.getStr]
    · split
      · rfl
      · exact ih bodyd

theorem getStr_apicBodyAttrCmp (bodyc bodyd : Attributes) :
    (apicBodyAttrCmp className bodyc bodyd).2.getStr "dn" = bodyd.getStr "dn" := by
  unfold apicBodyAttrCmp
  split
  · rfl
  · next entry _ =>
    rw [← getStr_attrLoop bodyc entry.attributes bodyd]
    split
    · next h => rw [h]
    · next h =>
      rw [h]
      split <;> rfl

theorem skeleton_apicObjCmp (c : ApicObject) : ∀ d, skeleton (apicObjCmp c d).desired = skeleton d := by
  induction c using ApicObject.induction with
  | h c ih =>
    intro d
    by_cases hclass : c.className = d.className
    · rw [apicObjCmp_eq hclass]
      refine skeleton_ext rfl ?_ ?_
      · simp [ApicObject.getDn, getStr_apicBodyAttrCmp]
      · have hturn : ∀ x ∈ align cmpApicObject c.children d.children,
            (turn x).desired.map skeleton = x.second.map skeleton := by
          intro x hx
          cases x with
          | left a => rfl
          | right b => rfl
          | both a b =>
            have ha := (mem_of_align_both hx).1
            simp [turn, Pairing.mapLeft, childCmp, Pairing.second, ih a ha b]
        rw [map_flatMap, flatMap_congr hturn, ← map_flatMap, align_second]
    · obtain ⟨classc, hint, bodyc, cs⟩ := c
      rw [apicObjCmp, if_pos hclass]

theorem skeleton_apicCntCmp (c d : ApicObject) : skeleton (apicCntCmp c d).2 = skeleton d := by
  unfold apicCntCmp
  split
  · rfl
  · refine skeleton_ext rfl ?_ rfl
    simp [ApicObject.getDn, getStr_apicBodyAttrCmp]

theorem skeleton_diffApicState (containerDns : String → Bool) (current desired : List ApicObject) :
    (diffApicState containerDns current desired).desired.map skeleton = desired.map skeleton := by
  have hturn : ∀ x ∈ align cmpApicObject current desired,
      (rootDiff containerDns x).desired.map skeleton = x.second.map skeleton := by
    intro x _
    cases x with
    | left a => rfl
    | right b => rfl
    | both a b =>
      rw [rootDiff]
      split
      · simp [Pairing.second, skeleton_apicCntCmp]
      · simp [Pairing.second, skeleton_apicObjCmp]
  unfold diffApicState
  simp only
  rw [flatMap_map, map_flatMap, flatMap_congr hturn, ← map_flatMap, align_second]

theorem empty_le (s : String) : "" ≤ s := by
  exact not_lt_nil _

theorem filter_unnamed (h : SortedLe os) :
    os = os.filter (fun o => o.getDn = "") ++ os.filter fun o => o.getDn ≠ "" := by
  induction os with
  | nil => rfl
  | cons o os ih =>
    obtain ⟨hle, hos⟩ := pairwise_cons.mp h
    by_cases ho : o.getDn = ""
    · simp only [ho, ne_eq, not_true_eq_false, decide_true, decide_false, filter_cons_of_pos,
        Bool.false_eq_true, not_false_eq_true, filter_cons_of_neg, cons_append]
      rw [← ih hos]
    · have hnone : os.filter (fun o => o.getDn = "") = [] := by
        rw [filter_eq_nil_iff]
        intro a ha hempty
        refine ho (le_antisymm ?_ (empty_le _))
        have hlea := hle a ha
        rwa [of_decide_eq_true hempty] at hlea
      have hall := ih hos
      rw [hnone, nil_append] at hall
      rw [filter_cons_of_neg (by simpa using ho), filter_cons_of_pos (by simpa using ho),
        hnone, nil_append, ← hall]

theorem Tame.sorted_named (h : Tame parent os) : Sorted (os.filter fun o => o.getDn ≠ "") := by
  have hle : (os.filter fun o => o.getDn ≠ "").Pairwise fun a b => a.getDn ≤ b.getDn :=
    h.sorted.sublist filter_sublist
  have hsub : (os.map ApicObject.getDn).Sublist (dns os parent) := by
    rw [dns_eq, map_eq_flatMap]
    exact List.Sublist.flatMap_right os fun o _ => singleton_sublist.mpr mem_cons_self
  have hnodup : ((os.map ApicObject.getDn).filter (· ≠ "")).Nodup :=
    h.once.sublist (hsub.filter _)
  rw [filter_map] at hnodup
  refine (hle.and (pairwise_map.mp hnodup)).imp ?_
  rintro a b ⟨hab, hne⟩
  exact lt_of_le_of_ne hab hne

section Level

variable {ds : List ApicObject}

theorem Tame.left_named (hcs : Tame parent cs) (hds : Tame parent ds)
    (h : .left c ∈ align cmpApicObject cs ds) (hne : c.getDn ≠ "") : c.getDn ∉ ds.map ApicObject.getDn := by
  have hempty : ∀ (l : List ApicObject), ∀ o ∈ l.filter (fun o => o.getDn = ""), o.getDn = "" := by
    simp
  have hnamed : ∀ (l : List ApicObject), ∀ o ∈ l.filter (fun o => o.getDn ≠ ""), "" < o.getDn := by
    intro l o ho
    refine lt_of_le_of_ne (empty_le _) ?_
    exact Ne.symm (by simpa using (mem_filter.mp ho).2)
  rw [filter_unnamed hcs.sorted, filter_unnamed hds.sorted, align_append cmpApicObject] at h
  · rcases mem_append.mp h with h | h
    · exact absurd (hempty _ _ (mem_of_align_left h)) hne
    · have hfits := fits_align hcs.sorted_named hds.sorted_named _ h
      intro hmem
      obtain ⟨d, hd, hdn⟩ := mem_map.mp hmem
      exact hfits.2 d (mem_filter.mpr ⟨hd, by simpa [hdn] using hne⟩) hdn
  · intro a ha b hb
    rw [cmpApicObject, hempty _ a ha]
    exact (cmp_eq_lt_iff _ _).mpr (hnamed _ b hb)
  · intro a ha b hb
    rw [cmpApicObject, hempty _ b hb]
    exact (cmp_eq_gt_iff _ _).mpr (hnamed _ a ha)

/-- An object without partner is passed alone. -/
theorem left_mem (hc : c ∈ cs) (hno : c.getDn ∉ ds.map ApicObject.getDn) : .left c ∈ align cmpApicObject cs ds := by
  rcases mem_align_left cmpApicObject cs ds hc with hl | ⟨d, hb⟩
  · exact hl
  · obtain ⟨-, hd, hcmp⟩ := mem_of_align_both hb
    have hdn : c.getDn = d.getDn := (cmp_eq_eq_iff _ _).mp hcmp
    exact absurd (hdn ▸ mem_map_of_mem hd) hno

/-- Objects of the same DN are passed together. -/
theorem Tame.both_mem (hcs : Tame parent cs) (hds : Tame parent ds) {d : ApicObject} (hc : c ∈ cs)
    (hd : d ∈ ds) (hdn : c.getDn = d.getDn) (hne : c.getDn ≠ "") : .both c d ∈ align cmpApicObject cs ds := by
  rcases mem_align_left cmpApicObject cs ds hc with hl | ⟨d', hb⟩
  · exact absurd (hdn ▸ mem_map_of_mem hd) (hcs.left_named hds hl hne)
  · obtain ⟨-, hd', hcmp⟩ := mem_of_align_both hb
    have hdn' : c.getDn = d'.getDn := (cmp_eq_eq_iff _ _).mp hcmp
    have heq := hds.eq_of_getDn (placesAll_root parent hd) (placesAll_root parent hd')
      (hdn.symm.trans hdn') (hdn ▸ hne)
    rwa [(Prod.mk.inj heq).2]

end Level

variable {dn : String}

theorem apicObjCmp_deletes (c d : ApicObject) : (apicObjCmp c d).deletes =
      if c.className = d.className then levelDeletes c.children d.children else [] := by
  by_cases hclass : c.className = d.className
  · rw [apicObjCmp_eq hclass, if_pos hclass]
  · obtain ⟨classc, hint, bodyc, cs⟩ := c
    rw [apicObjCmp, if_pos hclass, if_neg hclass]

/-- Where a delete of a level comes from. -/
theorem mem_levelDeletes {cs ds : List ApicObject} (h : dn ∈ levelDeletes cs ds) :
    (∃ c, .left c ∈ align cmpApicObject cs ds ∧ checkNonDeletable c.className ∧ c.getDn = dn) ∨
      ∃ c d, .both c d ∈ align cmpApicObject cs ds ∧ c.className = d.className ∧
        dn ∈ levelDeletes c.children d.children := by
  obtain ⟨x, hx, hturn⟩ := mem_flatMap.mp h
  cases x with
  | left c =>
    simp only [turn, Pairing.mapLeft, childCmp, extraDeletes] at hturn
    split at hturn
    · next hdeletable => exact .inl ⟨c, hx, hdeletable, (mem_singleton.mp hturn).symm⟩
    · exact absurd hturn not_mem_nil
  | right d => exact absurd hturn not_mem_nil
  | both c d =>
    simp only [turn, Pairing.mapLeft, childCmp, apicObjCmp_deletes] at hturn
    split at hturn
    · next hclass => exact .inr ⟨c, d, hx, hclass, hturn⟩
    · exact absurd hturn not_mem_nil

theorem levelDeletes_of_left {cs ds : List ApicObject} (h : .left c ∈ align cmpApicObject cs ds)
    (hdeletable : checkNonDeletable c.className) : c.getDn ∈ levelDeletes cs ds := by
  refine mem_flatMap.mpr ⟨_, h, ?_⟩
  simp [turn, Pairing.mapLeft, childCmp, extraDeletes, hdeletable]

theorem levelDeletes_of_both {cs ds : List ApicObject} {d : ApicObject}
    (h : .both c d ∈ align cmpApicObject cs ds) (hclass : c.className = d.className)
    (hdn : dn ∈ levelDeletes c.children d.children) : dn ∈ levelDeletes cs ds := by
  refine mem_flatMap.mpr ⟨_, h, ?_⟩
  simpa [turn, Pairing.mapLeft, childCmp, apicObjCmp_deletes, hclass] using hdn

/-- Without containers the deletes are those of the level of the roots. -/
theorem deletes_diffApicState (current desired : List ApicObject) :
    (diffApicState (fun _ => false) current desired).deletes = levelDeletes current desired := by
  unfold diffApicState levelDeletes
  simp only [flatMap_map]
  refine flatMap_congr fun x _ => ?_
  cases x <;> rfl

/-- Only objects of the current forest are deleted. -/
theorem dns_of_levelDeletes {cs ds : List ApicObject} (parent : Option String)
    (h : dn ∈ levelDeletes cs ds) : dn ∈ dns cs parent := by
  have hobj : ∀ (c : ApicObject) (ds : List ApicObject) (dn : String),
      dn ∈ levelDeletes c.children ds → dn ∈ dns c.children (some c.getDn) := by
    intro c
    induction c using ApicObject.induction with
    | h c ih =>
      intro ds dn hdn
      rcases mem_levelDeletes hdn with ⟨a, ha, -, rfl⟩ | ⟨a, d, ha, -, hdn⟩
      · exact mem_dns.mpr ⟨_, placesAll_root _ (mem_of_align_left ha), rfl⟩
      · have hmem := (mem_of_align_both ha).1
        obtain ⟨x, hx, hxdn⟩ := mem_dns.mp (ih a hmem _ dn hdn)
        exact mem_dns.mpr ⟨x, placesAll_children hmem hx, hxdn⟩
  rcases mem_levelDeletes h with ⟨a, ha, -, rfl⟩ | ⟨a, d, ha, -, hdn⟩
  · exact mem_dns.mpr ⟨_, placesAll_root _ (mem_of_align_left ha), rfl⟩
  · obtain ⟨x, hx, hxdn⟩ := mem_dns.mp (hobj a _ dn hdn)
    exact mem_dns.mpr ⟨x, placesAll_children (mem_of_align_both ha).1 hx, hxdn⟩

/-- Between two writes of a key no DN changes its parent or its class, and an object that goes
away while its parent stays may be deleted. -/
structure Steady (old new : List ApicObject) : Prop where
  stays : ∀ x ∈ placesAll old none, ∀ y ∈ placesAll new none, x.2.getDn = y.2.getDn →
    x.2.getDn ≠ "" → x.1 = y.1 ∧ x.2.className = y.2.className
  deletable : ∀ x ∈ placesAll old none, x.2.getDn ≠ "" → x.2.getDn ∉ dns new none →
    (∀ p ∈ x.1, p ∈ dns new none) → checkNonDeletable x.2.className = true

instance (old new : List ApicObject) : Decidable (Steady old new) :=
  decidable_of_iff ((∀ x ∈ placesAll old none, ∀ y ∈ placesAll new none, x.2.getDn = y.2.getDn →
      x.2.getDn ≠ "" → x.1 = y.1 ∧ x.2.className = y.2.className) ∧
      ∀ x ∈ placesAll old none, x.2.getDn ≠ "" → x.2.getDn ∉ dns new none →
        (∀ p ∈ x.1, p ∈ dns new none) → checkNonDeletable x.2.className = true)
    ⟨fun h => ⟨h.1, h.2⟩, fun h => ⟨h.1, h.2⟩⟩

section Deletes

variable {old new : List ApicObject}

/-- Two lists of siblings at the same place of both forests. -/
structure SamePlace (old new : List ApicObject) (parent : Option String)
    (cs ds : List ApicObject) : Prop where
  left : ∀ c ∈ cs, (parent, c) ∈ placesAll old none
  right : ∀ d ∈ ds, (parent, d) ∈ placesAll new none
  all : ∀ y ∈ placesAll new none, y.1 = parent → y.2 ∈ ds
  parent_new : ∀ p ∈ parent, p ∈ dns new none
  tame_left : Tame parent cs
  tame_right : Tame parent ds

theorem samePlace_root (hold : Tame none old) (hnew : Tame none new) : SamePlace old new none old new where
  left c hc := placesAll_root none hc
  right d hd := placesAll_root none hd
  all y hy hp := by
    rcases parent_of_place hy with ⟨-, hmem⟩ | ⟨z, -, hz, -⟩
    · exact hmem
    · rw [hp] at hz
      simp at hz
  parent_new p hp := absurd hp (by simp)
  tame_left := hold
  tame_right := hnew

variable {ds : List ApicObject} (h : SamePlace old new parent cs ds)
include h

theorem SamePlace.children (hnew : Tame none new) {d : ApicObject} (hc : c ∈ cs) (hd : d ∈ ds)
    (hdn : c.getDn = d.getDn) (hne : c.getDn ≠ "") : SamePlace old new (some c.getDn) c.children d.children where
  left a ha := placesAll_trans (h.left c hc) (placesAll_root _ ha)
  right b hb := by
    rw [hdn]
    exact placesAll_trans (h.right d hd) (placesAll_root _ hb)
  all y hy hp := hnew.mem_children (h.right d hd) (hdn ▸ hne) hy (hdn ▸ hp)
  parent_new p hp := by
    obtain rfl : c.getDn = p := by simpa using hp
    exact mem_dns.mpr ⟨_, h.right d hd, hdn.symm⟩
  tame_left := h.tame_left.children hc
  tame_right := hdn ▸ h.tame_right.children hd

/-- An object whose DN stays is at the same place. -/
theorem SamePlace.partner (hsteady : Steady old new) (hc : c ∈ cs) (hne : c.getDn ≠ "")
    (hmem : c.getDn ∈ dns new none) : ∃ d ∈ ds, c.getDn = d.getDn ∧ c.className = d.className := by
  obtain ⟨y, hy, hdn⟩ := mem_dns.mp hmem
  obtain ⟨hparent, hclass⟩ := hsteady.stays _ (h.left c hc) y hy hdn.symm hne
  exact ⟨y.2, h.all y hy hparent.symm, hdn.symm, hclass⟩

omit h

/-- No DN of the new forest is deleted. -/
theorem SamePlace.deletes_gone (hnew : Tame none new) (hsteady : Steady old new)
    {parent : Option String} {cs ds : List ApicObject} (h : SamePlace old new parent cs ds)
    (hdn : dn ∈ levelDeletes cs ds) (hne : dn ≠ "") : dn ∉ dns new none := by
  have hleft : ∀ {parent : Option String} {cs ds : List ApicObject},
      SamePlace old new parent cs ds → ∀ {c : ApicObject},
        .left c ∈ align cmpApicObject cs ds → c.getDn ≠ "" → c.getDn ∉ dns new none := by
    intro parent cs ds h c hc hne hmem
    obtain ⟨d, hd, heq, -⟩ := h.partner hsteady (mem_of_align_left hc) hne hmem
    exact h.tame_left.left_named h.tame_right hc hne (heq ▸ mem_map_of_mem hd)
  have hpair : ∀ (c : ApicObject) {parent : Option String} {cs ds : List ApicObject}
      {d : ApicObject}, SamePlace old new parent cs ds → .both c d ∈ align cmpApicObject cs ds →
        ∀ dn ∈ levelDeletes c.children d.children, dn ≠ "" → dn ∉ dns new none := by
    intro c
    induction c using ApicObject.induction with
    | h c ih =>
      intro parent cs ds d h hboth dn hdn hne
      obtain ⟨hc, hd, hcmp⟩ := mem_of_align_both hboth
      have heq : c.getDn = d.getDn := (cmp_eq_eq_iff _ _).mp hcmp
      by_cases hempty : c.getDn = ""
      · -- below an object without DN there is none to delete
        obtain ⟨x, hx, hxdn⟩ := mem_dns.mp (dns_of_levelDeletes (some c.getDn) hdn)
        exact absurd (hxdn ▸ h.tame_left.unnamed_below (placesAll_root _ hc) hempty hx) hne
      · have hbelow := h.children hnew hc hd heq hempty
        rcases mem_levelDeletes hdn with ⟨a, ha, -, rfl⟩ | ⟨a, b, ha, -, hdn⟩
        · exact hleft hbelow ha hne
        · exact ih a (mem_of_align_both ha).1 hbelow ha dn hdn hne
  rcases mem_levelDeletes hdn with ⟨a, ha, -, rfl⟩ | ⟨a, b, ha, -, hdn⟩
  · exact hleft h ha hne
  · exact hpair a h ha dn hdn hne

/-- The DNs of an object and of all below it. -/
def subtree (o : ApicObject) : List String := o.getDn :: dns o.children (some o.getDn)

theorem mem_subtree {o : ApicObject} : dn ∈ subtree o ↔ dn = o.getDn ∨ ∃ c ∈ o.children, dn ∈ subtree c := by
  rw [subtree, mem_cons, dns_eq, mem_flatMap]
  rfl

/-- Every DN that goes away is deleted, or is below one that is. -/
theorem SamePlace.gone_deleted (hnew : Tame none new) (hsteady : Steady old new)
    {parent : Option String} {cs ds : List ApicObject} (h : SamePlace old new parent cs ds)
    (hc : c ∈ cs) (hdn : dn ∈ subtree c) (hne : dn ≠ "") (hgone : dn ∉ dns new none) :
    ∃ x ∈ placesAll old none, x.2.getDn ∈ levelDeletes cs ds ∧ x.2.getDn ≠ "" ∧ dn ∈ subtree x.2 := by
  induction c using ApicObject.induction generalizing parent cs ds with
  | h c ih =>
    have hcne : c.getDn ≠ "" := by
      intro hempty
      rcases mem_cons.mp hdn with rfl | hbelow
      · exact hne hempty
      · obtain ⟨x, hx, rfl⟩ := mem_dns.mp hbelow
        exact hne (h.tame_left.unnamed_below (placesAll_root _ hc) hempty hx)
    by_cases hstays : c.getDn ∈ dns new none
    · obtain ⟨d, hd, heq, hclass⟩ := h.partner hsteady hc hcne hstays
      have hboth := h.tame_left.both_mem h.tame_right hc hd heq hcne
      rcases mem_subtree.mp hdn with rfl | ⟨a, ha, hmem⟩
      · exact absurd hstays hgone
      · obtain ⟨x, hx, hdel, hxne, hxdn⟩ :=
          ih a ha (h.children hnew hc hd heq hcne) ha hmem
        exact ⟨x, hx, levelDeletes_of_both hboth hclass hdel, hxne, hxdn⟩
    · have hleft : .left c ∈ align cmpApicObject cs ds := by
        refine left_mem hc fun hmem => hstays ?_
        obtain ⟨d, hd, heq⟩ := mem_map.mp hmem
        exact mem_dns.mpr ⟨_, h.right d hd, heq⟩
      have hdeletable := hsteady.deletable _ (h.left c hc) hcne hstays h.parent_new
      exact ⟨_, h.left c hc, levelDeletes_of_left hleft hdeletable, hcne, hdn⟩

/-- What is below a DN that goes away goes away too. -/
theorem Steady.gone_below (hsteady : Steady old new) (hold : Tame none old)
    {x : Option String × ApicObject} (hx : x ∈ placesAll old none) (hne : x.2.getDn ≠ "")
    (hgone : x.2.getDn ∉ dns new none) (hdn : dn ∈ subtree x.2) (hdne : dn ≠ "") : dn ∉ dns new none := by
  obtain ⟨p, o⟩ := x
  induction o using ApicObject.induction generalizing p with
  | h o ih =>
    rcases mem_subtree.mp hdn with rfl | ⟨c, hc, hmem⟩
    · exact hgone
    · have hcx : (some o.getDn, c) ∈ placesAll old none := placesAll_trans hx (placesAll_root _ hc)
      by_cases hcne : c.getDn = ""
      · rcases mem_cons.mp hmem with rfl | hbelow
        · exact absurd hcne hdne
        · obtain ⟨y, hy, rfl⟩ := mem_dns.mp hbelow
          exact absurd (hold.unnamed_below hcx hcne hy) hdne
      · refine ih c hc _ hcx hcne ?_ hmem
        intro hcnew
        obtain ⟨y, hy, hydn⟩ := mem_dns.mp hcnew
        have hparent := (hsteady.stays _ hcx y hy hydn.symm hcne).1
        rcases parent_of_place hy with ⟨hnone, -⟩ | ⟨z, hz, hzp, -⟩
        · rw [hnone] at hparent
          simp at hparent
        · have heq : o.getDn = z.2.getDn := Option.some.inj (hparent.trans hzp)
          exact hgone (mem_dns.mpr ⟨z, hz, heq.symm⟩)

end Deletes

variable {index : DnIndex}

theorem updateDnIndexOne_eq (o : ApicObject) : updateDnIndexOne index o =
      if o.getDn = "" then index else updateDnIndex (index.insert o.getDn o) o.children := by
  cases o
  rw [updateDnIndexOne]

/-- Entries of other DNs stay. -/
theorem lookup_updateDnIndexOne_of_notMem (o : ApicObject) :
    ∀ (index : DnIndex) (dn : String), (dn ∈ subtree o → dn = "") →
      (updateDnIndexOne index o).lookup dn = index.lookup dn := by
  induction o using ApicObject.induction with
  | h o ih =>
    intro index dn hdn
    have hlist : ∀ (cs : List ApicObject) (index : DnIndex), (∀ c ∈ cs, c ∈ o.children) →
        (∀ c ∈ cs, dn ∈ subtree c → dn = "") →
          (updateDnIndex index cs).lookup dn = index.lookup dn := by
      intro cs
      induction cs with
      | nil => intro index _ _; rw [updateDnIndex]
      | cons c cs ihc =>
        intro index hsub hno
        rw [forall_mem_cons] at hsub hno
        rw [updateDnIndex, ihc _ hsub.2 hno.2, ih c hsub.1 index dn hno.1]
    rw [updateDnIndexOne_eq]
    split
    · rfl
    · next hne =>
      have hdne : dn ≠ o.getDn := by
        rintro rfl
        exact hne (hdn mem_cons_self)
      rw [hlist o.children _ (fun c hc => hc) fun c hc hmem => hdn (mem_subtree.mpr (.inr ⟨c, hc, hmem⟩)),
        lookup_insert_of_ne _ hdne]

theorem lookup_updateDnIndex_of_notMem (os : List ApicObject) (parent : Option String) (index : DnIndex)
    (hdn : dn ∈ dns os parent → dn = "") : (updateDnIndex index os).lookup dn = index.lookup dn := by
  induction os generalizing index with
  | nil => rw [updateDnIndex]
  | cons o os ih =>
    rw [dns_eq, flatMap_cons, mem_append, ← dns_eq os parent] at hdn
    rw [updateDnIndex, ih _ fun h => hdn (.inr h),
      lookup_updateDnIndexOne_of_notMem o index dn fun h => hdn (.inl h)]

theorem Named.sublist {parent : Option String} {l : List ApicObject} (h : Named parent os)
    (hl : l.Sublist os) : Named parent l where
  once := by
    have hsub : (dns l parent).Sublist (dns os parent) := by
      rw [dns_eq, dns_eq]
      exact hl.flatMap _
    exact h.once.sublist (hsub.filter _)
  unnamed x hx := by
    obtain ⟨o, ho, hx⟩ := mem_placesAll.mp hx
    exact h.unnamed x (mem_placesAll.mpr ⟨o, hl.subset ho, hx⟩)

theorem Named.place {parent : Option String} (h : Named parent os) (hx : x ∈ placesAll os parent) :
    Named x.1 [x.2] := by
  have hobj : ∀ (o : ApicObject), Named (some o.getDn) o.children →
      ∀ x ∈ placesAll o.children (some o.getDn), Named x.1 [x.2] := by
    intro o
    induction o using ApicObject.induction with
    | h o ih =>
      intro h x hx
      obtain ⟨c, hc, rfl | hx⟩ := mem_placesAll.mp hx
      · exact h.sublist (singleton_sublist.mpr hc)
      · exact ih c hc (h.children hc) x hx
  obtain ⟨o, ho, rfl | hx⟩ := mem_placesAll.mp hx
  · exact h.sublist (singleton_sublist.mpr ho)
  · exact hobj o (h.children ho) x hx

/-- Siblings have no DN in common. -/
theorem Named.disjoint {parent : Option String} (h : Named parent (o :: os)) (hne : dn ≠ "")
    (hdn : dn ∈ subtree o) : dn ∉ dns os parent := by
  have honce := h.once
  rw [dns_eq, flatMap_cons, filter_append, ← dns_eq os parent] at honce
  intro hmem
  refine (nodup_append.mp honce).2.2 dn (mem_filter.mpr ⟨hdn, by simpa using hne⟩) dn
    (mem_filter.mpr ⟨hmem, by simpa using hne⟩) rfl

theorem Named.root_notMem {parent : Option String} (h : Named parent os) (ho : o ∈ os)
    (hne : o.getDn ≠ "") : o.getDn ∉ dns o.children (some o.getDn) := by
  have honce := (h.sublist (singleton_sublist.mpr ho)).once
  rw [dns_eq, flatMap_cons, flatMap_nil, append_nil, filter_cons_of_pos (by simpa using hne)] at honce
  intro hmem
  exact (nodup_cons.mp honce).1 (mem_filter.mpr ⟨hmem, by simpa using hne⟩)

theorem mem_dns_iff_subtree {parent : Option String} : dn ∈ dns os parent ↔ ∃ o ∈ os, dn ∈ subtree o := by
  rw [dns_eq, mem_flatMap]
  rfl

/-- Every object with a DN is entered. -/
theorem lookup_updateDnIndex {parent : Option String} (h : Named parent os)
    (hx : x ∈ placesAll os parent) (hne : x.2.getDn ≠ "") : (updateDnIndex index os).lookup x.2.getDn = some x.2 := by
  have hlist : ∀ (os : List ApicObject) (parent : Option String) (index : DnIndex),
      Named parent os →
      (∀ o ∈ os, ∀ index, ∀ x ∈ placesAll o.children (some o.getDn), x.2.getDn ≠ "" →
        (updateDnIndex index o.children).lookup x.2.getDn = some x.2) →
      ∀ x ∈ placesAll os parent, x.2.getDn ≠ "" →
        (updateDnIndex index os).lookup x.2.getDn = some x.2 := by
    intro os
    induction os with
    | nil => intro parent index _ _ x hx; exact absurd hx not_mem_nil
    | cons o os ih =>
      intro parent index h hbelow x hx hne
      rw [forall_mem_cons] at hbelow
      rw [updateDnIndex]
      obtain ⟨o', ho', hplace⟩ := mem_placesAll.mp hx
      rcases mem_cons.mp ho' with rfl | ho'
      · have hmem : x.2.getDn ∈ subtree o' := by
          rcases hplace with rfl | hplace
          · exact mem_cons_self
          · exact mem_cons_of_mem _ (mem_dns.mpr ⟨x, hplace, rfl⟩)
        have hone : o'.getDn ≠ "" := by
          intro hempty
          rcases hplace with rfl | hplace
          · exact hne hempty
          · exact hne (h.unnamed_below (placesAll_root parent mem_cons_self) hempty hplace)
        rw [lookup_updateDnIndex_of_notMem os parent _ fun hm => absurd hm (h.disjoint hne hmem),
          updateDnIndexOne_eq, if_neg hone]
        rcases hplace with rfl | hplace
        · have hroot := h.root_notMem mem_cons_self hone
          rw [lookup_updateDnIndex_of_notMem _ _ _ fun hm => absurd hm hroot, lookup_insert]
        · exact hbelow.1 _ x hplace hne
      · exact ih parent _ (h.sublist (sublist_cons_self o os)) hbelow.2 x
          (mem_placesAll.mpr ⟨o', ho', hplace⟩) hne
  have hobj : ∀ (o : ApicObject) (parent : Option String) (os : List ApicObject) (index : DnIndex),
      Named parent os → o ∈ os → ∀ x ∈ placesAll o.children (some o.getDn), x.2.getDn ≠ "" →
        (updateDnIndex index o.children).lookup x.2.getDn = some x.2 := by
    intro o
    induction o using ApicObject.induction with
    | h o ih =>
      intro parent os index h ho
      exact hlist _ _ _ (h.children ho) fun c hc index => ih c hc _ _ index (h.children ho) hc
  exact hlist os parent index h (fun o ho index => hobj o parent os index h ho) x hx hne

/-- Every object of a subtree is entered as it is, or all below it is out of the index. -/
def Intact (index : DnIndex) (o : ApicObject) : Prop :=
  ∀ x ∈ placesAll [o] none, x.2.getDn ≠ "" →
    index.lookup x.2.getDn = some x.2 ∨ ∀ dn ∈ subtree x.2, dn ≠ "" → index.lookup dn = none

theorem subtree_subset (hx : x ∈ placesAll [o] none) : ∀ dn ∈ subtree x.2, dn ∈ subtree o := by
  intro dn hdn
  have hmem : dn ∈ dns [o] none := by
    rcases mem_cons.mp hdn with rfl | hdn
    · exact mem_dns.mpr ⟨x, hx, rfl⟩
    · obtain ⟨y, hy, rfl⟩ := mem_dns.mp hdn
      exact mem_dns.mpr ⟨y, placesAll_trans hx hy, rfl⟩
  obtain ⟨o', ho', hmem⟩ := mem_dns_iff_subtree.mp hmem
  rwa [mem_singleton.mp ho'] at hmem

theorem Intact.congr {index index' : DnIndex} {o : ApicObject} (h : Intact index o)
    (hsame : ∀ dn ∈ subtree o, dn ≠ "" → index'.lookup dn = index.lookup dn) : Intact index' o := by
  intro x hx hne
  have hsub := subtree_subset hx
  rcases h x hx hne with hsome | hnone
  · exact .inl ((hsame _ (hsub _ mem_cons_self) hne).trans hsome)
  · exact .inr fun dn hdn hdne => (hsame dn (hsub dn hdn) hdne).trans (hnone dn hdn hdne)

theorem placesAll_singleton (hc : c ∈ o.children) (hx : x ∈ placesAll [c] none) :
    ∃ y ∈ placesAll [o] none, y.2 = x.2 := by
  obtain ⟨c', hc', hplace⟩ := mem_placesAll.mp hx
  obtain rfl := mem_singleton.mp hc'
  have hroot : (none, o) ∈ placesAll [o] none := placesAll_root none (mem_singleton_self o)
  rcases hplace with rfl | hplace
  · exact ⟨_, placesAll_trans hroot (placesAll_root _ hc), rfl⟩
  · exact ⟨x, placesAll_trans hroot (placesAll_children hc hplace), rfl⟩

theorem Intact.child (h : Intact index o) (hc : c ∈ o.children) : Intact index c := by
  intro x hx hne
  obtain ⟨y, hy, heq⟩ := placesAll_singleton hc hx
  rw [← heq] at hne ⊢
  exact h y hy hne

/-- Removing an object takes out the DNs of its subtree, and nothing else. -/
theorem lookup_removeFromDnIndex {parent : Option String} (h : Named parent os) (ho : o ∈ os)
    (hne : o.getDn ≠ "") (index : DnIndex) (hintact : Intact index o) (dn : String) :
    (removeFromDnIndex index o.getDn).lookup dn = if dn ∈ subtree o ∧ dn ≠ "" then none else index.lookup dn := by
  induction o using ApicObject.induction generalizing parent os index dn with
  | h o ih =>
    rw [removeFromDnIndex_eq, if_neg hne]
    rcases hintact _ (placesAll_root none (mem_singleton_self o)) hne with hsome | hnone
    · rw [hsome]
      have hlist : ∀ (cs : List ApicObject) (index : DnIndex), (∀ c ∈ cs, c ∈ o.children) →
          Named (some o.getDn) cs → (∀ c ∈ cs, Intact index c) →
          (cs.foldl (fun index child => removeFromDnIndex index child.getDn) index).lookup dn =
            if (∃ c ∈ cs, dn ∈ subtree c) ∧ dn ≠ "" then none else index.lookup dn := by
        intro cs
        induction cs with
        | nil => intro index _ _ _; simp
        | cons c cs ihc =>
          intro index hsub hnamed hintact
          rw [forall_mem_cons] at hsub hintact
          have hstep : ∀ dn, (removeFromDnIndex index c.getDn).lookup dn =
              if dn ∈ subtree c ∧ dn ≠ "" then none else index.lookup dn := by
            intro dn
            by_cases hempty : c.getDn = ""
            · have hno : ¬ (dn ∈ subtree c ∧ dn ≠ "") := by
                rintro ⟨hmem, hdne⟩
                rcases mem_cons.mp hmem with rfl | hmem
                · exact hdne hempty
                · obtain ⟨y, hy, rfl⟩ := mem_dns.mp hmem
                  exact hdne (hnamed.unnamed_below (placesAll_root _ mem_cons_self) hempty hy)
              rw [if_neg hno, removeFromDnIndex_eq, if_pos hempty]
            · exact ih c hsub.1 hnamed mem_cons_self hempty index hintact.1 dn
          have hrest : ∀ c' ∈ cs, Intact (removeFromDnIndex index c.getDn) c' := by
            intro c' hc'
            refine (hintact.2 c' hc').congr fun dn' hdn' hdne' => ?_
            rw [hstep, if_neg]
            rintro ⟨hmem, -⟩
            exact hnamed.disjoint hdne' hmem (mem_dns_iff_subtree.mpr ⟨c', hc', hdn'⟩)
          rw [foldl_cons, ihc _ hsub.2 (hnamed.sublist (sublist_cons_self c cs)) hrest, hstep]
          by_cases hdne : dn = ""
          · simp [hdne]
          · simp only [hdne, ne_eq, not_false_eq_true, and_true, exists_mem_cons_iff]
            by_cases hmem : ∃ c ∈ cs, dn ∈ subtree c
            · simp [hmem]
            · simp [hmem]
      have herase : ∀ c ∈ o.children, Intact (index.erase o.getDn) c := by
        intro c hc
        refine (hintact.child hc).congr fun dn' hdn' hdne' => ?_
        refine lookup_erase_ne ?_
        rintro rfl
        exact h.root_notMem ho hne (mem_dns_iff_subtree.mpr ⟨c, hc, hdn'⟩)
      rw [hlist o.children _ (fun c hc => hc) (h.children ho) herase]
      by_cases hdn : dn = o.getDn
      · subst hdn
        have hself : o.getDn ∈ subtree o := mem_cons_self
        simp [hself, hne, lookup_erase]
      · rw [lookup_erase_ne hdn]
        simp [mem_subtree (o := o), hdn, false_or]
    · have hlookup := hnone _ mem_cons_self hne
      rw [hlookup]
      simp only
      split
      · next hmem => exact hnone dn hmem.1 hmem.2
      · rfl

/-- The DN is that of an object of the forest, or is below one with a DN in the list. -/
def Below (old : List ApicObject) (deletes : List String) (dn : String) : Prop :=
  dn ≠ "" ∧ ∃ x ∈ placesAll old none, x.2.getDn ∈ deletes ∧ x.2.getDn ≠ "" ∧ dn ∈ subtree x.2

/-- The subtrees of a forest are nested. -/
theorem Named.subtree_nested (h : Named none os) {y : Option String × ApicObject}
    (hx : x ∈ placesAll os none) (hy : y ∈ placesAll os none) (hne : y.2.getDn ≠ "")
    (hmem : y.2.getDn ∈ subtree x.2) : ∀ dn ∈ subtree y.2, dn ∈ subtree x.2 := by
  have hplace : y = x ∨ y ∈ placesAll x.2.children (some x.2.getDn) := by
    rcases mem_cons.mp hmem with heq | hbelow
    · exact .inl (h.eq_of_getDn hy hx heq hne)
    · obtain ⟨z, hz, heq⟩ := mem_dns.mp hbelow
      have hyz := h.eq_of_getDn hy (placesAll_trans hx hz) heq.symm hne
      exact .inr (hyz ▸ hz)
  intro dn hdn
  rcases hplace with rfl | hplace
  · exact hdn
  · rcases mem_cons.mp hdn with rfl | hbelow
    · exact hmem
    · obtain ⟨z, hz, rfl⟩ := mem_dns.mp hbelow
      exact mem_cons_of_mem _ (mem_dns.mpr ⟨z, placesAll_trans hplace hz, rfl⟩)

/-- Removing DNs of the forest, or none, one after the other. -/
theorem lookup_foldl_remove {old : List ApicObject} (hold : Named none old)
    (gone : String → Prop) (hbelow : ∀ x ∈ placesAll old none, x.2.getDn ≠ "" → gone x.2.getDn →
      ∀ dn ∈ subtree x.2, dn ≠ "" → gone dn) (deletes : List String)
    (hdeletes : ∀ d ∈ deletes, d ≠ "" → gone d ∧ ∃ x ∈ placesAll old none, x.2.getDn = d) (index : DnIndex)
    (hintact : ∀ x ∈ placesAll old none, x.2.getDn ≠ "" → gone x.2.getDn →
      index.lookup x.2.getDn = some x.2 ∨ ∀ dn ∈ subtree x.2, dn ≠ "" → index.lookup dn = none) (dn : String) :
    (Below old deletes dn → (deletes.foldl removeFromDnIndex index).lookup dn = none) ∧ (¬ Below old deletes dn →
        (deletes.foldl removeFromDnIndex index).lookup dn = index.lookup dn) := by
  induction deletes generalizing index with
  | nil => simp [Below]
  | cons d deletes ih =>
    rw [forall_mem_cons] at hdeletes
    rw [foldl_cons]
    by_cases hd : d = ""
    · have hsame : removeFromDnIndex index d = index := by rw [removeFromDnIndex_eq, if_pos hd]
      have hiff : Below old (d :: deletes) dn ↔ Below old deletes dn := by
        constructor
        · rintro ⟨hne, x, hx, hmem, hxne, hdn⟩
          exact ⟨hne, x, hx, (mem_cons.mp hmem).resolve_left (hd ▸ hxne), hxne, hdn⟩
        · rintro ⟨hne, x, hx, hmem, hxne, hdn⟩
          exact ⟨hne, x, hx, mem_cons_of_mem _ hmem, hxne, hdn⟩
      rw [hsame, hiff]
      exact ih hdeletes.2 index hintact
    · obtain ⟨hgone, x, hx, rfl⟩ := hdeletes.1 hd
      have hone : Intact index x.2 := by
        intro y hy hne
        have hsub := subtree_subset hy _ mem_cons_self
        obtain ⟨o, ho, hplace⟩ := mem_placesAll.mp hy
        obtain rfl := mem_singleton.mp ho
        rcases hplace with rfl | hplace
        · exact hintact x hx hne hgone
        · exact hintact y (placesAll_trans hx hplace) hne (hbelow x hx hd hgone _ hsub hne)
      have hremoved := lookup_removeFromDnIndex (hold.place hx) (mem_singleton_self x.2) hd
        index hone
      have hnext : ∀ y ∈ placesAll old none, y.2.getDn ≠ "" → gone y.2.getDn →
          (removeFromDnIndex index x.2.getDn).lookup y.2.getDn = some y.2 ∨
            ∀ dn ∈ subtree y.2, dn ≠ "" →
              (removeFromDnIndex index x.2.getDn).lookup dn = none := by
        intro y hy hne hygone
        by_cases hmem : y.2.getDn ∈ subtree x.2
        · right
          intro dn' hdn' hdne'
          rw [hremoved, if_pos ⟨hold.subtree_nested hx hy hne hmem dn' hdn', hdne'⟩]
        · rcases hintact y hy hne hygone with hsome | hnone
          · left
            rw [hremoved, if_neg fun h => hmem h.1, hsome]
          · right
            intro dn' hdn' hdne'
            rw [hremoved, hnone dn' hdn' hdne', ite_self]
      obtain ⟨hcovered, hfree⟩ := ih hdeletes.2 _ hnext
      have hcons : ∀ {dn'}, Below old deletes dn' → Below old (x.2.getDn :: deletes) dn' :=
        fun ⟨hne, y, hy, hmem, hyne, hdn'⟩ =>
          ⟨hne, y, hy, mem_cons_of_mem _ hmem, hyne, hdn'⟩
      constructor
      · intro h
        by_cases hdel : Below old deletes dn
        · exact hcovered hdel
        · rw [hfree hdel, hremoved, if_pos]
          obtain ⟨hne, y, hy, hmem, hyne, hdn⟩ := h
          rcases mem_cons.mp hmem with heq | hmem
          · rw [← hold.eq_of_getDn hy hx heq hyne]
            exact ⟨hdn, hne⟩
          · exact absurd ⟨hne, y, hy, hmem, hyne, hdn⟩ hdel
      · intro h
        rw [hfree fun hdel => h (hcons hdel), hremoved, if_neg]
        rintro ⟨hdn, hne⟩
        exact h ⟨hne, x, hx, mem_cons_self, hd, hdn⟩

/-- The index has the objects of the desired state, each under its DN. -/
def DnIndexExact (conn : Conn) : Prop :=
  ∀ dn o, conn.desiredStateDn.lookup dn = some o ↔
    dn ≠ "" ∧ o.getDn = dn ∧
      ∃ key os, conn.desiredState key = some os ∧ ∃ parent, (parent, o) ∈ placesAll os none

def WriteEvent.key : WriteEvent → String
  | .writeApicObjects key _ => key
  | .clearApicObjects key => key

def WriteEvent.objects : WriteEvent → Option (List ApicObject)
  | .writeApicObjects _ objects => objects
  | .clearApicObjects _ => none

/-- The objects of a write as they are prepared. -/
def WriteEvent.prepared (naming : Naming) (e : WriteEvent) : List ApicObject :=
  prepareApicSliceTag naming (naming.getTagFromKey e.key) (e.objects.getD [])

/-- Every DN is written by at most one key. -/
def OneWriter (naming : Naming) (events : List WriteEvent) : Prop :=
  ∀ e ∈ events, ∀ e' ∈ events, ∀ dn ∈ dns (e.prepared naming) none, dn ≠ "" →
    dn ∈ dns (e'.prepared naming) none → e.key = e'.key

instance (naming : Naming) (events : List WriteEvent) : Decidable (OneWriter naming events) :=
  inferInstanceAs (Decidable (∀ e ∈ events, ∀ e' ∈ events, ∀ dn ∈ dns (e.prepared naming) none,
    dn ≠ "" → dn ∈ dns (e'.prepared naming) none → e.key = e'.key))

/-- A write has one object for a DN and moves none that the key has written before. -/
def WriteOk (naming : Naming) (conn : Conn) (e : WriteEvent) : Prop :=
  Named none (e.prepared naming) ∧
    Steady ((conn.desiredState e.key).getD []) (e.prepared naming)

instance (naming : Naming) (conn : Conn) (e : WriteEvent) : Decidable (WriteOk naming conn e) :=
  inferInstanceAs (Decidable (_ ∧ _))

structure DnInv (writes : String → String → Prop) (conn : Conn) : Prop where
  unlocked : conn.locked = false
  containers : conn.containerDns = fun _ => false
  tame : ∀ key os, conn.desiredState key = some os → Tame none os
  written : ∀ key os, conn.desiredState key = some os → ∀ dn ∈ dns os none, dn ≠ "" → writes key dn
  index : DnIndexExact conn

theorem writeStep_eq (naming : Naming) (conn : Conn) (e : WriteEvent) :
    writeStep naming conn e = conn.doWriteApicObjects naming e.key e.objects false := by
  cases e <;> rfl

/-- The destinations that are deleted with a policy are its children. -/
theorem redirectDests_spec {index : DnIndex} {deletes : List String}
    (h : ∀ d ∈ deletes, d ≠ "" → (index.lookup d).isSome) : ∃ dests, redirectDests index deletes = some dests ∧
      ∀ dn ∈ dests, ∃ d ∈ deletes, d ≠ "" ∧ ∃ o, index.lookup d = some o ∧ ∃ c ∈ o.children, c.getDn = dn := by
  induction deletes with
  | nil => exact ⟨[], rfl, fun dn hdn => absurd hdn not_mem_nil⟩
  | cons d deletes ih =>
    rw [forall_mem_cons] at h
    obtain ⟨dests, hdests, hspec⟩ := ih h.2
    have hmore : ∀ dn ∈ dests, ∃ d' ∈ d :: deletes, d' ≠ "" ∧
        ∃ o, index.lookup d' = some o ∧ ∃ c ∈ o.children, c.getDn = dn := by
      intro dn hdn
      obtain ⟨d', hd', hrest⟩ := hspec dn hdn
      exact ⟨d', mem_cons_of_mem _ hd', hrest⟩
    unfold redirectDests at hdests ⊢
    obtain ⟨policies, hpolicies, rfl⟩ := Option.map_eq_some_iff.mp hdests
    by_cases hpol : isRedirectPol d
    · have hne : d ≠ "" := by
        rintro rfl
        exact absurd hpol (by decide)
      obtain ⟨o, ho⟩ := Option.isSome_iff_exists.mp (h.1 hne)
      refine ⟨(o :: policies).flatMap redirectDestDns, ?_, ?_⟩
      · rw [filter_cons_of_pos hpol, mapM_cons, ho, hpolicies]
        rfl
      · intro dn hdn
        rw [flatMap_cons, mem_append] at hdn
        rcases hdn with hdn | hdn
        · obtain ⟨c, hc, rfl⟩ := mem_map.mp hdn
          exact ⟨d, mem_cons_self, hne, o, ho, c, (mem_filter.mp hc).1, rfl⟩
        · exact hmore dn hdn
    · refine ⟨policies.flatMap redirectDestDns, ?_, hmore⟩
      rw [filter_cons_of_neg hpol, hpolicies]
      rfl

theorem tame_nil : Tame none [] :=
  ⟨⟨nodup_nil, fun _ hx => absurd hx not_mem_nil⟩, List.Pairwise.nil,
    fun _ hx => absurd hx not_mem_nil⟩

section Write

variable {key : String} {writes : String → String → Prop} {conn : Conn} {e : WriteEvent}

section

variable (h : DnInv writes conn)
include h

theorem DnInv.tame_old (key : String) : Tame none ((conn.desiredState key).getD []) := by
  cases hk : conn.desiredState key with
  | none => exact tame_nil
  | some os => exact h.tame key os hk

/-- The index has the old objects of a key. -/
theorem DnInv.lookup_old {x : Option String × ApicObject}
    (hx : x ∈ placesAll ((conn.desiredState key).getD []) none) (hne : x.2.getDn ≠ "") :
    conn.desiredStateDn.lookup x.2.getDn = some x.2 := by
  cases hk : conn.desiredState key with
  | none =>
    rw [hk] at hx
    exact absurd hx not_mem_nil
  | some os =>
    rw [hk] at hx
    exact (h.index _ _).mpr ⟨hne, rfl, key, os, hk, x.1, hx⟩

/-- Each DN belongs to the key that writes it. -/
theorem DnInv.key_eq (hunique : ∀ k k' dn, writes k dn → writes k' dn → k = k') {k : String}
    {os : List ApicObject} (hk : conn.desiredState k = some os) (hdn : dn ∈ dns os none) (hne : dn ≠ "")
    (hw : writes key dn) : k = key :=
  hunique k key dn (h.written k os hk dn hdn hne) hw

theorem DnInv.writes_old (hdn : dn ∈ dns ((conn.desiredState key).getD []) none) (hne : dn ≠ "") : writes key dn := by
  cases hk : conn.desiredState key with
  | none =>
    rw [hk] at hdn
    exact absurd hdn not_mem_nil
  | some os =>
    rw [hk] at hdn
    exact h.written key os hk dn hdn hne

/-- What a write does to the index. -/
structure Patched (conn : Conn) (e : WriteEvent) (old desired : List ApicObject) (conn' : Conn) :
    Prop where
  unlocked : conn'.locked = false
  containers : conn'.containerDns = conn.containerDns
  others : ∀ k, k ≠ e.key → conn'.desiredState k = conn.desiredState k
  own : ∀ os, conn'.desiredState e.key = some os → os = desired
  stored : desired ≠ [] → conn'.desiredState e.key = some desired
  kept : ∀ dn ∈ dns desired none, dn ≠ "" →
    ∃ x ∈ placesAll desired none, x.2.getDn = dn ∧ conn'.desiredStateDn.lookup dn = some x.2
  gone : ∀ dn ∈ dns old none, dn ≠ "" → dn ∉ dns desired none → conn'.desiredStateDn.lookup dn = none
  frame : ∀ dn, (dn ∈ dns desired none → dn = "") → (dn ∈ dns old none → dn = "") →
    conn'.desiredStateDn.lookup dn = conn.desiredStateDn.lookup dn

omit h in
/-- What is removed lies in the old objects. -/
theorem mem_dns_of_below {old : List ApicObject} {deletes : List String} (hbelow : Below old deletes dn) :
    dn ∈ dns old none := by
  obtain ⟨-, x, hx, -, -, hsub⟩ := hbelow
  rcases mem_cons.mp hsub with rfl | hsub
  · exact mem_dns.mpr ⟨x, hx, rfl⟩
  · obtain ⟨y, hy, rfl⟩ := mem_dns.mp hsub
    exact mem_dns.mpr ⟨y, placesAll_trans hx hy, rfl⟩

/-- The difference that a write applies. -/
def writeDiff (naming : Naming) (conn : Conn) (e : WriteEvent) : Diff :=
  diffApicState conn.containerDns ((conn.desiredState e.key).getD []) (e.prepared naming)

omit h in
theorem dns_writeDiff : dns (writeDiff naming conn e).desired none = dns (e.prepared naming) none := by
  rw [← dns_skeleton, writeDiff, skeleton_diffApicState, dns_skeleton]

/-- Below an old object that goes nothing stays. -/
theorem gone_below_write (hok : WriteOk naming conn e) : ∀ x ∈ placesAll ((conn.desiredState e.key).getD []) none,
    x.2.getDn ≠ "" → x.2.getDn ∉ dns (writeDiff naming conn e).desired none →
      ∀ dn ∈ subtree x.2, dn ≠ "" → dn ∉ dns (writeDiff naming conn e).desired none := by
  intro x hx hne hgone dn hdn hdne
  rw [dns_writeDiff] at hgone ⊢
  exact hok.2.gone_below (h.tame_old e.key) hx hne hgone hdn hdne

/-- The DNs that a write removes, those below redirect policies included, are of old objects that
go. -/
theorem removed_write (hok : WriteOk naming conn e) :
    ∃ dests, redirectDests conn.desiredStateDn (writeDiff naming conn e).deletes = some dests ∧
      ∀ d ∈ (writeDiff naming conn e).deletes ++ dests, d ≠ "" → d ∉ dns (writeDiff naming conn e).desired none ∧
        ∃ x ∈ placesAll ((conn.desiredState e.key).getD []) none, x.2.getDn = d := by
  have hnew : Tame none (e.prepared naming) := tame_prepared hok.1
  have hroot := samePlace_root (h.tame_old e.key) hnew
  have hsound : ∀ d ∈ (writeDiff naming conn e).deletes, d ≠ "" → d ∉ dns (writeDiff naming conn e).desired none ∧
      ∃ x ∈ placesAll ((conn.desiredState e.key).getD []) none, x.2.getDn = d := by
    intro d hd hne
    rw [writeDiff, h.containers, deletes_diffApicState] at hd
    rw [dns_writeDiff]
    exact ⟨hroot.deletes_gone hnew hok.2 hd hne, mem_dns.mp (dns_of_levelDeletes none hd)⟩
  obtain ⟨dests, hdests, hdestSpec⟩ := @redirectDests_spec conn.desiredStateDn (writeDiff naming conn e).deletes (by
    intro d hd hne
    obtain ⟨-, x, hx, rfl⟩ := hsound d hd hne
    rw [h.lookup_old hx hne]
    rfl)
  refine ⟨dests, hdests, fun d hd hne => ?_⟩
  rcases mem_append.mp hd with hd | hd
  · exact hsound d hd hne
  · obtain ⟨d', hd', hne', o, ho, c, hc, rfl⟩ := hdestSpec d hd
    obtain ⟨hgone, x, hx, rfl⟩ := hsound d' hd' hne'
    obtain rfl : x.2 = o := Option.some.inj ((h.lookup_old hx hne').symm.trans ho)
    refine ⟨gone_below_write h hok x hx hne' hgone _ (mem_subtree.mpr (.inr ⟨c, hc, mem_cons_self⟩)) hne, ?_⟩
    exact ⟨_, placesAll_trans hx (placesAll_root _ hc), rfl⟩

theorem writeStep_of_dests {dests : List String}
    (hdests : redirectDests conn.desiredStateDn (writeDiff naming conn e).deletes = some dests) :
    writeStep naming conn e = { conn with
      desiredState :=
        if e.objects.isNone then conn.desiredState.erase e.key
        else conn.desiredState.put e.key (writeDiff naming conn e).desired
      desiredStateDn := ((writeDiff naming conn e).deletes ++ dests).foldl removeFromDnIndex
        (updateDnIndex conn.desiredStateDn (writeDiff naming conn e).desired)
      keyHashes :=
        if e.objects.isNone then conn.keyHashes.erase (naming.getTagFromKey e.key)
        else conn.keyHashes.put (naming.getTagFromKey e.key) e.key
      queued :=
        if conn.syncEnabled then
          conn.queued ++ applyDiff (writeDiff naming conn e).updates ((writeDiff naming conn e).deletes ++ dests)
        else conn.queued } := by
  rw [writeStep_eq, Conn.doWriteApicObjects, h.unlocked]
  simp only [Bool.false_eq_true, if_false]
  erw [hdests]
  rfl

theorem patched_write (hok : WriteOk naming conn e) :
    ∃ desired, desired.map skeleton = (e.prepared naming).map skeleton ∧
      Patched conn e ((conn.desiredState e.key).getD []) desired (writeStep naming conn e) := by
  have hbelow := gone_below_write h hok
  obtain ⟨dests, hdests, hall⟩ := removed_write h hok
  have hskel : (writeDiff naming conn e).desired.map skeleton = (e.prepared naming).map skeleton :=
    skeleton_diffApicState _ _ _
  have hnew : Tame none (e.prepared naming) := tame_prepared hok.1
  have hold := h.tame_old e.key
  have hroot := samePlace_root hold hnew
  have hfold := lookup_foldl_remove hold.toNamed (fun dn => dn ∉ dns (writeDiff naming conn e).desired none) hbelow _
    hall (updateDnIndex conn.desiredStateDn (writeDiff naming conn e).desired) fun x hx hne hgone => .inl (by
      rw [lookup_updateDnIndex_of_notMem _ none _ fun hm => absurd hm hgone, h.lookup_old hx hne])
  have hnil : e.objects.isNone → (writeDiff naming conn e).desired = [] := by
    intro hnone
    have hempty : e.prepared naming = [] := by
      rw [WriteEvent.prepared, Option.isNone_iff_eq_none.mp hnone]
      rfl
    rw [hempty] at hskel
    exact map_eq_nil_iff.mp hskel
  refine ⟨(writeDiff naming conn e).desired, hskel, ?_⟩
  rw [writeStep_of_dests h hdests]
  refine ⟨h.unlocked, rfl, fun k hk => ?_, fun os hos => ?_, fun hne => ?_, fun dn hdn hne => ?_,
    fun dn hdn hne hgone => ?_, fun dn hdn hold' => ?_⟩
  · split
    · exact erase_other _ hk
    · exact put_other _ _ hk
  · split at hos
    · simp at hos
    · simpa using hos.symm
  · split
    · next hnone => exact absurd (hnil hnone) hne
    · exact put_same _ _ _
  · have hkept : ¬ Below ((conn.desiredState e.key).getD []) ((writeDiff naming conn e).deletes ++ dests) dn := by
      rintro ⟨hne, x, hx, hmem, hxne, hsub⟩
      exact hbelow x hx hxne (hall _ hmem hxne).1 dn hsub hne hdn
    obtain ⟨x, hx, rfl⟩ := mem_dns.mp hdn
    exact ⟨x, hx, rfl, ((hfold _).2 hkept).trans
      (lookup_updateDnIndex (hnew.of_skeleton hskel.symm).toNamed hx hne)⟩
  · refine (hfold dn).1 ⟨hne, ?_⟩
    obtain ⟨c, hc, hsub⟩ := mem_dns_iff_subtree.mp hdn
    rw [dns_writeDiff] at hgone
    obtain ⟨x, hx, hdel, hxne, hxsub⟩ := hroot.gone_deleted hnew hok.2 hc hsub hne hgone
    rw [← deletes_diffApicState, ← h.containers] at hdel
    exact ⟨x, hx, mem_append_left _ hdel, hxne, hxsub⟩
  · have hfree : ¬ Below ((conn.desiredState e.key).getD []) ((writeDiff naming conn e).deletes ++ dests) dn :=
      fun hb => hb.1 (hold' (mem_dns_of_below hb))
    exact ((hfold dn).2 hfree).trans (lookup_updateDnIndex_of_notMem _ none _ hdn)

end

theorem dnInv_writeStep (hunique : ∀ k k' dn, writes k dn → writes k' dn → k = k')
    (h : DnInv writes conn) (hok : WriteOk naming conn e)
    (hwrites : ∀ dn ∈ dns (e.prepared naming) none, dn ≠ "" → writes e.key dn) :
    DnInv writes (writeStep naming conn e) := by
  obtain ⟨desired, hskel, hp⟩ := patched_write h hok
  have hdns : dns desired none = dns (e.prepared naming) none := by
    rw [← dns_skeleton, hskel, dns_skeleton]
  rw [← hdns] at hwrites
  have htame : Tame none desired := (tame_prepared hok.1).of_skeleton hskel.symm
  generalize writeStep naming conn e = conn' at hp
  have hown : ∀ k os, conn'.desiredState k = some os → k = e.key ∧ os = desired ∨
      k ≠ e.key ∧ conn.desiredState k = some os := by
    intro k os hk
    by_cases he : k = e.key
    · exact .inl ⟨he, hp.own os (he ▸ hk)⟩
    · exact .inr ⟨he, hp.others k he ▸ hk⟩
  refine ⟨hp.unlocked, hp.containers.trans h.containers, ?_, ?_, ?_⟩
  · intro k os hk
    rcases hown k os hk with ⟨-, rfl⟩ | ⟨-, hk⟩
    · exact htame
    · exact h.tame k os hk
  · intro k os hk dn hdn hne
    rcases hown k os hk with ⟨rfl, rfl⟩ | ⟨-, hk⟩
    · exact hwrites dn hdn hne
    · exact h.written k os hk dn hdn hne
  · intro dn o
    by_cases hnew : dn ∈ dns desired none ∧ dn ≠ ""
    · obtain ⟨x, hx, hxdn, hlookup⟩ := hp.kept dn hnew.1 hnew.2
      rw [hlookup]
      constructor
      · intro heq
        obtain rfl := Option.some.inj heq
        have hstored := hp.stored (by
          rintro rfl
          exact absurd hx not_mem_nil)
        exact ⟨hnew.2, hxdn, e.key, desired, hstored, x.1, hx⟩
      · rintro ⟨hne, rfl, k, os, hk, p, hplace⟩
        rcases hown k os hk with ⟨-, rfl⟩ | ⟨hk', hk⟩
        · have heq := htame.eq_of_getDn hx hplace hxdn (hxdn ▸ hne)
          rw [heq]
        · exact absurd (h.key_eq hunique hk (mem_dns.mpr ⟨_, hplace, rfl⟩) hne (hwrites _ hnew.1 hne)) hk'
    · by_cases hold : dn ∈ dns ((conn.desiredState e.key).getD []) none ∧ dn ≠ ""
      · rw [hp.gone dn hold.1 hold.2 fun hmem => hnew ⟨hmem, hold.2⟩]
        refine ⟨fun heq => absurd heq (by simp), ?_⟩
        rintro ⟨hne, rfl, k, os, hk, p, hplace⟩
        rcases hown k os hk with ⟨-, rfl⟩ | ⟨hk', hk⟩
        · exact absurd ⟨mem_dns.mpr ⟨_, hplace, rfl⟩, hne⟩ hnew
        · exact absurd (h.key_eq hunique hk (mem_dns.mpr ⟨_, hplace, rfl⟩) hne (h.writes_old hold.1 hne)) hk'
      · rw [hp.frame dn (fun hmem => by_contra fun hne => hnew ⟨hmem, hne⟩)
          (fun hmem => by_contra fun hne => hold ⟨hmem, hne⟩), h.index dn o]
        constructor
        · rintro ⟨hne, hdn, k, os, hk, p, hplace⟩
          have hk' : k ≠ e.key := by
            rintro rfl
            refine hold ⟨?_, hne⟩
            rw [hk]
            exact mem_dns.mpr ⟨_, hplace, hdn⟩
          exact ⟨hne, hdn, k, os, (hp.others k hk').trans hk, p, hplace⟩
        · rintro ⟨hne, hdn, k, os, hk, p, hplace⟩
          rcases hown k os hk with ⟨-, rfl⟩ | ⟨-, hk⟩
          · exact absurd ⟨mem_dns.mpr ⟨_, hplace, hdn⟩, hne⟩ hnew
          · exact ⟨hne, hdn, k, os, hk, p, hplace⟩

end Write

theorem dnInv_newConn (writes : String → String → Prop) (syncEnabled : Bool) : DnInv writes (newConn syncEnabled) where
  unlocked := rfl
  containers := rfl
  tame key os h := absurd h (by simp [newConn])
  written key os h := absurd h (by simp [newConn])
  index dn o := by simp [newConn]

/-- The index has exactly the objects of the desired state after every write of a run whose
writes move no DN. -/
theorem dnIndex_exact (naming : Naming) (syncEnabled : Bool) (events : List WriteEvent)
    (hwriter : OneWriter naming events)
    (hok : Along (writeStep naming) (WriteOk naming) (newConn syncEnabled) events) (k : Nat) :
    DnIndexExact (run (writeStep naming) (newConn syncEnabled) (events.take k)) := by
  let writes (key dn : String) : Prop :=
    ∃ e ∈ events, e.key = key ∧ dn ∈ dns (e.prepared naming) none ∧ dn ≠ ""
  have hunique : ∀ k k' dn, writes k dn → writes k' dn → k = k' := by
    rintro k k' dn ⟨e, he, rfl, hdn, hne⟩ ⟨e', he', rfl, hdn', -⟩
    exact hwriter e he e' he' dn hdn hne hdn'
  have hstep : ∀ conn e, DnInv writes conn → WriteOk naming conn e ∧ e ∈ events →
      DnInv writes (writeStep naming conn e) :=
    fun conn e h hok => dnInv_writeStep hunique h hok.1 fun dn hdn hne =>
      ⟨e, hok.2, rfl, hdn, hne⟩
  exact (invariant_take hstep _ events (dnInv_newConn writes syncEnabled) (hok.and_mem fun e he => he) k).index

/-- A tenant loses a bridge domain, another key writes a filter, and the tenant is cleared. -/
theorem dnIndex_exact_tenant :
    let naming : Naming := ⟨"5.2", fun key => "kube-" ++ key⟩
    let events : List WriteEvent :=
      [.writeApicObjects "tenant" (some [object "fvTenant" "uni/tn-a" [("dn", "uni/tn-a")]
          [object "fvBD" "uni/tn-a/BD-b" [("dn", "uni/tn-a/BD-b")] []]]),
        .writeApicObjects "tenant" (some [object "fvTenant" "uni/tn-a" [("dn", "uni/tn-a")] []]),
        .writeApicObjects "filter" (some [object "vzFilter" "uni/tn-c/flt-f" [] []]), .clearApicObjects "tenant"]
    DnIndexExact (run (writeStep naming) (newConn true) (events.take 4)) := by
  intro naming events
  exact dnIndex_exact naming true events (by decide +kernel) (by decide +kernel) 4

/-- A bridge domain that was written on its own and is then written as a child of its tenant
is entered at its new place and removed for its old one. -/
theorem dnIndex_exact_fails :
    ¬ ∀ (naming : Naming) (syncEnabled : Bool) (events : List WriteEvent), OneWriter naming events →
      ∀ k, DnIndexExact (run (writeStep naming) (newConn syncEnabled) (events.take k)) := by
  intro h
  let naming : Naming := ⟨"5.2", fun key => "kube-" ++ key⟩
  let events : List WriteEvent :=
    [.writeApicObjects "tenant" (some [object "fvBD" "uni/tn-a/BD-b" [] []]),
      .writeApicObjects "tenant" (some [object "fvTenant" "uni/tn-a" [] [object "fvBD" "uni/tn-a/BD-b" [] []]])]
  have hexact := h naming true events (by decide +kernel) 2
  generalize hconn : run (writeStep naming) (newConn true) (events.take 2) = conn at hexact
  have hdn : ∀ os ∈ conn.desiredState "tenant", "uni/tn-a/BD-b" ∈ dns os none := by
    rw [← hconn]
    decide +kernel
  have hsome : (conn.desiredState "tenant").isSome := by
    rw [← hconn]
    decide +kernel
  have hnone : conn.desiredStateDn.lookup "uni/tn-a/BD-b" |>.isNone := by
    rw [← hconn]
    decide +kernel
  obtain ⟨os, hos⟩ := Option.isSome_iff_exists.mp hsome
  obtain ⟨x, hx, hxdn⟩ := mem_dns.mp (hdn os hos)
  have hlookup := (hexact "uni/tn-a/BD-b" x.2).mpr
    ⟨by decide, hxdn, "tenant", os, hos, x.1, hx⟩
  rw [hlookup] at hnone
  simp at hnone

end AciContainers.Apic
