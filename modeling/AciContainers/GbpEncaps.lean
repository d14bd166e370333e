import AciContainers.GbpServer

/-!
# Encaps of endpoint groups

Only the creation of a group adds an instance context to what groups list, and a context leaves
the database together with its class. All else that is done to a group adds or drops references,
which carry no encap.
-/
namespace AciContainers.Gbp

open Maps Net Outcomes Option

variable {s : Server} {u uri : String} {e : Int} {g : Mo} {gSubj refSubj : Subject} {c : Nat}
  {draws : Nat → Fin numClassIDs}

/-- The endpoint group at `u` lists `c`. -/
def Lists (db : Db) (u c : String) : Prop := ∃ g, db u = some g ∧ g.subject = .epg ∧ c ∈ g.children

/-- At `c` there is an instance context with this encap. -/
def HasEncap (db : Db) (c : String) (e : Int) : Prop :=
  ∃ x, db c = some x ∧ x.subject = .eic ∧ x.getIntProperty propEncapID = e

def Carries (db : Db) (u : String) (e : Int) : Prop := ∃ c, Lists db u c ∧ HasEncap db c e

structure Server.EncapsOk (s : Server) : Prop where
  keyed : Keyed s.policyDB
  encap : ∀ u c e, Lists s.policyDB u c → HasEncap s.policyDB c e →
    ∃ d, s.classOf c = some d ∧ e = encapFromClass d
  single : ∀ u u' c e, Lists s.policyDB u c → Lists s.policyDB u' c → HasEncap s.policyDB c e → u = u'

theorem Server.EncapsOk.carries_inj (h : s.EncapsOk) (hc : s.ClassesOk) {u' : String}
    (hu : Carries s.policyDB u e) (hu' : Carries s.policyDB u' e) : u = u' := by
  obtain ⟨c, hl, he⟩ := hu
  obtain ⟨c', hl', he'⟩ := hu'
  obtain ⟨d, hd, rfl⟩ := h.encap u c e hl he
  obtain ⟨d', hd', hdd'⟩ := h.encap u' c' _ hl' he'
  have hsame : d = d' := by
    rw [encapFromClass, encapFromClass] at hdd'
    omega
  have hcc' : c = c' := hc.inj c c' d hd (hsame ▸ hd')
  exact h.single u u' c _ hl (hcc' ▸ hl') he

/-- Nothing that carries an encap is added; what groups list is added meets `P`. -/
structure Quiet (P : String → Prop) (db db' : Db) : Prop where
  keyed : Keyed db → Keyed db'
  lists : ∀ u c, Lists db' u c → Lists db u c ∨ P c ∧ ∀ e, ¬ HasEncap db' c e
  encap : ∀ c e, HasEncap db' c e → HasEncap db c e

variable {P : String → Prop} {db db' : Db}

theorem Quiet.refl (P : String → Prop) (db : Db) : Quiet P db db :=
  ⟨id, fun _ _ => .inl, fun _ _ => id⟩

theorem Quiet.trans {db'' : Db} (h : Quiet P db db') (h' : Quiet P db' db'') : Quiet P db db'' where
  keyed hk := h'.keyed (h.keyed hk)
  lists u c hl := by
    rcases h'.lists u c hl with hl | hp
    · rcases h.lists u c hl with hl | ⟨hp, hno⟩
      · exact .inl hl
      · exact .inr ⟨hp, fun e he => hno e (h'.encap c e he)⟩
    · exact .inr hp
  encap c e he := h.encap c e (h'.encap c e he)

theorem Server.EncapsOk.quiet (h : s.EncapsOk) (hq : Quiet P s.policyDB db') :
    Server.EncapsOk { s with policyDB := db' } where
  keyed := hq.keyed h.keyed
  encap u c e hl he := by
    rcases hq.lists u c hl with hl | ⟨-, hno⟩
    · exact h.encap u c e hl (hq.encap c e he)
    · exact absurd he (hno e)
  single u u' c e hl hl' he := by
    rcases hq.lists u c hl with hl | ⟨-, hno⟩
    · rcases hq.lists u' c hl' with hl' | ⟨-, hno⟩
      · exact h.single u u' c e hl hl' (hq.encap c e he)
      · exact absurd he (hno e)
    · exact absurd he (hno e)

/-- An object in place of what was there, of another class or with no more children and the same
properties. -/
theorem quiet_put (hg : g.uri = u) (hlists : g.subject = .epg → ∀ c ∈ g.children, Lists db u c)
    (hencap : g.subject = .eic → ∀ e, g.getIntProperty propEncapID = e → HasEncap db u e) :
    Quiet P db (Map.put db u g) where
  keyed hk := hk.put hg
  lists k c := by
    rintro ⟨x, hx, hs, hc⟩
    by_cases hk : k = u
    · subst hk
      rw [put_same, some_inj] at hx
      subst hx
      exact .inl (hlists hs c hc)
    · exact .inl ⟨x, (put_other _ _ hk).symm.trans hx, hs, hc⟩
  encap c e := by
    rintro ⟨x, hx, hs, he⟩
    by_cases hc : c = u
    · subst hc
      rw [put_same, some_inj] at hx
      subst hx
      exact hencap hs e he
    · exact ⟨x, (put_other _ _ hc).symm.trans hx, hs, he⟩

theorem quiet_save (hepg : g.subject ≠ .epg) (heic : g.subject ≠ .eic) : Quiet P db (db.save g) :=
  quiet_put rfl (fun h => absurd h hepg) (fun h => absurd h heic)

theorem quiet_erase (u : String) : Quiet P db (Map.erase db u) where
  keyed hk := hk.erase u
  lists k c := by
    rintro ⟨x, hx, h⟩
    by_cases hk : k = u
    · rw [hk, erase_same] at hx
      cases hx
    · exact .inl ⟨x, (erase_other _ hk).symm.trans hx, h⟩
  encap c e := by
    rintro ⟨x, hx, h⟩
    by_cases hc : c = u
    · rw [hc, erase_same] at hx
      cases hx
    · exact ⟨x, (erase_other _ hc).symm.trans hx, h⟩

theorem quiet_addChild {c : String} (hP : P c) (hno : ∀ e, ¬ HasEncap db c e) : Quiet P db (db.addChild u c) := by
  have hencap : ∀ k e, HasEncap (db.addChild u c) k e → HasEncap db k e := by
    rintro k e ⟨x, hx, h⟩
    by_cases hk : k = u
    · subst hk
      rw [addChild_same, map_eq_some_iff] at hx
      obtain ⟨g, hg, rfl⟩ := hx
      exact ⟨g, hg, h⟩
    · exact ⟨x, (addChild_other _ _ hk).symm.trans hx, h⟩
  refine ⟨fun hk => hk.write (.addChild u c), ?_, hencap⟩
  rintro k d ⟨x, hx, hs, hd⟩
  by_cases hk : k = u
  · subst hk
    rw [addChild_same, map_eq_some_iff] at hx
    obtain ⟨g, hg, rfl⟩ := hx
    cases List.mem_append.mp hd with
    | inl hd => exact .inl ⟨g, hg, hs, hd⟩
    | inr hd =>
      rw [List.mem_singleton.mp hd]
      exact .inr ⟨hP, fun e he => hno e (hencap c e he)⟩
  · exact .inl ⟨x, (addChild_other _ _ hk).symm.trans hx, hs, hd⟩

/-- A reference that is made and listed. -/
theorem quiet_ref (hP : P g.uri) (hepg : g.subject ≠ .epg) (heic : g.subject ≠ .eic) :
    Quiet P db (db.writes (linked u g)) := by
  refine (quiet_save hepg heic).trans (quiet_addChild hP ?_)
  rintro e ⟨x, hx, hs, -⟩
  rw [save_same, some_inj] at hx
  exact heic (hx ▸ hs)

/-- What a group comes to list beside its instance context. -/
def EpgRef (uri c : String) : Prop :=
  c = uri ++ "GbpEpGroupToNetworkRSrc/" ∨ c = uri ++ "GbpEpGroupToSubnetsRSrc/" ∨
    ∃ (refSubj : Subject) (name : String), c = uri ++ refSubj.text ++ "/288/" ++ escapeName name ++ "/"

theorem quiet_addRef {tgt : String} (hepg : refSubj ≠ .epg) (heic : refSubj ≠ .eic)
    (h : addRef db uri gSubj refSubj tgt = some db') : Quiet (EpgRef uri) db db' := by
  rw [addRef] at h
  cases htgt : db tgt with
  | none =>
    rw [htgt] at h
    cases h
  | some t =>
    rw [htgt, some_inj] at h
    rw [← h]
    exact quiet_ref (.inr (.inr ⟨refSubj, t.getStringProperty propName, rfl⟩)) hepg heic

theorem quiet_addRefs (hepg : refSubj ≠ .epg) (heic : refSubj ≠ .eic)
    (currentC : Finmap fun _ : String => String) (targets : List String) (db : Db) :
    Quiet (EpgRef uri) db (EPG.addRefs uri gSubj refSubj currentC targets db) := by
  induction targets generalizing db with
  | nil => exact .refl _ _
  | cons tgt rest ih =>
    rw [EPG.addRefs]
    split
    · exact ih db
    · cases hadd : addRef db uri gSubj refSubj tgt with
      | none => exact .refl _ _
      | some db' => exact (quiet_addRef hepg heic hadd).trans (ih db')

/-- The group lists less. -/
theorem quiet_dropChild (uri ref : String) (hk : Keyed db) :
    Ends (fun _ => True) (Quiet P db) (EPG.dropChild uri ref db) := by
  rw [EPG.dropChild]
  cases hg : db uri with
  | none => exact Quiet.refl P db
  | some g =>
    refine (mem_delChild ref g.children).bind fun children hsub => ?_
    refine quiet_put (hk uri g hg) ?_ ?_
    · intro hs c hc
      exact ⟨g, hg, hs, hsub c hc⟩
    · intro hs e he
      exact ⟨g, hg, hs, he⟩

theorem quiet_dropRefs (currentC : Finmap fun _ : String => String) (desiredC : Finset String)
    (targets : List String) (db : Db) (hk : Keyed db) :
    Ends (fun _ => True) (Quiet P db) (EPG.dropRefs uri currentC desiredC targets db) := by
  induction targets generalizing db with
  | nil => exact Quiet.refl P db
  | cons tgt rest ih =>
    rw [EPG.dropRefs]
    split
    · exact ih db hk
    · refine (quiet_dropChild (P := P) uri _ hk).bind fun db' h' => ?_
      have hq := h'.trans (quiet_erase ((currentC.lookup tgt).getD ""))
      exact (ih _ (hq.keyed hk)).mono fun db'' h'' => hq.trans h''

theorem quiet_setContracts (e : EPG) (orders : LoopOrders) (contracts : List String)
    (hepg : refSubj ≠ .epg) (heic : refSubj ≠ .eic) (hk : Keyed db) :
    Ends (fun _ => True) (Quiet (EpgRef e.getURI) db) (e.setContracts orders contracts refSubj db) := by
  unfold EPG.setContracts
  cases hg : db e.getURI with
  | none => exact Quiet.refl _ db
  | some mo =>
    dsimp only
    cases getRefURIs db refSubj mo.children ∅ with
    | none => exact Quiet.refl _ db
    | some currentC =>
      refine (quiet_dropRefs (P := EpgRef e.getURI) currentC _ _ db hk).bind fun db' h => ?_
      exact h.trans (quiet_addRefs hepg heic currentC _ db')

theorem quiet_setAllContracts (e : EPG) (cons prov : LoopOrders) (hk : Keyed db) :
    Ends (fun _ => True) (Quiet (EpgRef e.getURI) db) (e.setAllContracts cons prov db) := by
  refine (quiet_setContracts e cons _ (by decide) (by decide) hk).bind fun db₁ h₁ => ?_
  exact (quiet_setContracts e prov _ (by decide) (by decide) (h₁.keyed hk)).mono fun db₂ h₂ => h₁.trans h₂

/-- The instance context of a group with class `c`. -/
def epgContext (uri : String) (c : Nat) : Mo :=
  eicMo .epg uri (encapFromClass c) c [.str propMcast "225.107.24.233"]

/-- The context and the group as they are first saved. -/
def withEpg (db : Db) (name uri : String) (c : Nat) : Db :=
  (db.save (epgContext uri c)).save (BDSubnet.epgMo name uri)

theorem quiet_epgWrites (bds : BDSubnet) (cfg : Config) (name uri : String) :
    Quiet (EpgRef uri) (db.save (BDSubnet.epgMo name uri)) (db.writes (bds.epgWrites cfg name uri)) := by
  refine (quiet_ref (.inl rfl) ?_ ?_).trans (quiet_ref (.inr (.inl rfl)) ?_ ?_)
  all_goals simp [BDSubnet.fdRef, BDSubnet.snetRef, toMo]

theorem createEPG_spec (bds : BDSubnet) (cfg : Config) (draws : Nat → Fin numClassIDs) (name uri : String)
    (s : Server) : Ends (fun _ => True) (fun s' => ∃ c s₁ db', s.getEncapClass draws (eicUri uri) = .ok (c, s₁) ∧
        s' = { s₁ with policyDB := db' } ∧ Quiet (EpgRef uri) (withEpg s.policyDB name uri c) db')
      (bds.createEPG cfg draws name uri s) := by
  cases hget : s.getEncapClass draws (eicUri uri) with
  | error fault => simp [BDSubnet.createEPG, createEIC, hget, error_bind, ends_error]
  | ok r =>
    obtain ⟨c, s₁⟩ := r
    have hmake : bds.createEPG cfg draws name uri s = .ok { s₁ with
        policyDB := (s₁.policyDB.save (epgContext uri c)).writes (bds.epgWrites cfg name uri) } := by
      simp [BDSubnet.createEPG, createEIC, hget, Server.writes, writes_cons, writes_nil, Db.write, epgContext]
    have hdb : s₁.policyDB = s.policyDB := by
      rcases getEncapClass_cases hget with hold | hnew
      · rw [hold.2]
      · exact hnew.2.2.2.1
    rw [hmake, hdb]
    exact ⟨c, s₁, _, rfl, rfl, quiet_epgWrites bds cfg name uri⟩

/-- A group that is there is only given references; a new one takes the class of its context. -/
theorem EPG.make_cases (e : EPG) (w : World) (bds : Option BDSubnet) (cons prov : LoopOrders)
    (hk : Keyed s.policyDB) : Ends (fun _ => True) (fun s' =>
      (∃ db', s' = { s with policyDB := db' } ∧ Quiet (EpgRef e.getURI) s.policyDB db') ∨
      s.policyDB e.getURI = none ∧ ∃ c s₁ db',
        s.getEncapClass w.draws (eicUri e.getURI) = .ok (c, s₁) ∧ s' = { s₁ with policyDB := db' } ∧
          Quiet (EpgRef e.getURI) (withEpg s.policyDB e.name e.getURI c) db') (e.make w bds cons prov s) := by
  rw [EPG.make, EPG.create]
  cases hu : s.policyDB e.getURI with
  | some base =>
    refine (quiet_setAllContracts e cons prov hk).bind fun db' h => ?_
    exact .inl ⟨db', rfl, h⟩
  | none =>
    refine (createEPG_spec _ _ _ e.name e.getURI s).bind fun s' hs' => ?_
    obtain ⟨c, s₁, db₁, hget, rfl, h₁⟩ := hs'
    have hk₁ : Keyed db₁ := h₁.keyed ((hk.write (.save _)).write (.save _))
    refine (quiet_setAllContracts e cons prov hk₁).bind fun db₂ h₂ => ?_
    exact .inr ⟨rfl, c, s₁, db₂, hget, rfl, h₁.trans h₂⟩

theorem int32_of_lt {n : Nat} (h : n < 2 ^ 31) : int32 n = n := by
  rw [int32, Int.bmod_def]
  omega

theorem encap_epgContext (uri : String) (h : c < firstClassID + numClassIDs) :
    (epgContext uri c).getIntProperty propEncapID = encapFromClass c := by
  have hprop : (epgContext uri c).getIntProperty propEncapID = int32 (encapFromClass c) := by
    simp [epgContext, eicMo, Mo.getIntProperty, Property.int]
  rw [hprop, int32_of_lt]
  simp only [encapFromClass, firstEncapID, firstClassID, numClassIDs] at h ⊢
  omega

theorem withEpg_cases {name : String} {x : Mo} (h : withEpg db name uri c u = some x) :
    u = uri ∧ x = BDSubnet.epgMo name u ∨ u = eicUri uri ∧ x = epgContext uri c ∨ u ≠ eicUri uri ∧ db u = some x := by
  by_cases hu : u = uri
  · subst hu
    exact .inl ⟨rfl, Option.some_inj.mp (h.symm.trans (save_same _ _))⟩
  · rw [withEpg, save_other _ (BDSubnet.epgMo name uri) hu] at h
    by_cases hctx : u = eicUri uri
    · subst hctx
      exact .inr (.inl ⟨rfl, Option.some_inj.mp (h.symm.trans (save_same _ _))⟩)
    · rw [save_other _ (epgContext uri c) hctx] at h
      exact .inr (.inr ⟨hctx, h⟩)

theorem lists_withEpg {name k : String} (h : Lists (withEpg db name uri c) u k) :
    u = uri ∧ k = eicUri uri ∨ Lists db u k := by
  obtain ⟨x, hx, hs, hk⟩ := h
  obtain ⟨rfl, rfl⟩ | ⟨rfl, rfl⟩ | ⟨-, hx⟩ := withEpg_cases hx
  · exact .inl ⟨rfl, List.mem_singleton.mp hk⟩
  · cases hs
  · exact .inr ⟨x, hx, hs, hk⟩

theorem hasEncap_withEpg {name k : String} (hc : c < firstClassID + numClassIDs)
    (h : HasEncap (withEpg db name uri c) k e) :
    k = eicUri uri ∧ e = encapFromClass c ∨ k ≠ eicUri uri ∧ HasEncap db k e := by
  obtain ⟨x, hx, hs, he⟩ := h
  obtain ⟨rfl, rfl⟩ | ⟨rfl, rfl⟩ | ⟨hctx, hx⟩ := withEpg_cases hx
  · cases hs
  · exact .inl ⟨rfl, he.symm.trans (encap_epgContext uri hc)⟩
  · exact .inr ⟨hctx, x, hx, hs, he⟩

theorem classOf_getEncapClass {s' : Server} (h : s.getEncapClass draws u = .ok (c, s')) :
    s'.classOf u = some c ∧ ∀ k d, s.classOf k = some d → s'.classOf k = some d := by
  obtain ⟨hu, rfl⟩ | ⟨hnone, -, -, -, -, hclass, -⟩ := getEncapClass_cases h
  · exact ⟨hu, fun _ _ => id⟩
  · rw [hclass]
    refine ⟨put_same _ _ _, fun k d hk => ?_⟩
    rw [put_other]
    · exact hk
    · rintro rfl
      rw [hnone] at hk
      cases hk

/-- A new group whose context no other group lists. -/
theorem Server.EncapsOk.withEpg {s₁ : Server} (h : s.EncapsOk) (hc : s.ClassesOk) (name : String)
    (hget : s.getEncapClass draws (eicUri uri) = .ok (c, s₁)) (hfree : ∀ u, ¬ Lists s.policyDB u (eicUri uri)) :
    Server.EncapsOk { s₁ with policyDB := Gbp.withEpg s.policyDB name uri c } := by
  obtain ⟨hclass, hold⟩ := classOf_getEncapClass hget
  have hrange : c < firstClassID + numClassIDs := ((hc.getEncapClass hget).range _ _ hclass).2
  have hlists : ∀ u, Lists (Gbp.withEpg s.policyDB name uri c) u (eicUri uri) → u = uri := by
    intro u hl
    rcases lists_withEpg hl with hnew | hl
    · exact hnew.1
    · exact absurd hl (hfree u)
  refine ⟨(h.keyed.write (.save _)).write (.save _), ?_, ?_⟩
  · intro u k e hl he
    rcases hasEncap_withEpg hrange he with ⟨rfl, rfl⟩ | ⟨hk, he⟩
    · exact ⟨c, hclass, rfl⟩
    · rcases lists_withEpg hl with hnew | hl
      · exact absurd hnew.2 hk
      · obtain ⟨d, hd, hde⟩ := h.encap u k e hl he
        exact ⟨d, hold k d hd, hde⟩
  · intro u u' k e hl hl' he
    rcases hasEncap_withEpg hrange he with ⟨rfl, -⟩ | ⟨hk, he⟩
    · rw [hlists u hl, hlists u' hl']
    · rcases lists_withEpg hl with hnew | hl
      · exact absurd hnew.2 hk
      · rcases lists_withEpg hl' with hnew | hl'
        · exact absurd hnew.2 hk
        · exact h.single u u' k e hl hl' he

/-- The class of a context may go with the context. -/
theorem Server.EncapsOk.freeEncapClass (h : s.EncapsOk) {c : String}
    (hfree : ∀ u e, Lists s.policyDB u c → ¬ HasEncap s.policyDB c e) : (s.freeEncapClass c).EncapsOk := by
  refine ⟨h.keyed, ?_, h.single⟩
  intro u k e hl he
  obtain ⟨d, hd, hde⟩ := h.encap u k e hl he
  refine ⟨d, ?_, hde⟩
  rw [classOf_freeEncapClass, erase_other]
  · exact hd
  · rintro rfl
    exact hfree u e hl he

theorem Server.EncapsOk.deleteChild (h : s.EncapsOk) (c : String) : (EPG.deleteChild s c).EncapsOk := by
  have hquiet : Server.EncapsOk { s with policyDB := Map.erase s.policyDB c } :=
    h.quiet (quiet_erase (P := fun _ => True) c)
  rw [EPG.deleteChild]
  cases hc : s.policyDB c with
  | none => exact hquiet
  | some x =>
    dsimp only
    split
    · refine Server.EncapsOk.freeEncapClass hquiet ?_
      rintro u e - ⟨y, hy, -⟩
      rw [h.keyed c x hc] at hy
      cases (erase_same _ _).symm.trans hy
    · exact hquiet

theorem Server.ClassesOk.deleteChild (h : s.ClassesOk) (c : String) : (EPG.deleteChild s c).ClassesOk := by
  rw [EPG.deleteChild]
  cases s.policyDB c with
  | none => exact h.withDb _
  | some x =>
    dsimp only
    split
    · exact (h.freeEncapClass _).withDb _
    · exact h.withDb _

variable {c m : Char} {cfg : Config} {name : String} {ws : List Write}

theorem splitOn_append_sep (sep : Char) (xs ys : List Char) :
    splitOn sep (xs ++ sep :: ys) = splitOn sep xs ++ splitOn sep ys := by
  induction xs with
  | nil => simp [splitOn]
  | cons x xs ih =>
    rw [List.cons_append, splitOn, splitOn, ih]
    by_cases hx : x = sep
    · rw [if_pos hx, if_pos hx]
      rfl
    · rw [if_neg hx, if_neg hx]
      cases hs : splitOn sep xs with
      | nil => exact absurd hs (splitOn_ne_nil sep xs)
      | cons f fs => rfl

theorem cleanSegments_append (xs ys : List Char) :
    cleanSegments (xs ++ '/' :: ys) = (splitOn '/' ys).foldl cleanStep (cleanSegments xs) := by
  rw [cleanSegments, splitOn_append_sep, List.foldl_append]
  rfl

theorem slash_not_mem_escapeName (n : String) : '/' ∉ (escapeName n).toList := by
  rw [escapeName, String.toList_ofList, List.mem_flatMap]
  rintro ⟨c, -, hc⟩
  unfold escapeChar at hc
  split at hc
  · simp at hc
  · simp at hc
  · simp at hc
  · simp at hc
  · next hne _ _ _ => exact hne (List.mem_singleton.mp hc).symm

/-- The last character of the last but one part of a URI. -/
def mark (uri : List Char) : Option Char := (((uri.reverse.drop 1).dropWhile (· ≠ '/')).drop 1).head?

theorem mark_append {suf : List Char} (pre : List Char) (h : mark suf = some c) : mark (pre ++ suf) = some c := by
  have hne : (suf.reverse.drop 1).dropWhile (· ≠ '/') ≠ [] := by
    intro hnil
    rw [mark, hnil] at h
    cases h
  have hlen : 1 ≤ suf.reverse.length := by
    by_contra hlt
    rw [List.drop_of_length_le (by omega)] at hne
    exact hne rfl
  rw [mark, List.reverse_append, List.drop_append_of_le_length hlen, List.dropWhile_append,
    if_neg (by simpa using hne)]
  rw [mark] at h
  cases hd : (suf.reverse.drop 1).dropWhile (· ≠ '/') with
  | nil => exact absurd hd hne
  | cons x xs =>
    rw [hd] at h
    cases xs with
    | nil => cases h
    | cons y ys => exact h

theorem mark_of_last {seg : List Char} (h : '/' ∉ seg) : mark (c :: '/' :: (seg ++ ['/'])) = some c := by
  have hall : ∀ y ∈ seg.reverse, decide (y ≠ '/') = true := by
    intro y hy
    rw [decide_eq_true_iff]
    rintro rfl
    exact h (List.mem_reverse.mp hy)
  have hrev : (c :: '/' :: (seg ++ ['/'])).reverse.drop 1 = seg.reverse ++ ['/', c] := by simp
  rw [mark, hrev, List.dropWhile_append_of_pos hall]
  rfl

/-- The name stays a part of the cleaned URI of the context, where its last character shows. -/
structure ShowsIn (name : String) (m : Char) : Prop where
  clean : ∀ stack, (splitOn '/' ((escapeName name).toList ++ "//GbpeInstContext".toList)).foldl cleanStep
    stack = "GbpeInstContext".toList :: (escapeName name).toList :: stack
  context : mark ((escapeName name).toList ++ "/GbpeInstContext/".toList) = some m
  fdRef : mark ((escapeName name).toList ++ "/GbpEpGroupToNetworkRSrc/".toList) = some m
  snetRef : mark ((escapeName name).toList ++ "/GbpEpGroupToSubnetsRSrc/".toList) = some m

theorem ShowsIn.eicUri (h : ShowsIn name m) : mark (Gbp.eicUri (defaultEpg cfg name).getURI).toList = some m := by
  have hgroup : "GbpEpGroup/".toList = "GbpEpGroup".toList ++ ['/'] := by decide
  have hlast : "//GbpeInstContext".toList = "/".toList ++ ("/".toList ++ "GbpeInstContext".toList) := by
    decide
  have hpath : ((defaultEpg cfg name).getURI ++ "/" ++ "GbpeInstContext").toList =
      ((tenantUri cfg.aciPolicyTenant).toList ++ "GbpEpGroup".toList) ++
        '/' :: ((escapeName name).toList ++ "//GbpeInstContext".toList) := by
    simp [EPG.getURI, defaultEpg, hgroup, hlast]
  have hcontext := h.context
  rw [Gbp.eicUri, joinUri, String.toList_ofList, hpath, cleanSegments_append, h.clean]
  generalize cleanSegments _ = stack
  generalize (escapeName name).toList = seg at hcontext
  have hsplit : ((("GbpeInstContext".toList :: seg :: stack).reverse.flatMap fun s => '/' :: s) ++ ['/']) =
      (stack.reverse.flatMap (fun s => '/' :: s) ++ ['/']) ++ (seg ++ "/GbpeInstContext/".toList) := by
    simp
  rw [hsplit]
  exact mark_append _ hcontext

/-- The other parts of a group's URI show its name as well, or that they refer to a contract. -/
theorem ShowsIn.epgRef {x : String} (h : ShowsIn name m) (hx : EpgRef (defaultEpg cfg name).getURI x) :
    mark x.toList = some m ∨ mark x.toList = some '8' := by
  have huri : (defaultEpg cfg name).getURI.toList =
      (tenantUri cfg.aciPolicyTenant ++ "GbpEpGroup/").toList ++ ((escapeName name).toList ++ ['/']) := by
    simp [EPG.getURI, defaultEpg]
  rcases hx with rfl | rfl | ⟨refSubj, tgt, rfl⟩
  · left
    rw [String.toList_append, huri, List.append_assoc, List.append_assoc]
    exact mark_append _ h.fdRef
  · left
    rw [String.toList_append, huri, List.append_assoc, List.append_assoc]
    exact mark_append _ h.snetRef
  · right
    have hassoc : ((defaultEpg cfg name).getURI ++ refSubj.text ++ "/288/" ++ escapeName tgt ++ "/").toList =
        ((defaultEpg cfg name).getURI ++ refSubj.text ++ "/28").toList ++
          '8' :: '/' :: ((escapeName tgt).toList ++ ['/']) := by
      simp
    rw [hassoc]
    exact mark_append _ (mark_of_last (slash_not_mem_escapeName tgt))

/-- No object is an endpoint group. -/
def NoEpg (db : Db) : Prop := ∀ u g, db u = some g → g.subject ≠ .epg

def Write.notEpg : Write → Bool
  | .save g => g.subject ≠ .epg
  | .addChild _ _ => true

theorem NoEpg.writes (h : NoEpg db) (hws : ∀ x ∈ ws, x.notEpg) : NoEpg (db.writes ws) := by
  refine writes_invariant h fun db x hx h u g hg => ?_
  cases x with
  | save y =>
    by_cases hu : u = y.uri
    · subst hu
      rw [Db.write, save_same, Option.some_inj] at hg
      subst hg
      simpa [Write.notEpg] using hws _ hx
    · rw [Db.write, save_other _ _ hu] at hg
      exact h u g hg
  | addChild k c =>
    by_cases hu : u = k
    · subst hu
      rw [Db.write, addChild_same, Option.map_eq_some_iff] at hg
      obtain ⟨y, hy, rfl⟩ := hg
      exact h u y hy
    · rw [Db.write, addChild_other _ _ hu] at hg
      exact h u g hg

theorem encapsOk_of_noEpg (hk : Keyed s.policyDB) (h : NoEpg s.policyDB) : s.EncapsOk := by
  have hno : ∀ u c, ¬ Lists s.policyDB u c := fun u c ⟨g, hg, hs, _⟩ => h u g hg hs
  exact ⟨hk, fun u c _ hl => absurd hl (hno u c), fun u _ c _ hl => absurd hl (hno u c)⟩

theorem notEpg_addSubnet (ssUri name uri : String) : ∀ x ∈ addSubnet ssUri name uri, x.notEpg := by
  have hsubject : ∀ g, makeSubnet name uri = some g → g.subject = .subnet := by
    intro g hg
    unfold makeSubnet at hg
    split at hg
    · split at hg
      · rw [← Option.some_inj.mp hg]
      · cases hg
    · cases hg
  unfold addSubnet
  cases hs : makeSubnet name uri with
  | none => simp [Write.notEpg]
  | some g => simp [linked, Write.notEpg, hsubject g hs]

/-- The classes are in order and there is no group yet. -/
structure Static (s : Server) : Prop where
  classes : s.ClassesOk
  keyed : Keyed s.policyDB
  noEpg : NoEpg s.policyDB

theorem Static.writes (h : Static s) (hws : ∀ x ∈ ws, x.notEpg) : Static (s.writes ws) :=
  ⟨h.classes.withDb _, h.keyed.writes ws, h.noEpg.writes hws⟩

theorem Static.setup (h : Static s) (bds : BDSubnet) (cfg : Config) (draws : Nat → Fin numClassIDs) :
    Ends (fun _ => True) Static (bds.setup cfg draws s) := by
  have hsub : Static (s.writes (bds.createSubnet cfg)) :=
    h.writes (List.forall_mem_cons.mpr ⟨rfl, notEpg_addSubnet _ _ _⟩)
  have heic : Ends (fun _ => True) Static
      (createEIC draws .bd (bds.bdUri cfg) [] (s.writes (bds.createSubnet cfg))) := by
    generalize s.writes (bds.createSubnet cfg) = t at hsub
    rw [createEIC]
    cases hget : t.getEncapClass draws (eicUri (bds.bdUri cfg)) with
    | error fault => simp
    | ok r =>
      have hdb : r.2.policyDB = t.policyDB := by
        rcases getEncapClass_cases hget with hold | hnew
        · rw [hold.2]
        · exact hnew.2.2.2.1
      have hstatic : Static r.2 := ⟨hsub.classes.getEncapClass hget, hdb ▸ hsub.keyed, hdb ▸ hsub.noEpg⟩
      exact hstatic.writes (by simp [Write.notEpg, eicMo])
  refine heic.bind fun t ht => ht.writes ?_
  simp [BDSubnet.bdWrites, BDSubnet.createFD, Write.notEpg, toMo, BDSubnet.bdMo, BDSubnet.fdMcastMo, BDSubnet.fdMo]

theorem notEpg_contract (c : Contract) (tenantName : String) : ∀ x ∈ c.allWrites tenantName, x.notEpg := by
  intro x hx
  simp only [Contract.allWrites, Contract.treeWrites, Contract.ruleWrites, addActionRef, linked,
    List.mem_append, List.mem_cons, List.mem_flatMap, List.not_mem_nil, or_false] at hx
  rcases hx with ((rfl | (rfl | rfl) | rfl | rfl) | ⟨r, -, rfl | rfl | rfl⟩) | rfl | rfl | rfl
  all_goals rfl

/-- The group is there, or no group lists what will be its context. -/
def EPG.OwnContext (e : EPG) (s : Server) : Prop :=
  s.policyDB e.getURI = none → ∀ u, ¬ Lists s.policyDB u (eicUri e.getURI)

section

variable (e : EPG) (w : World) (bds : Option BDSubnet) (cons prov : LoopOrders) (hc : s.ClassesOk)
include hc

theorem EPG.classesOk_make (hk : Keyed s.policyDB) :
    Ends (fun _ => True) (fun s' => s'.ClassesOk ∧ Keyed s'.policyDB) (e.make w bds cons prov s) := by
  refine (e.make_cases w bds cons prov hk).mono fun s' hs' => ?_
  obtain ⟨db', rfl, hq⟩ | ⟨-, c, s₁, db', hget, rfl, hq⟩ := hs'
  · exact ⟨hc.withDb db', hq.keyed hk⟩
  · exact ⟨(hc.getEncapClass hget).withDb db', hq.keyed ((hk.write (.save _)).write (.save _))⟩

/-- What groups list afterwards is what they did, the context of this group and its references. -/
theorem EPG.encapsOk_make (he : s.EncapsOk) (hown : e.OwnContext s) :
    Ends (fun _ => True) (fun s' => s'.EncapsOk ∧ ∀ u c, Lists s'.policyDB u c →
      Lists s.policyDB u c ∨ c = eicUri e.getURI ∨ EpgRef e.getURI c) (e.make w bds cons prov s) := by
  refine (e.make_cases w bds cons prov he.keyed).mono fun s' hs' => ?_
  obtain ⟨db', rfl, hq⟩ | ⟨hnone, c, s₁, db', hget, rfl, hq⟩ := hs'
  · refine ⟨he.quiet hq, fun u k hl => ?_⟩
    rcases hq.lists u k hl with hl | href
    · exact .inl hl
    · exact .inr (.inr href.1)
  · have hnew := he.withEpg hc e.name hget (hown hnone)
    refine ⟨hnew.quiet hq, fun u k hl => ?_⟩
    rcases hq.lists u k hl with hl | href
    · rcases lists_withEpg hl with hctx | hl
      · exact .inr (.inl hctx.2)
      · exact .inl hl
    · exact .inr (.inr href.1)

end

/-- What holds while the first groups are made: the parts they list show certain marks. -/
structure Booted (marks : List Char) (s : Server) : Prop where
  classes : s.ClassesOk
  encaps : s.EncapsOk
  marks : ∀ u c, Lists s.policyDB u c → ∃ m ∈ marks, mark c.toList = some m

theorem Booted.make {marks : List Char} (h : Booted marks s) (w : World) (hshow : ShowsIn name m)
    (bds : Option BDSubnet) (hm : m ∉ marks) (h8 : '8' ∈ m :: marks) : Ends (fun _ => True) (Booted (m :: marks))
      ((defaultEpg w.config name).make w bds w.orders w.orders s) := by
  have hctx : mark (eicUri (defaultEpg w.config name).getURI).toList = some m := hshow.eicUri
  have hown : (defaultEpg w.config name).OwnContext s := by
    intro _ u hl
    obtain ⟨m', hm', hmark⟩ := h.marks u _ hl
    rw [hctx, Option.some_inj] at hmark
    exact hm (hmark ▸ hm')
  have hclasses := (defaultEpg w.config name).classesOk_make w bds w.orders w.orders h.classes h.encaps.keyed
  have hencaps := (defaultEpg w.config name).encapsOk_make w bds w.orders w.orders h.classes h.encaps hown
  refine (hclasses.and hencaps).mono fun s' hs' => ⟨hs'.1.1, hs'.2.1, fun u c hl => ?_⟩
  rcases hs'.2.2 u c hl with hl | rfl | href
  · obtain ⟨m', hm', hmark⟩ := h.marks u c hl
    exact ⟨m', List.mem_cons_of_mem m hm', hmark⟩
  · exact ⟨m, List.mem_cons_self, hctx⟩
  · rcases hshow.epgRef href with hmark | hmark
    · exact ⟨m, List.mem_cons_self, hmark⟩
    · exact ⟨'8', h8, hmark⟩

theorem showsIn_default : ShowsIn "kubernetes|kube-default" 't' :=
  ⟨fun _ => rfl, by decide, by decide, by decide⟩

theorem showsIn_system : ShowsIn "kubernetes|kube-system" 'm' :=
  ⟨fun _ => rfl, by decide, by decide, by decide⟩

theorem showsIn_nodes : ShowsIn "kubernetes|kube-nodes" 's' :=
  ⟨fun _ => rfl, by decide, by decide, by decide⟩

theorem Booted.epgList (h : Booted ['8'] s) (w : World) : Ends (fun _ => True) (Booted ['s', 'm', 't', '8'])
      ((Gbp.epgList w.config).foldlM (fun s e => e.1.make w e.2 w.orders w.orders s) s) := by
  refine (h.make w showsIn_default none (by decide) (by decide)).bind fun s₁ h₁ => ?_
  refine (h₁.make w showsIn_system none (by decide) (by decide)).bind fun s₂ h₂ => ?_
  refine (h₂.make w showsIn_nodes (some w.config.nodeBDS) (by decide) (by decide)).bind fun s₃ h₃ => ?_
  exact h₃

theorem initDB_spec (w : World) (h : s.ClassesOk) :
    Ends (fun _ => True) (fun s' => s'.ClassesOk ∧ s'.EncapsOk) (initDB w s) := by
  have hempty : Static { s with policyDB := Map.empty } :=
    ⟨h.withDb _, keyed_empty, fun u g hg => by cases hg⟩
  have hroot : ∀ x ∈ createRoot w.config ++ createDefVrf w.config, x.notEpg := by
    simp [createRoot, createDefVrf, rootChild, linked, Write.notEpg, eicMo]
  rw [initDB]
  refine ((hempty.writes hroot).setup w.config.podBDS w.config w.draws).bind fun s₁ h₁ => ?_
  refine (h₁.setup w.config.nodeBDS w.config w.draws).bind fun s₂ h₂ => ?_
  have hcon : Static (s₂.addContract w.config (anyContract w.config)) := by
    rw [addContract_eq]
    exact h₂.writes (notEpg_contract _ _)
  have hboot : Booted ['8'] (s₂.addContract w.config (anyContract w.config)) :=
    ⟨hcon.classes, encapsOk_of_noEpg hcon.keyed hcon.noEpg,
      fun u c h => h.elim fun g hg => absurd hg.2.1 (hcon.noEpg u g hg.1)⟩
  generalize s₂.addContract w.config (anyContract w.config) = s₃ at hboot ⊢
  exact (hboot.epgList w).mono fun s hs => ⟨hs.classes, hs.encaps⟩

inductive ClassOp where
  | make (epg : EPG) (cons prov : LoopOrders)
  | delete (epg : EPG)
  | getEncapClass (instURL : String)
  | freeEncapClass (instURL : String)
  | restart

def classStep (w : World) (s : Server) : ClassOp → Except Crash Server
  | .make epg cons prov => epg.make w none cons prov s
  | .delete epg => .ok (epg.delete s)
  | .getEncapClass instURL => (s.getEncapClass w.draws instURL).map Prod.snd
  | .freeEncapClass instURL => .ok (s.freeEncapClass instURL)
  | .restart => start w s.state s.drawn

/-- A new group has a context that no other group lists, and the class of a context is not freed
while a group lists that. -/
def ClassOp.Allowed (s : Server) : ClassOp → Prop
  | .make epg _ _ => epg.OwnContext s
  | .freeEncapClass instURL => ∀ u e, Lists s.policyDB u instURL → ¬ HasEncap s.policyDB instURL e
  | _ => True

/-- What each deletion of a child keeps, the deletion of the group keeps. -/
theorem EPG.delete_invariant (e : EPG) {P : Server → Prop} (h : P s) (hchild : ∀ s c, P s → P (EPG.deleteChild s c))
    (herase : ∀ s u, P s → P { s with policyDB := Map.erase s.policyDB u }) : P (e.delete s) := by
  rw [EPG.delete]
  cases s.policyDB e.getURI with
  | none => exact h
  | some base => exact herase _ _ (foldl_invariant h fun s c _ => hchild s c)

theorem policyDB_deleteChild (s : Server) (c : String) : (EPG.deleteChild s c).policyDB = Map.erase s.policyDB c := by
  rw [EPG.deleteChild]
  cases s.policyDB c with
  | none => rfl
  | some cMo => by_cases h : cMo.subject = .eic <;> simp [h, Server.freeEncapClass, Server.writeState]

/-- The maps agree whatever is called. -/
theorem classesOk_step (w : World) (hc : s.ClassesOk) (hk : Keyed s.policyDB) (op : ClassOp) :
    Ends (fun _ => True) (fun s' => s'.ClassesOk ∧ Keyed s'.policyDB) (classStep w s op) := by
  cases op with
  | make epg cons prov => exact epg.classesOk_make w none cons prov hc hk
  | delete epg =>
    refine ⟨?_, ?_⟩
    · exact epg.delete_invariant hc (fun s c h => h.deleteChild c) (fun s u h => h.withDb _)
    · exact epg.delete_invariant (P := fun s => Keyed s.policyDB) hk (fun s c h => policyDB_deleteChild s c ▸ h.erase c)
        (fun s u h => h.erase u)
  | getEncapClass u =>
    rw [classStep]
    cases hget : s.getEncapClass w.draws u with
    | error fault => trivial
    | ok r =>
      refine ⟨hc.getEncapClass hget, ?_⟩
      rcases getEncapClass_cases hget with hold | hnew
      · rw [hold.2]
        exact hk
      · rw [hnew.2.2.2.1]
        exact hk
  | freeEncapClass u => exact ⟨hc.freeEncapClass u, hk⟩
  | restart =>
    exact (initDB_spec w (hc.initState s.drawn)).mono fun s' h => ⟨h.1, h.2.keyed⟩

theorem encapsOk_step (w : World) (hc : s.ClassesOk) (he : s.EncapsOk) {op : ClassOp}
    (hop : op.Allowed s) : Ends (fun _ => True) Server.EncapsOk (classStep w s op) := by
  cases op with
  | make epg cons prov => exact (epg.encapsOk_make w none cons prov hc he hop).mono fun s' h => h.1
  | delete epg =>
    exact epg.delete_invariant he (fun s c h => h.deleteChild c)
      (fun s u h => h.quiet (quiet_erase (P := fun _ => True) u))
  | getEncapClass u =>
    rw [classStep]
    cases hget : s.getEncapClass w.draws u with
    | error fault => trivial
    | ok r =>
      obtain ⟨-, hold⟩ := classOf_getEncapClass hget
      have hdb : r.2.policyDB = s.policyDB := by
        rcases getEncapClass_cases hget with hold | hnew
        · rw [hold.2]
        · exact hnew.2.2.2.1
      refine ⟨hdb ▸ he.keyed, ?_, hdb ▸ he.single⟩
      intro k c e hl hx
      rw [Prod.snd, hdb] at hl hx
      obtain ⟨d, hd, hde⟩ := he.encap k c e hl hx
      exact ⟨d, hold c d hd, hde⟩
  | freeEncapClass u => exact he.freeEncapClass hop
  | restart =>
    exact (initDB_spec w (hc.initState s.drawn)).mono fun s' h => h.2

/-- Over every run from the first start, restarts included, the maps agree; and no two groups carry
one encap, if every new group has its own context and no class is freed under a group. -/
theorem classIDs_unique (w : World) (ops : List ClassOp) (s₀ s : Server) (h₀ : start w ∅ 0 = .ok s₀)
    (hs : ops.foldlM (classStep w) s₀ = .ok s) : s.ClassesOk ∧
    (Guarded (classStep w) (fun s op => op.Allowed s) s₀ ops →
      ∀ u u' e, Carries s.policyDB u e → Carries s.policyDB u' e → u = u') := by
  obtain ⟨hc₀, he₀⟩ := (initDB_spec w (classesOk_empty 0)).of_ok h₀
  have hmaps : Ends (fun _ => True) (fun s => s.ClassesOk ∧ Keyed s.policyDB)
      (ops.foldlM (classStep w) s₀) :=
    Ends.foldlM ⟨hc₀, he₀.keyed⟩ fun s op _ h => classesOk_step w h.1 h.2 op
  have hc : s.ClassesOk := (hmaps.of_ok hs).1
  refine ⟨hc, fun hguard u u' e hu hu' => ?_⟩
  have hall : Ends (fun _ => True) (fun s => s.ClassesOk ∧ s.EncapsOk) (ops.foldlM (classStep w) s₀) := by
    refine Ends.guarded (fun s op h hop => ?_) s₀ ops ⟨hc₀, he₀⟩ hguard
    refine ((classesOk_step w h.1 h.2.keyed op).and (encapsOk_step w h.1 h.2 hop)).mono ?_
    exact fun s' h' => ⟨h'.1.1, h'.2⟩
  exact (hall.of_ok hs).2.carries_inj hc hu hu'

/-- A server that starts from the written state has the class of every instance again, and the
same numbers in use. -/
theorem restart_restores (w : World) (ops : List ClassOp) (s₀ s : Server) (h₀ : start w ∅ 0 = .ok s₀)
    (hs : ops.foldlM (classStep w) s₀ = .ok s) : (Server.initState s.state s.drawn).classOf = s.classOf ∧
      (Server.initState s.state s.drawn).usedClassIDs = s.usedClassIDs := by
  obtain ⟨hc₀, he₀⟩ := (initDB_spec w (classesOk_empty 0)).of_ok h₀
  have hc := ((Ends.foldlM ⟨hc₀, he₀.keyed⟩ fun s op _ h => classesOk_step w h.1 h.2 op).of_ok hs).1
  have hclasses : (Server.initState s.state s.drawn).classOf = s.classOf := by
    rw [hc.written]
    rfl
  refine ⟨hclasses, Finset.ext fun c => ?_⟩
  rw [hc.used_iff, (hc.initState s.drawn).used_iff, hclasses]

/-- A server whose draws give class after class, except that the seventh repeats the sixth. -/
def plainWorld : World where
  config := ⟨"kube", "kubedom", "defaultVrf", 7699999, "10.2.56.1/21", "1.100.201.0/24"⟩
  draws n := ⟨(if n = 6 then 5 else n) % numClassIDs, Nat.mod_lt _ (by decide)⟩
  depth := 10
  orders := ⟨.sorted, .sorted⟩

def plainEpg (name : String) : EPG := ⟨"kube", name, [], [], ""⟩

def plainMake (e : EPG) : ClassOp := .make e plainWorld.orders plainWorld.orders

/-- Allowed calls: an update of a group that is there, a deletion, a class for something else. -/
def plainOps : List ClassOp := [
  plainMake (defaultEpg plainWorld.config "kubernetes|kube-system"),
  .delete (defaultEpg plainWorld.config "kubernetes|kube-default"),
  .getEncapClass "/"]

/-- A class freed under its group and drawn again, and two names that clean to one context. -/
def clashOps : List ClassOp := [
  plainMake (plainEpg "a"),
  .freeEncapClass (eicUri (plainEpg "a").getURI),
  plainMake (plainEpg "b"),
  plainMake (plainEpg ""),
  plainMake (plainEpg ".")]

/-- `Carries`, checked. -/
def carries (db : Db) (u : String) (e : Int) : Bool :=
  match db u with
  | some g => g.subject = .epg && g.children.any fun c =>
      match db c with
      | some x => x.subject = .eic && x.getIntProperty propEncapID = e
      | none => false
  | none => false

theorem carries_of_check {u : String} {e : Int} (h : carries db u e) : Carries db u e := by
  unfold carries at h
  cases hu : db u with
  | none => simp [hu] at h
  | some g =>
    simp only [hu, Bool.and_eq_true, decide_eq_true_eq, List.any_eq_true] at h
    obtain ⟨hs, c, hc, hx⟩ := h
    cases hdb : db c with
    | none => simp [hdb] at hx
    | some x =>
      simp only [hdb, Bool.and_eq_true, decide_eq_true_eq] at hx
      exact ⟨c, ⟨g, hu, hs, hc⟩, x, hdb, hx.1, hx.2⟩

def isOk : Except Crash Server → Bool
  | .ok _ => true
  | .error _ => false

def clashes : Except Crash Server → Bool
  | .ok s => carries s.policyDB (plainEpg "a").getURI 7732005 &&
      carries s.policyDB (plainEpg "b").getURI 7732005 &&
      carries s.policyDB (plainEpg "").getURI 7732007 && carries s.policyDB (plainEpg ".").getURI 7732007
  | .error _ => false

def checkRuns : Except Crash Server → Bool
  | .ok s₀ => (s₀.policyDB (defaultEpg plainWorld.config "kubernetes|kube-system").getURI).isSome &&
      isOk (plainOps.foldlM (classStep plainWorld) s₀) && clashes (clashOps.foldlM (classStep plainWorld) s₀)
  | .error _ => false

/-- Both runs are evaluated once, from one start. -/
theorem checkRuns_start : checkRuns (start plainWorld ∅ 0) = true := by decide +kernel

theorem start_plainWorld : ∃ s₀, start plainWorld ∅ 0 = .ok s₀ ∧
    (s₀.policyDB (defaultEpg plainWorld.config "kubernetes|kube-system").getURI).isSome ∧
    isOk (plainOps.foldlM (classStep plainWorld) s₀) ∧ clashes (clashOps.foldlM (classStep plainWorld) s₀) := by
  have h := checkRuns_start
  generalize start plainWorld ∅ 0 = r at h
  cases r with
  | error fault => cases h
  | ok s₀ =>
    simp only [checkRuns, Bool.and_eq_true] at h
    exact ⟨s₀, rfl, h.1.1, h.1.2, h.2⟩

theorem classIDs_unique_update :
    ∃ s₀ s, start plainWorld ∅ 0 = .ok s₀ ∧ plainOps.foldlM (classStep plainWorld) s₀ = .ok s ∧
      s.ClassesOk ∧ ∀ u u' e, Carries s.policyDB u e → Carries s.policyDB u' e → u = u' := by
  obtain ⟨s₀, h₀, hthere, hok, -⟩ := start_plainWorld
  cases hs : plainOps.foldlM (classStep plainWorld) s₀ with
  | error fault =>
    rw [hs] at hok
    cases hok
  | ok s =>
    have h := classIDs_unique plainWorld plainOps s₀ s h₀ hs
    refine ⟨s₀, s, h₀, hs, h.1, h.2 ⟨fun hnone => ?_, fun _ _ => ⟨trivial, fun _ _ => ⟨trivial, fun _ _ => trivial⟩⟩⟩⟩
    rw [hnone] at hthere
    cases hthere

theorem restart_restores_update :
    ∃ s₀ s, start plainWorld ∅ 0 = .ok s₀ ∧ plainOps.foldlM (classStep plainWorld) s₀ = .ok s ∧
      (Server.initState s.state s.drawn).classOf = s.classOf := by
  obtain ⟨s₀, h₀, -, hok, -⟩ := start_plainWorld
  cases hs : plainOps.foldlM (classStep plainWorld) s₀ with
  | error fault =>
    rw [hs] at hok
    cases hok
  | ok s => exact ⟨s₀, s, h₀, hs, (restart_restores plainWorld plainOps s₀ s h₀ hs).1⟩

/-- A class that is freed under its group goes to another group, and groups whose names clean to
the same context share its class. -/
theorem classIDs_unique_literal_fails :
    ∃ s₀ s, start plainWorld ∅ 0 = .ok s₀ ∧ clashOps.foldlM (classStep plainWorld) s₀ = .ok s ∧
      (Carries s.policyDB (plainEpg "a").getURI 7732005 ∧ Carries s.policyDB (plainEpg "b").getURI 7732005 ∧
        (plainEpg "a").getURI ≠ (plainEpg "b").getURI) ∧
      (Carries s.policyDB (plainEpg "").getURI 7732007 ∧ Carries s.policyDB (plainEpg ".").getURI 7732007 ∧
        (plainEpg "").getURI ≠ (plainEpg ".").getURI) := by
  obtain ⟨s₀, h₀, -, -, hclash⟩ := start_plainWorld
  cases hs : clashOps.foldlM (classStep plainWorld) s₀ with
  | error fault =>
    rw [hs] at hclash
    cases hclash
  | ok s =>
    rw [hs] at hclash
    simp only [clashes, Bool.and_eq_true] at hclash
    obtain ⟨⟨⟨ha, hb⟩, hempty⟩, hdot⟩ := hclash
    exact ⟨s₀, s, h₀, hs, ⟨carries_of_check ha, carries_of_check hb, by decide⟩,
      carries_of_check hempty, carries_of_check hdot, by decide⟩

end AciContainers.Gbp
