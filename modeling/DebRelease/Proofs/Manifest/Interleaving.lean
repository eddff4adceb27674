import DebRelease.Proofs.Manifest.CrashSafety
import DebRelease.Proofs.Manifest.Guarded

namespace DebRelease.Manifest

open FileTree

variable {σ : Type} {cwd : WorkingDir} {p : Path} {dir : Location} {name content : Bytes} {is : Bool}
    {s : Session σ}

/-- A guard that has not been ended, and the version it was acquired for. -/
structure Held where
  guard : Guard
  version : String
  deriving DecidableEq, Repr

/-- A session in which guards live, in the order in which they were acquired. -/
structure Guarding (σ : Type) where
  session : Session σ
  live : List Held

/-- What is done with guards. A live guard is named by its number; it is ended once, since it is then no longer live. -/
inductive Operation where
  /-- Sets the version in a manifest; the guard lives if that succeeds. -/
  | acquire (manifest : Path) (version : String)
  | restore (number : Nat)
  | drop (number : Nat)
  deriving DecidableEq, Repr

namespace Operation

/-- Does an operation; where the number names no live guard, nothing is done. -/
def perform (cwd : WorkingDir) (g : Guarding σ) : Operation → Guarding σ
  | .acquire manifest version =>
    match Guard.acquire cwd manifest version g.session with
    | (.ok guard, after) => ⟨after, g.live ++ [⟨guard, version⟩]⟩
    | (.error _, after) => ⟨after, g.live⟩
  | .restore number =>
    match g.live[number]? with
    | some held => ⟨(Guard.restore cwd held.guard g.session).2, g.live.eraseIdx number⟩
    | none => g
  | .drop number =>
    match g.live[number]? with
    | some held => ⟨(Guard.drop cwd held.guard g.session).2, g.live.eraseIdx number⟩
    | none => g

def performAll (cwd : WorkingDir) (g : Guarding σ) (operations : List Operation) : Guarding σ :=
  operations.foldl (perform cwd) g

/-- An operation that sets no version in another manifest. -/
def ActsOn (manifests : List Path) : Operation → Prop
  | .acquire manifest _ => manifest ∈ manifests
  | _ => True

end Operation

/-- The paths name different files, none of which has a backup. -/
structure Separate (cwd : WorkingDir) (t : FileTree) (manifests : List Path) : Prop where
  isFile : ∀ p ∈ manifests, ∃ location content is, t.lstat cwd p = .ok (location, .file content is)
  different : ∀ p ∈ manifests, ∀ q ∈ manifests, ∀ location entry entry',
    t.lstat cwd p = .ok (location, entry) → t.lstat cwd q = .ok (location, entry') → p = q
  noBackup : ∀ p ∈ manifests, ∀ location entry, t.lstat cwd (backupOf p) ≠ .ok (location, entry)

/-- What holds of guards that live in a session that began with the tree `t`. -/
structure Guarding.Safe (cwd : WorkingDir) (t : FileTree) (manifests : List Path) (g : Guarding σ) : Prop where
  single : (g.live.map (·.guard.manifest)).Nodup
  /-- While a guard lives, the manifest carries its version, the backup holds the bytes that the manifest had, and the
      version cannot be set again. -/
  guarded : ∀ held ∈ g.live, ∃ location original is versioned,
    t.lstat cwd held.guard.manifest = .ok (location, .file original is) ∧
    setVersion original held.version = .ok versioned ∧
    g.session.tree.lstat cwd held.guard.manifest = .ok (location, .file versioned is) ∧
    g.session.tree.read cwd (backupOf held.guard.manifest) = .ok original ∧
    ∀ version, ∃ e, Guard.acquire cwd held.guard.manifest version g.session = (.error e, g.session)
  /-- A manifest without a live guard is as it was, and there is no backup. -/
  free : ∀ p ∈ manifests, (∀ held ∈ g.live, held.guard.manifest ≠ p) →
    g.session.tree.lstat cwd p = t.lstat cwd p ∧
    ∀ location entry, g.session.tree.lstat cwd (backupOf p) ≠ .ok (location, entry)
  ended : g.live = [] → g.session.tree = t

/-- A live guard, with the place of its manifest. -/
private structure Site where
  held : Held
  dir : Location
  name : Bytes
  executable : Bool
  versioned : Bytes

namespace Site

private def place (site : Site) : Location :=
  site.dir ++ [site.name]

private def backup (site : Site) : Location :=
  site.dir ++ [backupName site.name]

/-- What was there before the version was set. -/
private structure Stands (cwd : WorkingDir) (t : FileTree) (site : Site) : Prop where
  manifest : t.StandsFor cwd site.held.guard.manifest site.dir site.name
  beside : t.StandsFor cwd (backupOf site.held.guard.manifest) site.dir (backupName site.name)
  found : t.get? site.place = some (.file site.held.guard.content site.executable)
  free : t.get? site.backup = none
  version : setVersion site.held.guard.content site.held.version = .ok site.versioned

end Site

namespace Site.Stands

variable {t : FileTree} {site other : Site}

/-- No manifest stands where a backup does. -/
private theorem place_ne_backup (h : site.Stands cwd t) (hother : other.Stands cwd t) :
    site.place ≠ other.backup := by
  intro heq
  have hfound := h.found
  rw [heq, hother.free] at hfound
  cases hfound

private theorem lstat (h : site.Stands cwd t) : t.lstat cwd site.held.guard.manifest =
    .ok (site.place, .file site.held.guard.content site.executable) :=
  h.manifest.lstat h.found

end Site.Stands

/-- Where a backup can stand later, it can stand at first, and there is nothing. -/
private theorem Separate.beside {t after : FileTree} {manifests : List Path} (h : Separate cwd t manifests)
    (hp : p ∈ manifests) (hstands : t.StandsFor cwd p dir name)
    (hlater : after.StandsFor cwd (backupOf p) dir (backupName name)) :
    t.StandsFor cwd (backupOf p) dir (backupName name) ∧ t.get? (dir ++ [backupName name]) = none := by
  have hcheck := (resolveParent_eq_ok_iff.mp hlater.parent).1
  have hbeside : t.StandsFor cwd (backupOf p) dir (backupName name) :=
    ⟨hstands.parent_append (by decide +kernel) (by decide +kernel) hcheck, hlater.length_le⟩
  exact ⟨hbeside, hbeside.get?_eq_none (h.noBackup p hp)⟩

/-- Manifests whose backups stand at one place stand at one place. -/
private theorem place_of_backup {other : Location} {name' : Bytes}
    (h : dir ++ [backupName name] = other ++ [backupName name']) : dir ++ [name] = other ++ [name'] := by
  obtain ⟨hdir, hname⟩ := List.append_inj' h rfl
  rw [hdir, List.append_cancel_right (List.singleton_inj.mp hname)]

/-- The tree `after` is `t` with the manifests and backups of the live guards. -/
private structure Guards (cwd : WorkingDir) (t : FileTree) (sites : List Site) (after : FileTree) : Prop where
  stands : ∀ site ∈ sites, site.Stands cwd t
  distinct : sites.Pairwise fun site other => site.place ≠ other.place
  keys : after.entries.map Prod.fst = t.entries.map Prod.fst ++ sites.map Site.backup
  manifest : ∀ site ∈ sites, after.get? site.place = some (.file site.versioned site.executable)
  backup : ∀ site ∈ sites, after.get? site.backup = some (.file site.held.guard.content false)
  other : ∀ location, (∀ site ∈ sites, location ≠ site.place ∧ location ≠ site.backup) →
    after.get? location = t.get? location

namespace Guards

variable {t after : FileTree} {sites front back : List Site} {site : Site} {manifests : List Path}

private theorem start (t : FileTree) : Guards cwd t [] t where
  stands := by simp
  distinct := .nil
  keys := by simp
  manifest := by simp
  backup := by simp
  other := fun _ _ => rfl

private theorem keeps (h : Guards cwd t sites after) : t.Keeps after where
  directory := by
    intro location hget
    rw [h.other location fun site hmem => ?_, hget]
    constructor
    · rintro rfl
      rw [(h.stands site hmem).found] at hget
      cases hget
    · rintro rfl
      rw [(h.stands site hmem).free] at hget
      cases hget
  link := by
    intro location target hget
    rw [h.other location fun site hmem => ?_, hget]
    constructor
    · rintro rfl
      rw [(h.stands site hmem).found] at hget
      cases hget
    · rintro rfl
      rw [(h.stands site hmem).free] at hget
      cases hget

/-- A further guard. -/
private theorem acquired (h : Guards cwd t sites after) (hstands : site.Stands cwd t)
    (hnew : ∀ other ∈ sites, other.place ≠ site.place) :
    Guards cwd t (sites ++ [site]) ((after.set site.backup (.file site.held.guard.content false)).set site.place
      (.file site.versioned site.executable)) := by
  have hplace : site.place ≠ [] := by simp [Site.place]
  have hbackup : site.backup ≠ [] := by simp [Site.backup]
  have hne : site.place ≠ site.backup := hstands.place_ne_backup hstands
  have hout : ∀ other ∈ sites, site.backup ≠ other.place ∧ site.backup ≠ other.backup := fun other hmem =>
    ⟨(h.stands other hmem).place_ne_backup hstands |>.symm, fun heq => hnew other hmem (place_of_backup heq).symm⟩
  have hget : after.get? site.place = some (.file site.held.guard.content site.executable) := by
    rw [h.other _ fun other hmem => ⟨(hnew other hmem).symm, hstands.place_ne_backup (h.stands other hmem)⟩]
    exact hstands.found
  have hnone : after.get? site.backup = none := by
    rw [h.other _ hout]
    exact hstands.free
  have hget? (location : Location) : ((after.set site.backup (.file site.held.guard.content false)).set site.place
      (.file site.versioned site.executable)).get? location =
        if location = site.place then some (.file site.versioned site.executable)
        else if location = site.backup then some (.file site.held.guard.content false)
        else after.get? location := by
    rw [get?_set _ _ hplace, get?_set _ _ hbackup]
  refine ⟨?_, ?_, ?_, ?_, ?_, ?_⟩
  · simpa only [List.mem_append, List.mem_singleton, or_imp, forall_and, forall_eq] using ⟨h.stands, hstands⟩
  · refine List.pairwise_append.mpr ⟨h.distinct, List.pairwise_singleton _ _, fun other hmem last hlast => ?_⟩
    rw [List.mem_singleton.mp hlast]
    exact hnew other hmem
  · rw [keys_set_of_some hplace (by rw [get?_set_of_ne _ _ hbackup hne, hget]), keys_set_of_none hbackup hnone, h.keys,
      List.map_append, List.map_singleton, List.append_assoc]
  · intro other hmem
    rw [hget?]
    rcases List.mem_append.mp hmem with hmem | hmem
    · rw [if_neg (hnew other hmem), if_neg ((h.stands other hmem).place_ne_backup hstands), h.manifest other hmem]
    · rw [List.mem_singleton.mp hmem, if_pos rfl]
  · intro other hmem
    rw [hget?]
    rcases List.mem_append.mp hmem with hmem | hmem
    · rw [if_neg (hstands.place_ne_backup (h.stands other hmem)).symm, if_neg (hout other hmem).2.symm,
        h.backup other hmem]
    · rw [List.mem_singleton.mp hmem, if_neg hne.symm, if_pos rfl]
  · intro location hlocation
    obtain ⟨hplace', hbackup'⟩ := hlocation site (by simp)
    rw [hget?, if_neg hplace', if_neg hbackup']
    exact h.other location fun other hmem => hlocation other (List.mem_append_left _ hmem)

/-- One guard less. -/
private theorem ended (h : Guards cwd t (front ++ site :: back) after) :
    Guards cwd t (front ++ back) ((after.set site.place (.file site.held.guard.content site.executable)).erase
      site.backup) := by
  have hplace : site.place ≠ [] := by simp [Site.place]
  have hbackup : site.backup ≠ [] := by simp [Site.backup]
  have hsub : ∀ other ∈ front ++ back, other ∈ front ++ site :: back := by
    intro other hmem
    simp only [List.mem_append, List.mem_cons] at hmem ⊢
    exact hmem.imp_right .inr
  have hstands := h.stands site (by simp)
  have hne : site.place ≠ site.backup := hstands.place_ne_backup hstands
  have hout : ∀ other ∈ front ++ back, other.place ≠ site.place := by
    intro other hmem
    obtain ⟨-, hback, hfront⟩ := List.pairwise_append.mp h.distinct
    rcases List.mem_append.mp hmem with hmem | hmem
    · exact hfront other hmem site List.mem_cons_self
    · exact (List.rel_of_pairwise_cons hback hmem).symm
  have hothers : ∀ other ∈ front ++ back, other.backup ≠ site.backup := fun other hmem heq =>
    hout other hmem (place_of_backup heq)
  have hget? (location : Location) :
      ((after.set site.place (.file site.held.guard.content site.executable)).erase site.backup).get? location =
        if location = site.backup then none
        else if location = site.place then some (.file site.held.guard.content site.executable)
        else after.get? location := by
    rw [get?_erase _ hbackup, get?_set _ _ hplace]
  refine ⟨fun other hmem => h.stands other (hsub other hmem), ?_, ?_, ?_, ?_, ?_⟩
  · exact h.distinct.sublist ((List.sublist_cons_self site back).append_left front)
  · have hfree : ∀ key ∈ t.entries.map Prod.fst, key ≠ site.backup := by
      intro key hmem heq
      obtain ⟨item, hitem, rfl⟩ := List.mem_map.mp hmem
      exact (get?_eq_none_iff hbackup).mp hstands.free item hitem heq
    have hkept : ∀ key ∈ t.entries.map Prod.fst ++ (front ++ back).map Site.backup,
        (key != site.backup) = true := by
      simp only [List.mem_append, List.mem_map, bne_iff_ne] at hfree hothers ⊢
      rintro key (hmem | ⟨other, hmem, rfl⟩)
      · exact hfree key hmem
      · exact hothers other hmem
    rw [keys_erase, keys_set_of_some hplace (h.manifest site (by simp)), h.keys, ← List.filter_eq_self.mpr hkept]
    simp [List.filter_append]
  · intro other hmem
    rw [hget?, if_neg ((h.stands other (hsub other hmem)).place_ne_backup hstands), if_neg (hout other hmem),
      h.manifest other (hsub other hmem)]
  · intro other hmem
    rw [hget?, if_neg (hothers other hmem),
      if_neg (hstands.place_ne_backup (h.stands other (hsub other hmem))).symm, h.backup other (hsub other hmem)]
  · intro location hlocation
    rw [hget?]
    by_cases hb : location = site.backup
    · rw [if_pos hb, hb, hstands.free]
    by_cases hp : location = site.place
    · rw [if_neg hb, if_pos hp, hp, hstands.found]
    · rw [if_neg hb, if_neg hp]
      refine h.other location fun other hmem => ?_
      rcases List.mem_append.mp hmem with hmem | hmem
      · exact hlocation other (List.mem_append_left _ hmem)
      rcases List.mem_cons.mp hmem with rfl | hmem
      · exact ⟨hp, hb⟩
      · exact hlocation other (List.mem_append_right _ hmem)

/-- A manifest without a live guard is as it was, and there is no backup. -/
private theorem free (hwf : t.WellFormed) (hseparate : Separate cwd t manifests) (h : Guards cwd t sites after)
    (hknown : ∀ site ∈ sites, site.held.guard.manifest ∈ manifests) (hp : p ∈ manifests)
    (hfree : ∀ site ∈ sites, site.held.guard.manifest ≠ p) :
    ∃ dir name content is, t.lstat cwd p = .ok (dir ++ [name], .file content is) ∧ t.StandsFor cwd p dir name ∧
      (∀ site ∈ sites, site.place ≠ dir ++ [name]) ∧ after.get? (dir ++ [name]) = some (.file content is) ∧
      ∀ location entry, after.lstat cwd (backupOf p) ≠ .ok (location, entry) := by
  obtain ⟨location, content, is, hlstat⟩ := hseparate.isFile p hp
  obtain ⟨dir, name, rfl, hstands⟩ := standsFor_of_lstat hwf hlstat
  have hfound := hstands.get?_of_lstat hlstat
  have hplace : ∀ site ∈ sites, site.place ≠ dir ++ [name] := by
    intro site hmem heq
    have hsite := (h.stands site hmem).lstat
    rw [heq] at hsite
    exact hfree site hmem (hseparate.different _ (hknown site hmem) p hp _ _ _ hsite hlstat)
  refine ⟨dir, name, content, is, hlstat, hstands, hplace, ?_, fun location entry hbackup => ?_⟩
  · rw [h.other _ fun site hmem => ⟨(hplace site hmem).symm, fun heq => ?_⟩, hfound]
    rw [heq, (h.stands site hmem).free] at hfound
    cases hfound
  · -- The backup would stand beside the manifest, where there was nothing and no guard has put anything.
    have hbeside := Guard.standsFor_backup (hstands.keeps h.keeps) (lstat_eq_ok_iff.mp hbackup)
    obtain ⟨-, hnone⟩ := hseparate.beside hp hstands hbeside
    have hthere := hbeside.get?_of_lstat hbackup
    rw [h.other _ fun site hmem => ⟨fun heq => ?_, fun heq => hplace site hmem (place_of_backup heq).symm⟩,
      hnone] at hthere
    · cases hthere
    · rw [heq, (h.stands site hmem).found] at hnone
      cases hnone

end Guards

/-- The guards that live in a session that began with the tree `t`. -/
private def Tracks (cwd : WorkingDir) (t : FileTree) (manifests : List Path) (g : Guarding σ) : Prop :=
  ∃ sites : List Site, g.live = sites.map Site.held ∧ Guards cwd t sites g.session.tree ∧
    ∀ site ∈ sites, site.held.guard.manifest ∈ manifests

variable {t : FileTree} {manifests : List Path} {g : Guarding σ}

private theorem tracks_acquire (hwf : t.WellFormed) (hseparate : Separate cwd t manifests) (hp : p ∈ manifests)
    (version : String) (h : Tracks cwd t manifests g) :
    Tracks cwd t manifests (Operation.perform cwd g (.acquire p version)) := by
  obtain ⟨sites, hlive, hguards, hknown⟩ := h
  by_cases hheld : ∃ site ∈ sites, site.held.guard.manifest = p
  · -- The backup of the live guard is in the way.
    obtain ⟨site, hmem, rfl⟩ := hheld
    have hbeside := (hguards.stands site hmem).beside.keeps hguards.keeps
    have hrefused := Guard.acquire_of_stat version (hbeside.stat (hguards.backup site hmem) rfl)
    rw [Operation.perform, hrefused]
    exact ⟨sites, hlive, hguards, hknown⟩
  · -- The manifest is as it was found, so setting the version does what it would have done at first.
    have hfree : ∀ site ∈ sites, site.held.guard.manifest ≠ p := fun site hmem heq => hheld ⟨site, hmem, heq⟩
    obtain ⟨dir, name, content, is, hlstat, hstands, hplace, hget, hbackup⟩ :=
      hguards.free hwf hseparate hknown hp hfree
    obtain ⟨e, hrefused⟩ | ⟨versioned, hversion, hbeside, hacquired⟩ :=
      Guard.acquire_standing version (hstands.keeps hguards.keeps) hget hbackup
    · rw [Operation.perform, hrefused]
      exact ⟨sites, hlive, hguards, hknown⟩
    · let site : Site := ⟨⟨⟨p, content⟩, version⟩, dir, name, is, versioned⟩
      obtain ⟨hbesideAtFirst, hnone⟩ := hseparate.beside hp hstands hbeside
      have hsite : site.Stands cwd t :=
        ⟨hstands, hbesideAtFirst, hstands.get?_of_lstat hlstat, hnone, hversion⟩
      rw [Operation.perform, hacquired]
      refine ⟨sites ++ [site], ?_, hguards.acquired hsite hplace, ?_⟩
      · rw [hlive, List.map_append, List.map_singleton]
      · simpa only [List.mem_append, List.mem_singleton, or_imp, forall_and, forall_eq] using ⟨hknown, hp⟩

/-- A live guard that is ended is no longer live, and what it set is undone. -/
private theorem tracks_end {number : Nat} {held : Held} (h : Tracks cwd t manifests g)
    (hheld : g.live[number]? = some held) :
    ∃ after, Guard.restore cwd held.guard g.session = (.ok (), after) ∧
      Guard.drop cwd held.guard g.session = (.ok (), after) ∧
      Tracks cwd t manifests ⟨after, g.live.eraseIdx number⟩ := by
  obtain ⟨sites, hlive, hguards, hknown⟩ := h
  rw [hlive, List.getElem?_map, Option.map_eq_some_iff] at hheld
  obtain ⟨site, hsite, rfl⟩ := hheld
  obtain ⟨front, back, rfl, rfl⟩ : ∃ front back, sites = front ++ site :: back ∧ front.length = number := by
    obtain ⟨hlt, rfl⟩ := List.getElem?_eq_some_iff.mp hsite
    refine ⟨sites.take number, sites.drop (number + 1), ?_, List.length_take_of_le (Nat.le_of_lt hlt)⟩
    rw [← List.drop_eq_getElem_cons hlt, List.take_append_drop]
  have hmem : site ∈ front ++ site :: back := by simp
  have hstands := hguards.stands site hmem
  obtain ⟨hrestore, hdrop⟩ := Guard.end_standing site.held.guard.content (hstands.manifest.keeps hguards.keeps)
    (hstands.beside.keeps hguards.keeps) (hguards.manifest site hmem) (hguards.backup site hmem)
  refine ⟨_, hrestore, hdrop, front ++ back, ?_, hguards.ended, fun other hother => hknown other ?_⟩
  · have hlength : (front.map Site.held).length = front.length := List.length_map _
    rw [hlive, List.map_append, List.map_cons, List.eraseIdx_append_of_length_le (Nat.le_of_eq hlength), hlength,
      Nat.sub_self, List.eraseIdx_cons_zero, List.map_append]
  · rw [List.mem_append, List.mem_cons]
    exact (List.mem_append.mp hother).imp_right .inr

private theorem tracks_perform (hwf : t.WellFormed) (hseparate : Separate cwd t manifests) {operation : Operation}
    (hacts : operation.ActsOn manifests) (h : Tracks cwd t manifests g) :
    Tracks cwd t manifests (operation.perform cwd g) := by
  cases operation with
  | acquire p version => exact tracks_acquire hwf hseparate hacts version h
  | restore number =>
    rw [Operation.perform]
    split
    · rename_i held hheld
      obtain ⟨after, hrestore, -, hafter⟩ := tracks_end h hheld
      rw [hrestore]
      exact hafter
    · exact h
  | drop number =>
    rw [Operation.perform]
    split
    · rename_i held hheld
      obtain ⟨after, -, hdrop, hafter⟩ := tracks_end h hheld
      rw [hdrop]
      exact hafter
    · exact h

private theorem tracks_performAll (hwf : t.WellFormed) (hseparate : Separate cwd t manifests)
    {operations : List Operation} (hacts : ∀ operation ∈ operations, operation.ActsOn manifests)
    (h : Tracks cwd t manifests g) : Tracks cwd t manifests (Operation.performAll cwd g operations) := by
  induction operations generalizing g with
  | nil => exact h
  | cons operation operations ih =>
    obtain ⟨hfirst, hrest⟩ := List.forall_mem_cons.mp hacts
    exact ih hrest (tracks_perform hwf hseparate hfirst h)

private theorem safe_of_tracks (hwf : t.WellFormed) (hseparate : Separate cwd t manifests)
    (h : Tracks cwd t manifests g) : g.Safe cwd t manifests := by
  obtain ⟨sites, hlive, hguards, hknown⟩ := h
  refine ⟨?_, ?_, ?_, ?_⟩
  · rw [hlive, List.map_map, List.nodup_iff_pairwise_ne, List.pairwise_map]
    refine hguards.distinct.imp_of_mem fun {site other} hsite hother hne heq => hne ?_
    have hlstat := (hguards.stands site hsite).lstat
    rw [show site.held.guard.manifest = other.held.guard.manifest from heq,
      (hguards.stands other hother).lstat] at hlstat
    exact (congrArg Prod.fst (Except.ok.inj hlstat)).symm
  · intro held hheld
    rw [hlive] at hheld
    obtain ⟨site, hmem, rfl⟩ := List.mem_map.mp hheld
    have hstands := hguards.stands site hmem
    have hbeside := hstands.beside.keeps hguards.keeps
    refine ⟨site.place, site.held.guard.content, site.executable, site.versioned, hstands.lstat, hstands.version,
      ?_, ?_, fun version =>
        ⟨_, Guard.acquire_of_stat version (hbeside.stat (hguards.backup site hmem) rfl)⟩⟩
    · exact (hstands.manifest.keeps hguards.keeps).lstat (hguards.manifest site hmem)
    · exact read_of_stat (hbeside.stat (hguards.backup site hmem) rfl)
  · intro p hp hfree
    have hnone : ∀ site ∈ sites, site.held.guard.manifest ≠ p := fun site hmem =>
      hfree site.held (hlive ▸ List.mem_map_of_mem hmem)
    obtain ⟨dir, name, content, is, hlstat, hstands, -, hget, hbackup⟩ := hguards.free hwf hseparate hknown hp hnone
    exact ⟨by rw [(hstands.keeps hguards.keeps).lstat hget, hlstat], hbackup⟩
  · intro hnone
    rw [hlive, List.map_eq_nil_iff] at hnone
    subst hnone
    -- The same entries in the same order: ending a guard takes its backup out from wherever it came to stand.
    exact eq_of_get? (by simpa using hguards.keys) hwf.nodup hwf.root fun location => hguards.other location (by simp)

/-- Guards of manifests that name different files do not get in each other's way, in whatever order versions are set
    and guards are restored or dropped, whether or not setting a version succeeds: no manifest has two live guards,
    one with a live guard carries that guard's version and has its bytes in the backup, and one without is as it was
    found. When all guards are ended, the tree is the one that there was. -/
theorem interleaving_safe {s : Session σ} (hwf : s.tree.WellFormed) (hseparate : Separate cwd s.tree manifests)
    {operations : List Operation} (hacts : ∀ operation ∈ operations, operation.ActsOn manifests) :
    (Operation.performAll cwd ⟨s, []⟩ operations).Safe cwd s.tree manifests :=
  safe_of_tracks hwf hseparate (tracks_performAll hwf hseparate hacts ⟨[], rfl, .start s.tree, by simp⟩)

/-- Two manifests. -/
private def pair : FileTree :=
  ⟨[([Bytes.ofText "a"], .file (Bytes.ofText "\x7b\x7d") false),
    ([Bytes.ofText "b"], .file (Bytes.ofText "\x7b\x7d") true)]⟩

private theorem separate_pair : Separate (some []) pair ["/a", "/b"] := by
  have ha : pair.lstat (some []) "/a" = .ok ([Bytes.ofText "a"], .file (Bytes.ofText "\x7b\x7d") false) := by
    decide +kernel
  have hb : pair.lstat (some []) "/b" = .ok ([Bytes.ofText "b"], .file (Bytes.ofText "\x7b\x7d") true) := by
    decide +kernel
  have hne : [Bytes.ofText "a"] ≠ [Bytes.ofText "b"] := by decide +kernel
  have hbackups : ∀ p ∈ [Path.ofText "/a", Path.ofText "/b"],
      pair.lstat (some []) (backupOf p) = .error (.os .noEntry) := by
    decide +kernel
  refine ⟨fun p hp => ?_, fun p hp q hq location entry entry' hfirst hsecond => ?_,
    fun p hp location entry hbackup => ?_⟩
  · simp only [List.mem_cons, List.not_mem_nil, or_false] at hp
    obtain rfl | rfl := hp
    · exact ⟨_, _, _, ha⟩
    · exact ⟨_, _, _, hb⟩
  · simp only [List.mem_cons, List.not_mem_nil, or_false] at hp hq
    obtain rfl | rfl := hp <;> obtain rfl | rfl := hq
    · rfl
    · rw [ha] at hfirst
      rw [hb] at hsecond
      exact absurd ((congrArg Prod.fst (Except.ok.inj hfirst)).trans
        (congrArg Prod.fst (Except.ok.inj hsecond)).symm) hne
    · rw [hb] at hfirst
      rw [ha] at hsecond
      exact absurd ((congrArg Prod.fst (Except.ok.inj hsecond)).trans
        (congrArg Prod.fst (Except.ok.inj hfirst)).symm) hne
    · rfl
  · rw [hbackups p hp] at hbackup
    cases hbackup

/-- Two guards that live at the same time are ended in the order in which they were acquired; in between one of the
    versions cannot be set again. -/
theorem interleaving_safe_crossed :
    let operations := [.acquire "/a" "1", .acquire "/b" "2", .acquire "/a" "3", .restore 0, .drop 0]
    (Operation.performAll (some []) ⟨.start pair (), []⟩ (operations.take 3)).live.map (·.version) = ["1", "2"] ∧
    (Operation.performAll (some []) ⟨.start pair (), []⟩ operations).live = [] ∧
    (Operation.performAll (some []) ⟨.start pair (), []⟩ operations).Safe (some []) pair ["/a", "/b"] := by
  refine ⟨by decide +kernel, by decide +kernel, ?_⟩
  refine interleaving_safe (s := Session.start pair ()) (by decide +kernel) separate_pair fun operation hmem => ?_
  simp only [List.mem_cons, List.not_mem_nil, or_false] at hmem
  obtain rfl | rfl | rfl | rfl | rfl := hmem <;> simp [Operation.ActsOn]

end DebRelease.Manifest
