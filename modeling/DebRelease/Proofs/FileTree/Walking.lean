import DebRelease.Artifact
import DebRelease.Proofs.FileTree.Overlay
import DebRelease.Proofs.Path.Components

namespace DebRelease.FileTree

variable {t : FileTree} {cwd : WorkingDir} {p path : Path} {dir rest : Location} {entry : Entry} {depth : Nat}

theorem WellFormed.isName (h : t.WellFormed) (hget : t.get? (dir ++ rest) = some entry) :
    ∀ name ∈ rest, Path.isName name = true :=
  fun name hmem => (h.isEntryName hget name (List.mem_append_right dir hmem)).isName

/-- If a path is accepted, so are those of the directories above it. -/
theorem checkPath_of_descend (hcheck : checkPath (p.descend rest) = .ok ()) (hne : p.bytes ≠ [])
    (hnames : ∀ name ∈ rest, Path.isName name = true) : checkPath p = .ok () :=
  checkPath_of_isPrefix hcheck (p.isPrefix_descend hnames) hne

theorem checkPath_descend_dropLast (hcheck : checkPath (p.descend rest) = .ok ()) (hne : p.bytes ≠ [])
    (hnames : ∀ name ∈ rest, Path.isName name = true) : checkPath (p.descend rest.dropLast) = .ok () := by
  rcases List.eq_nil_or_concat rest with rfl | ⟨front, name, rfl⟩
  · exact hcheck
  · rw [List.concat_eq_append] at hcheck hnames ⊢
    rw [Path.descend_concat] at hcheck
    rw [List.dropLast_concat]
    refine checkPath_of_isPrefix hcheck ((p.descend front).isPrefix_join (hnames name (by simp))) ?_
    exact (p.isPrefix_descend fun other hmem => hnames other (by simp [hmem])).ne_nil hne

/-- What lies below a path that is not accepted is passed over. -/
theorem walk_of_refused (hcheck : checkPath p ≠ .ok ()) : t.walk cwd depth p = [] := by
  cases depth with
  | zero => rfl
  | succ depth =>
    cases hrefused : checkPath p with
    | ok => exact absurd hrefused hcheck
    | error e =>
      have hlist : t.listEntries cwd p = .error e := by
        rw [listEntries, stat, resolve, hrefused]
        rfl
      rw [walk, hlist]

/-- A walk lists the directory it starts from; below the directories listed there it goes on. -/
private theorem walk_succ {entries : List (Bytes × Entry)} (hlist : t.listEntries cwd p = .ok entries) :
    t.walk cwd (depth + 1) p = entries.flatMap fun item =>
      (p.join ⟨item.1⟩, item.2) :: if item.2.isDirectory then t.walk cwd depth (p.join ⟨item.1⟩) else [] := by
  rw [walk, hlist]

/-- What a walk comes to has the path of the directory with names after it. -/
private theorem descend_of_mem_walk (hwf : t.WellFormed) (hmem : (path, entry) ∈ t.walk cwd depth p) :
    ∃ rest, rest ≠ [] ∧ (∀ name ∈ rest, Path.isName name = true) ∧ path = p.descend rest := by
  induction depth generalizing p with
  | zero => cases hmem
  | succ depth ih =>
    cases hlist : t.listEntries cwd p with
    | error e =>
      rw [walk, hlist] at hmem
      cases hmem
    | ok entries =>
      obtain ⟨location, -, -, hentries⟩ := listEntries_eq_ok hwf hlist
      rw [walk_succ hlist, List.mem_flatMap] at hmem
      obtain ⟨⟨name, found⟩, hitem, hmem⟩ := hmem
      have hname := (hwf.name (hentries.mp hitem)).isName
      rcases List.mem_cons.mp hmem with heq | hmem
      · cases heq
        exact ⟨[name], by simp, List.forall_mem_singleton.mpr hname, rfl⟩
      · split at hmem
        · obtain ⟨rest, -, hnames, rfl⟩ := ih hmem
          exact ⟨name :: rest, by simp, List.forall_mem_cons.mpr ⟨hname, hnames⟩, rfl⟩
        · cases hmem

/-- A walk comes to nothing twice. -/
theorem nodup_walk (cwd : WorkingDir) (hwf : t.WellFormed) (depth : Nat) (p : Path) :
    ((t.walk cwd depth p).map Prod.fst).Nodup := by
  induction depth generalizing p with
  | zero => exact List.nodup_nil
  | succ depth ih =>
    cases hlist : t.listEntries cwd p with
    | error e =>
      rw [walk, hlist]
      exact List.nodup_nil
    | ok entries =>
      obtain ⟨location, -, hnodup, hentries⟩ := listEntries_eq_ok hwf hlist
      have hname (item : Bytes × Entry) (hitem : item ∈ entries) : Path.isName item.1 = true :=
        (hwf.name (hentries.mp hitem)).isName
      let found (item : Bytes × Entry) : List (Path × Entry) :=
        (p.join ⟨item.1⟩, item.2) :: if item.2.isDirectory then t.walk cwd depth (p.join ⟨item.1⟩) else []
      -- all that is found for one name of the directory has that name next in its path
      have hnext (item : Bytes × Entry) (hitem : item ∈ entries) {path : Path}
          (hpath : path ∈ (found item).map Prod.fst) :
          ∃ rest, (∀ name ∈ item.1 :: rest, Path.isName name = true) ∧ path = p.descend (item.1 :: rest) := by
        obtain ⟨other, hother, rfl⟩ := List.mem_map.mp hpath
        rcases List.mem_cons.mp hother with rfl | hother
        · exact ⟨[], List.forall_mem_singleton.mpr (hname item hitem), rfl⟩
        · split at hother
          · obtain ⟨rest, -, hnames, hpath⟩ := descend_of_mem_walk hwf hother
            exact ⟨rest, List.forall_mem_cons.mpr ⟨hname item hitem, hnames⟩, hpath⟩
          · cases hother
      rw [walk_succ hlist, List.map_flatMap, List.nodup_flatMap]
      refine ⟨fun item hitem => List.nodup_cons.mpr ⟨fun hmem => ?_, ?_⟩, ?_⟩
      · obtain ⟨other, hother, hpath⟩ := List.mem_map.mp hmem
        split at hother
        · obtain ⟨rest, hne, hnames, hdescend⟩ := descend_of_mem_walk hwf hother
          exact hne (Path.descend_injective (p.join ⟨item.1⟩) hnames (by simp) (hdescend.symm.trans hpath))
        · cases hother
      · split
        · exact ih _
        · exact List.nodup_nil
      · refine (List.pairwise_map.mp hnodup).imp_of_mem fun {item other} hitem hother hne => ?_
        refine List.disjoint_left.mpr fun path hpath hpath' => hne ?_
        obtain ⟨rest, hnames, hdescend⟩ := hnext item hitem hpath
        obtain ⟨rest', hnames', hdescend'⟩ := hnext other hother hpath'
        have heq := p.descend_injective hnames hnames' (hdescend.symm.trans hdescend')
        exact (List.cons.inj heq).1

/-- A path that leads to a directory leads on to what lies below it. -/
theorem Leads.descend (hleads : t.Leads cwd p dir) (hwf : t.WellFormed)
    (hget : t.get? (dir ++ rest) = some .directory) : t.Leads cwd (p.descend rest) (dir ++ rest) := by
  induction rest generalizing p dir with
  | nil => simpa using hleads
  | cons name rest ih =>
    rw [List.append_cons] at hget ⊢
    have hdir : t.get? (dir ++ [name]) = some .directory := by
      by_cases hrest : rest = []
      · simpa [hrest] using hget
      · exact hwf.directory_above hrest hget
    exact ih (hleads.enter (hwf.name hdir) hdir) hget

/-- The path of a directory with the names on the way stands for what lies below it. -/
theorem Leads.standsFor_descend {front : Location} {name : Bytes} (hleads : t.Leads cwd p dir) (hwf : t.WellFormed)
    (hget : t.get? (dir ++ (front ++ [name])) = some entry)
    (hcheck : checkPath (p.descend (front ++ [name])) = .ok ()) :
    t.StandsFor cwd (p.descend (front ++ [name])) (dir ++ front) name := by
  rw [← List.append_assoc] at hget
  rw [Path.descend_concat] at hcheck ⊢
  exact (hleads.descend hwf (hwf.parent hget)).child (hwf.name hget) hcheck

private theorem Leads.standsFor_below (hleads : t.Leads cwd p dir) (hwf : t.WellFormed) (hrest : rest ≠ [])
    (hget : t.get? (dir ++ rest) = some entry) (hcheck : checkPath (p.descend rest) = .ok ()) :
    ∃ above name, dir ++ rest = above ++ [name] ∧ t.StandsFor cwd (p.descend rest) above name := by
  obtain ⟨front, name, rfl⟩ := (List.eq_nil_or_concat rest).resolve_left hrest
  rw [List.concat_eq_append] at hget hcheck ⊢
  exact ⟨dir ++ front, name, (List.append_assoc ..).symm, hleads.standsFor_descend hwf hget hcheck⟩

/-- What lies below a directory is found there. -/
theorem Leads.stat_descend (hleads : t.Leads cwd p dir) (hwf : t.WellFormed) (hrest : rest ≠ [])
    (hget : t.get? (dir ++ rest) = some entry) (hlink : entry.isSymlink = false)
    (hcheck : checkPath (p.descend rest) = .ok ()) : t.stat cwd (p.descend rest) = .ok (dir ++ rest, entry) := by
  obtain ⟨above, name, heq, hstands⟩ := hleads.standsFor_below hwf hrest hget hcheck
  rw [heq] at hget ⊢
  exact hstands.stat hget hlink

theorem Leads.lstat_descend (hleads : t.Leads cwd p dir) (hwf : t.WellFormed) (hrest : rest ≠ [])
    (hget : t.get? (dir ++ rest) = some entry) (hcheck : checkPath (p.descend rest) = .ok ()) :
    t.lstat cwd (p.descend rest) = .ok (dir ++ rest, entry) := by
  obtain ⟨above, name, heq, hstands⟩ := hleads.standsFor_below hwf hrest hget hcheck
  rw [heq] at hget ⊢
  exact hstands.lstat hget

/-- A walk comes to what lies below, where the system accepts the path of the directory it lies in. -/
theorem Leads.mem_walk_iff (hleads : t.Leads cwd p dir) (hwf : t.WellFormed) (hcheck : checkPath p = .ok ())
    (hdepth : Path.lengthLimit ≤ p.bytes.length + depth) : (path, entry) ∈ t.walk cwd depth p ↔
      ∃ rest, rest ≠ [] ∧ t.get? (dir ++ rest) = some entry ∧ path = p.descend rest ∧
        checkPath (p.descend rest.dropLast) = .ok () := by
  induction depth generalizing p dir with
  | zero => exact absurd (checkPath_eq_ok_iff.mp hcheck).2.2 (by omega)
  | succ depth ih =>
    obtain ⟨entries, hlist, -, hentries⟩ := hleads.listEntries hwf hcheck
    have hbelow {name : Bytes} (hget : t.get? (dir ++ [name]) = some .directory)
        (haccepted : checkPath (p.join ⟨name⟩) = .ok ()) : (path, entry) ∈ t.walk cwd depth (p.join ⟨name⟩) ↔
          ∃ rest, rest ≠ [] ∧ t.get? (dir ++ [name] ++ rest) = some entry ∧ path = (p.join ⟨name⟩).descend rest ∧
            checkPath ((p.join ⟨name⟩).descend rest.dropLast) = .ok () := by
      have hlonger := p.length_join_name (hwf.name hget).isName
      exact ih (hleads.enter (hwf.name hget) hget) haccepted (by omega)
    rw [walk_succ hlist, List.mem_flatMap]
    constructor
    · rintro ⟨⟨name, found⟩, hitem, hmem⟩
      have hget := hentries.mp hitem
      rcases List.mem_cons.mp hmem with heq | hmem
      · cases heq
        exact ⟨[name], by simp, hget, rfl, hcheck⟩
      · cases found with
        | directory =>
          by_cases haccepted : checkPath (p.join ⟨name⟩) = .ok ()
          · obtain ⟨rest, hne, hrest, hpath, hparent⟩ := (hbelow hget haccepted).mp hmem
            refine ⟨name :: rest, by simp, by simpa using hrest, hpath, ?_⟩
            rwa [List.dropLast_cons_of_ne_nil hne, Path.descend_cons]
          · simp [Entry.isDirectory, walk_of_refused haccepted] at hmem
        | _ => simp [Entry.isDirectory] at hmem
    · rintro ⟨rest, hne, hget, rfl, hparent⟩
      obtain ⟨name, rest, rfl⟩ := List.exists_cons_of_ne_nil hne
      rw [List.append_cons] at hget
      cases rest with
      | nil =>
        rw [List.append_nil] at hget
        exact ⟨(name, entry), hentries.mpr hget, List.mem_cons_self⟩
      | cons next rest =>
        have hdir : t.get? (dir ++ [name]) = some .directory := hwf.directory_above (by simp) hget
        have hnames := hwf.isName hget
        rw [List.dropLast_cons_of_ne_nil (by simp), Path.descend_cons] at hparent
        have haccepted : checkPath (p.join ⟨name⟩) = .ok () := by
          refine checkPath_of_descend hparent ?_ fun other hmem => hnames other (List.mem_of_mem_dropLast hmem)
          exact List.IsPrefix.ne_nil (p.isPrefix_join (hwf.name hdir).isName) (checkPath_eq_ok_iff.mp hcheck).2.1
        refine ⟨(name, .directory), hentries.mpr hdir, List.mem_cons_of_mem _ ?_⟩
        exact (hbelow hdir haccepted).mpr ⟨next :: rest, by simp, hget, rfl, hparent⟩

end DebRelease.FileTree
