import DebRelease.Proofs.FileTree.Content
import DebRelease.Proofs.FileTree.Leading
import DebRelease.Proofs.FileTree.Transfer

namespace DebRelease

namespace Content

/-- A content laid over another: what the first has, and else what the second has. -/
def overlay (content old : Content) : Content :=
  fun rest => (content rest).or (old rest)

/-- Whether an entry can be copied to where another is, or nothing: a directory to a directory, a file to a file. -/
def takes : Option Entry → Entry → Bool
  | .none, _ => true
  | some .directory, .directory => true
  | some (.file ..), .file .. => true
  | _, _ => false

/-- Every entry of a content can be copied to where another content is. -/
def FitsOver (content old : Content) : Prop :=
  ∀ rest entry, content rest = some entry → takes (old rest) entry = true

/-- There is no link in a content. -/
def NoLinks (content : Content) : Prop :=
  ∀ rest link, content rest ≠ some (.symlink link)

/-- What a content has at and below a name. -/
abbrev child (content : Content) (name : Bytes) : Content :=
  fun rest => content (name :: rest)

variable {content old : Content}

theorem takes_directory {entry : Entry} (h : takes (some .directory) entry = true) : entry = .directory := by
  cases entry with
  | directory => rfl
  | _ => cases h

theorem NoLinks.child (h : old.NoLinks) (name : Bytes) : (old.child name).NoLinks :=
  fun rest => h (name :: rest)

/-- Over an empty directory a directory is as it is. -/
theorem overlay_empty (h : content [] = some .directory) : content.overlay (.directory []) = content := by
  funext rest
  cases rest with
  | nil => simp [overlay, h]
  | cons => simp [overlay, Content.directory]

theorem fits_empty (h : content [] = some .directory) : content.FitsOver (.directory []) := by
  intro rest entry hentry
  cases rest with
  | nil =>
    rw [h] at hentry
    cases hentry
    rfl
  | cons => rfl

theorem noLinks_empty : NoLinks (.directory []) := by
  intro rest link
  cases rest <;> simp [directory]

/-- A content once a directory has been made at its own place, if there was none. -/
def rooted (old : Content) : Content :=
  overlay (.directory []) old

/-- Making the directory first makes no difference. -/
theorem overlay_rooted (h : content [] = some .directory) : content.overlay old.rooted = content.overlay old := by
  funext rest
  cases rest with
  | nil => simp [overlay, h]
  | cons => simp [overlay, rooted, Content.directory]

theorem NoLinks.rooted (h : old.NoLinks) : old.rooted.NoLinks := by
  intro rest link
  cases rest with
  | nil => simp [Content.rooted, overlay, Content.directory]
  | cons => exact h _ link

end Content

/-- The system accepts the paths from a path to all of a content. -/
def Path.Spans (p : Path) (content : Content) : Prop :=
  ∀ rest, content rest ≠ none → FileTree.checkPath (p.descend rest) = .ok ()

theorem Path.Spans.child {p : Path} {content : Content} (h : p.Spans content) (name : Bytes) :
    (p.join ⟨name⟩).Spans (content.child name) :=
  fun rest => h (name :: rest)

namespace FileTree

open TreeM Content

variable {ε ε' α : Type} {t t' t'' : FileTree} {cwd : WorkingDir} {p q : Path}
    {source target dir above place : Location} {name last : Bytes} {entry : Entry} {content old : Content}
    {c d : Prop} {P Q : FileTree → Prop}

/-- What is at a place and below it. -/
def contentAt (t : FileTree) (place : Location) : Content :=
  fun rest => t.get? (place ++ rest)

/-- What holds of all that is at and below a place shows at the entries of the tree. -/
theorem forall_contentAt {P : Location → Entry → Prop} :
    (∀ rest entry, t.contentAt place rest = some entry → P rest entry) ↔
      ∀ location ∈ t.places, place <+: location → ∀ entry ∈ t.get? location, P (location.drop place.length) entry := by
  constructor
  · rintro h _ - ⟨rest, rfl⟩ entry hentry
    rw [List.drop_left]
    exact h rest entry hentry
  · intro h rest entry hentry
    have hthere : t.get? (place ++ rest) = some entry := hentry
    have hmem := mem_places (show t.get? (place ++ rest) ≠ .none by simp [hthere])
    simpa using h _ hmem (List.prefix_append _ _) entry hentry

instance (t : FileTree) (place : Location) (p : Path) : Decidable (p.Spans (t.contentAt place)) :=
  decidable_of_iff (∀ location ∈ t.places, place <+: location → ∀ _ ∈ t.get? location,
      checkPath (p.descend (location.drop place.length)) = .ok ()) <| by
    rw [← forall_contentAt (P := fun rest _ => checkPath (p.descend rest) = .ok ())]
    exact ⟨fun h rest hrest => (Option.ne_none_iff_exists'.mp hrest).elim (h rest),
      fun h rest _ hentry => h rest (by simp [hentry])⟩

instance (t : FileTree) (place : Location) : Decidable (t.contentAt place).NoLinks :=
  decidable_of_iff (∀ location ∈ t.places, place <+: location →
      ∀ entry ∈ t.get? location, entry.isSymlink = false) <| by
    rw [← forall_contentAt (P := fun _ entry => entry.isSymlink = false)]
    constructor
    · intro h rest link hlink
      cases h rest _ hlink
    · intro h rest entry hentry
      cases entry with
      | symlink link => exact absurd hentry (h rest link)
      | _ => rfl

theorem contains_contentAt (t : FileTree) (place : Location) : t.Contains place (t.contentAt place) :=
  fun _ => rfl

/-- A computation succeeds if and only if a condition holds, and then leaves a tree of which `P` holds. -/
def Settles (m : TreeM ε Unit) (t : FileTree) (c : Prop) (P : FileTree → Prop) : Prop :=
  c ∧ Yields m t (fun _ => P) ∨ ¬ c ∧ ∃ e t', m t = (.error e, t')

namespace Settles

variable {m act : TreeM ε Unit}

theorem of_run (hc : c) (h : m t = (.ok (), t')) (hP : P t') : Settles m t c P :=
  .inl ⟨hc, (), t', h, hP⟩

theorem of_error {e : ε} (hc : ¬ c) (h : m t = (.error e, t')) : Settles m t c P :=
  .inr ⟨hc, e, t', h⟩

theorem bind (h : Settles m t c P) (hact : c → ∀ t', P t' → Settles act t' d Q) :
    Settles (do m; act) t (c ∧ d) Q := by
  rcases h with ⟨hc, _, t', hrun, hP⟩ | ⟨hc, e, t', hrun⟩
  · have hthen : (do m; act) t = act t' := by rw [run_bind, hrun]
    rcases hact hc t' hP with ⟨hd, hyields⟩ | ⟨hd, e, t'', hrun'⟩
    · exact .inl ⟨⟨hc, hd⟩, by rwa [Yields, hthen]⟩
    · exact .inr ⟨fun hboth => hd hboth.2, e, t'', hthen.trans hrun'⟩
  · exact .inr ⟨fun hboth => hc hboth.1, e, t', by rw [run_bind, hrun]⟩

theorem mono (h : Settles m t c P) (hc : c ↔ d) (hP : c → ∀ t', P t' → Q t') : Settles m t d Q := by
  rcases h with ⟨hholds, hyields⟩ | ⟨hnot, hrun⟩
  · exact .inl ⟨hc.mp hholds, hyields.mono fun _ => hP hholds⟩
  · exact .inr ⟨fun hholds => hnot (hc.mpr hholds), hrun⟩

theorem describe (h : Settles m t c P) (f : ε → ε') : Settles (m.describe f) t c P := by
  rcases h with ⟨hc, hyields⟩ | ⟨hc, e, t', hrun⟩
  · exact .inl ⟨hc, hyields.describe f⟩
  · exact .inr ⟨hc, f e, t', by rw [run_describe, hrun]; rfl⟩

theorem look {f : FileTree → Except ε α} {act : α → TreeM ε Unit} {a : α} (hfound : f t = .ok a)
    (h : Settles (act a) t c P) : Settles (TreeM.look f >>= act) t c P := by
  have hthen : (TreeM.look f >>= act) t = act a t := by rw [run_bind, run_look, hfound]
  rw [Settles, Yields, hthen]
  exact h

theorem yields (h : Settles m t c P) (hc : c) : Yields m t fun _ => P := by
  rcases h with ⟨-, hyields⟩ | ⟨hnot, -⟩
  · exact hyields
  · exact absurd hc hnot

theorem of_ok (h : Settles m t c P) (hrun : m t = (.ok (), t')) : c ∧ P t' := by
  rcases h with ⟨hc, _, t'', hrun', hP⟩ | ⟨-, e, t'', hrun'⟩
  · rw [hrun] at hrun'
    cases hrun'
    exact ⟨hc, hP⟩
  · rw [hrun] at hrun'
    cases hrun'

end Settles

/-- What one step of copying leaves: the tree stays well-formed, the content is at the target, and nothing
    else has changed. -/
structure Arrives (content : Content) (target : Location) (t t' : FileTree) : Prop where
  wellFormed : t'.WellFormed
  holds : t'.Contains target content
  same : ∀ location, ¬ target <+: location → t'.get? location = t.get? location

/-- What is laid over something that it fits keeps directories, and there were no links. -/
theorem Arrives.keeps (h : Arrives (content.overlay old) target t t') (hold : t.Contains target old)
    (hfits : content.FitsOver old) (hplain : old.NoLinks) : t.Keeps t' where
  directory := by
    intro location hget
    by_cases hin : target <+: location
    · obtain ⟨rest, rfl⟩ := hin
      rw [hold] at hget
      rw [h.holds, overlay]
      cases hentry : content rest with
      | none => exact hget
      | some entry =>
        have htakes := hfits rest entry hentry
        rw [hget] at htakes
        rw [takes_directory htakes]
        rfl
    · rw [h.same location hin, hget]
  link := by
    intro location link hget
    by_cases hin : target <+: location
    · obtain ⟨rest, rfl⟩ := hin
      rw [hold] at hget
      exact absurd hget (hplain rest link)
    · rw [h.same location hin, hget]

/-- Where a directory cannot be made and not because it has nowhere to stand, none above it is made. -/
theorem makeDirs_of_error {e : SystemError} (hne : q.bytes ≠ []) (hmake : makeDir cwd q t = (.error e, t))
    (hfound : e.isNotFound = false) (hnot : t.isDir cwd q = false) : Refused (makeDirs cwd q) t := by
  refine ⟨e, ?_⟩
  rw [makeDirs]
  cases q.bytes.length
  all_goals
    rw [makeDirsUpTo, if_neg (by simpa using hne), run_bind, run_attempt, hmake]
    simp only [hfound, Bool.false_eq_true, if_false, run_bind, run_get, hnot, run_throw]

/-- A directory is not made where something else is. -/
theorem StandsFor.makeDirs_refused (hq : t.StandsFor cwd q dir name) (hget : t.get? (dir ++ [name]) = some entry)
    (hnot : t.isDir cwd q = false) : Refused (makeDirs cwd q) t := by
  have hne : q.bytes ≠ [] := (checkPath_eq_ok_iff.mp hq.check).2.1
  have hmake : makeDir cwd q t = (.error (.os .alreadyExists), t) := by
    rw [makeDir, run_bind, run_look, hq.parent]
    dsimp only
    rw [if_neg (Nat.not_lt.mpr hq.length_le), run_bind, run_get]
    dsimp only
    rw [hget]
    rfl
  exact makeDirs_of_error hne hmake rfl hnot

section Entries

variable (hq : t.StandsFor cwd q dir name) (hwf : t.WellFormed)
  (hplain : ∀ link, t.get? (dir ++ [name]) ≠ some (.symlink link))

include hq hwf hplain

/-- A directory is made unless something else is there. -/
theorem makeDirs_cases : takes (t.get? (dir ++ [name])) .directory = true ∧
      makeDirs cwd q t = (.ok (), t.set (dir ++ [name]) .directory) ∨
    ¬ takes (t.get? (dir ++ [name])) .directory = true ∧ Refused (makeDirs cwd q) t := by
  have hne : q.bytes ≠ [] := (checkPath_eq_ok_iff.mp hq.check).2.1
  cases hget : t.get? (dir ++ [name]) with
  | none => exact .inl ⟨rfl, makeDirs_of_makeDir hne (makeDir_of_parent hq.parent hq.length_le hget)⟩
  | some entry =>
    cases entry with
    | directory =>
      rw [hwf.set_eq_self (by simp) hget]
      exact .inl ⟨rfl, (hq.leads hget).makeDirs fun _ => hq.check⟩
    | symlink link => exact absurd hget (hplain link)
    | file bytes executable =>
      refine .inr ⟨by simp [takes], hq.makeDirs_refused hget ?_⟩
      rw [isDir, hq.stat hget rfl]
      rfl

private theorem makeDirs_settles : Settles (makeDirs cwd q) t (takes (t.get? (dir ++ [name])) .directory = true)
    fun t' => t' = t.set (dir ++ [name]) .directory := by
  rcases makeDirs_cases hq hwf hplain with ⟨htakes, hrun⟩ | ⟨hnot, e, hrun⟩
  · exact .of_run htakes hrun rfl
  · exact .of_error hnot hrun

omit hwf hplain in
/-- A link is made where nothing is. -/
private theorem makeLink_settles {link : Path} (hlink : checkPath link = .ok ()) :
    Settles (makeLink cwd link q) t (takes (t.get? (dir ++ [name])) (.symlink link) = true)
      fun t' => t' = t.set (dir ++ [name]) (.symlink link) := by
  have hlength := Nat.not_lt.mpr hq.length_le
  cases hget : t.get? (dir ++ [name]) with
  | none =>
    refine .of_run rfl ?_ rfl
    rw [makeLink, run_bind, run_look, hlink]
    dsimp only
    rw [run_bind, run_look, hq.parent]
    dsimp only
    rw [if_neg hlength, run_bind, run_get]
    dsimp only
    rw [hget]
    rfl
  | some entry =>
    have hrun : makeLink cwd link q t = (.error (.os .alreadyExists), t) := by
      rw [makeLink, run_bind, run_look, hlink]
      dsimp only
      rw [run_bind, run_look, hq.parent]
      dsimp only
      rw [if_neg hlength, run_bind, run_get]
      dsimp only
      rw [hget]
      rfl
    exact .of_error (by cases entry <;> simp [takes]) hrun

omit hwf in
/-- A file is copied to a free name, or over a file. -/
private theorem copyFile_settles {bytes : Bytes} {executable : Bool}
    (hstat : t.stat cwd p = .ok (source, .file bytes executable)) (hne : source ≠ dir ++ [name]) :
    Settles (copyFile cwd p q) t (takes (t.get? (dir ++ [name])) (.file bytes executable) = true)
      fun t' => t' = t.set (dir ++ [name]) (.file bytes executable) := by
  have hget : t.get? source = some (.file bytes executable) := resolve_fits (stat_eq_ok_iff.mp hstat)
  have hself (entry : Entry) : (t.set (dir ++ [name]) entry).get? (dir ++ [name]) = some entry :=
    get?_set_self t entry (by simp)
  -- Whether it is made or emptied, the target then has the bytes, and is a program as the source is.
  have hopened (is : Bool) (hrun : truncate cwd executable q t =
      (.ok (dir ++ [name]), t.set (dir ++ [name]) (.file [] is))) :
      copyFile cwd p q t = (.ok (), t.set (dir ++ [name]) (.file bytes executable)) := by
    rw [copyFile, run_bind, run_look, hstat]
    dsimp only
    rw [run_bind, hrun]
    dsimp only
    rw [run_bind, run_modify, hself]
    dsimp only
    rw [set_set, run_bind, run_get]
    dsimp only
    rw [get?_set_of_ne t _ (by simp) hne, hget]
    dsimp only
    rw [fill_eq (hself _), set_set]
  cases hthere : t.get? (dir ++ [name]) with
  | none => exact .of_run rfl (hopened executable (hq.truncate_absent hthere executable)) rfl
  | some found =>
    cases found with
    | file old was => exact .of_run rfl (hopened was (hq.truncate_over (hq.stat hthere rfl) executable)) rfl
    | directory =>
      have hrun : copyFile cwd p q t = (.error (.os .isDirectory), t) := by
        rw [copyFile, run_bind, run_look, hstat]
        dsimp only
        rw [run_bind, truncate, run_bind, run_look, hq.parent]
        dsimp only
        rw [run_bind, run_look, stat_eq_ok_iff.mp (hq.stat hthere rfl)]
        rfl
      exact .of_error (by simp [takes]) hrun
    | symlink link => exact absurd hthere (hplain link)

/-- An entry is copied if and only if it fits what is in its place. -/
private theorem copyEntry_settles (hp : t.StandsFor cwd p above last) (hget : t.get? (above ++ [last]) = some entry)
    (hne : above ++ [last] ≠ dir ++ [name]) :
    Settles (copyEntry cwd entry p q) t (takes (t.get? (dir ++ [name])) entry = true)
      fun t' => t' = t.set (dir ++ [name]) entry := by
  rw [copyEntry.eq_def]
  cases entry with
  | symlink link =>
    have hread : t.readLink cwd p = .ok link := by
      rw [readLink, hp.lstat hget]
      rfl
    exact .look (by rw [hread]; rfl) ((makeLink_settles hq (hwf.link hget)).describe _)
  | directory => exact (makeDirs_settles hq hwf hplain).describe _
  | file bytes executable => exact (copyFile_settles hq hplain (hp.stat hget rfl) hne).describe _

omit hq hplain in
/-- An entry that fits keeps directories and links where they are. -/
theorem keeps_of_takes (hplain : ∀ link, t.get? (dir ++ [name]) ≠ some (.symlink link))
    (htakes : takes (t.get? (dir ++ [name])) entry = true) : t.Keeps (t.set (dir ++ [name]) entry) := by
  by_cases hthere : t.get? (dir ++ [name]) = some .directory
  · rw [hthere] at htakes
    rw [takes_directory htakes, hwf.set_eq_self (by simp) hthere]
    exact ⟨id, id⟩
  · exact keeps_set (by simp) hthere hplain entry

omit hplain in
/-- An entry that fits may be put in its place. -/
theorem wellFormed_of_takes (htakes : takes (t.get? (dir ++ [name])) entry = true)
    (hlink : ∀ link, entry = .symlink link → checkPath link = .ok ()) : (t.set (dir ++ [name]) entry).WellFormed := by
  by_cases hthere : t.get? (dir ++ [name]) = some .directory
  · rw [hthere] at htakes
    rwa [takes_directory htakes, hwf.set_eq_self (by simp) hthere]
  · exact hwf.set hq.directory hq.isEntryName hthere hlink

end Entries

/-- Below an entry the content fits as it does when a directory has been made, if the entry is one. -/
private theorem fits_iff (hwf : t.WellFormed) (hholds : t.Contains source content) (hentry : content [] = some entry) :
    takes (old []) entry = true ∧ (entry = .directory → content.FitsOver old.rooted) ↔ content.FitsOver old := by
  constructor
  · rintro ⟨htakes, hbelow⟩ rest found hfound
    cases rest with
    | nil =>
      rw [hentry] at hfound
      cases hfound
      exact htakes
    | cons name rest =>
      have hdir : t.get? source = some .directory :=
        hwf.directory_above (List.cons_ne_nil _ _) ((hholds _).trans hfound)
      rw [hholds.get?, hentry] at hdir
      exact hbelow (Option.some.inj hdir) (name :: rest) found hfound
  · intro hfits
    refine ⟨hfits [] entry hentry, ?_⟩
    rintro rfl rest found hfound
    cases rest with
    | nil =>
      rw [hentry] at hfound
      cases hfound
      rfl
    | cons name rest => exact hfits (name :: rest) found hfound

/-- An entry is copied, and if it is a directory what lies below it follows. -/
private theorem copyChild_settles {below : TreeM Failure Unit} (hseparate : Separate (above ++ [last]) (dir ++ [name]))
    (hwf : t.WellFormed) (hp : t.StandsFor cwd p above last) (hq : t.StandsFor cwd q dir name)
    (hholds : t.Contains (above ++ [last]) content) (hentry : content [] = some entry)
    (hold : t.Contains (dir ++ [name]) old) (hplain : old.NoLinks)
    (hbelow : entry = .directory → ∀ t' : FileTree, t'.WellFormed → t'.Contains (above ++ [last]) content →
      t'.Leads cwd p (above ++ [last]) → t'.Leads cwd q (dir ++ [name]) →
      t'.Contains (dir ++ [name]) old.rooted →
        Settles below t' (content.FitsOver old.rooted)
          (Arrives (content.overlay old.rooted) (dir ++ [name]) t')) :
    Settles (do copyEntry cwd entry p q; if entry.isDirectory then below) t (content.FitsOver old)
      (Arrives (content.overlay old) (dir ++ [name]) t) := by
  have hne : dir ++ [name] ≠ [] := by simp
  have hapart : above ++ [last] ≠ dir ++ [name] := fun heq => hseparate.1 (heq ▸ List.prefix_rfl)
  have hget : t.get? (above ++ [last]) = some entry := hholds.get?.trans hentry
  have hlinks : ∀ link, t.get? (dir ++ [name]) ≠ some (.symlink link) := fun link => hold.get? ▸ hplain [] link
  have hsame {location : Location} (hout : ¬ dir ++ [name] <+: location) :
      (t.set (dir ++ [name]) entry).get? location = t.get? location :=
    get?_set_of_ne t entry hne fun heq => hout (heq ▸ List.prefix_rfl)
  have hput : (t.set (dir ++ [name]) entry).get? (dir ++ [name]) = some entry := get?_set_self t entry hne
  have hunder {next : Bytes} {rest : Location} :
      (t.set (dir ++ [name]) entry).get? (dir ++ [name] ++ next :: rest) = old (next :: rest) := by
    rw [get?_set_of_ne t entry hne (by simp), hold]
  refine ((copyEntry_settles hq hwf hlinks hp hget hapart).bind (d := entry = .directory →
    content.FitsOver old.rooted) (Q := Arrives (content.overlay old) (dir ++ [name]) t) ?_).mono
      (by rw [hold.get?]; exact fits_iff hwf hholds hentry) fun _ _ h => h
  rintro htakes _ rfl
  have hkeeps := keeps_of_takes hwf hlinks htakes
  have hwf' := wellFormed_of_takes hq hwf htakes fun link heq => hwf.link (heq ▸ hget)
  have hsource : (t.set (dir ++ [name]) entry).Contains (above ++ [last]) content :=
    hholds.of_eq fun rest => hsame (hseparate.symm.append rest).1
  by_cases hisDir : entry = .directory
  · subst hisDir
    have hmade : (t.set (dir ++ [name]) .directory).Contains (dir ++ [name]) old.rooted := by
      intro rest
      cases rest with
      | nil => simp [rooted, overlay, Content.directory]
      | cons => exact hunder
    refine (hbelow rfl _ hwf' hsource ((hp.keeps hkeeps).leads (hsource.get?.trans hentry))
      ((hq.keeps hkeeps).leads hput) hmade).mono (by simp) fun _ t' harrives => ?_
    rw [overlay_rooted hentry] at harrives
    exact ⟨harrives.wellFormed, harrives.holds, fun location hout => (harrives.same location hout).trans (hsame hout)⟩
  · have hnot : ¬ entry.isDirectory = true := by
      cases entry with
      | directory => exact absurd rfl hisDir
      | _ => simp [Entry.isDirectory]
    rw [if_neg hnot]
    refine .of_run (fun heq => absurd heq hisDir) rfl ⟨hwf', fun rest => ?_, fun location => hsame⟩
    cases rest with
    | nil => simp [overlay, hentry]
    | cons next rest =>
      have hleaf : content (next :: rest) = .none :=
        (hholds _).symm.trans (hwf.none_below (by simp [hget, hisDir]) (List.cons_ne_nil _ _))
      rw [hunder, overlay, hleaf]
      rfl

/-- What copying entries of a directory one by one leaves: they are there, and all else is as it was. -/
private structure AllArrive (names : List Bytes) (content : Content) (target : Location) (t t' : FileTree) : Prop where
  wellFormed : t'.WellFormed
  holds : ∀ name ∈ names, t'.Contains (target ++ [name]) (content.child name)
  same : ∀ location, (∀ name ∈ names, ¬ target ++ [name] <+: location) → t'.get? location = t.get? location

private theorem AllArrive.cons {names : List Bytes} (h : Arrives (content.child name) (target ++ [name]) t t')
    (hrest : AllArrive names content target t' t'') (hfresh : name ∉ names) :
    AllArrive (name :: names) content target t t'' where
  wellFormed := hrest.wellFormed
  holds := by
    intro other hmem
    rcases List.mem_cons.mp hmem with rfl | hmem
    · refine h.holds.of_eq fun rest => hrest.same _ fun later hlater => ?_
      have hne : later ≠ other := fun heq => hfresh (heq ▸ hlater)
      exact ((Separate.of_ne hne).append rest).1
    · exact hrest.holds other hmem
  same := by
    intro location hout
    rw [hrest.same location fun other hmem => hout other (List.mem_cons_of_mem _ hmem),
      h.same location (hout name List.mem_cons_self)]

/-- Entries that are copied one by one into a directory, each to a name of its own, all fit and arrive, or it fails. -/
private theorem forM_settles {act : Bytes × Entry → TreeM Failure Unit} {entries : List (Bytes × Entry)}
    (hseparate : Separate source target) (hplain : old.NoLinks)
    (hact : ∀ item ∈ entries, ∀ t' : FileTree, t'.WellFormed → t'.Contains source content → t'.Leads cwd p source →
      t'.Leads cwd q target → t'.Contains (target ++ [item.1]) (old.child item.1) →
        Settles (act item) t' ((content.child item.1).FitsOver (old.child item.1))
          (Arrives ((content.overlay old).child item.1) (target ++ [item.1]) t'))
    (hnodup : (entries.map Prod.fst).Nodup) (hwf : t.WellFormed) (hholds : t.Contains source content)
    (hp : t.Leads cwd p source) (hq : t.Leads cwd q target)
    (hold : ∀ name ∈ entries.map Prod.fst, t.Contains (target ++ [name]) (old.child name)) :
    Settles (entries.forM act) t (∀ name ∈ entries.map Prod.fst, (content.child name).FitsOver (old.child name))
      (AllArrive (entries.map Prod.fst) (content.overlay old) target t) := by
  induction entries generalizing t with
  | nil => exact .of_run (by simp) rfl ⟨hwf, by simp, fun _ _ => rfl⟩
  | cons item entries ih =>
    rw [List.map_cons, List.nodup_cons] at hnodup
    rw [List.map_cons, List.forall_mem_cons] at hold
    rw [List.map_cons, List.forall_mem_cons]
    refine (hact item List.mem_cons_self t hwf hholds hp hq hold.1).bind fun hfits after harrives => ?_
    have hkeeps := harrives.keeps hold.1 hfits (hplain.child item.1)
    refine (ih (fun other hmem => hact other (List.mem_cons_of_mem _ hmem)) hnodup.2 harrives.wellFormed
      (hholds.of_eq fun rest => harrives.same _ fun hpre => ?_) (hp.keeps hkeeps) (hq.keeps hkeeps)
      fun name hmem => (hold.2 name hmem).of_eq fun rest => harrives.same _ ?_).mono Iff.rfl
        fun _ _ hrest => AllArrive.cons harrives hrest hnodup.1
    · exact (hseparate.symm.append rest).1 ((List.prefix_append _ _).trans hpre)
    · have hne : item.1 ≠ name := fun heq => hnodup.1 (heq ▸ hmem)
      exact ((Separate.of_ne hne).append rest).1

/-- The entries of a directory that a path leads to are listed, each once. -/
theorem Leads.listEntries (h : t.Leads cwd p dir) (hwf : t.WellFormed) (hcheck : checkPath p = .ok ()) :
    ∃ entries, t.listEntries cwd p = .ok entries ∧ (entries.map Prod.fst).Nodup ∧
      ∀ {name : Bytes} {entry : Entry}, (name, entry) ∈ entries ↔ t.get? (dir ++ [name]) = some entry := by
  have hstat := h.stat hcheck
  cases hlist : t.listEntries cwd p with
  | error e =>
    rw [FileTree.listEntries, hstat] at hlist
    cases hlist
  | ok entries =>
    obtain ⟨location, hfound, hnodup, hentries⟩ := listEntries_eq_ok hwf hlist
    rw [hstat] at hfound
    cases hfound
    exact ⟨entries, rfl, hnodup, hentries⟩

/-- Where all entries of a directory have arrived, the directory has. -/
private theorem AllArrive.arrives {names : List Bytes} (h : AllArrive names (content.overlay old) target t t')
    (hlisted : ∀ name, name ∈ names ↔ content [name] ≠ .none) (hleaf : ∀ name, content [name] = .none →
      ∀ rest, content (name :: rest) = .none) (hold : t.Contains target old) (hroot : content [] = some .directory)
    (hroot' : old [] = some .directory) : Arrives (content.overlay old) target t t' where
  wellFormed := h.wellFormed
  holds := by
    intro rest
    cases rest with
    | nil =>
      rw [List.append_nil, h.same target fun name _ => entry_not_above target name, hold.get?, hroot', overlay, hroot]
      rfl
    | cons name rest =>
      rw [List.append_cons]
      by_cases hmem : name ∈ names
      · exact h.holds name hmem rest
      · have hnone : content [name] = .none := by simpa using mt (hlisted name).mpr hmem
        rw [h.same, ← List.append_cons, hold, overlay, hleaf name hnone rest]
        · rfl
        · intro other hother hpre
          rw [← List.append_cons, List.prefix_append_right_inj, List.cons_prefix_cons] at hpre
          exact hmem (hpre.1 ▸ hother)
  same := fun location hout => h.same location fun _ _ hpre => hout ((List.prefix_append _ _).trans hpre)

/-- Copying what lies below a directory to another succeeds if and only if all of it fits what is there, and then it is
    laid over that. -/
theorem copyBelow_settles (cwd : WorkingDir) (depth : Nat) (hseparate : Separate source target) (hwf : t.WellFormed)
    (hholds : t.Contains source content) (hold : t.Contains target old) (hplain : old.NoLinks)
    (hp : t.Leads cwd p source) (hq : t.Leads cwd q target) (hspans : p.Spans content) (hspans' : q.Spans content)
    (hdepth : ∀ rest, content rest ≠ .none → rest.length < depth) :
    Settles (copyBelow cwd depth p q) t (content.FitsOver old) (Arrives (content.overlay old) target t) := by
  induction depth generalizing p q source target content old t with
  | zero => exact absurd (hdepth [] (by rw [← hholds.get?, hp.directory]; simp)) (Nat.not_lt_zero _)
  | succ depth ih =>
    have hroot : content [] = some .directory := hholds.get?.symm.trans hp.directory
    have hroot' : old [] = some .directory := hold.get?.symm.trans hq.directory
    obtain ⟨entries, hlist, hnodup, hentries⟩ := hp.listEntries hwf (hspans [] (by simp [hroot]))
    have hmem {name : Bytes} {entry : Entry} : (name, entry) ∈ entries ↔ content [name] = some entry := by
      rw [hentries, hholds]
    have hnames : ∀ name, name ∈ entries.map Prod.fst ↔ content [name] ≠ .none := by
      intro name
      rw [Option.ne_none_iff_exists']
      simp only [List.mem_map, Prod.exists, exists_and_right, exists_eq_right, hmem]
    have hleaf : ∀ name, content [name] = .none → ∀ rest, content (name :: rest) = .none := by
      intro name hnone rest
      rw [← hholds, List.append_cons]
      exact hwf.none_of_prefix (by rw [hholds, hnone]) (List.prefix_append _ _)
    rw [copyBelow]
    refine .look (by rw [hlist]; rfl) ?_
    refine (forM_settles hseparate hplain ?_ hnodup hwf hholds hp hq fun name _ => hold.child name).mono ⟨?_, ?_⟩
      fun _ t' hall => hall.arrives hnames hleaf hold hroot hroot'
    · rintro ⟨name, entry⟩ hitem t₁ hwf₁ hholds₁ hp₁ hq₁ hold₁
      have hthere := hmem.mp hitem
      have hname : Path.IsEntryName name := hwf.name (hentries.mp hitem)
      have hapart : Separate (source ++ [name]) (target ++ [name]) :=
        ((hseparate.append [name]).symm.append [name]).symm
      refine copyChild_settles hapart hwf₁ (hp₁.child hname (hspans [name] (by simp [hthere])))
        (hq₁.child hname (hspans' [name] (by simp [hthere]))) (hholds₁.child name) hthere hold₁ (hplain.child name) ?_
      rintro rfl t₂ hwf₂ hholds₂ hp₂ hq₂ hold₂
      exact ih hapart hwf₂ hholds₂ hold₂ (hplain.child name).rooted hp₂ hq₂ (hspans.child name) (hspans'.child name)
        fun rest hrest => Nat.lt_of_succ_lt_succ (hdepth (name :: rest) hrest)
    · intro hall rest entry hentry
      cases rest with
      | nil =>
        rw [hroot] at hentry
        cases hentry
        rw [hroot']
        rfl
      | cons name rest =>
        refine hall name ((hnames name).mpr fun hnone => ?_) rest entry hentry
        rw [hleaf name hnone rest] at hentry
        cases hentry
    · exact fun hfits name _ rest => hfits (name :: rest)

end FileTree

end DebRelease
