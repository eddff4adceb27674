import DebRelease.Proofs.Config.Places
import DebRelease.Proofs.FileTree.Copying
import DebRelease.Proofs.Run.Calls
import Mathlib.Logic.Function.Basic

namespace DebRelease

open FileTree

/-- The call runs a program somewhere with a certain first argument. -/
def Call.Runs (call : Call) (program : String) (cwd : Path) (first : String) : Prop :=
  call.mode = .run ∧ call.command.program = program ∧ call.command.cwd = cwd ∧
    call.command.args.head? = some (Bytes.ofText first)

instance (call : Call) (program : String) (cwd : Path) (first : String) : Decidable (call.Runs program cwd first) := by
  unfold Call.Runs; infer_instance

theorem Call.of_request {call : Call} {mode : CallMode} {command : ToolCommand} (h : call.request = ⟨mode, command⟩) :
    call.mode = mode ∧ call.command = command := by
  cases h
  exact ⟨rfl, rfl⟩

namespace Config

variable {c : Config} {D P F : FileTree} {call : Call} {site other : Site} {contents : Site → Content}
    {t t' : FileTree} {place : Location} {command : ToolCommand}

/-- The calls that are to fill a place: the freezer makes the daemon `D`, the packager the application `P`,
    and the builder the installer `F`. -/
inductive Fills (c : Config) (D P F : FileTree) (call : Call) : Location → FileTree → Prop where
  /-- The freezer leaves the daemon among the build results. -/
  | freezer (h : call.Runs c.tools.freezer c.layout.buildScripts "--log-level=INFO") :
      Fills c D P F call (c.placeOf .dist ++ [Layout.daemonName]) D
  | packager (h : call.Runs c.tools.packager c.layout.guiPackage ".") :
      Fills c D P F call (c.placeOf .packagedApp) P
  | builder (h : call.Runs c.tools.debBuilder c.layout.buildScripts "--src") :
      Fills c D P F call (c.placeOf .finalInstaller) F

/-- The first arguments of the calls that are to fill a place. -/
def fillingArgs : List Bytes :=
  [Bytes.ofText "--log-level=INFO", Bytes.ofText ".", Bytes.ofText "--src"]

/-- A call that comes to what is expected of it. -/
structure KeepsContract (c : Config) (D P F : FileTree) (call : Call) : Prop where
  succeeded : call.succeeded = true
  wellFormed : call.after.WellFormed
  spec : call.mode = .capture → call.command = Plan.locateSpec c → call.spec ≠ ""
  fills : ∀ place tree, c.Fills D P F call place tree → call.after.Contains place tree.get?
  untouched : ∀ site rest, (∀ place tree, c.Fills D P F call place tree → ¬ place <+: c.placeOf site ++ rest) →
    call.after.get? (c.placeOf site ++ rest) = call.tree.get? (c.placeOf site ++ rest)
  above : ∀ site above, above <+: c.placeOf site →
    call.after.get? above = call.tree.get? above ∨ call.after.get? above = some .directory

/-- A tree in which every site has a content. -/
def Shows (c : Config) (contents : Site → Content) (t : FileTree) : Prop :=
  t.WellFormed ∧ ∀ site, t.Contains (c.placeOf site) (contents site)

namespace Fills

variable {tree : FileTree}

theorem head?_args (h : c.Fills D P F call place tree) :
    call.mode = .run ∧ ∃ first ∈ fillingArgs, call.command.args.head? = some first := by
  cases h with
  | freezer h => exact ⟨h.1, _, by simp [fillingArgs], h.2.2.2⟩
  | packager h => exact ⟨h.1, _, by simp [fillingArgs], h.2.2.2⟩
  | builder h => exact ⟨h.1, _, by simp [fillingArgs], h.2.2.2⟩

theorem of_freezer (h : c.Fills D P F call place tree)
    (hfirst : call.command.args.head? = some (Bytes.ofText "--log-level=INFO")) :
    place = c.placeOf .dist ++ [Layout.daemonName] := by
  cases h with
  | freezer => rfl
  | packager h => exact absurd (hfirst.symm.trans h.2.2.2) (by decide +kernel)
  | builder h => exact absurd (hfirst.symm.trans h.2.2.2) (by decide +kernel)

theorem of_packager (h : c.Fills D P F call place tree)
    (hfirst : call.command.args.head? = some (Bytes.ofText ".")) : place = c.placeOf .packagedApp := by
  cases h with
  | packager => rfl
  | freezer h => exact absurd (hfirst.symm.trans h.2.2.2) (by decide +kernel)
  | builder h => exact absurd (hfirst.symm.trans h.2.2.2) (by decide +kernel)

theorem of_builder (h : c.Fills D P F call place tree)
    (hfirst : call.command.args.head? = some (Bytes.ofText "--src")) : place = c.placeOf .finalInstaller := by
  cases h with
  | builder => rfl
  | freezer h => exact absurd (hfirst.symm.trans h.2.2.2) (by decide +kernel)
  | packager h => exact absurd (hfirst.symm.trans h.2.2.2) (by decide +kernel)

end Fills

/-- Calls that capture output fill nothing, and calls with another first argument neither. -/
theorem not_fills {mode : CallMode} (hrequest : call.request = ⟨mode, command⟩)
    (h : mode = .capture ∨ ∀ first ∈ command.args.head?, first ∉ fillingArgs)
    (place : Location) (tree : FileTree) : ¬ c.Fills D P F call place tree := by
  intro hfills
  obtain ⟨hmode, first, hfilling, hfirst⟩ := hfills.head?_args
  cases hrequest
  rcases h with hcapture | hother
  · rw [hmode] at hcapture
    cases hcapture
  · exact hother first hfirst hfilling

/-- In the version step nothing is filled. -/
theorem not_fills_version {value : Option String} (hrequest : call.request ∈ c.versionRequests value)
    (place : Location) (tree : FileTree) : ¬ c.Fills D P F call place tree := by
  rw [versionRequests] at hrequest
  split at hrequest
  · rename_i command _ _
    rcases List.mem_append.mp hrequest with hinstall | hcapture
    · split at hinstall
      · cases hinstall
      · refine not_fills (List.mem_singleton.mp hinstall) (.inr ?_) place tree
        rintro _ ⟨⟩
        decide +kernel
    · exact not_fills (List.mem_singleton.mp hcapture) (.inl rfl) place tree
  · cases hrequest

/-- Changes at one site that leave the others alone. -/
theorem Shows.change {content : Content} (h : c.Shows contents t) (hwf : t'.WellFormed)
    (hnew : t'.Contains (c.placeOf site) content)
    (hkeep : ∀ other ≠ site,
      t.Contains (c.placeOf other) (contents other) → t'.Contains (c.placeOf other) (contents other)) :
    c.Shows (Function.update contents site content) t' := by
  refine ⟨hwf, fun other => ?_⟩
  by_cases heq : other = site
  · subst heq
    rw [Function.update_self]
    exact hnew
  · rw [Function.update_of_ne heq]
    exact hkeep other heq (h.2 other)

theorem Shows.set (h : c.Shows contents t) (entry : Entry) (hne : c.placeOf site ≠ [])
    (hwf : (t.set (c.placeOf site) entry).WellFormed) (hnot : entry ≠ .directory)
    (hseparate : ∀ other ≠ site, Separate (c.placeOf site) (c.placeOf other)) :
    c.Shows (Function.update contents site (.only entry)) (t.set (c.placeOf site) entry) := by
  refine h.change hwf (.of_entry hwf (get?_set_self t entry hne) hnot) fun other hother hholds => ?_
  refine hholds.of_eq fun rest => get?_set_of_ne t entry hne fun heq => ?_
  exact ((hseparate other hother).append rest).1 (heq ▸ List.prefix_rfl)

theorem Shows.erase (h : c.Shows contents t) (site : Site) (hne : c.placeOf site ≠ [])
    (hwf : (t.erase (c.placeOf site)).WellFormed)
    (hseparate : ∀ other ≠ site, Separate (c.placeOf site) (c.placeOf other)) :
    c.Shows (Function.update contents site .none) (t.erase (c.placeOf site)) := by
  refine h.change hwf (.of_none hwf (by rw [get?_erase t hne, if_pos rfl])) fun other hother hholds => ?_
  refine hholds.of_eq fun rest => ?_
  rw [get?_erase t hne, if_neg]
  exact fun heq => ((hseparate other hother).append rest).1 (heq ▸ List.prefix_rfl)

namespace KeepsContract

/-- A tool that is to fill nothing leaves every site as it is. -/
theorem shows (h : c.KeepsContract D P F call) (hnone : ∀ place tree, ¬ c.Fills D P F call place tree)
    (hshows : c.Shows contents call.tree) : c.Shows contents call.after :=
  ⟨h.wellFormed, fun site => (hshows.2 site).of_eq fun rest => h.untouched site rest fun place tree hfills =>
    (hnone place tree hfills).elim⟩

/-- A tool that fills a place at or below one site leaves the others as they are. -/
theorem shows_filled {content : Content} (h : c.KeepsContract D P F call) (hsite : c.placeOf site <+: place)
    (hone : ∀ other tree, c.Fills D P F call other tree → other = place)
    (hseparate : ∀ other ≠ site, Separate (c.placeOf site) (c.placeOf other))
    (hnew : call.after.Contains (c.placeOf site) content) (hshows : c.Shows contents call.tree) :
    c.Shows (Function.update contents site content) call.after := by
  refine hshows.change h.wellFormed hnew fun other hne hholds => ?_
  refine hholds.of_eq fun rest => h.untouched other rest fun filled tree hfills hpre => ?_
  rw [hone filled tree hfills] at hpre
  exact ((hseparate other hne).append rest).1 (hsite.trans hpre)

/-- Sites that were open stay so. -/
theorem isOpen (h : c.KeepsContract D P F call) (hopen : call.tree.IsOpen (c.placeOf site)) :
    call.after.IsOpen (c.placeOf site) := by
  intro above hpre
  rcases h.above site above hpre with hsame | hmade
  · rw [hsame]
    exact hopen above hpre
  · exact .inr hmade

end KeepsContract

/-- The places that a call is to fill, and with what. -/
def fillings (c : Config) (D P F : FileTree) (call : Call) : List (Location × FileTree) :=
  (if call.Runs c.tools.freezer c.layout.buildScripts "--log-level=INFO" then
    [(c.placeOf .dist ++ [Layout.daemonName], D)] else []) ++
  (if call.Runs c.tools.packager c.layout.guiPackage "." then [(c.placeOf .packagedApp, P)] else []) ++
  if call.Runs c.tools.debBuilder c.layout.buildScripts "--src" then [(c.placeOf .finalInstaller, F)] else []

theorem fills_iff {tree : FileTree} : c.Fills D P F call place tree ↔ (place, tree) ∈ c.fillings D P F call := by
  simp only [fillings, List.mem_append, List.mem_ite_nil_right, List.mem_singleton, Prod.mk.injEq]
  constructor
  · rintro (h | h | h) <;> simp [h]
  · rintro ((⟨h, rfl, rfl⟩ | ⟨h, rfl, rfl⟩) | ⟨h, rfl, rfl⟩)
    · exact .freezer h
    · exact .packager h
    · exact .builder h

/-- Whether a call keeps the contract shows at the entries of the trees before and after it. -/
theorem keepsContract_iff : c.KeepsContract D P F call ↔
    call.succeeded = true ∧ call.after.WellFormed ∧
      (call.mode = .capture → call.command = Plan.locateSpec c → call.spec ≠ "") ∧
      (∀ item ∈ c.fillings D P F call, call.after.Contains item.1 item.2.get?) ∧
      (∀ location ∈ call.tree.places ++ call.after.places,
        (∃ site ∈ Site.all, c.placeOf site <+: location) →
          (∀ item ∈ c.fillings D P F call, ¬ item.1 <+: location) → call.after.get? location = call.tree.get? location) ∧
      ∀ site ∈ Site.all, ∀ above ∈ (c.placeOf site).inits,
        call.after.get? above = call.tree.get? above ∨ call.after.get? above = some .directory := by
  constructor
  · intro h
    refine ⟨h.succeeded, h.wellFormed, h.spec, fun item hmem => h.fills _ _ (fills_iff.mpr hmem), ?_, ?_⟩
    · rintro location - ⟨site, -, rest, rfl⟩ hout
      exact h.untouched site rest fun place tree hfills => hout (place, tree) (fills_iff.mp hfills)
    · exact fun site _ above hmem => h.above site above ((List.mem_inits _ _).mp hmem)
  · rintro ⟨hsucceeded, hwf, hspec, hfills, huntouched, habove⟩
    refine ⟨hsucceeded, hwf, hspec, fun place tree h => hfills (place, tree) (fills_iff.mp h), ?_, ?_⟩
    · intro site rest hout
      have hsame (hmem : c.placeOf site ++ rest ∈ call.tree.places ++ call.after.places) :=
        huntouched _ hmem ⟨site, site.mem_all, List.prefix_append _ _⟩ fun item hitem =>
          hout item.1 item.2 (fills_iff.mpr hitem)
      by_cases hthere : c.placeOf site ++ rest ∈ call.tree.places ++ call.after.places
      · exact hsame hthere
      · rw [List.mem_append, not_or] at hthere
        rw [get?_of_not_mem_places hthere.1, get?_of_not_mem_places hthere.2]
    · exact fun site above hpre => habove site site.mem_all above ((List.mem_inits _ _).mpr hpre)

instance (c : Config) (D P F : FileTree) (call : Call) : Decidable (c.KeepsContract D P F call) :=
  decidable_of_iff' _ keepsContract_iff

end Config

end DebRelease
