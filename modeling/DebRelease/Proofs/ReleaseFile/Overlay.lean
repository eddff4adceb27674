import Mathlib
import DebRelease.Proofs.ReleaseFile.Schema

namespace DebRelease.ReleaseFile

open Toml (Value Members)

variable {kind : Kind} {v w : Value} {found found' : Option Value} {setting setting' : Option Setting} {s : Section}
  {members members' : Members} {given given' : List (String × Settings)} {file : ReleaseFile} {t : FileTree}
  {cwd : WorkingDir} {path : Path}

/-- A setting is what a value means, if there is one, and what it was before if there is none. -/
inductive Sets {α : Type} (meaning : Value → Option α) (before : α) : Option Value → α → Prop where
  | absent : Sets meaning before none before
  | present {v : Value} {a : α} (h : meaning v = some a) : Sets meaning before (some v) a

/-- The path that a value sets. -/
def path? (v : Value) : Option (Option Path) :=
  v.text?.map fun s => some (Path.ofText s)

/-- The command that a value sets; a list of no words leaves the one that is built in. -/
def command? (v : Value) : Option (Option VersionCommand) :=
  v.texts?.map fun
    | [] => Versioning.default.command
    | program :: args => some ⟨program, args⟩

/-- A document changes the settings of its keys and no others. Each setting depends on its own key alone. -/
structure Overlays (members : Members) (before after : ConfigDraft) : Prop where
  tooling : Sets path? before.tooling (valueIn members pathsSection "npm_tooling_dir") after.tooling
  gui : Sets path? before.gui (valueIn members pathsSection "gui_dir") after.gui
  guiPackage : Sets path? before.guiPackage (valueIn members pathsSection "gui_package_dir") after.guiPackage
  license : Sets path? before.license (valueIn members pathsSection "license") after.license
  name : Sets Value.text? Product.default.name (valueIn members productSection "name") after.product.name
  bundleId : Sets Value.text? Product.default.bundleId (valueIn members productSection "app_bundle_id")
    after.product.bundleId
  icon : Sets Value.text? Product.default.icon (valueIn members productSection "icon") after.product.icon
  executableName : Sets Value.text? Product.default.executableName (valueIn members productSection "executable_name")
    after.product.executableName
  unpackPattern : Sets Value.text? Product.default.unpackPattern (valueIn members productSection "asar_unpack")
    after.product.unpackPattern
  python : Sets Value.text? ToolNames.default.python (valueIn members toolsSection "python") after.tools.python
  pip : Sets Value.text? ToolNames.default.pip (valueIn members toolsSection "pip") after.tools.pip
  npm : Sets Value.text? ToolNames.default.npm (valueIn members toolsSection "npm") after.tools.npm
  lerna : Sets Value.text? ToolNames.default.lerna (valueIn members toolsSection "lerna") after.tools.lerna
  freezer : Sets Value.text? ToolNames.default.freezer (valueIn members toolsSection "pyinstaller") after.tools.freezer
  freezerVersion : Sets Value.text? ToolNames.default.freezerVersion
    (valueIn members toolsSection "pyinstaller_version") after.tools.freezerVersion
  freezerModule : Sets Value.text? ToolNames.default.freezerModule (valueIn members toolsSection "freezer_module")
    after.tools.freezerModule
  packager : Sets Value.text? ToolNames.default.packager (valueIn members toolsSection "electron_packager")
    after.tools.packager
  debBuilder : Sets Value.text? ToolNames.default.debBuilder
    (valueIn members toolsSection "electron_installer_debian") after.tools.debBuilder
  envVar : Sets Value.text? Versioning.default.envVar (valueIn members versionSection "env_var")
    after.versioning.envVar
  command : Sets command? Versioning.default.command (valueIn members versionSection "command")
    after.versioning.command
  requirements : Sets Value.texts? Versioning.default.requirements (valueIn members versionSection "requirements")
    after.versioning.requirements
  platform : after.platform = before.platform
  buildScripts : after.buildScripts = before.buildScripts
  searchPath : after.searchPath = before.searchPath

section Settings

theorem sets_text (h : Option.Rel (fun v setting => Kind.text.setting? v = some setting) found setting)
    (before : String) : Sets Value.text? before found ((setting.bind List.head?).getD before) := by
  cases h with
  | none => exact .absent
  | some hsetting =>
    obtain ⟨s, hs, rfl⟩ := Option.map_eq_some_iff.mp hsetting
    exact .present hs

theorem sets_path (h : Option.Rel (fun v setting => Kind.path.setting? v = some setting) found setting)
    (before : Option Path) : Sets path? before found ((setting.bind List.head?).map Path.ofText <|> before) := by
  cases h with
  | none => exact .absent
  | some hsetting =>
    obtain ⟨s, hs, rfl⟩ := Option.map_eq_some_iff.mp hsetting
    exact .present (Option.map_eq_some_iff.mpr ⟨s, hs, rfl⟩)

theorem sets_texts (h : Option.Rel (fun v setting => Kind.texts.setting? v = some setting) found setting)
    (before : List String) : Sets Value.texts? before found (setting.getD before) := by
  cases h with
  | none => exact .absent
  | some hsetting => exact .present hsetting

theorem sets_command (h : Option.Rel (fun v setting => Kind.texts.setting? v = some setting) found setting) :
    Sets command? Versioning.default.command found
      ((setting.bind VersionCommand.ofWords?) <|> Versioning.default.command) := by
  cases h with
  | none => exact .absent
  | @some v words hwords =>
    refine .present (Option.map_eq_some_iff.mpr ⟨words, hwords, ?_⟩)
    cases words <;> rfl

end Settings

theorem overlays_ofSettings (hmembers : members.Distinct) (h : readSections sections members = .ok given)
    (draft : ConfigDraft) : Overlays members draft ((ofSettings given).apply draft) := by
  have hread {s field kind} (hs : s ∈ sections) (hfield : (field, kind) ∈ s.fields) :=
    lookup_readSections hmembers h hs hfield
  exact {
    tooling := sets_path (hread (by decide) (by decide)) _
    gui := sets_path (hread (by decide) (by decide)) _
    guiPackage := sets_path (hread (by decide) (by decide)) _
    license := sets_path (hread (by decide) (by decide)) _
    name := sets_text (hread (by decide) (by decide)) _
    bundleId := sets_text (hread (by decide) (by decide)) _
    icon := sets_text (hread (by decide) (by decide)) _
    executableName := sets_text (hread (by decide) (by decide)) _
    unpackPattern := sets_text (hread (by decide) (by decide)) _
    python := sets_text (hread (by decide) (by decide)) _
    pip := sets_text (hread (by decide) (by decide)) _
    npm := sets_text (hread (by decide) (by decide)) _
    lerna := sets_text (hread (by decide) (by decide)) _
    freezer := sets_text (hread (by decide) (by decide)) _
    freezerVersion := sets_text (hread (by decide) (by decide)) _
    freezerModule := sets_text (hread (by decide) (by decide)) _
    packager := sets_text (hread (by decide) (by decide)) _
    debBuilder := sets_text (hread (by decide) (by decide)) _
    envVar := sets_text (hread (by decide) (by decide)) _
    command := sets_command (hread (by decide) (by decide))
    requirements := sets_texts (hread (by decide) (by decide)) _
    platform := rfl
    buildScripts := rfl
    searchPath := rfl }

section Order

theorem Kind.Admits.of_alike (hv : kind.Admits v) (h : v.Alike w) : kind.Admits w := by
  rw [← setting?_isSome_iff, ← setting?_eq h]
  exact setting?_isSome_iff.mpr hv

theorem Section.Admits.of_alike (hv : s.Admits v) (h : v.Alike w) : s.Admits w := by
  cases hv with
  | table hfields =>
    cases h with
    | table hnames hvalues =>
      have halike : Members.Alike _ _ := ⟨hnames, hvalues⟩
      refine .table fun n hn => ?_
      obtain ⟨m, hm, hname, hnm⟩ := halike.symm.exists_mem hn
      obtain ⟨kind, hkind, hadmits⟩ := hfields m hm
      rw [hname]
      exact ⟨kind, hkind, hadmits.of_alike hnm.symm⟩
  | array henough hfields =>
    cases h with
    | array hlength hitems =>
      refine .array (hlength ▸ henough) fun field y hmem => ?_
      obtain ⟨i, hi⟩ := List.mem_iff_getElem?.mp hmem
      obtain ⟨hfield, hy⟩ := List.getElem?_zip_eq_some.mp hi
      obtain ⟨hlt, -⟩ := List.getElem?_eq_some_iff.mp hy
      obtain ⟨x, hx⟩ : ∃ x, _ = some x := ⟨_, List.getElem?_eq_getElem (hlength ▸ hlt)⟩
      have hzip : (field, x) ∈ s.fields.zip _ := List.mem_of_getElem? (List.getElem?_zip_eq_some.mpr ⟨hfield, hx⟩)
      exact (hfields field x hzip).of_alike (hitems i x y hx hy)

/-- Documents that say the same are release files or not together. -/
theorem Conforms.of_alike (hmembers : Conforms members) (h : members.Alike members') : Conforms members' := by
  -- what `members'` has is looked up in `members`, of which all is known to be a section
  intro n hn
  obtain ⟨m, hm, hname, halike⟩ := h.symm.exists_mem hn
  obtain ⟨s, hs, hkey, hadmits⟩ := hmembers m hm
  exact ⟨s, hs, hkey.trans hname.symm, hadmits.of_alike halike.symm⟩

theorem Section.lookup_entries_alike (h : v.Alike w) (s : Section) (field : String) :
    Option.Rel Value.Alike ((s.entries v).lookup field) ((s.entries w).lookup field) := by
  cases h with
  | table hnames hvalues =>
    rw [entries, entries, ← Members.get?_eq_lookup, ← Members.get?_eq_lookup]
    exact Members.Alike.get? ⟨hnames, hvalues⟩ field
  | array hlength hitems =>
    have hrelated := forall₂_zip (Value.Alike.forall₂ hlength hitems) (s.fields.map Prod.fst)
    exact lookup_rel (R := fun _ => Value.Alike) hrelated field
  | string | integer | float | boolean | datetime => exact .none

theorem valueIn_alike (h : members.Alike members') (s : Section) (field : String) :
    Option.Rel Value.Alike (valueIn members s field) (valueIn members' s field) := by
  have hsection := h.get? s.key
  rw [valueIn, valueIn]
  generalize members.get? s.key = found at hsection ⊢
  generalize members'.get? s.key = found' at hsection ⊢
  cases hsection with
  | none => exact .none
  | some halike => exact s.lookup_entries_alike halike field

/-- Only what is read for the fields counts. -/
theorem ofSettings_congr (h : ∀ s ∈ sections, ∀ x ∈ s.fields,
      ((given.lookup s.key).getD []).lookup x.1 = ((given'.lookup s.key).getD []).lookup x.1) :
    ofSettings given = ofSettings given' := by
  simp only [sections, pathsSection, productSection, toolsSection, versionSection, List.forall_mem_cons] at h
  simp only [ofSettings, textOf, pathOf, pathsSection, productSection, toolsSection, versionSection, h]

/-- What is read for a field, however its document is ordered. -/
theorem setting_of_alike (halike : Option.Rel Value.Alike found found')
    (h : Option.Rel (fun v setting => kind.setting? v = some setting) found setting)
    (h' : Option.Rel (fun v setting => kind.setting? v = some setting) found' setting') : setting = setting' := by
  cases halike with
  | none =>
    cases h
    cases h'
    rfl
  | some halike =>
    obtain ⟨hsetting⟩ | _ := h
    obtain ⟨hsetting'⟩ | _ := h'
    rw [← hsetting, ← hsetting', Kind.setting?_eq halike]

theorem ofMembers_isOk_iff : (∃ file, ofMembers members = .ok file) ↔ Conforms members := by
  rw [← readSections_isOk_iff]
  simp [ofMembers, map_eq_ok_iff]

/-- Documents that say the same are the same release file. -/
theorem ofMembers_of_alike (hmembers : members.Distinct) (hmembers' : members'.Distinct)
    (h : members.Alike members') (hfile : ofMembers members = .ok file) :
    ofMembers members' = .ok file := by
  have hconforms := (ofMembers_isOk_iff.mp ⟨file, hfile⟩).of_alike h
  obtain ⟨given, hgiven, rfl⟩ := map_eq_ok_iff.mp hfile
  obtain ⟨given', hgiven'⟩ := readSections_isOk_iff.mpr hconforms
  refine map_eq_ok_iff.mpr ⟨given', hgiven', ofSettings_congr fun s hs field hfield => ?_⟩
  have hbefore := lookup_readSections hmembers hgiven hs hfield
  have hafter := lookup_readSections hmembers' hgiven' hs hfield
  exact (setting_of_alike (valueIn_alike h s field.1) hbefore hafter).symm

end Order

/-- The file at a path is a document. -/
def HasDocument (t : FileTree) (cwd : WorkingDir) (path : Path) (members : Members) : Prop :=
  ∃ document, t.read cwd path = .ok document ∧ document.text?.isSome ∧ Toml.parse? document = some members

theorem HasDocument.distinct (h : HasDocument t cwd path members) : members.Distinct := by
  obtain ⟨document, -, -, hparse⟩ := h
  exact Toml.distinct_parse hparse

theorem HasDocument.load_eq (h : HasDocument t cwd path members) :
    ∃ reason : Fault → String,
      load t cwd path = (ofMembers members).mapError fun fault => .configInvalid path (reason fault) := by
  obtain ⟨document, hread, htext, hparse⟩ := h
  refine ⟨fun fault => fault.render document, ?_⟩
  have hnot : document.text?.isNone = false := by
    rw [Option.isNone_eq_false_iff]
    exact htext
  have hrefusal : parse document = (ofMembers members).mapError .schema := by
    rw [parse, hparse]
  rw [load, hread]
  simp only [Except.mapError, bind, Except.bind, hnot, hrefusal]
  cases ofMembers members <;> rfl

theorem HasDocument.load_eq_ok_iff (h : HasDocument t cwd path members) :
    load t cwd path = .ok file ↔ ofMembers members = .ok file := by
  obtain ⟨reason, hload⟩ := h.load_eq
  rw [hload, mapError_eq_ok_iff]

/-- Of a file that is a document, a release file is read just if its keys are sections of a release file, and an error
    about the file otherwise. What is read changes the settings of the keys in the document and no others, and does not
    depend on the order in which the document has them. -/
theorem load_overlays (h : HasDocument t cwd path members) :
    ((∃ file, load t cwd path = .ok file) ↔ Conforms members) ∧
    (¬ Conforms members → ∃ reason, load t cwd path = .error (.configInvalid path reason) ∧
      (ReleaseError.configInvalid path reason).exitCode = 1) ∧
    (∀ file, load t cwd path = .ok file → ∀ draft, Overlays members draft (file.apply draft)) ∧
    ∀ t' cwd' path' members', HasDocument t' cwd' path' members' → members.Alike members' →
      ∀ file, load t cwd path = .ok file ↔ load t' cwd' path' = .ok file := by
  refine ⟨?_, ?_, ?_, ?_⟩
  · simp only [h.load_eq_ok_iff, ofMembers_isOk_iff]
  · intro hnot
    obtain ⟨reason, hload⟩ := h.load_eq
    cases hmembers : ofMembers members with
    | ok file => exact absurd (ofMembers_isOk_iff.mp ⟨file, hmembers⟩) hnot
    | error fault =>
      rw [hmembers] at hload
      exact ⟨reason fault, hload, rfl⟩
  · intro file hload draft
    obtain ⟨given, hgiven, rfl⟩ := map_eq_ok_iff.mp (h.load_eq_ok_iff.mp hload)
    exact overlays_ofSettings h.distinct hgiven draft
  · intro t' cwd' path' members' h' halike file
    rw [h.load_eq_ok_iff, h'.load_eq_ok_iff]
    constructor
    · exact ofMembers_of_alike h.distinct h'.distinct halike
    · exact ofMembers_of_alike h'.distinct h.distinct halike.symm

/-- A tree of one file `/r`. -/
def holding (content : String) : FileTree :=
  ⟨[([Bytes.ofText "r"], .file (Bytes.ofText content) false)]⟩

/-- A document on the version and the license, and what it says. -/
def versionFirst : String × Members :=
  ("version.command = []\npaths.license = \"b\"\n",
    [(⟨"version", ⟨0, 7⟩⟩, .table ⟨0, 7⟩ .dotted [(⟨"command", ⟨8, 15⟩⟩, .array ⟨18, 20⟩ false [])]),
      (⟨"paths", ⟨21, 26⟩⟩, .table ⟨21, 26⟩ .dotted [(⟨"license", ⟨27, 34⟩⟩, .string ⟨37, 40⟩ "b")])])

/-- The same document, the license first and in a section of its own. -/
def licenseFirst : String × Members :=
  ("[paths]\nlicense = \"b\"\n[version]\ncommand = []\n",
    [(⟨"paths", ⟨1, 6⟩⟩, .table ⟨0, 7⟩ .header [(⟨"license", ⟨8, 15⟩⟩, .string ⟨18, 21⟩ "b")]),
      (⟨"version", ⟨23, 30⟩⟩, .table ⟨22, 31⟩ .header [(⟨"command", ⟨32, 39⟩⟩, .array ⟨42, 44⟩ false [])])])

private theorem hasDocument_versionFirst : HasDocument (holding versionFirst.1) none "/r" versionFirst.2 :=
  ⟨Bytes.ofText versionFirst.1, by decide +kernel, by decide +kernel, by cbv⟩

private theorem hasDocument_licenseFirst : HasDocument (holding licenseFirst.1) none "/r" licenseFirst.2 :=
  ⟨Bytes.ofText licenseFirst.1, by decide +kernel, by decide +kernel, by cbv⟩

private theorem conforms_versionFirst : Conforms versionFirst.2 := by
  simp only [Conforms, versionFirst, List.forall_mem_cons]
  refine ⟨⟨versionSection, by decide, rfl, .table ?_⟩, ⟨pathsSection, by decide, rfl, .table ?_⟩, by simp⟩
  · exact List.forall_mem_singleton.mpr ⟨.texts, by decide, _, _, [], rfl, by simp⟩
  · exact List.forall_mem_singleton.mpr ⟨.path, by decide, _, "b", rfl⟩

private theorem versionFirst_alike : versionFirst.2.Alike licenseFirst.2 where
  names := by decide
  values := by
    simp only [versionFirst, licenseFirst, List.forall_mem_cons, List.not_mem_nil, IsEmpty.forall_iff,
      String.reduceEq, forall_const, true_and, implies_true, and_true]
    refine ⟨.table (by decide) ?_, .table (by decide) ?_⟩
    · simpa using .array rfl (by simp)
    · simpa using .string

theorem load_overlays_reordered : ∃ file, load (holding versionFirst.1) none "/r" = .ok file ∧
    load (holding licenseFirst.1) none "/r" = .ok file ∧ Overlays versionFirst.2 .empty (file.apply .empty) := by
  obtain ⟨haccepted, -, hoverlays, horder⟩ := load_overlays hasDocument_versionFirst
  obtain ⟨file, hfile⟩ := haccepted.mpr conforms_versionFirst
  have hreordered := (horder _ _ _ _ hasDocument_licenseFirst versionFirst_alike file).mp hfile
  exact ⟨file, hfile, hreordered, hoverlays file hfile .empty⟩

end DebRelease.ReleaseFile
