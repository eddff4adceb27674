import DebRelease.Proofs.Outcome
import DebRelease.Proofs.Toml.Content
import DebRelease.ReleaseFile.Basic

namespace DebRelease.ReleaseFile

open Toml (Value Members)

variable {kind : Kind} {v w : Value} {setting : Setting} {s : Section} {settings : Settings} {field name : String}
  {members members' : Members} {given : List (String × Settings)}

/-- A value is of a kind: it is a text, or a list of texts. -/
def Kind.Admits : Kind → Value → Prop
  | .text, v | .path, v => ∃ span s, v = .string span s
  | .texts, v => ∃ span ofTables items, v = .array span ofTables items ∧ ∀ item ∈ items, ∃ span s, item = .string span s

/-- A section is a table of some of its fields or an array that begins with all of them in order. -/
inductive Section.Admits (s : Section) : Value → Prop where
  | table {span : Toml.Span} {how : Toml.TableKind} {members : Members}
      (fields : ∀ m ∈ members, ∃ kind, (m.1.name, kind) ∈ s.fields ∧ kind.Admits m.2) :
      s.Admits (.table span how members)
  | array {span : Toml.Span} {ofTables : Bool} {items : List Value} (enough : s.fields.length ≤ items.length)
      (fields : ∀ field item, (field, item) ∈ s.fields.zip items → field.2.Admits item) :
      s.Admits (.array span ofTables items)

/-- A document is a release file: each key names a section, and its value is one. -/
def Conforms (members : Members) : Prop :=
  ∀ m ∈ members, ∃ s ∈ sections, s.key = m.1.name ∧ s.Admits m.2

/-- What a value sets a field of a kind to. -/
def Kind.setting? : Kind → Value → Option Setting
  | .texts, v => v.texts?
  | .text, v | .path, v => v.text?.map ([·])

/-- The fields that a section gives, each with its value. -/
def Section.entries (s : Section) : Value → List (String × Value)
  | .table _ _ members => Members.entries members
  | .array _ _ items => (s.fields.map Prod.fst).zip items
  | _ => []

/-- The value that a document has for a field of a section. -/
def valueIn (members : Members) (s : Section) (field : String) : Option Value :=
  (members.get? s.key).bind fun v => (s.entries v).lookup field

/-- The fields of a section have distinct names. -/
theorem fields_nodup : ∀ s ∈ sections, (s.fields.map Prod.fst).Nodup := by
  decide

/-- A section is found by its key. -/
theorem section_of_key : sections.find? (·.key == name) = some s ↔ s ∈ sections ∧ s.key = name := by
  constructor
  · intro h
    exact ⟨List.mem_of_find?_eq_some h, by simpa using List.find?_some h⟩
  · rintro ⟨hs, rfl⟩
    revert s
    decide

theorem mem_sorted {m : Toml.Key × Value} : m ∈ sorted members ↔ m ∈ members :=
  (List.mergeSort_perm members _).mem_iff

theorem entries_sorted (members : Members) : (sorted members).entries.Perm members.entries :=
  (List.mergeSort_perm members _).map _

/-- What is read member by member, each under its name. -/
theorem forall₂_sorted {β : Type} {read : Toml.Key × Value → Except Fault (String × β)} {R : String → Value → β → Prop}
    {ys : List (String × β)} (hread : ∀ key v y, read (key, v) = .ok y → key.name = y.1 ∧ R key.name v y.2)
    (h : (sorted members).mapM read = .ok ys) :
    List.Forall₂ (fun x y => x.1 = y.1 ∧ R x.1 x.2 y.2) (sorted members).entries ys := by
  rw [Members.entries, List.forall₂_map_left_iff]
  apply (mapM_eq_ok_iff.mp h).imp
  intro m y hm
  exact hread m.1 m.2 y hm

section Kinds

theorem readText_eq_ok_iff {expected text : String} : readText expected v = .ok text ↔ v.text? = some text := by
  cases v <;> simp [readText, Value.text?]

theorem readText_isOk_iff {expected : String} :
    (∃ text, readText expected v = .ok text) ↔ ∃ span s, v = .string span s := by
  cases v <;> simp [readText]

theorem mapM_readText_eq_ok_iff {expected : String} {items : List Value} {texts : List String} :
    items.mapM (readText expected) = .ok texts ↔ items.mapM Value.text? = some texts := by
  induction items generalizing texts with
  | nil => simp [pure, Except.pure]
  | cons item items ih =>
    rw [List.mapM_cons, List.mapM_cons, bind_eq_ok_iff]
    simp [bind_eq_ok_iff, Option.bind_eq_some_iff, readText_eq_ok_iff, ih, pure, Except.pure]

theorem Kind.read_eq_ok_iff : kind.read v = .ok setting ↔ kind.setting? v = some setting := by
  cases kind with
  | text | path => simp [Kind.read, Kind.setting?, map_eq_ok_iff, readText_eq_ok_iff]
  | texts =>
    cases v with
    | array span ofTables items => exact mapM_readText_eq_ok_iff
    | string | integer | float | boolean | datetime | table => simp [Kind.read, Kind.setting?, Value.texts?]

theorem Kind.read_isOk_iff : (∃ setting, kind.read v = .ok setting) ↔ kind.Admits v := by
  cases kind with
  | text | path => simp [Kind.read, Kind.Admits, map_eq_ok_iff, readText_isOk_iff]
  | texts =>
    cases v with
    | array => simp [Kind.read, Kind.Admits, exists_mapM_eq_ok_iff, readText_isOk_iff]
    | string | integer | float | boolean | datetime | table => simp [Kind.read, Kind.Admits]

theorem Kind.setting?_isSome_iff : (∃ setting, kind.setting? v = some setting) ↔ kind.Admits v := by
  simp only [← read_eq_ok_iff, read_isOk_iff]

theorem Kind.setting?_eq (h : v.Alike w) (kind : Kind) : kind.setting? v = kind.setting? w := by
  cases kind with
  | text | path => rw [setting?, setting?, h.text?_eq]
  | texts => exact h.texts?_eq

end Kinds

section Encodings

variable {span : Toml.Span} {count : Nat} {fields : List (String × Kind)} {items : List Value}

theorem readTable_isOk_iff (hs : (s.fields.map Prod.fst).Nodup) : (∃ settings, s.readTable members = .ok settings) ↔
    ∀ m ∈ members, ∃ kind, (m.1.name, kind) ∈ s.fields ∧ kind.Admits m.2 := by
  rw [Section.readTable, exists_mapM_eq_ok_iff]
  simp only [mem_sorted, ← lookup_eq_some_iff hs]
  refine forall₂_congr fun m _ => ?_
  cases hkind : s.fields.lookup m.1.name with
  | none => simp
  | some kind => simp [map_eq_ok_iff, Kind.read_isOk_iff]

theorem readItems_isOk_iff : (∃ settings, s.readItems span count fields items = .ok settings) ↔
    fields.length ≤ items.length ∧ ∀ field item, (field, item) ∈ fields.zip items → field.2.Admits item := by
  induction fields generalizing count items with
  | nil => simp [Section.readItems]
  | cons field fields ih =>
    cases items with
    | nil => simp [Section.readItems]
    | cons item items =>
      calc (∃ settings, s.readItems span count (field :: fields) (item :: items) = .ok settings)
        _ ↔ (∃ setting, field.2.read item = .ok setting) ∧
            ∃ settings, s.readItems span (count + 1) fields items = .ok settings := by
          simp [Section.readItems, bind_eq_ok_iff, pure, Except.pure]
        _ ↔ field.2.Admits item ∧ fields.length ≤ items.length ∧
            ∀ field item, (field, item) ∈ fields.zip items → field.2.Admits item := by
          rw [Kind.read_isOk_iff, ih]
        _ ↔ _ := by
          simp [or_imp, forall_and, and_left_comm]

/-- A section is read just if it is one. -/
theorem Section.read_isOk_iff (hs : (s.fields.map Prod.fst).Nodup) :
    (∃ settings, s.read v = .ok settings) ↔ s.Admits v := by
  cases v with
  | table span how members =>
    constructor
    · exact fun h => .table ((readTable_isOk_iff hs).mp h)
    · rintro (h | _)
      exact (readTable_isOk_iff hs).mpr h
  | array span ofTables items =>
    constructor
    · intro h
      obtain ⟨henough, hfields⟩ := readItems_isOk_iff.mp h
      exact .array henough hfields
    · rintro (_ | ⟨henough, hfields⟩)
      exact readItems_isOk_iff.mpr ⟨henough, hfields⟩
  | string | integer | float | boolean | datetime =>
    constructor
    · rintro ⟨settings, h⟩
      cases h
    · intro h
      cases h

/-- What a section reads for a field is what the value there sets it to. -/
def Section.Reads (s : Section) (field : String) (v : Value) (setting : Setting) : Prop :=
  ∃ kind, (field, kind) ∈ s.fields ∧ kind.setting? v = some setting

theorem readTable_forall₂ (hs : (s.fields.map Prod.fst).Nodup) (h : s.readTable members = .ok settings) :
    List.Forall₂ (fun x y => x.1 = y.1 ∧ s.Reads x.1 x.2 y.2) (sorted members).entries settings := by
  refine forall₂_sorted (fun key v y hread => ?_) h
  dsimp only at hread
  split at hread
  · rename_i kind hkind
    obtain ⟨setting, hsetting, rfl⟩ := map_eq_ok_iff.mp hread
    exact ⟨rfl, kind, (lookup_eq_some_iff hs).mp hkind, Kind.read_eq_ok_iff.mp hsetting⟩
  · cases hread

theorem readItems_forall₂ (hfields : fields ⊆ s.fields)
    (h : s.readItems span count fields items = .ok settings) :
    List.Forall₂ (fun x y => x.1 = y.1 ∧ s.Reads x.1 x.2 y.2) ((fields.map Prod.fst).zip items) settings := by
  induction fields generalizing count items settings with
  | nil =>
    cases h
    exact .nil
  | cons field fields ih =>
    cases items with
    | nil => cases h
    | cons item items =>
      obtain ⟨hfield, hrest⟩ := List.cons_subset.mp hfields
      obtain ⟨setting, hsetting, h⟩ := bind_eq_ok_iff.mp h
      obtain ⟨others, hothers, heq⟩ := bind_eq_ok_iff.mp h
      cases heq
      exact .cons ⟨rfl, field.2, hfield, Kind.read_eq_ok_iff.mp hsetting⟩ (ih hrest hothers)

/-- What is read is what the section gives, in some order: a table is read by the order of its names. -/
theorem Section.read_forall₂ (hs : (s.fields.map Prod.fst).Nodup) (h : s.read v = .ok settings) :
    ∃ order, order.Perm (s.entries v) ∧
      List.Forall₂ (fun x y => x.1 = y.1 ∧ s.Reads x.1 x.2 y.2) order settings := by
  cases v with
  | table span how members => exact ⟨_, entries_sorted members, readTable_forall₂ hs h⟩
  | array span ofTables items => exact ⟨_, .refl _, readItems_forall₂ (List.Subset.refl _) h⟩
  | string | integer | float | boolean | datetime => cases h

theorem Section.entries_nodup (hs : (s.fields.map Prod.fst).Nodup) (hv : v.Distinct) :
    ((s.entries v).map Prod.fst).Nodup := by
  cases v with
  | table span how members =>
    rw [entries, Members.map_fst_entries]
    exact (Toml.Members.Distinct.of_table hv).names
  | array span ofTables items =>
    rw [entries, List.zip_eq_zip_take_min, List.map_fst_zip (by simp)]
    exact hs.sublist (List.take_sublist _ _)
  | string | integer | float | boolean | datetime => exact List.nodup_nil

/-- What is read for a field is what the section gives for it, and nothing is if it gives nothing. -/
theorem Section.lookup_read (hs : (s.fields.map Prod.fst).Nodup) (hv : v.Distinct) (h : s.read v = .ok settings)
    (hfield : (field, kind) ∈ s.fields) :
    Option.Rel (fun v setting => kind.setting? v = some setting) ((s.entries v).lookup field)
      (settings.lookup field) := by
  obtain ⟨order, hperm, hread⟩ := read_forall₂ hs h
  -- the order plays no part, since no name is given twice
  have hdistinct : (order.map Prod.fst).Nodup := (hperm.map _).nodup_iff.mpr (entries_nodup hs hv)
  have hrelated := lookup_rel hread field
  rw [← lookup_of_perm hperm hdistinct]
  generalize order.lookup field = found at hrelated ⊢
  generalize settings.lookup field = setting at hrelated ⊢
  cases hrelated with
  | none => exact .none
  | some hreads =>
    obtain ⟨kind', hfield', hsetting⟩ := hreads
    have hlookup := (lookup_eq_some_iff hs).mpr hfield'
    rw [(lookup_eq_some_iff hs).mpr hfield] at hlookup
    cases hlookup
    exact .some hsetting

end Encodings

section Documents

/-- A document is read just if it is a release file. -/
theorem readSections_isOk_iff : (∃ given, readSections sections members = .ok given) ↔ Conforms members := by
  rw [readSections, exists_mapM_eq_ok_iff, Conforms]
  simp only [mem_sorted, ← and_assoc, ← section_of_key]
  refine forall₂_congr fun m _ => ?_
  cases hfound : sections.find? (·.key == m.1.name) with
  | none => simp
  | some s =>
    have hs := fields_nodup s (section_of_key.mp hfound).1
    simp [map_eq_ok_iff, Section.read_isOk_iff hs]

/-- What is read for the key of a section is what its value reads as. -/
def Reads (key : String) (v : Value) (settings : Settings) : Prop :=
  ∃ s ∈ sections, s.key = key ∧ s.read v = .ok settings

theorem readSections_forall₂ (h : readSections sections members = .ok given) :
    List.Forall₂ (fun x y => x.1 = y.1 ∧ Reads x.1 x.2 y.2) (sorted members).entries given := by
  refine forall₂_sorted (fun key v y hread => ?_) h
  dsimp only at hread
  split at hread
  · rename_i s hfound
    obtain ⟨settings, hsettings, rfl⟩ := map_eq_ok_iff.mp hread
    obtain ⟨hs, hkey⟩ := section_of_key.mp hfound
    exact ⟨rfl, s, hs, hkey, hsettings⟩
  · cases hread

/-- What is read for a field of a section is what the document has for it, and nothing is if it has nothing. -/
theorem lookup_readSections (hmembers : members.Distinct) (h : readSections sections members = .ok given)
    (hs : s ∈ sections) (hfield : (field, kind) ∈ s.fields) :
    Option.Rel (fun v setting => kind.setting? v = some setting) (valueIn members s field)
      (((given.lookup s.key).getD []).lookup field) := by
  have hsorted : ((sorted members).entries.map Prod.fst).Nodup := by
    rw [((entries_sorted members).map _).nodup_iff, Members.map_fst_entries]
    exact hmembers.names
  have hrelated := lookup_rel (readSections_forall₂ h) s.key
  rw [lookup_of_perm (entries_sorted members) hsorted, ← Members.get?_eq_lookup] at hrelated
  rw [valueIn]
  generalize given.lookup s.key = found at hrelated ⊢
  cases hget : members.get? s.key with
  | none =>
    rw [hget] at hrelated
    cases hrelated
    exact .none
  | some v =>
    rw [hget] at hrelated
    cases hrelated with
    | some hreads =>
      obtain ⟨s', hs', hkey, hsettings⟩ := hreads
      have hsame : sections.find? (·.key == s.key) = some s' := section_of_key.mpr ⟨hs', hkey⟩
      rw [section_of_key.mpr ⟨hs, rfl⟩] at hsame
      cases hsame
      exact Section.lookup_read (fields_nodup s hs) (hmembers.get? hget) hsettings hfield

end Documents

end DebRelease.ReleaseFile
