import Mathlib
import DebRelease.Manifest.Version
import DebRelease.Proofs.Json.RoundTrip

namespace DebRelease.Manifest

open Json

variable {manifest versioned : Bytes} {version : String} {members : Members}

private theorem setVersion_object (hread : parse manifest = .ok (.object members)) (version : String) :
    setVersion manifest version =
      .ok (Bytes.ofText (print (.object (members.set "version" (.string version))) ++ "\n")) := by
  rw [setVersion, hread]
  rfl

private theorem object_of_setVersion (h : setVersion manifest version = .ok versioned) :
    ∃ members : Members, parse manifest = .ok (.object members) := by
  rw [setVersion] at h
  cases hread : parse manifest with
  | error problem =>
    rw [hread] at h
    cases h
  | ok value =>
    rw [hread] at h
    cases value with
    | object members => exact ⟨members, rfl⟩
    | _ => cases h

/-- An object stays readable when its version is set. -/
private theorem formed_set (hformed : (Value.object members).Formed nestingLimit) (version : String) :
    (Value.object (members.set "version" (.string version))).Formed nestingLimit := by
  cases hformed with
  | object distinct formed =>
    refine .object (Members.nodup_set distinct "version" (.string version)) fun m hmem => ?_
    obtain rfl | hmem := Members.mem_of_mem_set hmem
    · exact .string version
    · exact formed m hmem

private theorem isWhole_set (hwhole : (Value.object members).IsWhole) (version : String) :
    (Value.object (members.set "version" (.string version))).IsWhole := by
  cases hwhole with
  | object whole =>
    refine .object fun m hmem => ?_
    obtain rfl | hmem := Members.mem_of_mem_set hmem
    · exact .string version
    · exact whole m hmem

/-- A manifest whose numbers are whole is, once its version is set, the same object but for its version, whatever the
    version's text is. The version keeps its place or takes the last one. Hence of two settings the later one
    decides every byte. -/
theorem setVersion_sets (haccepted : setVersion manifest version = .ok versioned)
    (hwhole : ∀ value, parse manifest = .ok value → value.IsWhole) :
    ∃ before after : Members, parse manifest = .ok (.object before) ∧ before.keys.Nodup ∧
      parse versioned = .ok (.object after) ∧ Members.IsSet "version" (.string version) before after ∧
      ∀ next, ∃ renewed, setVersion manifest next = .ok renewed ∧ setVersion versioned next = .ok renewed := by
  obtain ⟨before, hread⟩ := object_of_setVersion haccepted
  have hformed := formed_parse hread
  have hdistinct : before.keys.Nodup := by
    cases hformed with
    | object distinct _ => exact distinct
  have hprinted := haccepted.symm.trans (setVersion_object hread version)
  have hafter : parse versioned = .ok (.object (before.set "version" (.string version))) := by
    rw [Except.ok.inj hprinted]
    exact parse_print (formed_set hformed version) (isWhole_set (hwhole _ hread) version)
  refine ⟨before, _, hread, hdistinct, hafter, Members.isSet_set hdistinct _ _, fun next => ?_⟩
  refine ⟨_, setVersion_object hread next, ?_⟩
  rw [setVersion_object hafter next, Members.set_set]

/-- A version that holds a quote, set in a manifest with a nested and a repeated version. -/
theorem setVersion_sets_nested :
    let manifest := Bytes.ofText "\x7b\"version\":\"1\",\"a\":[-2,\x7b\"version\":3\x7d],\"version\":null\x7d"
    ∃ versioned, setVersion manifest "2\"" = .ok versioned ∧ (∀ value, parse manifest = .ok value → value.IsWhole) ∧
      ∃ before after : Members, parse manifest = .ok (.object before) ∧ before.keys.Nodup ∧
        parse versioned = .ok (.object after) ∧ Members.IsSet "version" (.string "2\"") before after ∧
        ∀ next, ∃ renewed, setVersion manifest next = .ok renewed ∧ setVersion versioned next = .ok renewed := by
  intro manifest
  have hread : parse manifest = .ok (.object [("version", .null),
      ("a", .array [.number (.integer (-2)), .object [("version", .number (.integer 3))]])]) := by
    dsimp only [manifest]
    rw [Bytes.ofText_eq]
    cbv
  have hwhole : ∀ value, parse manifest = .ok value → value.IsWhole := by
    intro value hvalue
    obtain rfl := Except.ok.inj (hread.symm.trans hvalue)
    refine .object fun m hmem => ?_
    simp only [List.mem_cons, List.not_mem_nil, or_false] at hmem
    obtain rfl | rfl := hmem
    · exact .null
    refine .array fun v hmem => ?_
    simp only [List.mem_cons, List.not_mem_nil, or_false] at hmem
    obtain rfl | rfl := hmem
    · exact .number _
    refine .object fun m hmem => ?_
    obtain rfl := List.mem_singleton.mp hmem
    exact .number _
  have haccepted := setVersion_object hread "2\""
  exact ⟨_, haccepted, hwhole, setVersion_sets haccepted hwhole⟩

end DebRelease.Manifest
