import DebRelease.Proofs.FileTree.Within

namespace DebRelease

/-- What is at and below a place, seen from there. -/
abbrev Content := Location → Option Entry

namespace Content

/-- Nothing at all. -/
def none : Content := fun _ => .none

/-- A single entry. -/
def only (entry : Entry) : Content
  | [] => some entry
  | _ :: _ => .none

/-- A directory with named contents and nothing else. -/
def directory (contents : List (Bytes × Content)) : Content
  | [] => some .directory
  | name :: rest => (contents.lookup name).bind fun content => content rest

end Content

/-- Neither of two places lies at or below the other. -/
def Separate (place other : Location) : Prop :=
  ¬ place <+: other ∧ ¬ other <+: place

instance (place other : Location) : Decidable (Separate place other) := by
  unfold Separate; infer_instance

namespace Separate

variable {place other dir dir' : Location} {name name' : Bytes}

theorem symm (h : Separate place other) : Separate other place :=
  And.symm h

/-- Two entries of one directory are separate. -/
theorem of_ne (h : name ≠ name') : Separate (dir ++ [name]) (dir ++ [name']) := by
  constructor <;> simp [h, h.symm]

/-- So are entries of two directories with other names, if neither directory lies at or below the entry
    of the other. -/
theorem of_outside (h : name ≠ name') (hout : ¬ dir ++ [name] <+: dir') (hout' : ¬ dir' ++ [name'] <+: dir) :
    Separate (dir ++ [name]) (dir' ++ [name']) := by
  constructor
  · intro hpre
    rcases List.prefix_concat_iff.mp hpre with heq | habove
    · exact h (List.append_inj' heq rfl |>.2 |> List.singleton_inj.mp)
    · exact hout habove
  · intro hpre
    rcases List.prefix_concat_iff.mp hpre with heq | habove
    · exact h (List.append_inj' heq rfl |>.2 |> List.singleton_inj.mp).symm
    · exact hout' habove

theorem append (h : Separate place other) (rest : Location) : Separate place (other ++ rest) := by
  refine ⟨fun hpre => ?_, fun hpre => h.2 ((List.prefix_append _ _).trans hpre)⟩
  rcases List.prefix_or_prefix_of_prefix hpre (List.prefix_append other rest) with habove | hbelow
  · exact h.1 habove
  · exact h.2 hbelow

end Separate

theorem entry_not_above (dir : Location) (name : Bytes) : ¬ dir ++ [name] <+: dir := by
  intro hpre
  have hlength := hpre.length_le
  rw [List.length_append, List.length_singleton] at hlength
  omega

namespace FileTree

variable {t t' : FileTree} {place other location : Location} {content : Content} {entry : Entry}

/-- The tree has a content at a place. -/
def Contains (t : FileTree) (place : Location) (content : Content) : Prop :=
  ∀ rest, t.get? (place ++ rest) = content rest

namespace Contains

theorem get? (h : t.Contains place content) : t.get? place = content [] := by
  simpa using h []

/-- What is at a place, whatever it is. -/
theorem self (t : FileTree) (place : Location) : t.Contains place fun rest => t.get? (place ++ rest) :=
  fun _ => rfl

theorem child (h : t.Contains place content) (name : Bytes) :
    t.Contains (place ++ [name]) fun rest => content (name :: rest) := by
  intro rest
  rw [List.append_assoc, List.singleton_append, h]

theorem of_eq (h : t.Contains place content) (hsame : ∀ rest, t'.get? (place ++ rest) = t.get? (place ++ rest)) :
    t'.Contains place content :=
  fun rest => (hsame rest).trans (h rest)

/-- Changes within separate places leave it there. -/
theorem of_within {places : List Location} (h : t.Contains place content) (hwithin : Within places t t')
    (hseparate : ∀ changed ∈ places, Separate changed place) : t'.Contains place content :=
  h.of_eq fun rest => hwithin.get?_eq (fun changed hmem => ((hseparate changed hmem).append rest).1)
    (.inr fun changed hmem => ((hseparate changed hmem).append rest).2)

theorem of_none (hwf : t.WellFormed) (hnone : t.get? place = .none) : t.Contains place .none :=
  fun _ => hwf.none_of_prefix hnone (List.prefix_append _ _)

/-- An entry that is no directory is all there is. -/
theorem of_entry (hwf : t.WellFormed) (hget : t.get? place = some entry) (hnot : entry ≠ .directory) :
    t.Contains place (.only entry) := by
  intro rest
  cases rest with
  | nil => simpa [Content.only] using hget
  | cons => exact hwf.none_below (by simp [hget, hnot]) (List.cons_ne_nil _ _)

/-- A directory with nothing below it. -/
theorem of_empty (hget : t.get? place = some .directory) (hempty : ∀ rest ≠ [], t.get? (place ++ rest) = .none) :
    t.Contains place (.directory []) := by
  intro rest
  cases rest with
  | nil => simpa [Content.directory] using hget
  | cons => exact hempty _ (List.cons_ne_nil _ _)

/-- What a directory has under a name. -/
theorem named {contents : List (Bytes × Content)} {name : Bytes} (h : t.Contains place (.directory contents))
    (hentry : contents.lookup name = some content) : t.Contains (place ++ [name]) content := by
  intro rest
  rw [h.child name rest]
  change ((contents.lookup name).bind fun found => found rest) = content rest
  rw [hentry]
  rfl

/-- A directory to which a name is added. -/
theorem insert {contents : List (Bytes × Content)} {name : Bytes} (h : t.Contains place (.directory contents))
    (hfree : contents.lookup name = .none) (hnew : t'.Contains (place ++ [name]) content)
    (hsame : ∀ rest, ¬ [name] <+: rest → t'.get? (place ++ rest) = t.get? (place ++ rest)) :
    t'.Contains place (.directory (contents ++ [(name, content)])) := by
  intro rest
  cases rest with
  | nil => exact (hsame [] (by simp)).trans (h [])
  | cons last rest =>
    by_cases heq : last = name
    · subst heq
      have hlookup : (contents ++ [(last, content)]).lookup last = some content := by
        simp [List.lookup_append, hfree]
      rw [List.append_cons, hnew rest, Content.directory, hlookup]
      rfl
    · have hlookup : (contents ++ [(name, content)]).lookup last = contents.lookup last := by
        simp [List.lookup_append, List.lookup_cons, beq_false_of_ne heq]
      rw [hsame _ fun hpre => heq (List.cons_prefix_cons.mp hpre).1.symm, h, Content.directory, Content.directory,
        hlookup]

/-- Whether a tree is at a place of another shows at the entries of both. -/
theorem iff_places {tree : FileTree} : t.Contains place tree.get? ↔
    ∀ rest ∈ tree.places ++ t.places.map (·.drop place.length), t.get? (place ++ rest) = tree.get? rest := by
  refine ⟨fun h rest _ => h rest, fun h rest => ?_⟩
  by_cases hthere : rest ∈ tree.places
  · exact h rest (List.mem_append_left _ hthere)
  by_cases hthere' : place ++ rest ∈ t.places
  · refine h rest (List.mem_append_right _ (List.mem_map.mpr ⟨place ++ rest, hthere', ?_⟩))
    rw [List.drop_left]
  · rw [get?_of_not_mem_places hthere, get?_of_not_mem_places hthere']

instance (t tree : FileTree) (place : Location) : Decidable (t.Contains place tree.get?) :=
  decidable_of_iff' _ iff_places

end Contains

end FileTree

end DebRelease
