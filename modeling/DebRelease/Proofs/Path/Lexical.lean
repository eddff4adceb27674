import DebRelease.Proofs.Path.Tidy
import Mathlib.Logic.Relation

namespace DebRelease.Path

/-- A rule is used once on the components that a path from the root is written with. -/
inductive Simplifies : List Bytes → List Bytes → Prop where
  /-- An empty component or `.` is dropped. -/
  | drop (front rest : List Bytes) {component : Bytes} (h : isTrivial component = true) :
      Simplifies (front ++ component :: rest) (front ++ rest)
  /-- `..` removes the name before it. -/
  | climb (front rest : List Bytes) {name : Bytes} (h : isName name = true) :
      Simplifies (front ++ name :: dotDot :: rest) (front ++ rest)
  /-- At the root `..` stays there. -/
  | stay (rest : List Bytes) : Simplifies (dotDot :: rest) rest

/-- What the components of a path come to when no rule can be used any more. -/
structure IsNormalFormOf (q p : Path) : Prop where
  normal : q.IsNormal
  simplified : Relation.ReflTransGen Simplifies p.segments q.names

variable {base p q : Path} {component name : Bytes} {components simpler names : List Bytes}

theorem foldNames_of_isTrivial (names : List Bytes) (h : isTrivial component = true) :
    foldNames names component = names := by
  have hup : component ≠ dotDot := by
    rintro rfl
    exact absurd h (by decide)
  rw [foldNames, if_neg (by simpa using hup), if_pos h]

theorem foldNames_dotDot (names : List Bytes) : foldNames names dotDot = names.tail :=
  if_pos (by decide)

theorem foldNames_of_isName (names : List Bytes) (h : isName name = true) : foldNames names name = name :: names := by
  obtain ⟨hne, hdot, hdotDot, -⟩ := isName_iff.mp h
  rw [foldNames, if_neg (by simpa using hdotDot), if_neg (by simp [isTrivial, hne, hdot])]

theorem foldl_foldNames_of_isName (names : List Bytes) (h : ∀ name ∈ components, isName name = true) :
    components.foldl foldNames names = components.reverse ++ names := by
  induction components generalizing names with
  | nil => rfl
  | cons name components ih =>
    rw [List.forall_mem_cons] at h
    rw [List.foldl_cons, foldNames_of_isName names h.1, ih _ h.2, List.reverse_cons, List.append_assoc]
    rfl

theorem foldl_foldNames_filter (components names : List Bytes) :
    (components.filter (! isTrivial ·)).foldl foldNames names = components.foldl foldNames names := by
  induction components generalizing names with
  | nil => rfl
  | cons component components ih =>
    cases htrivial : isTrivial component with
    | true =>
      rw [List.filter_cons_of_neg (by simp [htrivial]), ih, List.foldl_cons, foldNames_of_isTrivial names htrivial]
    | false => rw [List.filter_cons_of_pos (by simp [htrivial]), List.foldl_cons, ih, List.foldl_cons]

/-- Folding comes to the same before and after a rule is used. -/
theorem Simplifies.foldl_eq (h : Simplifies components simpler) :
    simpler.foldl foldNames [] = components.foldl foldNames [] := by
  cases h with
  | drop front rest htrivial => simp only [List.foldl_append, List.foldl_cons, foldNames_of_isTrivial _ htrivial]
  | climb front rest hname =>
    simp only [List.foldl_append, List.foldl_cons, foldNames_of_isName _ hname, foldNames_dotDot, List.tail_cons]
  | stay rest => rfl

theorem foldl_eq_of_simplified (h : Relation.ReflTransGen Simplifies components simpler) :
    simpler.foldl foldNames [] = components.foldl foldNames [] := by
  induction h with
  | refl => rfl
  | tail _ hrule ih => exact hrule.foldl_eq.trans ih

/-- What folding leaves is come to by the rules: the names folded so far, the last one first, stand before the
    components that are left. -/
theorem simplifies_foldl (hslash : ∀ component ∈ components, slash ∉ component)
    (hnames : ∀ name ∈ names, isName name = true) :
    Relation.ReflTransGen Simplifies (names.reverse ++ components) (components.foldl foldNames names).reverse := by
  induction components generalizing names with
  | nil =>
    rw [List.append_nil]
    exact .refl
  | cons component components ih =>
    rw [List.forall_mem_cons] at hslash
    rw [List.foldl_cons]
    by_cases hup : component = dotDot
    · subst hup
      rw [foldNames_dotDot]
      cases names with
      | nil => exact .head (.stay components) (ih hslash.2 (List.forall_mem_nil _))
      | cons name names =>
        rw [List.forall_mem_cons] at hnames
        rw [List.reverse_cons, List.append_assoc]
        exact .head (.climb names.reverse components hnames.1) (ih hslash.2 hnames.2)
    · cases htrivial : isTrivial component with
      | true =>
        rw [foldNames_of_isTrivial names htrivial]
        exact .head (.drop names.reverse components htrivial) (ih hslash.2 hnames)
      | false =>
        simp only [isTrivial, Bool.or_eq_false_iff, List.isEmpty_eq_false_iff, beq_eq_false_iff_ne] at htrivial
        have hname : isName component = true := isName_iff.mpr ⟨htrivial.1, htrivial.2, hup, hslash.1⟩
        have hrest := ih hslash.2 (List.forall_mem_cons.mpr ⟨hname, hnames⟩)
        rw [List.reverse_cons, List.append_assoc] at hrest
        rwa [foldNames_of_isName names hname]

/-- The normal forms are the paths written from a place. -/
theorem isNormal_iff : p.IsNormal ↔ p = ofLocation p.names ∧ ∀ name ∈ p.names, isName name = true := by
  constructor
  · rintro (rfl | ⟨habsolute, hsegments⟩)
    · decide
    · have hnames : p.names = p.segments := by
        rw [Path.names, List.filter_eq_self]
        intro segment hmem
        simpa using (isName_iff.mp (hsegments segment hmem)).1
      rw [hnames]
      refine ⟨?_, hsegments⟩
      rw [ofLocation, ← habsolute, ofSegments_segments]
  · rintro ⟨heq, hnames⟩
    rw [IsNormal, heq]
    generalize p.names = location at hnames
    rw [segments_ofSegments (slash_not_mem_of_isName hnames)]
    split
    · rename_i hnil
      exact .inl (by rw [hnil]; rfl)
    · exact .inr ⟨isAbsolute_ofSegments location, hnames⟩

theorem isNormal_ofLocation (h : ∀ name ∈ names, isName name = true) : (ofLocation names).IsNormal :=
  isNormal_iff.mpr (by rw [names_ofLocation h]; exact ⟨rfl, h⟩)

theorem isNormal_absoluteFrom (base p : Path) : (base.absoluteFrom p).IsNormal := by
  obtain ⟨location, hnames, heq⟩ := absoluteFrom_eq base p
  rw [heq]
  exact isNormal_ofLocation hnames

theorem IsNormal.isAbsolute (h : p.IsNormal) : p.isAbsolute = true := by
  rw [(isNormal_iff.mp h).1]
  exact isAbsolute_ofSegments _

/-- A path in normal form is read as it is from everywhere. -/
theorem IsNormal.absoluteFrom (h : p.IsNormal) (base : Path) : base.absoluteFrom p = p := by
  obtain ⟨heq, hnames⟩ := isNormal_iff.mp h
  have hplace : p.place = p.names := by
    rw [heq]
    exact (isDirect_ofLocation hnames).2.trans (names_ofLocation hnames).symm
  have hfold : p.segments.foldl foldNames [] = p.names.reverse := by
    rw [← foldl_foldNames_filter, ← place_eq_filter_segments, hplace, foldl_foldNames_of_isName [] hnames,
      List.append_nil]
  rw [Path.absoluteFrom, if_pos h.isAbsolute, List.nil_append, hfold, ofNames, List.reverse_reverse]
  exact heq.symm

/-- Reading a path from a directory folds the components of the two joined. -/
theorem absoluteFrom_eq_foldl (base p : Path) :
    base.absoluteFrom p = ofLocation ((base.join p).segments.foldl foldNames []).reverse := by
  rw [absoluteFrom, ofNames, ← foldl_foldNames_filter (base.join p).segments, ← place_eq_filter_segments]
  cases habsolute : p.isAbsolute with
  | true =>
    rw [join, if_pos habsolute, place_eq_filter_segments, foldl_foldNames_filter]
    rfl
  | false =>
    have hplace : (base.join p).place = base.place ++ p.place := by
      rw [place, (names_join base habsolute).2, List.filter_append]
      rfl
    rw [hplace, place_eq_filter_segments, place_eq_filter_segments, ← List.filter_append, foldl_foldNames_filter]
    rfl

/-- What is read from a directory is the normal form of the two joined, and the only one. -/
theorem isNormalFormOf_join_iff : q.IsNormalFormOf (base.join p) ↔ q = base.absoluteFrom p := by
  constructor
  · rintro ⟨hnormal, hsimplified⟩
    obtain ⟨heq, hnames⟩ := isNormal_iff.mp hnormal
    rw [absoluteFrom_eq_foldl, ← foldl_eq_of_simplified hsimplified, foldl_foldNames_of_isName [] hnames,
      List.append_nil, List.reverse_reverse]
    exact heq
  · rintro rfl
    refine ⟨isNormal_absoluteFrom base p, ?_⟩
    have hnames : (base.absoluteFrom p).names = ((base.join p).segments.foldl foldNames []).reverse := by
      rw [absoluteFrom_eq_foldl, names_ofLocation]
      intro name hmem
      exact foldNames_isName (List.forall_mem_nil _) (fun _ => slash_not_mem_segment) name (List.mem_reverse.mp hmem)
    rw [hnames]
    exact simplifies_foldl (fun _ => slash_not_mem_segment) (List.forall_mem_nil _)

end DebRelease.Path
