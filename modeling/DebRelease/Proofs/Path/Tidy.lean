import DebRelease.Proofs.Path.Normal

namespace DebRelease.Path

variable {p above : Path} {name : Bytes} {names : List Bytes} {segments front : List Bytes} {last : Bytes}

/-- A path spelled without `.`, `..` and a slash at its end. -/
structure IsTidy (p : Path) : Prop where
  noDot : dot ∉ p.names
  noDotDot : dotDot ∉ p.names
  noSlash : p.endsInSlash = false

instance (p : Path) : Decidable p.IsTidy :=
  decidable_of_iff (dot ∉ p.names ∧ dotDot ∉ p.names ∧ p.endsInSlash = false)
    ⟨fun ⟨hdot, hdotDot, hslash⟩ => ⟨hdot, hdotDot, hslash⟩, fun h => ⟨h.noDot, h.noDotDot, h.noSlash⟩⟩

/-- A path is what its segments spell. -/
theorem ofSegments_segments (p : Path) : ofSegments p.isAbsolute p.segments = p := by
  rw [ofSegments, segments, Bytes.joinWith_splitOn]
  split
  · rename_i habsolute
    obtain ⟨rest, hrest⟩ := isAbsolute_iff.mp habsolute
    cases p
    simp_all
  · rfl

/-- Where the last segment is not empty, there is no slash at the end. -/
theorem endsInSlash_ofSegments (absolute : Bool) (front : List Bytes) (hne : last ≠ []) (hslash : slash ∉ last) :
    (ofSegments absolute (front ++ [last])).endsInSlash = false := by
  obtain ⟨init, b, rfl⟩ := (List.eq_nil_or_concat last).resolve_left hne
  rw [List.concat_eq_append] at hslash ⊢
  have hb : b ≠ slash := by
    rintro rfl
    simp at hslash
  rw [endsInSlash, ofSegments, ← Bytes.joinWith_append_last, ← List.append_assoc, List.getLast?_concat]
  simpa using hb

theorem isAbsolute_ofSegments_false (hfirst : front.head? ≠ some []) (hslash : ∀ segment ∈ front, slash ∉ segment) :
    (ofSegments false front).isAbsolute = false := by
  rcases front with _ | ⟨_ | ⟨b, first⟩, rest⟩
  · rfl
  · simp at hfirst
  · have hb : b ≠ slash := by
      rintro rfl
      simpa using hslash _ List.mem_cons_self
    cases rest <;> simpa [ofSegments, Bytes.joinWith, isAbsolute] using hb

private theorem joinWith_segments (hslash : ∀ segment ∈ front, slash ∉ segment) :
    Bytes.splitOn slash (Bytes.joinWith slash front) = if front = [] then [[]] else front := by
  split
  · rename_i hnil
    rw [hnil]
    rfl
  · rename_i hne
    exact Bytes.splitOn_joinWith hne hslash

/-- The names of a path that is put together from segments. -/
theorem names_ofSegments_filter (absolute : Bool) (hslash : ∀ segment ∈ front, slash ∉ segment) :
    (ofSegments absolute front).names = front.filter (! ·.isEmpty) := by
  have hparts :
      (Bytes.splitOn slash (Bytes.joinWith slash front)).filter (! ·.isEmpty) = front.filter (! ·.isEmpty) := by
    rw [joinWith_segments hslash]
    split
    · rename_i hnil
      simp [hnil]
    · rfl
  rw [names_eq, ofSegments]
  cases absolute with
  | false => simpa using hparts
  | true =>
    rw [if_pos rfl, List.singleton_append, ← List.nil_append (slash :: _), Bytes.splitOn_append, List.filter_append,
      hparts]
    rfl

private theorem segments_ofSegments_of_first (absolute : Bool) (hfirst : absolute = false → front.head? ≠ some [])
    (hslash : ∀ segment ∈ front, slash ∉ segment) :
    (ofSegments absolute front).isAbsolute = absolute ∧
      (ofSegments absolute front).segments = if front = [] then [[]] else front := by
  cases absolute with
  | true => exact ⟨isAbsolute_ofSegments front, segments_ofSegments hslash⟩
  | false =>
    have habsolute := isAbsolute_ofSegments_false (hfirst rfl) hslash
    refine ⟨habsolute, ?_⟩
    rw [segments, habsolute, ← joinWith_segments hslash]
    rfl

private theorem significant_of_noDot (h : dot ∉ p.segments) : p.significant = dropTrailing isTrivial p.segments := by
  rw [significant]
  split
  · rename_i first rest _ hsegments
    have hfirst : first ≠ dot := fun heq => h (by simp [hsegments, heq])
    rw [if_neg (by simpa using hfirst), hsegments]
  · rfl

private theorem dropTrailing_prefix (segments : List Bytes) : dropTrailing isTrivial segments <+: segments := by
  rw [dropTrailing, ← List.reverse_suffix, List.reverse_reverse]
  exact List.dropWhile_suffix _

/-- A path that is not empty and does not end in a slash has a last segment that is not empty. -/
private theorem segments_concat (hne : p.names ≠ []) (hend : p.endsInSlash = false) :
    ∃ front last, p.segments = front ++ [last] ∧ last ≠ [] := by
  obtain ⟨front, last, hsegments⟩ :=
    (List.eq_nil_or_concat p.segments).resolve_left (Bytes.splitOn_ne_nil slash _)
  rw [List.concat_eq_append] at hsegments
  refine ⟨front, last, hsegments, ?_⟩
  rintro rfl
  have hfront : front ≠ [] := by
    rintro rfl
    exact hne (by simp [names, hsegments])
  rw [← ofSegments_segments p, hsegments, endsInSlash, ofSegments, Bytes.joinWith_concat hfront, ← List.append_assoc,
    List.getLast?_concat] at hend
  simp at hend

/-- A relative path does not begin with an empty segment that another follows. -/
private theorem head?_ne_nil (hrelative : p.isAbsolute = false) (hsegments : p.segments = front ++ [last]) :
    front.head? ≠ some [] := by
  intro hhead
  obtain ⟨rest, rfl⟩ := List.head?_eq_some_iff.mp hhead
  have hspelled := ofSegments_segments p
  rw [hrelative, hsegments] at hspelled
  rw [← hspelled, ← Bool.not_eq_true] at hrelative
  exact hrelative (isAbsolute_iff.mpr ⟨Bytes.joinWith slash (rest ++ [last]), by cases rest <;> rfl⟩)

namespace IsTidy

theorem dot_not_mem (h : p.IsTidy) : dot ∉ p.segments :=
  fun hmem => h.noDot (mem_names_iff.mpr ⟨hmem, by decide⟩)

/-- Of the segments of a tidy path, those that add nothing are empty. -/
private theorem isTrivial_eq (h : p.IsTidy) {segment : Bytes} (hmem : segment ∈ p.segments) :
    isTrivial segment = segment.isEmpty := by
  have hne : segment ≠ dot := fun heq => h.dot_not_mem (heq ▸ hmem)
  simp [isTrivial, hne]

private theorem filter_isTrivial (h : p.IsTidy) (hmem : ∀ segment ∈ segments, segment ∈ p.segments) :
    segments.filter (! isTrivial ·) = segments.filter (! ·.isEmpty) :=
  List.filter_congr fun segment hin => by rw [h.isTrivial_eq (hmem segment hin)]

private theorem parent?_of_segments (h : p.IsTidy) (hsegments : p.segments = front ++ [last]) (hlast : last ≠ []) :
    p.parent? = some (ofSegments p.isAbsolute (dropTrailing isTrivial front)) := by
  have hfront : ∀ segment ∈ front, segment ∈ p.segments := fun segment hmem => by simp [hsegments, hmem]
  have hall : p.significant = front ++ [last] := by
    rw [significant_of_noDot h.dot_not_mem, hsegments]
    simp [dropTrailing, h.isTrivial_eq (show last ∈ p.segments by simp [hsegments]), hlast]
  obtain ⟨-, hinner⟩ := segments_ofSegments_of_first p.isAbsolute (head?_ne_nil · hsegments)
    fun segment hmem => slash_not_mem_segment (hfront segment hmem)
  rw [parent?_of_significant hall, significant_of_noDot, hinner]
  · split
    · rename_i hnil
      rw [hnil]
      rfl
    · rfl
  · rw [hinner]
    split
    · decide
    · exact fun hmem => h.dot_not_mem (hfront _ hmem)

/-- The directory of a tidy path has the names of the path but the last one, and is tidy if there are any. -/
theorem parent? (h : p.IsTidy) (hnames : p.names = names ++ [name]) :
    ∃ above, p.parent? = some above ∧ above.isAbsolute = p.isAbsolute ∧ above.names = names ∧
      above.bytes <+: p.bytes ∧ above.bytes.length < p.bytes.length ∧ (names ≠ [] → above.IsTidy) := by
  obtain ⟨front, last, hsegments, hlast⟩ := segments_concat (by simp [hnames]) h.noSlash
  let kept := dropTrailing isTrivial front
  obtain ⟨dropped, hdropped⟩ : kept <+: front := dropTrailing_prefix front
  have hfront : ∀ segment ∈ front, segment ∈ p.segments := fun segment hmem => by simp [hsegments, hmem]
  have hkept : ∀ segment ∈ kept, segment ∈ p.segments := fun segment hmem => hfront segment (mem_dropTrailing hmem)
  have hslash : ∀ segment ∈ kept, slash ∉ segment := fun segment hmem => slash_not_mem_segment (hkept segment hmem)
  have habove : (ofSegments p.isAbsolute kept).names = names := by
    rw [names_ofSegments_filter _ hslash, ← h.filter_isTrivial hkept, filter_dropTrailing, h.filter_isTrivial hfront]
    have hfinal : [last].filter (! ·.isEmpty) = [last] := by simp [List.isEmpty_eq_false_iff.mpr hlast]
    rw [Path.names, hsegments, List.filter_append, hfinal] at hnames
    exact (List.append_inj' hnames rfl).1
  have hbytes : (ofSegments p.isAbsolute kept).bytes <+: p.bytes := by
    conv_rhs => rw [← ofSegments_segments p, hsegments, ← hdropped, List.append_assoc]
    exact (List.prefix_append_right_inj _).mpr (Bytes.joinWith_prefix _ _)
  have hshorter : (ofSegments p.isAbsolute kept).bytes.length < p.bytes.length := by
    refine lt_of_le_of_ne hbytes.length_le fun hlength => ?_
    have heq : ofSegments p.isAbsolute kept = p := congrArg Path.mk (hbytes.eq_of_length hlength)
    rw [heq, hnames] at habove
    simp at habove
  refine ⟨_, h.parent?_of_segments hsegments hlast, ?_, habove, hbytes, hshorter, fun hne => ⟨?_, ?_, ?_⟩⟩
  · refine (segments_ofSegments_of_first p.isAbsolute (fun hrelative hhead => ?_) hslash).1
    obtain ⟨rest, hrest⟩ := List.head?_eq_some_iff.mp hhead
    exact head?_ne_nil hrelative hsegments (by rw [← hdropped, hrest]; rfl)
  · exact fun hmem => h.noDot (by rw [hnames, ← habove]; exact List.mem_append_left _ hmem)
  · exact fun hmem => h.noDotDot (by rw [hnames, ← habove]; exact List.mem_append_left _ hmem)
  · rcases List.eq_nil_or_concat kept with hnil | ⟨init, final, hconcat⟩
    · rw [← habove, names_ofSegments_filter _ hslash, hnil] at hne
      exact absurd rfl hne
    · rw [List.concat_eq_append] at hconcat
      change (ofSegments p.isAbsolute kept).endsInSlash = false
      rw [hconcat] at hslash ⊢
      refine endsInSlash_ofSegments _ init ?_ (hslash final (by simp))
      rintro rfl
      exact absurd (dropTrailing_concat hconcat) (by decide)

end IsTidy

/-- The path of an entry has the names of its directory and one more. -/
theorem join_name (p : Path) (h : isName name = true) :
    (p.join ⟨name⟩).isAbsolute = p.isAbsolute ∧ (p.join ⟨name⟩).names = p.names ++ [name] ∧
      (p.join ⟨name⟩).endsInSlash = false := by
  obtain ⟨hrelative, hname⟩ := names_of_isName h
  obtain ⟨habsolute, hnames⟩ := names_join p hrelative
  exact ⟨habsolute, by rw [hnames, hname], endsInSlash_join_name p h⟩

/-- A slash at the end adds no name. -/
theorem join_empty (p : Path) : (p.join empty).isAbsolute = p.isAbsolute ∧ (p.join empty).names = p.names := by
  obtain ⟨habsolute, hnames⟩ := names_join p (show empty.isAbsolute = false from rfl)
  exact ⟨habsolute, by rw [hnames, show empty.names = [] from rfl, List.append_nil]⟩

/-- The path of what lies below a directory, by the names on the way. -/
def descend (p : Path) (rest : Location) : Path :=
  rest.foldl (fun above name => above.join ⟨name⟩) p

@[simp] theorem descend_nil (p : Path) : p.descend [] = p := rfl

theorem descend_cons (p : Path) (name : Bytes) (rest : Location) :
    p.descend (name :: rest) = (p.join ⟨name⟩).descend rest := rfl

theorem descend_concat (p : Path) (rest : Location) (name : Bytes) :
    p.descend (rest ++ [name]) = (p.descend rest).join ⟨name⟩ :=
  List.foldl_concat ..

theorem length_join_name (p : Path) (h : isName name = true) :
    p.bytes.length < (p.join ⟨name⟩).bytes.length := by
  have hlength := List.length_pos_iff.mpr (isName_iff.mp h).1
  rw [join, (names_of_isName h).1, if_neg (by simp)]
  split
  all_goals
    simp only [List.length_append, List.length_cons]
    omega

/-- A path is at least as long as there are names on its way. -/
theorem length_descend {rest : Location} (p : Path) (h : ∀ name ∈ rest, isName name = true) :
    p.bytes.length + rest.length ≤ (p.descend rest).bytes.length := by
  induction rest generalizing p with
  | nil => simp
  | cons name rest ih =>
    have hjoin := length_join_name p (h name List.mem_cons_self)
    have hrest := ih (p.join ⟨name⟩) fun other hmem => h other (List.mem_cons_of_mem _ hmem)
    rw [descend_cons, List.length_cons]
    omega

end DebRelease.Path
